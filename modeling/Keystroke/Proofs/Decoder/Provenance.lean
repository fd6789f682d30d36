import Keystroke.Proofs.Decoder.Factorisation
import Keystroke.Proofs.Decoder.Pending

/-! # Where segments come from

Every segment of a run is a complete string, decided while it was fed, or it is
all that was held back, decided by a flush.
-/

namespace Keystroke.Decoder

inductive Provenance (backspace : UInt8) (segment : Segment) : Prop
  | fed : Complete backspace segment.bytes segment.event → Provenance backspace segment
  | flushed :
      HeldBack backspace segment.bytes → resolution segment.bytes = [segment.event] →
      Provenance backspace segment

theorem Provenance.ne_nil {backspace : UInt8} {segment : Segment}
    (h : Provenance backspace segment) : segment.bytes ≠ [] := by
  cases h with
  | fed hcomplete => exact hcomplete.ne_nil
  | flushed _ hresolution =>
      intro hnil
      rw [hnil] at hresolution
      cases hresolution

theorem complete_of_mem_scan {backspace : UInt8} {input : Bytes} {segment : Segment}
    (h : segment ∈ (scan backspace false input).1) :
    Complete backspace segment.bytes segment.event :=
  (factorisation_scan backspace input).complete (segment.bytes, segment.event)
    (List.mem_map.2 ⟨segment, h, rfl⟩)

theorem HeldBack.provenance {backspace : UInt8} {bytes : Bytes} (h : HeldBack backspace bytes)
    {segment : Segment} (hmem : segment ∈ (scan backspace true bytes).1) :
    Provenance backspace segment := by
  rw [h.scan_eq] at hmem
  obtain ⟨event, hevent, rfl⟩ := List.mem_map.1 hmem
  have hne : bytes ≠ [] := by
    rintro rfl
    cases hevent
  obtain ⟨other, hother⟩ := exists_resolution hne
  rw [hother, List.mem_singleton] at hevent
  rw [← hevent] at hother
  exact .flushed h hother

theorem Settled.provenance {d : Decoder} (h : d.Settled) (calls : List Call) :
    ∀ segment ∈ (d.run calls).1, Provenance d.backspace segment := by
  induction calls generalizing d with
  | nil =>
      intro segment hmem
      cases hmem
  | cons call calls ih =>
      intro segment hmem
      rw [run_cons] at hmem
      rcases List.mem_append.1 hmem with hmem | hmem
      · cases call with
        | feed bytes => exact .fed (complete_of_mem_scan hmem)
        | flush => exact (decodeOne_eq_incomplete_iff.1 h).provenance hmem
      · rw [← answer_backspace d call]
        exact ih (settled_answer d call) segment hmem

/-- Runs from the start. -/
theorem provenance_run (backspace : UInt8) (calls : List Call) :
    ∀ segment ∈ ((new backspace).run calls).1, Provenance backspace segment :=
  (settled_new backspace).provenance calls

end Keystroke.Decoder
