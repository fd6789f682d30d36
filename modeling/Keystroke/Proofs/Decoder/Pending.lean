import Keystroke.Proofs.ControlSequence.Unfinished
import Keystroke.Proofs.Decoder.Character
import Keystroke.Proofs.Decoder.Run

/-! # Bytes held back

The strings that a decoder can hold back, for a given erase character, and what
a flush makes of each of them. An undecided string is one of a few shapes: the
start of an escape, a character whose continuation bytes are still to come, with
or without Alt, or an unfinished control sequence.
-/

namespace Keystroke.Decoder

inductive HeldBack (backspace : UInt8) : Bytes → Prop
  | nothing : HeldBack backspace []
  | escape : HeldBack backspace [0x1b]
  | bracket : HeldBack backspace [0x1b, 0x5b]
  | singleShift : HeldBack backspace [0x1b, 0x4f]
  | character {bytes : Bytes} : PartialCharacter backspace bytes → HeldBack backspace bytes
  | altCharacter {bytes : Bytes} :
      PartialCharacter backspace bytes → HeldBack backspace (0x1b :: bytes)
  | sequence {body : Bytes} :
      body ≠ [] → ControlSequence.Unfinished body → HeldBack backspace (0x1b :: 0x5b :: body)

/-- The keys that a flush makes of the bytes held back. -/
def resolution (bytes : Bytes) : List KeyEvent :=
  if bytes = [] then []
  else if bytes = [0x1b] then [.function .escape]
  else if bytes = [0x1b, 0x5b] then [.press (.codepoint '[') .onlyAlt]
  else if bytes = [0x1b, 0x4f] then [.press (.codepoint 'O') .onlyAlt]
  else [.invalid]

/-! ## Undecided input -/

theorem Step.shift_eq_incomplete_iff {step : Step} {n : Nat} :
    step.shift n = .incomplete ↔ step = .incomplete := by
  cases step <;> simp [Step.shift]

theorem Step.mapEvent_eq_incomplete_iff {step : Step} {f : KeyEvent → KeyEvent} :
    step.mapEvent f = .incomplete ↔ step = .incomplete := by
  cases step <;> simp [Step.mapEvent]

theorem decodeOne_escape (backspace : UInt8) (atEnd : Bool) (rest : Bytes) :
    decodeOne backspace atEnd (0x1b :: rest) = decodeEscape backspace atEnd rest := rfl

theorem heldBack_of_escape {backspace : UInt8} {rest : Bytes}
    (h : decodeEscape backspace false rest = .incomplete) : HeldBack backspace (0x1b :: rest) := by
  cases rest with
  | nil => exact .escape
  | cons b rest =>
      rw [decodeEscape] at h
      split at h
      · rename_i hb
        subst hb
        rw [decodeBracket_false, Step.shift_eq_incomplete_iff] at h
        cases rest with
        | nil => exact .bracket
        | cons c body =>
            exact .sequence (List.cons_ne_nil c body)
              (ControlSequence.decode_eq_incomplete_iff.1 h)
      · split at h
        · rename_i hb
          subst hb
          cases rest with
          | nil => exact .singleShift
          | cons c rest => cases h
        · rw [Step.shift_eq_incomplete_iff, Step.mapEvent_eq_incomplete_iff] at h
          exact .altCharacter (decodeKey_eq_incomplete_iff.1 h)

theorem HeldBack.of_incomplete {backspace : UInt8} {input : Bytes}
    (h : decodeOne backspace false input = .incomplete) : HeldBack backspace input := by
  cases input with
  | nil => exact .nothing
  | cons b rest =>
      rw [decodeOne] at h
      split at h
      · rename_i hb
        rw [hb]
        exact heldBack_of_escape h
      · exact .character (decodeKey_eq_incomplete_iff.1 h)

theorem HeldBack.incomplete {backspace : UInt8} {input : Bytes} (h : HeldBack backspace input) :
    decodeOne backspace false input = .incomplete := by
  cases h with
  | nothing => rfl
  | escape => rfl
  | bracket => rfl
  | singleShift => rfl
  | character h =>
      cases input with
      | nil => rfl
      | cons b rest =>
          rw [decodeOne, if_neg (h.lead_ne (by decide))]
          exact decodeKey_eq_incomplete_iff.2 h
  | @altCharacter bytes h =>
      cases bytes with
      | nil => rfl
      | cons b rest =>
          rw [decodeOne_escape, decodeEscape, if_neg (h.lead_ne (by decide)),
            if_neg (h.lead_ne (by decide)), decodeKey_eq_incomplete_iff.2 h]
          rfl
  | @sequence body _ h =>
      have hbody := ControlSequence.decode_eq_incomplete_iff.2 h
      rw [decodeOne_escape, decodeEscape, if_pos rfl, decodeBracket_false, hbody]
      rfl

theorem decodeOne_eq_incomplete_iff {backspace : UInt8} {input : Bytes} :
    decodeOne backspace false input = .incomplete ↔ HeldBack backspace input :=
  ⟨HeldBack.of_incomplete, HeldBack.incomplete⟩

/-! ## Flushing -/

/-- The end of the input matters to the starts of an escape only. -/
theorem decodeOne_atEnd {backspace : UInt8} {input : Bytes} (hescape : input ≠ [0x1b])
    (hbracket : input ≠ [0x1b, 0x5b]) (hshift : input ≠ [0x1b, 0x4f]) :
    decodeOne backspace true input = decodeOne backspace false input := by
  cases input with
  | nil => rfl
  | cons b rest =>
      rw [decodeOne, decodeOne]
      split
      · rename_i hb
        rw [hb] at hescape hbracket hshift
        cases rest with
        | nil => exact absurd rfl hescape
        | cons c rest =>
            rw [decodeEscape, decodeEscape]
            split
            · rename_i hc
              rw [hc] at hbracket
              cases rest with
              | nil => exact absurd rfl hbracket
              | cons d rest => rfl
            · split
              · rename_i hc
                rw [hc] at hshift
                cases rest with
                | nil => exact absurd rfl hshift
                | cons d rest => rfl
              · rfl
      · rfl

theorem scan_atEnd_of_whole {backspace : UInt8} {input : Bytes} {event : KeyEvent}
    (h : decodeOne backspace true input = .key event input.length) :
    scan backspace true input = ([⟨input, event, false⟩], []) := by
  rw [scan_of_key h, List.drop_length, scan_nil, List.take_length]

/-- A flush decides the bytes held back as one key, and all of them go to it. -/
theorem HeldBack.scan_eq {backspace : UInt8} {bytes : Bytes} (h : HeldBack backspace bytes) :
    scan backspace true bytes =
      ((resolution bytes).map fun event => ⟨bytes, event, event.isInvalid⟩, []) := by
  unfold resolution
  by_cases hnil : bytes = []
  · rw [if_pos hnil, hnil, scan_nil]
    rfl
  rw [if_neg hnil]
  by_cases hescape : bytes = [0x1b]
  · rw [if_pos hescape, hescape, scan_atEnd_of_whole rfl]
    rfl
  rw [if_neg hescape]
  by_cases hbracket : bytes = [0x1b, 0x5b]
  · rw [if_pos hbracket, hbracket, scan_atEnd_of_whole rfl]
    rfl
  rw [if_neg hbracket]
  by_cases hshift : bytes = [0x1b, 0x4f]
  · rw [if_pos hshift, hshift, scan_atEnd_of_whole rfl]
    rfl
  rw [if_neg hshift]
  have hatEnd : decodeOne backspace true bytes = .incomplete := by
    rw [decodeOne_atEnd hescape hbracket hshift, h.incomplete]
  rw [scan_atEnd_of_incomplete hnil hatEnd]
  rfl

theorem HeldBack.scan_atEnd {backspace : UInt8} {bytes : Bytes} (h : HeldBack backspace bytes) :
    (scan backspace true bytes).1.map Segment.event = resolution bytes := by
  rw [h.scan_eq, List.map_map]
  exact List.map_id _

theorem Settled.flush_segments {d : Decoder} (h : d.Settled) :
    d.flush.1 = (resolution d.pending).map fun event => ⟨d.pending, event, event.isInvalid⟩ := by
  rw [flush_eq, (decodeOne_eq_incomplete_iff.1 h).scan_eq]

theorem Settled.flush_events {d : Decoder} (h : d.Settled) :
    d.flush.1.map Segment.event = resolution d.pending := by
  rw [h.flush_segments, List.map_map]
  exact List.map_id _

theorem resolution_length {bytes : Bytes} (h : bytes ≠ []) : (resolution bytes).length = 1 := by
  rw [resolution, if_neg h]
  split
  · rfl
  · split
    · rfl
    · split <;> rfl

theorem exists_resolution {bytes : Bytes} (h : bytes ≠ []) : ∃ event, resolution bytes = [event] :=
  List.length_eq_one_iff.1 (resolution_length h)

theorem flush_new (backspace : UInt8) : (new backspace).flush = ([], new backspace) := by
  rw [flush_eq, new, scan_nil]
  rfl

/-- After any run the bytes held back are of one of the shapes, and a flush makes of them the
keys of `resolution`: none if there is nothing, else one. It leaves nothing, so that a further
flush has nothing to do. Conversely, a fresh decoder holds back every string of these shapes
whole. -/
theorem heldBack_run (backspace : UInt8) :
    (∀ calls : List Call,
      let d := ((new backspace).run calls).2
      HeldBack backspace d.pending ∧
        d.flush.1.map Segment.event = resolution d.pending ∧
        d.flush.2 = new backspace ∧ d.flush.2.flush = ([], new backspace)) ∧
    (∀ bytes, HeldBack backspace bytes → (new backspace).feed bytes = ([], ⟨backspace, bytes⟩)) := by
  refine ⟨?_, ?_⟩
  · intro calls d
    have hback : d.backspace = backspace := run_backspace (new backspace) calls
    have hsettled : d.Settled := settled_run backspace calls
    have hheld : HeldBack backspace d.pending := by
      rw [← hback]
      exact decodeOne_eq_incomplete_iff.1 hsettled
    have hflush : d.flush.2 = new backspace := by rw [flush_eq, hback]
    refine ⟨hheld, ?_, hflush, ?_⟩
    · rw [flush_eq, hback]
      exact hheld.scan_atEnd
    · rw [hflush]
      exact flush_new backspace
  · intro bytes h
    rw [feed_eq]
    change ((scan backspace false bytes).1, Decoder.mk backspace (scan backspace false bytes).2) = _
    rw [scan_of_incomplete (decodeOne_eq_incomplete_iff.2 h)]

/-- A private sequence is held back up to its intermediate byte. -/
theorem feed_private_sequence :
    HeldBack 0x7f [0x1b, 0x5b, 0x3f, 0x31, 0x3b, 0x35, 0x20] ∧
      (new 0x7f).feed [0x1b, 0x5b, 0x3f, 0x31, 0x3b, 0x35, 0x20] =
        ([], ⟨0x7f, [0x1b, 0x5b, 0x3f, 0x31, 0x3b, 0x35, 0x20]⟩) :=
  have hheld : HeldBack 0x7f [0x1b, 0x5b, 0x3f, 0x31, 0x3b, 0x35, 0x20] := .of_incomplete rfl
  ⟨hheld, (heldBack_run 0x7f).2 _ hheld⟩

end Keystroke.Decoder
