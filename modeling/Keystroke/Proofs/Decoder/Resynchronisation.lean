import Keystroke.Proofs.Decoder.Provenance

/-! # Resynchronisation

A byte from `@` to `~` is the last byte of the key that it belongs to, whatever came
before it. The only such bytes that leave a key undecided are the two that make an
introducer of a single escape. So garbage swallows nothing behind the next byte of
this kind.
-/

namespace Keystroke.Decoder

open ControlSequence (Unfinished isFinal)

/-- The byte makes an introducer of the bytes held back. -/
def Introduces (pending : Bytes) (b : UInt8) : Prop :=
  pending = [0x1b] ∧ (b = 0x5b ∨ b = 0x4f)

/-! ## Bytes of undecided input -/

theorem PartialCharacter.le_of_mem {backspace b : UInt8} {bytes : Bytes}
    (h : PartialCharacter backspace bytes) (hb : b ∈ bytes) : 0x80 ≤ b.toNat := by
  cases h with
  | intro hlead _ _ hrest _ =>
      rcases List.mem_cons.1 hb with rfl | hb
      · omega
      · exact (hrest b hb).1

theorem ControlSequence.Unfinished.lt_of_mem {b : UInt8} {body : Bytes} (h : Unfinished body)
    (hb : b ∈ body) : b.toNat < 0x40 := by
  obtain ⟨hmarker, hrun, hinter⟩ := h
  rcases List.mem_append.1 hb with hb | hb
  · rcases hmarker with rfl | ⟨marker, hrange, rfl⟩
    · cases hb
    · obtain rfl := List.mem_singleton.1 hb
      have hrange := of_decide_eq_true hrange
      omega
  rcases List.mem_append.1 hb with hb | hb
  · have hrange := hrun.bytes b hb
    omega
  · have hrange := of_decide_eq_true (hinter b hb)
    omega

theorem HeldBack.introduces_of_final {backspace b : UInt8} {bytes : Bytes}
    (h : HeldBack backspace (bytes ++ [b])) (hb : isFinal b = true) : Introduces bytes b := by
  have hrange := of_decide_eq_true hb
  have hmem : b ∈ bytes ++ [b] := List.mem_append_right bytes (List.mem_singleton_self b)
  generalize hinput : bytes ++ [b] = input at h hmem
  cases h with
  | nothing => cases hmem
  | escape =>
      obtain rfl := List.mem_singleton.1 hmem
      exact absurd hb (by decide)
  | bracket =>
      have hsplit : bytes ++ [b] = [0x1b] ++ [0x5b] := hinput
      obtain ⟨hbytes, hlast⟩ := List.append_singleton_inj.1 hsplit
      exact ⟨hbytes, .inl hlast⟩
  | singleShift =>
      have hsplit : bytes ++ [b] = [0x1b] ++ [0x4f] := hinput
      obtain ⟨hbytes, hlast⟩ := List.append_singleton_inj.1 hsplit
      exact ⟨hbytes, .inr hlast⟩
  | character hpartial =>
      have hle := hpartial.le_of_mem hmem
      omega
  | altCharacter hpartial =>
      rcases List.mem_cons.1 hmem with rfl | hmem
      · exact absurd hb (by decide)
      · have hle := hpartial.le_of_mem hmem
        omega
  | sequence hne hunfinished =>
      rename_i body
      -- The introducer is not all of it, so the last byte belongs to the body.
      have hlast : b ∈ body := by
        have hsame := congrArg List.getLast? hinput
        rw [List.getLast?_concat, List.getLast?_cons_cons, List.getLast?_cons_of_ne_nil hne] at hsame
        exact List.mem_of_getLast? hsame.symm
      have hlt := hunfinished.lt_of_mem hlast
      omega

/-- A final byte decides what was undecided. -/
theorem complete_concat_final {backspace b : UInt8} {bytes : Bytes}
    (h : decodeOne backspace false bytes = .incomplete) (hb : isFinal b = true)
    (hnot : ¬Introduces bytes b) : ∃ event, Complete backspace (bytes ++ [b]) event := by
  cases hstep : decodeOne backspace false (bytes ++ [b]) with
  | incomplete =>
      exact absurd ((decodeOne_eq_incomplete_iff.1 hstep).introduces_of_final hb) hnot
  | key event used =>
      have hlt := (decodeOne_grows backspace bytes [b]).lt h hstep
      have hle := (decodeOne_le hstep).2
      have hlength : (bytes ++ [b]).length = bytes.length + 1 := List.length_append
      refine ⟨event, complete_iff.2 ?_⟩
      rw [hstep, show used = (bytes ++ [b]).length by omega]

theorem Complete.feed_eq {backspace : UInt8} {code : Bytes} {event : KeyEvent}
    (h : Complete backspace code event) :
    (new backspace).feed code = ([⟨code, event, false⟩], new backspace) := by
  have hkeys : ∀ key ∈ [(code, event)], Complete backspace key.1 key.2 :=
    List.forall_mem_singleton.2 h
  have hfeed := feed_complete hkeys
  rwa [List.map_singleton, List.flatten_singleton] at hfeed

/-! ## Feeding -/

theorem Settled.feed_final {d : Decoder} {b : UInt8} (h : d.Settled) (hb : isFinal b = true)
    (hnot : ¬Introduces d.pending b) :
    ∃ event, d.feed [b] = ([⟨d.pending ++ [b], event, false⟩], new d.backspace) := by
  obtain ⟨event, hcomplete⟩ := complete_concat_final h hb hnot
  exact ⟨event, hcomplete.feed_eq⟩

/-- A final byte in a segment is its last, unless it makes the introducer. -/
theorem Provenance.nil_of_final {backspace b : UInt8} {segment : Segment} {before after : Bytes}
    (h : Provenance backspace segment) (hbytes : segment.bytes = before ++ b :: after)
    (hb : isFinal b = true) : after = [] ∨ Introduces before b := by
  by_cases hnot : Introduces before b
  · exact .inr hnot
  refine .inl ?_
  have hstart : before ++ [b] <+: segment.bytes := by
    rw [hbytes]
    exact ⟨after, List.append_assoc _ _ _⟩
  cases h with
  | fed hcomplete =>
      have hbefore : events backspace before = [] := by
        refine hcomplete.minimal before ((List.prefix_append _ _).trans hstart) ?_
        rintro rfl
        have hlength := hstart.length_le
        rw [List.length_append, List.length_singleton] at hlength
        omega
      obtain ⟨event, hclosed⟩ := complete_concat_final (incomplete_of_events hbefore) hb hnot
      have hsame := (hclosed.eq_of_start hcomplete hstart).1
      rw [hbytes, List.append_cons before b after] at hsame
      exact List.self_eq_append_right.1 hsame
  | flushed hheld _ =>
      have hundecided := undecided_iff.2 (decodeOne_eq_incomplete_iff.2 hheld)
      have hbefore := hundecided before ((List.prefix_append _ _).trans hstart)
      obtain ⟨event, hclosed⟩ := complete_concat_final (incomplete_of_events hbefore) hb hnot
      have hnone := hundecided _ hstart
      rw [hclosed.events_eq] at hnone
      cases hnone

/-- In any state a byte from `@` to `~` decides one key, with all that was held back and with the
byte as its last, and what follows it is decoded as by a fresh decoder. Only where exactly an
escape is held back do `[` and `O` decide nothing, and are held back with it. So no key of a run
goes on behind such a byte, but for those behind an introducer. -/
theorem resynchronisation (backspace : UInt8) (calls : List Call) (b : UInt8)
    (hlow : 0x40 ≤ b.toNat) (hhigh : b.toNat ≤ 0x7e) :
    let d := ((new backspace).run calls).2
    (¬Introduces d.pending b →
      ∃ event, d.feed [b] = ([⟨d.pending ++ [b], event, false⟩], new backspace) ∧
        ∀ more, d.feed (b :: more) =
          ((d.feed [b]).1 ++ ((new backspace).feed more).1, ((new backspace).feed more).2)) ∧
    (Introduces d.pending b → d.feed [b] = ([], ⟨backspace, [0x1b, b]⟩)) ∧
    ∀ segment ∈ ((new backspace).run calls).1, ∀ before after,
      segment.bytes = before ++ b :: after → after = [] ∨ Introduces before b := by
  intro d
  have hback : d.backspace = backspace := run_backspace (new backspace) calls
  have hsettled : d.Settled := settled_run backspace calls
  have hb : isFinal b = true := decide_eq_true ⟨hlow, hhigh⟩
  refine ⟨?_, ?_, ?_⟩
  · intro hnot
    obtain ⟨event, hfeed⟩ := hsettled.feed_final hb hnot
    rw [hback] at hfeed
    refine ⟨event, hfeed, fun more => ?_⟩
    have happend := feed_append d [b] more
    rwa [congrArg Prod.snd hfeed] at happend
  · rintro ⟨hpending, hb⟩
    have hheld : HeldBack backspace [0x1b, b] := by
      rcases hb with rfl | rfl
      · exact .bracket
      · exact .singleShift
    have hscan := scan_of_incomplete (decodeOne_eq_incomplete_iff.2 hheld)
    rw [feed_eq, hback, hpending]
    exact congrArg (fun scanned => (scanned.1, Decoder.mk backspace scanned.2)) hscan
  · intro segment hmem before after hbytes
    exact (provenance_run backspace calls segment hmem).nil_of_final hbytes hb

/-- A bracket ends the unfinished sequence that it is found in, so that it introduces none. -/
theorem feed_bracket_in_sequence :
    let d := ((new 0x7f).run [.feed [0x1b, 0x5b, 0x31, 0x3b]]).2
    ¬Introduces d.pending 0x5b ∧
      d.feed [0x5b, 0x41] =
        ([⟨[0x1b, 0x5b, 0x31, 0x3b, 0x5b], .invalid, false⟩, ⟨[0x41], .character 'A', false⟩],
          new 0x7f) := by
  intro d
  have hpending : d.pending = [0x1b, 0x5b, 0x31, 0x3b] := by decide +kernel
  have hnot : ¬Introduces d.pending 0x5b := by
    rw [hpending]
    exact fun h => absurd h.1 (by decide)
  obtain ⟨_, _, hmore⟩ :=
    (resynchronisation 0x7f [.feed [0x1b, 0x5b, 0x31, 0x3b]] 0x5b (by decide) (by decide)).1 hnot
  refine ⟨hnot, (hmore [0x41]).trans ?_⟩
  decide +kernel

end Keystroke.Decoder
