import Keystroke.Proofs.Decoder.Factorisation
import Keystroke.Proofs.Decoder.Pending

/-! # The Alt prefix

An escape in front of input that opens no sequence is Alt with the first key of that
input, and nothing else: the keys behind it, and what is held back, are those of the
input alone. The escape is held back for as long as the key is, and no longer. A second
escape is such a key too, so that two escapes are Alt with Escape.
-/

namespace Keystroke

/-- The event with Alt held as well. Invalid input names no key, and stays as it is. -/
def KeyEvent.withAlt (event : KeyEvent) : KeyEvent :=
  if event.isInvalid then event else .press event.key { event.modifiers with alt := true }

theorem KeyEvent.withModifiers_onlyAlt (event : KeyEvent) :
    event.withModifiers .onlyAlt = event.withAlt := by
  unfold withAlt
  split
  · rename_i hinvalid
    rw [isInvalid_iff.1 hinvalid]
    rfl
  · simp [withModifiers, Modifiers.union, Modifiers.onlyAlt]

namespace Decoder

/-- Behind an escape the byte is a key of its own: it is no escape, and opens no sequence. -/
structure Prefixable (b : UInt8) : Prop where
  not_escape : b ≠ 0x1b
  not_bracket : b ≠ 0x5b
  not_singleShift : b ≠ 0x4f

/-- The segment with an escape in front of it. -/
def Segment.withAlt (segment : Segment) : Segment :=
  { segment with bytes := 0x1b :: segment.bytes, event := segment.event.withAlt }

/-- What is found with an escape in front: it goes to the first segment, and where there is none,
it is held back with the rest. -/
def underAlt {σ : Type} (hold : σ → σ) : List Segment × σ → List Segment × σ
  | ([], state) => ([], hold state)
  | (segment :: segments, state) => (segment.withAlt :: segments, state)

/-- The decoder with an escape in front of the bytes that it holds back. -/
def behindEscape (d : Decoder) : Decoder :=
  { d with pending := 0x1b :: d.pending }

/-- The keys that a fresh decoder finds in the bytes if nothing follows them. -/
def resolved (backspace : UInt8) (bytes : Bytes) : List KeyEvent :=
  ((new backspace).run [.feed bytes, .flush]).1.map Segment.event

variable {backspace b : UInt8} {atEnd : Bool} {rest : Bytes}

/-! ## One key -/

theorem decodeOne_prefixable (h : Prefixable b) :
    decodeOne backspace atEnd (0x1b :: b :: rest) =
      ((decodeOne backspace atEnd (b :: rest)).mapEvent KeyEvent.withAlt).shift 1 := by
  have hplain : decodeOne backspace atEnd (b :: rest) = decodeKey backspace (b :: rest) :=
    if_neg h.not_escape
  rw [decodeOne_escape, decodeEscape, if_neg h.not_bracket, if_neg h.not_singleShift, hplain]
  simp only [KeyEvent.withModifiers_onlyAlt]

theorem decodeOne_escapes (backspace : UInt8) (atEnd : Bool) (rest : Bytes) :
    decodeOne backspace atEnd (0x1b :: 0x1b :: rest) =
      .key (.press (.function .escape) .onlyAlt) 2 := rfl

/-! ## All keys -/

theorem scan_prefixable (h : Prefixable b) :
    scan backspace atEnd (0x1b :: b :: rest) =
      underAlt (0x1b :: ·) (scan backspace atEnd (b :: rest)) := by
  have hone : decodeOne backspace atEnd (0x1b :: b :: rest) = _ := decodeOne_prefixable h
  cases hstep : decodeOne backspace atEnd (b :: rest) with
  | key event used =>
      rw [hstep] at hone
      rw [scan_of_key hstep, scan_of_key hone]
      rfl
  | incomplete =>
      rw [hstep] at hone
      cases atEnd with
      | false =>
          rw [scan_of_incomplete hstep, scan_of_incomplete hone]
          rfl
      | true =>
          rw [scan_atEnd_of_incomplete (List.cons_ne_nil _ _) hstep,
            scan_atEnd_of_incomplete (List.cons_ne_nil _ _) hone]
          rfl

theorem underAlt_segments {σ : Type} (hold : σ → σ) (found : List Segment × σ) :
    (underAlt hold found).1 = found.1.modifyHead Segment.withAlt := by
  rcases found with ⟨_ | ⟨segment, segments⟩, state⟩ <;> rfl

theorem underAlt_state {σ : Type} (hold : σ → σ) (found : List Segment × σ) :
    (underAlt hold found).2 = if found.1 = [] then hold found.2 else found.2 := by
  rcases found with ⟨_ | ⟨segment, segments⟩, state⟩ <;> rfl

/-! ## Runs -/

theorem answer_prefixable (h : Prefixable b) (call : Call) :
    (Decoder.mk backspace (0x1b :: b :: rest)).answer call =
      underAlt behindEscape ((Decoder.mk backspace (b :: rest)).answer call) := by
  have hscan : ∀ atEnd more,
      ((scan backspace atEnd (0x1b :: b :: more)).1,
        Decoder.mk backspace (scan backspace atEnd (0x1b :: b :: more)).2) =
      underAlt behindEscape ((scan backspace atEnd (b :: more)).1,
        Decoder.mk backspace (scan backspace atEnd (b :: more)).2) := by
    intro atEnd more
    rw [scan_prefixable h]
    rcases scan backspace atEnd (b :: more) with ⟨_ | ⟨segment, segments⟩, tail⟩ <;> rfl
  cases call with
  | feed bytes => exact hscan false (rest ++ bytes)
  | flush => exact hscan true rest

/-- Where no key is decided, the bytes held back begin as before. -/
theorem pending_of_answer_nil {call : Call} {d : Decoder}
    (h : (Decoder.mk backspace (b :: rest)).answer call = ([], d)) :
    ∃ more, d = ⟨backspace, b :: more⟩ := by
  cases call with
  | feed bytes =>
      have hcovers := scan_covers backspace false (b :: rest ++ bytes)
      change ((scan backspace false (b :: rest ++ bytes)).1, _) = _ at h
      obtain ⟨hnone, rfl⟩ := Prod.mk.inj h
      rw [hnone] at hcovers
      exact ⟨rest ++ bytes, congrArg (Decoder.mk backspace) hcovers⟩
  | flush =>
      have hsome := flush_ne_nil (d := ⟨backspace, b :: rest⟩) (List.cons_ne_nil b rest)
      exact absurd (congrArg Prod.fst h) hsome

/-- Until the first key is decided both decoders hold everything back, and from then on they are
the same. -/
theorem run_prefixable (h : Prefixable b) (rest : Bytes) (calls : List Call) :
    (Decoder.mk backspace (0x1b :: b :: rest)).run calls =
      underAlt behindEscape ((Decoder.mk backspace (b :: rest)).run calls) := by
  induction calls generalizing rest with
  | nil => rfl
  | cons call calls ih =>
      rw [run_cons, run_cons, answer_prefixable h]
      cases hfound : (Decoder.mk backspace (b :: rest)).answer call with
      | mk segments d =>
          cases segments with
          | nil =>
              obtain ⟨more, rfl⟩ := pending_of_answer_nil hfound
              exact ih more
          | cons segment segments => rfl

theorem run_feed_new (backspace : UInt8) (bytes : Bytes) (calls : List Call) :
    (new backspace).run (.feed bytes :: calls) =
      (Decoder.mk backspace bytes).run (.feed [] :: calls) := by
  have hfeed : (new backspace).feed bytes = (Decoder.mk backspace bytes).feed [] := by
    rw [feed_eq, feed_eq, List.append_nil]
    rfl
  rw [run_cons, run_cons, answer, hfeed]
  rfl

theorem run_feed_prefixable (h : Prefixable b) (rest : Bytes) (calls : List Call) :
    (new backspace).run (.feed (0x1b :: b :: rest) :: calls) =
      underAlt behindEscape ((new backspace).run (.feed (b :: rest) :: calls)) := by
  rw [run_feed_new, run_feed_new, run_prefixable h]

/-! ## Events -/

theorem map_event_modifyHead (segments : List Segment) :
    (segments.modifyHead Segment.withAlt).map Segment.event =
      (segments.map Segment.event).modifyHead KeyEvent.withAlt := by
  cases segments <;> rfl

theorem resolved_prefixable (h : Prefixable b) (rest : Bytes) :
    resolved backspace (0x1b :: b :: rest) =
      (resolved backspace (b :: rest)).modifyHead KeyEvent.withAlt := by
  rw [resolved, run_feed_prefixable h, underAlt_segments, map_event_modifyHead, resolved]

theorem events_prefixable (h : Prefixable b) (rest : Bytes) :
    events backspace (0x1b :: b :: rest) =
      (events backspace (b :: rest)).modifyHead KeyEvent.withAlt := by
  rw [events_eq_scan, scan_prefixable h, underAlt_segments, map_event_modifyHead, events_eq_scan]

theorem held_prefixable (h : Prefixable b) (rest : Bytes) :
    held backspace (0x1b :: b :: rest) =
      if events backspace (b :: rest) = [] then 0x1b :: b :: rest
      else held backspace (b :: rest) := by
  rw [held_eq_scan, scan_prefixable h, underAlt_state, events_eq_scan, held_eq_scan]
  simp only [List.map_eq_nil_iff]
  split
  · rename_i hnone
    have hcovers := scan_covers backspace false (b :: rest)
    rw [hnone] at hcovers
    exact congrArg (0x1b :: ·) hcovers
  · rfl

theorem length_held_le (backspace : UInt8) (bytes : Bytes) :
    (held backspace bytes).length ≤ bytes.length := by
  have hlength := congrArg List.length (scan_covers backspace false bytes)
  rw [List.length_append] at hlength
  rw [held_eq_scan]
  omega

theorem held_prefixable_eq_iff (h : Prefixable b) (rest : Bytes) :
    held backspace (0x1b :: b :: rest) = 0x1b :: b :: rest ↔ events backspace (b :: rest) = [] := by
  rw [held_prefixable h]
  by_cases hnone : events backspace (b :: rest) = []
  · rw [if_pos hnone]
    exact iff_of_true rfl hnone
  · rw [if_neg hnone]
    refine iff_of_false (fun hwhole => ?_) hnone
    -- What is held back is part of the input, and too short to have the escape too.
    have hle := length_held_le backspace (b :: rest)
    rw [hwhole, List.length_cons] at hle
    omega

/-- An escape in front of input that begins with none of an escape, `[` and `O` adds Alt to the
first key of that input, and to no other, whether the input is fed or flushed as well. It is held
back with the whole input exactly where no key of it is decided, and otherwise what is held back is
the same. So it stays in every run that begins with the input. In front of another escape it is Alt
with Escape, and what follows is decoded as if both were not there. -/
theorem escape_adds_alt (backspace : UInt8) :
    (∀ (b : UInt8) (rest : Bytes), b ≠ 0x1b → b ≠ 0x5b → b ≠ 0x4f →
      let input := b :: rest
      resolved backspace (0x1b :: input) =
          (resolved backspace input).modifyHead KeyEvent.withAlt ∧
        events backspace (0x1b :: input) =
          (events backspace input).modifyHead KeyEvent.withAlt ∧
        (held backspace (0x1b :: input) = 0x1b :: input ↔ events backspace input = []) ∧
        (events backspace input ≠ [] → held backspace (0x1b :: input) = held backspace input) ∧
        ∀ calls, (new backspace).run (.feed (0x1b :: input) :: calls) =
          underAlt behindEscape ((new backspace).run (.feed input :: calls))) ∧
    (∀ rest : Bytes, (new backspace).feed (0x1b :: 0x1b :: rest) =
      (⟨[0x1b, 0x1b], .press (.function .escape) .onlyAlt, false⟩ ::
        ((new backspace).feed rest).1, ((new backspace).feed rest).2)) := by
  refine ⟨?_, ?_⟩
  · intro b rest hescape hbracket hshift input
    have h : Prefixable b := ⟨hescape, hbracket, hshift⟩
    refine ⟨resolved_prefixable h rest, events_prefixable h rest, held_prefixable_eq_iff h rest,
      fun hsome => ?_, run_feed_prefixable h rest⟩
    exact (held_prefixable h rest).trans (if_neg hsome)
  · intro rest
    have hscan := scan_of_key (decodeOne_escapes backspace false rest)
    exact congrArg (fun scanned => (scanned.1, Decoder.mk backspace scanned.2)) hscan

/-- A euro sign that is fed in two parts, and what a flush makes of its first part. -/
theorem alt_euro :
    (0xe2 : UInt8) ≠ 0x1b ∧ (0xe2 : UInt8) ≠ 0x5b ∧ (0xe2 : UInt8) ≠ 0x4f ∧
      ((new 0x7f).run [.feed [0x1b, 0xe2, 0x82], .feed [0xac, 0x61]]).1.map Segment.event =
        [.press (.codepoint '€') .onlyAlt, .character 'a'] ∧
      resolved 0x7f [0x1b, 0xe2, 0x82] = [.invalid] := by
  obtain ⟨hresolved, _, _, _, hrun⟩ :=
    (escape_adds_alt 0x7f).1 0xe2 [0x82] (by decide) (by decide) (by decide)
  refine ⟨by decide, by decide, by decide, ?_, ?_⟩
  · rw [hrun]
    decide +kernel
  · rw [hresolved]
    decide +kernel

end Decoder

end Keystroke
