import Keystroke.Decoder
import Keystroke.Proofs.Decoder.Growth

/-! # Segments of an input

What a scan does with the front of its input, and from it what it does with the
whole: the segments and the tail are the input cut up, the tail is undecided, and
an input may be scanned in two parts with the tail of the first put in front of
the second.
-/

namespace Keystroke.Decoder

theorem scan_nil (backspace : UInt8) (atEnd : Bool) : scan backspace atEnd [] = ([], []) := by
  rw [scan, if_pos rfl]

theorem scan_of_key {backspace : UInt8} {atEnd : Bool} {input : Bytes} {event : KeyEvent}
    {used : Nat} (h : decodeOne backspace atEnd input = .key event used) :
    scan backspace atEnd input =
      (⟨input.take used, event, false⟩ :: (scan backspace atEnd (input.drop used)).1,
        (scan backspace atEnd (input.drop used)).2) := by
  have hne : input ≠ [] := by
    rintro rfl
    cases h
  rw [scan, if_neg hne]
  split
  · rename_i event' used' h'
    rw [h] at h'
    cases h'
    rfl
  · rename_i h'
    rw [h] at h'
    cases h'

theorem scan_of_incomplete {backspace : UInt8} {input : Bytes}
    (h : decodeOne backspace false input = .incomplete) :
    scan backspace false input = ([], input) := by
  rw [scan]
  split
  · rename_i hnil
    rw [hnil]
  · split
    · rename_i event used h'
      rw [h] at h'
      cases h'
    · rfl

theorem scan_atEnd_of_incomplete {backspace : UInt8} {input : Bytes} (hne : input ≠ [])
    (h : decodeOne backspace true input = .incomplete) :
    scan backspace true input = ([⟨input, .invalid, true⟩], []) := by
  rw [scan, if_neg hne]
  split
  · rename_i event used h'
    rw [h] at h'
    cases h'
  · rfl

/-- Induction on the keys that are decided before the end of the input. -/
theorem scan_induction (backspace : UInt8) {motive : Bytes → Prop}
    (key : ∀ input event used, decodeOne backspace false input = .key event used →
      motive (input.drop used) → motive input)
    (incomplete : ∀ input, decodeOne backspace false input = .incomplete → motive input)
    (input : Bytes) : motive input := by
  induction input using scan.induct backspace false with
  | case1 => exact incomplete [] rfl
  | case2 input _ event used h _ _ _ ih => exact key input event used h ih
  | case3 input _ h _ => exact incomplete input h
  | case4 input _ h _ => exact incomplete input h

theorem scan_tail (backspace : UInt8) (input : Bytes) :
    decodeOne backspace false (scan backspace false input).2 = .incomplete := by
  induction input using scan_induction backspace with
  | key input event used h ih =>
      rw [scan_of_key h]
      exact ih
  | incomplete input h =>
      rw [scan_of_incomplete h]
      exact h

/-- At the end of the input there is no tail. -/
theorem scan_atEnd_tail (backspace : UInt8) (input : Bytes) :
    (scan backspace true input).2 = [] := by
  induction input using scan.induct backspace true with
  | case1 => rw [scan_nil]
  | case2 input _ event used h _ _ _ ih =>
      rw [scan_of_key h]
      exact ih
  | case3 input hne h _ => rw [scan_atEnd_of_incomplete hne h]
  | case4 input _ _ hfalse => exact absurd rfl hfalse

theorem scan_append (backspace : UInt8) (input more : Bytes) :
    scan backspace false (input ++ more) =
      ((scan backspace false input).1 ++
          (scan backspace false ((scan backspace false input).2 ++ more)).1,
        (scan backspace false ((scan backspace false input).2 ++ more)).2) := by
  induction input using scan_induction backspace with
  | key input event used h ih =>
      have hle := (decodeOne_le h).2
      rw [scan_of_key h, scan_of_key (decodeOne_append h more),
        List.take_append_of_le_length hle, List.drop_append_of_le_length hle, ih]
      rfl
  | incomplete input h =>
      rw [scan_of_incomplete h]
      rfl

/-- The segments and the tail are the input cut up. -/
theorem scan_covers (backspace : UInt8) (atEnd : Bool) (input : Bytes) :
    (scan backspace atEnd input).1.flatMap Segment.bytes ++ (scan backspace atEnd input).2 =
      input := by
  induction input using scan.induct backspace atEnd with
  | case1 => rw [scan_nil]; rfl
  | case2 input _ event used h _ _ _ ih =>
      rw [scan_of_key h, List.flatMap_cons, List.append_assoc, ih, List.take_append_drop]
  | case3 input hne h hend =>
      subst hend
      rw [scan_atEnd_of_incomplete hne h, List.flatMap_singleton, List.append_nil]
  | case4 input _ h hend =>
      obtain rfl : atEnd = false := by simpa using hend
      rw [scan_of_incomplete h]
      rfl

end Keystroke.Decoder
