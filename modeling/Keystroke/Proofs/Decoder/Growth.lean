import Keystroke.Decoder.Scan

/-! # Decisions on growing input

A key decided on some input is decided the same way with any bytes behind it,
and a sequence that was not decided takes more bytes than there were. Each
decoder inherits this from the one it hands over to; the last section reads off
what it says about the starts of one input.
-/

namespace Keystroke.Decoder

/-- How a step on `read` bytes of input relates to the step on a longer input. -/
def Step.Grows (read : Nat) : Step → Step → Prop
  | .key event used, later => later = .key event used
  | .incomplete, .key _ used => read < used
  | .incomplete, .incomplete => True

theorem Step.Grows.refl (read : Nat) (step : Step) : step.Grows read step := by
  cases step with
  | key event used => rfl
  | incomplete => trivial

theorem Step.Grows.of_within {least most : Nat} {later : Step}
    (h : later.Within (least + 1) most) : Step.incomplete.Grows least later := by
  cases later with
  | key event used => exact h.1
  | incomplete => trivial

theorem Step.Grows.shift {read : Nat} {step later : Step} (h : step.Grows read later) (n : Nat) :
    (step.shift n).Grows (read + n) (later.shift n) := by
  cases step with
  | key event used =>
      have hl : later = .key event used := h
      rw [hl]
      exact Grows.refl _ _
  | incomplete =>
      cases later with
      | key event used => exact Nat.add_lt_add_right h n
      | incomplete => trivial

theorem Step.Grows.mapEvent {read : Nat} {step later : Step} (h : step.Grows read later)
    (f : KeyEvent → KeyEvent) : (step.mapEvent f).Grows read (later.mapEvent f) := by
  cases step with
  | key event used =>
      have hl : later = .key event used := h
      rw [hl]
      exact Grows.refl _ _
  | incomplete =>
      cases later with
      | key event used => exact h
      | incomplete => trivial

theorem Step.Grows.key {read used : Nat} {event : KeyEvent} {step later : Step}
    (h : step.Grows read later) (hs : step = .key event used) : later = .key event used := by
  rw [hs] at h
  exact h

theorem Step.Grows.lt {read used : Nat} {event : KeyEvent} {step later : Step}
    (h : step.Grows read later) (hs : step = .incomplete) (hl : later = .key event used) :
    read < used := by
  rw [hs, hl] at h
  exact h

/-! ## Characters of several bytes -/

theorem Utf8.readContinuation_within_succ (least following code used : Nat) (rest : Bytes) :
    (Utf8.readContinuation least (following + 1) code used rest).Within (used + 1)
      (used + rest.length) := by
  cases rest with
  | nil => trivial
  | cons b rest =>
      simp only [Utf8.readContinuation, List.length_cons]
      split
      · exact (Utf8.readContinuation_within _ _ _ _ rest).mono (by omega) (by omega)
      · exact ⟨by omega, by omega⟩

theorem Utf8.readContinuation_grows (least following code used : Nat) (rest more : Bytes) :
    (Utf8.readContinuation least following code used rest).Grows (used + rest.length)
      (Utf8.readContinuation least following code used (rest ++ more)) := by
  induction rest generalizing following code used with
  | nil =>
      cases following with
      | zero => simp only [Utf8.readContinuation]; rfl
      | succ following =>
          exact Step.Grows.of_within (Utf8.readContinuation_within_succ least following code used more)
  | cons b rest ih =>
      cases following with
      | zero => simp only [Utf8.readContinuation]; rfl
      | succ following =>
          simp only [Utf8.readContinuation, List.cons_append, List.length_cons]
          split
          · have h := ih following (code * 64 + (b.toNat - 0x80)) (used + 1)
            rwa [Nat.add_right_comm] at h
          · rfl

theorem Utf8.decode_grows (b : UInt8) (rest more : Bytes) :
    (Utf8.decode b rest).Grows (rest.length + 1) (Utf8.decode b (rest ++ more)) := by
  unfold Utf8.decode
  cases Utf8.lead? b with
  | none => rfl
  | some lead =>
      have h := Utf8.readContinuation_grows lead.least lead.following lead.bits 1 rest more
      rwa [Nat.add_comm] at h

/-! ## Control sequences -/

namespace ControlSequence

theorem readFinal_grows (p : Parameters) (used : Nat) (rest more : Bytes) :
    (readFinal p used rest).Grows (used + rest.length) (readFinal p used (rest ++ more)) := by
  induction rest generalizing used with
  | nil => exact Step.Grows.of_within (readFinal_within p used more)
  | cons b rest ih =>
      simp only [readFinal, List.cons_append, List.length_cons]
      split
      · have h := ih (used + 1)
        rwa [Nat.add_right_comm] at h
      · exact Step.Grows.refl _ _

theorem readParameters_grows (p : Parameters) (used : Nat) (rest more : Bytes) :
    (readParameters p used rest).Grows (used + rest.length)
      (readParameters p used (rest ++ more)) := by
  induction rest generalizing p used with
  | nil => exact Step.Grows.of_within (readParameters_within p used more)
  | cons b rest ih =>
      simp only [readParameters, List.cons_append]
      split
      · cases p.push? b with
        | none => rfl
        | some q =>
            have h := ih q (used + 1)
            rwa [Nat.add_right_comm] at h
      · exact readFinal_grows p used (b :: rest) more

theorem decode_grows (body more : Bytes) :
    (decode body).Grows body.length (decode (body ++ more)) := by
  cases body with
  | nil => exact Step.Grows.of_within (decode_within more)
  | cons b rest =>
      simp only [decode, List.cons_append]
      split
      · have h := readParameters_grows .empty 1 rest more
        rwa [Nat.add_comm] at h
      · have h := readParameters_grows .empty 0 (b :: rest) more
        rwa [Nat.zero_add] at h

end ControlSequence

/-! ## Keys -/

theorem decodeKey_grows (backspace : UInt8) (input more : Bytes) :
    (decodeKey backspace input).Grows input.length (decodeKey backspace (input ++ more)) := by
  cases input with
  | nil => exact Step.Grows.of_within (decodeKey_within backspace more)
  | cons b rest =>
      simp only [decodeKey, List.cons_append]
      cases singleByteEvent? backspace b with
      | none => exact Utf8.decode_grows b rest more
      | some event => rfl

/-- Before the end of the input, the introducer alone is the empty control sequence. -/
theorem decodeBracket_false (rest : Bytes) :
    decodeBracket false rest = (ControlSequence.decode rest).shift 2 := by
  cases rest <;> rfl

theorem decodeBracket_grows (rest more : Bytes) :
    (decodeBracket false rest).Grows (rest.length + 2) (decodeBracket false (rest ++ more)) := by
  rw [decodeBracket_false, decodeBracket_false]
  exact (ControlSequence.decode_grows rest more).shift 2

theorem decodeSingleShift_grows (rest more : Bytes) :
    (decodeSingleShift false rest).Grows (rest.length + 2)
      (decodeSingleShift false (rest ++ more)) := by
  cases rest with
  | nil =>
      cases more with
      | nil => trivial
      | cons b more => exact Nat.lt_succ_self 2
  | cons b rest => rfl

theorem decodeEscape_within_succ (backspace b : UInt8) (rest : Bytes) :
    (decodeEscape backspace false (b :: rest)).Within 2 (rest.length + 2) := by
  simp only [decodeEscape]
  split
  · exact decodeBracket_within false rest
  · split
    · exact decodeSingleShift_within false rest
    · exact ((decodeKey_within backspace (b :: rest)).mapEvent _).shift 1

theorem decodeEscape_grows (backspace : UInt8) (rest more : Bytes) :
    (decodeEscape backspace false rest).Grows (rest.length + 1)
      (decodeEscape backspace false (rest ++ more)) := by
  cases rest with
  | nil =>
      cases more with
      | nil => trivial
      | cons b more => exact Step.Grows.of_within (decodeEscape_within_succ backspace b more)
  | cons b rest =>
      simp only [decodeEscape, List.cons_append]
      split
      · exact decodeBracket_grows rest more
      · split
        · exact decodeSingleShift_grows rest more
        · exact ((decodeKey_grows backspace (b :: rest) more).mapEvent _).shift 1

theorem decodeOne_grows (backspace : UInt8) (input more : Bytes) :
    (decodeOne backspace false input).Grows input.length
      (decodeOne backspace false (input ++ more)) := by
  cases input with
  | nil => exact Step.Grows.of_within (decodeOne_within backspace false more)
  | cons b rest =>
      simp only [decodeOne, List.cons_append]
      split
      · exact decodeEscape_grows backspace rest more
      · exact decodeKey_grows backspace (b :: rest) more

/-! ## Starts of one input -/

theorem decodeOne_le {backspace : UInt8} {atEnd : Bool} {input : Bytes} {event : KeyEvent}
    {used : Nat} (h : decodeOne backspace atEnd input = .key event used) :
    1 ≤ used ∧ used ≤ input.length :=
  (decodeOne_within backspace atEnd input).key h

theorem decodeOne_append {backspace : UInt8} {input : Bytes} {event : KeyEvent} {used : Nat}
    (h : decodeOne backspace false input = .key event used) (more : Bytes) :
    decodeOne backspace false (input ++ more) = .key event used :=
  (decodeOne_grows backspace input more).key h

/-- A start of the input decides the key as soon as it has the bytes that the key takes, and
not before. -/
theorem decodeOne_take {backspace : UInt8} {input : Bytes} {event : KeyEvent} {used : Nat}
    (h : decodeOne backspace false input = .key event used) (n : Nat) :
    decodeOne backspace false (input.take n) =
      if used ≤ n then .key event used else .incomplete := by
  have hle := (decodeOne_le h).2
  have hgrows := decodeOne_grows backspace (input.take n) (input.drop n)
  rw [List.take_append_drop, h] at hgrows
  cases hs : decodeOne backspace false (input.take n) with
  | key event' used' =>
      have hkey := hgrows.key hs
      have hle' := (decodeOne_le hs).2
      rw [List.length_take] at hle'
      cases hkey
      rw [if_pos (by omega)]
  | incomplete =>
      have hlt := hgrows.lt hs rfl
      rw [List.length_take] at hlt
      rw [if_neg (by omega)]

end Keystroke.Decoder
