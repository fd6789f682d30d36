import Keystroke.Proofs.Decoder.Factorisation
import Keystroke.Proofs.Decoder.Pending

/-! # The forms of a key

A complete string has one of four forms: a key by itself, a key behind Alt, a control
sequence, or a single shift with the byte behind it. What is said about all keys is
said of each form once.
-/

namespace Keystroke.Decoder

/-- The bytes decide the event with the last of them. -/
inductive Form (backspace : UInt8) : Bytes → KeyEvent → Prop
  | plain {bytes : Bytes} {event : KeyEvent} :
      decodeKey backspace bytes = .key event bytes.length → Form backspace bytes event
  | alt {bytes : Bytes} {event : KeyEvent} :
      decodeKey backspace bytes = .key event bytes.length →
      Form backspace (0x1b :: bytes) (event.withModifiers .onlyAlt)
  | sequence {body : Bytes} {event : KeyEvent} :
      ControlSequence.decode body = .key event body.length →
      Form backspace (0x1b :: 0x5b :: body) event
  | singleShift (b : UInt8) :
      Form backspace [0x1b, 0x4f, b] (ControlSequence.singleShiftEvent b)

theorem Step.shift_eq_key_iff {step : Step} {n used : Nat} {event : KeyEvent} :
    step.shift n = .key event (used + n) ↔ step = .key event used := by
  cases step <;> simp [Step.shift]

theorem form_of_escape {backspace : UInt8} {rest : Bytes} {event : KeyEvent}
    (h : decodeEscape backspace false rest = .key event (rest.length + 1)) :
    Form backspace (0x1b :: rest) event := by
  cases rest with
  | nil => cases h
  | cons b rest =>
      rw [decodeEscape] at h
      split at h
      · rename_i hbracket
        rw [decodeBracket_false, List.length_cons, Nat.add_assoc, Step.shift_eq_key_iff] at h
        rw [hbracket]
        exact .sequence h
      split at h
      · rename_i hshift
        rw [hshift]
        cases rest with
        | nil => cases h
        | cons c rest =>
            obtain ⟨rfl, hused⟩ := Step.key.inj h
            simp only [List.length_cons] at hused
            obtain rfl := List.length_eq_zero_iff.1 (by omega : rest.length = 0)
            exact .singleShift c
      · rw [Step.shift_eq_key_iff] at h
        cases hkey : decodeKey backspace (b :: rest) with
        | incomplete =>
            rw [hkey] at h
            cases h
        | key inner used =>
            rw [hkey] at h
            obtain ⟨rfl, rfl⟩ := Step.key.inj h
            exact .alt hkey

theorem Complete.form {backspace : UInt8} {bytes : Bytes} {event : KeyEvent}
    (h : Complete backspace bytes event) : Form backspace bytes event := by
  rw [complete_iff] at h
  cases bytes with
  | nil => cases h
  | cons b rest =>
      rw [decodeOne] at h
      split at h
      · rename_i hescape
        rw [hescape]
        exact form_of_escape h
      · exact .plain h

end Keystroke.Decoder
