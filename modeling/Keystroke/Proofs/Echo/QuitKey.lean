import Keystroke.Echo
import Keystroke.Proofs.ControlSequence.Finished
import Keystroke.Proofs.Decoder.Forms
import Keystroke.Proofs.Decoder.Provenance

/-! # The quit key

What has to be typed for Ctrl-Q. It is the control byte, or an extended report of the
key. With an escape in front the control byte is another key, and no flush makes a
Ctrl-Q of what was held back.
-/

namespace Keystroke

open Decoder

namespace Echo

/-- Ctrl-Q, and no other modifier. -/
def quitKey : KeyEvent := .press (.codepoint 'q') .onlyCtrl

theorem isQuit_iff {event : KeyEvent} : isQuit event = true ↔ event = quitKey :=
  decide_eq_true_iff

/-- The bytes of Ctrl-Q: the control byte, or an extended report, which ends in `u`. -/
inductive QuitCode : Bytes → Prop
  | control : QuitCode [0x11]
  | extended {body : Bytes} :
      ControlSequence.decode (body ++ [0x75]) = .key quitKey (body.length + 1) →
      QuitCode (0x1b :: 0x5b :: (body ++ [0x75]))

variable {backspace b : UInt8} {rest : Bytes} {used : Nat} {event : KeyEvent}

/-! ## Keys that are others -/

theorem ne_of_modifiers (h : event.modifiers ≠ .onlyCtrl) : event ≠ quitKey := by
  rintro rfl
  exact h rfl

theorem ne_of_function {key : FunctionKey} (h : event.key = .function key) : event ≠ quitKey := by
  rintro rfl
  cases h

theorem character_ne (c : Char) : KeyEvent.character c ≠ quitKey :=
  ne_of_modifiers (show Modifiers.none ≠ .onlyCtrl by decide)

theorem withModifiers_ne (event : KeyEvent) : event.withModifiers .onlyAlt ≠ quitKey := by
  by_cases hkey : event.key = .function .invalid
  · rw [KeyEvent.eq_invalid_of_key hkey, KeyEvent.withModifiers_invalid]
    exact ne_of_function rfl
  · refine ne_of_modifiers ?_
    rw [KeyEvent.withModifiers, KeyEvent.press_modifiers hkey]
    intro h
    have halt : (event.modifiers.alt || true) = false := congrArg Modifiers.alt h
    rw [Bool.or_true] at halt
    cases halt

theorem scalarEvent_ne (least code : Nat) : Utf8.scalarEvent least code ≠ quitKey := by
  unfold Utf8.scalarEvent
  split
  · exact ne_of_function rfl
  · split
    · exact character_ne _
    · exact ne_of_function rfl

theorem readContinuation_ne (least following code : Nat) (n : Nat) :
    Utf8.readContinuation least following code n rest ≠ .key quitKey used := by
  induction rest generalizing following code n with
  | nil =>
      cases following with
      | zero => exact fun h => scalarEvent_ne least code (Step.key.inj h).1
      | succ following => exact Step.noConfusion
  | cons c rest ih =>
      cases following with
      | zero => exact fun h => scalarEvent_ne least code (Step.key.inj h).1
      | succ following =>
          rw [Utf8.readContinuation]
          split
          · exact ih following _ (n + 1)
          · exact fun h => ne_of_function rfl (Step.key.inj h).1

/-- Of the control characters that is `q`. -/
theorem control_of_controlCharacter (hb : b.toNat < 0x20)
    (h : controlCharacter b = 'q') : b = 0x11 := by
  have hcode := ControlSequence.eq_ofNat_of_ofUInt8_eq h
  have hnat := congrArg UInt8.toNat hcode
  rw [← UInt8.toNat_inj]
  split at hnat <;> rw [UInt8.toNat_add] at hnat <;> simp at hnat ⊢ <;> omega

/-- Of single bytes only the control byte is Ctrl-Q. -/
theorem control_of_singleByteEvent (h : singleByteEvent? backspace b = some quitKey) :
    b = 0x11 := by
  unfold singleByteEvent? at h
  split at h
  · exact absurd (Option.some.inj h) (by decide)
  split at h
  · exact absurd (Option.some.inj h) (by decide)
  split at h
  · exact absurd (Option.some.inj h) (by decide)
  split at h
  · exact absurd (Option.some.inj h) (by decide)
  split at h
  · rename_i hcontrol
    have hkey : Key.codepoint (controlCharacter b) = .codepoint 'q' :=
      congrArg KeyEvent.key (Option.some.inj h)
    exact control_of_controlCharacter hcontrol (Key.codepoint.inj hkey)
  split at h
  · exact absurd (Option.some.inj h) (by decide)
  split at h
  · exact absurd (Option.some.inj h) (character_ne _)
  split at h
  · exact absurd (Option.some.inj h) (by decide)
  split at h
  · exact absurd (Option.some.inj h) (by decide)
  · cases h

theorem control_of_decodeKey (h : decodeKey backspace (b :: rest) = .key quitKey used) :
    b = 0x11 ∧ used = 1 := by
  rw [decodeKey] at h
  cases hsingle : singleByteEvent? backspace b with
  | some event =>
      rw [hsingle] at h
      obtain ⟨rfl, rfl⟩ := Step.key.inj h
      exact ⟨control_of_singleByteEvent hsingle, rfl⟩
  | none =>
      rw [hsingle] at h
      dsimp only [Utf8.decode] at h
      split at h
      · exact absurd h (readContinuation_ne _ _ _ _)
      · exact absurd (Step.key.inj h).1 (ne_of_function rfl)

theorem singleShiftEvent_ne (b : UInt8) : ControlSequence.singleShiftEvent b ≠ quitKey := by
  unfold ControlSequence.singleShiftEvent
  split
  · exact ne_of_function (KeyEvent.press_key _ _)
  · exact ne_of_function rfl

/-! ## Sequences -/

/-- A control sequence that is Ctrl-Q to its end ends in `u`. -/
theorem quitCode_of_sequence {body : Bytes}
    (h : ControlSequence.decode body = .key quitKey body.length) :
    QuitCode (0x1b :: 0x5b :: body) := by
  rcases ControlSequence.finished_of_decode h with
    hinvalid | ⟨final, run, p, hfinished, _, hreported⟩
  · exact absurd hinvalid.symm (ne_of_function rfl)
  · obtain rfl : final = 0x75 := hreported.final_of_codepoint
    cases hfinished with
    | @intro marker inter =>
        have hbody :
            marker ++ (run ++ (inter ++ [0x75])) = (marker ++ (run ++ inter)) ++ [0x75] := by
          simp only [List.append_assoc]
        rw [hbody] at h ⊢
        refine .extended ?_
        rw [h, List.length_append]
        rfl

/-- Of the forms of a key only the control byte and the extended report are Ctrl-Q. -/
theorem quitCode_of_form {bytes : Bytes} (h : Form backspace bytes event)
    (hquit : event = quitKey) : QuitCode bytes := by
  cases h with
  | plain hkey =>
      rw [hquit] at hkey
      cases bytes with
      | nil => cases hkey
      | cons b rest =>
          obtain ⟨rfl, hused⟩ := control_of_decodeKey hkey
          rw [List.length_cons, Nat.add_eq_right, List.length_eq_zero_iff] at hused
          rw [hused]
          exact .control
  | alt => exact absurd hquit (withModifiers_ne _)
  | sequence hbody =>
      rw [hquit] at hbody
      exact quitCode_of_sequence hbody
  | singleShift => exact absurd hquit (singleShiftEvent_ne _)

/-! ## Segments -/

theorem decodeOne_of_quitCode {bytes : Bytes} (h : QuitCode bytes) (backspace : UInt8) :
    decodeOne backspace false bytes = .key quitKey bytes.length := by
  cases h with
  | control => rfl
  | extended hdecode =>
      rename_i body
      have hescape : decodeOne backspace false (0x1b :: 0x5b :: (body ++ [0x75])) =
          (ControlSequence.decode (body ++ [0x75])).shift 2 := by
        cases body <;> rfl
      rw [hescape, hdecode]
      simp only [Step.shift, List.length_cons, List.length_append, List.length_nil]

/-- Nothing held back is resolved to Ctrl-Q. -/
theorem quitKey_notMem_resolution (bytes : Bytes) : quitKey ∉ resolution bytes := by
  unfold resolution
  split
  · decide
  split
  · decide
  split
  · decide
  split
  · decide
  · decide

/-- A segment is Ctrl-Q by its bytes, whatever the erase character is. -/
theorem quit_iff {segment : Segment} (h : Provenance backspace segment) :
    segment.event = quitKey ↔ QuitCode segment.bytes := by
  cases h with
  | fed hcomplete =>
      constructor
      · exact quitCode_of_form hcomplete.form
      · intro hcode
        have hdecode := complete_iff.1 hcomplete
        rw [decodeOne_of_quitCode hcode] at hdecode
        exact (Step.key.inj hdecode).1.symm
  | flushed hheld hresolution =>
      constructor
      · intro hquit
        refine absurd ?_ (quitKey_notMem_resolution segment.bytes)
        rw [hresolution, hquit]
        exact List.mem_singleton_self _
      · intro hcode
        have hincomplete := hheld.incomplete
        rw [decodeOne_of_quitCode hcode] at hincomplete
        cases hincomplete

end Echo

end Keystroke
