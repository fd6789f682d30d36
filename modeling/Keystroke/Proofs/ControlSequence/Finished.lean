import Keystroke.Proofs.ControlSequence.Grammar

/-! # Finished control sequences

A body that decides a key with its last byte is finished by a final byte, or it is
refused or broken off and the key is invalid. A final byte reports what the tables say
of it. Some keys are in no table of keys: they take a report of their own, or an
extended one.
-/

namespace Keystroke.Decoder.ControlSequence

/-- The body ends with the final byte, and `run` is its parameter section. -/
inductive Finished (final : UInt8) (run : Bytes) : Bytes → Prop
  | intro {marker inter : Bytes} :
      Marked marker (run ++ (inter ++ [final])) → Accepted run →
      (∀ c ∈ inter, isIntermediate c = true) → isFinal final = true →
      Finished final run (marker ++ (run ++ (inter ++ [final])))

/-- The keys that stand for themselves in no table of final bytes and keypad numbers: the erase
key, and the markers of focus and paste. -/
def unlisted : List FunctionKey := [.backspace, .focusIn, .focusOut, .pasteStart, .pasteEnd]

theorem notMem_unlisted_of_cursorKeys {b : UInt8} {key : FunctionKey} (h : (b, key) ∈ cursorKeys) :
    key ∉ unlisted := by
  have hall : ∀ entry ∈ cursorKeys, entry.2 ∉ unlisted := by decide
  exact hall _ h

theorem notMem_unlisted_of_keypadKeys {n : Nat} {key : FunctionKey} (h : (n, key) ∈ keypadKeys) :
    key ∉ unlisted := by
  have hall : ∀ entry ∈ keypadKeys, entry.2 ∉ unlisted := by decide
  exact hall _ h

/-- What a body decides with its last byte. -/
theorem finished_of_decode {body : Bytes} {event : KeyEvent}
    (h : decode body = .key event body.length) :
    event = .invalid ∨ ∃ final run, ∃ p : Parameters, Finished final run body ∧
      (∀ i j, p.value i j = min (written run i j) maxValue) ∧
      Reports (p.value 0 0) (p.value 0 1) (p.value 1 0) final event.key event.modifiers.mask := by
  have hdecodes := decodes_decode body
  rw [h] at hdecodes
  -- The rules give the body and its length in parts, so neither may stand in the step.
  generalize hlength : body.length = used at hdecodes
  generalize hstep : Step.key event used = step at hdecodes
  cases hdecodes with
  | refused => exact .inl (Step.key.inj hstep).1
  | cutShort => cases hstep
  | brokenOff => exact .inl (Step.key.inj hstep).1
  | @final marker run inter after b p hmarked hrun hinter hfinal hvalue =>
      obtain ⟨rfl, rfl⟩ := Step.key.inj hstep
      have hafter : after = [] := by
        simp only [List.length_append, List.length_cons] at hlength
        exact List.length_eq_zero_iff.1 (by omega)
      subst hafter
      exact .inr ⟨b, run, p, .intro hmarked hrun hinter hfinal, hvalue,
        event_iff_reports.1 ⟨rfl, rfl⟩⟩

end Keystroke.Decoder.ControlSequence
