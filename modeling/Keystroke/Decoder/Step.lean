import Keystroke.KeyEvent

/-!
# Decoding steps

A step looks at the front of the input and either decides one key, together
with the number of bytes it takes, or finds that the input ends inside a
sequence that more bytes could complete.
-/

namespace Keystroke.Decoder

abbrev Bytes := List UInt8

inductive Step where
  | key (event : KeyEvent) (used : Nat)
  | incomplete
deriving DecidableEq

namespace Step

/-- The same decision, with `n` more bytes in front of it. -/
def shift (n : Nat) : Step → Step
  | key event used => key event (used + n)
  | incomplete => incomplete

def mapEvent (f : KeyEvent → KeyEvent) : Step → Step
  | key event used => key (f event) used
  | incomplete => incomplete

/-- A decided key takes at least `least` and at most `most` bytes. -/
def Within (least most : Nat) : Step → Prop
  | key _ used => least ≤ used ∧ used ≤ most
  | incomplete => True

theorem Within.key {least most used : Nat} {event : KeyEvent} {step : Step}
    (h : step.Within least most) (hs : step = .key event used) : least ≤ used ∧ used ≤ most := by
  rw [hs] at h
  exact h

theorem Within.shift {least most : Nat} {step : Step} (h : step.Within least most) (n : Nat) :
    (step.shift n).Within (least + n) (most + n) := by
  cases step with
  | key event used => exact ⟨Nat.add_le_add_right h.1 n, Nat.add_le_add_right h.2 n⟩
  | incomplete => trivial

theorem Within.mapEvent {least most : Nat} {step : Step} (h : step.Within least most)
    (f : KeyEvent → KeyEvent) : (step.mapEvent f).Within least most := by
  cases step with
  | key event used => exact h
  | incomplete => trivial

theorem Within.mono {least most least' most' : Nat} {step : Step} (h : step.Within least most)
    (hl : least' ≤ least) (hm : most ≤ most') : step.Within least' most' := by
  cases step with
  | key event used => exact ⟨Nat.le_trans hl h.1, Nat.le_trans h.2 hm⟩
  | incomplete => trivial

end Step

end Keystroke.Decoder
