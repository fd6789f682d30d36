import Keystroke.Key
import Keystroke.Modifiers

/-!
# Key events

One keypress or input marker together with its modifiers. An event that stands
for discarded input names no particular key, so it carries no modifiers.
-/

namespace Keystroke

structure KeyEvent where
  key : Key
  modifiers : Modifiers
  modifiers_of_invalid : key = .function .invalid → modifiers = .none
deriving DecidableEq

namespace KeyEvent

/-- Discarded input. -/
def invalid : KeyEvent := ⟨.function .invalid, .none, fun _ => rfl⟩

/-- A key with modifiers; the invalid key drops them. -/
def press (key : Key) (modifiers : Modifiers) : KeyEvent :=
  if h : key = .function .invalid then invalid else ⟨key, modifiers, fun hk => absurd hk h⟩

def plain (key : Key) : KeyEvent := press key .none

def character (c : Char) : KeyEvent := plain (.codepoint c)

def function (key : FunctionKey) : KeyEvent := plain (.function key)

/-- The same key with `modifiers` held as well. -/
def withModifiers (event : KeyEvent) (modifiers : Modifiers) : KeyEvent :=
  press event.key (event.modifiers.union modifiers)

def has (event : KeyEvent) (modifiers : Modifiers) : Bool :=
  event.modifiers.contains modifiers

def isInvalid (event : KeyEvent) : Bool :=
  decide (event.key = .function .invalid)

def text (event : KeyEvent) : String :=
  event.modifiers.text ++ event.key.text

theorem eq_invalid_of_key {event : KeyEvent} (h : event.key = .function .invalid) :
    event = invalid := by
  rcases event with ⟨key, modifiers, hm⟩
  cases h
  cases hm rfl
  rfl

theorem isInvalid_iff {event : KeyEvent} : event.isInvalid = true ↔ event = invalid := by
  constructor
  · intro h
    exact eq_invalid_of_key (of_decide_eq_true h)
  · rintro rfl
    rfl

theorem withModifiers_invalid (modifiers : Modifiers) :
    invalid.withModifiers modifiers = invalid := rfl

end KeyEvent

end Keystroke
