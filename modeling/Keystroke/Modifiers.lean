/-!
# Modifiers

The modifier keys held while a key was pressed. The four flags are independent
and combine freely.
-/

namespace Keystroke

structure Modifiers where
  shift : Bool
  alt : Bool
  ctrl : Bool
  super : Bool
deriving DecidableEq, Repr

namespace Modifiers

def none : Modifiers := ⟨false, false, false, false⟩

def onlyShift : Modifiers := ⟨true, false, false, false⟩

def onlyAlt : Modifiers := ⟨false, true, false, false⟩

def onlyCtrl : Modifiers := ⟨false, false, true, false⟩

def onlySuper : Modifiers := ⟨false, false, false, true⟩

def union (m n : Modifiers) : Modifiers :=
  ⟨m.shift || n.shift, m.alt || n.alt, m.ctrl || n.ctrl, m.super || n.super⟩

/-- Every flag of `n` is set in `m`. -/
def contains (m n : Modifiers) : Bool :=
  (m.shift || !n.shift) && (m.alt || !n.alt) && (m.ctrl || !n.ctrl) && (m.super || !n.super)

/-- Shift is bit 0, Alt bit 1, Ctrl bit 2 and Super bit 3; higher bits carry nothing. -/
def ofMask (mask : Nat) : Modifiers :=
  ⟨mask.testBit 0, mask.testBit 1, mask.testBit 2, mask.testBit 3⟩

def mask (m : Modifiers) : Nat :=
  m.shift.toNat + 2 * m.alt.toNat + 4 * m.ctrl.toNat + 8 * m.super.toNat

theorem ofMask_mask (m : Modifiers) : ofMask m.mask = m := by
  rcases m with ⟨_ | _, _ | _, _ | _, _ | _⟩ <;> rfl

/-- The text in front of a key: `s-` Super, `C-` Ctrl, `A-` Alt and `S-` Shift, in this order. -/
def text (m : Modifiers) : String :=
  (if m.super then "s-" else "") ++ (if m.ctrl then "C-" else "") ++
    (if m.alt then "A-" else "") ++ (if m.shift then "S-" else "")

end Modifiers

end Keystroke
