import Keystroke.Decoder.Step

/-!
# Control sequences

The sequences behind `ESC [` and `ESC O`: cursor and function keys, focus and
paste reports, the keypad table ending in `~`, and the extended reports ending
in `u` that name any key by number.

A control sequence is an optional private marker, parameters, intermediate
bytes and a final byte. Parameters are separated by `;`, the values within one
by `:`. Marker and intermediates carry nothing that is reported.
-/

namespace Keystroke.Decoder.ControlSequence

def isParameterByte (b : UInt8) : Bool :=
  decide (0x30 ≤ b.toNat ∧ b.toNat ≤ 0x3f)

/-- The last four parameter bytes are reserved for private use and mark a sequence as private. -/
def isMarker (b : UInt8) : Bool :=
  decide (0x3c ≤ b.toNat ∧ b.toNat ≤ 0x3f)

def isIntermediate (b : UInt8) : Bool :=
  decide (0x20 ≤ b.toNat ∧ b.toNat ≤ 0x2f)

def isFinal (b : UInt8) : Bool :=
  decide (0x40 ≤ b.toNat ∧ b.toNat ≤ 0x7e)

def maxParameters : Nat := 16

/-- The most values that one parameter has. -/
def maxSubvalues : Nat := 4

/-- Values stop growing here. -/
def maxValue : Nat := 0xffffffff

/-- Parameters read so far. `value i j` is the `j`-th value of the `i`-th parameter, zero where
none is written; the next digit belongs to `value index sub`. -/
structure Parameters where
  value : Nat → Nat → Nat
  index : Nat
  sub : Nat

namespace Parameters

def empty : Parameters := ⟨fun _ _ => 0, 0, 0⟩

def pushDigit (p : Parameters) (digit : Nat) : Parameters :=
  let grown := min (p.value p.index p.sub * 10 + digit) maxValue
  { p with value := fun i j => if i = p.index ∧ j = p.sub then grown else p.value i j }

/-- Takes one parameter byte, if it is acceptable here. Nothing is acceptable behind the last
parameter, and a private byte nowhere. -/
def push? (p : Parameters) (b : UInt8) : Option Parameters :=
  if maxParameters ≤ p.index then none
  else if 0x30 ≤ b.toNat ∧ b.toNat ≤ 0x39 then some (p.pushDigit (b.toNat - 0x30))
  else if b = 0x3a then
    if p.sub + 1 < maxSubvalues then some { p with sub := p.sub + 1 } else none
  else if b = 0x3b then some { p with index := p.index + 1, sub := 0 }
  else none

/-- The second parameter is one more than the modifier mask, and zero or absent for none. -/
def modifiers (p : Parameters) : Modifiers := .ofMask (p.value 1 0 - 1)

end Parameters

/-- The keys that share their final byte between both kinds of sequence. -/
def cursorKey? (final : UInt8) : Option FunctionKey :=
  match Char.ofUInt8 final with
  | 'A' => some .up
  | 'B' => some .down
  | 'C' => some .right
  | 'D' => some .left
  | 'F' => some .endKey
  | 'H' => some .home
  | 'P' => some .f1
  | 'Q' => some .f2
  | 'R' => some .f3
  | 'S' => some .f4
  | _ => none

/-- The keypad table. -/
def keypadKey? (n : Nat) : Option FunctionKey :=
  match n with
  | 1 => some .home
  | 2 => some .insert
  | 3 => some .delete
  | 4 => some .endKey
  | 5 => some .pageUp
  | 6 => some .pageDown
  | 15 => some .f5
  | 17 => some .f6
  | 18 => some .f7
  | 19 => some .f8
  | 20 => some .f9
  | 21 => some .f10
  | 23 => some .f11
  | 24 => some .f12
  | _ => none

def keypadEvent (n : Nat) (modifiers : Modifiers) : KeyEvent :=
  if n = 200 then .function .pasteStart
  else if n = 201 then .function .pasteEnd
  else
    match keypadKey? n with
    | some key => .press (.function key) modifiers
    | none => .invalid

/-- The extended report of the key with number `code`. With Shift held and a shifted key
reported, the shifted key stands for itself and Shift is used up. -/
def extendedEvent (code shifted : Nat) (modifiers : Modifiers) : KeyEvent :=
  if shifted ≠ 0 ∧ modifiers.shift = true then
    .press (.ofCode shifted) { modifiers with shift := false }
  else .press (.ofCode code) modifiers

/-- The event of a control sequence by its final byte. -/
def event (final : UInt8) (p : Parameters) : KeyEvent :=
  match cursorKey? final with
  | some key => .press (.function key) p.modifiers
  | none =>
    match Char.ofUInt8 final with
    | 'I' => .function .focusIn
    | 'O' => .function .focusOut
    | 'u' => extendedEvent (p.value 0 0) (p.value 0 1) p.modifiers
    | '~' => keypadEvent (p.value 0 0) p.modifiers
    | _ => .invalid

/-- Reads intermediate bytes and the final byte, with `used` bytes in front of them. A byte
that is neither breaks the sequence off and is used up with it. -/
def readFinal (p : Parameters) (used : Nat) : Bytes → Step
  | [] => .incomplete
  | b :: rest =>
    if isIntermediate b then readFinal p (used + 1) rest
    else if isFinal b then .key (event b p) (used + 1)
    else .key .invalid (used + 1)

/-- Reads parameter bytes and what follows them. -/
def readParameters (p : Parameters) (used : Nat) : Bytes → Step
  | [] => .incomplete
  | b :: rest =>
    if isParameterByte b then
      match p.push? b with
      | some q => readParameters q (used + 1) rest
      | none => .key .invalid (used + 1)
    else readFinal p used (b :: rest)

/-- Decodes what follows `ESC [`. -/
def decode : Bytes → Step
  | [] => .incomplete
  | b :: rest =>
    if isMarker b then readParameters .empty 1 rest
    else readParameters .empty 0 (b :: rest)

/-- The event of the byte that follows `ESC O`. -/
def singleShiftEvent (b : UInt8) : KeyEvent :=
  match cursorKey? b with
  | some key => .function key
  | none => .invalid

theorem readFinal_within (p : Parameters) (used : Nat) (rest : Bytes) :
    (readFinal p used rest).Within (used + 1) (used + rest.length) := by
  induction rest generalizing used with
  | nil => trivial
  | cons b rest ih =>
    simp only [readFinal, List.length_cons]
    split
    · exact (ih (used + 1)).mono (by omega) (by omega)
    · split <;> exact ⟨by omega, by omega⟩

theorem readParameters_within (p : Parameters) (used : Nat) (rest : Bytes) :
    (readParameters p used rest).Within (used + 1) (used + rest.length) := by
  induction rest generalizing p used with
  | nil => trivial
  | cons b rest ih =>
    simp only [readParameters]
    split
    · split
      · exact (ih _ (used + 1)).mono (by omega) (by simp only [List.length_cons]; omega)
      · exact ⟨by omega, by simp only [List.length_cons]; omega⟩
    · exact readFinal_within p used (b :: rest)

theorem decode_within (body : Bytes) : (decode body).Within 1 body.length := by
  cases body with
  | nil => trivial
  | cons b rest =>
    simp only [decode]
    split
    · exact (readParameters_within _ 1 rest).mono (by omega)
        (by simp only [List.length_cons]; omega)
    · exact (readParameters_within _ 0 (b :: rest)).mono (by omega) (by omega)

end Keystroke.Decoder.ControlSequence
