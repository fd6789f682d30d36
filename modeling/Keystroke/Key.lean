/-!
# Keys

A key is a character or one of the named keys and input markers that have no
character of their own. A single number can name either kind: character codes
stay below `FunctionKey.tagBase`, function keys are numbered from there on.
-/

namespace Keystroke

/-- Named keys and input markers, in the order of their tags. -/
inductive FunctionKey where
  | insert | delete | pageUp | pageDown
  | up | down | right | left
  | home | endKey
  | f1 | f2 | f3 | f4 | f5 | f6 | f7 | f8 | f9 | f10 | f11 | f12
  | enter | escape | backspace | tab | space
  | focusIn | focusOut
  | pasteStart | pasteEnd
  /-- Input bytes that could not be decoded and were discarded. -/
  | invalid
deriving DecidableEq, Repr

namespace FunctionKey

/-- The first tag lies just above the last character code. -/
def tagBase : Nat := 0x110000

/-- Every function key, in tag order. -/
def all : List FunctionKey :=
  [insert, delete, pageUp, pageDown, up, down, right, left, home, endKey,
    f1, f2, f3, f4, f5, f6, f7, f8, f9, f10, f11, f12,
    enter, escape, backspace, tab, space, focusIn, focusOut, pasteStart, pasteEnd, invalid]

/-- The number of a function key in the extended key reports. -/
def tag (key : FunctionKey) : Nat := tagBase + key.ctorIdx

def ofTag? (tag : Nat) : Option FunctionKey :=
  if tagBase ≤ tag then all[tag - tagBase]? else none

theorem ofTag?_tag (key : FunctionKey) : ofTag? key.tag = some key := by
  cases key <;> rfl

/-- The short display name. -/
def name : FunctionKey → String
  | insert => "Insert"
  | delete => "Delete"
  | pageUp => "PageUp"
  | pageDown => "PageDown"
  | up => "Up"
  | down => "Down"
  | right => "Right"
  | left => "Left"
  | home => "Home"
  | endKey => "End"
  | f1 => "F1"
  | f2 => "F2"
  | f3 => "F3"
  | f4 => "F4"
  | f5 => "F5"
  | f6 => "F6"
  | f7 => "F7"
  | f8 => "F8"
  | f9 => "F9"
  | f10 => "F10"
  | f11 => "F11"
  | f12 => "F12"
  | enter => "Enter"
  | escape => "Esc"
  | backspace => "Backspace"
  | tab => "Tab"
  | space => "Space"
  | focusIn => "FocusIn"
  | focusOut => "FocusOut"
  | pasteStart => "PasteStart"
  | pasteEnd => "PasteEnd"
  | invalid => "Invalid"

end FunctionKey

/-- The character with a given code, if there is one: surrogates and codes past the last
character name none. -/
def scalar? (code : Nat) : Option Char :=
  if h : code.isValidChar then some (Char.ofNatAux code h) else none

/-- Hexadecimal with lower-case digits and as few of them as possible, behind `0x`. -/
def hexText (n : Nat) : String :=
  "0x" ++ String.ofList (Nat.toDigits 16 n)

/-- A character, or a named key. -/
inductive Key where
  | codepoint (c : Char)
  | function (key : FunctionKey)
deriving DecidableEq, Repr

namespace Key

/-- The key that a number names. Tags name function keys, the control codes of Tab, Enter,
Escape and Backspace name those keys, and any other character code names its character. -/
def ofCode (code : Nat) : Key :=
  match FunctionKey.ofTag? code with
  | some key => .function key
  | none =>
    if code = 0x09 then .function .tab
    else if code = 0x0d then .function .enter
    else if code = 0x1b then .function .escape
    else if code = 0x7f then .function .backspace
    else
      match scalar? code with
      | some c => .codepoint c
      | none => .function .invalid

/-- Visible ASCII characters stand for themselves, all others for their code. -/
def isVisible (c : Char) : Bool :=
  decide (0x21 ≤ c.toNat ∧ c.toNat ≤ 0x7e)

def text : Key → String
  | codepoint c => if isVisible c then String.singleton c else hexText c.toNat
  | function key => key.name

end Key

end Keystroke
