import Keystroke.Pattern.Flags

/-!
# Escapes of patterns

What stands behind a backslash.
-/

namespace Keystroke.Pattern

inductive Escape where
  /-- A character, which may be given as a byte. -/
  | literal (c : Char) (asByte : Bool)
  /-- Digits, blanks or word characters. -/
  | category
  /-- A place between characters, which may depend on where words begin and end. -/
  | assertion (onWords : Bool)
deriving DecidableEq, Repr

namespace Escape

def hexDigit? (c : Char) : Option Nat :=
  if c.isDigit then some (c.toNat - '0'.toNat)
  else if 'a' ≤ c ∧ c ≤ 'f' then some (c.toNat - 'a'.toNat + 10)
  else if 'A' ≤ c ∧ c ≤ 'F' then some (c.toNat - 'A'.toNat + 10)
  else none

/-- Reads a fixed number of hexadecimal digits. -/
def readHex (flags : Flags) (value : Nat) : Nat → List Char → Option (Nat × List Char)
  | 0, text => some (value, text)
  | count + 1, text =>
    match flags.skip text with
    | [] => none
    | c :: rest => (hexDigit? c).bind fun digit => readHex flags (16 * value + digit) count rest

def readCode (flags : Flags) (asByte : Bool) (count : Nat) (text : List Char) :
    Option (Escape × List Char) :=
  (readHex flags 0 count text).bind fun (code, rest) =>
    if code.isValidChar then some (literal (.ofNat code) asByte, rest) else none

def isSign (c : Char) : Bool :=
  decide (c.toNat < 0x80) && !c.isAlphanum && c != '<' && c != '>'

/-- Categories are known for bytes only, and their complements not at all. -/
def read (flags : Flags) : List Char → Option (Escape × List Char)
  | [] => none
  | c :: rest =>
    if isSign c then some (literal c false, rest)
    else
      match c with
      | 'x' => readCode flags true 2 rest
      | 'u' => readCode flags false 4 rest
      | 'U' => readCode flags false 8 rest
      | 'a' => some (literal '\x07' false, rest)
      | 'f' => some (literal '\x0c' false, rest)
      | 't' => some (literal '\t' false, rest)
      | 'n' => some (literal '\n' false, rest)
      | 'r' => some (literal '\r' false, rest)
      | 'v' => some (literal '\x0b' false, rest)
      | 'A' | 'z' => some (assertion false, rest)
      | 'b' | 'B' | '<' | '>' => some (assertion true, rest)
      | 'd' | 's' | 'w' => if flags.unicode then none else some (category, rest)
      | _ => none

end Escape

end Keystroke.Pattern
