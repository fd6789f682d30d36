/-!
# Unsigned numbers

Decimal numbers of 64 bits with an optional plus sign and any number of leading
zeros. The first character that makes the text no such number decides the error.
-/

namespace Keystroke.Unsigned

inductive Error where
  | empty
  | invalidDigit
  | tooLarge
deriving DecidableEq, Repr

def Error.message : Error → String
  | empty => "cannot parse integer from empty string"
  | invalidDigit => "invalid digit found in string"
  | tooLarge => "number too large to fit in target type"

def bound : Nat := 0x10000000000000000

def readDigits (value : Nat) : List Char → Except Error Nat
  | [] => .ok value
  | c :: rest =>
    if c.isDigit then
      let grown := value * 10 + (c.toNat - '0'.toNat)
      if grown < bound then readDigits grown rest else .error .tooLarge
    else .error .invalidDigit

def read (text : List Char) : Except Error Nat :=
  match text with
  | [] => .error .empty
  | ['+'] => .error .invalidDigit
  | '+' :: digits => readDigits 0 digits
  | digits => readDigits 0 digits

end Keystroke.Unsigned
