import Keystroke.Unicode.Blank

/-!
# Flags of patterns

The flags that change how the rest of a pattern is read.
-/

namespace Keystroke.Pattern

structure Flags where
  ignoreCase : Bool
  /-- The pattern is about characters, not about bytes. -/
  unicode : Bool
  /-- Blanks and comments stand between the parts of the pattern. -/
  spaced : Bool
deriving DecidableEq, Repr

namespace Flags

def start : Flags := ⟨false, true, false⟩

def letters : List Char := ['i', 'm', 's', 'U', 'u', 'R', 'x']

def set (flags : Flags) (letter : Char) (value : Bool) : Flags :=
  match letter with
  | 'i' => { flags with ignoreCase := value }
  | 'u' => { flags with unicode := value }
  | 'x' => { flags with spaced := value }
  | _ => flags

/-- Reads letters up to a colon or a closing parenthesis, which comes first in what remains.
Those behind a minus sign are cleared. Nothing may stand twice, and the sign not last. -/
def read (flags : Flags) (seen : List Char) : List Char → Option (Flags × List Char)
  | [] => none
  | c :: rest =>
    if c = ':' ∨ c = ')' then if seen.head? = some '-' then none else some (flags, c :: rest)
    else if seen.contains c then none
    else if c = '-' then flags.read (c :: seen) rest
    else if letters.contains c then (flags.set c (!seen.contains '-')).read (c :: seen) rest
    else none

/-- Leaves out blanks, and comments from a number sign to the end of the line. -/
def skipBlanks (inComment : Bool) : List Char → List Char
  | [] => []
  | c :: rest =>
    if inComment then skipBlanks (c != '\n') rest
    else if Unicode.isBlank c then skipBlanks false rest
    else if c = '#' then skipBlanks true rest
    else c :: rest

def skip (flags : Flags) (text : List Char) : List Char :=
  if flags.spaced then skipBlanks false text else text

/-- Case can be ignored for bytes only. -/
def admitsCase (flags : Flags) : Bool := !(flags.unicode && flags.ignoreCase)

end Flags

end Keystroke.Pattern
