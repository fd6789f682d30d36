import Keystroke.Pattern.CharacterClass
import Keystroke.Unicode.Numeral

/-!
# Tokens of patterns

A pattern is made of items, which can be repeated, of groups, and of branches. The
flags in force decide where a token ends and whether it is allowed.
-/

namespace Keystroke.Pattern

inductive Token where
  /-- An item, how far things are nested in it, and whether it depends on where words begin and
  end. -/
  | item (depth : Nat) (onWords : Bool)
  | repetition
  | branch
  /-- The beginning of a group, with its own flags and perhaps a name. -/
  | begins (flags : Flags) (name : Option (List Char))
  | ends
  /-- Flags for the rest of the group. -/
  | change (flags : Flags)
deriving DecidableEq, Repr

namespace Token

def isName : List Char → Bool
  | [] => false
  | first :: rest =>
    (first == '_' || Unicode.isLetter first) &&
      rest.all fun c => ['_', '.', '[', ']'].contains c || Unicode.isAlphanumeric c

def readName (flags : Flags) (text : List Char) : Option (Token × List Char) :=
  let name := text.takeWhile (· != '>')
  match text.drop name.length with
  | _ :: rest => if isName name then some (begins flags (some name), rest) else none
  | [] => none

def readFlags (flags : Flags) (text : List Char) : Option (Token × List Char) :=
  match flags.read [] text with
  | some (flags, ':' :: rest) => some (begins flags none, rest)
  | some (flags, ')' :: rest) => if text.head? = some ')' then none else some (change flags, rest)
  | _ => none

/-- A group behind its parenthesis. Looking ahead and behind is not offered. -/
def readGroup (flags : Flags) (text : List Char) : Option (Token × List Char) :=
  match flags.skip text with
  | '?' :: '<' :: '=' :: _ => none
  | '?' :: '<' :: '!' :: _ => none
  | '?' :: 'P' :: '<' :: rest => readName flags rest
  | '?' :: '<' :: rest => readName flags rest
  | '?' :: rest => readFlags flags rest
  | rest => some (begins flags none, rest)

def readEscape (flags : Flags) (text : List Char) : Option (Token × List Char) :=
  match Escape.read flags text with
  | some (.literal c asByte, rest) =>
    if flags.admitsCase && (flags.unicode || !asByte || decide (c.toNat < 0x80)) then
      some (item 0 false, rest)
    else none
  | some (.category, rest) => some (item 0 false, rest)
  | some (.assertion onWords, rest) => some (item 0 (onWords && flags.unicode), rest)
  | none => none

/-- The token that a text begins with, and what remains. Any byte is more than any character. -/
def next (flags : Flags) : List Char → Option (Token × List Char)
  | [] => none
  | c :: rest =>
    match c with
    | '(' => readGroup flags rest
    | ')' => some (ends, rest)
    | '|' => some (branch, rest)
    | '[' => (CharacterClass.read flags rest).map fun (depth, rest) => (item depth false, rest)
    | '?' | '*' | '+' =>
      match rest with
      | '?' :: rest => some (repetition, rest)
      | rest => some (repetition, rest)
    | '{' => none
    | '\\' => readEscape flags rest
    | '.' => if flags.unicode then some (item 0 false, rest) else none
    | '^' | '$' => some (item 0 false, rest)
    | _ => if flags.admitsCase then some (item 0 false, rest) else none

end Token

end Keystroke.Pattern
