import Keystroke.Pattern.Escape

/-!
# Character classes of patterns

What stands in brackets: characters, ranges, named classes and other classes, joined
by operators. Reading a class gives its depth, how far things are nested in it.
-/

namespace Keystroke.Pattern.CharacterClass

/-- A bracket that is open: the depth of what stands before the last operator, the number of
things behind it, and the depth of the deepest of them. It is fresh as long as there is nothing but
minus signs in it. -/
structure Bracket where
  left : Option Nat
  count : Nat
  deepest : Nat
  fresh : Bool
deriving DecidableEq, Repr

namespace Bracket

def empty : Bracket := ⟨none, 0, 0, true⟩

def add (bracket : Bracket) (depth : Nat) : Bracket :=
  ⟨bracket.left, bracket.count + 1, max bracket.deepest depth, false⟩

/-- Several things side by side are nested in their union. -/
def union (bracket : Bracket) : Nat :=
  if bracket.count ≤ 1 then bracket.deepest else bracket.deepest + 1

def depth (bracket : Bracket) : Nat :=
  match bracket.left with
  | none => bracket.union
  | some left => max left bracket.union + 1

/-- Behind an operator. -/
def operate (bracket : Bracket) : Bracket := ⟨some bracket.depth, 0, 0, false⟩

end Bracket

def names : List String :=
  ["alnum", "alpha", "ascii", "blank", "cntrl", "digit", "graph", "lower", "print", "punct",
    "space", "upper", "word", "xdigit"]

/-- A named class behind its opening bracket: whether it is a complement, and what remains. -/
def readNamed? : List Char → Option (Bool × List Char)
  | ':' :: rest =>
    let negated := rest.head? = some '^'
    let inner := if negated then rest.drop 1 else rest
    let name := inner.takeWhile (· != ':')
    match inner.drop name.length with
    | ':' :: ']' :: rest =>
      if names.contains (String.ofList name) then some (negated, rest) else none
    | _ => none
  | _ => none

/-- Bytes beyond ASCII are no characters. -/
def admits (flags : Flags) (c : Char) : Bool :=
  flags.admitsCase && (flags.unicode || decide (c.toNat < 0x80))

/-- What remains behind a thing that stands by itself or begins a range: the character it is, if
it is one. -/
def readMember (flags : Flags) : List Char → Option (Option Char × List Char)
  | [] => none
  | '\\' :: rest =>
    match Escape.read flags rest with
    | some (.literal c _, rest) => if admits flags c then some (some c, rest) else none
    | some (.category, rest) => some (none, rest)
    | _ => none
  | c :: rest => if admits flags c then some (some c, rest) else none

/-- The character behind a minus sign, seen past blanks and the sign of one comment. -/
def peek (flags : Flags) (text : List Char) : Option Char :=
  if flags.spaced then
    match text.dropWhile Unicode.isBlank with
    | '#' :: rest => (rest.dropWhile Unicode.isBlank).head?
    | text => text.head?
  else text.head?

/-- A member, or two with all between them. -/
def readRange (flags : Flags) (text : List Char) : Option (List Char) := do
  let (first, rest) ← readMember flags text
  match flags.skip rest with
  | [] => none
  | '-' :: behind =>
    if peek flags behind = some ']' ∨ peek flags behind = some '-' then some ('-' :: behind)
    else
      let (last, rest) ← readMember flags (flags.skip behind)
      match first, last with
      | some a, some b => if a ≤ b then some rest else none
      | _, _ => none
  | rest => some rest

/-- Begins a class behind its bracket. The complement of a set of ASCII bytes is no set of
characters. -/
def begin? (flags : Flags) (text : List Char) : Option (List Char) :=
  match flags.skip text with
  | '^' :: rest => if flags.unicode then some rest else none
  | text => some text

/-- Reads up to the end of the outermost bracket; `fuel` bounds the number of parts. Minus signs in
front of all else stand for themselves, and so does a closing bracket in that place. -/
def readParts (flags : Flags) :
    Nat → Bracket → List Bracket → List Char → Option (Nat × List Char)
  | 0, _, _, _ => none
  | fuel + 1, inner, outer, text =>
    match inner.fresh, flags.skip text with
    | _, [] => none
    | true, '-' :: rest =>
      if flags.admitsCase then readParts flags fuel { inner.add 0 with fresh := true } outer rest
      else none
    | fresh, ']' :: rest =>
      if fresh && inner.count == 0 then
        if flags.admitsCase then readParts flags fuel (inner.add 0) outer rest else none
      else
        match outer with
        | [] => some (inner.depth + 1, rest)
        | above :: outer => readParts flags fuel (above.add (inner.depth + 1)) outer rest
    | _, '[' :: rest =>
      match readNamed? rest with
      | some (negated, rest) =>
        if flags.admitsCase && (flags.unicode || !negated) then
          readParts flags fuel (inner.add 0) outer rest
        else none
      | none => (begin? flags rest).bind (readParts flags fuel .empty (inner :: outer))
    | _, '&' :: '&' :: rest => readParts flags fuel inner.operate outer rest
    | _, '-' :: '-' :: rest => readParts flags fuel inner.operate outer rest
    | _, '~' :: '~' :: rest => readParts flags fuel inner.operate outer rest
    | _, text => (readRange flags text).bind (readParts flags fuel (inner.add 0) outer)

/-- Reads a class behind its bracket: its depth, and what remains. -/
def read (flags : Flags) (text : List Char) : Option (Nat × List Char) :=
  (begin? flags text).bind (readParts flags (text.length + 1) .empty [])

end Keystroke.Pattern.CharacterClass
