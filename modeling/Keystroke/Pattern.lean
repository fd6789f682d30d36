import Keystroke.Pattern.Token

/-!
# Patterns

Regular expressions, as far as it takes to tell which of them are well formed.
-/

namespace Keystroke.Pattern

inductive Error where
  | malformed
  /-- A pattern that depends on where words of any script begin and end. -/
  | wordBoundary
deriving DecidableEq, Repr

def Error.message : Error → String
  | malformed => "error building NFA"
  | wordBoundary =>
    "unsupported regex feature for DFAs: cannot build DFAs for regexes with Unicode word " ++
      "boundaries; switch to ASCII word boundaries, or heuristically enable Unicode word " ++
      "boundaries or use a different regex engine"

/-- A group that is open, or the pattern as a whole: the flags outside of it, the depth of its
finished branches, and the number and the depth of the items of the last one. An item that can be
repeated is known by its own depth. -/
structure Group where
  outside : Flags
  finished : Option Nat
  count : Nat
  deepest : Nat
  last : Option Nat
deriving DecidableEq, Repr

namespace Group

def new (outside : Flags) : Group := ⟨outside, none, 0, 0, none⟩

def add (group : Group) (depth : Nat) : Group :=
  { group with count := group.count + 1, deepest := max group.deepest depth, last := some depth }

/-- Flags are an item that cannot be repeated. -/
def addChange (group : Group) : Group := { group.add 0 with last := none }

def repeatLast (group : Group) : Option Group :=
  group.last.map fun depth =>
    { group with deepest := max group.deepest (depth + 1), last := some (depth + 1) }

/-- Several items in a row are nested in it. -/
def row (group : Group) : Nat := if group.count ≤ 1 then group.deepest else group.deepest + 1

def branch (group : Group) : Group :=
  ⟨group.outside, some (max (group.finished.getD 0) group.row), 0, 0, none⟩

/-- Several branches are nested in their choice. -/
def depth (group : Group) : Nat :=
  match group.finished with
  | none => group.row
  | some finished => max finished group.row + 1

end Group

structure Reading where
  flags : Flags
  names : List (List Char)
  onWords : Bool
  inner : Group
  outer : List Group

namespace Reading

def start : Reading := ⟨.start, [], false, .new .start, []⟩

def step (r : Reading) : Token → Option Reading
  | .item depth onWords =>
    some { r with inner := r.inner.add depth, onWords := r.onWords || onWords }
  | .repetition => r.inner.repeatLast.map fun group => { r with inner := group }
  | .branch => some { r with inner := r.inner.branch }
  | .begins flags name =>
    if name.any r.names.contains then none
    else
      some { r with
        flags := flags, names := name.toList ++ r.names, inner := .new r.flags,
        outer := r.inner :: r.outer }
  | .ends =>
    match r.outer with
    | [] => none
    | group :: outer =>
      some { r with
        flags := r.inner.outside, inner := group.add (r.inner.depth + 1), outer := outer }
  | .change flags => some { r with flags := flags, inner := r.inner.addChange }

/-- Reads to the end of a text; `fuel` bounds the number of tokens. -/
def readAll : Nat → Reading → List Char → Option Reading
  | 0, _, _ => none
  | fuel + 1, r, text =>
    match r.flags.skip text with
    | [] => some r
    | text => do
      let (token, rest) ← Token.next r.flags text
      readAll fuel (← r.step token) rest

end Reading

/-- How far things may be nested. -/
def depthLimit : Nat := 250

/-- What is wrong with a pattern, if anything is. -/
def error? (text : List Char) : Option Error :=
  match Reading.readAll (text.length + 1) .start text with
  | none => some .malformed
  | some r =>
    if !r.outer.isEmpty || decide (depthLimit < r.inner.depth) then some .malformed
    else if r.onWords then some .wordBoundary
    else none

end Keystroke.Pattern
