import Keystroke.Decimal
import Keystroke.Log.Record
import Keystroke.Pattern
import Keystroke.Unsigned

/-!
# Directives of log filters

A directive is a level for everything, or for what a target, a span and a field
select. It is read without the blanks around it, but what it names is cut out of the
text with them: at the same distance from its beginning.
-/

namespace Keystroke.Log

inductive DirectiveError where
  | malformed
  | noLevel
  | badPattern (error : Pattern.Error)
deriving DecidableEq, Repr

def DirectiveError.message : DirectiveError → String
  | malformed => "invalid filter directive"
  | noLevel =>
    "error parsing level filter: expected one of \"off\", \"error\", \"warn\", \"info\", " ++
      "\"debug\", \"trace\", or a number 0-5"
  | badPattern error => "invalid field filter: " ++ error.message

/-- Records up to the rank `limit` pass if their target begins with `target` and they carry the
field, if one is named. -/
structure Directive where
  target : List Char
  field : Option (List Char)
  limit : Nat
  /-- Selects what happens within spans, and so none of the records. -/
  onSpans : Bool
deriving DecidableEq

namespace Directive

/-- The rank that a level stands for: a name in any case, or the rank itself. -/
def limit? (text : List Char) : Option Nat :=
  match Unsigned.read text with
  | .ok n => if n ≤ 5 then some n else none
  | .error _ =>
    match String.ofList (text.map Char.toLower) with
    | "off" => some 0
    | "error" => some 1
    | "warn" => some 2
    | "info" => some 3
    | "debug" => some 4
    | "trace" => some 5
    | _ => none

/-- What can begin a target: letters and numerals, and some signs. -/
def beginsTarget (c : Char) : Bool :=
  Unicode.isAlphanumeric c || c == '-' || c == ':' || c == '_'

def byteLength : List Char → Nat
  | [] => 0
  | c :: rest => c.utf8Size + byteLength rest

/-- The characters that begin in the first bytes of a text. -/
def takeBytes (count : Nat) : List Char → List Char
  | [] => []
  | c :: rest => if count = 0 then [] else c :: takeBytes (count - c.utf8Size) rest

/-- The characters that begin behind the first bytes of a text. -/
def dropBytes (count : Nat) : List Char → List Char
  | [] => []
  | c :: rest => if count = 0 then c :: rest else dropBytes (count - c.utf8Size) rest

/-- The level behind a target: all levels if it is left out. -/
def levelLimit (text : List Char) : Except DirectiveError Nat :=
  if text = [] then .ok Level.trace.rank
  else
    match limit? text with
    | some limit => .ok limit
    | none => .error .noLevel

/-- The directive with the level that may follow brackets. They end at `position` of the text, and
`behind` is what follows them. -/
def afterBrackets (text : List Char) (position : Nat) (directive : Nat → Directive)
    (behind : List Char) : Except DirectiveError Directive :=
  match behind with
  | [] => .ok (directive Level.trace.rank)
  | '=' :: _ => (levelLimit (dropBytes (position + 1) text)).map directive
  | _ => .error .malformed

/-- The value that a field should have: a number or a pattern. A second equals sign ends it. -/
def value? (field : List Char) : Option (List Char) :=
  match field.dropWhile (· != '=') with
  | [] => none
  | _ :: behind => some (behind.takeWhile (· != '='))

def valueError? (value : List Char) : Option DirectiveError :=
  if Decimal.isNumber value then none else (Pattern.error? value).map .badPattern

/-- Values are those of spans. -/
def ofField (target : List Char) (named : Bool) (field : List Char) (limit : Nat) : Directive :=
  if named || (value? field).isSome then ⟨target, none, limit, true⟩
  else ⟨target, some field, limit, false⟩

/-- What stands in brackets: a span, and a field in braces perhaps. Their inside begins at
`position` of the text. -/
def ofBrackets (text target : List Char) (position : Nat) (inside : List Char) :
    Except DirectiveError Directive :=
  let span := inside.takeWhile fun c => c != ']' && c != '{'
  let spanEnd := position + byteLength span
  match inside.drop span.length with
  | ']' :: behind => afterBrackets text (spanEnd + 1) (⟨target, none, ·, true⟩) behind
  | '{' :: rest =>
    let braced := rest.takeWhile (· != '}')
    let field := takeBytes (byteLength braced) (dropBytes (spanEnd + 1) text)
    match rest.drop braced.length with
    | _ :: behind =>
      if braced = [] then .error .malformed
      else
        match (value? field).bind valueError?, behind with
        | some e, _ => .error e
        | none, ']' :: behind =>
          afterBrackets text (spanEnd + byteLength braced + 3)
            (ofField target (span != []) field) behind
        | none, _ => .error .malformed
    | [] => .error .malformed
  | _ => .error .malformed

def ofText (text : List Char) : Except DirectiveError Directive :=
  match Unicode.trim text with
  | [] => .error .malformed
  | '[' :: inside => ofBrackets text [] 1 inside
  | first :: rest =>
    if beginsTarget first then
      let target := (first :: rest).takeWhile fun c => c != '=' && c != '['
      let position := byteLength target
      match (first :: rest).drop target.length with
      | '=' :: _ =>
        (levelLimit (dropBytes (position + 1) text)).map
          (⟨takeBytes position text, none, ·, false⟩)
      | '[' :: inside => ofBrackets text (takeBytes position text) (position + 1) inside
      | _ =>
        match limit? text with
        | some limit => .ok ⟨[], none, limit, false⟩
        | none => .ok ⟨text, none, Level.trace.rank, false⟩
    else .error .malformed

def covers (directive : Directive) (record : Record) : Bool :=
  !directive.onSpans && directive.target.isPrefixOf record.target.toList &&
    directive.field.all fun name => record.fields.contains (String.ofList name)

/-- A longer target is more specific, then the name of a field, then the later one of two names. -/
def isBelow (a b : Directive) : Bool :=
  decide (a.target.length < b.target.length) ||
    (a.target.length == b.target.length && decide (a.field.getD [] < b.field.getD []))

end Directive

end Keystroke.Log
