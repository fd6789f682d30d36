import Keystroke.Log.Directive

/-!
# Log filters

A filter is a list of directives separated by commas: a level for everything, or a
target with a level of its own. Of the directives whose target begins the target of
a record, the longest decides; without one nothing passes.
-/

namespace Keystroke.Log

structure Filter where
  directives : List Directive

namespace Filter

/-- Without any directive, errors pass. -/
def ofDirectives (directives : List Directive) : Filter :=
  ⟨if directives = [] then [⟨[], none, Level.error.rank, false⟩] else directives⟩

/-- The parts between commas that are not empty. -/
def parts (text : String) : List (List Char) :=
  (text.toList.splitOn ',').filter (· ≠ [])

/-- A filter all of whose directives are well formed. -/
def ofText? (text : String) : Option Filter :=
  match (parts text).mapM Directive.ofText with
  | .ok directives => some (ofDirectives directives)
  | .error _ => none

/-- The well-formed directives, and a complaint about each of the others. -/
def ofTextLenient (text : String) : Filter × List String :=
  let read := (parts text).map fun part => (part, Directive.ofText part)
  (ofDirectives (read.filterMap fun (_, result) => result.toOption),
    read.filterMap fun (part, result) =>
      match result with
      | .ok _ => none
      | .error e => some ("ignoring `" ++ String.ofList part ++ "`: " ++ e.message))

/-- The directive that decides about a record: the most specific one, and of two that are alike
the later one. -/
def deciding? (filter : Filter) (record : Record) : Option Directive :=
  (filter.directives.filter (·.covers record)).foldl
    (fun best directive =>
      match best with
      | some found => if directive.isBelow found then best else some directive
      | none => some directive)
    none

def passes (filter : Filter) (record : Record) : Bool :=
  match filter.deciding? record with
  | some directive => decide (record.level.rank ≤ directive.limit)
  | none => false

/-- The lines of the records that pass. -/
def lines (filter : Filter) (records : List Record) : List String :=
  (records.filter filter.passes).map Record.line

end Filter

end Keystroke.Log
