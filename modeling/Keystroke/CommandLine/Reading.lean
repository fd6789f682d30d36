import Keystroke.CommandLine.Message
import Keystroke.CommandLine.Similarity

/-!
# Reading the command line

Arguments are read from left to right, and the first that asks for information or is
wrong ends the reading. A setting whose value is an argument of its own stays open
until the next option: only then is the value looked at. An unknown argument is
reported at once, whatever is still open.
-/

namespace Keystroke.CommandLine

/-- A setting given without a value so far, or with one that was not looked at yet. -/
structure Open where
  setting : Setting
  value : Option String
deriving DecidableEq

structure Reading where
  options : Options
  /-- The settings whose values were looked at, in order. -/
  given : List Setting
  pending : Option Open
  /-- All that follows is no option. -/
  optionsEnded : Bool

/-- What the command line asks for. -/
inductive Wish where
  | run (options : Options)
  | inform (info : Info)
  | complain (error : Error)

namespace Reading

def start : Reading := ⟨.standard, [], none, false⟩

def valueError (setting : Setting) (value : String) : ValueError → Error
  | .missing => .missingValue setting
  | .unreadable e => .unreadable setting value e
  | .zero => .zeroTick value

/-- Looks at the value of a setting. A repeated setting is wrong whatever its value, and it no
longer counts as given. -/
def assign (r : Reading) (setting : Setting) : Option String → Option Error × Reading
  | none => (some (.missingValue setting), r)
  | some value =>
    if setting ∈ r.given then (some (.repeated setting), { r with given := r.given.erase setting })
    else
      let given := r.given ++ [setting]
      match r.options.set setting value with
      | .ok options => (none, { r with options := options, given := given })
      | .error e => (some (valueError setting value e), { r with given := given })

/-- Looks at the value of the open setting, if there is one. -/
def settle (r : Reading) : Option Error × Reading :=
  match r.pending with
  | none => (none, r)
  | some opened => assign { r with pending := none } opened.setting opened.value

/-- Goes on behind the open setting, or stops at its error. -/
def settled (r : Reading) (next : Reading → Wish ⊕ Reading) : Wish ⊕ Reading :=
  match r.settle with
  | (none, r) => next r
  | (some error, _) => .inl (.complain error)

def complain (error : Error) : Wish ⊕ Reading := .inl (.complain error)

def shown (r : Reading) : List Named := r.given.map Named.setting

def plain (r : Reading) (argument : String) : Wish ⊕ Reading :=
  match r.optionsEnded, r.pending with
  | false, some ⟨setting, none⟩ => .inr { r with pending := some ⟨setting, some argument⟩ }
  | _, _ => complain (.unexpected argument none [])

/-- An unknown name. The usage line shows what was given and what it may have meant. -/
def unknown (r : Reading) (name : String) : Wish ⊕ Reading :=
  let given := r.settle.2.shown
  match Similarity.closest? name Named.long Named.all with
  | none => complain (.unexpected ("--" ++ name) none given)
  | some meant =>
    complain (.unexpected ("--" ++ name) (some meant)
      (if meant ∈ given then given else given ++ [meant]))

def long (r : Reading) (name : String) (value : Option String) : Wish ⊕ Reading :=
  match Named.ofLong? name, value with
  | none, _ => r.unknown name
  | some (.setting setting), none =>
    r.settled fun r => .inr { r with pending := some ⟨setting, none⟩ }
  | some (.setting setting), some value =>
    r.settled fun r =>
      match r.assign setting (some value) with
      | (none, r) => .inr r
      | (some error, _) => complain error
  | some (.info info), none => r.settled fun _ => .inl (.inform info)
  | some (.info info), some value =>
    complain (.surplusValue info value (!r.given.isEmpty))

def short (r : Reading) (letter : Char) : Wish ⊕ Reading :=
  match letter with
  | 'h' => r.settled fun _ => .inl (.inform .help)
  | 'V' => r.settled fun _ => .inl (.inform .version)
  | _ => complain (.unexpected (String.ofList ['-', letter]) none [])

def step (r : Reading) (argument : String) : Wish ⊕ Reading :=
  if r.optionsEnded then r.plain argument
  else
    match argument.toList with
    | ['-', '-'] => .inr { r with optionsEnded := true }
    | '-' :: '-' :: body =>
      let name := body.takeWhile (· != '=')
      match body.drop name.length with
      | _ :: value => r.long (String.ofList name) (some (String.ofList value))
      | [] => r.long (String.ofList name) none
    | '-' :: letter :: _ => r.short letter
    | _ => r.plain argument

def finish (r : Reading) : Wish :=
  match r.settle with
  | (none, r) => .run r.options
  | (some error, _) => .complain error

def readAll (r : Reading) : List String → Wish
  | [] => r.finish
  | argument :: rest =>
    match r.step argument with
    | .inl wish => wish
    | .inr r => r.readAll rest

end Reading

/-- What a list of arguments asks for. -/
def read (arguments : List String) : Wish := Reading.start.readAll arguments

end Keystroke.CommandLine
