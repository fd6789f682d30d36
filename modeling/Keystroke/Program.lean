import Keystroke.CommandLine.Reading
import Keystroke.FileTree
import Keystroke.Log.Filter
import Keystroke.Terminal

/-!
# The program

Reads the command line, sets up the log, and echoes keys on the terminal. Records
go to the log file, if one is given, and to the error output otherwise.
-/

namespace Keystroke.Program

open CommandLine (Options Info)
open Log (Filter)

/-- A text in quotes, with quotes and backslashes in it marked. -/
def quoted (text : String) : String :=
  let marked := text.toList.flatMap fun c => if c = '"' ∨ c = '\\' then ['\\', c] else [c]
  "\"" ++ String.ofList marked ++ "\""

/-- How a failed run is reported. -/
def errorText : Terminal.Error → String
  | .io fault => "Io(" ++ quoted fault.message ++ ")"
  | .notATerminal => "NotATerminal"
  | .run (.consumer fault) => "Runtime(Driver(" ++ quoted fault.message ++ "))"
  | .run .zeroTickInterval => "Runtime(ZeroTickInterval)"
  | .run .stopped => "Runtime(Stopped)"
  | .readFailed description => "ReadFailed(" ++ quoted description ++ ")"

def failureLine (text : String) : String := "Error: " ++ text

/-- The filter of the log: the environment variable if it is set and valid, the option otherwise.
Faults in the option are complained about and left out. -/
def chooseFilter (logVariable : Option String) (options : Options) : Filter × List String :=
  match logVariable.bind Filter.ofText? with
  | some filter => (filter, [])
  | none => Filter.ofTextLenient options.logLevel

def infoLines : Info → List String
  | .help => CommandLine.helpLines
  | .version => CommandLine.versionLines

structure Report where
  exitCode : Nat
  /-- Lines printed before or instead of a run. -/
  printed : List String
  /-- Texts for the error output. Arguments in them may contain line ends. -/
  errors : List String
  /-- The lines of the log file, if one was made. -/
  log : Option (List String)
  /-- The run on the terminal, if it came so far. -/
  terminal : Option Terminal.Report

/-- Where the records go. -/
def chooseOutlet (options : Options) (files : FileTree) : Except FileError FileTree.Outlet :=
  match options.logFile with
  | some path => files.make path
  | none => .ok .errors

def runWith (options : Options) (logVariable : Option String) (files : FileTree)
    (setup : Terminal.Setup) : Report :=
  let (filter, complaints) := chooseFilter logVariable options
  match chooseOutlet options files with
  | .error fileError => ⟨1, [], complaints ++ [failureLine fileError.text], none, none⟩
  | .ok outlet =>
    let report := Terminal.run options.config setup
    let lines := filter.lines report.records
    let (onErrors, log) :=
      match outlet with
      | .file => ([], some lines)
      | .errors => (lines, none)
    match report.result with
    | .ok _ => ⟨0, [], complaints ++ onErrors, log, some report⟩
    | .error e =>
      ⟨1, [], complaints ++ onErrors ++ [failureLine (errorText e)], log, some report⟩

def run (arguments : List String) (logVariable : Option String) (files : FileTree)
    (setup : Terminal.Setup) : Report :=
  match CommandLine.read arguments with
  | .inform info => ⟨0, infoLines info, [], none, none⟩
  | .complain error => ⟨2, [], error.lines, none, none⟩
  | .run options => runWith options logVariable files setup

end Keystroke.Program
