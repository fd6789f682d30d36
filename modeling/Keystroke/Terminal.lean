import Keystroke.Echo
import Keystroke.EventLoop.Run
import Keystroke.Terminal.Error
import Keystroke.Terminal.Script
import Keystroke.Terminal.Settings

/-!
# The echo on a terminal

Runs the echo between the input and the output of a terminal in raw mode. The
settings found are put back on every path.
-/

namespace Keystroke.Terminal

open Echo (Fault)
open EventLoop (Machine RunError Source)
open Log (Record)

/-- A terminal and its user. -/
structure Setup where
  settings : Settings
  inputIsTerminal : Bool
  outputIsTerminal : Bool
  /-- Reads do not wait, and nothing is there to read. -/
  nonblocking : Bool
  script : List UserAction

structure Report where
  result : Except Error ShutdownReason
  output : String
  /-- The settings that were in force during the run, if it came so far. -/
  during : Option Settings
  /-- The settings in the end. -/
  settings : Settings
  records : List Record

/-- The description of a read that would have to wait. -/
def wouldWait : String := "Resource temporarily unavailable (os error 11)"

def Setup.input (setup : Setup) (config : Session.Config) : Source × Option (Nat × String) :=
  if setup.nonblocking then ([⟨0, .failure wouldWait⟩], none)
  else schedule config 1 setup.script

/-- A failed read ends the loop with a reason, but is an error of the whole run. -/
def resultOf : Except (RunError Fault) ShutdownReason → Except Error ShutdownReason
  | .error error => .error (.run error)
  | .ok (.readFailed description) => .error (.readFailed description)
  | .ok reason => .ok reason

/-- The end of the loop is logged whatever the reason, unless the loop itself failed. -/
def finalRecords : Except (RunError Fault) ShutdownReason → List Record
  | .error _ => []
  | .ok reason => [.finished reason]

def run (config : Session.Config) (setup : Setup) : Report :=
  if setup.inputIsTerminal && setup.outputIsTerminal then
    let (mode, during) := RawMode.enter setup.settings
    let erase := mode.found.eraseKey
    match (Echo.new (.new none none)).start with
    | (.error fault, echo) =>
      ⟨.error (.io fault), String.ofList echo.sink.taken, some during, mode.leave,
        [.enteredRawMode erase, .restoredSettings]⟩
    | (.ok (), echo) =>
      let (source, termination) := setup.input config
      let (result, m) := (Machine.new config erase echo source).runToEnd Echo.consumer termination
      ⟨resultOf result, String.ofList m.consumer.sink.taken, some during, mode.leave,
        .enteredRawMode erase :: m.records ++ m.consumer.records ++
          .restoredSettings :: finalRecords result⟩
  else ⟨.error .notATerminal, "", none, setup.settings, []⟩

end Keystroke.Terminal
