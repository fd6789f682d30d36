import Keystroke.Echo.Sink
import Keystroke.EventLoop.Machine

/-!
# Errors of a terminal run
-/

namespace Keystroke.Terminal

open Echo (Fault)
open EventLoop (RunError)

inductive Error where
  | io (fault : Fault)
  /-- Input or output is not a terminal. -/
  | notATerminal
  | run (error : RunError Fault)
  | readFailed (description : String)

def Error.message : Error → String
  | io fault => "I/O error: " ++ fault.message
  | notATerminal => "stdin/stdout is not a tty"
  | run error => "runtime error: " ++ error.message Fault.message
  | readFailed description => "input read failed: " ++ description

end Keystroke.Terminal
