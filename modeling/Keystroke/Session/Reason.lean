/-!
# Reasons for the end of a session
-/

namespace Keystroke

inductive ShutdownReason where
  /-- The byte source ended. -/
  | endOfInput
  /-- Reading from the byte source failed. -/
  | readFailed (error : String)
  /-- A request from outside, for instance a signal. -/
  | terminated (source : String)
  /-- The consumer of the keys asked to stop. -/
  | consumerQuit
deriving DecidableEq, Repr

def ShutdownReason.text : ShutdownReason → String
  | endOfInput => "end of input"
  | readFailed error => "read failed: " ++ error
  | terminated source => "terminated by " ++ source
  | consumerQuit => "consumer quit"

end Keystroke
