import Keystroke.EventLoop.Source
import Keystroke.Session

/-!
# Scripts of a user at a terminal

What a user types is there as soon as the program waits for it. Waiting for an idle
flush lasts as many ticks as the flush can take. A signal ends the script; until
then the terminal stays open.
-/

namespace Keystroke.Terminal

open Decoder (Bytes)
open EventLoop (Source)

inductive UserAction where
  | type (bytes : Bytes)
  | awaitFlush
  | signal (name : String)
deriving DecidableEq

/-- A flush comes with the first tick that exceeds the threshold, so within this time. -/
def flushTime (config : Session.Config) : Nat :=
  (config.idleThreshold.nanos / config.tickInterval.nanos + 1) * config.tickInterval.nanos

/-- The arrivals of a script that goes on at `now`, and when which signal ends it. -/
def schedule (config : Session.Config) (now : Nat) :
    List UserAction → Source × Option (Nat × String)
  | [] => ([], none)
  | .type bytes :: rest =>
    let (source, termination) := schedule config now rest
    (⟨now, .data bytes⟩ :: source, termination)
  | .awaitFlush :: rest => schedule config (now + flushTime config) rest
  | .signal name :: _ => ([⟨now + 1, .data []⟩], some (now + 1, name))

end Keystroke.Terminal
