/-!
# Sinks

A sink takes text up to a limit in total and can be flushed a limited number of
times. A text that does not fit is taken as far as it fits. All text written to a
sink is ASCII, so a character is one byte.
-/

namespace Keystroke.Echo

inductive Fault where
  | full
  | flushFailed
  /-- Any other failure of input or output, by its description. -/
  | other (description : String)
deriving DecidableEq, Repr

def Fault.message : Fault → String
  | full => "sink full"
  | flushFailed => "flush failed"
  | other description => description

structure Sink where
  limit : Option Nat
  flushLimit : Option Nat
  taken : List Char
  /-- How much had been taken at each successful flush. -/
  flushes : List Nat
deriving DecidableEq

inductive Operation where
  | write (text : List Char)
  | flush
deriving DecidableEq

namespace Sink

def new (limit flushLimit : Option Nat) : Sink := ⟨limit, flushLimit, [], []⟩

def write (sink : Sink) (text : List Char) : Except Fault Unit × Sink :=
  match sink.limit with
  | none => (.ok (), { sink with taken := sink.taken ++ text })
  | some limit =>
    let fitting := text.take (limit - sink.taken.length)
    (if fitting.length = text.length then .ok () else .error .full,
      { sink with taken := sink.taken ++ fitting })

def flush (sink : Sink) : Except Fault Unit × Sink :=
  if sink.flushLimit.any (· ≤ sink.flushes.length) then (.error .flushFailed, sink)
  else (.ok (), { sink with flushes := sink.flushes ++ [sink.taken.length] })

def apply (sink : Sink) : Operation → Except Fault Unit × Sink
  | .write text => sink.write text
  | .flush => sink.flush

/-- Applies operations in order up to the first that fails. -/
def perform (sink : Sink) : List Operation → Except Fault Unit × Sink
  | [] => (.ok (), sink)
  | operation :: rest =>
    match sink.apply operation with
    | (.ok (), sink) => sink.perform rest
    | (.error fault, sink) => (.error fault, sink)

end Sink

end Keystroke.Echo
