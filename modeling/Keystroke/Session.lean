import Keystroke.Decoder
import Keystroke.Log.Record

/-!
# Input sessions

A session owns the decoder of one input stream and decides when bytes held back
have waited long enough. It does no input or output itself: it is told what
happened and answers with actions. Time is told to it as elapsed durations.

A session is active until the first event that ends it. That event is answered
with one shutdown, and from then on nothing is answered any more.
-/

namespace Keystroke

open Decoder (Bytes Segment)
open Log (Record)

/-- Keys that are handed over in one go. -/
inductive Batch where
  /-- One chunk of input and the keys it completed, if any. -/
  | input (bytes : Bytes) (events : List KeyEvent)
  /-- The keys resolved by an idle flush. -/
  | flushed (events : List KeyEvent)
deriving DecidableEq

def Batch.events : Batch → List KeyEvent
  | input _ events => events
  | flushed events => events

inductive Action where
  | forward (batch : Batch)
  | shutdown (reason : ShutdownReason)
deriving DecidableEq

def Action.isForward : Action → Bool
  | forward _ => true
  | shutdown _ => false

namespace Session

structure Config where
  /-- How often elapsed time is reported. -/
  tickInterval : Duration
  /-- The idle time that must be exceeded before bytes held back are flushed. -/
  idleThreshold : Duration
deriving DecidableEq

def Config.standard : Config := ⟨.ofMillis 25, .ofMillis 50⟩

inductive Phase where
  | active
  | terminating
deriving DecidableEq, Repr

/-- What can happen to a session. -/
inductive Stimulus where
  | input (bytes : Bytes)
  | tick (elapsed : Duration)
  | endOfInput
  | readError (error : String)
  | termination (source : String)
  | consumerQuit
deriving DecidableEq

end Session

structure Session where
  phase : Session.Phase
  config : Session.Config
  decoder : Decoder
  /-- The time since the last chunk of input or idle flush. -/
  idle : Duration
deriving DecidableEq

namespace Session

def new (config : Config) (backspace : UInt8) : Session :=
  ⟨.active, config, .new backspace, .zero⟩

/-- The answer to a stimulus: the session from now on, what is to be done, and what is worth
logging. -/
structure Response where
  session : Session
  actions : List Action
  records : List Record

def noResponse (s : Session) : Response := ⟨s, [], []⟩

/-- The record of a discarded segment; other segments leave none. -/
def discardRecord? (segment : Segment) : Option Record :=
  if segment.truncated then some (.truncated segment.bytes)
  else if segment.event.isInvalid then some (.undecodable segment.bytes)
  else none

def handleInput (s : Session) (bytes : Bytes) : Response :=
  let (segments, decoder) := s.decoder.feed bytes
  ⟨{ s with decoder := decoder, idle := .zero },
    [.forward (.input bytes (segments.map Segment.event))],
    segments.filterMap discardRecord?⟩

/-- Bytes held back are flushed once the idle time exceeds the threshold; then idle time starts
over, whether there was anything to flush or not. -/
def handleTick (s : Session) (elapsed : Duration) : Response :=
  let idle := s.idle.add elapsed
  if idle.nanos ≤ s.config.idleThreshold.nanos then noResponse { s with idle := idle }
  else
    let (segments, decoder) := s.decoder.flush
    let flushed : Session := { s with decoder := decoder, idle := .zero }
    if segments = [] then noResponse flushed
    else
      ⟨flushed, [.forward (.flushed (segments.map Segment.event))],
        segments.filterMap discardRecord? ++ [.idleFlush segments.length]⟩

def shutdown (s : Session) (reason : ShutdownReason) : Response :=
  ⟨{ s with phase := .terminating }, [.shutdown reason],
    [.shuttingDown reason s.decoder.pending.length]⟩

def handle (s : Session) (stimulus : Stimulus) : Response :=
  match s.phase with
  | .terminating => noResponse s
  | .active =>
    match stimulus with
    | .input bytes => handleInput s bytes
    | .tick elapsed => handleTick s elapsed
    | .endOfInput => shutdown s .endOfInput
    | .readError error => shutdown s (.readFailed error)
    | .termination source => shutdown s (.terminated source)
    | .consumerQuit => shutdown s .consumerQuit

/-- A session that has ended stays as it is. -/
theorem handle_of_terminating {s : Session} (h : s.phase = .terminating) (stimulus : Stimulus) :
    s.handle stimulus = noResponse s := by
  simp only [handle, h]

end Session

end Keystroke
