import Keystroke.EventLoop.Consumer
import Keystroke.EventLoop.Source

/-!
# Turns of the event loop

A machine is a session with its consumer, a byte source and the clock. In each
turn the clock moves on to the next instant at which something is due, and the
session is told of it; its actions are executed before the next turn.
-/

namespace Keystroke.EventLoop

open Log (Record)

inductive RunError (ε : Type) where
  /-- The consumer failed to handle a batch. -/
  | consumer (error : ε)
  | zeroTickInterval
  /-- An earlier run has stopped the consumer. -/
  | stopped

/-- The wording of an error, given that of the consumer's errors. -/
def RunError.message {ε : Type} (wording : ε → String) : RunError ε → String
  | consumer error => "driver error: " ++ wording error
  | zeroTickInterval => "tick interval must be non-zero"
  | stopped => "runtime already stopped"

structure Machine (σ : Type) where
  session : Session
  consumer : σ
  stopped : Bool
  source : Source
  /-- The current instant in nanoseconds. -/
  clock : Nat
  records : List Record

/-- What a run is asked for from outside. -/
structure Request where
  /-- From when on termination is requested, and by whom. -/
  termination : Option (Nat × String)
  /-- From when on the run is dropped where it would wait. -/
  dropAt : Option Nat

inductive Outcome (ε : Type) where
  | returned (result : Except (RunError ε) ShutdownReason)
  /-- The run was dropped while it waited. -/
  | dropped

namespace Machine

variable {σ ε : Type}

def new (config : Session.Config) (backspace : UInt8) (consumer : σ) (source : Source) :
    Machine σ :=
  ⟨.new config backspace, consumer, false, source, 0, []⟩

/-- The consumer is stopped once. -/
def stop (consumer : Consumer σ ε) (m : Machine σ) : Machine σ :=
  if m.stopped then m
  else { m with stopped := true, consumer := consumer.stop m.clock m.consumer }

/-- The session is told of a stimulus; its actions are left to execute. -/
def tell (m : Machine σ) (stimulus : Session.Stimulus) : List Action × Machine σ :=
  let response := m.session.handle stimulus
  (response.actions,
    { m with session := response.session, records := m.records ++ response.records })

theorem quit_forwards_nothing (s : Session) :
    (s.handle .consumerQuit).actions.filter Action.isForward = [] := by
  unfold Session.handle
  cases s.phase <;> rfl

/-- Executes actions in order. If the consumer asks to quit, the session's answer to that is
executed behind them. A result is there once the consumer was stopped. -/
def perform (consumer : Consumer σ ε) (m : Machine σ) (actions : List Action) :
    Option (Except (RunError ε) ShutdownReason) × Machine σ :=
  match actions with
  | [] => (none, m)
  | .shutdown reason :: _ => (some (.ok reason), m.stop consumer)
  | .forward batch :: rest =>
    match consumer.forward m.clock batch m.consumer with
    | (.error error, state) =>
      (some (.error (.consumer error)), stop consumer { m with consumer := state })
    | (.ok .proceed, state) => perform consumer { m with consumer := state } rest
    | (.ok .quit, state) =>
      let told := tell { m with consumer := state } .consumerQuit
      perform consumer told.2 (rest ++ told.1)
termination_by (actions.filter Action.isForward).length
decreasing_by
  · simp [List.filter_cons, Action.isForward]
  · simp [List.filter_cons, Action.isForward, tell, quit_forwards_nothing]

/-- Tells the session of a stimulus and executes its answer. -/
def respond (consumer : Consumer σ ε) (m : Machine σ) (stimulus : Session.Stimulus) :
    Option (Except (RunError ε) ShutdownReason) × Machine σ :=
  let told := m.tell stimulus
  perform consumer told.2 told.1

/-- A read failure is logged before the session hears of it. -/
def respondToRead (consumer : Consumer σ ε) (m : Machine σ) :
    Option (Except (RunError ε) ShutdownReason) × Machine σ :=
  let (result, rest) := m.source.read
  let m := { m with source := rest }
  match result with
  | .chunk bytes => m.respond consumer (.input bytes)
  | .endOfInput => m.respond consumer .endOfInput
  | .failed error =>
    respond consumer { m with records := m.records ++ [.readFailed error] } (.readError error)

end Machine

inductive Occurrence where
  | termination (source : String)
  | read
  | tick
  | drop
deriving DecidableEq, Repr

/-- The earlier of two, and of two at the same instant the first. -/
def sooner (a b : Nat × Occurrence) : Nat × Occurrence := if b.1 < a.1 then b else a

/-- What is due next and when. At one instant termination comes first, then a read, then a tick;
dropping comes last. -/
def Request.next (request : Request) (now readAt tickAt : Nat) : Nat × Occurrence :=
  let work := sooner (readAt, .read) (max now tickAt, .tick)
  let due :=
    match request.termination with
    | some (instant, source) => sooner (max now instant, .termination source) work
    | none => work
  match request.dropAt with
  | some instant => sooner due (max now instant, .drop)
  | none => due

namespace Machine

variable {σ ε : Type}

/-- One turn: the outcome, if the run is over, the machine, and the instant of the next tick. -/
def turn (consumer : Consumer σ ε) (request : Request) (period tickAt : Nat) (m : Machine σ) :
    Option (Outcome ε) × Machine σ × Nat :=
  let (instant, occurrence) := request.next m.clock (m.source.readyAt m.clock) tickAt
  let m := { m with clock := instant }
  match occurrence with
  | .drop => (some .dropped, m, tickAt)
  | .termination source =>
    let (result, m) := m.respond consumer (.termination source)
    (result.map .returned, m, tickAt)
  | .read =>
    let (result, m) := m.respondToRead consumer
    (result.map .returned, m, tickAt)
  | .tick =>
    let (result, m) := m.respond consumer (.tick m.session.config.tickInterval)
    (result.map .returned, m, tickAt + period)

end Machine

end Keystroke.EventLoop
