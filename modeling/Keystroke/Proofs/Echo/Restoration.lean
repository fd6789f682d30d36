import Keystroke.Proofs.Echo.Printing
import Keystroke.Proofs.EventLoop.History

/-! # Restoration

An echo that was started puts the terminal back when it is stopped. Between start and
stop it writes the lines of the batches that it is handed, also of one that it fails to
flush. So what is written by the time that a run returns is fixed by these batches.
-/

namespace Keystroke

open EventLoop (Call Machine Outcome Request RunError Source given given_concat_forward
  given_concat_stop)
open EventLoop.Machine (Keeps Over fresh running_fresh)

namespace Echo

theorem transcript_concat (batches : List Batch) (batch : Batch) :
    transcript (batches ++ [batch]) = transcript batches ++ (batchText batch).toList := by
  rw [toList_batchText, transcript, List.flatMap_append, List.flatMap_singleton]
  rfl

variable {flushLimit : Option Nat} {echo : Echo} {state : Echo × List Call}

theorem recorded_forward (instant : Nat) (batch : Batch) :
    consumer.recorded.forward instant batch state =
      ((state.1.forward batch).1, (state.1.forward batch).2,
        state.2 ++ [.forward instant batch]) := rfl

theorem recorded_stop (instant : Nat) :
    consumer.recorded.stop instant state = (state.1.stop, state.2 ++ [.stop instant]) := rfl

/-- A started echo whose sink has taken the lines of the batches that were handed over. -/
structure Showing (state : Echo × List Call) : Prop where
  started : state.1.started = true
  unlimited : state.1.sink.limit = none
  taken : state.1.sink.taken = opening ++ transcript (given state.2)

/-- An echo that has put the terminal back behind the lines of the batches. -/
structure Closed (state : Echo × List Call) : Prop where
  stopped : state.1.started = false
  taken : state.1.sink.taken = opening ++ transcript (given state.2) ++ closing

theorem showing_start (h : (new (.new none flushLimit)).start = (.ok (), echo)) :
    Showing (echo, []) := by
  have hroom : (new (.new none flushLimit)).sink.Room _ := Sink.room_of_unlimited rfl []
  have htook := took_start hroom
  have hecho : (new (.new none flushLimit)).start.2 = echo := congrArg Prod.snd h
  rw [hecho] at htook
  refine ⟨started_of_start h, htook.limit, ?_⟩
  rw [htook.taken, Sink.fit_of_unlimited rfl]
  exact (List.append_nil opening).symm

theorem keeps_showing : Keeps consumer.recorded Showing := by
  intro instant batch state h
  have htook := took_forward (Sink.room_of_unlimited h.unlimited _) batch
  rw [recorded_forward]
  refine ⟨(started_forward state.1 batch).trans h.started, htook.limit.trans h.unlimited, ?_⟩
  dsimp only
  rw [htook.taken, Sink.fit_of_unlimited h.unlimited, h.taken, given_concat_forward,
    transcript_concat, List.append_assoc]

theorem Showing.stop (h : Showing state) (instant : Nat) :
    Closed (consumer.recorded.stop instant state) := by
  have htook := took_stop (Sink.room_of_unlimited h.unlimited _) h.started
  rw [recorded_stop]
  refine ⟨?_, ?_⟩
  · exact congrArg Echo.started (stop_of_started h.started)
  · dsimp only
    rw [htook.taken, Sink.fit_of_unlimited h.unlimited, h.taken, given_concat_stop]

/-- An echo that shows what it is handed, on a sink that does not fail. -/
structure Unfailing (state : Echo × List Call) : Prop extends Showing state where
  flushLimit : state.1.sink.flushLimit = none
  records : state.1.records = []

theorem Unfailing.answer (h : Unfailing state) (batch : Batch) :
    (state.1.forward batch).1 = .ok (flow batch) :=
  answer_of_room h.flushLimit batch (Sink.room_of_unlimited h.unlimited _)

theorem keeps_unfailing : Keeps consumer.recorded Unfailing := by
  intro instant batch state h
  have htook := took_forward (Sink.room_of_unlimited h.unlimited _) batch
  exact ⟨keeps_showing instant batch state h.toShowing, htook.flushLimit.trans h.flushLimit,
    (records_forward state.1 batch).trans h.records⟩

/-- Such an echo is stopped without a failure to log. -/
theorem Unfailing.records_stop (h : Unfailing state) : state.1.stop.records = [] := by
  have hwhole := (records_stop_eq_iff (Sink.room_of_unlimited h.unlimited _) h.started).2
    ⟨Sink.room_of_unlimited h.unlimited _, Sink.flush_ok_of_unlimited h.flushLimit⟩
  exact hwhole.trans h.records

/-- An echo that was started, on a sink that does not fail. -/
def ready : Echo := (new (.new none none)).start.2

theorem start_eq_ready : (new (.new none none)).start = (.ok (), ready) := rfl

theorem unfailing_ready : Unfailing (ready, []) :=
  ⟨showing_start start_eq_ready, rfl, rfl⟩

theorem closed_of_over {result : Except (RunError Fault) ShutdownReason}
    {m : Machine (Echo × List Call)} (h : Over consumer.recorded Showing (.returned result) m) :
    Closed m.consumer := by
  cases h with
  | returned _ hshowing hstop =>
      rw [hstop]
      exact hshowing.stop m.clock

/-- The first run that is not dropped puts the terminal back. -/
theorem closed_of_returned (config : Session.Config) (backspace : UInt8) (source : Source)
    (clock : Nat) {requests : List Request}
    {result : Except (RunError Fault) ShutdownReason} {behind : Machine (Echo × List Call)}
    {earlier later : List (Outcome Fault × Machine (Echo × List Call))}
    (hstart : (new (.new none flushLimit)).start = (.ok (), echo))
    (hruns : (fresh config backspace (echo, []) source clock).runAll consumer.recorded requests =
      earlier ++ (.returned result, behind) :: later)
    (hearlier : ∀ ran ∈ earlier, ran.1 = .dropped) :
    Closed behind.consumer ∧ ∀ ran ∈ later, ran.2 = behind := by
  have hm := running_fresh config backspace (echo, ([] : List Call)) source clock
  obtain ⟨hover, hlater⟩ :=
    hm.over_of_returned keeps_showing (showing_start hstart) hruns hearlier
  refine ⟨closed_of_over hover, fun ran hran => ?_⟩
  rw [hlater ran hran]

end Echo

end Keystroke
