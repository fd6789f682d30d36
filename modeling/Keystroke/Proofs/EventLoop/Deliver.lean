import Keystroke.EventLoop.Run

/-! # Delivery

What a consumer is told in a run, given the batches that the session has for it.
It is handed one batch after another, until it fails or asks to quit, and is
stopped behind the last.
-/

namespace Keystroke.EventLoop

variable {σ ε : Type}

/-- Hands over the batches, each at its instant, as long as the consumer proceeds. Behind the
last of them the session ends at `endsAt` for the given reason. -/
def deliver (consumer : Consumer σ ε) (endsAt : Nat) (reason : ShutdownReason) (state : σ) :
    List (Nat × Batch) → Except (RunError ε) ShutdownReason × σ
  | [] => (.ok reason, consumer.stop endsAt state)
  | (instant, batch) :: batches =>
    match consumer.forward instant batch state with
    | (.error error, state) => (.error (.consumer error), consumer.stop instant state)
    | (.ok .quit, state) => (.ok .consumerQuit, consumer.stop instant state)
    | (.ok .proceed, state) => deliver consumer endsAt reason state batches

/-- A consumer that always proceeds gets all of the batches. -/
theorem deliver_recorded {consumer : Consumer σ ε}
    (hproceeds : ∀ instant batch state, (consumer.forward instant batch state).1 = .ok .proceed)
    (endsAt : Nat) (reason : ShutdownReason) (state : σ × List Call)
    (batches : List (Nat × Batch)) :
    (deliver consumer.recorded endsAt reason state batches).1 = .ok reason ∧
      (deliver consumer.recorded endsAt reason state batches).2.2 =
        state.2 ++ batches.map (fun batch => .forward batch.1 batch.2) ++ [.stop endsAt] := by
  induction batches generalizing state with
  | nil => exact ⟨rfl, by rw [List.map_nil, List.append_nil]; rfl⟩
  | cons batch batches ih =>
      obtain ⟨instant, batch⟩ := batch
      have hforward : consumer.recorded.forward instant batch state =
          (.ok .proceed, (consumer.forward instant batch state.1).2,
            state.2 ++ [.forward instant batch]) := by
        rw [← hproceeds instant batch state.1]
        rfl
      rw [deliver, hforward]
      obtain ⟨hanswer, hcalls⟩ := ih
        ((consumer.forward instant batch state.1).2, state.2 ++ [.forward instant batch])
      refine ⟨hanswer, ?_⟩
      rw [hcalls, List.map_cons]
      simp only [List.append_assoc, List.cons_append, List.nil_append]

/-- Any consumer gets the batches in order, up to some point, and is stopped there. -/
theorem deliver_recorded_prefix (consumer : Consumer σ ε) (endsAt : Nat)
    (reason : ShutdownReason) (state : σ × List Call) (batches : List (Nat × Batch)) :
    ∃ given instant, given <+: batches ∧
      (deliver consumer.recorded endsAt reason state batches).2.2 =
        state.2 ++ given.map (fun batch => .forward batch.1 batch.2) ++ [.stop instant] := by
  induction batches generalizing state with
  | nil => exact ⟨[], endsAt, List.prefix_refl [], by rw [List.map_nil, List.append_nil]; rfl⟩
  | cons batch batches ih =>
      obtain ⟨instant, batch⟩ := batch
      have hforward : consumer.recorded.forward instant batch state =
          ((consumer.forward instant batch state.1).1,
            (consumer.forward instant batch state.1).2,
            state.2 ++ [.forward instant batch]) := rfl
      have hone : [(instant, batch)] <+: (instant, batch) :: batches :=
        List.prefix_append [(instant, batch)] batches
      rw [deliver, hforward]
      cases (consumer.forward instant batch state.1).1 with
      | error error => exact ⟨_, instant, hone, rfl⟩
      | ok flow =>
          cases flow with
          | quit => exact ⟨_, instant, hone, rfl⟩
          | proceed =>
              obtain ⟨given, last, hgiven, hcalls⟩ := ih
                ((consumer.forward instant batch state.1).2, state.2 ++ [.forward instant batch])
              refine ⟨(instant, batch) :: given, last, (List.prefix_cons_inj _).2 hgiven, ?_⟩
              dsimp only
              rw [hcalls, List.map_cons]
              simp only [List.append_assoc, List.cons_append, List.nil_append]

namespace Machine

/-- A run that ended with the answer, and stopped the consumer with it. -/
structure Delivered (ran : Outcome ε × Machine σ)
    (answer : Except (RunError ε) ShutdownReason × σ) : Prop where
  outcome : ran.1 = .returned answer.1
  consumer : ran.2.consumer = answer.2
  stopped : ran.2.stopped = true

/-- A turn in which actions were executed. -/
def performed (consumer : Consumer σ ε) (m : Machine σ) (actions : List Action) (tickAt : Nat) :
    Option (Outcome ε) × Machine σ × Nat :=
  ((m.perform consumer actions).1.map .returned, (m.perform consumer actions).2, tickAt)

variable {consumer : Consumer σ ε} {request : Request} {period : Nat} {hp : 0 < period}
  {tickAt tickAt' : Nat} {m m' : Machine σ} {reason : ShutdownReason}

/-! ## Executing actions -/

theorem perform_nil : m.perform consumer [] = (none, m) := by
  rw [perform]

theorem perform_shutdown :
    m.perform consumer [.shutdown reason] = (some (.ok reason), m.stop consumer) := by
  rw [perform]

theorem perform_forward_of_error {batch : Batch} {error : ε} {state : σ}
    (h : consumer.forward m.clock batch m.consumer = (.error error, state)) :
    m.perform consumer [.forward batch] =
      (some (.error (.consumer error)), stop consumer { m with consumer := state }) := by
  rw [perform, h]

theorem perform_forward_of_proceed {batch : Batch} {state : σ}
    (h : consumer.forward m.clock batch m.consumer = (.ok .proceed, state)) :
    m.perform consumer [.forward batch] = (none, { m with consumer := state }) := by
  rw [perform, h]
  exact perform_nil

/-- The answer of an active session to a quit is its end. -/
theorem perform_forward_of_quit {batch : Batch} {state : σ} (ha : m.session.phase = .active)
    (h : consumer.forward m.clock batch m.consumer = (.ok .quit, state)) :
    m.perform consumer [.forward batch] =
      (some (.ok .consumerQuit),
        stop consumer (tell { m with consumer := state } .consumerQuit).2) := by
  have hactions : (tell { m with consumer := state } .consumerQuit).1 =
      [.shutdown .consumerQuit] := by
    simp only [tell, Session.handle, ha]
    rfl
  rw [perform, h]
  dsimp only
  rw [hactions]
  exact perform_shutdown

theorem stop_of_running (h : m.stopped = false) :
    m.stop consumer =
      { m with stopped := true, consumer := consumer.stop m.clock m.consumer } := by
  rw [stop, h]
  rfl

/-! ## Turns of the loop -/

theorem turn_of_tick {instant : Nat}
    (h : request.next m.clock (m.source.readyAt m.clock) tickAt = (instant, .tick)) :
    m.turn consumer request period tickAt =
      let told := tell { m with clock := instant } (.tick m.session.config.tickInterval)
      performed consumer told.2 told.1 (tickAt + period) := by
  rw [turn, h]
  rfl

theorem turn_of_chunk {instant : Nat} {bytes : Decoder.Bytes} {rest : Source}
    (h : request.next m.clock (m.source.readyAt m.clock) tickAt = (instant, .read))
    (hread : m.source.read = (.chunk bytes, rest)) :
    m.turn consumer request period tickAt =
      let told := tell { m with clock := instant, source := rest } (.input bytes)
      performed consumer told.2 told.1 tickAt := by
  rw [turn, h]
  dsimp only [respondToRead]
  rw [hread]
  rfl

theorem turn_of_endOfInput {instant : Nat} {rest : Source}
    (h : request.next m.clock (m.source.readyAt m.clock) tickAt = (instant, .read))
    (hread : m.source.read = (.endOfInput, rest)) :
    m.turn consumer request period tickAt =
      let told := tell { m with clock := instant, source := rest } .endOfInput
      performed consumer told.2 told.1 tickAt := by
  rw [turn, h]
  dsimp only [respondToRead]
  rw [hread]
  rfl

theorem turn_of_failed {instant : Nat} {error : String} {rest : Source}
    (h : request.next m.clock (m.source.readyAt m.clock) tickAt = (instant, .read))
    (hread : m.source.read = (.failed error, rest)) :
    m.turn consumer request period tickAt =
      let told := tell
        { m with
          clock := instant
          source := rest
          records := m.records ++ [.readFailed error] }
        (.readError error)
      performed consumer told.2 told.1 tickAt := by
  rw [turn, h]
  dsimp only [respondToRead]
  rw [hread]
  rfl

theorem loop_of_none (ha : m.session.phase = .active)
    (h : m.turn consumer request period tickAt = (none, m', tickAt')) :
    loop consumer request period hp tickAt m = loop consumer request period hp tickAt' m' := by
  rw [loop]
  split
  · split <;> simp_all
  · contradiction

theorem loop_of_some {outcome : Outcome ε} (ha : m.session.phase = .active)
    (h : m.turn consumer request period tickAt = (some outcome, m', tickAt')) :
    loop consumer request period hp tickAt m = (outcome, m') := by
  rw [loop]
  split
  · split <;> simp_all
  · contradiction

theorem delivered_of_shutdown (ha : m.session.phase = .active)
    (h : m.turn consumer request period tickAt = performed consumer m' [.shutdown reason] tickAt')
    (hrunning : m'.stopped = false) :
    Delivered (loop consumer request period hp tickAt m)
      (deliver consumer m'.clock reason m'.consumer []) := by
  rw [performed, perform_shutdown, stop_of_running hrunning] at h
  rw [loop_of_some ha h]
  exact ⟨rfl, rfl, rfl⟩

/-- A turn that has a batch for the consumer, and a rest of the run that is only there if the
consumer proceeds. -/
theorem delivered_of_forward {batch : Batch} {batches : List (Nat × Batch)} {endsAt : Nat}
    (ha : m.session.phase = .active)
    (h : m.turn consumer request period tickAt = performed consumer m' [.forward batch] tickAt')
    (ha' : m'.session.phase = .active) (hrunning : m'.stopped = false)
    (hrest : ∀ state,
      m.turn consumer request period tickAt = (none, { m' with consumer := state }, tickAt') →
      Delivered (loop consumer request period hp tickAt' { m' with consumer := state })
        (deliver consumer endsAt reason state batches)) :
    Delivered (loop consumer request period hp tickAt m)
      (deliver consumer endsAt reason m'.consumer ((m'.clock, batch) :: batches)) := by
  rw [deliver]
  rw [performed] at h
  cases hforward : consumer.forward m'.clock batch m'.consumer with
  | mk answer state =>
      cases answer with
      | error error =>
          rw [perform_forward_of_error hforward,
            stop_of_running (m := { m' with consumer := state }) hrunning] at h
          rw [loop_of_some ha h]
          exact ⟨rfl, rfl, rfl⟩
      | ok flow =>
          cases flow with
          | proceed =>
              rw [perform_forward_of_proceed hforward] at h
              rw [loop_of_none ha h]
              exact hrest state h
          | quit =>
              rw [perform_forward_of_quit ha' hforward,
                stop_of_running (m := (tell { m' with consumer := state } .consumerQuit).2)
                  hrunning] at h
              rw [loop_of_some ha h]
              exact ⟨rfl, rfl, rfl⟩

end Machine

end Keystroke.EventLoop
