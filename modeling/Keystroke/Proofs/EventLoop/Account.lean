import Keystroke.Proofs.EventLoop.History
import Keystroke.Proofs.EventLoop.Result
import Keystroke.Proofs.Session.Lifecycle

/-! # The account of the data

What has become of the data of a source: its bytes were handed over in chunks, or are
left to read. The session is told of the chunks and of the time between them, run
after run, and is one session for all of them.
-/

namespace Keystroke.EventLoop.Machine

open Decoder (Bytes)
open Session (Stimulus)

variable {σ ε : Type} {consumer : Consumer σ ε} {request : Request} {tickAt : Nat}
  {m m' m'' heard : Machine (σ × List Call)} {stimulus : Stimulus} {stimuli : List Stimulus}
  {left : Bytes}

/-- A machine behind another whose session was told of the stimuli. It has handed over the batches
of these, in order, and not the bytes that are left. -/
structure Continues (m : Machine (σ × List Call)) (stimuli : List Stimulus) (left : Bytes)
    (m' : Machine (σ × List Call)) : Prop where
  session : m'.session = m.session.after stimuli
  batches : given m'.consumer.2 = given m.consumer.2 ++ m.session.batches stimuli
  data : m.source.data = ((m.session.batches stimuli).filterMap Batch.bytes?).flatten ++ left

theorem Continues.of_waiting (hsession : m'.session = m.session)
    (hconsumer : m'.consumer = m.consumer) : Continues m [] m.source.data m' := by
  refine ⟨hsession, ?_, rfl⟩
  rw [hconsumer]
  exact (List.append_nil _).symm

theorem Continues.trans {more : List Stimulus} {left' : Bytes}
    (h : Continues m stimuli left m') (hleft : left = m'.source.data)
    (h' : Continues m' more left' m'') : Continues m (stimuli ++ more) left' m'' := by
  refine ⟨?_, ?_, ?_⟩
  · rw [h'.session, h.session, Session.after_append]
  · rw [h'.batches, h.batches, h.session, Session.batches_append, List.append_assoc]
  · rw [h.data, hleft, h'.data, h.session, Session.batches_append, List.filterMap_append,
      List.flatten_append, List.append_assoc]

theorem Continues.stop (h : Continues m stimuli left m') (hm : m'.stopped = false) :
    Continues m stimuli left (m'.stop consumer.recorded) := by
  rw [stop_of_running hm]
  exact ⟨h.session, (given_concat_stop _ _).trans h.batches, h.data⟩

/-! ## What is heard -/

theorem data_of_read (source : Source) :
    source.data = source.read.1.stimulus.bytes?.toList.flatten ++ source.read.2.data ∨
      source.read.1.stimulus.reason? ≠ none := by
  cases hread : source.read with
  | mk result rest =>
      cases result with
      | chunk bytes =>
          refine .inl ?_
          rw [(Source.read_chunk hread).2.2]
          exact congrArg (· ++ rest.data) (List.append_nil bytes).symm
      | endOfInput => exact .inr (Option.some_ne_none _)
      | failed error => exact .inr (Option.some_ne_none _)

/-- What a session is told, and goes on with, takes its chunk from what is left to read. -/
theorem Hears.data (h : Hears request tickAt m stimulus heard) (hreason : stimulus.reason? = none) :
    m.source.data = stimulus.bytes?.toList.flatten ++ heard.source.data := by
  cases h with
  | termination _ => cases hreason
  | tick _ => rfl
  | read _ => exact (data_of_read m.source).resolve_right (not_not_intro hreason)

/-- Where the input ends, or fails, there is nothing left of it. -/
theorem Hears.data_of_reason {reason : ShutdownReason} (h : Hears request tickAt m stimulus heard)
    (hreason : stimulus.reason? = some reason)
    (hends : reason = .endOfInput ∨ ∃ error, reason = .readFailed error) : m.source.data = [] := by
  cases h with
  | termination _ =>
      cases hreason
      rcases hends with hends | ⟨_, hends⟩ <;> cases hends
  | tick _ => cases hreason
  | read _ =>
      refine Source.data_of_no_chunk fun bytes hchunk => ?_
      rw [hchunk] at hreason
      cases hreason

/-- The bytes that a session goes on with are those that were handed over. -/
theorem chunks_of_singleton (hm : m.Running) (stimulus : Stimulus) :
    ((m.session.batches [stimulus]).filterMap Batch.bytes?).flatten =
      stimulus.bytes?.toList.flatten := by
  rw [Session.batches_singleton, Session.chunks_of_handle hm.active, List.filterMap_cons,
    List.filterMap_nil]
  cases stimulus.bytes? <;> rfl

theorem Hears.continues (h : Hears request tickAt m stimulus heard) (hm : m.Running)
    (hreason : stimulus.reason? = none)
    (hsession : m'.session = (heard.session.handle stimulus).session)
    (hgiven : given m'.consumer.2 =
      given heard.consumer.2 ++ (heard.session.handle stimulus).actions.filterMap Action.batch?) :
    Continues m [stimulus] heard.source.data m' := by
  obtain ⟨hsame, hconsumer, _⟩ := h.frame
  rw [hsame] at hsession
  rw [hsame, hconsumer] at hgiven
  refine ⟨hsession, ?_, ?_⟩
  · rw [hgiven, Session.batches_singleton]
  · rw [chunks_of_singleton hm]
    exact h.data hreason

/-- A reason to end adds no batch. -/
theorem Running.continues_end (hm : m.Running) {reason : ShutdownReason}
    (hreason : stimulus.reason? = some reason)
    (hsession : m'.session = (m.session.handle stimulus).session)
    (hconsumer : m'.consumer = m.consumer) : Continues m [stimulus] m.source.data m' := by
  have hactions := (Session.actions_eq_shutdown_iff hm.active).2 hreason
  have hbatches : m.session.batches [stimulus] = [] := by
    rw [Session.batches_singleton, hactions]
    rfl
  refine ⟨hsession, ?_, ?_⟩
  · rw [hconsumer, hbatches, List.append_nil]
  · rw [hbatches]
    rfl

/-! ## Turns and runs -/

/-- What a turn or a run does with the data. It leaves what is left to read if it is to go on, and
nothing if the input has ended. -/
inductive Accounts (m : Machine (σ × List Call)) :
    Option (Outcome ε) → Machine (σ × List Call) → Prop
  | waiting {m' : Machine (σ × List Call)} {stimuli : List Stimulus} :
      Continues m stimuli m'.source.data m' → Accounts m none m'
  | dropped {m' : Machine (σ × List Call)} {stimuli : List Stimulus} :
      Continues m stimuli m'.source.data m' → Accounts m (some .dropped) m'
  | ended {m' : Machine (σ × List Call)} {stimuli : List Stimulus} {left : Bytes}
      {reason : ShutdownReason} :
      Continues m stimuli left m' →
      (reason = .endOfInput ∨ (∃ error, reason = .readFailed error) → left = []) →
      Accounts m (some (.returned (.ok reason))) m'
  | failed {m' : Machine (σ × List Call)} {stimuli : List Stimulus} {left : Bytes}
      {error : RunError ε} :
      Continues m stimuli left m' → Accounts m (some (.returned (.error error))) m'

theorem Accounts.exists_continues {next : Option (Outcome ε)} (h : Accounts m next m') :
    ∃ stimuli left, Continues m stimuli left m' := by
  cases h with
  | waiting hcontinues => exact ⟨_, _, hcontinues⟩
  | dropped hcontinues => exact ⟨_, _, hcontinues⟩
  | ended hcontinues _ => exact ⟨_, _, hcontinues⟩
  | failed hcontinues => exact ⟨_, _, hcontinues⟩

theorem Accounts.of_continues {next : Option (Outcome ε)} (h : Continues m stimuli m'.source.data m')
    (h' : Accounts m' next m'') : Accounts m next m'' := by
  cases h' with
  | waiting hcontinues => exact .waiting (h.trans rfl hcontinues)
  | dropped hcontinues => exact .dropped (h.trans rfl hcontinues)
  | ended hcontinues hleft => exact .ended (h.trans rfl hcontinues) hleft
  | failed hcontinues => exact .failed (h.trans rfl hcontinues)

theorem reason?_of_actions (ha : m.session.phase = .active)
    (h : (m.session.handle stimulus).actions.filterMap Action.reason? = []) :
    stimulus.reason? = none := by
  rw [Session.reasons_of_handle ha] at h
  exact Option.toList_eq_nil_iff.1 h

/-- The session is told of a batch that was handed over. -/
theorem Hears.continues_forward (h : Hears request tickAt m stimulus heard) (hm : m.Running)
    {batch : Batch} (hactions : (heard.session.handle stimulus).actions = [.forward batch])
    {answer : Except ε Flow} {state : σ × List Call}
    (hforward : consumer.recorded.forward heard.clock batch heard.consumer = (answer, state)) :
    Continues m [stimulus] heard.source.data
      { (heard.tell stimulus).2 with consumer := state } := by
  have hreason : stimulus.reason? = none := by
    refine reason?_of_actions (h.running hm).active ?_
    rw [hactions]
    rfl
  have hcalls : state.2 = heard.consumer.2 ++ [.forward heard.clock batch] :=
    congrArg (fun answered => answered.2.2) hforward.symm
  refine h.continues hm hreason rfl ?_
  rw [hactions]
  exact (congrArg given hcalls).trans (given_concat_forward _ _ _)

/-- A turn goes on with the session and takes from what is left to read what it hands over. -/
theorem Turned.accounts {next : Option (Outcome ε)}
    (h : Turned consumer.recorded request tickAt m next m') (hm : m.Running) :
    Accounts m next m' := by
  cases h with
  | dropped _ => exact .dropped (.of_waiting rfl rfl)
  | waited hhears hactions =>
      have hreason := reason?_of_actions (hhears.running hm).active (by rw [hactions]; rfl)
      refine .waiting (hhears.continues hm hreason rfl ?_)
      rw [hactions]
      exact (List.append_nil _).symm
  | forwarded hhears hactions hforward =>
      exact .waiting (hhears.continues_forward hm hactions hforward)
  | quit hhears hactions hforward =>
      rename_i state
      have hforwarded := hhears.continues_forward hm hactions hforward
      have htold := ((hhears.running hm).tell_forward hactions).with_consumer state
      have hquit : Continues _ [.consumerQuit] _ (tell _ .consumerQuit).2 :=
        htold.continues_end rfl rfl rfl
      refine .ended ((hforwarded.trans rfl hquit).stop htold.stopped) fun hends => ?_
      rcases hends with hends | ⟨_, hends⟩ <;> cases hends
  | failed hhears hactions hforward =>
      have hforwarded := hhears.continues_forward hm hactions hforward
      exact .failed (hforwarded.stop (hhears.running hm).stopped)
  | ended hhears hactions =>
      rename_i stimulus heard reason
      have hheard := hhears.running hm
      obtain ⟨hsession, hconsumer, _⟩ := hhears.frame
      have hreason := (Session.actions_eq_shutdown_iff hheard.active).1 hactions
      have hends : Continues m [stimulus] m.source.data (heard.tell stimulus).2 :=
        hm.continues_end hreason (by rw [← hsession]; rfl) hconsumer
      exact .ended (hends.stop hheard.stopped) (hhears.data_of_reason hreason)

theorem Reaches.continues (h : Reaches consumer.recorded request m tickAt m') (hm : m.Running) :
    ∃ stimuli, Continues m stimuli m'.source.data m' := by
  induction h with
  | start _ _ => exact ⟨[], .of_waiting rfl rfl⟩
  | turn hw hturn ih =>
      obtain ⟨stimuli, hcontinues⟩ := ih
      have haccounts := (Turned.of_turn (hw.running hm).active hturn).accounts (hw.running hm)
      cases haccounts with
      | waiting hnext => exact ⟨_, hcontinues.trans rfl hnext⟩

/-- So does a run. -/
theorem Running.accounts (hm : m.Running) (consumer : Consumer σ ε) (request : Request) :
    Accounts m (some (m.run consumer.recorded request).1) (m.run consumer.recorded request).2 := by
  rcases hm.run_cases consumer.recorded request with
    ⟨_, hrun⟩ | ⟨tickAt, w, hreaches, hturned⟩
  · rw [hrun]
    exact .failed ((Continues.of_waiting rfl rfl).stop hm.stopped)
  · obtain ⟨stimuli, hcontinues⟩ := hreaches.continues hm
    exact .of_continues hcontinues (hturned.accounts (hreaches.running hm))

/-! ## Dropped runs -/

/-- Runs one after another, of which all but the last were dropped, each going on where the one
before it was dropped. -/
inductive Resumed : Machine (σ × List Call) → List (Outcome ε × Machine (σ × List Call)) → Prop
  | last {m m' : Machine (σ × List Call)} {outcome : Outcome ε} :
      Accounts m (some outcome) m' → Resumed m [(outcome, m')]
  | dropped {m m' : Machine (σ × List Call)} {stimuli : List Stimulus}
      {later : List (Outcome ε × Machine (σ × List Call))} :
      Continues m stimuli m'.source.data m' → Resumed m' later →
      Resumed m ((.dropped, m') :: later)

theorem Running.resumed {requests : List Request} {outcome : Outcome ε}
    {earlier : List (Outcome ε × Machine (σ × List Call))} (hm : m.Running)
    (h : m.runAll consumer.recorded requests = earlier ++ [(outcome, m')])
    (hearlier : ∀ ran ∈ earlier, ran.1 = .dropped) : Resumed m (earlier ++ [(outcome, m')]) := by
  induction requests generalizing m earlier with
  | nil => exact absurd h.symm (List.append_ne_nil_of_right_ne_nil earlier (List.cons_ne_nil _ _))
  | cons request requests ih =>
      have haccounts := hm.accounts consumer request
      have hagrees := hm.run_agrees consumer.recorded request
      rw [runAll] at h
      cases earlier with
      | nil =>
          have hran := (List.cons.inj h).1
          rw [hran] at haccounts
          exact .last haccounts
      | cons ran earlier =>
          obtain ⟨hran, hrest⟩ := List.cons.inj h
          rw [List.forall_mem_cons] at hearlier
          rw [hran, hearlier.1] at haccounts hagrees
          rw [hran] at hrest
          have hlater := ih hagrees.running_of_dropped hrest hearlier.2
          obtain ⟨_, behind⟩ := ran
          cases hearlier.1
          cases haccounts with
          | dropped hcontinues => exact .dropped hcontinues hlater

/-- Dropped runs and the last one do with the data what one run would do. -/
theorem Resumed.accounts {outcome : Outcome ε}
    {earlier : List (Outcome ε × Machine (σ × List Call))}
    (h : Resumed m (earlier ++ [(outcome, m')])) : Accounts m (some outcome) m' := by
  induction earlier generalizing m with
  | nil =>
      cases h with
      | last haccounts => exact haccounts
      | dropped _ hlater => cases hlater
  | cons ran earlier ih =>
      rw [List.cons_append] at h
      generalize hlater : earlier ++ [(outcome, m')] = later at h
      cases h with
      | last _ => exact absurd hlater (List.append_ne_nil_of_right_ne_nil earlier (List.cons_ne_nil _ _))
      | dropped hcontinues hresumed =>
          rw [← hlater] at hresumed
          exact .of_continues hcontinues (ih hresumed)

end Keystroke.EventLoop.Machine
