import Keystroke.Proofs.EventLoop.Turns

/-! # Results of runs

A run returns a reason if and only if its session has ended in it, and the reason is
that of the only shutdown of the session. What ends a run is something that it heard
of, or a consumer that quits or fails; then the session has already taken the batch
into account.
-/

namespace Keystroke.EventLoop.Machine

open Session (Stimulus)

variable {σ ε : Type} {consumer : Consumer σ ε} {request : Request} {tickAt : Nat}
  {m m' w heard : Machine σ} {stimulus : Stimulus} {batch : Batch} {reason : ShutdownReason}
  {outcome : Outcome ε} {error : ε}

/-- The machine behind runs. -/
def afterRuns (consumer : Consumer σ ε) (m : Machine σ) : List Request → Machine σ
  | [] => m
  | request :: requests => (m.run consumer request).2.afterRuns consumer requests

/-- In a run the consumer was handed a batch by the machine, and gave the answer. -/
def Answered (consumer : Consumer σ ε) (request : Request) (m heard : Machine σ) (batch : Batch)
    (answer : Except ε Flow) : Prop :=
  ∃ tickAt w stimulus, Reaches consumer request m tickAt w ∧
    Hears request tickAt w stimulus heard ∧
    (heard.session.handle stimulus).actions = [.forward batch] ∧
    (consumer.forward heard.clock batch heard.consumer).1 = answer

/-- What ends a run for a reason. -/
inductive Ending (consumer : Consumer σ ε) (request : Request) (m : Machine σ) :
    ShutdownReason → Prop
  | endOfInput {tickAt instant : Nat} {w : Machine σ} :
      Reaches consumer request m tickAt w → w.due request tickAt = (instant, .read) →
      w.source.read.1 = .endOfInput → Ending consumer request m .endOfInput
  | readFailed {tickAt instant : Nat} {w : Machine σ} {error : String} :
      Reaches consumer request m tickAt w → w.due request tickAt = (instant, .read) →
      w.source.read.1 = .failed error → Ending consumer request m (.readFailed error)
  | terminated {tickAt instant : Nat} {w : Machine σ} {name : String} :
      Reaches consumer request m tickAt w → w.due request tickAt = (instant, .termination name) →
      Ending consumer request m (.terminated name)
  | consumerQuit {heard : Machine σ} {batch : Batch} :
      Answered consumer request m heard batch (.ok .quit) →
      Ending consumer request m .consumerQuit

/-- A run whose result agrees with its session. -/
structure Faithful (consumer : Consumer σ ε) (request : Request) (m : Machine σ) : Prop where
  waiting : ∀ tickAt w, Reaches consumer request m tickAt w →
    w.session.phase = .active ∧ w.stopped = false
  dropped : (m.run consumer request).1 = .dropped →
    (m.run consumer request).2.session.phase = .active ∧
      (m.run consumer request).2.stopped = false
  /-- The run returns a reason if and only if its session has ended in it. -/
  ended : (∃ reason, (m.run consumer request).1 = .returned (.ok reason)) ↔
    m.session.phase = .active ∧ (m.run consumer request).2.session.phase = .terminating
  shutdown : ∀ reason, (m.run consumer request).1 = .returned (.ok reason) →
    (m.run consumer request).2.shutdowns = [reason]
  /-- There is no shutdown but that of the run that returned a reason, if there was one. -/
  once : (m.run consumer request).2.shutdowns.length ≤ 1
  reason : ∀ reason, (m.run consumer request).1 = .returned (.ok reason) ↔
    Ending consumer request m reason
  failed : ∀ error, (m.run consumer request).1 = .returned (.error (.consumer error)) ↔
    ∃ heard batch, Answered consumer request m heard batch (.error error)
  /-- The session behind a failure has taken the batch into account. -/
  taken : ∀ heard batch error, Answered consumer request m heard batch (.error error) →
    (m.run consumer request).2.session.phase = .active ∧
      (m.run consumer request).2.session =
        { heard.session with
          decoder := (heard.session.decoder.answer batch.call).2
          idle := .zero }

/-! ## The session behind a run -/

/-- A session that agrees with the outcome of a run. -/
inductive Agrees : Outcome ε → Machine σ → Prop
  | dropped {m : Machine σ} : m.Running → Agrees .dropped m
  | ended {m : Machine σ} {reason : ShutdownReason} :
      m.stopped = true → m.session.phase = .terminating → m.shutdowns = [reason] →
      Agrees (.returned (.ok reason)) m
  | failed {m : Machine σ} {error : RunError ε} :
      m.stopped = true → m.session.phase = .active → m.shutdowns = [] →
      Agrees (.returned (.error error)) m

theorem Agrees.running_of_dropped (h : Agrees (.dropped : Outcome ε) m) : m.Running := by
  cases h with
  | dropped hm => exact hm

theorem Agrees.active_of_error {error : RunError ε} (h : Agrees (.returned (.error error)) m) :
    m.session.phase = .active := by
  cases h with
  | failed _ hactive _ => exact hactive

theorem Agrees.ended_of_ok (h : Agrees (.returned (.ok reason) : Outcome ε) m) :
    m.session.phase = .terminating ∧ m.shutdowns = [reason] := by
  cases h with
  | ended _ hphase hshutdowns => exact ⟨hphase, hshutdowns⟩

theorem Agrees.stopped_of_returned {result : Except (RunError ε) ShutdownReason}
    (h : Agrees (.returned result) m) : m.stopped = true := by
  cases h with
  | ended hstopped _ _ => exact hstopped
  | failed hstopped _ _ => exact hstopped

theorem Agrees.exists_reason (h : Agrees outcome m) (hphase : m.session.phase = .terminating) :
    ∃ reason, outcome = .returned (.ok reason) := by
  cases h with
  | dropped hm => exact absurd (hm.active.symm.trans hphase) Session.Phase.noConfusion
  | ended _ _ _ => exact ⟨_, rfl⟩
  | failed _ hactive _ => exact absurd (hactive.symm.trans hphase) Session.Phase.noConfusion

theorem Running.agrees_stop (hm : m.Running) (consumer : Consumer σ ε) (error : RunError ε) :
    Agrees (.returned (.error error)) (m.stop consumer) := by
  rw [stop_of_running hm.stopped]
  exact .failed rfl hm.active hm.shutdowns

theorem Running.agrees_tell (hm : m.Running) (consumer : Consumer σ ε)
    (h : stimulus.reason? = some reason) :
    Agrees (.returned (.ok reason) : Outcome ε) ((m.tell stimulus).2.stop consumer) := by
  have hstopped : (m.tell stimulus).2.stopped = false := hm.stopped
  have hshutdowns : (m.tell stimulus).2.shutdowns = [reason] := by
    rw [shutdowns_tell, hm.shutdowns, Session.reasons_of_handle hm.active, h]
    rfl
  have hphase : (m.tell stimulus).2.session.phase = .terminating := by
    have hends : stimulus.reason? ≠ none := by
      rw [h]
      exact Option.some_ne_none reason
    exact congrArg Session.phase (Session.session_of_reason hends)
  rw [stop_of_running hstopped]
  exact .ended rfl hphase hshutdowns

theorem Turned.agrees (h : Turned consumer request tickAt m (some outcome) m') (hm : m.Running) :
    Agrees outcome m' := by
  cases h with
  | dropped _ => exact .dropped ⟨hm.active, hm.stopped, hm.shutdowns⟩
  | quit hhears hactions _ =>
      have htold := (hhears.running hm).tell_forward hactions
      have hquit : Stimulus.consumerQuit.reason? = some .consumerQuit := rfl
      exact (htold.with_consumer _).agrees_tell consumer hquit
  | failed hhears hactions _ =>
      have htold := (hhears.running hm).tell_forward hactions
      exact (htold.with_consumer _).agrees_stop consumer _
  | ended hhears hactions =>
      have hheard := hhears.running hm
      exact hheard.agrees_tell consumer ((Session.actions_eq_shutdown_iff hheard.active).1 hactions)

theorem Running.run_agrees (hm : m.Running) (consumer : Consumer σ ε) (request : Request) :
    Agrees (m.run consumer request).1 (m.run consumer request).2 := by
  rcases hm.run_cases consumer request with ⟨_, hrun⟩ | ⟨tickAt, w, hreaches, hturned⟩
  · rw [hrun]
    exact hm.agrees_stop consumer _
  · exact hturned.agrees (hreaches.running hm)

/-! ## What ends a run -/

theorem Hears.ending (h : Hears request tickAt w stimulus heard)
    (hreaches : Reaches consumer request m tickAt w) (hreason : stimulus.reason? = some reason) :
    Ending consumer request m reason := by
  cases h with
  | termination hdue =>
      cases hreason
      exact .terminated hreaches hdue
  | tick _ => cases hreason
  | read hdue =>
      cases hread : w.source.read.1 with
      | chunk bytes =>
          rw [hread] at hreason
          cases hreason
      | endOfInput =>
          rw [hread] at hreason
          cases hreason
          exact .endOfInput hreaches hdue hread
      | failed error =>
          rw [hread] at hreason
          cases hreason
          exact .readFailed hreaches hdue hread

theorem Turned.ending (h : Turned consumer request tickAt w (some (.returned (.ok reason))) m')
    (hreaches : Reaches consumer request m tickAt w) (hm : m.Running) :
    Ending consumer request m reason := by
  cases h with
  | quit hhears hactions hforward =>
      exact .consumerQuit ⟨tickAt, w, _, hreaches, hhears, hactions, congrArg Prod.fst hforward⟩
  | ended hhears hactions =>
      have hactive := (hhears.running (hreaches.running hm)).active
      exact hhears.ending hreaches ((Session.actions_eq_shutdown_iff hactive).1 hactions)

/-- In a turn nothing fails but the consumer. -/
theorem Turned.exists_failure {failure : RunError ε}
    (h : Turned consumer request tickAt w (some (.returned (.error failure))) m')
    (hreaches : Reaches consumer request m tickAt w) :
    ∃ error heard batch, failure = .consumer error ∧
      Answered consumer request m heard batch (.error error) := by
  cases h with
  | failed hhears hactions hforward =>
      exact ⟨_, _, _, rfl, tickAt, w, _, hreaches, hhears, hactions, congrArg Prod.fst hforward⟩

theorem Turned.exists_answered
    (h : Turned consumer request tickAt w (some (.returned (.error (.consumer error)))) m')
    (hreaches : Reaches consumer request m tickAt w) :
    ∃ heard batch, Answered consumer request m heard batch (.error error) := by
  obtain ⟨_, heard, batch, hsame, hanswered⟩ := h.exists_failure hreaches
  cases hsame
  exact ⟨heard, batch, hanswered⟩

/-- A run ends with what is a reason to end. -/
theorem Hears.run_of_reason (h : Hears request tickAt w stimulus heard)
    (hreaches : Reaches consumer request m tickAt w) (hm : m.Running)
    (hreason : stimulus.reason? = some reason) :
    (m.run consumer request).1 = .returned (.ok reason) := by
  have hactive := (h.running (hreaches.running hm)).active
  obtain ⟨tickAt', hturn⟩ := h.turn_eq
  rw [(Session.actions_eq_shutdown_iff hactive).2 hreason, performed, perform_shutdown] at hturn
  rw [hreaches.run_of_turn hm hturn]

theorem Answered.run_of_quit (h : Answered consumer request m heard batch (.ok .quit))
    (hm : m.Running) : (m.run consumer request).1 = .returned (.ok .consumerQuit) := by
  obtain ⟨tickAt, w, stimulus, hreaches, hhears, hactions, hanswer⟩ := h
  have hheard := hhears.running (hreaches.running hm)
  have htold := hheard.tell_forward hactions
  obtain ⟨tickAt', hturn⟩ := hhears.turn_eq
  rw [hactions, performed,
    perform_forward_of_quit htold.active (Prod.ext hanswer rfl)] at hturn
  rw [hreaches.run_of_turn hm hturn]

/-- A run ends with a batch that the consumer fails to handle, and stops the consumer. -/
theorem Answered.run_eq_of_error (h : Answered consumer request m heard batch (.error error))
    (hm : m.Running) :
    ∃ stimulus, (heard.session.handle stimulus).actions = [.forward batch] ∧
      m.run consumer request =
        (.returned (.error (.consumer error)),
          { (heard.tell stimulus).2 with
            stopped := true
            consumer := consumer.stop heard.clock
              (consumer.forward heard.clock batch heard.consumer).2 }) := by
  obtain ⟨tickAt, w, stimulus, hreaches, hhears, hactions, hanswer⟩ := h
  have hheard := hhears.running (hreaches.running hm)
  have hstopped : (heard.tell stimulus).2.stopped = false := hheard.stopped
  obtain ⟨tickAt', hturn⟩ := hhears.turn_eq
  rw [hactions, performed,
    perform_forward_of_error (m := (heard.tell stimulus).2) (Prod.ext hanswer rfl)] at hturn
  refine ⟨stimulus, hactions, ?_⟩
  rw [hreaches.run_of_turn hm hturn]
  exact congrArg _ (stop_of_running hstopped)

/-- The session goes on as if the batch had been handled. -/
theorem Answered.run_of_error (h : Answered consumer request m heard batch (.error error))
    (hm : m.Running) :
    (m.run consumer request).1 = .returned (.error (.consumer error)) ∧
      (m.run consumer request).2.session =
        { heard.session with
          decoder := (heard.session.decoder.answer batch.call).2
          idle := .zero } := by
  have hactive : heard.session.phase = .active := by
    obtain ⟨_, _, _, hreaches, hhears, _, _⟩ := h
    exact (hhears.running (hreaches.running hm)).active
  obtain ⟨stimulus, hactions, hrun⟩ := h.run_eq_of_error hm
  rw [hrun]
  exact ⟨rfl, Session.session_of_forward hactive hactions⟩

/-- A run returns a reason if and only if that has ended it. -/
theorem Running.returned_ok_iff (hm : m.Running) :
    (m.run consumer request).1 = .returned (.ok reason) ↔ Ending consumer request m reason := by
  constructor
  · intro hreturned
    rcases hm.run_cases consumer request with ⟨_, hrun⟩ | ⟨tickAt, w, hreaches, hturned⟩
    · rw [hrun] at hreturned
      cases hreturned
    rw [hreturned] at hturned
    exact hturned.ending hreaches hm
  · intro hending
    cases hending with
    | endOfInput hreaches hdue hread =>
        exact (Hears.read hdue).run_of_reason hreaches hm (by rw [hread]; rfl)
    | readFailed hreaches hdue hread =>
        exact (Hears.read hdue).run_of_reason hreaches hm (by rw [hread]; rfl)
    | terminated hreaches hdue => exact (Hears.termination hdue).run_of_reason hreaches hm rfl
    | consumerQuit hanswered => exact hanswered.run_of_quit hm

/-- A run returns an error of its consumer if and only if that has failed in it. -/
theorem Running.returned_error_iff (hm : m.Running) :
    (m.run consumer request).1 = .returned (.error (.consumer error)) ↔
      ∃ heard batch, Answered consumer request m heard batch (.error error) := by
  constructor
  · intro hreturned
    rcases hm.run_cases consumer request with ⟨_, hrun⟩ | ⟨tickAt, w, hreaches, hturned⟩
    · rw [hrun] at hreturned
      cases hreturned
    rw [hreturned] at hturned
    exact hturned.exists_answered hreaches
  · rintro ⟨heard, batch, hanswered⟩
    exact (hanswered.run_of_error hm).1

theorem Answered.keeps {P : σ → Prop} {answer : Except ε Flow} (hP : Keeps consumer P)
    (h : Answered consumer request m heard batch answer) (hm : m.Running)
    (hconsumer : P m.consumer) : P heard.consumer := by
  obtain ⟨tickAt, w, stimulus, hreaches, hhears, _, _⟩ := h
  exact hhears.keeps (hreaches.keeps hP hm hconsumer).2

/-- A run that is not refused fails for want of a tick interval, or with its consumer. -/
theorem Running.returned_failure_iff (hm : m.Running) {failure : RunError ε} :
    (m.run consumer request).1 = .returned (.error failure) ↔
      (m.session.config.tickInterval.nanos = 0 ∧ failure = .zeroTickInterval) ∨
        ∃ error heard batch, failure = .consumer error ∧
          Answered consumer request m heard batch (.error error) := by
  constructor
  · intro hreturned
    rcases hm.run_cases consumer request with ⟨hzero, hrun⟩ | ⟨tickAt, w, hreaches, hturned⟩
    · rw [hrun] at hreturned
      cases hreturned
      exact .inl ⟨hzero, rfl⟩
    · rw [hreturned] at hturned
      exact .inr (hturned.exists_failure hreaches)
  · rintro (⟨hzero, rfl⟩ | ⟨error, heard, batch, rfl, hanswered⟩)
    · rw [run_of_zero hm hzero]
    · exact (hanswered.run_of_error hm).1

/-! ## Run after run -/

/-- A machine between two runs: it can be run, or an earlier run has stopped its consumer. -/
inductive Rests (m : Machine σ) : Prop
  | running : m.Running → Rests m
  | stopped : m.stopped = true → m.shutdowns.length ≤ 1 → Rests m

theorem Agrees.rests (h : Agrees outcome m) : m.Rests := by
  cases h with
  | dropped hm => exact .running hm
  | ended hstopped _ hshutdowns =>
      exact .stopped hstopped (Nat.le_of_eq (congrArg List.length hshutdowns))
  | failed hstopped _ hshutdowns =>
      refine .stopped hstopped ?_
      rw [hshutdowns]
      exact Nat.zero_le 1

theorem Rests.run (h : m.Rests) (consumer : Consumer σ ε) (request : Request) :
    (m.run consumer request).2.Rests := by
  cases h with
  | running hm => exact (hm.run_agrees consumer request).rests
  | stopped hstopped hshutdowns =>
      rw [run_of_stopped hstopped]
      exact .stopped hstopped hshutdowns

theorem Rests.afterRuns (h : m.Rests) (consumer : Consumer σ ε) (requests : List Request) :
    (m.afterRuns consumer requests).Rests := by
  induction requests generalizing m with
  | nil => exact h
  | cons request requests ih => exact ih (h.run consumer request)

theorem afterRuns_of_stopped (h : m.stopped = true) (consumer : Consumer σ ε)
    (requests : List Request) : m.afterRuns consumer requests = m := by
  induction requests with
  | nil => rfl
  | cons request requests ih => rw [Machine.afterRuns, run_of_stopped h, ih]

theorem Rests.once (h : m.Rests) : m.shutdowns.length ≤ 1 := by
  cases h with
  | running hm =>
      rw [hm.shutdowns]
      exact Nat.zero_le 1
  | stopped _ hshutdowns => exact hshutdowns

theorem Running.faithful (hm : m.Running) (consumer : Consumer σ ε) (request : Request) :
    Faithful consumer request m := by
  have hagrees := hm.run_agrees consumer request
  refine
    { waiting := fun tickAt w hreaches => ?_
      dropped := fun hdropped => ?_
      ended := ⟨?_, fun hphases => hagrees.exists_reason hphases.2⟩
      shutdown := fun reason hreturned => ?_
      once := hagrees.rests.once
      reason := fun reason => hm.returned_ok_iff
      failed := fun error => hm.returned_error_iff
      taken := fun heard batch error hanswered => ?_ }
  · have hw := hreaches.running hm
    exact ⟨hw.active, hw.stopped⟩
  · rw [hdropped] at hagrees
    exact ⟨hagrees.running_of_dropped.active, hagrees.running_of_dropped.stopped⟩
  · rintro ⟨reason, hreturned⟩
    rw [hreturned] at hagrees
    exact ⟨hm.active, hagrees.ended_of_ok.1⟩
  · rw [hreturned] at hagrees
    exact hagrees.ended_of_ok.2
  · obtain ⟨hreturned, hsession⟩ := hanswered.run_of_error hm
    rw [hreturned] at hagrees
    exact ⟨hagrees.active_of_error, hsession⟩

/-- A run that is refused does not wait and hands over nothing. -/
theorem faithful_of_stopped (hstopped : m.stopped = true) (hshutdowns : m.shutdowns.length ≤ 1)
    (consumer : Consumer σ ε) (request : Request) : Faithful consumer request m := by
  have hrun : m.run consumer request = (.returned (.error .stopped), m) :=
    run_of_stopped hstopped consumer request
  have hnever : ∀ tickAt w, ¬Reaches consumer request m tickAt w := by
    intro tickAt w hreaches
    rw [hreaches.stopped] at hstopped
    cases hstopped
  have hsilent : ∀ heard batch answer, ¬Answered consumer request m heard batch answer :=
    fun _ _ _ ⟨tickAt, w, _, hreaches, _⟩ => hnever tickAt w hreaches
  have hreasonless : ∀ reason, (m.run consumer request).1 ≠ .returned (.ok reason) := by
    intro reason hreturned
    rw [hrun] at hreturned
    cases hreturned
  refine
    { waiting := fun tickAt w hreaches => absurd hreaches (hnever tickAt w)
      dropped := fun hdropped => ?_
      ended := ⟨fun ⟨reason, hreturned⟩ => absurd hreturned (hreasonless reason), ?_⟩
      shutdown := fun reason hreturned => absurd hreturned (hreasonless reason)
      once := by rw [hrun]; exact hshutdowns
      reason := fun reason =>
        ⟨fun hreturned => absurd hreturned (hreasonless reason), fun hending => ?_⟩
      failed := fun error => ⟨fun hreturned => ?_, ?_⟩
      taken := fun heard batch error hanswered => absurd hanswered (hsilent heard batch _) }
  · rw [hrun] at hdropped
    cases hdropped
  · rintro ⟨hactive, hphase⟩
    rw [hrun, hactive] at hphase
    cases hphase
  · cases hending with
    | consumerQuit hanswered => exact absurd hanswered (hsilent _ _ _)
    | _ hreaches => exact absurd hreaches (hnever _ _)
  · rw [hrun] at hreturned
    cases hreturned
  · rintro ⟨heard, batch, hanswered⟩
    exact absurd hanswered (hsilent heard batch _)

/-- In all runs of a machine the result agrees with the session. While a run waits, and if it is
dropped, the session is active; the run returns a reason if and only if the session has ended in
it, with its only shutdown. -/
theorem faithful_afterRuns (consumer : Consumer σ ε) (config : Session.Config) (backspace : UInt8)
    (state : σ) (source : Source) (start : Nat) (earlier : List Request) (request : Request) :
    Faithful consumer request
      ((fresh config backspace state source start).afterRuns consumer earlier) := by
  have hfresh : (fresh config backspace state source start).Rests :=
    .running (running_fresh config backspace state source start)
  have hrests := hfresh.afterRuns consumer earlier
  cases hrests with
  | running hm => exact hm.faithful consumer request
  | stopped hstopped hshutdowns =>
      exact faithful_of_stopped hstopped hshutdowns consumer request

/-- The escape of a batch that the consumer fails to handle is held back. -/
theorem faithful_of_failure :
    let consumer : Consumer Nat String := .scripted (some (0, "broken")) []
    let m := fresh ⟨.ofNanos 2, .ofNanos 5⟩ 0x7f 0 [⟨1, .data [0x61, 0x1b]⟩] 0
    let ran := m.run consumer quiet
    ran.1 = .returned (.error (.consumer "broken")) ∧ ran.2.session.phase = .active ∧
      ran.2.session.decoder.pending = [0x1b] := by
  intro consumer m ran
  have hfaithful : Faithful consumer quiet m :=
    faithful_afterRuns consumer ⟨.ofNanos 2, .ofNanos 5⟩ 0x7f 0 [⟨1, .data [0x61, 0x1b]⟩] 0 [] quiet
  have hreaches : Reaches consumer quiet m 2 m.started := .start rfl (by decide)
  have hhears : Hears quiet 2 m.started (.input [0x61, 0x1b]) (m.started.fetch 1) := .read rfl
  have hanswered : Answered consumer quiet m (m.started.fetch 1)
      (.input [0x61, 0x1b] [.character 'a']) (.error "broken") :=
    ⟨2, m.started, .input [0x61, 0x1b], hreaches, hhears, by decide +kernel, rfl⟩
  obtain ⟨hactive, hsession⟩ := hfaithful.taken _ _ _ hanswered
  refine ⟨(hfaithful.failed "broken").2 ⟨_, _, hanswered⟩, hactive, ?_⟩
  rw [hsession]
  decide +kernel

end Keystroke.EventLoop.Machine
