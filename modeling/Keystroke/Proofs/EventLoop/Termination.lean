import Keystroke.Proofs.EventLoop.Progress

/-! # Termination

A request to terminate comes before everything else that is due at its instant. A run
that is still going on then ends with it: it reads no more and flushes no more. So all
batches of the run are handed over before that instant.
-/

namespace Keystroke.EventLoop.Machine

open Session (Stimulus)

variable {σ ε : Type} {consumer : Consumer σ ε} {request : Request} {tickAt requested : Nat}
  {name : String}

/-- A run that a request to terminate ends at an instant, behind a machine, with the calls that it
has made. The consumer is stopped once. What is left to read is what the batches have left, and
what is held back stays so. -/
structure Terminated (m : Machine (σ × List Call)) (instant : Nat) (name : String)
    (calls : List Call) (ran : Outcome ε × Machine (σ × List Call)) : Prop where
  outcome : ran.1 = .returned (.ok (.terminated name))
  clock : ran.2.clock = instant
  recorded : ran.2.consumer.2 = m.consumer.2 ++ calls
  stop : ∃ handed, calls = handed ++ [.stop instant] ∧ Unstopped handed
  once : StoppedOnce ran.2.consumer.2
  source : m.source.Gives ((given calls).filterMap Batch.bytes?) ran.2.source
  decoder : ran.2.session.decoder = (m.session.decoder.run ((given calls).map Batch.call)).2

/-! ## What is due -/

/-- Either the request to terminate is due, or something that comes before it. -/
theorem due_of_requested (hrequested : request.termination = some (requested, name)) (tickAt : Nat)
    (m : Machine σ) :
    m.due request tickAt = (max m.clock requested, .termination name) ∨
      (m.due request tickAt).1 < requested := by
  have hdue : Due request.termination m.clock (m.source.readyAt m.clock) tickAt
      (m.due request tickAt) := due_next request m.clock _ tickAt
  have hclock := clock_le_due request tickAt m
  rw [hrequested] at hdue
  generalize m.due request tickAt = next at hdue hclock
  have hbefore : ∀ {instant : Nat}, m.clock ≤ instant →
      Earlier (some (requested, name)) m.clock instant → instant < requested := by
    intro instant hle hearlier
    have hlt := earlier_some_iff.1 hearlier
    omega
  cases hdue with
  | termination hsame _ =>
      cases hsame
      exact .inl rfl
  | read _ hearlier => exact .inr (hbefore hclock hearlier)
  | tick _ hearlier => exact .inr (hbefore hclock hearlier)
  | drop _ _ hearlier => exact .inr (hbefore hclock hearlier)

theorem before_of_drop {m : Machine σ} {instant : Nat}
    (hrequested : request.termination = some (requested, name))
    (h : m.due request tickAt = (instant, .drop)) : instant < requested := by
  rcases due_of_requested hrequested tickAt m with hdue | hlt
  · rw [h] at hdue
    cases hdue
  · rwa [h] at hlt

variable {m w w' heard : Machine (σ × List Call)} {stimulus : Stimulus} {calls : List Call}

theorem Hears.terminated_or_before (h : Hears request tickAt w stimulus heard)
    (hrequested : request.termination = some (requested, name)) :
    (stimulus = .termination name ∧ heard = { w with clock := max w.clock requested }) ∨
      heard.clock < requested := by
  rcases due_of_requested hrequested tickAt w with hdue | hlt
  · cases h with
    | termination hsame =>
        rw [hdue] at hsame
        cases hsame
        exact .inl ⟨rfl, rfl⟩
    | read hsame =>
        rw [hdue] at hsame
        cases hsame
    | tick hsame =>
        rw [hdue] at hsame
        cases hsame
  · rw [← h.clock_eq] at hlt
    exact .inr hlt

/-- What a session goes on with comes before a request to terminate. -/
theorem Hears.before (h : Hears request tickAt w stimulus heard)
    (hrequested : request.termination = some (requested, name))
    (hreason : stimulus.reason? = none) : heard.clock < requested := by
  rcases h.terminated_or_before hrequested with ⟨rfl, _⟩ | hlt
  · cases hreason
  · exact hlt

/-- So does a batch. -/
theorem Hears.before_of_forward (h : Hears request tickAt w stimulus heard) (hw : w.Running)
    (hrequested : request.termination = some (requested, name)) {batch : Batch}
    (hactions : (heard.session.handle stimulus).actions = [.forward batch]) :
    heard.clock < requested :=
  h.before hrequested (reason?_of_actions (h.running hw).active (by rw [hactions]; rfl))

/-! ## Up to the instant -/

/-- A run that waits has not come to the instant, unless it starts behind it. -/
theorem Reaches.before (h : Reaches consumer.recorded request m tickAt w) (hm : m.Running)
    (hrequested : request.termination = some (requested, name)) :
    w = m.started ∨ w.clock < requested := by
  cases h with
  | start _ _ => exact .inl rfl
  | turn hw hturn =>
      have hrunning := hw.running hm
      cases Turned.of_turn hrunning.active hturn with
      | waited hhears hactions =>
          have hactive := (hhears.running hrunning).active
          exact .inr (hhears.before hrequested (reason?_of_actions hactive (by rw [hactions]; rfl)))
      | forwarded hhears hactions _ =>
          exact .inr (hhears.before_of_forward hrunning hrequested hactions)

/-- Batches in calls that were made before an instant. -/
def HandedBefore (requested : Nat) (calls : List Call) : Prop :=
  ∀ instant batch, .forward instant batch ∈ calls → instant < requested

theorem HandedBefore.concat_stop (h : HandedBefore requested calls) (last : Nat) :
    HandedBefore requested (calls ++ [.stop last]) := by
  intro instant batch hmem
  rcases List.mem_append.1 hmem with hcalls | hlast
  · exact h instant batch hcalls
  · cases List.mem_singleton.1 hlast

theorem HandedBefore.concat_forward (h : HandedBefore requested calls) {last : Nat} (batch : Batch)
    (hlt : last < requested) : HandedBefore requested (calls ++ [.forward last batch]) := by
  intro instant other hmem
  rcases List.mem_append.1 hmem with hcalls | hlast
  · exact h instant other hcalls
  · cases List.mem_singleton.1 hlast
    exact hlt

theorem Progress.handedBefore (h : Progress m calls w)
    (hw : w = m.started ∨ w.clock < requested) : HandedBefore requested calls := by
  intro instant batch hmem
  rcases hw with rfl | hlt
  · have hnone : calls = [] := List.self_eq_append_right.1 h.recorded
    rw [hnone] at hmem
    exact absurd hmem List.not_mem_nil
  · exact Nat.lt_of_le_of_lt (h.instant_le instant batch hmem) hlt

/-- The run ends where the request to terminate is heard. -/
theorem Progress.terminated (h : Progress m calls w) (hgiven : Unstopped m.consumer.2)
    (hw : w.Running) (hbefore : w = m.started ∨ w.clock < requested) :
    let heard := { w with clock := max w.clock requested }
    Terminated m (max m.clock requested) name (calls ++ [.stop (max m.clock requested)])
      ((.returned (.ok (.terminated name)) : Outcome ε),
        (heard.tell (.termination name)).2.stop consumer.recorded) := by
  intro heard
  have hclock : heard.clock = max m.clock requested := by
    rcases hbefore with rfl | hlt
    · rfl
    · have hle := h.clock_le
      exact (Nat.max_eq_right (Nat.le_of_lt hlt)).trans
        (Nat.max_eq_right (Nat.le_trans hle (Nat.le_of_lt hlt))).symm
  have hstopped : (heard.tell (.termination name)).2.stopped = false := hw.stopped
  have hrecorded : w.consumer.2 ++ [.stop heard.clock] =
      m.consumer.2 ++ (calls ++ [.stop (max m.clock requested)]) := by
    rw [h.recorded, hclock, List.append_assoc]
  have hcalls : given (calls ++ [.stop (max m.clock requested)]) = given calls :=
    given_concat_stop _ _
  have hsession : (w.session.handle (.termination name)).session = _ :=
    Session.session_of_reason (Option.some_ne_none _)
  rw [stop_of_running hstopped]
  refine
    { outcome := rfl
      clock := hclock
      recorded := hrecorded
      stop := ⟨calls, rfl, h.unstopped⟩
      once := ⟨m.consumer.2 ++ calls, heard.clock, ?_, unstopped_append hgiven h.unstopped⟩
      source := ?_
      decoder := ?_ }
  · exact congrArg (· ++ [Call.stop heard.clock]) h.recorded
  · rw [hcalls]
    exact h.source
  · have hdecoder : (w.session.handle (.termination name)).session.decoder = w.session.decoder := by
      rw [hsession]
    rw [hcalls, ← h.decoder]
    exact hdecoder

/-! ## Runs -/

/-- A run behind a machine that does not go on when termination is requested. It has handed over no
batch at the instant of the request or behind it; and if it is not over before that instant,
termination has ended it. -/
def Heeds (m : Machine (σ × List Call)) (requested : Nat) (name : String)
    (ran : Outcome ε × Machine (σ × List Call)) : Prop :=
  ∃ calls, ran.2.consumer.2 = m.consumer.2 ++ calls ∧ HandedBefore requested calls ∧
    (requested ≤ ran.2.clock → Terminated m (max m.clock requested) name calls ran)

/-- A run that stops its consumer before the request. -/
theorem heeds_of_stop {outcome : Outcome ε} (hcalls : w.consumer.2 = m.consumer.2 ++ calls)
    (hstopped : w.stopped = false) (hbefore : HandedBefore requested calls)
    (hlt : w.clock < requested) : Heeds m requested name (outcome, w.stop consumer.recorded) := by
  refine ⟨_, recorded_of_stop hcalls hstopped, hbefore.concat_stop w.clock, fun hle => ?_⟩
  rw [(stop_frame consumer.recorded w).2.2] at hle
  exact absurd hlt (Nat.not_lt.2 hle)

/-- The last turn of a run. -/
theorem Turned.heeds {outcome : Outcome ε}
    (h : Turned consumer.recorded request tickAt w (some outcome) w')
    (hgiven : Unstopped m.consumer.2) (hw : w.Running) (hprogress : Progress m calls w)
    (hbefore : w = m.started ∨ w.clock < requested)
    (hrequested : request.termination = some (requested, name)) :
    Heeds m requested name (outcome, w') := by
  have hhanded := hprogress.handedBefore hbefore
  cases h with
  | dropped hdue =>
      have hlt := before_of_drop hrequested hdue
      exact ⟨calls, hprogress.recorded, hhanded, fun hle => absurd hlt (Nat.not_lt.2 hle)⟩
  | quit hhears hactions hforward =>
      have hlt := hhears.before_of_forward hw hrequested hactions
      have hforwarded := hprogress.forward hw hhears hactions hforward
      exact heeds_of_stop hforwarded.recorded (hhears.running hw).stopped
        (hhanded.concat_forward _ hlt) hlt
  | failed hhears hactions hforward =>
      have hlt := hhears.before_of_forward hw hrequested hactions
      have hforwarded := hprogress.forward hw hhears hactions hforward
      exact heeds_of_stop hforwarded.recorded (hhears.running hw).stopped
        (hhanded.concat_forward _ hlt) hlt
  | ended hhears hactions =>
      have hheard := hhears.running hw
      rcases hhears.terminated_or_before hrequested with ⟨rfl, rfl⟩ | hlt
      · cases (Session.actions_eq_shutdown_iff hheard.active).1 hactions
        exact ⟨_, (hprogress.terminated hgiven hw hbefore).recorded, hhanded.concat_stop _,
          fun _ => hprogress.terminated hgiven hw hbefore⟩
      · have hcalls := hprogress.recorded
        rw [← hhears.frame.2.1] at hcalls
        exact heeds_of_stop hcalls hheard.stopped hhanded hlt

theorem Running.heeds (hm : m.Running) (hgiven : Unstopped m.consumer.2)
    (hp : 0 < m.session.config.tickInterval.nanos)
    (hrequested : request.termination = some (requested, name)) :
    Heeds m requested name (m.run consumer.recorded request) := by
  have hstart : Reaches consumer.recorded request m _ m.started := .start hm.stopped hp
  obtain ⟨tickAt, w, hreaches, hturned⟩ := hstart.exists_last hm
  obtain ⟨calls, hprogress⟩ := hreaches.exists_progress hm
  exact hturned.heeds hgiven (hreaches.running hm) hprogress (hreaches.before hm hrequested)
    hrequested

/-- A machine that is not stopped behind runs can go on, with the configuration of the first. -/
theorem Running.afterRuns {requests : List Request} (hm : m.Running)
    (hgiven : Unstopped m.consumer.2)
    (h : (m.afterRuns consumer.recorded requests).stopped = false) :
    let behind := m.afterRuns consumer.recorded requests
    behind.Running ∧ Unstopped behind.consumer.2 ∧ behind.session.config = m.session.config := by
  induction requests generalizing m with
  | nil => exact ⟨hm, hgiven, rfl⟩
  | cons first requests ih =>
      have hover := hm.run_over (keeps_unstopped consumer) hgiven first
      obtain ⟨stimuli, _, hcontinues⟩ := (hm.accounts consumer first).exists_continues
      have hconfig : (m.run consumer.recorded first).2.session.config = m.session.config := by
        rw [hcontinues.session, Session.config_after]
      rw [Machine.afterRuns] at h ⊢
      generalize m.run consumer.recorded first = ran at h hover hconfig ⊢
      obtain ⟨outcome, behind⟩ := ran
      cases hover with
      | dropped hbehind hkept =>
          obtain ⟨hrunning, hunstopped, hsame⟩ := ih hbehind hkept h
          exact ⟨hrunning, hunstopped, hsame.trans hconfig⟩
      | returned hstopped _ _ =>
          rw [afterRuns_of_stopped hstopped, hstopped] at h
          cases h

/-- A request to terminate comes before everything else. A run hands over no batch at the instant
of the request or behind it, whatever else is due then; and if it is not over before that instant,
it returns with the request then, or at its start if that is later. It has then stopped its consumer
once, and has left the input unread and the bytes held back as they are. This holds behind any runs
that were dropped, for any consumer and source. -/
theorem termination_first (consumer : Consumer σ ε) (config : Session.Config) (backspace : UInt8)
    (state : σ) (source : Source) (start : Nat) (earlier : List Request) (request : Request)
    (requested : Nat) (name : String) (hp : 0 < config.tickInterval.nanos)
    (hstopped : ((fresh config backspace (state, []) source start).afterRuns consumer.recorded
      earlier).stopped = false)
    (hrequested : request.termination = some (requested, name)) :
    let m := (fresh config backspace (state, ([] : List Call)) source start).afterRuns
      consumer.recorded earlier
    let ran := m.run consumer.recorded request
    ∃ calls, ran.2.consumer.2 = m.consumer.2 ++ calls ∧
      (∀ instant batch, .forward instant batch ∈ calls → instant < requested) ∧
      (requested ≤ ran.2.clock → Terminated m (max m.clock requested) name calls ran) := by
  intro m ran
  have hfresh := running_fresh config backspace (state, ([] : List Call)) source start
  obtain ⟨hm, hgiven, hconfig⟩ := hfresh.afterRuns (List.forall_mem_nil _) hstopped
  refine hm.heeds hgiven ?_ hrequested
  rw [hconfig]
  exact hp

/-- A letter, a tick that would flush an escape, a drop and the request fall on one instant. -/
theorem termination_before_letter :
    let consumer : Consumer Nat Unit := .scripted none []
    let source : Source := [⟨1, .data [0x1b]⟩, ⟨5, .data [0x41]⟩]
    let m := fresh ⟨.ofNanos 5, .ofNanos 3⟩ 0x7f ((0, []) : Nat × List Call) source 0
    let ran := m.run consumer.recorded ⟨some (5, "SIGINT"), some 5⟩
    ran.1 = .returned (.ok (.terminated "SIGINT")) ∧ ran.2.clock = 5 ∧
      ran.2.consumer.2 = [.forward 1 (.input [0x1b] []), .stop 5] ∧
      ran.2.source = [⟨5, .data [0x41]⟩] ∧ ran.2.session.decoder.pending = [0x1b] := by
  intro consumer source m ran
  let request : Request := ⟨some (5, "SIGINT"), some 5⟩
  let escaped : Machine (Nat × List Call) :=
    { ((m.started.fetch 1).tell (.input [0x1b])).2 with
      consumer := (1, [.forward 1 (.input [0x1b] [])]) }
  have hm : m.Running := running_fresh _ _ _ _ _
  have hreaches : Reaches consumer.recorded request m 5 escaped := by
    have hhears : Hears request 5 m.started (.input [0x1b]) (m.started.fetch 1) := .read rfl
    have hactions : ((m.started.fetch 1).session.handle (.input [0x1b])).actions =
        [.forward (.input [0x1b] [])] := by decide +kernel
    have hturn : m.started.turn consumer.recorded request 5 5 = _ := hhears.turn_eq_performed
    rw [hactions, performed,
      perform_forward_of_proceed (m := ((m.started.fetch 1).tell (.input [0x1b])).2) rfl] at hturn
    exact (Reaches.start rfl (by decide)).turn hturn
  have hran : ran = (.returned (.ok (.terminated "SIGINT")),
      ((tell { escaped with clock := 5 } (.termination "SIGINT")).2.stop consumer.recorded)) := by
    have hhears : Hears request 5 escaped (.termination "SIGINT") { escaped with clock := 5 } :=
      .termination rfl
    have hturn : escaped.turn consumer.recorded request 5 5 = _ := hhears.turn_eq_performed
    have hactions : (escaped.session.handle (.termination "SIGINT")).actions =
        [.shutdown (.terminated "SIGINT")] := rfl
    rw [hactions, performed, perform_shutdown] at hturn
    exact hreaches.run_of_turn hm hturn
  have hclock : ran.2.clock = 5 := by
    rw [hran]
    rfl
  obtain ⟨calls, _, _, hterminated⟩ := termination_first consumer ⟨.ofNanos 5, .ofNanos 3⟩ 0x7f 0
    source 0 [] request 5 "SIGINT" (by decide) rfl rfl
  have hended := hterminated (Nat.le_of_eq hclock.symm)
  refine ⟨hended.outcome, hended.clock, ?_, ?_, ?_⟩
  all_goals rw [hran]
  all_goals decide +kernel

end Keystroke.EventLoop.Machine
