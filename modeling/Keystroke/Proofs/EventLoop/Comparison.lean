import Keystroke.Proofs.EventLoop.History
import Keystroke.Proofs.EventLoop.Result

/-! # Comparing consumers

One machine, run with one consumer and with another. As long as both answer alike,
nothing but their states tells the two runs apart. If the first fails where the
second does not, the runs coincide up to the batch that it fails to handle.
-/

namespace Keystroke.EventLoop.Machine

open Session (Stimulus)

variable {σ τ ε : Type}

/-- The machine with the state of another consumer. -/
def handTo (m : Machine σ) (state : τ) : Machine τ :=
  ⟨m.session, state, m.stopped, m.source, m.clock, m.records⟩

/-- From related states the consumers answer alike and go on to related states, or the first
fails where the other does not. -/
def Follows (consumer : Consumer σ ε) (other : Consumer τ ε) (R : σ → τ → Prop) : Prop :=
  ∀ instant batch state state', R state state' →
    ((consumer.forward instant batch state).1 = (other.forward instant batch state').1 ∧
      R (consumer.forward instant batch state).2 (other.forward instant batch state').2) ∨
    ∃ error flow, (consumer.forward instant batch state).1 = .error error ∧
      (other.forward instant batch state').1 = .ok flow

/-- Machines behind the same turn or run with either consumer. -/
inductive Beside (consumer : Consumer σ ε) (other : Consumer τ ε) (R : σ → τ → Prop) :
    Option (Outcome ε) → Machine σ → Machine τ → Prop
  | waiting {m : Machine σ} {state' : τ} :
      R m.consumer state' → Beside consumer other R none m (m.handTo state')
  | dropped {m : Machine σ} {state' : τ} :
      R m.consumer state' → Beside consumer other R (some .dropped) m (m.handTo state')
  | returned {m : Machine σ} {result : Except (RunError ε) ShutdownReason} {state : σ}
      {state' : τ} :
      R state state' → m.consumer = consumer.stop m.clock state →
      Beside consumer other R (some (.returned result)) m
        (m.handTo (other.stop m.clock state'))

/-- A run in which the first consumer fails to handle a batch that the other handles. Up to then
both runs are the same. -/
def Parts (consumer : Consumer σ ε) (other : Consumer τ ε) (R : σ → τ → Prop) (request : Request)
    (m : Machine σ) (n : Machine τ) : Prop :=
  ∃ heard state' batch error flow, R heard.consumer state' ∧
    Answered consumer request m heard batch (.error error) ∧
    Answered other request n (heard.handTo state') batch (.ok flow)

variable {consumer : Consumer σ ε} {other : Consumer τ ε} {R : σ → τ → Prop} {request : Request}
  {period tickAt : Nat} {m w heard : Machine σ} {state' : τ} {stimulus : Stimulus}

theorem Hears.handTo (h : Hears request tickAt m stimulus heard) (state' : τ) :
    Hears request tickAt (m.handTo state') stimulus (heard.handTo state') := by
  cases h with
  | termination hdue => exact .termination hdue
  | read hdue => exact .read hdue
  | tick hdue => exact .tick hdue

theorem Running.handTo (hm : m.Running) (state' : τ) : (m.handTo state').Running :=
  ⟨hm.active, hm.stopped, hm.shutdowns⟩

theorem beside_stop {result : Except (RunError ε) ShutdownReason} (hm : m.stopped = false)
    (hR : R m.consumer state') :
    Beside consumer other R (some (.returned result)) (m.stop consumer)
      ((m.handTo state').stop other) := by
  have hm' : (m.handTo state').stopped = false := hm
  rw [stop_of_running hm, stop_of_running hm']
  exact .returned hR rfl

/-- A batch that both consumers answer alike. -/
theorem beside_forward (hm : m.Running) {batch : Batch}
    (hsame : (consumer.forward m.clock batch m.consumer).1 = (other.forward m.clock batch state').1)
    (hnext : R (consumer.forward m.clock batch m.consumer).2
      (other.forward m.clock batch state').2) :
    let turned := performed consumer m [.forward batch] tickAt
    let turned' := performed other (m.handTo state') [.forward batch] tickAt
    turned'.1 = turned.1 ∧ Beside consumer other R turned.1 turned.2.1 turned'.2.1 := by
  cases hforward : consumer.forward m.clock batch m.consumer with
  | mk answer next =>
      cases hforward' : other.forward m.clock batch state' with
      | mk answer' next' =>
          rw [hforward, hforward'] at hsame hnext
          cases hsame
          simp only [performed]
          cases answer with
          | error error =>
              rw [perform_forward_of_error hforward,
                perform_forward_of_error (m := m.handTo state') hforward']
              exact ⟨rfl, beside_stop (m := { m with consumer := next }) hm.stopped hnext⟩
          | ok flow =>
              cases flow with
              | proceed =>
                  rw [perform_forward_of_proceed hforward,
                    perform_forward_of_proceed (m := m.handTo state') hforward']
                  exact ⟨rfl, .waiting (m := { m with consumer := next }) hnext⟩
              | quit =>
                  rw [perform_forward_of_quit hm.active hforward,
                    perform_forward_of_quit (m := m.handTo state') hm.active hforward']
                  exact ⟨rfl, beside_stop
                    (m := (tell { m with consumer := next } .consumerQuit).2) hm.stopped hnext⟩

/-- The same actions go the same way, unless the first consumer fails in them. -/
theorem Follows.performed (hfollows : Follows consumer other R) (hm : m.Running)
    (hR : R m.consumer state') (stimulus : Stimulus) (tickAt' : Nat) :
    let actions := (m.session.handle stimulus).actions
    let turned := Machine.performed consumer (m.tell stimulus).2 actions tickAt'
    let turned' := Machine.performed other ((m.handTo state').tell stimulus).2 actions tickAt'
    (turned'.1 = turned.1 ∧ Beside consumer other R turned.1 turned.2.1 turned'.2.1) ∨
      ∃ batch error flow, actions = [.forward batch] ∧
        (consumer.forward m.clock batch m.consumer).1 = .error error ∧
        (other.forward m.clock batch state').1 = .ok flow := by
  dsimp only
  cases Session.answer_handle m.session stimulus with
  | nothing hp _ =>
      rw [hm.active] at hp
      cases hp
  | waits _ _ _ _ hactions _ =>
      rw [hactions]
      simp only [Machine.performed, perform_nil]
      exact .inl ⟨trivial, .waiting hR⟩
  | ends reason _ hactions _ =>
      rw [hactions]
      simp only [Machine.performed, perform_shutdown]
      exact .inl ⟨trivial, beside_stop hm.stopped hR⟩
  | hands batch _ _ _ _ hactions _ =>
      rw [hactions]
      rcases hfollows m.clock batch m.consumer state' hR with
        ⟨hsame, hnext⟩ | ⟨error, flow, herror, hok⟩
      · exact .inl (beside_forward (hm.tell_forward hactions) hsame hnext)
      · exact .inr ⟨batch, error, flow, rfl, herror, hok⟩

/-- How a turn with one consumer compares to the turn with the other. -/
theorem Follows.turn (hfollows : Follows consumer other R) (hm : m.Running)
    (hR : R m.consumer state') (request : Request) (period tickAt : Nat) :
    let turned := m.turn consumer request period tickAt
    let turned' := (m.handTo state').turn other request period tickAt
    (turned'.1 = turned.1 ∧ turned'.2.2 = turned.2.2 ∧
      Beside consumer other R turned.1 turned.2.1 turned'.2.1) ∨
    ∃ stimulus heard state'' batch error flow, Hears request tickAt m stimulus heard ∧
      Hears request tickAt (m.handTo state') stimulus (heard.handTo state'') ∧
      R heard.consumer state'' ∧
      (heard.session.handle stimulus).actions = [.forward batch] ∧
      (consumer.forward heard.clock batch heard.consumer).1 = .error error ∧
      (other.forward heard.clock batch state'').1 = .ok flow := by
  dsimp only
  rcases dropped_or_hears request tickAt m with ⟨instant, hdrop⟩ | ⟨stimulus, heard, hhears⟩
  · have hdrop' : (m.handTo state').due request tickAt = (instant, .drop) := hdrop
    rw [turn_of_drop hdrop, turn_of_drop hdrop']
    exact .inl ⟨rfl, rfl, .dropped (m := { m with clock := instant }) hR⟩
  · have hhears' := hhears.handTo state'
    have hheard : R heard.consumer state' := by
      rw [hhears.frame.2.1]
      exact hR
    rw [hhears.turn_eq_performed, hhears'.turn_eq_performed]
    rcases hfollows.performed (hhears.running hm) hheard stimulus
        (tickBehind period tickAt stimulus) with
      ⟨hsame, hbeside⟩ | ⟨batch, error, flow, hactions, herror, hok⟩
    · exact .inl ⟨hsame, rfl, hbeside⟩
    · exact .inr ⟨stimulus, heard, state', batch, error, flow, hhears, hhears', hheard, hactions,
        herror, hok⟩

/-- A failure of the consumer ends the turn. -/
theorem Hears.turn_of_error (h : Hears request tickAt m stimulus heard) {batch : Batch} {error : ε}
    (hactions : (heard.session.handle stimulus).actions = [.forward batch])
    (herror : (consumer.forward heard.clock batch heard.consumer).1 = .error error) :
    (m.turn consumer request period tickAt).1 = some (.returned (.error (.consumer error))) := by
  rw [h.turn_eq_performed, hactions, performed,
    perform_forward_of_error (m := (heard.tell stimulus).2) (Prod.ext herror rfl)]
  rfl

/-! ## Runs -/

/-- A run with the other consumer waits wherever the run with the first waits. -/
theorem Follows.reaches (hfollows : Follows consumer other R) (hm : m.Running)
    (hR : R m.consumer state') (h : Reaches consumer request m tickAt w) :
    ∃ state'', R w.consumer state'' ∧
      Reaches other request (m.handTo state') tickAt (w.handTo state'') := by
  induction h with
  | start hstopped hp => exact ⟨state', hR, .start hstopped hp⟩
  | turn hw hturn ih =>
      rename_i tickAt tickAt' w w'
      obtain ⟨state'', hrelated, hreaches⟩ := ih
      rcases hfollows.turn (hw.running hm) hrelated request
          m.session.config.tickInterval.nanos tickAt with
        ⟨hsame, htick, hbeside⟩ | ⟨_, _, _, _, _, _, hhears, _, _, hactions, herror, _⟩
      · rw [hturn] at hsame htick hbeside
        cases hturn' : (w.handTo state'').turn other request
            m.session.config.tickInterval.nanos tickAt with
        | mk next behind =>
            obtain ⟨n, tick⟩ := behind
            rw [hturn'] at hsame htick hbeside
            cases hsame
            cases htick
            cases hbeside with
            | waiting hnext => exact ⟨_, hnext, hreaches.turn hturn'⟩
      · have hlast : (w.turn consumer request m.session.config.tickInterval.nanos tickAt).1 = _ :=
          hhears.turn_of_error hactions herror
        rw [hturn] at hlast
        cases hlast

/-- How a run with one consumer compares to the run with the other. -/
theorem Follows.run (hfollows : Follows consumer other R) (hm : m.Running)
    (hR : R m.consumer state') (request : Request) :
    (((m.handTo state').run other request).1 = (m.run consumer request).1 ∧
      Beside consumer other R (some (m.run consumer request).1) (m.run consumer request).2
        ((m.handTo state').run other request).2) ∨
    Parts consumer other R request m (m.handTo state') := by
  have hm' := hm.handTo state'
  rcases Nat.eq_zero_or_pos m.session.config.tickInterval.nanos with hzero | hp
  · rw [run_of_zero hm hzero, run_of_zero hm' hzero]
    exact .inl ⟨rfl, beside_stop hm.stopped hR⟩
  have hstart : Reaches consumer request m _ m.started := .start hm.stopped hp
  obtain ⟨tickAt, w, tickAt', hreaches, hturn⟩ := hstart.exists_last_turn hm
  obtain ⟨state'', hrelated, hreaches'⟩ := hfollows.reaches hm hR hreaches
  rcases hfollows.turn (hreaches.running hm) hrelated request
      m.session.config.tickInterval.nanos tickAt with
    ⟨hsame, _, hbeside⟩ | ⟨stimulus, heard, state₂, batch, error, flow, hhears, hhears', hheard,
      hactions, herror, hok⟩
  · rw [hturn] at hsame hbeside
    cases hturn' : (w.handTo state'').turn other request
        m.session.config.tickInterval.nanos tickAt with
    | mk next behind =>
        obtain ⟨n, tick⟩ := behind
        rw [hturn'] at hsame hbeside
        cases hsame
        rw [hreaches'.run_of_turn hm' hturn']
        exact .inl ⟨rfl, hbeside⟩
  · exact .inr ⟨heard, state₂, batch, error, flow, hheard,
      ⟨tickAt, w, stimulus, hreaches, hhears, hactions, herror⟩,
      ⟨tickAt, w.handTo state'', stimulus, hreaches', hhears', hactions, hok⟩⟩

/-! ## Behind an answer -/

/-- What a run leaves behind, seen from a batch that was handed over in it. -/
theorem Answered.run_over {P : σ → Prop} {batch : Batch} {answer : Except ε Flow}
    (hP : Keeps consumer P) (h : Answered consumer request m heard batch answer) (hm : m.Running)
    (hstate : P (consumer.forward heard.clock batch heard.consumer).2) :
    Over consumer P (m.run consumer request).1 (m.run consumer request).2 := by
  obtain ⟨tickAt, w, stimulus, hreaches, hhears, hactions, hanswer⟩ := h
  have htold := (hhears.running (hreaches.running hm)).tell_forward hactions
  have hforward : consumer.forward (heard.tell stimulus).2.clock batch
      (heard.tell stimulus).2.consumer = (answer, _) := Prod.ext hanswer rfl
  have hturn : w.turn consumer request m.session.config.tickInterval.nanos tickAt = _ :=
    hhears.turn_eq_performed
  rw [hactions, performed] at hturn
  cases answer with
  | error error =>
      rw [perform_forward_of_error hforward] at hturn
      rw [hreaches.run_of_turn hm hturn]
      exact .of_stop htold.stopped hstate
  | ok flow =>
      cases flow with
      | proceed =>
          rw [perform_forward_of_proceed hforward] at hturn
          exact (hreaches.turn hturn).run_over hP hm hstate
      | quit =>
          rw [perform_forward_of_quit htold.active hforward] at hturn
          rw [hreaches.run_of_turn hm hturn]
          exact .of_stop htold.stopped hstate

theorem Over.keeps {P : σ → Prop} {outcome : Outcome ε} (h : Over consumer P outcome m)
    (hstop : ∀ instant state, P state → P (consumer.stop instant state)) : P m.consumer := by
  cases h with
  | dropped _ hconsumer => exact hconsumer
  | returned _ hstate hbehind =>
      rw [hbehind]
      exact hstop _ _ hstate

/-- What no call breaks holds behind all runs. -/
theorem Rests.keeps_afterRuns {P : σ → Prop} (hP : Keeps consumer P)
    (hstop : ∀ instant state, P state → P (consumer.stop instant state)) (h : m.Rests)
    (hconsumer : P m.consumer) (requests : List Request) :
    P (m.afterRuns consumer requests).consumer := by
  induction requests generalizing m with
  | nil => exact hconsumer
  | cons request requests ih =>
      refine ih (h.run consumer request) ?_
      cases h with
      | running hm => exact (hm.run_over hP hconsumer request).keeps hstop
      | stopped hstopped _ =>
          rw [run_of_stopped hstopped]
          exact hconsumer

/-! ## Recorded calls -/

/-- Recording the calls of a consumer changes nothing else. -/
theorem follows_recorded (consumer : Consumer σ ε) :
    Follows consumer.recorded consumer fun state state' => state.1 = state' := by
  rintro instant batch state _ rfl
  exact .inl ⟨rfl, rfl⟩

theorem Beside.handTo_recorded {next : Option (Outcome ε)} {m : Machine (σ × List Call)}
    {n : Machine σ} (h : Beside consumer.recorded consumer (fun state state' => state.1 = state')
      next m n) : n = m.handTo m.consumer.1 := by
  cases h with
  | waiting hsame => rw [hsame]
  | dropped hsame => rw [hsame]
  | returned hsame hstop =>
      rw [hstop, ← hsame]
      rfl

theorem Running.run_recorded {m : Machine (σ × List Call)} (hm : m.Running)
    (consumer : Consumer σ ε) (request : Request) :
    let ran := m.run consumer.recorded request
    (m.handTo m.consumer.1).run consumer request = (ran.1, ran.2.handTo ran.2.consumer.1) := by
  intro ran
  rcases (follows_recorded consumer).run hm rfl request with
    ⟨hsame, hbeside⟩ | ⟨heard, state, batch, error, flow, hstate, herror, hok⟩
  · exact Prod.ext hsame hbeside.handTo_recorded
  · -- Both answers are those of the consumer, so they do not differ.
    obtain ⟨_, _, _, _, _, _, hfailed⟩ := herror
    obtain ⟨_, _, _, _, _, _, hanswer⟩ := hok
    subst hstate
    have hboth : Except.error error = Except.ok flow := hfailed.symm.trans hanswer
    cases hboth

end Keystroke.EventLoop.Machine
