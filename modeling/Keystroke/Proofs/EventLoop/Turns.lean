import Keystroke.Proofs.EventLoop.Waiting
import Keystroke.Proofs.Session.Run

/-! # Turns of a run

Between its turns a run waits until it is dropped or has something to tell its
session: a request to terminate, what was read, or a tick. The session's answer,
and the consumer's if there is a batch for it, decide how the turn goes. A run
returns or is dropped with its last turn, and until then the session is active.
-/

namespace Keystroke.EventLoop

open Session (Stimulus)
open Log (Record)

/-- What a session is told of a read. -/
def ReadResult.stimulus : ReadResult → Stimulus
  | chunk bytes => .input bytes
  | endOfInput => .endOfInput
  | failed error => .readError error

/-- What a read leaves in the log. -/
def ReadResult.records : ReadResult → List Record
  | failed error => [.readFailed error]
  | _ => []

namespace Machine

variable {σ ε : Type} {consumer : Consumer σ ε} {request : Request} {period tickAt tickAt' : Nat}
  {m m' heard : Machine σ} {stimulus : Stimulus} {outcome : Outcome ε}

/-- What is due next, and when. -/
def due (request : Request) (tickAt : Nat) (m : Machine σ) : Nat × Occurrence :=
  request.next m.clock (m.source.readyAt m.clock) tickAt

/-- The machine behind a read. -/
def fetch (m : Machine σ) (instant : Nat) : Machine σ :=
  { m with
    clock := instant
    source := m.source.read.2
    records := m.records ++ m.source.read.1.records }

/-- What the session is told next, and the machine at the instant at which it is told. -/
inductive Hears (request : Request) (tickAt : Nat) (m : Machine σ) : Stimulus → Machine σ → Prop
  | termination {instant : Nat} {name : String} :
      m.due request tickAt = (instant, .termination name) →
      Hears request tickAt m (.termination name) { m with clock := instant }
  | read {instant : Nat} :
      m.due request tickAt = (instant, .read) →
      Hears request tickAt m m.source.read.1.stimulus (m.fetch instant)
  | tick {instant : Nat} :
      m.due request tickAt = (instant, .tick) →
      Hears request tickAt m (.tick m.session.config.tickInterval) { m with clock := instant }

/-- How a turn goes: the outcome, if the run is over with it, and the machine behind it. -/
inductive Turned (consumer : Consumer σ ε) (request : Request) (tickAt : Nat) (m : Machine σ) :
    Option (Outcome ε) → Machine σ → Prop
  | dropped {instant : Nat} :
      m.due request tickAt = (instant, .drop) →
      Turned consumer request tickAt m (some .dropped) { m with clock := instant }
  | waited {stimulus : Stimulus} {heard : Machine σ} :
      Hears request tickAt m stimulus heard → (heard.session.handle stimulus).actions = [] →
      Turned consumer request tickAt m none (heard.tell stimulus).2
  | forwarded {stimulus : Stimulus} {heard : Machine σ} {batch : Batch} {state : σ} :
      Hears request tickAt m stimulus heard →
      (heard.session.handle stimulus).actions = [.forward batch] →
      consumer.forward heard.clock batch heard.consumer = (.ok .proceed, state) →
      Turned consumer request tickAt m none { (heard.tell stimulus).2 with consumer := state }
  | quit {stimulus : Stimulus} {heard : Machine σ} {batch : Batch} {state : σ} :
      Hears request tickAt m stimulus heard →
      (heard.session.handle stimulus).actions = [.forward batch] →
      consumer.forward heard.clock batch heard.consumer = (.ok .quit, state) →
      Turned consumer request tickAt m (some (.returned (.ok .consumerQuit)))
        (stop consumer
          (tell { (heard.tell stimulus).2 with consumer := state } .consumerQuit).2)
  | failed {stimulus : Stimulus} {heard : Machine σ} {batch : Batch} {error : ε} {state : σ} :
      Hears request tickAt m stimulus heard →
      (heard.session.handle stimulus).actions = [.forward batch] →
      consumer.forward heard.clock batch heard.consumer = (.error error, state) →
      Turned consumer request tickAt m (some (.returned (.error (.consumer error))))
        (stop consumer { (heard.tell stimulus).2 with consumer := state })
  | ended {stimulus : Stimulus} {heard : Machine σ} {reason : ShutdownReason} :
      Hears request tickAt m stimulus heard →
      (heard.session.handle stimulus).actions = [.shutdown reason] →
      Turned consumer request tickAt m (some (.returned (.ok reason)))
        ((heard.tell stimulus).2.stop consumer)

/-! ## What is heard -/

theorem dropped_or_hears (request : Request) (tickAt : Nat) (m : Machine σ) :
    (∃ instant, m.due request tickAt = (instant, .drop)) ∨
      ∃ stimulus heard, Hears request tickAt m stimulus heard := by
  cases h : m.due request tickAt with
  | mk instant occurrence =>
      cases occurrence with
      | termination name => exact .inr ⟨_, _, .termination h⟩
      | read => exact .inr ⟨_, _, .read h⟩
      | tick => exact .inr ⟨_, _, .tick h⟩
      | drop => exact .inl ⟨instant, rfl⟩

/-- Hearing something does nothing to the session and the consumer. -/
theorem Hears.frame (h : Hears request tickAt m stimulus heard) :
    heard.session = m.session ∧ heard.consumer = m.consumer ∧ heard.stopped = m.stopped := by
  cases h <;> exact ⟨rfl, rfl, rfl⟩

theorem turn_of_read {instant : Nat} (h : m.due request tickAt = (instant, .read)) :
    m.turn consumer request period tickAt =
      performed consumer ((m.fetch instant).tell m.source.read.1.stimulus).2
        ((m.fetch instant).tell m.source.read.1.stimulus).1 tickAt := by
  cases hread : m.source.read with
  | mk result rest =>
      cases result with
      | chunk bytes =>
          rw [turn_of_chunk h hread, fetch, hread]
          simp only [ReadResult.records, ReadResult.stimulus, List.append_nil]
      | endOfInput =>
          rw [turn_of_endOfInput h hread, fetch, hread]
          simp only [ReadResult.records, ReadResult.stimulus, List.append_nil]
      | failed error =>
          rw [turn_of_failed h hread, fetch, hread]
          rfl

theorem turn_of_termination {instant : Nat} {name : String}
    (h : m.due request tickAt = (instant, .termination name)) :
    m.turn consumer request period tickAt =
      let told := tell { m with clock := instant } (.termination name)
      performed consumer told.2 told.1 tickAt := by
  rw [due] at h
  rw [turn, h]
  rfl

theorem turn_of_drop {instant : Nat} (h : m.due request tickAt = (instant, .drop)) :
    m.turn consumer request period tickAt =
      (some .dropped, { m with clock := instant }, tickAt) := by
  rw [due] at h
  rw [turn, h]

/-- The instant of the next tick behind a turn in which the session is told of a stimulus. -/
def tickBehind (period tickAt : Nat) : Stimulus → Nat
  | .tick _ => tickAt + period
  | _ => tickAt

theorem Hears.turn_eq_performed (h : Hears request tickAt m stimulus heard) :
    m.turn consumer request period tickAt =
      performed consumer (heard.tell stimulus).2 (heard.session.handle stimulus).actions
        (tickBehind period tickAt stimulus) := by
  cases h with
  | termination h => exact turn_of_termination h
  | tick h => exact turn_of_tick h
  | read h =>
      have hbehind : tickBehind period tickAt m.source.read.1.stimulus = tickAt := by
        cases m.source.read.1 <;> rfl
      rw [hbehind]
      exact turn_of_read h

/-- A turn executes the session's answer to what it hears. -/
theorem Hears.turn_eq (h : Hears request tickAt m stimulus heard) :
    ∃ tickAt', m.turn consumer request period tickAt =
      performed consumer (heard.tell stimulus).2 (heard.session.handle stimulus).actions
        tickAt' :=
  ⟨_, h.turn_eq_performed⟩

/-- A turn of an active session goes in one of the ways. -/
theorem turned_turn (ha : m.session.phase = .active) :
    Turned consumer request tickAt m (m.turn consumer request period tickAt).1
      (m.turn consumer request period tickAt).2.1 := by
  rcases dropped_or_hears request tickAt m with ⟨instant, hdrop⟩ | ⟨stimulus, heard, hhears⟩
  · rw [turn_of_drop hdrop]
    exact .dropped hdrop
  obtain ⟨hsession, _, _⟩ := hhears.frame
  obtain ⟨tickAt', hturn⟩ :
      ∃ tickAt', m.turn consumer request period tickAt = performed consumer _ _ tickAt' :=
    hhears.turn_eq
  rw [← hsession] at ha
  rw [hturn, performed]
  cases Session.answer_handle heard.session stimulus with
  | nothing hp _ =>
      rw [ha] at hp
      cases hp
  | waits _ _ _ _ hactions _ =>
      rw [hactions, perform_nil]
      exact .waited hhears hactions
  | ends reason _ hactions _ =>
      rw [hactions, perform_shutdown]
      exact .ended hhears hactions
  | hands batch hreason _ _ _ hactions _ =>
      have hstill : (heard.tell stimulus).2.session.phase = .active :=
        Session.phase_handle ha hreason
      rw [hactions]
      cases hforward : consumer.forward heard.clock batch heard.consumer with
      | mk answer state =>
          cases answer with
          | error error =>
              rw [perform_forward_of_error (m := (heard.tell stimulus).2) hforward]
              exact .failed hhears hactions hforward
          | ok flow =>
              cases flow with
              | proceed =>
                  rw [perform_forward_of_proceed (m := (heard.tell stimulus).2) hforward]
                  exact .forwarded hhears hactions hforward
              | quit =>
                  rw [perform_forward_of_quit hstill hforward]
                  exact .quit hhears hactions hforward

theorem Turned.of_turn {next : Option (Outcome ε)} (ha : m.session.phase = .active)
    (h : m.turn consumer request period tickAt = (next, m', tickAt')) :
    Turned consumer request tickAt m next m' := by
  have hturned : Turned consumer request tickAt m (m.turn consumer request period tickAt).1
      (m.turn consumer request period tickAt).2.1 := turned_turn ha
  rwa [h] at hturned

/-! ## Machines that go on -/

/-- The reasons of the shutdowns that the session has answered with, as the log shows them. -/
def shutdowns (m : Machine σ) : List ShutdownReason :=
  m.records.filterMap Record.shutdown?

/-- A machine that can be run. -/
structure Running (m : Machine σ) : Prop where
  active : m.session.phase = .active
  stopped : m.stopped = false
  shutdowns : m.shutdowns = []

theorem running_fresh (config : Session.Config) (backspace : UInt8) (state : σ) (source : Source)
    (start : Nat) : (fresh config backspace state source start).Running :=
  ⟨rfl, rfl, rfl⟩

theorem Running.with_consumer (hm : m.Running) (state : σ) :
    Running { m with consumer := state } :=
  ⟨hm.active, hm.stopped, hm.shutdowns⟩

theorem shutdowns_tell (m : Machine σ) (stimulus : Stimulus) :
    (m.tell stimulus).2.shutdowns =
      m.shutdowns ++ (m.session.handle stimulus).actions.filterMap Action.reason? := by
  rw [← Session.shutdowns_of_handle]
  exact List.filterMap_append

theorem Hears.shutdowns (h : Hears request tickAt m stimulus heard) :
    heard.shutdowns = m.shutdowns := by
  cases h with
  | termination _ => rfl
  | tick _ => rfl
  | read _ =>
      have hnone : m.source.read.1.records.filterMap Record.shutdown? = [] := by
        cases m.source.read.1 <;> rfl
      rw [Machine.shutdowns, fetch, List.filterMap_append, hnone, List.append_nil]
      rfl

theorem Hears.running (h : Hears request tickAt m stimulus heard) (hm : m.Running) :
    heard.Running := by
  obtain ⟨hsession, _, hstopped⟩ := h.frame
  exact ⟨by rw [hsession, hm.active], by rw [hstopped, hm.stopped], by rw [h.shutdowns, hm.shutdowns]⟩

/-- A machine goes on unless it is told of a reason to end. -/
theorem Running.tell (hm : m.Running)
    (h : (m.session.handle stimulus).actions.filterMap Action.reason? = []) :
    (m.tell stimulus).2.Running := by
  have hreason : stimulus.reason? = none := by
    rw [Session.reasons_of_handle hm.active] at h
    exact Option.toList_eq_nil_iff.1 h
  refine ⟨Session.phase_handle hm.active hreason, hm.stopped, ?_⟩
  rw [shutdowns_tell, hm.shutdowns, h]
  rfl

/-- A machine goes on behind a batch that it hands over. -/
theorem Running.tell_forward (hm : m.Running) {batch : Batch}
    (h : (m.session.handle stimulus).actions = [.forward batch]) :
    (m.tell stimulus).2.Running := by
  refine hm.tell ?_
  rw [h]
  rfl

/-! ## What a turn leaves behind -/

/-- A property of the consumer's state that no call with a batch breaks. -/
def Keeps (consumer : Consumer σ ε) (P : σ → Prop) : Prop :=
  ∀ instant batch state, P state → P (consumer.forward instant batch state).2

variable {P : σ → Prop}

theorem Keeps.of_forward (hP : Keeps consumer P) {instant : Nat} {batch : Batch} {state state' : σ}
    {answer : Except ε Flow} (h : consumer.forward instant batch state = (answer, state'))
    (hstate : P state) : P state' := by
  have hkept := hP instant batch state hstate
  rwa [h] at hkept

theorem Hears.keeps (h : Hears request tickAt m stimulus heard) (hconsumer : P m.consumer) :
    P heard.consumer := by
  rw [h.frame.2.1]
  exact hconsumer

theorem Hears.of_source {Q : Source → Prop} (hQ : ∀ source, Q source → Q source.read.2)
    (h : Hears request tickAt m stimulus heard) (hsource : Q m.source) : Q heard.source := by
  cases h with
  | read _ => exact hQ _ hsource
  | termination _ => exact hsource
  | tick _ => exact hsource

theorem Turned.goes_on (hP : Keeps consumer P) (h : Turned consumer request tickAt m none m')
    (hm : m.Running) (hconsumer : P m.consumer) : m'.Running ∧ P m'.consumer := by
  cases h with
  | waited hhears hactions =>
      refine ⟨(hhears.running hm).tell ?_, hhears.keeps hconsumer⟩
      rw [hactions]
      rfl
  | forwarded hhears hactions hforward =>
      have htold := (hhears.running hm).tell_forward hactions
      exact ⟨htold.with_consumer _, hP.of_forward hforward (hhears.keeps hconsumer)⟩

/-! ## Runs -/

/-- A machine at the start of a run. -/
def started (m : Machine σ) : Machine σ :=
  { m with
    records := m.records ++
      [.started m.session.config.tickInterval m.session.config.idleThreshold
        m.session.decoder.backspace] }

/-- The machines at which a run waits, between its turns, with the instant of the next tick. -/
inductive Reaches (consumer : Consumer σ ε) (request : Request) (m : Machine σ) :
    Nat → Machine σ → Prop
  | start : m.stopped = false → 0 < m.session.config.tickInterval.nanos →
      Reaches consumer request m (m.clock + m.session.config.tickInterval.nanos) m.started
  | turn {tickAt tickAt' : Nat} {w w' : Machine σ} :
      Reaches consumer request m tickAt w →
      w.turn consumer request m.session.config.tickInterval.nanos tickAt = (none, w', tickAt') →
      Reaches consumer request m tickAt' w'

theorem Reaches.stopped (h : Reaches consumer request m tickAt m') : m.stopped = false := by
  induction h with
  | start hstopped _ => exact hstopped
  | turn _ _ ih => exact ih

theorem Reaches.interval_pos (h : Reaches consumer request m tickAt m') :
    0 < m.session.config.tickInterval.nanos := by
  induction h with
  | start _ hp => exact hp
  | turn _ _ ih => exact ih

theorem Running.started (hm : m.Running) : m.started.Running := by
  refine ⟨hm.active, hm.stopped, ?_⟩
  rw [Machine.shutdowns, Machine.started, List.filterMap_append]
  exact (List.append_nil _).trans hm.shutdowns

variable {w w' : Machine σ}

theorem Reaches.keeps (hP : Keeps consumer P) (h : Reaches consumer request m tickAt w)
    (hm : m.Running) (hconsumer : P m.consumer) : w.Running ∧ P w.consumer := by
  induction h with
  | start _ _ => exact ⟨hm.started, hconsumer⟩
  | turn _ hturn ih =>
      exact (Turned.of_turn ih.1.active hturn).goes_on hP ih.1 ih.2

theorem Reaches.running (h : Reaches consumer request m tickAt w) (hm : m.Running) : w.Running :=
  (h.keeps (P := fun _ => True) (fun _ _ _ _ => trivial) hm trivial).1

/-- A loop does nothing but take turns: its case of an ended session is not reached. -/
theorem Reaches.loop_eq (h : Reaches consumer request m tickAt w) (hm : m.Running)
    (hp : 0 < period) :
    loop consumer request period hp tickAt w =
      match w.turn consumer request period tickAt with
      | (some outcome, w', _) => (outcome, w')
      | (none, w', tickAt') => loop consumer request period hp tickAt' w' := by
  have ha := (h.running hm).active
  split
  · rename_i hturn
    exact loop_of_some ha hturn
  · rename_i hturn
    exact loop_of_none ha hturn

/-- A property of what is left to read that reads do not break. -/
theorem Reaches.of_source {Q : Source → Prop} (hQ : ∀ source, Q source → Q source.read.2)
    (h : Reaches consumer request m tickAt w) (hm : m.Running) (hsource : Q m.source) :
    Q w.source := by
  induction h with
  | start _ _ => exact hsource
  | turn hw hturn ih =>
      cases Turned.of_turn (hw.running hm).active hturn with
      | waited hhears _ =>
          have hkept := hhears.of_source hQ ih
          exact hkept
      | forwarded hhears _ _ =>
          have hkept := hhears.of_source hQ ih
          exact hkept

/-- What is left to do of a run is all of it. -/
theorem Reaches.run_eq (h : Reaches consumer request m tickAt w) (hm : m.Running) :
    ∃ hp, m.run consumer request =
      loop consumer request m.session.config.tickInterval.nanos hp tickAt w := by
  induction h with
  | start hstopped hp =>
      refine ⟨hp, ?_⟩
      rw [run]
      exact (if_neg (Bool.eq_false_iff.1 hstopped)).trans (dif_neg (Nat.ne_of_gt hp))
  | turn hw hturn ih =>
      obtain ⟨hp, hrun⟩ := ih
      rw [hw.loop_eq hm hp, hturn] at hrun
      exact ⟨hp, hrun⟩

/-- A turn with an outcome is the last. -/
theorem Reaches.run_of_turn (h : Reaches consumer request m tickAt w) (hm : m.Running)
    (hturn : w.turn consumer request m.session.config.tickInterval.nanos tickAt =
      (some outcome, w', tickAt')) :
    m.run consumer request = (outcome, w') := by
  obtain ⟨hp, hrun⟩ := h.run_eq hm
  rw [hrun, h.loop_eq hm hp, hturn]

/-- A run that waits has a last turn. -/
theorem Reaches.exists_last_turn (h : Reaches consumer request m tickAt w) (hm : m.Running) :
    ∃ tickAt' w' tickAt'', Reaches consumer request m tickAt' w' ∧
      w'.turn consumer request m.session.config.tickInterval.nanos tickAt' =
        (some (m.run consumer request).1, (m.run consumer request).2, tickAt'') := by
  obtain ⟨hp, hrun⟩ := h.run_eq hm
  rw [hrun]
  clear hrun
  fun_induction loop consumer request m.session.config.tickInterval.nanos hp tickAt w with
  | case1 tickAt w ha outcome w' tickAt' hturn => exact ⟨tickAt, w, tickAt', h, hturn⟩
  | case2 tickAt w ha w' tickAt' hturn ih => exact ih (h.turn hturn)
  | case3 tickAt w hended => exact absurd (h.running hm).active hended

theorem Reaches.exists_last (h : Reaches consumer request m tickAt w) (hm : m.Running) :
    ∃ tickAt' w', Reaches consumer request m tickAt' w' ∧
      Turned consumer request tickAt' w' (some (m.run consumer request).1)
        (m.run consumer request).2 := by
  obtain ⟨tickAt', w', tickAt'', hlast, hturn⟩ := h.exists_last_turn hm
  exact ⟨tickAt', w', hlast, .of_turn (hlast.running hm).active hturn⟩

theorem run_of_stopped (h : m.stopped = true) (consumer : Consumer σ ε) (request : Request) :
    m.run consumer request = (.returned (.error .stopped), m) := by
  rw [run]
  exact if_pos h

theorem run_of_zero (hm : m.Running) (h : m.session.config.tickInterval.nanos = 0)
    (consumer : Consumer σ ε) (request : Request) :
    m.run consumer request = (.returned (.error .zeroTickInterval), m.stop consumer) := by
  rw [run]
  exact (if_neg (Bool.eq_false_iff.1 hm.stopped)).trans (dif_pos h)

/-- A run that is not refused ends with a turn. -/
theorem Running.run_cases (hm : m.Running) (consumer : Consumer σ ε) (request : Request) :
    (m.session.config.tickInterval.nanos = 0 ∧
      m.run consumer request = (.returned (.error .zeroTickInterval), m.stop consumer)) ∨
    ∃ tickAt w, Reaches consumer request m tickAt w ∧
      Turned consumer request tickAt w (some (m.run consumer request).1)
        (m.run consumer request).2 := by
  rcases Nat.eq_zero_or_pos m.session.config.tickInterval.nanos with hzero | hp
  · exact .inl ⟨hzero, run_of_zero hm hzero consumer request⟩
  · exact .inr ((Reaches.start hm.stopped hp).exists_last hm)

end Machine

end Keystroke.EventLoop
