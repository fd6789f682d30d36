import Keystroke.Proofs.EventLoop.History

/-! # Outlooks

What is going to come of a machine, where its source does not keep it waiting long
enough for an idle flush. That is fixed by what is left to read and by the instant of
termination. Ticks and drops change nothing of it, though the idle time and the ticks
of the next run depend on them.
-/

namespace Keystroke.EventLoop

open Decoder (Bytes Segment)

/-! ## What is due -/

/-- Whether an instant comes before that of termination, as seen from `now`. -/
def Earlier (termination : Option (Nat × String)) (now instant : Nat) : Prop :=
  ∀ requested name, termination = some (requested, name) → instant < max now requested

/-- What can be due next. -/
inductive Due (termination : Option (Nat × String)) (now readAt tickAt : Nat) :
    Nat × Occurrence → Prop
  | termination {requested : Nat} {name : String} :
      termination = some (requested, name) → max now requested ≤ readAt →
      Due termination now readAt tickAt (max now requested, .termination name)
  | read :
      readAt ≤ max now tickAt → Earlier termination now readAt →
      Due termination now readAt tickAt (readAt, .read)
  | tick :
      max now tickAt < readAt → Earlier termination now (max now tickAt) →
      Due termination now readAt tickAt (max now tickAt, .tick)
  | drop {instant : Nat} :
      now ≤ instant → instant < readAt → Earlier termination now instant →
      Due termination now readAt tickAt (instant, .drop)

/-- What comes before the next thing due comes before the next read and before termination. -/
structure First (termination : Option (Nat × String)) (now readAt tickAt : Nat)
    (next : Nat × Occurrence) : Prop where
  due : Due termination now readAt tickAt next
  first : ∀ instant < next.1, instant < readAt ∧ Earlier termination now instant

variable {termination : Option (Nat × String)} {now readAt tickAt : Nat}

theorem earlier_none (now instant : Nat) : Earlier none now instant := by
  intro _ _ hsome
  cases hsome

theorem earlier_some_iff {requested instant : Nat} {name : String} :
    Earlier (some (requested, name)) now instant ↔ instant < max now requested := by
  constructor
  · intro h
    exact h requested name rfl
  · intro h _ _ hsome
    cases hsome
    exact h

theorem Earlier.of_lt {instant later : Nat} (h : Earlier termination now later)
    (hlt : instant < later) : Earlier termination now instant :=
  fun requested name hsome => Nat.lt_trans hlt (h requested name hsome)

theorem sooner_cases (a b : Nat × Occurrence) :
    (sooner a b = a ∧ a.1 ≤ b.1) ∨ (sooner a b = b ∧ b.1 < a.1) := by
  unfold sooner
  split
  · exact .inr ⟨rfl, by assumption⟩
  · exact .inl ⟨rfl, by omega⟩

/-- The next read or tick comes first unless termination does. -/
theorem first_work {next : Nat × Occurrence}
    (hnext : next = sooner (readAt, .read) (max now tickAt, .tick))
    (hearlier : Earlier termination now next.1) : First termination now readAt tickAt next := by
  rcases sooner_cases (readAt, .read) (max now tickAt, .tick) with ⟨hread, hle⟩ | ⟨htick, hlt⟩
  · rw [hread] at hnext
    subst hnext
    exact ⟨.read hle hearlier, fun instant hinstant => ⟨hinstant, hearlier.of_lt hinstant⟩⟩
  · rw [htick] at hnext
    subst hnext
    exact ⟨.tick hlt hearlier, fun instant hinstant =>
      ⟨Nat.lt_trans hinstant hlt, hearlier.of_lt hinstant⟩⟩

theorem first_undropped (termination : Option (Nat × String)) (now readAt tickAt : Nat) :
    First termination now readAt tickAt (Request.next ⟨termination, none⟩ now readAt tickAt) := by
  cases termination with
  | none => exact first_work rfl (earlier_none now _)
  | some termination =>
      obtain ⟨requested, name⟩ := termination
      have hle : (Request.next ⟨some (requested, name), none⟩ now readAt tickAt).1 ≤ readAt :=
        Machine.next_le _ _ _ _
      simp only [Request.next] at hle ⊢
      rcases sooner_cases (max now requested, .termination name)
          (sooner (readAt, .read) (max now tickAt, .tick)) with ⟨hnext, _⟩ | ⟨hnext, hlt⟩
      · rw [hnext] at hle ⊢
        exact ⟨.termination rfl hle, fun instant hinstant =>
          ⟨Nat.lt_of_lt_of_le hinstant hle, earlier_some_iff.2 hinstant⟩⟩
      · rw [hnext]
        exact first_work rfl (earlier_some_iff.2 hlt)

theorem due_next (request : Request) (now readAt tickAt : Nat) :
    Due request.termination now readAt tickAt (request.next now readAt tickAt) := by
  obtain ⟨termination, dropAt⟩ := request
  have hfirst := first_undropped termination now readAt tickAt
  cases dropAt with
  | none => exact hfirst.due
  | some instant =>
      have hnext : Request.next ⟨termination, some instant⟩ now readAt tickAt =
        sooner (Request.next ⟨termination, none⟩ now readAt tickAt) (max now instant, .drop) := rfl
      rw [hnext]
      rcases sooner_cases (Request.next ⟨termination, none⟩ now readAt tickAt)
          (max now instant, .drop) with ⟨hsame, _⟩ | ⟨hdrop, hlt⟩
      · rw [hsame]
        exact hfirst.due
      · rw [hdrop]
        obtain ⟨hread, hearlier⟩ := hfirst.first _ hlt
        exact .drop (Nat.le_max_left now instant) hread hearlier

/-! ## Readings up to termination -/

/-- The readings of a reader that is terminated. Where termination and a read fall on one instant,
termination comes first. -/
def Readings.upTo (termination : Option (Nat × String)) (now : Nat) (readings : Readings) :
    Readings :=
  match termination with
  | none => readings
  | some (requested, name) =>
    if max now requested ≤ readings.endsAt then
      ⟨readings.chunks.takeWhile fun chunk => decide (chunk.1 < max now requested),
        max now requested, .terminated name⟩
    else readings

theorem Source.readyAt_le_endsAt (now : Nat) (source : Source) :
    source.readyAt now ≤ (source.readings now).endsAt := by
  induction now, source using Source.readings.induct with
  | case1 now source bytes rest h ih =>
      rw [readings_of_chunk h]
      exact Nat.le_trans (le_readyAt _ rest) ih
  | case2 now source rest h =>
      exact Nat.le_of_eq (congrArg Readings.endsAt (readings_of_endOfInput h)).symm
  | case3 now source error rest h =>
      exact Nat.le_of_eq (congrArg Readings.endsAt (readings_of_failed h)).symm

variable {source rest : Source} {bytes : Bytes}

/-- Nothing is read before termination. -/
theorem upTo_of_terminated {requested : Nat} {name : String}
    (hle : max now requested ≤ source.readyAt now) :
    (source.readings now).upTo (some (requested, name)) now =
      ⟨[], max now requested, .terminated name⟩ := by
  have hends := Nat.le_trans hle (source.readyAt_le_endsAt now)
  have hchunks : (source.readings now).chunks.takeWhile
      (fun chunk => decide (chunk.1 < max now requested)) = [] := by
    have hnext := Source.nextRead_readings now source
    cases hc : (source.readings now).chunks with
    | nil => rfl
    | cons chunk chunks =>
        rw [hc] at hnext
        rw [List.takeWhile_cons_of_neg]
        have hinstant : chunk.1 = source.readyAt now := hnext
        simp only [decide_eq_true_eq]
        omega
  simp only [Readings.upTo, if_pos hends, hchunks]

theorem upTo_of_earlier {later : Nat} {readings : Readings} (hle : now ≤ later)
    (h : Earlier termination now later) :
    readings.upTo termination later = readings.upTo termination now := by
  cases termination with
  | none => rfl
  | some termination =>
      have hlt := earlier_some_iff.1 h
      have hsame : max later termination.1 = max now termination.1 := by omega
      simp only [Readings.upTo, hsame]

theorem upTo_cons {instant : Nat} {readings : Readings} (hle : now ≤ instant)
    (h : Earlier termination now instant) :
    (readings.cons instant bytes).upTo termination now =
      (readings.upTo termination instant).cons instant bytes := by
  rw [upTo_of_earlier hle h]
  cases termination with
  | none => rfl
  | some termination =>
      have hlt := earlier_some_iff.1 h
      by_cases hends : max now termination.1 ≤ readings.endsAt
      · simp only [Readings.upTo, Readings.cons, if_pos hends, List.takeWhile_cons,
          decide_eq_true hlt, if_true]
      · simp only [Readings.upTo, Readings.cons, hends, if_false]

theorem upTo_of_ended {instant : Nat} {reason : ShutdownReason}
    (h : Earlier termination now instant) :
    Readings.upTo termination now ⟨[], instant, reason⟩ = ⟨[], instant, reason⟩ := by
  cases termination with
  | none => rfl
  | some termination =>
      have hlt := earlier_some_iff.1 h
      simp only [Readings.upTo, if_neg (Nat.not_le.2 hlt)]

/-- No idle flush between any two reads. -/
def noFlush (_ : Bytes) (_ _ : Nat) : Option Nat := none

namespace Machine

variable {σ ε : Type} {consumer : Consumer σ ε} {request : Request} {period tickAt' : Nat}
  {m m' w : Machine σ}

/-- What comes of a machine in which no idle flush falls due, with the consumer in the end. -/
def outlook (consumer : Consumer σ ε) (termination : Option (Nat × String)) (m : Machine σ) :
    Except (RunError ε) ShutdownReason × σ :=
  let readings := (m.source.readings m.clock).upTo termination m.clock
  deliver consumer readings.endsAt readings.reason m.consumer
    (timeline noFlush readings.endsAt m.session.decoder readings.chunks)

/-- Waiting changes nothing of what is to come. -/
theorem outlook_of_waiting (hsource : m'.source = m.source) (hconsumer : m'.consumer = m.consumer)
    (hdecoder : m'.session.decoder = m.session.decoder) (hle : m.clock ≤ m'.clock)
    (hread : m'.clock ≤ m.source.readyAt m.clock) (hearlier : Earlier termination m.clock m'.clock) :
    m'.outlook consumer termination = m.outlook consumer termination := by
  rw [outlook, outlook, hsource, hconsumer, hdecoder, Source.readings_of_le hle hread,
    upTo_of_earlier hle hearlier]

theorem outlook_of_terminated {requested : Nat} {name : String}
    (hle : max m.clock requested ≤ m.source.readyAt m.clock) :
    m.outlook consumer (some (requested, name)) =
      (.ok (.terminated name), consumer.stop (max m.clock requested) m.consumer) := by
  rw [outlook, upTo_of_terminated hle]
  rfl

theorem outlook_of_chunk (h : m.source.read.1 = .chunk bytes)
    (hearlier : Earlier termination m.clock (m.source.readyAt m.clock)) :
    m.outlook consumer termination =
      let fed := m.session.decoder.feed bytes
      let readings := (m.source.read.2.readings (m.source.readyAt m.clock)).upTo termination
        (m.source.readyAt m.clock)
      deliver consumer readings.endsAt readings.reason m.consumer
        ((m.source.readyAt m.clock, .input bytes (fed.1.map Segment.event)) ::
          timeline noFlush readings.endsAt fed.2 readings.chunks) := by
  rw [outlook, Source.readings_of_chunk (Prod.ext h rfl),
    upTo_cons (Source.le_readyAt _ _) hearlier]
  rfl

theorem outlook_of_ended {reason : ShutdownReason}
    (h : m.source.readings m.clock = ⟨[], m.source.readyAt m.clock, reason⟩)
    (hearlier : Earlier termination m.clock (m.source.readyAt m.clock)) :
    m.outlook consumer termination =
      (.ok reason, consumer.stop (m.source.readyAt m.clock) m.consumer) := by
  rw [outlook, h, upTo_of_ended hearlier]
  rfl

/-! ## No idle flush -/

/-- A machine between two runs in which no idle flush falls due: it waits for its source less long
than the idle threshold, or the threshold is the greatest duration. -/
structure Prompt (m : Machine σ) : Prop where
  running : m.Running
  interval : 0 < m.session.config.tickInterval.nanos
  idle_le : m.session.idle.nanos ≤ m.clock
  horizon_le : m.source.horizon 0 ≤ m.session.config.idleThreshold.nanos ∨
    m.session.config.idleThreshold.nanos = Duration.maxNanos

/-- The same between two turns. The next tick counts no more than the time up to it. -/
structure PromptUntil (period tickAt : Nat) (m : Machine σ) : Prop extends Prompt m where
  period_eq : m.session.config.tickInterval.nanos = period
  clock_le : m.clock ≤ tickAt
  counted : m.session.idle.nanos + period ≤ tickAt

/-- The idle time does not exceed the threshold with a tick that comes before the next read. -/
theorem PromptUntil.idle_add_le (h : PromptUntil period tickAt m)
    (hlt : tickAt < m.source.readyAt m.clock) :
    (m.session.idle.add m.session.config.tickInterval).nanos ≤
      m.session.config.idleThreshold.nanos := by
  have hhorizon := Source.readyAt_le_horizon m.clock m.source
  rw [Source.horizon_eq_max] at hhorizon
  have hclock := h.clock_le
  have hcounted := h.counted
  rw [Duration.nanos_add, h.period_eq]
  rcases h.horizon_le with hle | hmax <;> omega

theorem PromptUntil.next (h : PromptUntil period tickAt m) (hm : m'.Running)
    (hconfig : m'.session.config = m.session.config)
    (hhorizon : m'.source.horizon 0 ≤ m.source.horizon 0)
    (hidle : m'.session.idle.nanos ≤ m'.clock) (hclock : m'.clock ≤ tickAt')
    (hcounted : m'.session.idle.nanos + period ≤ tickAt') : PromptUntil period tickAt' m' := by
  refine
    { running := hm
      interval := ?_
      idle_le := hidle
      horizon_le := ?_
      period_eq := ?_
      clock_le := hclock
      counted := hcounted }
  · rw [hconfig]
    exact h.interval
  · rw [hconfig]
    exact h.horizon_le.imp_left (Nat.le_trans hhorizon)
  · rw [hconfig]
    exact h.period_eq

/-- How a turn goes, and what is to come of the machine behind it. -/
inductive Foresees (consumer : Consumer σ ε) (termination : Option (Nat × String)) (period : Nat)
    (m : Machine σ) : Option (Outcome ε) → Machine σ → Nat → Prop
  | waiting {m' : Machine σ} {tickAt' : Nat} :
      PromptUntil period tickAt' m' →
      m'.outlook consumer termination = m.outlook consumer termination →
      Foresees consumer termination period m none m' tickAt'
  | dropped {m' : Machine σ} {tickAt' : Nat} :
      Prompt m' → m'.outlook consumer termination = m.outlook consumer termination →
      Foresees consumer termination period m (some .dropped) m' tickAt'
  | returned {m' : Machine σ} {tickAt' : Nat} {result : Except (RunError ε) ShutdownReason} :
      m.outlook consumer termination = (result, m'.consumer) →
      Foresees consumer termination period m (some (.returned result)) m' tickAt'

/-- A reason to end is what comes of the machine. -/
theorem Hears.foresees_end {stimulus : Session.Stimulus} {heard : Machine σ}
    {reason : ShutdownReason} (hhears : Hears request tickAt m stimulus heard) (hm : m.Running)
    (hreason : stimulus.reason? = some reason)
    (houtlook : m.outlook consumer termination =
      (.ok reason, consumer.stop heard.clock heard.consumer)) :
    let turned := m.turn consumer request period tickAt
    Foresees consumer termination period m turned.1 turned.2.1 turned.2.2 := by
  have hheard := hhears.running hm
  have hstopped : (heard.tell stimulus).2.stopped = false := hheard.stopped
  rw [hhears.turn_eq_performed, (Session.actions_eq_shutdown_iff hheard.active).2 hreason,
    performed, perform_shutdown, stop_of_running hstopped]
  exact .returned houtlook

/-- A batch that is handed over is the next of what comes of the machine. -/
theorem foresees_forward {told : Machine σ} {batch : Batch} {batches : List (Nat × Batch)}
    {endsAt : Nat} {reason : ShutdownReason}
    (hnext : ∀ state : σ, PromptUntil period tickAt { told with consumer := state })
    (houtlook : m.outlook consumer termination =
      deliver consumer endsAt reason told.consumer ((told.clock, batch) :: batches))
    (hrest : ∀ state : σ, outlook consumer termination { told with consumer := state } =
      deliver consumer endsAt reason state batches) :
    let turned := performed consumer told [.forward batch] tickAt
    Foresees consumer termination period m turned.1 turned.2.1 turned.2.2 := by
  have htold := hnext told.consumer
  rw [deliver] at houtlook
  dsimp only [performed]
  cases hforward : consumer.forward told.clock batch told.consumer with
  | mk answer state =>
      rw [hforward] at houtlook
      have hstopped : ({ told with consumer := state } : Machine σ).stopped = false :=
        htold.running.stopped
      cases answer with
      | error error =>
          rw [perform_forward_of_error hforward, stop_of_running hstopped]
          exact .returned houtlook
      | ok flow =>
          cases flow with
          | quit =>
              rw [perform_forward_of_quit htold.running.active hforward]
              have hquit : (tell { told with consumer := state } .consumerQuit).2.stopped = false :=
                hstopped
              rw [stop_of_running hquit]
              exact .returned houtlook
          | proceed =>
              rw [perform_forward_of_proceed hforward]
              exact .waiting (hnext state) ((hrest state).trans houtlook.symm)

/-- The turn that reads a chunk. -/
theorem PromptUntil.foresees_chunk (h : PromptUntil period tickAt m)
    (hdue : m.due request tickAt = (m.source.readyAt m.clock, .read))
    (hread : m.source.read.1 = .chunk bytes) (hle : m.source.readyAt m.clock ≤ tickAt)
    (hearlier : Earlier termination m.clock (m.source.readyAt m.clock)) :
    let turned := m.turn consumer request period tickAt
    Foresees consumer termination period m turned.1 turned.2.1 turned.2.2 := by
  let heard := m.fetch (m.source.readyAt m.clock)
  have hhears : Hears request tickAt m (.input bytes) heard := by
    have hhears : Hears request tickAt m _ _ := .read hdue
    rwa [hread] at hhears
  have hheard := hhears.running h.running
  have hhandled := Session.handle_input hheard.active bytes
  have hactions : (heard.session.handle (.input bytes)).actions =
      [.forward (.input bytes ((m.session.decoder.feed bytes).1.map Segment.event))] :=
    congrArg Session.Response.actions hhandled
  have hsession : (heard.tell (.input bytes)).2.session =
      { m.session with decoder := (m.session.decoder.feed bytes).2, idle := .zero } :=
    congrArg Session.Response.session hhandled
  rw [hhears.turn_eq_performed, hactions]
  refine foresees_forward (fun state => ?_) (outlook_of_chunk hread hearlier) fun state => ?_
  · have hidle : (heard.tell (.input bytes)).2.session.idle.nanos = 0 := by
      rw [hsession]
      rfl
    refine h.next ((hheard.tell_forward hactions).with_consumer state) (by rw [hsession])
      (Source.horizon_read 0 m.source) ?_ hle ?_
    · dsimp only
      rw [hidle]
      exact Nat.zero_le _
    · dsimp only
      rw [hidle]
      exact Nat.le_trans (Nat.add_le_add_right (Nat.zero_le _) period) h.counted
  · rw [outlook]
    dsimp only
    rw [hsession]
    rfl

/-- A tick that comes before the next read. -/
theorem PromptUntil.foresees_tick (h : PromptUntil period tickAt m)
    (hdue : m.due request tickAt = (tickAt, .tick)) (hlt : tickAt < m.source.readyAt m.clock)
    (hearlier : Earlier termination m.clock tickAt) :
    let turned := m.turn consumer request period tickAt
    Foresees consumer termination period m turned.1 turned.2.1 turned.2.2 := by
  let heard : Machine σ := { m with clock := tickAt }
  let stimulus : Session.Stimulus := .tick m.session.config.tickInterval
  have hhears : Hears request tickAt m stimulus heard := .tick hdue
  have hheard := hhears.running h.running
  have hhandled : heard.session.handle stimulus = _ :=
    (Session.handle_tick h.running.active _).trans (Session.handleTick_of_le (h.idle_add_le hlt))
  have hactions : (heard.session.handle stimulus).actions = [] :=
    congrArg Session.Response.actions hhandled
  have hsession : (heard.tell stimulus).2.session =
      { m.session with idle := m.session.idle.add m.session.config.tickInterval } :=
    congrArg Session.Response.session hhandled
  have hidle : (heard.tell stimulus).2.session.idle.nanos ≤ m.session.idle.nanos + period := by
    rw [hsession, ← h.period_eq]
    exact Nat.min_le_left _ _
  rw [hhears.turn_eq_performed, hactions, performed, perform_nil]
  refine .waiting (h.next (hheard.tell ?_) (by rw [hsession]) (Nat.le_refl _) ?_ ?_ ?_) ?_
  · rw [hactions]
    rfl
  · exact Nat.le_trans hidle h.counted
  · exact Nat.le_add_right _ _
  · exact Nat.add_le_add_right (Nat.le_trans hidle h.counted) period
  · exact outlook_of_waiting rfl rfl (by rw [hsession]) h.clock_le (Nat.le_of_lt hlt) hearlier

theorem PromptUntil.foresees (h : PromptUntil period tickAt m) (consumer : Consumer σ ε)
    (request : Request) :
    let turned := m.turn consumer request period tickAt
    Foresees consumer request.termination period m turned.1 turned.2.1 turned.2.2 := by
  intro turned
  have hdue := due_next request m.clock (m.source.readyAt m.clock) tickAt
  generalize hnext : request.next m.clock (m.source.readyAt m.clock) tickAt = next at hdue
  cases hdue with
  | drop hle hread hearlier =>
      have hturn : turned = _ := turn_of_drop hnext
      rw [hturn]
      refine .dropped ⟨⟨h.running.active, h.running.stopped, h.running.shutdowns⟩, h.interval,
        Nat.le_trans h.idle_le hle, h.horizon_le⟩ ?_
      exact outlook_of_waiting rfl rfl rfl hle (Nat.le_of_lt hread) hearlier
  | termination hrequested hle =>
      refine (Hears.termination hnext).foresees_end h.running rfl ?_
      rw [hrequested]
      exact outlook_of_terminated hle
  | tick hlt hearlier =>
      rw [Nat.max_eq_right h.clock_le] at hnext hlt hearlier
      exact h.foresees_tick hnext hlt hearlier
  | read hle hearlier =>
      have hhears : Hears request tickAt m _ _ := .read hnext
      cases hread : m.source.read with
      | mk result rest =>
          cases result with
          | chunk bytes =>
              rw [Nat.max_eq_right h.clock_le] at hle
              exact h.foresees_chunk hnext (congrArg Prod.fst hread) hle hearlier
          | endOfInput =>
              refine hhears.foresees_end h.running (by rw [hread]; rfl) ?_
              exact outlook_of_ended (Source.readings_of_endOfInput hread) hearlier
          | failed error =>
              refine hhears.foresees_end h.running (by rw [hread]; rfl) ?_
              exact outlook_of_ended (Source.readings_of_failed hread) hearlier

/-! ## Runs -/

theorem Prompt.started (h : Prompt m) :
    PromptUntil m.session.config.tickInterval.nanos
      (m.clock + m.session.config.tickInterval.nanos) m.started :=
  { running := h.running.started
    interval := h.interval
    idle_le := h.idle_le
    horizon_le := h.horizon_le
    period_eq := rfl
    clock_le := Nat.le_add_right _ _
    counted := Nat.add_le_add_right h.idle_le _ }

/-- While a run goes on, the same is to come of its machine. -/
theorem Prompt.reaches (h : Prompt m) (hreaches : Reaches consumer request m tickAt w) :
    PromptUntil m.session.config.tickInterval.nanos tickAt w ∧
      w.outlook consumer request.termination = m.outlook consumer request.termination := by
  induction hreaches with
  | start _ _ => exact ⟨h.started, rfl⟩
  | turn _ hturn ih =>
      obtain ⟨hw, houtlook⟩ := ih
      have hforesees := hw.foresees consumer request
      rw [hturn] at hforesees
      cases hforesees with
      | waiting hnext hsame => exact ⟨hnext, hsame.trans houtlook⟩

/-- A run is dropped, and the same is to come of its machine, or that comes of it. -/
theorem Prompt.run (h : Prompt m) (consumer : Consumer σ ε) (request : Request) :
    Foresees consumer request.termination m.session.config.tickInterval.nanos m
      (some (m.run consumer request).1) (m.run consumer request).2 0 := by
  have hstart : Reaches consumer request m _ m.started := .start h.running.stopped h.interval
  obtain ⟨tickAt, w, tickAt', hreaches, hturn⟩ := hstart.exists_last_turn h.running
  obtain ⟨hw, houtlook⟩ := h.reaches hreaches
  have hforesees := hw.foresees consumer request
  rw [hturn] at hforesees
  generalize m.run consumer request = ran at hforesees ⊢
  obtain ⟨outcome, behind⟩ := ran
  cases hforesees with
  | dropped hnext hsame => exact .dropped hnext (hsame.trans houtlook)
  | returned hresult => exact .returned (houtlook.symm.trans hresult)

/-- Runs that were dropped and the run that returns do what is to come of the machine. -/
theorem Prompt.outlook_eq {requests : List Request}
    {earlier later : List (Outcome ε × Machine σ)} {result : Except (RunError ε) ShutdownReason}
    (h : Prompt m) (hshared : ∀ request ∈ requests, request.termination = termination)
    (hruns : m.runAll consumer requests = earlier ++ (.returned result, m') :: later)
    (hearlier : ∀ ran ∈ earlier, ran.1 = .dropped) :
    m.outlook consumer termination = (result, m'.consumer) := by
  have hkeeps : ∀ w : Machine σ,
      Prompt w ∧ w.outlook consumer termination = m.outlook consumer termination →
      ∀ request ∈ requests, (w.run consumer request).1 = .dropped →
        Prompt (w.run consumer request).2 ∧
          (w.run consumer request).2.outlook consumer termination =
            m.outlook consumer termination := by
    rintro w ⟨hw, houtlook⟩ request hmem hdropped
    have hforesees := hw.run consumer request
    rw [hdropped, hshared request hmem] at hforesees
    generalize (w.run consumer request).2 = behind at hforesees ⊢
    cases hforesees with
    | dropped hnext hsame => exact ⟨hnext, hsame.trans houtlook⟩
  obtain ⟨w, request, _, ⟨hw, houtlook⟩, hmem, hran, _⟩ :=
    exists_run_of_runAll hkeeps ⟨h, rfl⟩ hruns hearlier
  have hforesees := hw.run consumer request
  rw [hran, hshared request hmem] at hforesees
  rw [← houtlook]
  cases hforesees with
  | returned hresult => exact hresult

end Machine

end Keystroke.EventLoop
