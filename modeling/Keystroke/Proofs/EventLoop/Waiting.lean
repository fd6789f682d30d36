import Keystroke.Proofs.EventLoop.Deliver
import Keystroke.Proofs.EventLoop.Timeline

/-! # Waiting for the next read

A run that nobody ends from outside hands over the batches of the timeline. Before
every turn the idle time and the instant of the next tick fix the instant of the
next flush; a turn takes one batch off the front of what is still to come.
-/

namespace Keystroke.EventLoop

open Decoder (Bytes Segment)

/-- A run that nobody ends from outside. -/
def quiet : Request := ⟨none, none⟩

theorem quiet_next_tick {now readAt tickAt : Nat} (h : max now tickAt < readAt) :
    quiet.next now readAt tickAt = (max now tickAt, .tick) := by
  simp only [Request.next, quiet, sooner, if_pos h]

theorem quiet_next_read {now readAt tickAt : Nat} (h : readAt ≤ max now tickAt) :
    quiet.next now readAt tickAt = (readAt, .read) := by
  simp only [Request.next, quiet, sooner, if_neg (Nat.not_lt.2 h)]

namespace Machine

variable {σ ε : Type} {consumer : Consumer σ ε} {start period tickAt : Nat} {m : Machine σ}

/-- A machine that waits for its next read, with the instant of the next tick. -/
structure Waits (start period tickAt : Nat) (m : Machine σ) : Prop where
  active : m.session.phase = .active
  running : m.stopped = false
  interval : m.session.config.tickInterval.nanos = period
  clock_le : m.clock ≤ tickAt
  isTick : ∃ k, tickAt = start + (k + 1) * period
  /-- The tick before, if there was one, came before the next read. -/
  recent : tickAt = start + period ∨ tickAt < m.source.readyAt m.clock + period
  /-- The idle time consists of intervals that have passed. -/
  idle_le : m.session.idle.nanos + period ≤ tickAt
  /-- The clock stays in the range of durations, or idle time never gets to its end. -/
  range : m.session.config.idleThreshold.nanos < Duration.maxNanos ∨
    m.source.horizon m.clock ≤ Duration.maxNanos

/-- The instant of the idle flush before the next read. -/
def dueFlush? (tickAt : Nat) (m : Machine σ) : Option Nat :=
  if m.session.decoder.pending = [] then none
  else
    let period := m.session.config.tickInterval.nanos
    let instant := tickAt +
      (m.session.config.idleThreshold.nanos - m.session.idle.nanos) / period * period
    if instant < m.source.readyAt m.clock then some instant else none

/-- The batches from the next read on, with the decoder that it finds. -/
def fromNextRead (start : Nat) (d : Decoder) (m : Machine σ) : List (Nat × Batch) :=
  let readings := m.source.readings m.clock
  timeline (flushInstant? m.session.config start) readings.endsAt d readings.chunks

/-- The batches that are still to come. -/
def coming (start tickAt : Nat) (m : Machine σ) : List (Nat × Batch) :=
  let flushed := flushAt m.session.decoder (m.dueFlush? tickAt)
  flushed.1 ++ m.fromNextRead start flushed.2

theorem Waits.readyAt_le (h : Waits start period tickAt m)
    (hmax : m.session.config.idleThreshold.nanos = Duration.maxNanos) :
    m.source.readyAt m.clock ≤ Duration.maxNanos := by
  rcases h.range with hlt | hle
  · omega
  · exact Nat.le_trans (Source.readyAt_le_horizon m.clock m.source) hle

/-! ## Ticks -/

/-- A tick in front of the next read takes the clock there and counts an interval. -/
theorem Waits.after_tick {m' : Machine σ} (h : Waits start period tickAt m)
    (hlt : tickAt < m.source.readyAt m.clock) (hactive : m'.session.phase = .active)
    (hrunning : m'.stopped = m.stopped) (hconfig : m'.session.config = m.session.config)
    (hidle : m'.session.idle.nanos ≤ m.session.idle.nanos + period)
    (hclock : m'.clock = tickAt) (hsource : m'.source = m.source) :
    Waits start period (tickAt + period) m' := by
  have hready : m'.source.readyAt m'.clock = m.source.readyAt m.clock := by
    rw [hsource, hclock]
    exact Source.readyAt_of_le h.clock_le (Nat.le_of_lt hlt)
  obtain ⟨k, hk⟩ := h.isTick
  refine ⟨hactive, hrunning.trans h.running, ?_, ?_, ⟨k + 1, ?_⟩, .inr ?_, ?_, ?_⟩
  · rw [hconfig]
    exact h.interval
  · rw [hclock]
    omega
  · rw [hk, Nat.succ_mul (k + 1) period, Nat.add_assoc]
  · rw [hready]
    omega
  · have hle := h.idle_le
    omega
  · rw [hconfig]
    refine h.range.imp_right fun hle => Nat.le_trans ?_ hle
    rw [hsource, hclock]
    exact Source.horizon_le_of_le
      (Nat.le_trans (Nat.le_of_lt hlt) (Source.readyAt_le_horizon m.clock m.source))

/-- The idle time does not reach the greatest duration in front of a read. -/
theorem Waits.idle_add_le_iff (h : Waits start period tickAt m)
    (hlt : tickAt < m.source.readyAt m.clock) :
    (m.session.idle.add m.session.config.tickInterval).nanos ≤
        m.session.config.idleThreshold.nanos ↔
      m.session.idle.nanos + period ≤ m.session.config.idleThreshold.nanos := by
  rw [Duration.nanos_add, h.interval]
  have hmax := h.readyAt_le
  have hth := m.session.config.idleThreshold.nanos_le
  have hidle := h.idle_le
  omega

theorem readings_after_tick {m' : Machine σ} (h : Waits start period tickAt m)
    (hlt : tickAt < m.source.readyAt m.clock)
    (hclock : m'.clock = tickAt) (hsource : m'.source = m.source) :
    m'.source.readings m'.clock = m.source.readings m.clock := by
  rw [hsource, hclock]
  exact Source.readings_of_le h.clock_le (Nat.le_of_lt hlt)

/-- While the session goes on waiting, its flush stays where it is. -/
theorem coming_of_waiting {m' : Machine σ} (hp : 0 < period) (h : Waits start period tickAt m)
    (hlt : tickAt < m.source.readyAt m.clock)
    (hle : (m.session.idle.add m.session.config.tickInterval).nanos ≤
      m.session.config.idleThreshold.nanos)
    (hsession : m'.session =
      { m.session with idle := m.session.idle.add m.session.config.tickInterval })
    (hclock : m'.clock = tickAt) (hsource : m'.source = m.source) :
    m'.coming start (tickAt + period) = m.coming start tickAt := by
  have hidle := (h.idle_add_le_iff hlt).1 hle
  have hnanos : (m.session.idle.add m.session.config.tickInterval).nanos =
      m.session.idle.nanos + period := by
    have hth := m.session.config.idleThreshold.nanos_le
    rw [Duration.nanos_add, h.interval]
    omega
  have hready : m'.source.readyAt m'.clock = m.source.readyAt m.clock := by
    rw [hsource, hclock]
    exact Source.readyAt_of_le h.clock_le (Nat.le_of_lt hlt)
  have hdue : m'.dueFlush? (tickAt + period) = m.dueFlush? tickAt := by
    have hinstant : tickAt + period +
        (m.session.config.idleThreshold.nanos - (m.session.idle.nanos + period)) / period *
          period =
        tickAt + (m.session.config.idleThreshold.nanos - m.session.idle.nanos) / period *
          period := by
      rw [Nat.div_eq_sub_div hp
          (show period ≤ m.session.config.idleThreshold.nanos - m.session.idle.nanos by omega),
        Nat.sub_sub, Nat.add_mul, Nat.one_mul]
      omega
    unfold dueFlush?
    rw [hsession]
    dsimp only
    rw [hready, hnanos, h.interval, hinstant]
  rw [coming, coming, hdue, hsession, fromNextRead, fromNextRead,
    readings_after_tick h hlt hclock hsource, hsession]

/-- With nothing held back there is no flush. -/
theorem coming_of_nothing (hd : m.session.decoder.pending = []) :
    m.coming start tickAt = m.fromNextRead start m.session.decoder := by
  rw [coming, dueFlush?, if_pos hd]
  rfl

theorem coming_after_flush {m' : Machine σ} {tickAt' : Nat} (h : Waits start period tickAt m)
    (hlt : tickAt < m.source.readyAt m.clock) (hd : m'.session.decoder.pending = [])
    (hconfig : m'.session.config = m.session.config) (hclock : m'.clock = tickAt)
    (hsource : m'.source = m.source) :
    m'.coming start tickAt' = m.fromNextRead start m'.session.decoder := by
  rw [coming_of_nothing hd, fromNextRead, readings_after_tick h hlt hclock hsource, hconfig]
  rfl

/-- The tick that exceeds the threshold is the instant of the flush. -/
theorem coming_of_flush (hp : 0 < period) (h : Waits start period tickAt m)
    (hlt : tickAt < m.source.readyAt m.clock) (hd : m.session.decoder.pending ≠ [])
    (hidle : m.session.config.idleThreshold.nanos <
      (m.session.idle.add m.session.config.tickInterval).nanos) :
    m.coming start tickAt =
      (tickAt, .flushed (m.session.decoder.flush.1.map Segment.event)) ::
        m.fromNextRead start m.session.decoder.flush.2 := by
  have hexceeds : m.session.config.idleThreshold.nanos - m.session.idle.nanos < period := by
    have hnot := mt (h.idle_add_le_iff hlt).2 (Nat.not_le.2 hidle)
    omega
  have hdue : m.dueFlush? tickAt = some tickAt := by
    rw [dueFlush?, if_neg hd]
    dsimp only
    rw [h.interval, Nat.div_eq_of_lt hexceeds, Nat.zero_mul, Nat.add_zero, if_pos hlt]
  rw [coming, hdue]
  rfl

/-! ## Reads -/

theorem dueFlush?_of_le (h : m.source.readyAt m.clock ≤ tickAt) : m.dueFlush? tickAt = none := by
  unfold dueFlush?
  split
  · rfl
  · rw [if_neg]
    omega

theorem coming_of_le (h : m.source.readyAt m.clock ≤ tickAt) :
    m.coming start tickAt = m.fromNextRead start m.session.decoder := by
  rw [coming, dueFlush?_of_le h]
  rfl

/-- Right behind a read the next flush falls on the tick of the timeline. -/
theorem coming_of_read (hp : 0 < period) (h : Waits start period tickAt m)
    (hidle : m.session.idle = .zero)
    (hrecent : tickAt = start + period ∨ tickAt < m.clock + period) :
    m.coming start tickAt =
      let readings := m.source.readings m.clock
      let flushed := flushAt m.session.decoder
        (flushInstant? m.session.config start m.session.decoder.pending m.clock
          (nextRead readings.endsAt readings.chunks))
      flushed.1 ++ m.fromNextRead start flushed.2 := by
  have hdue : m.dueFlush? tickAt =
      flushInstant? m.session.config start m.session.decoder.pending m.clock
        (m.source.readyAt m.clock) := by
    unfold dueFlush? flushInstant?
    split
    · rfl
    · rw [h.interval, ticks_getElem? hp ⟨h.clock_le, h.isTick, hrecent⟩, hidle]
      rfl
  dsimp only
  rw [coming, hdue, Source.nextRead_readings]

/-- A chunk that is read resets the idle time. -/
theorem Waits.after_chunk {m' : Machine σ} {bytes : Bytes} {rest : Source}
    (h : Waits start period tickAt m) (hle : m.source.readyAt m.clock ≤ tickAt)
    (hread : m.source.read = (.chunk bytes, rest)) (hactive : m'.session.phase = .active)
    (hrunning : m'.stopped = m.stopped) (hconfig : m'.session.config = m.session.config)
    (hidle : m'.session.idle = .zero) (hclock : m'.clock = m.source.readyAt m.clock)
    (hsource : m'.source = rest) : Waits start period tickAt m' := by
  have hnow := Source.le_readyAt m'.clock m'.source
  have hpast : m.clock ≤ m.source.readyAt m.clock := Source.le_readyAt m.clock m.source
  refine ⟨hactive, hrunning.trans h.running, ?_, ?_, h.isTick, ?_, ?_, ?_⟩
  · rw [hconfig]
    exact h.interval
  · omega
  · refine h.recent.imp_right fun hlt => ?_
    omega
  · have hidle_le := h.idle_le
    rw [hidle]
    exact Nat.le_trans (Nat.add_le_add_right (Nat.zero_le _) period) hidle_le
  · rw [hconfig]
    refine h.range.imp_right fun hmax => Nat.le_trans ?_ hmax
    have hhorizon := Source.horizon_after_read m.clock m.source
    rw [hread] at hhorizon
    rw [hsource, hclock]
    exact hhorizon

/-! ## Turns -/

theorem Waits.with_consumer (h : Waits start period tickAt m) (state : σ) :
    Waits start period tickAt { m with consumer := state } :=
  ⟨h.active, h.running, h.interval, h.clock_le, h.isTick, h.recent, h.idle_le, h.range⟩

/-- What a turn does to what is still to come. -/
inductive Advances (consumer : Consumer σ ε) (start period tickAt : Nat) (m : Machine σ) : Prop
  | waiting (m' : Machine σ) :
      m.turn consumer quiet period tickAt = performed consumer m' [] (tickAt + period) →
      Waits start period (tickAt + period) m' → m'.consumer = m.consumer →
      m'.source.readings m'.clock = m.source.readings m.clock →
      m'.coming start (tickAt + period) = m.coming start tickAt →
      Advances consumer start period tickAt m
  | batch (m' : Machine σ) (batch : Batch) (tickAt' : Nat) :
      m.turn consumer quiet period tickAt = performed consumer m' [.forward batch] tickAt' →
      Waits start period tickAt' m' → m'.consumer = m.consumer →
      (m'.source.readings m'.clock).endsAt = (m.source.readings m.clock).endsAt →
      (m'.source.readings m'.clock).reason = (m.source.readings m.clock).reason →
      m.coming start tickAt = (m'.clock, batch) :: m'.coming start tickAt' →
      Advances consumer start period tickAt m
  | ended (m' : Machine σ) (reason : ShutdownReason) :
      m.turn consumer quiet period tickAt = performed consumer m' [.shutdown reason] tickAt →
      m'.stopped = false → m'.consumer = m.consumer →
      m.source.readings m.clock = ⟨[], m'.clock, reason⟩ → m.coming start tickAt = [] →
      Advances consumer start period tickAt m

theorem Waits.advances_tick (hp : 0 < period) (h : Waits start period tickAt m)
    (hlt : tickAt < m.source.readyAt m.clock) : Advances consumer start period tickAt m := by
  have hmax : max m.clock tickAt = tickAt := Nat.max_eq_right h.clock_le
  have hnext : quiet.next m.clock (m.source.readyAt m.clock) tickAt = (tickAt, .tick) := by
    rw [quiet_next_tick (by rw [hmax]; exact hlt), hmax]
  have hturn : m.turn consumer quiet period tickAt = _ := turn_of_tick hnext
  dsimp only [tell] at hturn
  rw [Session.handle_tick h.active] at hturn
  by_cases hle : (m.session.idle.add m.session.config.tickInterval).nanos ≤
      m.session.config.idleThreshold.nanos
  · rw [Session.handleTick_of_le hle] at hturn
    refine .waiting _ hturn (h.after_tick hlt h.active rfl rfl ?_ rfl rfl) rfl
      (readings_after_tick h hlt rfl rfl) (coming_of_waiting hp h hlt hle rfl rfl rfl)
    rw [← h.interval]
    exact Nat.min_le_left _ _
  have hgt := Nat.lt_of_not_le hle
  by_cases hd : m.session.decoder.pending = []
  · rw [Session.handleTick_of_nothing hd hgt] at hturn
    refine .waiting _ hturn (h.after_tick hlt h.active rfl rfl (Nat.zero_le _) rfl rfl) rfl
      (readings_after_tick h hlt rfl rfl) ?_
    rw [coming_of_nothing hd]
    exact coming_after_flush h hlt hd rfl rfl rfl
  · rw [Session.handleTick_of_held hd hgt] at hturn
    refine .batch _ _ _ hturn (h.after_tick hlt h.active rfl rfl (Nat.zero_le _) rfl rfl) rfl
      (congrArg Readings.endsAt (readings_after_tick h hlt rfl rfl))
      (congrArg Readings.reason (readings_after_tick h hlt rfl rfl)) ?_
    rw [coming_of_flush hp h hlt hd hgt]
    refine congrArg (List.cons _) (Eq.symm ?_)
    exact coming_after_flush h hlt (Decoder.pending_flush m.session.decoder) rfl rfl rfl

theorem Waits.advances_read (hp : 0 < period) (h : Waits start period tickAt m)
    (hle : m.source.readyAt m.clock ≤ tickAt) : Advances consumer start period tickAt m := by
  have hnext : quiet.next m.clock (m.source.readyAt m.clock) tickAt =
      (m.source.readyAt m.clock, .read) :=
    quiet_next_read (Nat.le_trans hle (Nat.le_max_right _ _))
  have hcoming : m.coming start tickAt = _ := coming_of_le hle
  cases hread : m.source.read with
  | mk result rest =>
      cases result with
      | chunk bytes =>
          have hturn : m.turn consumer quiet period tickAt = _ := turn_of_chunk hnext hread
          dsimp only [tell] at hturn
          rw [Session.handle_input h.active] at hturn
          have hreadings : m.source.readings m.clock = _ := Source.readings_of_chunk hread
          refine .batch _ _ _ hturn (h.after_chunk hle hread h.active rfl rfl rfl rfl rfl) rfl
            ?_ ?_ ?_
          · rw [hreadings]
            rfl
          · rw [hreadings]
            rfl
          · rw [hcoming, fromNextRead, hreadings]
            refine congrArg (List.cons _) (Eq.symm ?_)
            exact coming_of_read hp (h.after_chunk hle hread h.active rfl rfl rfl rfl rfl) rfl
              h.recent
      | endOfInput =>
          have hturn : m.turn consumer quiet period tickAt = _ := turn_of_endOfInput hnext hread
          have hreadings : m.source.readings m.clock = _ := Source.readings_of_endOfInput hread
          simp only [tell, Session.handle, h.active] at hturn
          refine .ended _ _ hturn h.running rfl hreadings ?_
          rw [hcoming, fromNextRead, hreadings]
          rfl
      | failed error =>
          have hturn : m.turn consumer quiet period tickAt = _ := turn_of_failed hnext hread
          have hreadings : m.source.readings m.clock = _ := Source.readings_of_failed hread
          simp only [tell, Session.handle, h.active] at hturn
          refine .ended _ _ hturn h.running rfl hreadings ?_
          rw [hcoming, fromNextRead, hreadings]
          rfl

/-! ## The run -/

theorem delivered_loop (hp : 0 < period) (h : Waits start period tickAt m) :
    Delivered (loop consumer quiet period hp tickAt m)
      (deliver consumer (m.source.readings m.clock).endsAt (m.source.readings m.clock).reason
        m.consumer (m.coming start tickAt)) := by
  induction hahead : m.ahead tickAt using Nat.strongRecOn generalizing m tickAt with
  | ind ahead ih =>
  have hrest : ∀ {m' : Machine σ} {tickAt' : Nat},
      m.turn consumer quiet period tickAt = (none, m', tickAt') →
      Waits start period tickAt' m' →
      Delivered (loop consumer quiet period hp tickAt' m')
        (deliver consumer (m'.source.readings m'.clock).endsAt
          (m'.source.readings m'.clock).reason m'.consumer (m'.coming start tickAt')) := by
    intro m' tickAt' hturn h'
    exact ih _ (hahead ▸ ahead_turn hp h.active hturn) h' rfl
  have hadvances : Advances consumer start period tickAt m := by
    by_cases hlt : tickAt < m.source.readyAt m.clock
    · exact h.advances_tick hp hlt
    · exact h.advances_read hp (Nat.le_of_not_lt hlt)
  cases hadvances with
  | waiting m' hturn h' hconsumer hreadings hcoming =>
      rw [performed, perform_nil] at hturn
      rw [loop_of_none h.active hturn, ← hconsumer, ← hreadings, ← hcoming]
      exact hrest hturn h'
  | batch m' batch tickAt' hturn h' hconsumer hendsAt hreason hcoming =>
      rw [hcoming, ← hconsumer, ← hendsAt, ← hreason]
      exact delivered_of_forward h.active hturn h'.active h'.running fun state hnone =>
        hrest hnone (h'.with_consumer state)
  | ended m' reason hturn hrunning hconsumer hreadings hcoming =>
      rw [hcoming, hreadings, ← hconsumer]
      exact delivered_of_shutdown h.active hturn hrunning

/-- A machine that has not run yet. -/
def fresh (config : Session.Config) (backspace : UInt8) (state : σ) (source : Source)
    (start : Nat) : Machine σ :=
  { new config backspace state source with clock := start }

/-- A first run hands over the batches of the timeline. -/
theorem delivered_run {config : Session.Config} (hp : 0 < config.tickInterval.nanos)
    (backspace : UInt8) (state : σ) {source : Source}
    (hrange : config.idleThreshold.nanos < Duration.maxNanos ∨
      source.horizon start ≤ Duration.maxNanos) :
    let readings := source.readings start
    Delivered ((fresh config backspace state source start).run consumer quiet)
      (deliver consumer readings.endsAt readings.reason state
        (timeline (flushInstant? config start) readings.endsAt (.new backspace)
          readings.chunks)) := by
  intro readings
  let started : Machine σ :=
    { fresh config backspace state source start with
      records := [.started config.tickInterval config.idleThreshold backspace] }
  have hrun : (fresh config backspace state source start).run consumer quiet =
      loop consumer quiet config.tickInterval.nanos hp (start + config.tickInterval.nanos)
        started := by
    rw [run]
    exact (if_neg Bool.false_ne_true).trans (dif_neg (Nat.ne_of_gt hp))
  have hwaits : Waits start config.tickInterval.nanos (start + config.tickInterval.nanos)
      started :=
    ⟨rfl, rfl, rfl, Nat.le_add_right _ _, ⟨0, by rw [Nat.zero_add, Nat.one_mul]⟩, .inl rfl,
      Nat.add_le_add_right (Nat.zero_le _) _, hrange⟩
  have hcoming : started.coming start (start + config.tickInterval.nanos) =
      timeline (flushInstant? config start) readings.endsAt (.new backspace) readings.chunks :=
    coming_of_nothing rfl
  rw [hrun, ← hcoming]
  exact delivered_loop hp hwaits

theorem run_of_proceeds (consumer : Consumer σ ε) {config : Session.Config}
    (hproceeds : ∀ instant batch state, (consumer.forward instant batch state).1 = .ok .proceed)
    (hp : 0 < config.tickInterval.nanos) (backspace : UInt8) (state : σ) (source : Source)
    (start : Nat)
    (hrange : config.idleThreshold.nanos < Duration.maxNanos ∨
      source.horizon start ≤ Duration.maxNanos) :
    let readings := source.readings start
    let ran := (fresh config backspace (state, []) source start).run consumer.recorded quiet
    ran.1 = .returned (.ok readings.reason) ∧
      ran.2.consumer.2 =
        (timeline (flushInstant? config start) readings.endsAt (.new backspace) readings.chunks).map
          (fun batch => .forward batch.1 batch.2) ++ [.stop readings.endsAt] := by
  intro readings ran
  have hdelivered : Delivered ran (deliver consumer.recorded readings.endsAt readings.reason
      (state, [])
      (timeline (flushInstant? config start) readings.endsAt (.new backspace) readings.chunks)) :=
    delivered_run hp backspace (state, []) hrange
  obtain ⟨hanswer, hcalls⟩ := deliver_recorded hproceeds readings.endsAt readings.reason
    (state, [])
    (timeline (flushInstant? config start) readings.endsAt (.new backspace) readings.chunks)
  refine ⟨?_, ?_⟩
  · rw [hdelivered.outcome, hanswer]
  · rw [hdelivered.consumer, hcalls, List.nil_append]

/-- A first run with a consumer that always proceeds ends where the source ends. In front of
that the consumer gets the batches of the timeline. The chunks in it are the data cut up, each
of at most a buffer. Behind a chunk there is the idle flush, if enough ticks fall between its
read and the next to exceed the threshold, and nothing else. So from one flush to the next the
keys are those of the bytes in between, decoded in one piece. Instants of a real clock are
durations; for instants beyond them, idle time would stop at the greatest duration. -/
theorem run_timeline (consumer : Consumer σ ε) (config : Session.Config) (backspace : UInt8)
    (state : σ) (source : Source) (start : Nat)
    (hproceeds : ∀ instant batch state, (consumer.forward instant batch state).1 = .ok .proceed)
    (hp : 0 < config.tickInterval.nanos)
    (hrange : config.idleThreshold.nanos < Duration.maxNanos ∨
      source.horizon start ≤ Duration.maxNanos) :
    let readings := source.readings start
    let batches :=
      timeline (flushInstant? config start) readings.endsAt (.new backspace) readings.chunks
    let ran := (fresh config backspace (state, []) source start).run consumer.recorded quiet
    (ran.1 = .returned (.ok readings.reason) ∧
      ran.2.consumer.2 =
        batches.map (fun batch => .forward batch.1 batch.2) ++ [.stop readings.endsAt]) ∧
    (batches.filterMap input? = readings.chunks ∧
      (∀ chunk ∈ readings.chunks, 1 ≤ chunk.2.length ∧ chunk.2.length ≤ 1024) ∧
      (readings.chunks.map Prod.snd).flatten = source.data) ∧
    (∀ before instant bytes after, readings.chunks = before ++ (instant, bytes) :: after →
      ∃ front back held, Decodes (.new backspace) front held ∧
        front.filterMap input? = before ∧ back.filterMap input? = after ∧
        batches = front ++ (instant, .input bytes ((held.feed bytes).1.map Segment.event)) ::
          ((flushAt (held.feed bytes).2
            (flushInstant? config start (held.feed bytes).2.pending instant
              (nextRead readings.endsAt after))).1 ++ back)) ∧
    ∃ others last, Decoder.stretches (calls batches) = others ++ [last] ∧
      (others ++ [last]).flatten = source.data ∧
      batches.flatMap (fun batch => batch.2.events) =
        (others.flatMap fun stretch =>
          ((Decoder.new backspace).run [.feed stretch, .flush]).1.map Segment.event) ++
            ((Decoder.new backspace).feed last).1.map Segment.event := by
  intro readings batches ran
  refine ⟨run_of_proceeds consumer hproceeds hp backspace state source start hrange,
    ⟨filterMap_timeline _ _, Source.length_of_mem_chunks start source,
      Source.chunks_flatten start source⟩, ?_, ?_⟩
  · intro before instant bytes after hchunks
    exact timeline_split (.new backspace) hchunks
  · rw [← Source.chunks_flatten start source]
    exact timeline_stretches backspace readings.chunks

/-- An escape is flushed by the third tick behind it, and what comes then stands for itself. -/
theorem run_escape :
    let ran := (fresh ⟨.ofNanos 2, .ofNanos 5⟩ 0x7f ((0, []) : Nat × List Call)
      [⟨1, .data [0x1b]⟩, ⟨20, .data [0x5b]⟩] 0).run
        (Consumer.scripted none [] : Consumer Nat Unit).recorded quiet
    ran.2.consumer.2 =
      [.forward 1 (.input [0x1b] []), .forward 6 (.flushed [.function .escape]),
        .forward 20 (.input [0x5b] [.press (.codepoint '[') .none]), .stop 20] := by
  intro ran
  have hreadings : Source.readings 0 [⟨1, .data [0x1b]⟩, ⟨20, .data [0x5b]⟩] =
      ⟨[(1, [0x1b]), (20, [0x5b])], 20, .endOfInput⟩ := by
    rw [Source.readings_of_chunk rfl, Source.readings_of_chunk rfl,
      Source.readings_of_endOfInput rfl]
    rfl
  have hcalls := (run_timeline (Consumer.scripted none [] : Consumer Nat Unit)
    ⟨.ofNanos 2, .ofNanos 5⟩ 0x7f 0 [⟨1, .data [0x1b]⟩, ⟨20, .data [0x5b]⟩] 0
    (fun _ _ _ => rfl) (by decide) (.inl (by decide))).1.2
  rw [hreadings] at hcalls
  rw [hcalls]
  decide +kernel

end Machine

end Keystroke.EventLoop
