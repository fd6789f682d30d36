import Keystroke.Proofs.EventLoop.Waiting

/-! # Idle time

How long bytes are held back, in clock time. Idle time is counted in whole
intervals, and the first tick behind a read counts for one however soon it
comes. So a threshold that is no multiple of the interval is exceeded early.
-/

namespace Keystroke.EventLoop

open Decoder (Bytes Segment)

variable {config : Session.Config} {flush? : Bytes → Nat → Nat → Option Nat}
  {start endsAt a b i : Nat} {d : Decoder}

/-! ## Flushes in a timeline -/

theorem le_of_flushInstant? (hp : 0 < config.tickInterval.nanos) {pending : Bytes}
    (h : flushInstant? config start pending a b = some i) :
    a + config.idleThreshold.nanos / config.tickInterval.nanos * config.tickInterval.nanos ≤ i ∧
      i < b := by
  unfold flushInstant? at h
  split at h
  · cases h
  · exact le_of_ticks_getElem? hp h

theorem timeline_head {instant : Nat} {batch : Batch} {batches : List (Nat × Batch)}
    {chunks : List (Nat × Bytes)}
    (h : timeline flush? endsAt d chunks = (instant, batch) :: batches) :
    instant = nextRead endsAt chunks ∧ ∃ bytes events, batch = .input bytes events := by
  cases chunks with
  | nil => cases h
  | cons chunk chunks =>
      rw [timeline, List.cons.injEq] at h
      cases h.1
      exact ⟨rfl, _, _, rfl⟩

/-- The flush behind an input batch is the idle flush of its chunk. What follows is the next
read. -/
theorem flush_of_timeline {chunks : List (Nat × Bytes)} {front back : List (Nat × Batch)}
    {bytes : Bytes} {events keys : List KeyEvent}
    (h : timeline flush? endsAt d chunks =
      front ++ (a, .input bytes events) :: (i, .flushed keys) :: back) :
    ∃ held d' after, flush? held a (nextRead endsAt after) = some i ∧
      back = timeline flush? endsAt d' after := by
  induction chunks generalizing d front with
  | nil => exact absurd h.symm (List.append_ne_nil_of_right_ne_nil front (List.cons_ne_nil _ _))
  | cons chunk chunks ih =>
      rw [timeline] at h
      cases hinstant : flush? (d.feed chunk.2).2.pending chunk.1 (nextRead endsAt chunks) with
      | none =>
          rw [hinstant] at h
          cases front with
          | nil =>
              obtain ⟨_, bytes, events, hbatch⟩ := timeline_head (List.cons.inj h).2
              cases hbatch
          | cons batch front => exact ih (List.cons.inj h).2
      | some instant =>
          rw [hinstant] at h
          cases front with
          | nil =>
              obtain ⟨hhead, htail⟩ := List.cons.inj h
              obtain ⟨hflush, hback⟩ := List.cons.inj htail
              cases hhead
              cases hflush
              exact ⟨_, _, chunks, hinstant, hback.symm⟩
          | cons batch front =>
              have htail := (List.cons.inj h).2
              cases front with
              | nil => cases (List.cons.inj htail).1
              | cons flush front => exact ih (List.cons.inj htail).2

/-- Between a chunk and its flush there are at least as many intervals as fit in the threshold,
and the next chunk is read behind the flush. -/
theorem flush_between (hp : 0 < config.tickInterval.nanos) {chunks : List (Nat × Bytes)}
    {front back : List (Nat × Batch)} {bytes : Bytes} {events keys : List KeyEvent} {batch : Batch}
    (h : timeline (flushInstant? config start) endsAt d chunks =
      front ++ (a, .input bytes events) :: (i, .flushed keys) :: (b, batch) :: back) :
    a + config.idleThreshold.nanos / config.tickInterval.nanos * config.tickInterval.nanos ≤ i ∧
      i < b := by
  obtain ⟨held, d', after, hinstant, hback⟩ := flush_of_timeline h
  rw [(timeline_head hback.symm).1]
  exact le_of_flushInstant? hp hinstant

/-! ## The law -/

namespace Machine

/-- What is read within the threshold behind a chunk continues it: where a flush comes between
two chunks, the second is read later than that. -/
def MergesInTime (config : Session.Config) : Prop :=
  ∀ (σ ε : Type) (consumer : Consumer σ ε) (backspace : UInt8) (state : σ) (source : Source)
    (start a i b : Nat) (bytes : Bytes) (events keys : List KeyEvent) (batch : Batch)
    (front back : List Call),
    ((fresh config backspace (state, []) source start).run consumer.recorded quiet).2.consumer.2 =
      front ++ .forward a (.input bytes events) :: .forward i (.flushed keys) ::
        .forward b batch :: back →
    a + config.idleThreshold.nanos < b

/-- The batch that a call hands over. -/
def forwarded? : Call → Option (Nat × Batch)
  | .forward instant batch => some (instant, batch)
  | .stop _ => none

theorem filterMap_forwarded (batches : List (Nat × Batch)) :
    (batches.map fun batch => Call.forward batch.1 batch.2).filterMap forwarded? = batches := by
  rw [List.filterMap_map]
  exact List.filterMap_some

theorem mergesInTime_of_dvd (hp : 0 < config.tickInterval.nanos)
    (hth : config.idleThreshold.nanos < Duration.maxNanos)
    (hdvd : config.tickInterval.nanos ∣ config.idleThreshold.nanos) : MergesInTime config := by
  intro σ ε consumer backspace state source start a i b bytes events keys batch front back h
  have hdelivered : Delivered
      ((fresh config backspace (state, []) source start).run consumer.recorded quiet) _ :=
    delivered_run hp backspace (state, []) (.inl hth)
  obtain ⟨given, last, ⟨rest, hgiven⟩, hcalls⟩ := deliver_recorded_prefix consumer
    (source.readings start).endsAt (source.readings start).reason (state, [])
    (timeline (flushInstant? config start) (source.readings start).endsAt (.new backspace)
      (source.readings start).chunks)
  -- The consumer was given a part of the timeline, and that is what the calls show.
  have hpart : given = front.filterMap forwarded? ++
      (a, .input bytes events) :: (i, .flushed keys) :: (b, batch) ::
        back.filterMap forwarded? := by
    rw [hdelivered.consumer, hcalls, List.nil_append] at h
    have hforwarded := congrArg (List.filterMap forwarded?) h
    rw [List.filterMap_append, filterMap_forwarded, List.filterMap_append] at hforwarded
    exact (List.append_nil given).symm.trans hforwarded
  rw [hpart, List.append_assoc] at hgiven
  have hbetween := flush_between hp hgiven.symm
  rw [Nat.div_mul_cancel hdvd] at hbetween
  omega

/-- An escape, its flush, and the two characters that come behind it. -/
theorem run_escape_bracket (hp : 0 < config.tickInterval.nanos)
    (hth : config.idleThreshold.nanos < Duration.maxNanos) {tick : Nat}
    (htick : FirstTick 0 config.tickInterval.nanos a tick) (hab : a ≤ b)
    (hi : i = tick +
      config.idleThreshold.nanos / config.tickInterval.nanos * config.tickInterval.nanos)
    (hib : i < b) :
    ((fresh config 0x7f ((0, []) : Nat × List Call)
      [⟨a, .data [0x1b]⟩, ⟨b, .data [0x5b, 0x41]⟩] 0).run
        (Consumer.scripted none [] : Consumer Nat Unit).recorded quiet).2.consumer.2 =
      [.forward a (.input [0x1b] []), .forward i (.flushed [.function .escape]),
        .forward b (.input [0x5b, 0x41]
          [.press (.codepoint '[') .none, .press (.codepoint 'A') .none]), .stop b] := by
  have hreadings : Source.readings 0 [⟨a, .data [0x1b]⟩, ⟨b, .data [0x5b, 0x41]⟩] =
      ⟨[(a, [0x1b]), (b, [0x5b, 0x41])], b, .endOfInput⟩ := by
    rw [Source.readings_of_chunk rfl, Source.readings_of_chunk rfl,
      Source.readings_of_endOfInput rfl]
    simp only [Source.readyAt, Nat.zero_max, Nat.max_eq_right hab]
    rfl
  have hescape : (Decoder.new 0x7f).feed [0x1b] = ([], ⟨0x7f, [0x1b]⟩) := by decide +kernel
  have hflush : (⟨0x7f, [0x1b]⟩ : Decoder).flush =
      ([⟨[0x1b], .function .escape, false⟩], .new 0x7f) := by decide +kernel
  have hbracket : (Decoder.new 0x7f).feed [0x5b, 0x41] =
      ([⟨[0x5b], .press (.codepoint '[') .none, false⟩,
        ⟨[0x41], .press (.codepoint 'A') .none, false⟩], .new 0x7f) := by decide +kernel
  have hinstant : flushInstant? config 0 [0x1b] a b = some i := by
    rw [flushInstant?, if_neg (List.cons_ne_nil _ _), ticks_getElem? hp htick, ← hi, if_pos hib]
  have htimeline :
      timeline (flushInstant? config 0) b (.new 0x7f) [(a, [0x1b]), (b, [0x5b, 0x41])] =
        [(a, .input [0x1b] []), (i, .flushed [.function .escape]),
          (b, .input [0x5b, 0x41]
            [.press (.codepoint '[') .none, .press (.codepoint 'A') .none])] := by
    rw [timeline, hescape]
    dsimp only [nextRead]
    rw [hinstant, flushAt, hflush, timeline, hbracket]
    rfl
  have hran := run_of_proceeds (Consumer.scripted none [] : Consumer Nat Unit)
    (fun _ _ _ => rfl) hp 0x7f 0 [⟨a, .data [0x1b]⟩, ⟨b, .data [0x5b, 0x41]⟩] 0 (.inl hth)
  rw [hran.2, hreadings, htimeline]
  rfl

/-- The law holds for exactly the thresholds that are multiples of the tick interval. -/
theorem mergesInTime_iff (hp : 0 < config.tickInterval.nanos)
    (hth : config.idleThreshold.nanos < Duration.maxNanos) :
    MergesInTime config ↔ config.tickInterval.nanos ∣ config.idleThreshold.nanos := by
  refine ⟨fun hmerges => ?_, mergesInTime_of_dvd hp hth⟩
  by_cases hdvd : config.tickInterval.nanos ∣ config.idleThreshold.nanos
  · exact hdvd
  -- An escape read together with a tick is flushed before the threshold has passed.
  exfalso
  have hle := Nat.div_mul_le_self config.idleThreshold.nanos config.tickInterval.nanos
  have hne : config.idleThreshold.nanos / config.tickInterval.nanos *
      config.tickInterval.nanos ≠ config.idleThreshold.nanos :=
    fun heq => hdvd ⟨_, (Nat.mul_comm _ _).trans heq |>.symm⟩
  have htick : FirstTick 0 config.tickInterval.nanos config.tickInterval.nanos
      config.tickInterval.nanos :=
    ⟨Nat.le_refl _, ⟨0, by omega⟩, .inl (Nat.zero_add _).symm⟩
  have hcalls := run_escape_bracket (b := config.tickInterval.nanos + config.idleThreshold.nanos)
    hp hth htick (Nat.le_add_right _ _) rfl (by omega)
  have hlt := hmerges Nat Unit _ _ _ _ _ _ _ _ _ _ _ _ [] [.stop _] hcalls
  omega

theorem mergesInTime_standard : MergesInTime Session.Config.standard :=
  (mergesInTime_iff (by decide) (by decide)).2 (by decide)

/-- With ticks every 25 ms and a threshold of 30 ms, an escape read at 24 ms is flushed at 50 ms,
and the rest of a cursor key read at 51 ms is no longer merged with it. -/
theorem run_cursorKey_flushed_early :
    let config : Session.Config := ⟨.ofMillis 25, .ofMillis 30⟩
    ((fresh config 0x7f ((0, []) : Nat × List Call)
      [⟨24000000, .data [0x1b]⟩, ⟨51000000, .data [0x5b, 0x41]⟩] 0).run
        (Consumer.scripted none [] : Consumer Nat Unit).recorded quiet).2.consumer.2 =
      [.forward 24000000 (.input [0x1b] []), .forward 50000000 (.flushed [.function .escape]),
        .forward 51000000 (.input [0x5b, 0x41]
          [.press (.codepoint '[') .none, .press (.codepoint 'A') .none]), .stop 51000000] ∧
      51000000 - 24000000 ≤ config.idleThreshold.nanos ∧ ¬ MergesInTime config := by
  intro config
  have htick : FirstTick 0 config.tickInterval.nanos 24000000 25000000 :=
    ⟨by decide, ⟨0, by decide⟩, .inl (by decide)⟩
  have hcalls := run_escape_bracket (b := 51000000) (i := 50000000) (by decide) (by decide) htick
    (by decide) (by decide) (by decide)
  refine ⟨hcalls, by decide, fun hmerges => ?_⟩
  have hlt := hmerges Nat Unit _ _ _ _ _ _ _ _ _ _ _ _ [] [.stop _] hcalls
  exact absurd hlt (by decide)

end Machine

end Keystroke.EventLoop
