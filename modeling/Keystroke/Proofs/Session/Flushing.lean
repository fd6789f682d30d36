import Keystroke.Proofs.Decoder.Pending
import Keystroke.Proofs.Session.Run
import Mathlib.Algebra.GroupWithZero.Nat

/-! # Flushes of a session

Between two chunks of input there is one idle flush at most. It comes with the
first tick by which the time since the chunk exceeds the threshold, if bytes are
held back. So how the time is cut into ticks does not matter, only its total does.
-/

namespace Keystroke

open Decoder (Bytes Segment)

/-- What the durations add up to, or the greatest duration. -/
def Duration.total (durations : List Duration) : Duration :=
  .ofNanos (durations.map Duration.nanos).sum

namespace Duration

theorem ofNanos_eq_iff {n m : Nat} : ofNanos n = ofNanos m ↔ min n maxNanos = min m maxNanos := by
  rw [ofNanos, ofNanos, mk.injEq]

theorem total_singleton (d : Duration) : total [d] = d := by
  have hd := d.nanos_le
  cases d with
  | mk nanos nanos_le =>
      simp only [total, List.map_cons, List.map_nil, List.sum_cons, List.sum_nil, Nat.add_zero,
        ofNanos, mk.injEq]
      exact Nat.min_eq_left hd

theorem total_add_cons (d e : Duration) (others : List Duration) :
    total (d.add e :: others) = total (d :: e :: others) := by
  simp only [total, List.map_cons, List.sum_cons, ofNanos_eq_iff, nanos_add]
  omega

theorem total_zero_cons (durations : List Duration) :
    total (zero :: durations) = total durations := by
  rw [total, List.map_cons, List.sum_cons]
  exact congrArg ofNanos (Nat.zero_add _)

theorem total_concat (durations : List Duration) (d : Duration) :
    total (durations ++ [d]) = (total durations).add d := by
  simp only [total, List.map_append, List.map_cons, List.map_nil, List.sum_append, List.sum_cons,
    List.sum_nil, add, ofNanos_eq_iff, nanos_ofNanos]
  omega

theorem le_total_cons (d : Duration) (others : List Duration) :
    d.nanos ≤ (total (d :: others)).nanos := by
  have hd := d.nanos_le
  simp only [total, List.map_cons, List.sum_cons, nanos_ofNanos]
  omega

end Duration

namespace Session

open Duration (total)

variable {s : Session}

/-- The batch of an idle flush; there is none if nothing is held back. -/
def idleBatches (d : Decoder) : List Batch :=
  if d.pending = [] then [] else [.flushed (d.flush.1.map Segment.event)]

/-! ## One tick -/

theorem handleTick_of_lt {elapsed : Duration}
    (h : s.config.idleThreshold.nanos < (s.idle.add elapsed).nanos) :
    (s.handleTick elapsed).session = { s with decoder := s.decoder.flush.2, idle := .zero } ∧
      (s.handleTick elapsed).actions = (idleBatches s.decoder).map .forward := by
  by_cases hd : s.decoder.pending = []
  · rw [handleTick_of_nothing hd h, idleBatches, if_pos hd, Decoder.flush_of_nothing hd]
    exact ⟨rfl, rfl⟩
  · rw [handleTick_of_held hd h, idleBatches, if_neg hd]
    exact ⟨rfl, rfl⟩

theorem actions_tick (ha : s.phase = .active) (elapsed : Duration) :
    (s.handle (.tick elapsed)).actions =
      if s.config.idleThreshold.nanos < (s.idle.add elapsed).nanos then
        (idleBatches s.decoder).map .forward
      else [] := by
  rw [handle_tick ha]
  split
  · rename_i h
    exact (handleTick_of_lt h).2
  · rename_i h
    rw [handleTick_of_le (Nat.le_of_not_lt h)]
    rfl

/-! ## Ticks between chunks -/

/-- Up to the threshold the session waits. -/
theorem after_ticks_of_le (ha : s.phase = .active) {elapsed : List Duration}
    (h : (total (s.idle :: elapsed)).nanos ≤ s.config.idleThreshold.nanos) :
    s.after (elapsed.map .tick) = { s with idle := total (s.idle :: elapsed) } ∧
      s.batches (elapsed.map .tick) = [] := by
  induction elapsed generalizing s with
  | nil =>
      rw [Duration.total_singleton]
      exact ⟨rfl, rfl⟩
  | cons d elapsed ih =>
      rw [← Duration.total_add_cons] at h ⊢
      have hle := Nat.le_trans (Duration.le_total_cons _ elapsed) h
      have hhandle : s.handle (.tick d) = noResponse { s with idle := s.idle.add d } := by
        rw [handle_tick ha, handleTick_of_le hle]
      rw [List.map_cons, after, batches_cons, hhandle]
      exact ih (s := { s with idle := s.idle.add d }) ha h

/-- With nothing held back, time changes the idle time only. -/
theorem after_ticks_of_nothing (ha : s.phase = .active) (hd : s.decoder.pending = [])
    (elapsed : List Duration) :
    (s.after (elapsed.map .tick)).decoder = s.decoder ∧ s.batches (elapsed.map .tick) = [] := by
  induction elapsed generalizing s with
  | nil => exact ⟨rfl, rfl⟩
  | cons d elapsed ih =>
      rw [List.map_cons, after, batches_cons, handle_tick ha]
      by_cases hle : (s.idle.add d).nanos ≤ s.config.idleThreshold.nanos
      · rw [handleTick_of_le hle]
        exact ih (s := { s with idle := s.idle.add d }) ha hd
      · rw [handleTick_of_nothing hd (Nat.lt_of_not_le hle)]
        exact ih (s := { s with idle := .zero }) ha hd

/-- Beyond the threshold the session has flushed what was held back, once. -/
theorem after_ticks_of_lt (ha : s.phase = .active)
    (hidle : s.idle.nanos ≤ s.config.idleThreshold.nanos) {elapsed : List Duration}
    (h : s.config.idleThreshold.nanos < (total (s.idle :: elapsed)).nanos) :
    (s.after (elapsed.map .tick)).decoder = s.decoder.flush.2 ∧
      s.batches (elapsed.map .tick) = idleBatches s.decoder := by
  induction elapsed generalizing s with
  | nil =>
      rw [Duration.total_singleton] at h
      omega
  | cons d elapsed ih =>
      rw [List.map_cons, after, batches_cons, handle_tick ha]
      by_cases hle : (s.idle.add d).nanos ≤ s.config.idleThreshold.nanos
      · rw [← Duration.total_add_cons] at h
        rw [handleTick_of_le hle]
        exact ih (s := { s with idle := s.idle.add d }) ha hle h
      · obtain ⟨hsession, hactions⟩ := handleTick_of_lt (Nat.lt_of_not_le hle)
        have hnothing := after_ticks_of_nothing
          (s := { s with decoder := s.decoder.flush.2, idle := .zero }) ha
          (Decoder.pending_flush s.decoder) elapsed
        rw [hsession, hactions, hnothing.1, hnothing.2, List.append_nil, List.filterMap_map]
        exact ⟨rfl, List.filterMap_some⟩

/-- The batches between two chunks depend on the time between them only. -/
theorem batches_ticks (ha : s.phase = .active) (hidle : s.idle = .zero) (elapsed : List Duration) :
    s.batches (elapsed.map .tick) =
      if s.config.idleThreshold.nanos < (total elapsed).nanos then idleBatches s.decoder
      else [] := by
  rw [← Duration.total_zero_cons, ← hidle]
  split
  · rename_i h
    exact (after_ticks_of_lt ha (by rw [hidle]; exact Nat.zero_le _) h).2
  · rename_i h
    exact (after_ticks_of_le ha (Nat.le_of_not_lt h)).2

/-- The first tick by which the time since a chunk exceeds the threshold flushes, and no other
does. -/
theorem actions_after_ticks (ha : s.phase = .active) (hidle : s.idle = .zero)
    (earlier : List Duration) (d : Duration) :
    ((s.after (earlier.map .tick)).handle (.tick d)).actions =
      if (total earlier).nanos ≤ s.config.idleThreshold.nanos ∧
          s.config.idleThreshold.nanos < (total (earlier ++ [d])).nanos then
        (idleBatches s.decoder).map .forward
      else [] := by
  have hactive : (s.after (earlier.map .tick)).phase = .active :=
    phase_after ha (List.forall_mem_map.2 fun _ _ => rfl)
  rw [actions_tick hactive, config_after]
  by_cases hle : (total earlier).nanos ≤ s.config.idleThreshold.nanos
  · have hwaits : (total (s.idle :: earlier)).nanos ≤ s.config.idleThreshold.nanos := by
      rwa [hidle, Duration.total_zero_cons]
    rw [(after_ticks_of_le ha hwaits).1, hidle, Duration.total_zero_cons, Duration.total_concat]
    simp only [hle, true_and]
  · -- The flush is over, and nothing is held back any more.
    have hflushed := after_ticks_of_lt ha (by rw [hidle]; exact Nat.zero_le _)
      (by rw [hidle, Duration.total_zero_cons]; exact Nat.lt_of_not_le hle)
    have hnone : idleBatches s.decoder.flush.2 = [] := if_pos (Decoder.pending_flush s.decoder)
    rw [hflushed.1, hnone, List.map_nil, ite_self, if_neg (fun h => hle h.1)]

/-! ## Runs -/

theorem settled_handle (h : s.decoder.Settled) (stimulus : Stimulus) :
    (s.handle stimulus).session.decoder.Settled := by
  cases answer_handle s stimulus with
  | nothing _ hresponse =>
      rw [hresponse]
      exact h
  | ends _ _ _ hsession =>
      rw [hsession]
      exact h
  | hands batch _ _ _ _ _ hsession =>
      rw [hsession]
      exact Decoder.settled_answer s.decoder batch.call
  | waits _ _ _ _ _ hsession =>
      rw [hsession]
      exact h

theorem idleBatches_of_settled {d : Decoder} (h : d.Settled) :
    idleBatches d = if d.pending = [] then [] else [.flushed (Decoder.resolution d.pending)] := by
  rw [idleBatches, h.flush_events]

/-- An idle flush hands over one key. -/
theorem length_of_flushed (h : s.decoder.Settled) {stimuli : List Stimulus}
    {events : List KeyEvent} (hmem : .flushed events ∈ s.batches stimuli) :
    events.length = 1 := by
  induction stimuli generalizing s with
  | nil => cases hmem
  | cons stimulus stimuli ih =>
      rw [batches_cons] at hmem
      rcases List.mem_append.1 hmem with hmem | hmem
      · cases answer_handle s stimulus with
        | nothing _ hresponse =>
            rw [hresponse] at hmem
            cases hmem
        | ends _ _ hactions _ =>
            rw [hactions] at hmem
            cases hmem
        | waits _ _ _ _ hactions _ =>
            rw [hactions] at hmem
            cases hmem
        | hands batch _ _ hheld hevents hactions _ =>
            rw [hactions] at hmem
            obtain rfl : .flushed events = batch := List.mem_singleton.1 hmem
            change events = s.decoder.flush.1.map Segment.event at hevents
            rw [hevents, h.flush_events, Decoder.resolution_length (hheld rfl)]
      · exact ih (settled_handle h stimulus) hmem

/-- In a session that was told of input and ticks, the idle time does not exceed the threshold,
and every idle flush hands over one key. Behind a chunk, the only flush comes with the first
tick by which the time since the chunk exceeds the threshold, if bytes are held back; it hands
over the key that they resolve to. The batches up to the next chunk are the same for any ticks
with the same total, where time stops at the greatest duration. -/
theorem flush_timing (config : Config) (backspace : UInt8) (history : List Stimulus)
    (h : ∀ stimulus ∈ history, stimulus.reason? = none) :
    let s := (new config backspace).after history
    s.idle.nanos ≤ config.idleThreshold.nanos ∧
    (∀ events, .flushed events ∈ (new config backspace).batches history → events.length = 1) ∧
    ∀ bytes : Bytes,
      let fed := s.after [.input bytes]
      let held := fed.decoder.pending
      (held ≠ [] → (Decoder.resolution held).length = 1) ∧
      (∀ (earlier : List Duration) (d : Duration),
        ((fed.after (earlier.map .tick)).handle (.tick d)).actions =
          if held ≠ [] ∧ (total earlier).nanos ≤ config.idleThreshold.nanos ∧
              config.idleThreshold.nanos < (total (earlier ++ [d])).nanos then
            [.forward (.flushed (Decoder.resolution held))]
          else []) ∧
      ∀ elapsed others : List Duration, total elapsed = total others →
        fed.batches (elapsed.map .tick) = fed.batches (others.map .tick) := by
  intro s
  have hactive : s.phase = .active := phase_after rfl h
  have hconfig : s.config = config := config_after (new config backspace) history
  refine ⟨idle_after (new config backspace) history (Nat.zero_le _),
    fun events => length_of_flushed (Decoder.settled_new backspace), ?_⟩
  intro bytes fed held
  have hfed : fed = { s with decoder := (s.decoder.feed bytes).2, idle := .zero } :=
    congrArg Response.session (handle_input hactive bytes)
  have hfedActive : fed.phase = .active := by rw [hfed, hactive]
  have hidle : fed.idle = .zero := by rw [hfed]
  have hfedConfig : fed.config = config := by rw [hfed, hconfig]
  have hsettled : fed.decoder.Settled := by
    rw [hfed]
    exact Decoder.settled_feed s.decoder bytes
  refine ⟨Decoder.resolution_length, ?_, ?_⟩
  · intro earlier d
    rw [actions_after_ticks hfedActive hidle, hfedConfig, idleBatches_of_settled hsettled]
    by_cases hheld : held = []
    · rw [if_pos hheld, List.map_nil, ite_self, if_neg (fun hand => hand.1 hheld)]
    · rw [if_neg hheld]
      simp only [ne_eq, hheld, not_false_eq_true, true_and]
      rfl
  · intro elapsed others htotal
    rw [batches_ticks hfedActive hidle, batches_ticks hfedActive hidle, htotal]

/-- An escape is flushed by the nanosecond that exceeds the threshold, whatever came before it. -/
theorem flush_of_escape :
    let history : List Stimulus := [.input [0x61], .tick (.ofMillis 30)]
    let fed := ((new .standard 0x7f).after history).after [.input [0x1b]]
    let earlier : List Duration := [.ofMillis 25, .zero, .ofMillis 25]
    (∀ stimulus ∈ history, stimulus.reason? = none) ∧
      ((fed.after (earlier.map .tick)).handle (.tick (.ofNanos 1))).actions =
        [.forward (.flushed [.function .escape])] := by
  intro history fed earlier
  have hhistory : ∀ stimulus ∈ history, stimulus.reason? = none := by decide
  have hheld : fed.decoder.pending = [0x1b] := by decide +kernel
  have hactions := ((flush_timing .standard 0x7f history hhistory).2.2 [0x1b]).2.1 earlier
    (.ofNanos 1)
  rw [hheld, if_pos (by decide)] at hactions
  exact ⟨hhistory, hactions⟩

end Session

end Keystroke
