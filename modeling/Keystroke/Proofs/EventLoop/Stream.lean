import Keystroke.Proofs.Decoder.Pending
import Keystroke.Proofs.EventLoop.Progress

/-! # The decoded stream

The batches that are there for a consumer in a run that nobody ends from outside:
the chunks, each at the instant of its read, and the idle flushes in between. This is
the timeline, but for a threshold that no idle time exceeds. How far a run gets in it
depends on what its consumer answers.
-/

namespace Keystroke.EventLoop

open Decoder (Bytes Segment)

/-- The instant of the idle flush between two reads. Idle time stops at the greatest duration, so
it does not exceed that. -/
def flushBetween? (config : Session.Config) (start : Nat) (pending : Bytes) (a b : Nat) :
    Option Nat :=
  if config.idleThreshold.nanos < Duration.maxNanos then flushInstant? config start pending a b
  else none

/-- The decoded stream of a source that is read from an instant on, up to the end of the input or a
failure. -/
def Source.decoded (config : Session.Config) (backspace : UInt8) (start : Nat) (source : Source) :
    List (Nat × Batch) :=
  timeline (flushBetween? config start) (source.readings start).endsAt (.new backspace)
    (source.readings start).chunks

variable {config : Session.Config} {flush? : Bytes → Nat → Nat → Option Nat} {start endsAt : Nat}
  {d : Decoder}

theorem flushBetween?_of_lt (h : config.idleThreshold.nanos < Duration.maxNanos) :
    flushBetween? config start = flushInstant? config start := by
  funext pending a b
  exact if_pos h

theorem flushBetween?_of_not_lt (h : ¬config.idleThreshold.nanos < Duration.maxNanos) :
    flushBetween? config start = noFlush := by
  funext pending a b
  exact if_neg h

/-! ## What is in it -/

/-- The keys of batches, in order. -/
def keys (batches : List (Nat × Batch)) : List KeyEvent :=
  batches.flatMap fun batch => batch.2.events

/-- A flush in a timeline has the key that the bytes held back are resolved to. -/
theorem flushed_of_mem_timeline {chunks : List (Nat × Bytes)} {instant : Nat}
    {events : List KeyEvent} (h : (instant, .flushed events) ∈ timeline flush? endsAt d chunks) :
    ∃ held, events = Decoder.resolution held := by
  induction chunks generalizing d with
  | nil => cases h
  | cons chunk chunks ih =>
      rw [timeline] at h
      rcases List.mem_cons.1 h with hchunk | hrest
      · cases hchunk
      rcases List.mem_append.1 hrest with hflush | hrest
      · have hsettled := Decoder.settled_feed d chunk.2
        cases hinstant : flush? (d.feed chunk.2).2.pending chunk.1 (nextRead endsAt chunks) with
        | none =>
            rw [hinstant] at hflush
            cases hflush
        | some due =>
            rw [hinstant] at hflush
            cases List.mem_singleton.1 hflush
            exact ⟨_, hsettled.flush_events⟩
      · exact ih hrest

/-- A batch with a key that nothing held back is resolved to is one of a chunk. -/
theorem input_of_mem_timeline {chunks : List (Nat × Bytes)} {key : KeyEvent}
    (hheld : ∀ held, key ∉ Decoder.resolution held) {instant : Nat} {batch : Batch}
    (h : (instant, batch) ∈ timeline flush? endsAt d chunks) (hkey : key ∈ batch.events) :
    ∃ bytes events, batch = .input bytes events := by
  cases batch with
  | input bytes events => exact ⟨bytes, events, rfl⟩
  | flushed events =>
      obtain ⟨held, rfl⟩ := flushed_of_mem_timeline h
      exact absurd hkey (hheld held)

/-! ## What a run makes of it -/

namespace Machine

variable {σ ε : Type}

/-- A run hands over the batches of the decoded stream. -/
theorem delivered_decoded (consumer : Consumer σ ε) {config : Session.Config}
    (hp : 0 < config.tickInterval.nanos) (backspace : UInt8) (state : σ) (source : Source)
    (start : Nat) :
    Delivered ((fresh config backspace state source start).run consumer quiet)
      (deliver consumer (source.readings start).endsAt (source.readings start).reason state
        (source.decoded config backspace start)) := by
  by_cases hrange : config.idleThreshold.nanos < Duration.maxNanos
  · rw [Source.decoded, flushBetween?_of_lt hrange]
    exact delivered_run hp backspace state (.inl hrange)
  rw [Source.decoded, flushBetween?_of_not_lt hrange]
  let m := fresh config backspace state source start
  have hm : m.Running := running_fresh config backspace state source start
  have hmax : config.idleThreshold.nanos = Duration.maxNanos :=
    Nat.le_antisymm config.idleThreshold.nanos_le (Nat.le_of_not_lt hrange)
  have hprompt : Prompt m := ⟨hm, hp, Nat.zero_le _, .inr hmax⟩
  have hforesees := hprompt.run consumer quiet
  have hreturned : (m.run consumer quiet).1 ≠ .dropped := run_ne_dropped consumer m rfl
  have hagrees := hm.run_agrees consumer quiet
  change Delivered (m.run consumer quiet) (m.outlook consumer none)
  generalize m.run consumer quiet = ran at hforesees hreturned hagrees ⊢
  obtain ⟨outcome, behind⟩ := ran
  cases hforesees with
  | dropped _ _ => exact absurd rfl hreturned
  | returned hresult =>
      rw [show m.outlook consumer none = _ from hresult]
      exact ⟨rfl, rfl, hagrees.stopped_of_returned⟩

end Machine

/-! ## Consumers that answer by the batch -/

open Machine (Keeps)

variable {σ ε : Type} {consumer : Consumer σ ε} {P : σ × List Call → Prop} {flow : Batch → Flow}

/-- In states with a property the consumer fails at no batch, and goes on or quits by the batch. -/
structure AnswersBy (consumer : Consumer σ ε) (P : σ × List Call → Prop) (flow : Batch → Flow) :
    Prop where
  keeps : Keeps consumer.recorded P
  answer : ∀ instant batch state, P state →
    (consumer.recorded.forward instant batch state).1 = .ok (flow batch)

theorem AnswersBy.forward_eq (h : AnswersBy consumer P flow) (instant : Nat) (batch : Batch)
    {state : σ × List Call} (hstate : P state) :
    consumer.recorded.forward instant batch state =
      (.ok (flow batch), (consumer.forward instant batch state.1).2,
        state.2 ++ [.forward instant batch]) :=
  Prod.ext (h.answer instant batch state hstate) rfl

/-- Without a batch to quit at, the session ends on its own. -/
theorem AnswersBy.deliver_of_proceed (h : AnswersBy consumer P flow) {endsAt : Nat}
    {reason : ShutdownReason} {batches : List (Nat × Batch)} {state : σ × List Call}
    (hstate : P state) (hflow : ∀ batch ∈ batches, flow batch.2 = .proceed) :
    (deliver consumer.recorded endsAt reason state batches).1 = .ok reason := by
  induction batches generalizing state with
  | nil => rfl
  | cons batch batches ih =>
      rw [List.forall_mem_cons] at hflow
      have hforward := h.forward_eq batch.1 batch.2 hstate
      rw [deliver, hforward, hflow.1]
      exact ih (h.keeps.of_forward hforward hstate) hflow.2

/-- The first batch to quit at is the last that is handed over. -/
theorem AnswersBy.deliver_of_quit (h : AnswersBy consumer P flow) {endsAt instant : Nat}
    {reason : ShutdownReason} {front back : List (Nat × Batch)} {batch : Batch}
    {state : σ × List Call} (hstate : P state) (hfront : ∀ batch ∈ front, flow batch.2 = .proceed)
    (hquit : flow batch = .quit) :
    let delivered :=
      deliver consumer.recorded endsAt reason state (front ++ (instant, batch) :: back)
    delivered.1 = .ok .consumerQuit ∧
      delivered.2.2 = state.2 ++ (handed (front ++ [(instant, batch)]) ++ [.stop instant]) := by
  induction front generalizing state with
  | nil =>
      rw [List.nil_append, deliver, h.forward_eq instant batch hstate, hquit]
      exact ⟨rfl, List.append_assoc _ _ _⟩
  | cons first front ih =>
      rw [List.forall_mem_cons] at hfront
      have hforward := h.forward_eq first.1 first.2 hstate
      rw [List.cons_append, deliver, hforward, hfront.1]
      obtain ⟨hanswer, hcalls⟩ := ih (h.keeps.of_forward hforward hstate) hfront.2
      refine ⟨hanswer, ?_⟩
      dsimp only
      rw [hcalls, List.append_assoc]
      rfl

end Keystroke.EventLoop
