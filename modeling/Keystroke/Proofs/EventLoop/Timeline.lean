import Keystroke.Proofs.Decoder.Chunking
import Keystroke.Proofs.EventLoop.Reading
import Keystroke.Proofs.EventLoop.Ticks
import Keystroke.Proofs.Session.Response

/-! # The timeline of a run

The batches of a run that nobody ends from outside, and their instants, in closed
form. Every chunk is handed over at the instant of its read. When the idle flush
comes that may stand between two reads is a parameter: as a rule it falls on the
tick by which the idle time has been exceeded, if that tick comes before the next
read.
-/

namespace Keystroke.EventLoop

open Decoder (Bytes Segment)

/-- The instant of the idle flush between a read at `a` that left bytes pending and the next
read at `b`: the first of the ticks in between that exceeds the threshold, with a whole interval
counted for each. -/
def flushInstant? (config : Session.Config) (start : Nat) (pending : Bytes) (a b : Nat) :
    Option Nat :=
  if pending = [] then none
  else
    (ticks start config.tickInterval.nanos a b)[
      config.idleThreshold.nanos / config.tickInterval.nanos]?

/-- The flush at an instant, if there is one, and the decoder behind it. -/
def flushAt (d : Decoder) : Option Nat → List (Nat × Batch) × Decoder
  | none => ([], d)
  | some instant => ([(instant, .flushed (d.flush.1.map Segment.event))], d.flush.2)

/-- The batches of the chunks that are read and of the idle flushes in between. The instant of a
flush is fixed by the bytes left pending and the instants of the two reads. -/
def timeline (flush? : Bytes → Nat → Nat → Option Nat) (endsAt : Nat) (d : Decoder) :
    List (Nat × Bytes) → List (Nat × Batch)
  | [] => []
  | (instant, bytes) :: chunks =>
    let fed := d.feed bytes
    let flushed := flushAt fed.2 (flush? fed.2.pending instant (nextRead endsAt chunks))
    (instant, .input bytes (fed.1.map Segment.event)) ::
      (flushed.1 ++ timeline flush? endsAt flushed.2 chunks)

/-! ## The chunks in a timeline -/

/-- The chunk of an input batch, with its instant. -/
def input? : Nat × Batch → Option (Nat × Bytes)
  | (instant, .input bytes _) => some (instant, bytes)
  | (_, .flushed _) => none

variable {flush? : Bytes → Nat → Nat → Option Nat} {endsAt : Nat}

theorem filterMap_flushAt (d : Decoder) (instant? : Option Nat) :
    (flushAt d instant?).1.filterMap input? = [] := by
  cases instant? <;> rfl

theorem filterMap_timeline (d : Decoder) (chunks : List (Nat × Bytes)) :
    (timeline flush? endsAt d chunks).filterMap input? = chunks := by
  induction chunks generalizing d with
  | nil => rfl
  | cons chunk chunks ih =>
      rw [timeline, List.filterMap_cons, List.filterMap_append, filterMap_flushAt, ih]
      rfl

/-! ## The keys in a timeline -/

/-- The calls to the decoder behind the batches. -/
def calls (batches : List (Nat × Batch)) : List Decoder.Call :=
  batches.map fun batch => batch.2.call

theorem calls_append (batches others : List (Nat × Batch)) :
    calls (batches ++ others) = calls batches ++ calls others :=
  List.map_append

theorem bytes_calls (batches : List (Nat × Batch)) :
    (calls batches).flatMap Decoder.Call.bytes =
      ((batches.filterMap input?).map Prod.snd).flatten := by
  induction batches with
  | nil => rfl
  | cons batch batches ih =>
      obtain ⟨instant, batch⟩ := batch
      cases batch with
      | input bytes events => exact congrArg (bytes ++ ·) ih
      | flushed events => exact ih

/-- The batches have the keys that their calls decide, and leave the decoder `d'`. -/
structure Decodes (d : Decoder) (batches : List (Nat × Batch)) (d' : Decoder) : Prop where
  events : batches.flatMap (fun batch => batch.2.events) =
    (d.run (calls batches)).1.map Segment.event
  left : (d.run (calls batches)).2 = d'

theorem decodes_nil (d : Decoder) : Decodes d [] d := ⟨rfl, rfl⟩

theorem Decodes.append {batches others : List (Nat × Batch)} {d' d'' : Decoder}
    (h : Decodes d batches d') (hothers : Decodes d' others d'') :
    Decodes d (batches ++ others) d'' := by
  refine ⟨?_, ?_⟩
  · rw [List.flatMap_append, calls_append, Decoder.run_append, List.map_append, h.events,
      hothers.events, h.left]
  · rw [calls_append, Decoder.run_append, h.left]
    exact hothers.left

theorem decodes_input (d : Decoder) (instant : Nat) (bytes : Bytes) :
    Decodes d [(instant, .input bytes ((d.feed bytes).1.map Segment.event))] (d.feed bytes).2 := by
  refine ⟨?_, rfl⟩
  rw [List.flatMap_singleton]
  exact congrArg (List.map Segment.event) (List.append_nil _).symm

theorem decodes_flushAt (d : Decoder) (instant? : Option Nat) :
    Decodes d (flushAt d instant?).1 (flushAt d instant?).2 := by
  cases instant? with
  | none => exact decodes_nil d
  | some instant =>
      refine ⟨?_, rfl⟩
      rw [flushAt, List.flatMap_singleton]
      exact congrArg (List.map Segment.event) (List.append_nil _).symm

/-- Where a chunk is in a timeline: behind the batches of the chunks before it, with its flush
and the batches of the chunks that follow it behind it. -/
theorem timeline_split (d : Decoder) {chunks before after : List (Nat × Bytes)} {instant : Nat}
    {bytes : Bytes} (h : chunks = before ++ (instant, bytes) :: after) :
    ∃ front back held, Decodes d front held ∧ front.filterMap input? = before ∧
      back.filterMap input? = after ∧
      timeline flush? endsAt d chunks =
        front ++ (instant, .input bytes ((held.feed bytes).1.map Segment.event)) ::
          ((flushAt (held.feed bytes).2
            (flush? (held.feed bytes).2.pending instant (nextRead endsAt after))).1 ++ back) := by
  subst h
  induction before generalizing d with
  | nil => exact ⟨[], _, d, decodes_nil d, rfl, filterMap_timeline _ after, rfl⟩
  | cons chunk before ih =>
      let fed := (d.feed chunk.2).2
      let flushed := flushAt fed
        (flush? fed.pending chunk.1 (nextRead endsAt (before ++ (instant, bytes) :: after)))
      obtain ⟨front, back, held, hfront, hbefore, hback, hsplit⟩ := ih flushed.2
      refine ⟨(chunk.1, .input chunk.2 ((d.feed chunk.2).1.map Segment.event)) ::
        (flushed.1 ++ front), back, held, ?_, ?_, hback, ?_⟩
      · exact (decodes_input d chunk.1 chunk.2).append ((decodes_flushAt _ _).append hfront)
      · rw [List.filterMap_cons, List.filterMap_append, filterMap_flushAt, hbefore]
        rfl
      · rw [List.cons_append, timeline, hsplit]
        simp only [flushed, fed, List.cons_append, List.append_assoc]

theorem decodes_timeline (d : Decoder) (chunks : List (Nat × Bytes)) :
    ∃ d', Decodes d (timeline flush? endsAt d chunks) d' := by
  induction chunks generalizing d with
  | nil => exact ⟨d, decodes_nil d⟩
  | cons chunk chunks ih =>
      obtain ⟨d', hd'⟩ := ih _
      exact ⟨d', (decodes_input d chunk.1 chunk.2).append ((decodes_flushAt _ _).append hd')⟩

/-- From one flush to the next the keys are those of the bytes in between. -/
theorem timeline_stretches (backspace : UInt8) (chunks : List (Nat × Bytes)) :
    let batches := timeline flush? endsAt (.new backspace) chunks
    ∃ others last, Decoder.stretches (calls batches) = others ++ [last] ∧
      (others ++ [last]).flatten = (chunks.map Prod.snd).flatten ∧
      batches.flatMap (fun batch => batch.2.events) =
        (others.flatMap fun stretch =>
          ((Decoder.new backspace).run [.feed stretch, .flush]).1.map Segment.event) ++
            ((Decoder.new backspace).feed last).1.map Segment.event := by
  intro batches
  obtain ⟨d', hd'⟩ : ∃ d', Decodes (.new backspace) batches d' := decodes_timeline _ chunks
  obtain ⟨stretch, more, hs⟩ := Decoder.stretches_ne_nil (calls batches)
  have hne : Decoder.stretches (calls batches) ≠ [] := by
    rw [hs]
    exact List.cons_ne_nil stretch more
  obtain ⟨others, last, hlast⟩ : ∃ others last, Decoder.stretches (calls batches) =
      others ++ [last] := ⟨_, _, (List.dropLast_concat_getLast hne).symm⟩
  refine ⟨others, last, hlast, ?_, ?_⟩
  · rw [← hlast, Decoder.stretches_flatten, bytes_calls, filterMap_timeline]
  · rw [hd'.events, ← (Decoder.settled_new backspace).run_wholeCalls (calls batches), hlast,
      Decoder.run_wholeCalls_concat, List.map_append, List.map_flatMap]

end Keystroke.EventLoop
