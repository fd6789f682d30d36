import Keystroke.Proofs.Session.Flushing
import Keystroke.Proofs.Session.Lifecycle

/-! # Discarded bytes

What the log says of invalid input. A batch of input comes with a record of each
invalid key in it. A flush decides one key, and all that was held back goes to it; it
is noted, behind a record of the bytes if they are invalid. So the log has the bytes of
every invalid key, in order, and no others.
-/

namespace Keystroke

open Decoder (Bytes Segment Provenance decodeOne resolution scan)
open Log (Record)

/-- The bytes that a record says are discarded. -/
def Log.Record.discarded? : Log.Record → Option Bytes
  | undecodable bytes => some bytes
  | truncated bytes => some bytes
  | _ => none

/-- The number of keys that a record says an idle flush has decided. -/
def Log.Record.flushed? : Log.Record → Option Nat
  | idleFlush count => some count
  | _ => none

def Batch.isFlushed : Batch → Bool
  | input _ _ => false
  | flushed _ => true

namespace Decoder

/-- The segments that are no key. -/
def discards (segments : List Segment) : List Segment :=
  segments.filter (·.event.isInvalid)

/-- Before the end of the input nothing is given up. -/
theorem truncated_of_mem_scan {backspace : UInt8} {input : Bytes} {segment : Segment}
    (h : segment ∈ (scan backspace false input).1) : segment.truncated = false := by
  induction input using scan_induction backspace with
  | key input event used hstep ih =>
      rw [scan_of_key hstep] at h
      rcases List.mem_cons.1 h with rfl | h
      · rfl
      · exact ih h
  | incomplete input hstep =>
      rw [scan_of_incomplete hstep] at h
      cases h

end Decoder

open Decoder (discards)

namespace Session

/-- What is logged in answer to the stimuli. -/
def records (s : Session) (stimuli : List Stimulus) : List Record :=
  (s.responses stimuli).flatMap Response.records

variable {s : Session} {stimulus : Stimulus}

theorem records_cons (s : Session) (stimulus : Stimulus) (stimuli : List Stimulus) :
    s.records (stimulus :: stimuli) =
      (s.handle stimulus).records ++ (s.handle stimulus).session.records stimuli := rfl

/-! ## One answer -/

/-- What a session logs with its answer to a stimulus. -/
inductive Notes (s : Session) (stimulus : Stimulus) (response : Response) : Prop
  | fed (bytes : Bytes) :
      stimulus = .input bytes →
      response.actions = [.forward (.input bytes ((s.decoder.feed bytes).1.map Segment.event))] →
      response.records = (discards (s.decoder.feed bytes).1).map (.undecodable ·.bytes) →
      Notes s stimulus response
  | flushed (elapsed : Duration) (event : KeyEvent) :
      stimulus = .tick elapsed →
      s.decoder.flush.1 = [⟨s.decoder.pending, event, event.isInvalid⟩] →
      response.actions = [.forward (.flushed [event])] →
      response.records =
        (if event.isInvalid then [.truncated s.decoder.pending] else []) ++ [.idleFlush 1] →
      Notes s stimulus response
  | silent :
      response.actions.filterMap Action.batch? = [] →
      (∀ record ∈ response.records, record.discarded? = none ∧ record.flushed? = none) →
      Notes s stimulus response

theorem records_of_whole {segments : List Segment}
    (h : ∀ segment ∈ segments, segment.truncated = false) :
    segments.filterMap discardRecord? = (discards segments).map (.undecodable ·.bytes) := by
  induction segments with
  | nil => rfl
  | cons segment segments ih =>
      rw [List.forall_mem_cons] at h
      rw [List.filterMap_cons, ih h.2]
      cases hinvalid : segment.event.isInvalid <;> simp [discardRecord?, discards, hinvalid, h.1]

theorem notes_flush (h : s.decoder.Settled) (hd : s.decoder.pending ≠ []) {elapsed : Duration}
    (hlt : s.config.idleThreshold.nanos < (s.idle.add elapsed).nanos) :
    Notes s (.tick elapsed) (s.handleTick elapsed) := by
  -- The decoder is settled, so what is held back resolves to one key, with all of its bytes.
  obtain ⟨event, hevent⟩ := Decoder.exists_resolution hd
  have hflush := h.flush_segments
  rw [hevent, List.map_singleton] at hflush
  rw [handleTick_of_held hd hlt, hflush]
  refine .flushed elapsed event rfl hflush rfl ?_
  cases hinvalid : event.isInvalid <;> simp [discardRecord?, hinvalid]

theorem notes_shutdown (reason : ShutdownReason) : Notes s stimulus (s.shutdown reason) := by
  refine .silent rfl fun record hmem => ?_
  rw [List.mem_singleton.1 hmem]
  exact ⟨rfl, rfl⟩

theorem notes_noResponse (behind : Session) : Notes s stimulus (noResponse behind) :=
  .silent rfl (List.forall_mem_nil _)

theorem notes_handle (h : s.decoder.Settled) (stimulus : Stimulus) :
    Notes s stimulus (s.handle stimulus) := by
  cases hp : s.phase with
  | terminating =>
      rw [handle_of_terminating hp]
      exact notes_noResponse s
  | active =>
      cases stimulus with
      | input bytes =>
          rw [handle_input hp]
          exact .fed bytes rfl rfl (records_of_whole fun _ => Decoder.truncated_of_mem_scan)
      | tick elapsed =>
          rw [handle_tick hp]
          by_cases hle : (s.idle.add elapsed).nanos ≤ s.config.idleThreshold.nanos
          · rw [handleTick_of_le hle]
            exact notes_noResponse _
          by_cases hd : s.decoder.pending = []
          · rw [handleTick_of_nothing hd (Nat.lt_of_not_le hle)]
            exact notes_noResponse _
          · exact notes_flush h hd (Nat.lt_of_not_le hle)
      | endOfInput =>
          simp only [handle, hp]
          exact notes_shutdown _
      | readError error =>
          simp only [handle, hp]
          exact notes_shutdown _
      | termination source =>
          simp only [handle, hp]
          exact notes_shutdown _
      | consumerQuit =>
          simp only [handle, hp]
          exact notes_shutdown _

theorem run_batch (d : Decoder) (batch : Batch) :
    (d.run (([.forward batch].filterMap Action.batch?).map Batch.call)).1 =
      (d.answer batch.call).1 :=
  List.append_nil _

/-- The bytes noted as discarded are those of the invalid keys that the answer hands over. -/
theorem Notes.discarded {response : Response} (h : Notes s stimulus response) :
    response.records.filterMap Record.discarded? =
      (discards (s.decoder.run
        ((response.actions.filterMap Action.batch?).map Batch.call)).1).map Segment.bytes := by
  cases h with
  | fed bytes _ hactions hrecords =>
      rw [hactions, hrecords, List.filterMap_map, run_batch]
      exact congrFun (List.filterMap_eq_map (f := Segment.bytes)) _
  | flushed elapsed event _ hflush hactions hrecords =>
      rw [hactions, hrecords, run_batch]
      change _ = (discards s.decoder.flush.1).map Segment.bytes
      rw [hflush]
      cases hinvalid : event.isInvalid <;> simp [discards, hinvalid, Record.discarded?]
  | silent hactions hrecords =>
      rw [hactions, List.filterMap_eq_nil_iff.2 fun record hmem => (hrecords record hmem).1]
      rfl

/-- An answer that hands over a flush notes one key of it, and no other answer does. -/
theorem Notes.flushes {response : Response} (h : Notes s stimulus response) :
    response.records.filterMap Record.flushed? =
      ((response.actions.filterMap Action.batch?).filter Batch.isFlushed).map fun _ => 1 := by
  cases h with
  | fed bytes _ hactions hrecords =>
      rw [hactions, hrecords, List.filterMap_map]
      exact List.filterMap_eq_nil_iff.2 fun _ _ => rfl
  | flushed elapsed event _ _ hactions hrecords =>
      rw [hactions, hrecords, List.filterMap_append]
      cases event.isInvalid <;> rfl
  | silent hactions hrecords =>
      rw [hactions, List.filterMap_eq_nil_iff.2 fun record hmem => (hrecords record hmem).2]
      rfl

theorem Notes.of_truncated {response : Response} (h : Notes s stimulus response) {bytes : Bytes}
    (hmem : .truncated bytes ∈ response.records) :
    (∃ elapsed, stimulus = .tick elapsed) ∧ bytes = s.decoder.pending ∧
      response.actions = [.forward (.flushed [.invalid])] := by
  cases h with
  | fed chunk _ _ hrecords =>
      rw [hrecords] at hmem
      obtain ⟨segment, _, hsegment⟩ := List.mem_map.1 hmem
      cases hsegment
  | flushed elapsed event hstimulus _ hactions hrecords =>
      rw [hrecords] at hmem
      cases hinvalid : event.isInvalid with
      | false => simp [hinvalid] at hmem
      | true =>
          rw [KeyEvent.isInvalid_iff.1 hinvalid] at hactions
          exact ⟨⟨elapsed, hstimulus⟩, by simpa [hinvalid] using hmem, hactions⟩
  | silent _ hrecords => cases (hrecords _ hmem).1

theorem Notes.of_undecodable {response : Response} (h : Notes s stimulus response) {bytes : Bytes}
    (hmem : .undecodable bytes ∈ response.records) :
    ∃ chunk events, stimulus = .input chunk ∧
      response.actions = [.forward (.input chunk events)] ∧ .invalid ∈ events := by
  cases h with
  | fed chunk hstimulus hactions hrecords =>
      rw [hrecords] at hmem
      obtain ⟨segment, hsegment, _⟩ := List.mem_map.1 hmem
      obtain ⟨hfed, hinvalid⟩ := List.mem_filter.1 hsegment
      refine ⟨chunk, _, hstimulus, hactions, ?_⟩
      rw [← KeyEvent.isInvalid_iff.1 hinvalid]
      exact List.mem_map_of_mem hfed
  | flushed elapsed event _ _ _ hrecords =>
      rw [hrecords] at hmem
      cases hinvalid : event.isInvalid <;> simp [hinvalid] at hmem
  | silent _ hrecords => cases (hrecords _ hmem).1

/-! ## Runs -/

theorem settled_after (h : s.decoder.Settled) (stimuli : List Stimulus) :
    (s.after stimuli).decoder.Settled := by
  induction stimuli generalizing s with
  | nil => exact h
  | cons stimulus stimuli ih => exact ih (settled_handle h stimulus)

/-- The discards in the log are those of the decoder in the calls behind the batches. -/
theorem discarded_records (h : s.decoder.Settled) (stimuli : List Stimulus) :
    (s.records stimuli).filterMap Record.discarded? =
      (discards (s.decoder.run ((s.batches stimuli).map Batch.call)).1).map Segment.bytes := by
  induction stimuli generalizing s with
  | nil => rfl
  | cons stimulus stimuli ih =>
      -- The first answer is a run of its own, and leaves the decoder that the others start from.
      obtain ⟨segments, hrun, _⟩ := batches_decide s [stimulus]
      rw [batches_singleton] at hrun
      rw [records_cons, List.filterMap_append, (notes_handle h stimulus).discarded,
        ih (settled_handle h stimulus), batches_cons, List.map_append, Decoder.run_append, hrun,
        discards, discards, discards, ← List.map_append, ← List.filter_append]
      rfl

/-- The log has a record of every invalid key that is handed over, in order, with the bytes that
went to it, and no other discards; all keys and their bytes, with the bytes held back behind them,
are the chunks. A sequence is noted as truncated only with the idle flush that hands over one
invalid key, and all that was held back went to it. Bytes are noted as undecodable only with the
chunk that hands over an invalid key. Every flush that is handed over is noted once, as one key.
The bytes that a key takes are there, however it is decoded. -/
theorem discards_noted (config : Config) (backspace : UInt8) :
    (∀ stimuli,
      let s := new config backspace
      let segments := ((Decoder.new backspace).run ((s.batches stimuli).map Batch.call)).1
      (s.records stimuli).filterMap Record.discarded? =
          (segments.filter (·.event.isInvalid)).map Segment.bytes ∧
        (∀ segment ∈ segments, segment.bytes ≠ [] ∧ Provenance backspace segment) ∧
        (s.batches stimuli).flatMap Batch.events = segments.map Segment.event ∧
        ((s.batches stimuli).filterMap Batch.bytes?).flatten =
          segments.flatMap Segment.bytes ++ (s.after stimuli).decoder.pending) ∧
    (∀ history stimulus,
      let s := (new config backspace).after history
      let response := s.handle stimulus
      (∀ bytes, .truncated bytes ∈ response.records →
        (∃ elapsed, stimulus = .tick elapsed) ∧ bytes = s.decoder.pending ∧
          response.actions = [.forward (.flushed [.invalid])]) ∧
      (∀ bytes, .undecodable bytes ∈ response.records →
        ∃ chunk events, stimulus = .input chunk ∧
          response.actions = [.forward (.input chunk events)] ∧ .invalid ∈ events) ∧
      response.records.filterMap Record.flushed? =
        ((response.actions.filterMap Action.batch?).filter Batch.isFlushed).map fun _ => 1) ∧
    (∀ atEnd input event used, decodeOne backspace atEnd input = .key event used →
      used ≤ input.length) := by
  have hnew : (new config backspace).decoder.Settled := Decoder.settled_new backspace
  refine ⟨fun stimuli => ?_, fun history stimulus => ?_, fun atEnd input event used h => ?_⟩
  · exact ⟨discarded_records hnew stimuli, segments_of_run config backspace stimuli⟩
  · have hnotes := notes_handle (settled_after hnew history) stimulus
    exact ⟨fun _ => hnotes.of_truncated, fun _ => hnotes.of_undecodable, hnotes.flushes⟩
  · exact (Decoder.decodeOne_le h).2

/-- A byte that begins nothing is noted with its chunk, and an unfinished sequence with the flush,
with all of its bytes. -/
theorem records_of_unfinished_sequence :
    let s := new .standard 0x7f
    let history : List Stimulus := [.input [0x61, 0xff, 0x1b, 0x5b], .input [0x31]]
    let flush : Stimulus := .tick (.ofMillis 60)
    s.records (history ++ [flush]) =
        [.undecodable [0xff], .truncated [0x1b, 0x5b, 0x31], .idleFlush 1] ∧
      (s.after history).decoder.pending = [0x1b, 0x5b, 0x31] ∧
      ((s.after history).handle flush).actions = [.forward (.flushed [.invalid])] ∧
      decodeOne 0x7f false [0xff] = .key .invalid 1 ∧ 1 ≤ [0xff].length := by
  intro s history flush
  have hnoted := discards_noted .standard 0x7f
  have hrecords : s.records (history ++ [flush]) =
      [.undecodable [0xff], .truncated [0x1b, 0x5b, 0x31], .idleFlush 1] := by decide +kernel
  have hdecode : decodeOne 0x7f false [0xff] = .key .invalid 1 := by decide +kernel
  obtain ⟨_, hpending, hactions⟩ :=
    (hnoted.2.1 history flush).1 [0x1b, 0x5b, 0x31] (by decide +kernel)
  exact ⟨hrecords, hpending.symm, hactions, hdecode, hnoted.2.2 false [0xff] .invalid 1 hdecode⟩

end Session

end Keystroke
