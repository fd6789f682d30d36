import Keystroke.Proofs.Decoder.Chunking
import Keystroke.Proofs.Decoder.Provenance
import Keystroke.Proofs.Session.Run

/-! # The life of a session

A session ends once, for the first reason that it is given, and does nothing more.
Up to then every chunk is handed over as it came, and the chunks are the bytes of
the keys handed over, in order, with the bytes held back behind them.
-/

namespace Keystroke

open Decoder (Bytes Segment Provenance)

theorem bytes_call (batches : List Batch) :
    (batches.map Batch.call).flatMap Decoder.Call.bytes =
      (batches.filterMap Batch.bytes?).flatten := by
  induction batches with
  | nil => rfl
  | cons batch batches ih =>
      cases batch with
      | input bytes events => exact congrArg (bytes ++ ·) ih
      | flushed events => exact ih

namespace Session

variable {s : Session}

/-! ## The end -/

theorem actions_after_reason {stimulus : Stimulus} (h : stimulus.reason? ≠ none)
    (stimuli : List Stimulus) : (s.handle stimulus).session.actions stimuli = [] :=
  actions_of_terminating (by rw [session_of_reason h]) stimuli

/-- The session ends once, for the first reason that it is given. -/
theorem reasons_of_active (ha : s.phase = .active) (stimuli : List Stimulus) :
    (s.actions stimuli).filterMap Action.reason? =
      (stimuli.findSome? Stimulus.reason?).toList := by
  induction stimuli generalizing s with
  | nil => rfl
  | cons stimulus stimuli ih =>
      rw [actions_cons, List.filterMap_append, List.findSome?_cons, reasons_of_handle ha]
      cases hreason : stimulus.reason? with
      | none =>
          rw [ih (phase_handle ha hreason)]
          rfl
      | some reason =>
          rw [actions_after_reason (by rw [hreason]; exact Option.some_ne_none reason)]
          rfl

/-! ## The chunks -/

theorem bytes?_of_reason {stimulus : Stimulus} (h : stimulus.reason? ≠ none) :
    stimulus.bytes? = none := by
  cases stimulus with
  | input bytes => exact absurd rfl h
  | _ => rfl

/-- An active session hands over a chunk as it came. -/
theorem chunks_of_handle (ha : s.phase = .active) (stimulus : Stimulus) :
    ((s.handle stimulus).actions.filterMap Action.batch?).filterMap Batch.bytes? =
      [stimulus].filterMap Stimulus.bytes? := by
  rw [List.filterMap_cons, List.filterMap_nil]
  cases answer_handle s stimulus with
  | nothing hp _ =>
      rw [ha] at hp
      cases hp
  | ends reason hreason hactions _ =>
      rw [hactions, bytes?_of_reason (by rw [hreason]; exact Option.some_ne_none reason)]
      rfl
  | hands batch _ hbytes _ _ hactions _ =>
      rw [hactions, ← hbytes]
      cases batch <;> rfl
  | waits _ _ hbytes _ hactions _ =>
      rw [hactions, hbytes]
      rfl

/-- Every chunk is handed over until the session ends. -/
theorem chunks_of_active (ha : s.phase = .active) (stimuli : List Stimulus) :
    (s.batches stimuli).filterMap Batch.bytes? =
      (stimuli.takeWhile (·.reason?.isNone)).filterMap Stimulus.bytes? := by
  induction stimuli generalizing s with
  | nil => rfl
  | cons stimulus stimuli ih =>
      rw [batches_cons, List.filterMap_append, chunks_of_handle ha, List.takeWhile_cons]
      cases hreason : stimulus.reason? with
      | none =>
          rw [ih (phase_handle ha hreason), ← List.filterMap_append]
          rfl
      | some reason =>
          have hends : stimulus.reason? ≠ none := by
            rw [hreason]
            exact Option.some_ne_none reason
          rw [batches, actions_after_reason hends, List.filterMap_cons, bytes?_of_reason hends]
          rfl

/-- What the decoder decides in the calls behind the batches: the keys handed over and, with the
bytes held back behind them, the chunks. -/
theorem segments_of_run (config : Config) (backspace : UInt8) (stimuli : List Stimulus) :
    let s := new config backspace
    let segments := ((Decoder.new backspace).run ((s.batches stimuli).map Batch.call)).1
    (∀ segment ∈ segments, segment.bytes ≠ [] ∧ Provenance backspace segment) ∧
      (s.batches stimuli).flatMap Batch.events = segments.map Segment.event ∧
      ((s.batches stimuli).filterMap Batch.bytes?).flatten =
        segments.flatMap Segment.bytes ++ (s.after stimuli).decoder.pending := by
  intro s segments
  obtain ⟨decided, hrun, hevents⟩ := batches_decide s stimuli
  change (Decoder.new backspace).run _ = _ at hrun
  have hprovenance := Decoder.provenance_run backspace ((s.batches stimuli).map Batch.call)
  have hcovers := Decoder.run_covers (.new backspace) ((s.batches stimuli).map Batch.call)
  have hsegments : segments = decided := congrArg Prod.fst hrun
  refine ⟨fun segment hmem => ?_, ?_, ?_⟩
  · exact ⟨(hprovenance segment hmem).ne_nil, hprovenance segment hmem⟩
  · rw [hevents, hsegments]
  · rw [hrun] at hcovers
    rw [← bytes_call, hsegments]
    exact hcovers.symm

/-- The chunks handed over are the bytes of the keys handed over, with the bytes held back
behind them. -/
theorem chunks_are_segments (config : Config) (backspace : UInt8) (stimuli : List Stimulus) :
    let s := new config backspace
    ∃ segments : List Segment,
      (∀ segment ∈ segments, segment.bytes ≠ [] ∧ Provenance backspace segment) ∧
      (s.batches stimuli).flatMap Batch.events = segments.map Segment.event ∧
      ((s.batches stimuli).filterMap Batch.bytes?).flatten =
        segments.flatMap Segment.bytes ++ (s.after stimuli).decoder.pending :=
  ⟨_, segments_of_run config backspace stimuli⟩

theorem exists_of_mem_responses {stimuli : List Stimulus} {response : Response}
    (h : response ∈ s.responses stimuli) :
    ∃ (earlier : Session) (stimulus : Stimulus), response = earlier.handle stimulus := by
  induction stimuli generalizing s with
  | nil => cases h
  | cons stimulus stimuli ih =>
      rcases List.mem_cons.1 h with h | h
      · exact ⟨s, stimulus, h⟩
      · exact ih h

/-- Every stimulus is answered with one action at most. The session is shut down once, for the
first reason that it is given, if there is one; that leaves the idle time and the bytes held
back as they are, and from then on nothing is answered and nothing changes. Until then every
chunk is handed over as it came, also if it is empty. The chunks are the bytes of the keys
handed over, in order and none of them without bytes, with the bytes held back behind them. -/
theorem lifecycle_and_account (config : Config) (backspace : UInt8) (stimuli : List Stimulus) :
    let s := new config backspace
    (∀ response ∈ s.responses stimuli, response.actions.length ≤ 1) ∧
    (s.actions stimuli).filterMap Action.reason? =
      (stimuli.findSome? Stimulus.reason?).toList ∧
    (∀ front stimulus back, stimuli = front ++ stimulus :: back → stimulus.reason? ≠ none →
      let ended := s.after (front ++ [stimulus])
      ended = { s.after front with phase := .terminating } ∧
        ended.responses back = back.map (fun _ => noResponse ended) ∧
        s.after stimuli = ended) ∧
    (s.batches stimuli).filterMap Batch.bytes? =
      (stimuli.takeWhile (·.reason?.isNone)).filterMap Stimulus.bytes? ∧
    ∃ segments : List Segment,
      (∀ segment ∈ segments, segment.bytes ≠ [] ∧ Provenance backspace segment) ∧
      (s.batches stimuli).flatMap Batch.events = segments.map Segment.event ∧
      ((s.batches stimuli).filterMap Batch.bytes?).flatten =
        segments.flatMap Segment.bytes ++ (s.after stimuli).decoder.pending := by
  intro s
  refine ⟨?_, reasons_of_active rfl stimuli, ?_, chunks_of_active rfl stimuli,
    chunks_are_segments config backspace stimuli⟩
  · intro response hresponse
    obtain ⟨earlier, stimulus, rfl⟩ := exists_of_mem_responses hresponse
    exact length_actions_le earlier stimulus
  · intro front stimulus back hstimuli hreason ended
    have hended : ended = { s.after front with phase := .terminating } := by
      rw [← session_of_reason hreason]
      exact after_append s front [stimulus]
    have hphase : ended.phase = .terminating := by rw [hended]
    refine ⟨hended, responses_of_terminating hphase back, ?_⟩
    rw [hstimuli, List.append_cons, after_append]
    exact after_of_terminating hphase back

/-- An escape is flushed, a second one is still held back when the consumer quits, and what comes
then is not answered. -/
theorem account_of_quit :
    let s := new .standard 0x7f
    let front : List Stimulus :=
      [.input [0x61, 0x1b], .input [], .tick (.ofMillis 60), .input [0x1b]]
    let back : List Stimulus := [.endOfInput, .input [0x62]]
    let ended := s.after (front ++ [.consumerQuit])
    (ended.responses back = [noResponse ended, noResponse ended] ∧
      s.after (front ++ .consumerQuit :: back) = ended) ∧
    s.batches (front ++ .consumerQuit :: back) =
      [.input [0x61, 0x1b] [.character 'a'], .input [] [], .flushed [.function .escape],
        .input [0x1b] []] ∧
    ended.decoder.pending = [0x1b] := by
  intro s front back ended
  have hended := (lifecycle_and_account .standard 0x7f (front ++ .consumerQuit :: back)).2.2.1
    front .consumerQuit back rfl (by decide)
  exact ⟨hended.2, by decide +kernel, by decide +kernel⟩

end Session

end Keystroke
