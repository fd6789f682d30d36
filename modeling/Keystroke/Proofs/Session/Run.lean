import Keystroke.Proofs.Session.Response

/-! # Runs of a session

A session is told of one stimulus after another. While it is active it ends, or it
hands over a batch with the keys that its decoder decides, or it only waits; each
of these is one answer, with one action at most. An ended session stays as it is.
-/

namespace Keystroke

open Decoder (Bytes Segment)
open Log (Record)

/-- The reason of the shutdown that a record notes. -/
def Log.Record.shutdown? : Log.Record → Option ShutdownReason
  | shuttingDown reason _ => some reason
  | _ => none

/-- The reason for which an action ends the session. -/
def Action.reason? : Action → Option ShutdownReason
  | forward _ => none
  | shutdown reason => some reason

def Action.batch? : Action → Option Batch
  | forward batch => some batch
  | shutdown _ => none

/-- The chunk of an input batch. -/
def Batch.bytes? : Batch → Option Bytes
  | input bytes _ => some bytes
  | flushed _ => none

namespace Session

/-- The reason for which a stimulus ends a session; input and ticks do not. -/
def Stimulus.reason? : Stimulus → Option ShutdownReason
  | input _ => none
  | tick _ => none
  | endOfInput => some .endOfInput
  | readError error => some (.readFailed error)
  | termination source => some (.terminated source)
  | consumerQuit => some .consumerQuit

def Stimulus.bytes? : Stimulus → Option Bytes
  | input bytes => some bytes
  | _ => none

/-- The session behind the stimuli. -/
def after : Session → List Stimulus → Session
  | s, [] => s
  | s, stimulus :: stimuli => (s.handle stimulus).session.after stimuli

/-- The answers to the stimuli, in order. -/
def responses : Session → List Stimulus → List Response
  | _, [] => []
  | s, stimulus :: stimuli => s.handle stimulus :: (s.handle stimulus).session.responses stimuli

/-- What is to be done in answer to the stimuli. -/
def actions (s : Session) (stimuli : List Stimulus) : List Action :=
  (s.responses stimuli).flatMap Response.actions

/-- The batches handed over in answer to the stimuli. -/
def batches (s : Session) (stimuli : List Stimulus) : List Batch :=
  (s.actions stimuli).filterMap Action.batch?

variable {s : Session} {stimulus : Stimulus}

theorem actions_cons (s : Session) (stimulus : Stimulus) (stimuli : List Stimulus) :
    s.actions (stimulus :: stimuli) =
      (s.handle stimulus).actions ++ (s.handle stimulus).session.actions stimuli := rfl

theorem batches_cons (s : Session) (stimulus : Stimulus) (stimuli : List Stimulus) :
    s.batches (stimulus :: stimuli) =
      (s.handle stimulus).actions.filterMap Action.batch? ++
        (s.handle stimulus).session.batches stimuli :=
  List.filterMap_append

theorem after_append (s : Session) (stimuli others : List Stimulus) :
    s.after (stimuli ++ others) = (s.after stimuli).after others := by
  induction stimuli generalizing s with
  | nil => rfl
  | cons stimulus stimuli ih => exact ih (s.handle stimulus).session

/-! ## One answer -/

/-- What a session answers to a stimulus. -/
inductive Answer (s : Session) (stimulus : Stimulus) (response : Response) : Prop
  | nothing :
      s.phase = .terminating → response = noResponse s → Answer s stimulus response
  | ends (reason : ShutdownReason) :
      stimulus.reason? = some reason → response.actions = [.shutdown reason] →
      response.session = { s with phase := .terminating } → Answer s stimulus response
  | hands (batch : Batch) :
      stimulus.reason? = none → batch.bytes? = stimulus.bytes? →
      (batch.bytes? = none → s.decoder.pending ≠ []) →
      batch.events = (s.decoder.answer batch.call).1.map Segment.event →
      response.actions = [.forward batch] →
      response.session = { s with decoder := (s.decoder.answer batch.call).2, idle := .zero } →
      Answer s stimulus response
  | waits (idle : Duration) :
      stimulus.reason? = none → stimulus.bytes? = none →
      idle.nanos ≤ s.config.idleThreshold.nanos → response.actions = [] →
      response.session = { s with idle := idle } → Answer s stimulus response

theorem answer_shutdown {reason : ShutdownReason} (h : stimulus.reason? = some reason) :
    Answer s stimulus (s.shutdown reason) :=
  .ends reason h rfl rfl

theorem answer_handle (s : Session) (stimulus : Stimulus) :
    Answer s stimulus (s.handle stimulus) := by
  cases hp : s.phase with
  | terminating => exact .nothing hp (handle_of_terminating hp stimulus)
  | active =>
      cases stimulus with
      | input bytes =>
          rw [handle_input hp]
          exact .hands (.input bytes ((s.decoder.feed bytes).1.map Segment.event)) rfl rfl
            (fun h => by cases h) rfl rfl rfl
      | tick elapsed =>
          rw [handle_tick hp]
          by_cases hle : (s.idle.add elapsed).nanos ≤ s.config.idleThreshold.nanos
          · rw [handleTick_of_le hle]
            exact .waits _ rfl rfl hle rfl rfl
          by_cases hd : s.decoder.pending = []
          · rw [handleTick_of_nothing hd (Nat.lt_of_not_le hle)]
            exact .waits _ rfl rfl (Nat.zero_le _) rfl rfl
          · rw [handleTick_of_held hd (Nat.lt_of_not_le hle)]
            exact .hands (.flushed (s.decoder.flush.1.map Segment.event)) rfl rfl (fun _ => hd) rfl
              rfl rfl
      | endOfInput =>
          simp only [handle, hp]
          exact answer_shutdown rfl
      | readError error =>
          simp only [handle, hp]
          exact answer_shutdown rfl
      | termination source =>
          simp only [handle, hp]
          exact answer_shutdown rfl
      | consumerQuit =>
          simp only [handle, hp]
          exact answer_shutdown rfl

theorem length_actions_le (s : Session) (stimulus : Stimulus) :
    (s.handle stimulus).actions.length ≤ 1 := by
  cases answer_handle s stimulus with
  | nothing _ hresponse =>
      rw [hresponse]
      exact Nat.zero_le 1
  | ends _ _ hactions _ => exact Nat.le_of_eq (congrArg List.length hactions)
  | hands _ _ _ _ _ hactions _ => exact Nat.le_of_eq (congrArg List.length hactions)
  | waits _ _ _ _ hactions _ =>
      rw [hactions]
      exact Nat.zero_le 1

theorem config_handle (s : Session) (stimulus : Stimulus) :
    (s.handle stimulus).session.config = s.config := by
  cases answer_handle s stimulus with
  | nothing _ hresponse =>
      rw [hresponse]
      rfl
  | ends _ _ _ hsession => rw [hsession]
  | hands _ _ _ _ _ _ hsession => rw [hsession]
  | waits _ _ _ _ _ hsession => rw [hsession]

/-- An active session stays active unless the stimulus ends it. -/
theorem phase_handle (ha : s.phase = .active) (h : stimulus.reason? = none) :
    (s.handle stimulus).session.phase = .active := by
  cases answer_handle s stimulus with
  | nothing hp _ =>
      rw [ha] at hp
      cases hp
  | ends _ hreason _ _ =>
      rw [h] at hreason
      cases hreason
  | hands _ _ _ _ _ _ hsession => rw [hsession, ha]
  | waits _ _ _ _ _ hsession => rw [hsession, ha]

/-- A stimulus with a reason leaves the session ended, and everything else as it was. -/
theorem session_of_reason (h : stimulus.reason? ≠ none) :
    (s.handle stimulus).session = { s with phase := .terminating } := by
  cases answer_handle s stimulus with
  | nothing hp hresponse =>
      rw [hresponse, ← hp]
      rfl
  | ends _ _ _ hsession => exact hsession
  | hands _ hreason _ _ _ _ _ => exact absurd hreason h
  | waits _ hreason _ _ _ _ => exact absurd hreason h

/-- An active session shuts down for the reason that it is given, and for no other. -/
theorem actions_eq_shutdown_iff (ha : s.phase = .active) {reason : ShutdownReason} :
    (s.handle stimulus).actions = [.shutdown reason] ↔ stimulus.reason? = some reason := by
  cases answer_handle s stimulus with
  | nothing hp _ =>
      rw [ha] at hp
      cases hp
  | ends _ hreason hactions _ =>
      rw [hactions, hreason]
      simp only [List.cons.injEq, Action.shutdown.injEq, and_true, Option.some.injEq]
  | hands _ hreason _ _ _ hactions _ =>
      rw [hactions, hreason]
      simp only [List.cons.injEq, reduceCtorEq, false_and]
  | waits _ hreason _ _ hactions _ =>
      rw [hactions, hreason]
      simp only [reduceCtorEq]

theorem idle_handle (s : Session) (stimulus : Stimulus)
    (h : s.idle.nanos ≤ s.config.idleThreshold.nanos) :
    (s.handle stimulus).session.idle.nanos ≤ s.config.idleThreshold.nanos := by
  cases answer_handle s stimulus with
  | nothing _ hresponse =>
      rw [hresponse]
      exact h
  | ends _ _ _ hsession =>
      rw [hsession]
      exact h
  | hands _ _ _ _ _ _ hsession =>
      rw [hsession]
      exact Nat.zero_le _
  | waits _ _ _ hidle _ hsession =>
      rw [hsession]
      exact hidle

/-- An active session answers with a shutdown for the reason that it is given. -/
theorem reasons_of_handle (ha : s.phase = .active) (stimulus : Stimulus) :
    (s.handle stimulus).actions.filterMap Action.reason? = stimulus.reason?.toList := by
  cases answer_handle s stimulus with
  | nothing hp _ =>
      rw [ha] at hp
      cases hp
  | ends _ hreason hactions _ =>
      rw [hactions, hreason]
      rfl
  | hands _ hreason _ _ _ hactions _ =>
      rw [hactions, hreason]
      rfl
  | waits _ hreason _ _ hactions _ =>
      rw [hactions, hreason]
      rfl

/-- A batch is handed over by a session that goes on with the decoder behind it. -/
theorem session_of_forward (ha : s.phase = .active) {batch : Batch}
    (h : (s.handle stimulus).actions = [.forward batch]) :
    (s.handle stimulus).session =
      { s with decoder := (s.decoder.answer batch.call).2, idle := .zero } := by
  cases answer_handle s stimulus with
  | nothing hp _ =>
      rw [ha] at hp
      cases hp
  | ends _ _ hactions _ =>
      rw [hactions] at h
      cases h
  | hands other _ _ _ _ hactions hsession =>
      rw [hactions] at h
      cases h
      exact hsession
  | waits _ _ _ _ hactions _ =>
      rw [hactions] at h
      cases h

theorem shutdowns_of_discards (segments : List Segment) :
    (segments.filterMap discardRecord?).filterMap Record.shutdown? = [] := by
  rw [List.filterMap_eq_nil_iff]
  intro record hrecord
  obtain ⟨segment, _, hdiscard⟩ := List.mem_filterMap.1 hrecord
  unfold discardRecord? at hdiscard
  split at hdiscard
  · cases hdiscard
    rfl
  · split at hdiscard
    · cases hdiscard
      rfl
    · cases hdiscard

/-- The shutdowns in the log are those that the session answers with. -/
theorem shutdowns_of_handle (s : Session) (stimulus : Stimulus) :
    (s.handle stimulus).records.filterMap Record.shutdown? =
      (s.handle stimulus).actions.filterMap Action.reason? := by
  cases hp : s.phase with
  | terminating =>
      rw [handle_of_terminating hp]
      rfl
  | active =>
      cases stimulus with
      | input bytes =>
          rw [handle_input hp]
          exact shutdowns_of_discards _
      | tick elapsed =>
          rw [handle_tick hp]
          by_cases hle : (s.idle.add elapsed).nanos ≤ s.config.idleThreshold.nanos
          · rw [handleTick_of_le hle]
            rfl
          by_cases hd : s.decoder.pending = []
          · rw [handleTick_of_nothing hd (Nat.lt_of_not_le hle)]
            rfl
          · rw [handleTick_of_held hd (Nat.lt_of_not_le hle)]
            dsimp only
            rw [List.filterMap_append, shutdowns_of_discards]
            rfl
      | _ =>
          simp only [handle, hp]
          rfl

/-! ## Many answers -/

theorem config_after (s : Session) (stimuli : List Stimulus) :
    (s.after stimuli).config = s.config := by
  induction stimuli generalizing s with
  | nil => rfl
  | cons stimulus stimuli ih => exact (ih _).trans (config_handle s stimulus)

theorem phase_after (ha : s.phase = .active) {stimuli : List Stimulus}
    (h : ∀ stimulus ∈ stimuli, stimulus.reason? = none) : (s.after stimuli).phase = .active := by
  induction stimuli generalizing s with
  | nil => exact ha
  | cons stimulus stimuli ih =>
      rw [List.forall_mem_cons] at h
      exact ih (phase_handle ha h.1) h.2

/-- The idle time never exceeds the threshold. -/
theorem idle_after (s : Session) (stimuli : List Stimulus)
    (h : s.idle.nanos ≤ s.config.idleThreshold.nanos) :
    (s.after stimuli).idle.nanos ≤ s.config.idleThreshold.nanos := by
  induction stimuli generalizing s with
  | nil => exact h
  | cons stimulus stimuli ih =>
      have hone := idle_handle s stimulus h
      rw [← config_handle s stimulus] at hone ⊢
      exact ih _ hone

theorem after_of_terminating (h : s.phase = .terminating) (stimuli : List Stimulus) :
    s.after stimuli = s := by
  induction stimuli with
  | nil => rfl
  | cons stimulus stimuli ih =>
      rw [after, handle_of_terminating h]
      exact ih

theorem responses_of_terminating (h : s.phase = .terminating) (stimuli : List Stimulus) :
    s.responses stimuli = stimuli.map fun _ => noResponse s := by
  induction stimuli with
  | nil => rfl
  | cons stimulus stimuli ih =>
      rw [responses, handle_of_terminating h, List.map_cons, ← ih]
      rfl

theorem actions_of_terminating (h : s.phase = .terminating) (stimuli : List Stimulus) :
    s.actions stimuli = [] := by
  rw [actions, responses_of_terminating h, List.flatMap_map]
  exact List.flatMap_eq_nil_iff.2 fun _ _ => rfl

theorem batches_append (s : Session) (stimuli others : List Stimulus) :
    s.batches (stimuli ++ others) = s.batches stimuli ++ (s.after stimuli).batches others := by
  induction stimuli generalizing s with
  | nil => rfl
  | cons stimulus stimuli ih =>
      rw [List.cons_append, batches_cons, batches_cons, ih, List.append_assoc]
      rfl

theorem batches_singleton (s : Session) (stimulus : Stimulus) :
    s.batches [stimulus] = (s.handle stimulus).actions.filterMap Action.batch? :=
  (batches_cons s stimulus []).trans (List.append_nil _)

/-! ## Keys and decoder -/

/-- The keys handed over are those that the decoder decides in the calls behind the batches, and
what the session keeps is the decoder behind these calls. -/
theorem batches_decide (s : Session) (stimuli : List Stimulus) :
    ∃ segments,
      s.decoder.run ((s.batches stimuli).map Batch.call) =
        (segments, (s.after stimuli).decoder) ∧
      (s.batches stimuli).flatMap Batch.events = segments.map Segment.event := by
  induction stimuli generalizing s with
  | nil => exact ⟨[], rfl, rfl⟩
  | cons stimulus stimuli ih =>
      obtain ⟨segments, hrun, hevents⟩ := ih (s.handle stimulus).session
      rw [batches_cons, after]
      cases answer_handle s stimulus with
      | nothing _ hresponse =>
          rw [hresponse] at hrun hevents ⊢
          exact ⟨segments, hrun, hevents⟩
      | ends _ _ hactions hsession =>
          have hdecoder : (s.handle stimulus).session.decoder = s.decoder := by rw [hsession]
          rw [hdecoder] at hrun
          rw [hactions]
          exact ⟨segments, hrun, hevents⟩
      | waits _ _ _ _ hactions hsession =>
          have hdecoder : (s.handle stimulus).session.decoder = s.decoder := by rw [hsession]
          rw [hdecoder] at hrun
          rw [hactions]
          exact ⟨segments, hrun, hevents⟩
      | hands batch _ _ _ hbatch hactions hsession =>
          have hdecoder : (s.handle stimulus).session.decoder = (s.decoder.answer batch.call).2 := by
            rw [hsession]
          have hone : (s.handle stimulus).actions.filterMap Action.batch? = [batch] := by
            rw [hactions]
            rfl
          rw [hdecoder] at hrun
          rw [hone, List.singleton_append, List.map_cons, List.flatMap_cons, Decoder.run_cons, hrun,
            hevents, hbatch, ← List.map_append]
          exact ⟨_, rfl, rfl⟩

end Session

end Keystroke
