import Keystroke.Proofs.EventLoop.Account
import Keystroke.Proofs.EventLoop.Outlook

/-! # The progress of a run

What a run has done when it waits. It has handed over one batch after another, at
instants that have passed. The chunks of these batches are what it has read, and the
decoder is the one behind them; nothing else was taken off the source, and nothing
else was flushed.
-/

namespace Keystroke.EventLoop

open Decoder (Bytes)

/-- Reads of the source that give the chunks one after another, and what they leave to read. -/
inductive Source.Gives : Source → List Bytes → Source → Prop
  | nothing {source : Source} : Gives source [] source
  | chunk {source rest left : Source} {bytes : Bytes} {chunks : List Bytes} :
      source.read = (.chunk bytes, rest) → Gives rest chunks left →
      Gives source (bytes :: chunks) left

theorem Source.Gives.trans {source rest left : Source} {chunks more : List Bytes}
    (h : source.Gives chunks rest) (hmore : rest.Gives more left) :
    source.Gives (chunks ++ more) left := by
  induction h with
  | nothing => exact hmore
  | chunk hread _ ih => exact .chunk hread (ih hmore)

theorem unstopped_append {calls others : List Call} (h : Unstopped calls)
    (hothers : Unstopped others) : Unstopped (calls ++ others) :=
  List.forall_mem_append.2 ⟨h, hothers⟩

/-- The calls that hand over batches, each at its instant. -/
def handed (batches : List (Nat × Batch)) : List Call :=
  batches.map fun batch => .forward batch.1 batch.2

theorem unstopped_handed (batches : List (Nat × Batch)) : Unstopped (handed batches) := by
  intro call hmem
  obtain ⟨batch, _, rfl⟩ := List.mem_map.1 hmem
  rfl

theorem given_handed (batches : List (Nat × Batch)) :
    given (handed batches) = batches.map Prod.snd := by
  rw [given, handed, List.filterMap_map]
  exact congrFun List.filterMap_eq_map batches

theorem given_append (calls others : List Call) :
    given (calls ++ others) = given calls ++ given others :=
  List.filterMap_append

namespace Machine

open Session (Stimulus)

variable {σ ε : Type} {consumer : Consumer σ ε} {request : Request} {tickAt : Nat}
  {m w w' heard : Machine (σ × List Call)} {stimulus : Stimulus} {calls : List Call}

/-- What a machine has done behind another, and the calls that it has made. -/
structure Progress (m : Machine (σ × List Call)) (calls : List Call)
    (w : Machine (σ × List Call)) : Prop where
  recorded : w.consumer.2 = m.consumer.2 ++ calls
  unstopped : Unstopped calls
  clock_le : m.clock ≤ w.clock
  instant_le : ∀ instant batch, .forward instant batch ∈ calls → instant ≤ w.clock
  source : m.source.Gives ((given calls).filterMap Batch.bytes?) w.source
  decoder : w.session.decoder = (m.session.decoder.run ((given calls).map Batch.call)).2

/-! ## What is heard -/

theorem clock_le_due (request : Request) (tickAt : Nat) (m : Machine σ) :
    m.clock ≤ (m.due request tickAt).1 := by
  have hdue : Due request.termination m.clock (m.source.readyAt m.clock) tickAt
      (m.due request tickAt) := due_next request m.clock _ tickAt
  generalize m.due request tickAt = next at hdue
  cases hdue with
  | termination _ _ => exact Nat.le_max_left _ _
  | read _ _ => exact Source.le_readyAt _ _
  | tick _ _ => exact Nat.le_max_left _ _
  | drop hle _ _ => exact hle

theorem Hears.clock_eq (h : Hears request tickAt m stimulus heard) :
    heard.clock = (m.due request tickAt).1 := by
  cases h with
  | termination hdue => rw [hdue]
  | read hdue => rw [hdue]; rfl
  | tick hdue => rw [hdue]

/-- What a session goes on with takes off the source the chunk that it is told of. -/
theorem Hears.gives (h : Hears request tickAt m stimulus heard) (hreason : stimulus.reason? = none) :
    m.source.Gives ([stimulus].filterMap Stimulus.bytes?) heard.source := by
  cases h with
  | termination _ => cases hreason
  | tick _ => exact .nothing
  | read _ =>
      cases hread : m.source.read with
      | mk result rest =>
          rw [hread] at hreason
          cases result with
          | chunk bytes =>
              rw [fetch, hread]
              exact .chunk hread .nothing
          | endOfInput => cases hreason
          | failed error => cases hreason

/-! ## Turns and runs -/

/-- The batches of a session's answer, at the instant of the answer. -/
def answered (m : Machine σ) (stimulus : Stimulus) : List (Nat × Batch) :=
  ((m.session.handle stimulus).actions.filterMap Action.batch?).map (m.clock, ·)

theorem given_answered (m : Machine σ) (stimulus : Stimulus) :
    given (handed (m.answered stimulus)) =
      (m.session.handle stimulus).actions.filterMap Action.batch? := by
  rw [given_handed, answered, List.map_map]
  exact List.map_id _

/-- A session goes on with the decoder behind the batches that it hands over. -/
theorem decoder_of_handle (s : Session) (stimulus : Stimulus) :
    (s.handle stimulus).session.decoder =
      (s.decoder.run (((s.handle stimulus).actions.filterMap Action.batch?).map Batch.call)).2 := by
  obtain ⟨_, hrun, _⟩ := Session.batches_decide s [stimulus]
  rw [Session.batches_singleton] at hrun
  rw [hrun]
  rfl

theorem Progress.tell (h : Progress m calls w) (hw : w.Running)
    (hhears : Hears request tickAt w stimulus heard) (hreason : stimulus.reason? = none)
    {state : σ × List Call}
    (hstate : state.2 = heard.consumer.2 ++ handed (heard.answered stimulus)) :
    Progress m (calls ++ handed (heard.answered stimulus))
      { (heard.tell stimulus).2 with consumer := state } := by
  obtain ⟨hsession, hconsumer, _⟩ := hhears.frame
  have hclock : w.clock ≤ heard.clock := by
    rw [hhears.clock_eq]
    exact clock_le_due request tickAt w
  refine
    { recorded := ?_
      unstopped := unstopped_append h.unstopped (unstopped_handed _)
      clock_le := Nat.le_trans h.clock_le hclock
      instant_le := ?_
      source := ?_
      decoder := ?_ }
  · rw [hstate, hconsumer, h.recorded, List.append_assoc]
  · intro instant batch hmem
    rcases List.mem_append.1 hmem with hearlier | hlast
    · exact Nat.le_trans (h.instant_le instant batch hearlier) hclock
    · obtain ⟨_, hanswered, hsame⟩ := List.mem_map.1 hlast
      cases hsame
      obtain ⟨_, _, rfl⟩ := List.mem_map.1 hanswered
      exact Nat.le_refl _
  · rw [given_append, given_answered, List.filterMap_append,
      Session.chunks_of_handle (hhears.running hw).active]
    exact h.source.trans (hhears.gives hreason)
  · rw [given_append, given_answered, List.map_append, Decoder.run_append, ← h.decoder, ← hsession]
    exact decoder_of_handle heard.session stimulus

theorem Progress.wait (h : Progress m calls w) (hw : w.Running)
    (hhears : Hears request tickAt w stimulus heard)
    (hactions : (heard.session.handle stimulus).actions = []) :
    Progress m calls (heard.tell stimulus).2 := by
  have hreason := reason?_of_actions (hhears.running hw).active (by rw [hactions]; rfl)
  have hnone : handed (heard.answered stimulus) = [] := by
    rw [answered, hactions]
    rfl
  have hkept : heard.consumer.2 = heard.consumer.2 ++ handed (heard.answered stimulus) := by
    rw [hnone, List.append_nil]
  have hnext := h.tell hw hhears hreason hkept
  rwa [hnone, List.append_nil] at hnext

theorem Progress.forward {batch : Batch} {answer : Except ε Flow} {state : σ × List Call}
    (h : Progress m calls w) (hw : w.Running)
    (hhears : Hears request tickAt w stimulus heard)
    (hactions : (heard.session.handle stimulus).actions = [.forward batch])
    (hforward : consumer.recorded.forward heard.clock batch heard.consumer = (answer, state)) :
    Progress m (calls ++ [.forward heard.clock batch])
      { (heard.tell stimulus).2 with consumer := state } := by
  have hreason := reason?_of_actions (hhears.running hw).active (by rw [hactions]; rfl)
  have hone : handed (heard.answered stimulus) = [.forward heard.clock batch] := by
    rw [answered, hactions]
    rfl
  have hcalls : state.2 = heard.consumer.2 ++ [.forward heard.clock batch] :=
    congrArg (fun answered => answered.2.2) hforward.symm
  have hnext := h.tell hw hhears hreason (by rw [hone, hcalls])
  rwa [hone] at hnext

/-- Stopping the consumer adds the last call. -/
theorem recorded_of_stop (hcalls : w.consumer.2 = m.consumer.2 ++ calls)
    (hstopped : w.stopped = false) :
    (w.stop consumer.recorded).consumer.2 = m.consumer.2 ++ (calls ++ [.stop w.clock]) := by
  rw [stop_of_running hstopped, ← List.append_assoc, ← hcalls]
  rfl

/-- A run that waits has made progress. -/
theorem Reaches.exists_progress (h : Reaches consumer.recorded request m tickAt w)
    (hm : m.Running) : ∃ calls, Progress m calls w := by
  induction h with
  | start _ _ =>
      exact ⟨[],
        { recorded := (List.append_nil _).symm
          unstopped := List.forall_mem_nil _
          clock_le := Nat.le_refl _
          instant_le := fun _ _ hmem => absurd hmem List.not_mem_nil
          source := .nothing
          decoder := rfl }⟩
  | turn hw hturn ih =>
      obtain ⟨calls, hprogress⟩ := ih
      have hrunning := hw.running hm
      cases Turned.of_turn hrunning.active hturn with
      | waited hhears hactions => exact ⟨calls, hprogress.wait hrunning hhears hactions⟩
      | forwarded hhears hactions hforward =>
          exact ⟨_, hprogress.forward hrunning hhears hactions hforward⟩

/-! ## Quitting -/

/-- Nothing that a run hears of is a consumer that quits. -/
theorem Hears.not_quit (h : Hears request tickAt m stimulus heard) :
    stimulus.reason? ≠ some .consumerQuit := by
  cases h with
  | termination _ => exact fun hsame => nomatch hsame
  | tick _ => exact fun hsame => nomatch hsame
  | read _ => cases m.source.read.1 <;> exact fun hsame => nomatch hsame

/-- A run that ends because its consumer quits has read no more than it has handed over. -/
theorem Running.progress_of_quit (hm : m.Running)
    (h : (m.run consumer.recorded request).1 = .returned (.ok .consumerQuit)) :
    let ran := m.run consumer.recorded request
    ∃ calls, ran.2.consumer.2 = m.consumer.2 ++ (calls ++ [.stop ran.2.clock]) ∧
      m.source.Gives ((given calls).filterMap Batch.bytes?) ran.2.source := by
  intro ran
  rcases hm.run_cases consumer.recorded request with ⟨_, hrun⟩ | ⟨tickAt, w, hreaches, hturned⟩
  · rw [hrun] at h
    cases h
  change Turned consumer.recorded request tickAt w (some ran.1) ran.2 at hturned
  change ran.1 = _ at h
  obtain ⟨calls, hprogress⟩ := hreaches.exists_progress hm
  have hw := hreaches.running hm
  rw [h] at hturned
  generalize ran.2 = behind at hturned ⊢
  cases hturned with
  | quit hhears hactions hforward =>
      rename_i stimulus heard batch state
      have hforwarded := hprogress.forward hw hhears hactions hforward
      let told := Machine.tell { (heard.tell stimulus).2 with consumer := state } .consumerQuit
      have hstopped : told.2.stopped = false := (hhears.running hw).stopped
      obtain ⟨_, hsource, hclock⟩ := stop_frame consumer.recorded told.2
      refine ⟨calls ++ [.forward heard.clock batch], ?_, ?_⟩
      · rw [hclock]
        exact recorded_of_stop hforwarded.recorded hstopped
      · rw [hsource]
        exact hforwarded.source
  | ended hhears hactions =>
      have hreason := (Session.actions_eq_shutdown_iff (hhears.running hw).active).1 hactions
      exact absurd hreason hhears.not_quit

end Machine

end Keystroke.EventLoop
