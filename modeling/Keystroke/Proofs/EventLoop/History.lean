import Keystroke.Proofs.EventLoop.Turns

/-! # Histories of runs

A machine is run again and again. A run that is dropped leaves a machine behind that
can be run again; the first run that returns stops the consumer, and every run behind
it is refused. So a consumer is handed batches, and is then stopped once, if it is.
-/

namespace Keystroke.EventLoop

/-- The batch that a call hands over. -/
def Call.batch? : Call → Option Batch
  | .forward _ batch => some batch
  | .stop _ => none

/-- The batches that were handed over in the calls, in order. -/
def given (calls : List Call) : List Batch :=
  calls.filterMap Call.batch?

theorem given_concat_forward (calls : List Call) (instant : Nat) (batch : Batch) :
    given (calls ++ [.forward instant batch]) = given calls ++ [batch] :=
  List.filterMap_append

theorem given_concat_stop (calls : List Call) (instant : Nat) :
    given (calls ++ [.stop instant]) = given calls :=
  List.filterMap_append.trans (List.append_nil _)

/-- Calls among which there is no stop. -/
def Unstopped (calls : List Call) : Prop :=
  ∀ call ∈ calls, call.isStop = false

/-- Calls of which the last, and no other, is a stop. -/
def StoppedOnce (calls : List Call) : Prop :=
  ∃ given instant, calls = given ++ [.stop instant] ∧ Unstopped given

theorem Unstopped.no_stop {calls : List Call} (h : Unstopped calls) :
    ¬∃ call ∈ calls, call.isStop = true := by
  rintro ⟨call, hmem, hstop⟩
  rw [h call hmem] at hstop
  cases hstop

theorem StoppedOnce.exists_stop {calls : List Call} (h : StoppedOnce calls) :
    ∃ call ∈ calls, call.isStop = true := by
  obtain ⟨given, instant, rfl, _⟩ := h
  exact ⟨.stop instant, List.mem_append_right given (List.mem_singleton_self _), rfl⟩

namespace Machine

variable {σ ε : Type} {consumer : Consumer σ ε} {request : Request} {tickAt : Nat}
  {m m' : Machine σ} {outcome : Outcome ε} {P : σ → Prop}

theorem keeps_unstopped (consumer : Consumer σ ε) :
    Keeps consumer.recorded (fun state => Unstopped state.2) := by
  intro instant batch state hstate call hmem
  rcases List.mem_append.1 hmem with hearlier | hlast
  · exact hstate call hearlier
  · rw [List.mem_singleton.1 hlast]
    rfl

/-! ## The end of a run -/

/-- What the end of a run leaves behind: a machine that can be run again, or one whose consumer
was stopped. Either has the property that calls with batches keep. -/
inductive Over (consumer : Consumer σ ε) (P : σ → Prop) : Outcome ε → Machine σ → Prop
  | dropped {m : Machine σ} : m.Running → P m.consumer → Over consumer P .dropped m
  | returned {m : Machine σ} {result : Except (RunError ε) ShutdownReason} {state : σ} :
      m.stopped = true → P state → m.consumer = consumer.stop m.clock state →
      Over consumer P (.returned result) m

theorem Over.of_stop {result : Except (RunError ε) ShutdownReason} (hm : m.stopped = false)
    (h : P m.consumer) : Over consumer P (.returned result) (m.stop consumer) := by
  rw [stop_of_running hm]
  exact .returned rfl h rfl

theorem Turned.over (hP : Keeps consumer P)
    (h : Turned consumer request tickAt m (some outcome) m') (hm : m.Running)
    (hconsumer : P m.consumer) : Over consumer P outcome m' := by
  cases h with
  | dropped _ => exact .dropped ⟨hm.active, hm.stopped, hm.shutdowns⟩ hconsumer
  | quit hhears _ hforward =>
      have hkept := hP.of_forward hforward (hhears.keeps hconsumer)
      exact .of_stop (hhears.running hm).stopped hkept
  | failed hhears _ hforward =>
      have hkept := hP.of_forward hforward (hhears.keeps hconsumer)
      exact .of_stop (hhears.running hm).stopped hkept
  | ended hhears _ =>
      exact .of_stop (hhears.running hm).stopped (hhears.keeps hconsumer)

/-- What a run leaves behind, seen from one of its turns. -/
theorem Reaches.run_over {w : Machine σ} (hP : Keeps consumer P)
    (h : Reaches consumer request m tickAt w) (hm : m.Running) (hconsumer : P w.consumer) :
    Over consumer P (m.run consumer request).1 (m.run consumer request).2 := by
  obtain ⟨hp, hrun⟩ := h.run_eq hm
  rw [hrun]
  clear hrun
  fun_induction loop consumer request m.session.config.tickInterval.nanos hp tickAt w with
  | case1 tickAt w ha outcome w' tickAt' hturn =>
      exact (Turned.of_turn ha hturn).over hP (h.running hm) hconsumer
  | case2 tickAt w ha w' tickAt' hturn ih =>
      have hgoes := (Turned.of_turn ha hturn).goes_on hP (h.running hm) hconsumer
      exact ih (h.turn hturn) hgoes.2
  | case3 tickAt w hended => exact absurd (h.running hm).active hended

theorem Running.run_over (hP : Keeps consumer P) (hm : m.Running) (hconsumer : P m.consumer)
    (request : Request) :
    Over consumer P (m.run consumer request).1 (m.run consumer request).2 := by
  rcases Nat.eq_zero_or_pos m.session.config.tickInterval.nanos with hzero | hp
  · rw [run_of_zero hm hzero]
    exact .of_stop hm.stopped hconsumer
  · exact (Reaches.start hm.stopped hp).run_over hP hm hconsumer

/-! ## Run after run -/

theorem runAll_of_stopped (h : m.stopped = true) (consumer : Consumer σ ε)
    (requests : List Request) :
    m.runAll consumer requests = requests.map fun _ => (.returned (.error .stopped), m) := by
  induction requests with
  | nil => rfl
  | cons request requests ih =>
      rw [runAll, run_of_stopped h, List.map_cons, ih]

/-- What no dropped run breaks holds where the run behind all dropped ones starts. -/
theorem exists_run_of_runAll {I : Machine σ → Prop} {requests : List Request}
    {ran : Outcome ε × Machine σ} {earlier later : List (Outcome ε × Machine σ)}
    (hkeeps : ∀ w, I w → ∀ request ∈ requests, (w.run consumer request).1 = .dropped →
      I (w.run consumer request).2)
    (hm : I m) (h : m.runAll consumer requests = earlier ++ ran :: later)
    (hearlier : ∀ ran ∈ earlier, ran.1 = .dropped) :
    ∃ w request rest, I w ∧ request ∈ requests ∧ w.run consumer request = ran ∧
      later = ran.2.runAll consumer rest := by
  induction requests generalizing m earlier with
  | nil => exact absurd h.symm (List.append_ne_nil_of_right_ne_nil earlier (List.cons_ne_nil _ _))
  | cons request requests ih =>
      rw [runAll] at h
      cases earlier with
      | nil =>
          obtain ⟨hran, hlater⟩ := List.cons.inj h
          rw [hran] at hlater
          exact ⟨m, request, requests, hm, List.mem_cons_self, hran, hlater.symm⟩
      | cons first earlier =>
          obtain ⟨hfirst, hrest⟩ := List.cons.inj h
          rw [List.forall_mem_cons] at hearlier
          have hnext := hkeeps m hm request List.mem_cons_self (by rw [hfirst, hearlier.1])
          obtain ⟨w, last, rest, hw, hmem, hran, hlater⟩ := ih
            (fun w hw request hmem => hkeeps w hw request (List.mem_cons_of_mem _ hmem)) hnext hrest
            hearlier.2
          exact ⟨w, last, rest, hw, List.mem_cons_of_mem _ hmem, hran, hlater⟩

/-- Behind runs that were dropped, the first that returns stops the consumer. The runs behind that
are refused and leave the machine as it is. -/
theorem Running.over_of_returned {result : Except (RunError ε) ShutdownReason}
    {requests : List Request} {earlier later : List (Outcome ε × Machine σ)} (hP : Keeps consumer P)
    (hm : m.Running) (hconsumer : P m.consumer)
    (h : m.runAll consumer requests = earlier ++ (.returned result, m') :: later)
    (hearlier : ∀ ran ∈ earlier, ran.1 = .dropped) :
    Over consumer P (.returned result) m' ∧
      ∀ ran ∈ later, ran = (.returned (.error .stopped), m') := by
  have hkeeps : ∀ w : Machine σ, w.Running ∧ P w.consumer → ∀ request ∈ requests,
      (w.run consumer request).1 = .dropped →
        (w.run consumer request).2.Running ∧ P (w.run consumer request).2.consumer := by
    rintro w ⟨hw, hstate⟩ request _ hdropped
    have hover := hw.run_over hP hstate request
    rw [hdropped] at hover
    generalize (w.run consumer request).2 = behind at hover ⊢
    cases hover with
    | dropped hbehind hkept => exact ⟨hbehind, hkept⟩
  obtain ⟨w, request, rest, ⟨hw, hstate⟩, _, hran, hlater⟩ :=
    exists_run_of_runAll hkeeps ⟨hm, hconsumer⟩ h hearlier
  have hover := hw.run_over hP hstate request
  rw [hran] at hover
  have hstopped : m'.stopped = true := by
    cases hover with
    | returned hstopped _ _ => exact hstopped
  refine ⟨hover, fun ran hmem => ?_⟩
  rw [hlater, runAll_of_stopped hstopped] at hmem
  obtain ⟨_, _, hsame⟩ := List.mem_map.1 hmem
  exact hsame.symm

/-- Runs of a machine whose consumer records its calls: some that are dropped, without a stop, and
then one that returns. That run stops the consumer, and all runs behind it are refused and leave
the machine as it is. -/
inductive Orderly : List (Outcome ε × Machine (σ × List Call)) → Prop
  | none : Orderly []
  | dropped {m : Machine (σ × List Call)} {later : List (Outcome ε × Machine (σ × List Call))} :
      Unstopped m.consumer.2 → Orderly later → Orderly ((.dropped, m) :: later)
  | returned {m : Machine (σ × List Call)} {result : Except (RunError ε) ShutdownReason}
      {later : List (Outcome ε × Machine (σ × List Call))} :
      StoppedOnce m.consumer.2 → (∀ ran ∈ later, ran = (.returned (.error .stopped), m)) →
      Orderly ((.returned result, m) :: later)

theorem Running.orderly_runAll {m : Machine (σ × List Call)} (consumer : Consumer σ ε)
    (hm : m.Running) (hcalls : Unstopped m.consumer.2) (requests : List Request) :
    Orderly (m.runAll consumer.recorded requests) := by
  induction requests generalizing m with
  | nil => exact .none
  | cons request requests ih =>
      have hover := hm.run_over (keeps_unstopped consumer) hcalls request
      rw [runAll]
      generalize m.run consumer.recorded request = ran at hover ⊢
      obtain ⟨outcome, behind⟩ := ran
      cases hover with
      | dropped hbehind hgiven => exact .dropped hgiven (ih hbehind hgiven)
      | returned hstopped hgiven hstop =>
          refine .returned ⟨_, behind.clock, congrArg Prod.snd hstop, hgiven⟩ fun ran hran => ?_
          rw [runAll_of_stopped hstopped] at hran
          obtain ⟨_, _, hsame⟩ := List.mem_map.1 hran
          exact hsame.symm

/-- A consumer is stopped in a history if and only if a run returns in it. -/
theorem Orderly.stopped_iff_returned {runs : List (Outcome ε × Machine (σ × List Call))}
    (h : Orderly runs) :
    (∃ ran ∈ runs, ∃ call ∈ ran.2.consumer.2, call.isStop = true) ↔
      ∃ ran ∈ runs, ∃ result, ran.1 = .returned result := by
  induction h with
  | none => simp only [List.not_mem_nil, false_and, exists_false]
  | dropped hgiven _ ih =>
      simp only [List.mem_cons, exists_eq_or_imp, ih]
      refine or_congr_left ⟨fun hstop => absurd hstop hgiven.no_stop, ?_⟩
      rintro ⟨result, ⟨⟩⟩
  | returned hstopped _ =>
      exact ⟨fun _ => ⟨_, List.mem_cons_self, _, rfl⟩,
        fun _ => ⟨_, List.mem_cons_self, hstopped.exists_stop⟩⟩

/-- Over all runs of a machine its consumer is handed batches up to the first run that returns,
which stops it; the runs behind that are refused. A tick interval of zero is refused with the stop
as the only call, before anything is read. -/
theorem protocol_of_runs (consumer : Consumer σ ε) (config : Session.Config) (backspace : UInt8)
    (state : σ) (source : Source) (start : Nat) (requests : List Request) :
    let m := fresh config backspace (state, []) source start
    let runs := m.runAll consumer.recorded requests
    Orderly runs ∧
    ((∃ ran ∈ runs, ∃ call ∈ ran.2.consumer.2, call.isStop = true) ↔
      ∃ ran ∈ runs, ∃ result, ran.1 = .returned result) ∧
    (config.tickInterval.nanos = 0 → ∀ first later, runs = first :: later →
      first = (.returned (.error .zeroTickInterval),
        { m with stopped := true, consumer := (consumer.stop start state, [.stop start]) })) := by
  intro m runs
  have hm : m.Running := running_fresh config backspace (state, []) source start
  have horderly : Orderly runs := hm.orderly_runAll consumer (List.forall_mem_nil _) requests
  refine ⟨horderly, horderly.stopped_iff_returned, ?_⟩
  intro hzero first later hfirst
  cases requests with
  | nil => exact absurd hfirst.symm (List.cons_ne_nil first later)
  | cons request requests =>
      have hrun : m.run consumer.recorded request = first := (List.cons.inj hfirst).1
      rw [← hrun, run_of_zero hm hzero, stop_of_running hm.stopped]
      rfl

/-- The first run has the stop as its only call, the second is refused. -/
theorem runs_without_interval :
    let consumer : Consumer Nat Unit := .scripted none []
    let m := fresh ⟨.zero, .ofNanos 5⟩ 0x7f (0, []) [⟨1, .data [0x61]⟩] 3
    let ended := { m with stopped := true, consumer := (0, [.stop 3]) }
    m.runAll consumer.recorded [quiet, quiet] =
      [(.returned (.error .zeroTickInterval), ended), (.returned (.error .stopped), ended)] := by
  intro consumer m ended
  obtain ⟨_, _, hzero⟩ :=
    protocol_of_runs consumer ⟨.zero, .ofNanos 5⟩ 0x7f 0 [⟨1, .data [0x61]⟩] 3 [quiet, quiet]
  have hfirst : m.run consumer.recorded quiet = (.returned (.error .zeroTickInterval), ended) :=
    hzero rfl _ _ rfl
  rw [runAll, hfirst, runAll, run_of_stopped (m := ended) rfl, runAll]

end Machine

end Keystroke.EventLoop
