import Keystroke.Proofs.Echo.Restoration
import Keystroke.Proofs.EventLoop.Comparison
import Keystroke.Terminal

/-! # The terminal behind a run

A run between the two ends of a terminal leaves it as it was. Its echo is started on a
sink without limits and so never fails: only a missing tick interval makes the loop
fail, and only a terminal that is not waited for makes a read fail.
-/

namespace Keystroke.EventLoop

variable {σ ε : Type}

theorem Machine.run_eq_runToEnd (consumer : Consumer σ ε) (termination : Option (Nat × String))
    (m : Machine σ) :
    m.run consumer ⟨termination, none⟩ =
      (.returned (m.runToEnd consumer termination).1, (m.runToEnd consumer termination).2) := by
  unfold runToEnd
  split
  · assumption
  · rename_i hdropped
    exact absurd (congrArg Prod.fst hdropped) (m.run_ne_dropped consumer rfl)

end Keystroke.EventLoop

namespace Keystroke.Terminal

open Echo (Closed Fault closing opening transcript)
open EventLoop (Call Machine Outcome Request RunError Source given)
open EventLoop.Machine (Ending Hears Reaches fresh running_fresh)

/-! ## What is read -/

/-- Users do not make reads fail. -/
theorem no_failure_schedule (config : Session.Config) (now : Nat) (script : List UserAction)
    (ready : Nat) (error : String) :
    ⟨ready, .failure error⟩ ∉ (schedule config now script).1 := by
  induction script generalizing now with
  | nil => exact List.not_mem_nil
  | cons action script ih =>
      cases action with
      | type bytes =>
          rw [schedule]
          intro hmem
          rcases List.mem_cons.1 hmem with hdata | hrest
          · cases hdata
          · exact ih now hrest
      | awaitFlush => exact ih (now + flushTime config)
      | signal name =>
          intro hmem
          cases List.mem_singleton.1 hmem

/-- A read fails only where it would have to wait. -/
theorem failure_of_input {config : Session.Config} {setup : Setup} {ready : Nat} {error : String}
    (h : ⟨ready, .failure error⟩ ∈ (setup.input config).1) :
    setup.nonblocking = true ∧ error = wouldWait := by
  unfold Setup.input at h
  split at h
  · rename_i hnonblocking
    cases List.mem_singleton.1 h
    exact ⟨hnonblocking, rfl⟩
  · exact absurd h (no_failure_schedule config 1 setup.script ready error)

/-! ## The run of the loop -/

/-- The loop at a terminal, in front of its run. -/
def machine (config : Session.Config) (setup : Setup) : Machine (Echo × List Call) :=
  fresh config setup.settings.eraseKey (Echo.ready, []) (setup.input config).1 0

/-- The terminal is never taken away, but a signal may come. -/
def request (config : Session.Config) (setup : Setup) : Request :=
  ⟨(setup.input config).2, none⟩

/-- The run of the loop, with the calls of its echo. -/
def ran (config : Session.Config) (setup : Setup) : Outcome Fault × Machine (Echo × List Call) :=
  (machine config setup).run Echo.consumer.recorded (request config setup)

variable {config : Session.Config} {setup : Setup}

theorem running_machine (config : Session.Config) (setup : Setup) :
    (machine config setup).Running :=
  running_fresh _ _ _ _ _

theorem run_eq_ended (hinput : setup.inputIsTerminal = true)
    (houtput : setup.outputIsTerminal = true) :
    let ended := ((machine config setup).handTo Echo.ready).runToEnd Echo.consumer
      (setup.input config).2
    run config setup =
      ⟨resultOf ended.1, String.ofList ended.2.consumer.sink.taken, some setup.settings.raw,
        setup.settings, .enteredRawMode setup.settings.eraseKey :: ended.2.records ++
          ended.2.consumer.records ++ .restoredSettings :: finalRecords ended.1⟩ := by
  have hterminal : (setup.inputIsTerminal && setup.outputIsTerminal) = true := by
    rw [hinput, houtput]
    rfl
  rw [run, if_pos hterminal]
  rfl

/-- The echo puts the terminal back, and has no failure to log. -/
theorem closed_ran {result : Except (RunError Fault) ShutdownReason}
    (h : (ran config setup).1 = .returned result) :
    Closed (ran config setup).2.consumer ∧ (ran config setup).2.consumer.1.records = [] := by
  have hover := (running_machine config setup).run_over Echo.keeps_unfailing
    Echo.unfailing_ready (request config setup)
  rw [← ran, h] at hover
  cases hover with
  | returned _ hunfailing hstop =>
      rw [hstop]
      exact ⟨hunfailing.toShowing.stop _, hunfailing.records_stop⟩

theorem run_eq (config : Session.Config) (hinput : setup.inputIsTerminal = true)
    (houtput : setup.outputIsTerminal = true) :
    ∃ result, (ran config setup).1 = .returned result ∧
      run config setup =
        ⟨resultOf result, String.ofList (ran config setup).2.consumer.1.sink.taken,
          some setup.settings.raw, setup.settings,
          .enteredRawMode setup.settings.eraseKey :: (ran config setup).2.records ++
            .restoredSettings :: finalRecords result⟩ := by
  have hrecorded : ((machine config setup).handTo Echo.ready).run Echo.consumer
      (request config setup) = _ := (running_machine config setup).run_recorded _ _
  have hrun := Machine.run_eq_runToEnd Echo.consumer (setup.input config).2
    ((machine config setup).handTo Echo.ready)
  have hboth := Prod.mk.inj (hrecorded.symm.trans hrun)
  have hsilent : (((machine config setup).handTo Echo.ready).runToEnd Echo.consumer
      (setup.input config).2).2.consumer.records = [] := by
    rw [← hboth.2]
    exact (closed_ran hboth.1).2
  refine ⟨_, hboth.1, ?_⟩
  rw [run_eq_ended hinput houtput, hsilent, List.append_nil, ← hboth.2]
  rfl

/-! ## What can fail -/

/-- The loop fails for want of a tick interval and for nothing else. -/
theorem failed_ran_iff {failure : RunError Fault} :
    (ran config setup).1 = .returned (.error failure) ↔
      config.tickInterval.nanos = 0 ∧ failure = .zeroTickInterval := by
  have hm := running_machine config setup
  rw [ran, hm.returned_failure_iff]
  refine ⟨?_, .inl⟩
  rintro (hzero | ⟨fault, heard, batch, _, hanswered⟩)
  · exact hzero
  · exfalso
    have hunfailing := hanswered.keeps Echo.keeps_unfailing hm Echo.unfailing_ready
    obtain ⟨_, _, _, _, _, _, hfault⟩ := hanswered
    have hboth : Except.ok (Echo.flow batch) = Except.error fault :=
      (hunfailing.answer batch).symm.trans hfault
    cases hboth

/-- A read fails on a terminal that is not waited for and on no other. -/
theorem ending_readFailed_iff {description : String} :
    Ending Echo.consumer.recorded (request config setup) (machine config setup)
        (.readFailed description) ↔
      0 < config.tickInterval.nanos ∧ setup.nonblocking = true ∧ description = wouldWait := by
  have hm := running_machine config setup
  constructor
  · intro hending
    cases hending with
    | readFailed hreaches _ hread =>
        have hleft := hreaches.of_source (Q := fun source => ∀ ready error,
            ⟨ready, .failure error⟩ ∈ source → setup.nonblocking = true ∧ error = wouldWait)
          (fun source hsource ready error hmem =>
            hsource ready error (EventLoop.Source.failure_mem_of_read hmem))
          hm (fun ready error hmem => failure_of_input hmem)
        obtain ⟨ready, hmem⟩ := EventLoop.Source.failure_mem_of_failed hread
        exact ⟨hreaches.interval_pos, hleft ready description hmem⟩
  · rintro ⟨hp, hnonblocking, rfl⟩
    have hinput : setup.input config = ([⟨0, .failure wouldWait⟩], none) := if_pos hnonblocking
    have hsource : (machine config setup).source = [⟨0, .failure wouldWait⟩] :=
      congrArg Prod.fst hinput
    have hquiet : request config setup = EventLoop.quiet := by
      rw [request, hinput]
      rfl
    have hreaches : Reaches Echo.consumer.recorded (request config setup) (machine config setup) _
      (machine config setup).started := .start rfl hp
    have hdue : (machine config setup).started.due (request config setup)
        (0 + config.tickInterval.nanos) = (0, .read) := by
      rw [hquiet, Machine.due, Machine.started, hsource]
      exact EventLoop.quiet_next_read (Nat.zero_le _)
    have hread : (machine config setup).started.source.read.1 = .failed wouldWait := by
      rw [Machine.started, hsource]
      rfl
    exact .readFailed hreaches hdue hread

/-- A terminal run fails with its loop, or with a read. -/
theorem resultOf_eq_error_iff {result : Except (RunError Fault) ShutdownReason} {error : Error} :
    resultOf result = .error error ↔
      (∃ failure, result = .error failure ∧ error = .run failure) ∨
        ∃ description, result = .ok (.readFailed description) ∧
          error = .readFailed description := by
  cases result with
  | error failure =>
      rw [resultOf]
      simp [eq_comm]
  | ok reason => cases reason <;> simp [resultOf, eq_comm]

/-! ## The terminal -/

/-- A terminal that a run leaves as it was. -/
structure PutBack (config : Session.Config) (setup : Setup) : Prop where
  output : (run config setup).output.toList =
    opening ++ transcript (given (ran config setup).2.consumer.2) ++ closing
  settings : (run config setup).settings = setup.settings
  /-- The result is an error if and only if the loop or a read has failed. -/
  failed : (∃ error, (run config setup).result = .error error) ↔
    (∃ failure, (ran config setup).1 = .returned (.error failure)) ∨
      ∃ description, Ending Echo.consumer.recorded (request config setup) (machine config setup)
        (.readFailed description)
  error : ∀ error, (run config setup).result = .error error ↔
    (config.tickInterval.nanos = 0 ∧ error = .run .zeroTickInterval) ∨
      (0 < config.tickInterval.nanos ∧ setup.nonblocking = true ∧ error = .readFailed wouldWait)

/-- The result of a terminal run is that of its loop, and a failed read in it an error. -/
theorem result_eq_error_iff (hinput : setup.inputIsTerminal = true)
    (houtput : setup.outputIsTerminal = true) {error : Error} :
    (run config setup).result = .error error ↔
      (∃ failure, (ran config setup).1 = .returned (.error failure) ∧ error = .run failure) ∨
        ∃ description, Ending Echo.consumer.recorded (request config setup)
          (machine config setup) (.readFailed description) ∧ error = .readFailed description := by
  have hending (description : String) : Ending Echo.consumer.recorded (request config setup)
      (machine config setup) (.readFailed description) ↔
        (ran config setup).1 = .returned (.ok (.readFailed description)) :=
    (running_machine config setup).returned_ok_iff.symm
  obtain ⟨result, hreturned, hrun⟩ := run_eq config hinput houtput
  rw [hrun, resultOf_eq_error_iff]
  simp only [hending, hreturned, Outcome.returned.injEq]

theorem putBack_run (hinput : setup.inputIsTerminal = true)
    (houtput : setup.outputIsTerminal = true) : PutBack config setup := by
  obtain ⟨result, hreturned, hrun⟩ := run_eq config hinput houtput
  refine
    { output := ?_
      settings := by rw [hrun]
      failed := ?_
      error := fun error => ?_ }
  · rw [hrun, String.toList_ofList]
    exact (closed_ran hreturned).1.taken
  · simp only [result_eq_error_iff hinput houtput]
    constructor
    · rintro ⟨_, ⟨failure, hfailed, _⟩ | ⟨description, hread, _⟩⟩
      · exact .inl ⟨failure, hfailed⟩
      · exact .inr ⟨description, hread⟩
    · rintro (⟨failure, hfailed⟩ | ⟨description, hread⟩)
      · exact ⟨_, .inl ⟨failure, hfailed, rfl⟩⟩
      · exact ⟨_, .inr ⟨description, hread, rfl⟩⟩
  · rw [result_eq_error_iff hinput houtput]
    simp only [failed_ran_iff, ending_readFailed_iff]
    constructor
    · rintro (⟨_, ⟨hzero, rfl⟩, rfl⟩ | ⟨_, ⟨hp, hnonblocking, rfl⟩, rfl⟩)
      · exact .inl ⟨hzero, rfl⟩
      · exact .inr ⟨hp, hnonblocking, rfl⟩
    · rintro (⟨hzero, rfl⟩ | ⟨hp, hnonblocking, rfl⟩)
      · exact .inl ⟨_, ⟨hzero, rfl⟩, rfl⟩
      · exact .inr ⟨_, ⟨hp, hnonblocking, rfl⟩, rfl⟩

/-- The first run of a started echo that is not dropped puts the terminal back behind the lines of
the batches, and the runs behind it write nothing. A run at a terminal does so too, puts the
settings back, and fails only with its loop or a read. -/
theorem put_back :
    (∀ (config : Session.Config) (backspace : UInt8) (flushLimit : Option Nat) (echo : Echo)
      (source : Source) (clock : Nat) (requests : List Request)
      (result : Except (RunError Fault) ShutdownReason) (behind : Machine (Echo × List Call))
      (earlier later : List (Outcome Fault × Machine (Echo × List Call))),
      (Echo.new (.new none flushLimit)).start = (.ok (), echo) →
      (fresh config backspace (echo, []) source clock).runAll Echo.consumer.recorded requests =
        earlier ++ (.returned result, behind) :: later →
      (∀ ran ∈ earlier, ran.1 = .dropped) →
      behind.consumer.1.sink.taken =
          opening ++ transcript (given behind.consumer.2) ++ closing ∧
        ∀ ran ∈ later, ran.2 = behind) ∧
    ∀ (config : Session.Config) (setup : Setup), setup.inputIsTerminal = true →
      setup.outputIsTerminal = true → PutBack config setup := by
  refine ⟨?_, fun config setup hinput houtput => putBack_run hinput houtput⟩
  intro config backspace flushLimit echo source clock requests result behind earlier later hstart
    hruns hearlier
  obtain ⟨hclosed, hlater⟩ :=
    Echo.closed_of_returned config backspace source clock hstart hruns hearlier
  exact ⟨hclosed.taken, hlater⟩

/-- The flush behind the greeting succeeds and the flush behind a key fails, in the second run. A
terminal that is not waited for gets its settings back, too. -/
theorem put_back_after_failures :
    let echo := (Echo.new (.new none (some 1))).start.2
    let key : Batch := .input [0x61] [.character 'a']
    let m := fresh ⟨.ofNanos 2, .ofNanos 5⟩ 0x7f (echo, ([] : List Call)) [⟨1, .data [0x61]⟩] 0
    let told := ((m.started.started.fetch 1).tell (.input [0x61])).2
    let behind := Machine.stop Echo.consumer.recorded
      { told with consumer := (Echo.consumer.recorded.forward 1 key (echo, [])).2 }
    let setup : Setup := ⟨.interactive 0x7f, true, true, true, []⟩
    m.runAll Echo.consumer.recorded [⟨none, some 0⟩, EventLoop.quiet, EventLoop.quiet] =
        [(.dropped, m.started), (.returned (.error (.consumer .flushFailed)), behind),
          (.returned (.error .stopped), behind)] ∧
      behind.consumer.1.sink.taken = opening ++ transcript [key] ++ closing ∧
      (run .standard setup).settings = setup.settings ∧
      (run .standard setup).result = .error (.readFailed wouldWait) := by
  intro echo key m told behind setup
  have hm : m.Running := running_fresh _ _ _ _ _
  have hdropped : m.run Echo.consumer.recorded ⟨none, some 0⟩ = (.dropped, m.started) :=
    (Reaches.start rfl (by decide)).run_of_turn hm (Machine.turn_of_drop rfl)
  have hfailed : m.started.run Echo.consumer.recorded EventLoop.quiet =
      (.returned (.error (.consumer .flushFailed)), behind) := by
    have hhears : Hears EventLoop.quiet 2 m.started.started (.input [0x61])
        (m.started.started.fetch 1) := .read rfl
    have hactions : ((m.started.started.fetch 1).session.handle (.input [0x61])).actions =
        [.forward key] := by decide +kernel
    have hfault : (Echo.consumer.recorded.forward told.clock key told.consumer).1 =
        .error .flushFailed := by rfl
    have hturn : m.started.started.turn Echo.consumer.recorded EventLoop.quiet 2 2 = _ :=
      hhears.turn_eq_performed
    rw [hactions, Machine.performed,
      Machine.perform_forward_of_error (m := told) (Prod.ext hfault rfl)] at hturn
    exact (Reaches.start rfl (by decide)).run_of_turn hm.started hturn
  have hruns : m.runAll Echo.consumer.recorded [⟨none, some 0⟩, EventLoop.quiet, EventLoop.quiet] =
      [(.dropped, m.started)] ++ (.returned (.error (.consumer .flushFailed)), behind) ::
        [(.returned (.error .stopped), behind)] := by
    rw [Machine.runAll, hdropped, Machine.runAll, hfailed, Machine.runAll,
      Machine.run_of_stopped rfl, Machine.runAll]
    rfl
  have hstart : (Echo.new (.new none (some 1))).start = (.ok (), echo) := by rfl
  obtain ⟨htaken, _⟩ := put_back.1 ⟨.ofNanos 2, .ofNanos 5⟩ 0x7f (some 1) echo
    [⟨1, .data [0x61]⟩] 0 _ _ _ [_] _ hstart hruns (by simp)
  have hput := put_back.2 .standard setup rfl rfl
  refine ⟨hruns, htaken, hput.settings, ?_⟩
  exact (hput.error _).2 (.inr ⟨by decide, rfl, rfl⟩)

end Keystroke.Terminal
