import Keystroke.Proofs.EventLoop.Account
import Keystroke.Proofs.EventLoop.Outlook

/-! # Resumption

A run that was dropped is taken up by the next. The next has the session of the first,
with the bytes held back and the idle time, and reads on where the first has stopped;
but it counts its ticks from another instant. That makes a difference to nothing but
idle flushes.
-/

namespace Keystroke.EventLoop.Machine

variable {σ ε : Type} {m : Machine σ} {consumer : Consumer σ ε}
  {termination : Option (Nat × String)}

/-- The last call shows the clock. -/
theorem Over.clock_eq {m m' : Machine (σ × List Call)} {consumer : Consumer σ ε}
    {P : σ × List Call → Prop} {result result' : Except (RunError ε) ShutdownReason}
    (h : Over consumer.recorded P (.returned result) m)
    (h' : Over consumer.recorded P (.returned result') m') (hsame : m.consumer = m'.consumer) :
    m.clock = m'.clock := by
  cases h with
  | returned _ _ hstop =>
      cases h' with
      | returned _ _ hstop' =>
          rw [hstop, hstop'] at hsame
          have hcall := (List.append_singleton_inj.1 (congrArg Prod.snd hsame)).2
          exact Call.stop.inj hcall

/-- Without a tick interval no run is dropped. -/
theorem runs_of_zero {requests : List Request} {ran : Outcome ε × Machine σ}
    {earlier later : List (Outcome ε × Machine σ)} (hm : m.Running)
    (hzero : m.session.config.tickInterval.nanos = 0)
    (hruns : m.runAll consumer requests = earlier ++ ran :: later)
    (hearlier : ∀ ran ∈ earlier, ran.1 = .dropped) (request : Request) :
    m.run consumer request = ran := by
  have hkeeps : ∀ w : Machine σ, w = m → ∀ request ∈ requests,
      (w.run consumer request).1 = .dropped → (w.run consumer request).2 = m := by
    rintro w rfl request _ hdropped
    rw [run_of_zero hm hzero] at hdropped
    cases hdropped
  obtain ⟨w, last, _, hw, _, hran, _⟩ := exists_run_of_runAll hkeeps rfl hruns hearlier
  rw [← hran, hw, run_of_zero hm hzero, run_of_zero hm hzero]

/-- Runs that were dropped and the run that returns end like one run that nobody drops, if no idle
flush falls due. -/
theorem Running.returned_like_alone {m behind : Machine (σ × List Call)} {consumer : Consumer σ ε}
    {requests : List Request} {earlier : List (Outcome ε × Machine (σ × List Call))}
    {result : Except (RunError ε) ShutdownReason} (hm : m.Running)
    (hidle : m.session.idle.nanos ≤ m.clock)
    (hhorizon : m.source.horizon 0 ≤ m.session.config.idleThreshold.nanos)
    (hshared : ∀ request ∈ requests, request.termination = termination)
    (hruns : m.runAll consumer.recorded requests = earlier ++ [(.returned result, behind)])
    (hearlier : ∀ ran ∈ earlier, ran.1 = .dropped) :
    let alone := m.run consumer.recorded ⟨termination, none⟩
    alone.1 = .returned result ∧ alone.2.consumer = behind.consumer ∧
      alone.2.clock = behind.clock := by
  intro alone
  rcases Nat.eq_zero_or_pos m.session.config.tickInterval.nanos with hzero | hp
  · have halone : alone = _ := runs_of_zero hm hzero hruns hearlier ⟨termination, none⟩
    rw [halone]
    exact ⟨rfl, rfl, rfl⟩
  have hprompt : Prompt m := ⟨hm, hp, hidle, .inl hhorizon⟩
  have houtlook := hprompt.outlook_eq hshared hruns hearlier
  have hkeeps : Keeps consumer.recorded fun _ => True := fun _ _ _ _ => trivial
  have hbehind := (hm.over_of_returned hkeeps trivial hruns hearlier).1
  have hover := hm.run_over hkeeps trivial ⟨termination, none⟩
  have hforesees := hprompt.run consumer.recorded ⟨termination, none⟩
  have hreturned : alone.1 ≠ .dropped := m.run_ne_dropped consumer.recorded rfl
  change Over consumer.recorded _ alone.1 alone.2 at hover
  change Foresees consumer.recorded termination _ m (some alone.1) alone.2 0 at hforesees
  generalize alone = alone at hreturned hforesees hover ⊢
  obtain ⟨outcome, behind'⟩ := alone
  cases hforesees with
  | dropped _ _ => exact absurd rfl hreturned
  | returned hresult =>
      obtain ⟨hsame, hconsumer⟩ := Prod.mk.inj (hresult.symm.trans houtlook)
      exact ⟨congrArg Outcome.returned hsame, hconsumer, hover.clock_eq hbehind hconsumer⟩

/-- Runs of which all but the last were dropped go on with one session, and hand over the bytes of
the source in order; nothing is lost with a run that is dropped. If the idle threshold is at least
the last instant of the source, the last run returns what one run returns that nobody drops, at the
same instant and behind the same calls. -/
theorem resumption (consumer : Consumer σ ε) (config : Session.Config) (backspace : UInt8)
    (state : σ) (source : Source) (start : Nat) (termination : Option (Nat × String))
    (requests : List Request) (earlier : List (Outcome ε × Machine (σ × List Call)))
    (outcome : Outcome ε) (behind : Machine (σ × List Call))
    (hshared : ∀ request ∈ requests, request.termination = termination)
    (hruns : (fresh config backspace (state, []) source start).runAll consumer.recorded requests =
      earlier ++ [(outcome, behind)])
    (hearlier : ∀ ran ∈ earlier, ran.1 = .dropped) :
    let m := fresh config backspace (state, ([] : List Call)) source start
    Resumed m (earlier ++ [(outcome, behind)]) ∧
      Accounts m (some outcome) behind ∧
      ((given behind.consumer.2).filterMap Batch.bytes?).flatten <+: source.data ∧
      (source.horizon 0 ≤ config.idleThreshold.nanos → ∀ result, outcome = .returned result →
        let alone := m.run consumer.recorded ⟨termination, none⟩
        alone.1 = .returned result ∧ alone.2.consumer = behind.consumer ∧
          alone.2.clock = behind.clock) := by
  intro m
  have hm : m.Running := running_fresh config backspace (state, []) source start
  have hresumed := hm.resumed hruns hearlier
  have haccounts := hresumed.accounts
  refine ⟨hresumed, haccounts, ?_, ?_⟩
  · obtain ⟨stimuli, left, hcontinues⟩ := haccounts.exists_continues
    have hbatches : given behind.consumer.2 = m.session.batches stimuli := hcontinues.batches
    rw [hbatches]
    exact ⟨left, hcontinues.data.symm⟩
  · rintro hhorizon result rfl
    exact hm.returned_like_alone (Nat.zero_le _) hhorizon hshared hruns hearlier

/-- A run is dropped with an escape held back. The next takes it up, and makes the same cursor key
of it as a run that nobody drops. -/
theorem resumption_of_cursorKey :
    let consumer : Consumer Nat Unit := .scripted none []
    let m := fresh ⟨.ofNanos 10, .ofNanos 10⟩ 0x7f ((0, []) : Nat × List Call)
      [⟨1, .data [0x1b]⟩, ⟨5, .data [0x5b, 0x41]⟩] 0
    let cancelled := m.run consumer.recorded ⟨none, some 3⟩
    let resumed := cancelled.2.run consumer.recorded quiet
    cancelled.1 = .dropped ∧ cancelled.2.session.decoder.pending = [0x1b] ∧
      resumed.1 = .returned (.ok .endOfInput) ∧
      resumed.2.consumer.2 =
        [.forward 1 (.input [0x1b] []), .forward 5 (.input [0x5b, 0x41] [.function .up]),
          .stop 5] := by
  intro consumer m cancelled resumed
  let escaped : Machine (Nat × List Call) :=
    { ((m.started.fetch 1).tell (.input [0x1b])).2 with
      consumer := (1, [.forward 1 (.input [0x1b] [])]) }
  have hm : m.Running := running_fresh _ _ _ _ _
  have hreaches : Reaches consumer.recorded ⟨none, some 3⟩ m 10 escaped := by
    have hhears : Hears ⟨none, some 3⟩ 10 m.started (.input [0x1b]) (m.started.fetch 1) := .read rfl
    have hactions : ((m.started.fetch 1).session.handle (.input [0x1b])).actions =
        [.forward (.input [0x1b] [])] := by decide +kernel
    have hturn : m.started.turn consumer.recorded ⟨none, some 3⟩ 10 10 = _ := hhears.turn_eq_performed
    rw [hactions, performed,
      perform_forward_of_proceed (m := ((m.started.fetch 1).tell (.input [0x1b])).2) rfl] at hturn
    exact (Reaches.start rfl (by decide)).turn hturn
  have hcancelled : cancelled = (.dropped, { escaped with clock := 3 }) :=
    hreaches.run_of_turn hm (turn_of_drop rfl)
  obtain ⟨result, hresult⟩ : ∃ result, resumed.1 = .returned result := by
    cases houtcome : resumed.1 with
    | returned result => exact ⟨result, rfl⟩
    | dropped => exact absurd houtcome (run_ne_dropped consumer.recorded _ rfl)
  have hruns : m.runAll consumer.recorded [⟨none, some 3⟩, quiet] =
      [cancelled] ++ [(resumed.1, resumed.2)] := rfl
  have hresumption := resumption consumer ⟨.ofNanos 10, .ofNanos 10⟩ 0x7f 0
    [⟨1, .data [0x1b]⟩, ⟨5, .data [0x5b, 0x41]⟩] 0 none [⟨none, some 3⟩, quiet] [cancelled]
    resumed.1 resumed.2 (by simp [quiet]) hruns (by simp [hcancelled])
  obtain ⟨hreturned, hconsumer, _⟩ := hresumption.2.2.2 (by decide) result hresult
  -- The run that nobody drops is that of the timeline.
  have hreadings : Source.readings 0 [⟨1, .data [0x1b]⟩, ⟨5, .data [0x5b, 0x41]⟩] =
      ⟨[(1, [0x1b]), (5, [0x5b, 0x41])], 5, .endOfInput⟩ := by
    rw [Source.readings_of_chunk rfl, Source.readings_of_chunk rfl,
      Source.readings_of_endOfInput rfl]
    rfl
  have hp : 0 < (⟨.ofNanos 10, .ofNanos 10⟩ : Session.Config).tickInterval.nanos := by decide
  obtain ⟨hreason, hcalls⟩ := run_of_proceeds consumer (fun _ _ _ => rfl) hp 0x7f 0
    [⟨1, .data [0x1b]⟩, ⟨5, .data [0x5b, 0x41]⟩] 0 (.inl (by decide))
  rw [hreadings] at hreason hcalls
  refine ⟨by rw [hcancelled], ?_, ?_, ?_⟩
  · rw [hcancelled]
    decide +kernel
  · rw [hresult, ← hreturned]
    exact hreason
  · rw [← hconsumer]
    refine hcalls.trans ?_
    decide +kernel

end Keystroke.EventLoop.Machine
