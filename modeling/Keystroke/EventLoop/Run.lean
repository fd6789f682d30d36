import Keystroke.EventLoop.Machine

/-!
# Runs of the event loop

A run takes turns until its session ends, its consumer fails, or it is dropped.
Every turn that goes on has ended the session, shortened what is left to read, or
brought the next tick closer to the next read, so a run always comes to an end.
-/

namespace Keystroke.EventLoop.Machine

variable {σ ε : Type}

/-- An ended session has less ahead of it than an active one. -/
def phaseWeight : Session.Phase → Nat
  | .active => 1
  | .terminating => 0

theorem phaseWeight_handle (s : Session) (stimulus : Session.Stimulus) :
    phaseWeight (s.handle stimulus).session.phase ≤ phaseWeight s.phase := by
  unfold Session.handle
  cases hp : s.phase with
  | terminating => exact Nat.le_of_eq (congrArg phaseWeight hp)
  | active =>
    cases stimulus with
    | tick elapsed =>
      simp only [Session.handleTick]
      split
      · simp [Session.noResponse, hp]
      · split <;> simp [Session.noResponse, hp]
    | _ => simp [Session.handleInput, Session.shutdown, phaseWeight, hp]

theorem stop_frame (consumer : Consumer σ ε) (m : Machine σ) :
    (m.stop consumer).session = m.session ∧ (m.stop consumer).source = m.source ∧
      (m.stop consumer).clock = m.clock := by
  unfold stop
  split <;> exact ⟨rfl, rfl, rfl⟩

/-- Executing actions may end the session; it neither reads nor takes time. -/
theorem perform_frame (consumer : Consumer σ ε) (m : Machine σ) (actions : List Action) :
    phaseWeight (m.perform consumer actions).2.session.phase ≤ phaseWeight m.session.phase ∧
      (m.perform consumer actions).2.source = m.source ∧
      (m.perform consumer actions).2.clock = m.clock := by
  fun_induction perform consumer m actions with
  | case1 => exact ⟨Nat.le_refl _, rfl, rfl⟩
  | case2 m reason rest =>
    obtain ⟨hs, hr, hc⟩ := stop_frame consumer m
    exact ⟨Nat.le_of_eq (by rw [hs]), hr, hc⟩
  | case3 m batch rest error state h =>
    obtain ⟨hs, hr, hc⟩ := stop_frame consumer { m with consumer := state }
    exact ⟨Nat.le_of_eq (by rw [hs]), hr, hc⟩
  | case4 m batch rest state h ih => exact ih
  | case5 m batch rest state h told ih =>
    obtain ⟨hw, hr, hc⟩ := ih
    exact ⟨Nat.le_trans hw (phaseWeight_handle m.session .consumerQuit), hr, hc⟩

theorem respond_frame (consumer : Consumer σ ε) (m : Machine σ) (stimulus : Session.Stimulus) :
    phaseWeight (m.respond consumer stimulus).2.session.phase ≤
        phaseWeight (m.session.handle stimulus).session.phase ∧
      (m.respond consumer stimulus).2.source = m.source ∧
      (m.respond consumer stimulus).2.clock = m.clock :=
  perform_frame consumer (m.tell stimulus).2 (m.tell stimulus).1

/-- What a run has ahead of it: the end of its session, what is left to read, and the time up to
the last arrival. -/
def ahead (m : Machine σ) (tickAt : Nat) : Nat :=
  phaseWeight m.session.phase + m.source.weight + (m.source.horizon m.clock - tickAt)

theorem sooner_tick {readAt tick : Nat} {instant : Nat}
    (h : sooner (readAt, .read) (tick, .tick) = (instant, .tick)) :
    instant = tick ∧ tick < readAt := by
  unfold sooner at h
  split at h
  · cases h
    exact ⟨rfl, by assumption⟩
  · cases h

/-- A tick is due only before the next read. -/
theorem next_tick {request : Request} {now readAt tickAt instant : Nat}
    (h : request.next now readAt tickAt = (instant, .tick)) :
    instant = max now tickAt ∧ max now tickAt < readAt := by
  have hwork : ∀ {other : Nat × Occurrence}, other.2 ≠ .tick →
      ∀ {p : Nat × Occurrence}, sooner other p = (instant, .tick) → p = (instant, .tick) := by
    intro other ho p hp
    unfold sooner at hp
    split at hp
    · exact hp
    · exact absurd (congrArg Prod.snd hp) ho
  have hdue : ∀ {other : Nat × Occurrence}, other.2 ≠ .tick →
      ∀ {p : Nat × Occurrence}, sooner p other = (instant, .tick) → p = (instant, .tick) := by
    intro other ho p hp
    unfold sooner at hp
    split at hp
    · exact absurd (congrArg Prod.snd hp) ho
    · exact hp
  unfold Request.next at h
  cases hd : request.dropAt with
  | none =>
    cases ht : request.termination with
    | none => simp only [hd, ht] at h; exact sooner_tick h
    | some t => simp only [hd, ht] at h; exact sooner_tick (hwork (by simp) h)
  | some d =>
    cases ht : request.termination with
    | none => simp only [hd, ht] at h; exact sooner_tick (hdue (by simp) h)
    | some t =>
      simp only [hd, ht] at h
      exact sooner_tick (hwork (by simp) (hdue (by simp) h))

theorem handle_ends {s : Session} (ha : s.phase = .active) {stimulus : Session.Stimulus}
    (h : (∃ source, stimulus = .termination source) ∨ stimulus = .endOfInput ∨
      ∃ error, stimulus = .readError error) :
    phaseWeight (s.handle stimulus).session.phase = 0 := by
  rcases h with ⟨source, rfl⟩ | rfl | ⟨error, rfl⟩ <;>
    simp [Session.handle, ha, Session.shutdown, phaseWeight]

/-- Nothing is due later than the next read. -/
theorem next_le (request : Request) (now readAt tickAt : Nat) :
    (request.next now readAt tickAt).1 ≤ readAt := by
  have hleft : ∀ a b : Nat × Occurrence, (sooner a b).1 ≤ a.1 := by
    intro a b
    unfold sooner
    split <;> omega
  have hright : ∀ a b : Nat × Occurrence, (sooner a b).1 ≤ b.1 := by
    intro a b
    unfold sooner
    split <;> omega
  have hwork := hleft (readAt, .read) (max now tickAt, .tick)
  unfold Request.next
  cases request.termination with
  | none =>
    cases request.dropAt with
    | none => exact hwork
    | some d => exact Nat.le_trans (hleft _ _) hwork
  | some t =>
    have hdue := Nat.le_trans (hright (max now t.1, .termination t.2) _) hwork
    cases request.dropAt with
    | none => exact hdue
    | some d => exact Nat.le_trans (hleft _ _) hdue

theorem ahead_respond_of_ends (consumer : Consumer σ ε) {m : Machine σ} (tickAt : Nat)
    {stimulus : Session.Stimulus} (h : phaseWeight (m.session.handle stimulus).session.phase = 0) :
    (m.respond consumer stimulus).2.ahead tickAt ≤
      m.source.weight + (m.source.horizon m.clock - tickAt) := by
  obtain ⟨hp, hs, hc⟩ := respond_frame consumer m stimulus
  simp only [ahead, hs, hc]
  omega

theorem ahead_respondToRead (consumer : Consumer σ ε) {m : Machine σ} (tickAt : Nat)
    (ha : m.session.phase = .active) :
    (m.respondToRead consumer).2.ahead tickAt < m.ahead tickAt := by
  have hone : phaseWeight m.session.phase = 1 := by rw [ha]; rfl
  have hhor := Source.horizon_read m.clock m.source
  have hweight := Source.weight_read_le m.source
  have hdrop := @Source.weight_read m.source
  unfold respondToRead
  cases hr : m.source.read with
  | mk result rest =>
    rw [hr] at hhor hweight hdrop
    dsimp only at hhor hweight hdrop
    cases result with
    | chunk bytes =>
      obtain ⟨hp, hs, hc⟩ := respond_frame consumer { m with source := rest } (.input bytes)
      have hphase := Nat.le_trans hp (phaseWeight_handle m.session (.input bytes))
      have hless := hdrop (by simp)
      simp only [ahead, hs, hc] at hphase ⊢
      omega
    | endOfInput =>
      have hle := ahead_respond_of_ends consumer (m := { m with source := rest }) tickAt
        (handle_ends ha (.inr (.inl rfl)))
      simp only [ahead, hone] at hle ⊢
      omega
    | failed error =>
      have hle := ahead_respond_of_ends consumer
        (m := { m with source := rest, records := m.records ++ [.readFailed error] }) tickAt
        (handle_ends ha (.inr (.inr ⟨error, rfl⟩)))
      simp only [ahead, hone] at hle ⊢
      omega

/-- A turn of an active session that does not end the run leaves less ahead. -/
theorem ahead_turn {consumer : Consumer σ ε} {request : Request} {period tickAt tickAt' : Nat}
    {m m' : Machine σ} (hp : 0 < period) (ha : m.session.phase = .active)
    (h : m.turn consumer request period tickAt = (none, m', tickAt')) :
    m'.ahead tickAt' < m.ahead tickAt := by
  have hone : phaseWeight m.session.phase = 1 := by rw [ha]; rfl
  have hread := Source.readyAt_le_horizon m.clock m.source
  have hle := next_le request m.clock (m.source.readyAt m.clock) tickAt
  unfold turn at h
  cases hn : request.next m.clock (m.source.readyAt m.clock) tickAt with
  | mk instant occurrence =>
    simp only [hn] at h hle
    have hhor := Source.horizon_le_of_le (Nat.le_trans hle hread)
    cases occurrence with
    | drop => simp at h
    | termination source =>
      simp only [Prod.mk.injEq] at h
      rw [← h.2.1, ← h.2.2]
      have hends := ahead_respond_of_ends consumer (m := { m with clock := instant }) tickAt
        (handle_ends ha (.inl ⟨source, rfl⟩))
      simp only [ahead, hone] at hends ⊢
      omega
    | read =>
      simp only [Prod.mk.injEq] at h
      rw [← h.2.1, ← h.2.2]
      have hless := ahead_respondToRead consumer (m := { m with clock := instant }) tickAt ha
      simp only [ahead] at hless ⊢
      omega
    | tick =>
      obtain ⟨hi, hlt⟩ := next_tick hn
      obtain ⟨hphase, hs, hc⟩ := respond_frame consumer { m with clock := instant }
        (.tick m.session.config.tickInterval)
      simp only [Prod.mk.injEq] at h
      rw [← h.2.1, ← h.2.2]
      have hkeep := Nat.le_trans hphase (phaseWeight_handle m.session _)
      simp only [ahead, hs, hc] at hkeep ⊢
      omega

/-- Takes turns while the session is active. It begins with an active session, and a turn that
leaves none behind has an outcome, so the case of an ended session does not arise in a run
(`Reaches.loop_eq`); it is there for machines that no run leads to. -/
def loop (consumer : Consumer σ ε) (request : Request) (period : Nat) (hp : 0 < period)
    (tickAt : Nat) (m : Machine σ) : Outcome ε × Machine σ :=
  if _ : m.session.phase = .active then
    match _ : m.turn consumer request period tickAt with
    | (some outcome, m', _) => (outcome, m')
    | (none, m', tickAt') => loop consumer request period hp tickAt' m'
  else (.returned (.error .stopped), m)
termination_by m.ahead tickAt
decreasing_by
  rename_i ha h
  exact ahead_turn hp ha h

/-- A run on a stopped consumer is refused, and so is a tick interval of zero, which stops the
consumer. Ticks fall at whole multiples of the interval behind the start. -/
def run (consumer : Consumer σ ε) (request : Request) (m : Machine σ) : Outcome ε × Machine σ :=
  let config := m.session.config
  if m.stopped then (.returned (.error .stopped), m)
  else if hz : config.tickInterval.nanos = 0 then
    (.returned (.error .zeroTickInterval), m.stop consumer)
  else
    loop consumer request config.tickInterval.nanos (Nat.pos_of_ne_zero hz)
      (m.clock + config.tickInterval.nanos)
      { m with
        records := m.records ++
          [.started config.tickInterval config.idleThreshold m.session.decoder.backspace] }

theorem turn_ne_dropped {consumer : Consumer σ ε} {request : Request} {period tickAt : Nat}
    {m : Machine σ} (h : request.dropAt = none) :
    (m.turn consumer request period tickAt).1 ≠ some .dropped := by
  have hnext : (request.next m.clock (m.source.readyAt m.clock) tickAt).2 ≠ .drop := by
    have hwork : ∀ a b : Nat × Occurrence, a.2 ≠ .drop → b.2 ≠ .drop → (sooner a b).2 ≠ .drop := by
      intro a b ha hb
      unfold sooner
      split
      · exact hb
      · exact ha
    unfold Request.next
    rw [h]
    cases request.termination with
    | none => exact hwork _ _ (by simp) (by simp)
    | some t => exact hwork _ _ (by simp) (hwork _ _ (by simp) (by simp))
  unfold turn
  cases hn : request.next m.clock (m.source.readyAt m.clock) tickAt with
  | mk instant occurrence =>
    rw [hn] at hnext
    cases occurrence with
    | drop => exact absurd rfl hnext
    | _ => simp only [ne_eq, Option.map_eq_some_iff, not_exists, not_and]; simp

theorem loop_ne_dropped {consumer : Consumer σ ε} {request : Request} {period : Nat}
    (hp : 0 < period) (tickAt : Nat) (m : Machine σ) (h : request.dropAt = none) :
    (loop consumer request period hp tickAt m).1 ≠ .dropped := by
  fun_induction loop consumer request period hp tickAt m with
  | case1 tickAt m ha outcome m' tickAt' hturn =>
    have hne := @turn_ne_dropped _ _ consumer request period tickAt m h
    rw [hturn] at hne
    exact fun he => hne (congrArg some he)
  | case2 tickAt m ha m' tickAt' hturn ih => exact ih
  | case3 => simp

/-- A run that nobody drops returns. -/
theorem run_ne_dropped (consumer : Consumer σ ε) {request : Request} (m : Machine σ)
    (h : request.dropAt = none) : (m.run consumer request).1 ≠ .dropped := by
  unfold run
  dsimp only
  split
  · simp
  · split
    · simp
    · exact loop_ne_dropped _ _ _ h

/-- A run without outside drops, with its result. -/
def runToEnd (consumer : Consumer σ ε) (termination : Option (Nat × String)) (m : Machine σ) :
    Except (RunError ε) ShutdownReason × Machine σ :=
  match h : m.run consumer ⟨termination, none⟩ with
  | (.returned result, m') => (result, m')
  | (.dropped, _) => absurd (congrArg Prod.fst h) (m.run_ne_dropped consumer rfl)

/-- Runs on one machine, one after another, each with the machine it leaves behind. -/
def runAll (consumer : Consumer σ ε) (m : Machine σ) : List Request → List (Outcome ε × Machine σ)
  | [] => []
  | request :: requests =>
    let ran := m.run consumer request
    ran :: runAll consumer ran.2 requests

end Keystroke.EventLoop.Machine
