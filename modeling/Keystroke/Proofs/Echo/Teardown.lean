import Mathlib.Data.List.Induction
import Keystroke.Proofs.Echo.Printing

/-! # Undoing a start

A stop switches the reports off again if a start has succeeded since the last stop, and does
nothing if none has. A start succeeds only if it is flushed as well, behind all that it writes.
One that is not flushed has switched the reports on, and if no other has succeeded they stay
on, even where there is space to switch them off. That takes a limited number of flushes, and
more space than the shortest texts that use them up.
-/

namespace Keystroke.Echo

/-! ## Commands -/

/-- A call of an echo. -/
inductive Command where
  | start
  | forward (batch : Batch)
  | stop

/-- The echo behind a call. -/
def obey (echo : Echo) : Command → Echo
  | .start => echo.start.2
  | .forward batch => (echo.forward batch).2
  | .stop => echo.stop

/-- The echo behind calls one after another. -/
def told (echo : Echo) (commands : List Command) : Echo :=
  commands.foldl obey echo

/-- Since the last stop there is a start, of an echo with the property. -/
def SinceStop (P : Echo → Prop) (echo : Echo) (commands : List Command) : Prop :=
  ∃ front back, commands = front ++ .start :: back ∧ .stop ∉ back ∧ P (echo.told front)

/-- A start of the echo succeeds. -/
def Starts (echo : Echo) : Prop :=
  echo.start.1 = .ok ()

/-- What switches the reports on. -/
def enabling : List Char :=
  "\x1b[?1004h\x1b[?2004h".toList

/-- A start of the echo switches the reports on, whatever it answers. -/
def Enables (echo : Echo) : Prop :=
  echo.sink.taken ++ enabling <+: echo.start.2.sink.taken

/-- A stop switches the reports off exactly if they were switched on since the last stop. -/
def Undoes (limit flushLimit : Option Nat) : Prop :=
  ∀ commands,
    let created := new (.new limit flushLimit)
    let echo := created.told commands
    (SinceStop Enables created commands →
      echo.stop.sink.taken = echo.sink.fit (echo.sink.taken ++ closing)) ∧
    (¬SinceStop Enables created commands → echo.stop.sink.taken = echo.sink.taken)

variable {P : Echo → Prop} {echo : Echo} {limit flushLimit : Option Nat}

theorem told_append (echo : Echo) (commands more : List Command) :
    echo.told (commands ++ more) = (echo.told commands).told more :=
  List.foldl_append

theorem told_concat (echo : Echo) (commands : List Command) (command : Command) :
    echo.told (commands ++ [command]) = (echo.told commands).obey command :=
  told_append echo commands [command]

theorem not_sinceStop_nil : ¬SinceStop P echo [] := by
  rintro ⟨front, back, hsplit, _, _⟩
  simp at hsplit

theorem sinceStop_concat (commands : List Command) (command : Command) :
    SinceStop P echo (commands ++ [command]) ↔
      command ≠ .stop ∧
        (SinceStop P echo commands ∨ command = .start ∧ P (echo.told commands)) := by
  constructor
  · rintro ⟨front, back, hsplit, hback, hstart⟩
    -- The last command is the start, or it comes behind the start.
    rcases List.eq_nil_or_concat back with rfl | ⟨back, last, rfl⟩
    · obtain ⟨rfl, hlast⟩ := List.append_inj' hsplit rfl
      cases hlast
      exact ⟨nofun, .inr ⟨rfl, hstart⟩⟩
    · rw [List.concat_eq_append] at hsplit hback
      rw [← List.cons_append, ← List.append_assoc] at hsplit
      obtain ⟨rfl, hlast⟩ := List.append_inj' hsplit rfl
      cases hlast
      rw [List.mem_append, not_or, List.mem_singleton] at hback
      exact ⟨Ne.symm hback.2, .inl ⟨front, back, rfl, hback.1, hstart⟩⟩
  · rintro ⟨hstop, ⟨front, back, rfl, hback, hstart⟩ | ⟨rfl, hstart⟩⟩
    · refine ⟨front, back ++ [command], by simp, ?_, hstart⟩
      rw [List.mem_append, not_or, List.mem_singleton]
      exact ⟨hback, Ne.symm hstop⟩
    · exact ⟨commands, [], rfl, List.not_mem_nil, hstart⟩

/-! ## Whether a stop acts -/

theorem started_start (echo : Echo) :
    echo.start.2.started = true ↔ echo.started = true ∨ Starts echo := by
  unfold Starts start
  cases echo.sink.perform startOperations with
  | mk result behind => cases result <;> simp

theorem started_stop (echo : Echo) : echo.stop.started = false := by
  cases hstarted : echo.started with
  | true => rw [stop_of_started hstarted]
  | false => rw [stop_of_unstarted hstarted, hstarted]

/-- An echo counts as started if a start has succeeded since the last stop. -/
theorem started_told (h : echo.started = false) (commands : List Command) :
    (echo.told commands).started = true ↔ SinceStop Starts echo commands := by
  -- What is since the last stop changes at the end of the commands.
  induction commands using List.reverseRecOn with
  | nil => simp [told, h, not_sinceStop_nil]
  | append_singleton commands command ih =>
      rw [told_concat, sinceStop_concat, ← ih]
      cases command with
      | start => simp [obey, started_start]
      | forward batch => simp [obey, started_forward]
      | stop => simp [obey, started_stop]

theorem stop_told_of_not_sinceStop (h : echo.started = false) {commands : List Command}
    (hnone : ¬SinceStop Starts echo commands) : (echo.told commands).stop = echo.told commands := by
  rw [← started_told h, Bool.not_eq_true] at hnone
  exact stop_of_unstarted hnone

/-! ## What the calls take -/

/-- The shortest text that a call is flushed behind, a line of no keys. -/
def shortest : List Char := "output: []\r\n".toList

theorem length_shortest : shortest.length = 12 := by
  decide

theorem shortest_le_outputLine (events : List KeyEvent) :
    shortest.length ≤ (outputLine events).toList.length := by
  rw [length_shortest]
  simp [outputLine, eventsText, listText]

theorem shortest_le_batchText (batch : Batch) :
    shortest.length ≤ (batchText batch).toList.length := by
  cases batch with
  | input bytes events =>
      have hline := shortest_le_outputLine events
      rw [batchText, String.toList_append, List.length_append]
      omega
  | flushed events => exact shortest_le_outputLine events

/-- A call prints texts of some length, or does nothing. -/
theorem obey_cases (echo : Echo) (command : Command) :
    (∃ texts, shortest.length ≤ texts.flatten.length ∧
      (echo.obey command).sink = (echo.sink.perform (Sink.printing texts)).2) ∨
    echo.obey command = echo := by
  rw [length_shortest]
  cases command with
  | start =>
      exact .inl ⟨[enableFocusReports.toList, enablePasteMarkers.toList, greeting.toList],
        by decide, rfl⟩
  | forward batch =>
      refine .inl ⟨[(batchText batch).toList], ?_, ?_⟩
      · rw [List.flatten_singleton, ← length_shortest]
        exact shortest_le_batchText batch
      · rw [obey, forward_eq, batchOperations_eq]
  | stop =>
      cases hstarted : echo.started with
      | true =>
          refine .inl ⟨[disablePasteMarkers.toList, disableFocusReports.toList], by decide, ?_⟩
          rw [obey, stop_of_started hstarted, stopOperations_eq]
      | false => exact .inr (stop_of_unstarted hstarted)

namespace Sink

/-- The sink takes no more. -/
def Full (sink : Sink) : Prop :=
  sink.limit = some sink.taken.length

/-- A sink with the limits, behind any calls. Each flush comes behind a text. -/
structure Spent (limit flushLimit : Option Nat) (sink : Sink) : Prop where
  limit : sink.limit = limit
  flushLimit : sink.flushLimit = flushLimit
  room : sink.Room sink.taken
  flushes : shortest.length * sink.flushes.length ≤ sink.taken.length

variable {sink behind : Sink} {text : List Char} {limit flushLimit : Option Nat}

theorem length_taken_le_fit (h : sink.Room sink.taken) (text : List Char) :
    sink.taken.length ≤ (sink.fit (sink.taken ++ text)).length := by
  cases hlimit : sink.limit with
  | none => simp [fit_of_unlimited hlimit]
  | some limit =>
      have hle := h limit hlimit
      rw [fit_of_limited hlimit, List.length_take, List.length_append]
      omega

/-- A sink that takes nothing of a text is at its limit. -/
theorem limit_le_of_fit_eq (h : sink.fit (sink.taken ++ text) = sink.taken) (htext : text ≠ []) :
    ∃ limit, sink.limit = some limit ∧ limit ≤ sink.taken.length := by
  cases hlimit : sink.limit with
  | none =>
      rw [fit_of_unlimited hlimit, List.append_right_eq_self] at h
      exact absurd h htext
  | some limit =>
      have hlength := congrArg List.length h
      have hpos := List.length_pos_iff.2 htext
      rw [fit_of_limited hlimit, List.length_take, List.length_append] at hlength
      exact ⟨limit, rfl, by omega⟩

theorem fit_of_full (h : sink.Full) (text : List Char) :
    sink.fit (sink.taken ++ text) = sink.taken := by
  rw [fit_of_limited h, List.take_left]

theorem Took.full (htook : sink.Took text behind) (h : sink.Full) : behind.Full := by
  rw [Full, htook.limit, htook.taken, fit_of_full h]
  exact h

theorem Took.full_of_not_room (htook : sink.Took text behind)
    (h : ¬sink.Room (sink.taken ++ text)) : behind.Full := by
  obtain ⟨limit, hlimit, hlt⟩ := exists_limit_of_not_room h
  rw [Full, htook.limit, htook.taken, hlimit, fit_of_limited hlimit, List.length_take,
    Nat.min_eq_left (Nat.le_of_lt hlt)]

theorem length_flushes_le (sink : Sink) :
    sink.flush.2.flushes.length ≤ sink.flushes.length + 1 := by
  unfold flush
  split
  · exact Nat.le_succ _
  · exact Nat.le_of_eq List.length_append

theorem flushLimit_le_of_error (h : sink.flush.1 ≠ .ok ()) :
    ∃ flushLimit, sink.flushLimit = some flushLimit ∧ flushLimit ≤ sink.flushes.length := by
  unfold flush at h
  split at h
  · rename_i hspent
    cases hlimit : sink.flushLimit with
    | none =>
        rw [hlimit] at hspent
        cases hspent
    | some flushLimit =>
        rw [hlimit] at hspent
        exact ⟨flushLimit, rfl, of_decide_eq_true hspent⟩
  · exact absurd rfl h

theorem spent_new (limit flushLimit : Option Nat) :
    (new limit flushLimit).Spent limit flushLimit :=
  ⟨rfl, rfl, fun _ _ => Nat.zero_le _, Nat.le_refl _⟩

theorem Spent.printing (h : sink.Spent limit flushLimit) {texts : List (List Char)}
    (htexts : shortest.length ≤ texts.flatten.length) :
    (sink.perform (printing texts)).2.Spent limit flushLimit := by
  have htook := took_printing h.room texts
  refine ⟨htook.limit.trans h.limit, htook.flushLimit.trans h.flushLimit, htook.room, ?_⟩
  have hflushes := h.flushes
  by_cases hroom : sink.Room (sink.taken ++ texts.flatten)
  · rw [perform_printing_of_room hroom]
    have hle := length_flushes_le { sink with taken := sink.taken ++ texts.flatten }
    rw [(flush_frame _).1, List.length_append]
    calc
      _ ≤ shortest.length * (sink.flushes.length + 1) := Nat.mul_le_mul_left _ hle
      _ = shortest.length * sink.flushes.length + shortest.length := Nat.mul_succ _ _
      _ ≤ sink.taken.length + texts.flatten.length := Nat.add_le_add hflushes htexts
  · rw [perform_printing_of_not_room h.room hroom]
    exact Nat.le_trans hflushes (length_taken_le_fit h.room _)

end Sink

open Sink (Full Spent)

theorem spent_obey (h : echo.sink.Spent limit flushLimit) (command : Command) :
    (echo.obey command).sink.Spent limit flushLimit := by
  rcases obey_cases echo command with ⟨texts, htexts, hprints⟩ | hsame
  · rw [hprints]
    exact h.printing htexts
  · rwa [hsame]

theorem spent_told (h : echo.sink.Spent limit flushLimit) (commands : List Command) :
    (echo.told commands).sink.Spent limit flushLimit := by
  induction commands generalizing echo with
  | nil => exact h
  | cons command commands ih => exact ih (spent_obey h command)

theorem full_obey (h : echo.sink.Spent limit flushLimit) (hfull : echo.sink.Full)
    (command : Command) : (echo.obey command).sink.Full := by
  rcases obey_cases echo command with ⟨texts, _, hprints⟩ | hsame
  · rw [hprints]
    exact (Sink.took_printing h.room texts).full hfull
  · rwa [hsame]

theorem full_told (h : echo.sink.Spent limit flushLimit) (hfull : echo.sink.Full)
    (commands : List Command) : (echo.told commands).sink.Full := by
  induction commands generalizing echo with
  | nil => exact hfull
  | cons command commands ih => exact ih (spent_obey h command) (full_obey h hfull command)

/-! ## Starts that fail -/

theorem taken_start_of_room (hroom : echo.sink.Room (echo.sink.taken ++ opening)) :
    echo.start.2.sink.taken = echo.sink.taken ++ opening := by
  rw [(took_start hroom.of_append).taken, Sink.fit_of_room hroom]

theorem enables_of_room (hroom : echo.sink.Room (echo.sink.taken ++ opening)) : Enables echo := by
  rw [Enables, taken_start_of_room hroom]
  exact (List.prefix_append_right_inj _).2 (by decide)

theorem room_of_starts (h : echo.sink.Room echo.sink.taken) (hstarts : Starts echo) :
    echo.sink.Room (echo.sink.taken ++ opening) := by
  by_cases hroom : echo.sink.Room (echo.sink.taken ++ opening)
  · exact hroom
  · have hfull := answer_start_of_not_room h hroom
    rw [hstarts] at hfull
    cases hfull

/-- A start fails at a full sink, or at the limit of flushes, with a text for each of them. -/
theorem failed_start (h : echo.sink.Spent limit flushLimit) (hfails : ¬Starts echo) :
    echo.start.2.sink.Full ∨ ∃ flushes, flushLimit = some flushes ∧
      shortest.length * flushes + opening.length ≤ echo.start.2.sink.taken.length := by
  by_cases hroom : echo.sink.Room (echo.sink.taken ++ opening)
  · rw [Starts, start_answer_of_room hroom] at hfails
    obtain ⟨flushes, hlimit, hle⟩ := Sink.flushLimit_le_of_error hfails
    refine .inr ⟨flushes, h.flushLimit.symm.trans hlimit, ?_⟩
    have hspent : shortest.length * flushes ≤ echo.sink.taken.length :=
      Nat.le_trans (Nat.mul_le_mul_left _ hle) h.flushes
    rw [taken_start_of_room hroom, List.length_append]
    exact Nat.add_le_add_right hspent _
  · exact .inl ((took_start h.room).full_of_not_room hroom)

/-- There is no space for more than the shortest texts that use the flushes up, and a start. -/
def Tight (limit flushLimit : Option Nat) : Prop :=
  ∀ flushes, flushLimit = some flushes →
    ∃ space, limit = some space ∧ space ≤ shortest.length * flushes + opening.length

theorem full_of_failed_start (htight : Tight limit flushLimit)
    (h : echo.sink.Spent limit flushLimit) (hfails : ¬Starts echo) : echo.start.2.sink.Full := by
  rcases failed_start h hfails with hfull | ⟨flushes, hlimit, hle⟩
  · exact hfull
  · obtain ⟨space, hspace, htight⟩ := htight flushes hlimit
    have htook := took_start h.room
    have hlimited : echo.start.2.sink.limit = some space :=
      htook.limit.trans (h.limit.trans hspace)
    have hroom := htook.room space hlimited
    rw [Full, hlimited]
    exact congrArg some (by omega)

/-- Where the space is tight the sink is full behind a start that failed. -/
theorem full_of_sinceStop (htight : Tight limit flushLimit)
    (h : echo.sink.Spent limit flushLimit) {commands : List Command}
    (henabled : SinceStop Enables echo commands) (hfailed : ¬SinceStop Starts echo commands) :
    (echo.told commands).sink.Full := by
  obtain ⟨front, back, rfl, hback, _⟩ := henabled
  have hfront := spent_told h front
  have hfails : ¬Starts (echo.told front) :=
    fun hstarts => hfailed ⟨front, back, rfl, hback, hstarts⟩
  rw [told_append]
  exact full_told (spent_obey hfront .start) (full_of_failed_start htight hfront hfails) back

theorem undoes_of_tight (htight : Tight limit flushLimit) : Undoes limit flushLimit := by
  intro commands created echo
  have hcreated : created.sink.Spent limit flushLimit := Sink.spent_new limit flushLimit
  have hecho : echo.sink.Spent limit flushLimit := spent_told hcreated commands
  have hunstarted : created.started = false := rfl
  by_cases hstarted : SinceStop Starts created commands
  · refine ⟨fun _ => ?_, fun henabled => absurd ?_ henabled⟩
    · exact (took_stop hecho.room ((started_told hunstarted commands).2 hstarted)).taken
    · obtain ⟨front, back, rfl, hback, hstarts⟩ := hstarted
      have hroom := room_of_starts (spent_told hcreated front).room hstarts
      exact ⟨front, back, rfl, hback, enables_of_room hroom⟩
  · rw [show echo.stop = echo from stop_told_of_not_sinceStop hunstarted hstarted]
    refine ⟨fun henabled => ?_, fun _ => rfl⟩
    exact (Sink.fit_of_full (full_of_sinceStop htight hcreated henabled hstarted) closing).symm

/-! ## Space behind a start that is not flushed -/

/-- The calls that use flushes up with the shortest texts. -/
def lines (count : Nat) : List Command :=
  List.replicate count (.forward (.flushed []))

/-- An echo that was not started, and has printed some lines of no keys. -/
structure Lined (limit : Option Nat) (flushes count : Nat) (echo : Echo) : Prop where
  spent : echo.sink.Spent limit (some flushes)
  unstarted : echo.started = false
  taken : echo.sink.taken.length = shortest.length * count
  flushes : echo.sink.flushes.length = count

variable {flushes count : Nat}

theorem Lined.forward (h : Lined limit flushes count echo) (hcount : count < flushes)
    (hroom : echo.sink.Room (echo.sink.taken ++ shortest)) :
    Lined limit flushes (count + 1) (echo.forward (.flushed [])).2 := by
  have hsink : (echo.forward (.flushed [])).2.sink =
      ({ echo.sink with taken := echo.sink.taken ++ shortest } : Sink).flush.2 := by
    have htexts : shortest = [shortest].flatten := List.flatten_singleton.symm
    rw [htexts] at hroom
    rw [forward_eq, batchOperations_eq, htexts, ← Sink.perform_printing_of_room hroom]
    rfl
  have hflush : ¬echo.sink.flushLimit.any (· ≤ echo.sink.flushes.length) := by
    simp [h.spent.flushLimit, h.flushes, hcount]
  refine ⟨spent_obey h.spent (.forward (.flushed [])), (started_forward _ _).trans h.unstarted,
    ?_, ?_⟩
  · rw [hsink, (Sink.flush_frame _).1, List.length_append, h.taken]
    exact (Nat.mul_succ _ _).symm
  · rw [hsink, Sink.flush, if_neg hflush, List.length_append, h.flushes]
    rfl

/-- More space than the shortest texts that use the flushes up, and a start, take. -/
def Spacious (limit : Option Nat) (flushes : Nat) : Prop :=
  ∀ space, limit = some space → shortest.length * flushes + opening.length < space

theorem lined_told (hspace : Spacious limit flushes) (hcount : count ≤ flushes) :
    Lined limit flushes count ((new (.new limit (some flushes))).told (lines count)) := by
  induction count with
  | zero => exact ⟨Sink.spent_new limit (some flushes), rfl, rfl, rfl⟩
  | succ count ih =>
      have h := ih (Nat.le_of_succ_le hcount)
      rw [lines, List.replicate_succ', told_concat]
      refine h.forward hcount fun space hlimit => ?_
      have hlt := hspace space (h.spent.limit.symm.trans hlimit)
      calc
        _ = shortest.length * (count + 1) := by rw [List.length_append, h.taken, Nat.mul_succ]
        _ ≤ shortest.length * flushes := Nat.mul_le_mul_left _ hcount
        _ ≤ space := by omega

theorem Lined.start (h : Lined limit flushes flushes echo) (hspace : Spacious limit flushes) :
    Enables echo ∧ echo.start.2.started = false ∧
      echo.start.2.sink.taken = echo.sink.taken ++ opening := by
  have hroom : echo.sink.Room (echo.sink.taken ++ opening) := by
    intro space hlimit
    have hlt := hspace space (h.spent.limit.symm.trans hlimit)
    rw [List.length_append, h.taken]
    exact Nat.le_of_lt hlt
  have hflush : echo.sink.flushLimit.any (· ≤ echo.sink.flushes.length) := by
    simp [h.spent.flushLimit, h.flushes]
  have hfails : ¬Starts echo := by
    rw [Starts, start_answer_of_room hroom, Sink.flush, if_pos hflush]
    exact nofun
  refine ⟨enables_of_room hroom, ?_, taken_start_of_room hroom⟩
  rw [← Bool.not_eq_true, started_start, h.unstarted]
  simpa using hfails

/-- Once the flushes are used up, a start leaves the reports on, and space to switch them off. -/
theorem not_undoes (hspace : Spacious limit flushes) : ¬Undoes limit (some flushes) := by
  intro hundoes
  have hlined := lined_told hspace (Nat.le_refl flushes)
  obtain ⟨henables, hunstarted, htaken⟩ := hlined.start hspace
  have hlimit := (spent_obey hlined.spent .start).limit
  have hoff := (hundoes (lines flushes ++ [.start])).1
    ⟨lines flushes, [], rfl, List.not_mem_nil, henables⟩
  rw [told_concat, obey, stop_of_unstarted hunstarted] at hoff
  obtain ⟨space, hspaced, hle⟩ := Sink.limit_le_of_fit_eq hoff.symm (by decide)
  rw [htaken, List.length_append, hlined.taken] at hle
  exact absurd (hspace space (hlimit.symm.trans hspaced)) (Nat.not_lt_of_le hle)

theorem tight_of_undoes (h : Undoes limit flushLimit) : Tight limit flushLimit := by
  intro flushes hflushes
  subst hflushes
  cases limit with
  | none => exact absurd h (not_undoes fun _ hspace => nomatch hspace)
  | some space =>
      refine ⟨space, rfl, Nat.le_of_not_lt fun hlt => not_undoes (fun other hother => ?_) h⟩
      cases hother
      exact hlt

/-- An echo stops with what switches the reports off, as far as there is space for it, if a start
has succeeded since the last stop, and does nothing if none has. So it switches them off whenever a
start has switched them on, and only then, exactly if every start that fails leaves a full sink:
the flushes are not limited, or the space is no more than the shortest texts that use them up, and
a start, take. -/
theorem undoes_iff (limit flushLimit : Option Nat) :
    (∀ commands,
      let created := new (.new limit flushLimit)
      let echo := created.told commands
      (SinceStop Starts created commands →
        echo.stop.sink.taken = echo.sink.fit (echo.sink.taken ++ closing)) ∧
      (¬SinceStop Starts created commands → echo.stop = echo)) ∧
    (Undoes limit flushLimit ↔ ∀ flushes, flushLimit = some flushes →
      ∃ space, limit = some space ∧ space ≤ shortest.length * flushes + opening.length) := by
  refine ⟨fun commands => ⟨fun hstarted => ?_, ?_⟩, tight_of_undoes, undoes_of_tight⟩
  · have hcreated : (new (.new limit flushLimit)).sink.Spent limit flushLimit :=
      Sink.spent_new limit flushLimit
    have hspent := spent_told hcreated commands
    exact (took_stop hspent.room ((started_told rfl commands).2 hstarted)).taken
  · exact stop_told_of_not_sinceStop rfl

/-- With one flush the space may be fifty characters: those of one line, and of a start that is not
flushed behind it. -/
theorem undoes_one_flush : Undoes (some 50) (some 1) ∧ ¬Undoes (some 51) (some 1) := by
  have hspace : shortest.length * 1 + opening.length = 50 := by decide
  refine ⟨(undoes_iff (some 50) (some 1)).2.2 fun flushes hflushes => ?_, fun hundoes => ?_⟩
  · cases hflushes
    exact ⟨50, rfl, Nat.le_of_eq hspace.symm⟩
  · obtain ⟨space, hlimit, hle⟩ := (undoes_iff (some 51) (some 1)).2.1 hundoes 1 rfl
    cases hlimit
    rw [hspace] at hle
    exact absurd hle (by decide)

/-- A sink that takes everything and cannot be flushed: the start fails, with the reports switched
on, and the stop writes nothing. -/
theorem stop_after_unflushed_start :
    let created := new (.new none (some 0))
    let echo := created.told [.start]
    created.start.1 = .error .flushFailed ∧ echo.sink.taken = opening ∧
      echo.stop.sink.taken = opening ∧ ¬Undoes none (some 0) := by
  refine ⟨by decide, by decide, by decide, fun hundoes => ?_⟩
  have hoff := (hundoes [.start]).1 ⟨[], [], rfl, List.not_mem_nil, by rw [Enables]; decide⟩
  exact absurd hoff (by decide)

end Keystroke.Echo
