import Keystroke.Proofs.Echo.Transcript
import Keystroke.Proofs.EventLoop.Comparison

/-! # Truncation

What an echo writes to a sink with a limit is what it would write to one without,
cut off at the limit. The runs of both are the same up to the batch whose text does
not fit. There the echo on the limited sink fails, and writes nothing from then on.
-/

namespace Keystroke.Echo

open EventLoop (Machine Outcome Request Source)
open EventLoop.Machine (Answered Follows Keeps Rests fresh running_fresh)

/-! ## Two echoes -/

/-- An echo on a limited sink, and one on an unlimited sink that has taken the same text. -/
structure Within (limit : Nat) (echo whole : Echo) : Prop where
  limited : echo.sink.limit = some limit
  unlimited : whole.sink.limit = none
  flushes : echo.sink.flushLimit = none ∧ whole.sink.flushLimit = none
  started : echo.started = whole.started
  taken : echo.sink.taken = whole.sink.taken
  fits : whole.sink.taken.length ≤ limit

/-- The limited sink has taken what the unlimited one has, up to the limit. -/
def Cut (limit : Nat) (echo whole : Echo) : Prop :=
  echo.sink.taken = whole.sink.taken.take limit

variable {limit : Nat} {echo whole : Echo}

theorem Within.cut (h : Within limit echo whole) : Cut limit echo whole := by
  rw [Cut, h.taken, List.take_of_length_le h.fits]

theorem Within.room (h : Within limit echo whole) : echo.sink.Room echo.sink.taken := by
  rw [Sink.room_iff_of_limited h.limited, h.taken]
  exact h.fits

theorem Within.room_whole (h : Within limit echo whole) (text : List Char) :
    whole.sink.Room text :=
  Sink.room_of_unlimited h.unlimited text

theorem Within.took_forward (h : Within limit echo whole) (batch : Batch) :
    Cut limit (echo.forward batch).2 (whole.forward batch).2 := by
  have htook := Echo.took_forward h.room batch
  have hwhole := Echo.took_forward (h.room_whole _) batch
  rw [Cut, htook.taken, hwhole.taken, Sink.fit_of_limited h.limited,
    Sink.fit_of_unlimited h.unlimited, h.taken]

theorem Within.forward (h : Within limit echo whole) {batch : Batch}
    (hroom : echo.sink.Room (echo.sink.taken ++ (batchText batch).toList)) :
    Within limit (echo.forward batch).2 (whole.forward batch).2 := by
  have htook := Echo.took_forward h.room batch
  have hwhole := Echo.took_forward (h.room_whole _) batch
  refine
    { limited := htook.limit.trans h.limited
      unlimited := hwhole.limit.trans h.unlimited
      flushes := ⟨htook.flushLimit.trans h.flushes.1, hwhole.flushLimit.trans h.flushes.2⟩
      started := ?_
      taken := ?_
      fits := ?_ }
  · rw [started_forward, started_forward, h.started]
  · rw [htook.taken, hwhole.taken, Sink.fit_of_room hroom, Sink.fit_of_unlimited h.unlimited,
      h.taken]
  · rw [hwhole.taken, Sink.fit_of_unlimited h.unlimited, ← h.taken]
    exact (Sink.room_iff_of_limited h.limited).1 hroom

theorem Within.stop (h : Within limit echo whole) : Cut limit echo.stop whole.stop := by
  cases hstarted : whole.started with
  | false =>
      rw [stop_of_unstarted hstarted, stop_of_unstarted (h.started.trans hstarted)]
      exact h.cut
  | true =>
      have htook := took_stop h.room (h.started.trans hstarted)
      have hwhole := took_stop (h.room_whole _) hstarted
      rw [Cut, htook.taken, hwhole.taken, Sink.fit_of_limited h.limited,
        Sink.fit_of_unlimited h.unlimited, h.taken]

/-- The limited echo answers like the other until its sink is full. -/
theorem follows_within (limit : Nat) : Follows consumer consumer (Within limit) := by
  intro instant batch echo whole h
  have hwhole := answer_of_room h.flushes.2 batch (h.room_whole _)
  by_cases hroom : echo.sink.Room (echo.sink.taken ++ (batchText batch).toList)
  · exact .inl ⟨(answer_of_room h.flushes.1 batch hroom).trans hwhole.symm, h.forward hroom⟩
  · exact .inr ⟨.full, flow batch, answer_of_not_room h.room hroom, hwhole⟩

/-- It fails for want of space, and then there is none left. -/
theorem Within.full_of_failed (h : Within limit echo whole) {batch : Batch} {fault : Fault}
    (hfailed : (echo.forward batch).1 = .error fault) :
    fault = .full ∧ (echo.forward batch).2.sink.limit = some limit ∧
      (echo.forward batch).2.sink.taken.length = limit := by
  have hroom : ¬echo.sink.Room (echo.sink.taken ++ (batchText batch).toList) := by
    intro hroom
    rw [answer_of_room h.flushes.1 batch hroom] at hfailed
    cases hfailed
  have htook := Echo.took_forward h.room batch
  rw [answer_of_not_room h.room hroom] at hfailed
  cases hfailed
  refine ⟨rfl, htook.limit.trans h.limited, ?_⟩
  rw [Sink.room_iff_of_limited h.limited, Nat.not_le] at hroom
  rw [htook.taken, Sink.fit_of_limited h.limited, List.length_take]
  omega

theorem taken_stop_of_full (hlimit : echo.sink.limit = some limit)
    (hfull : echo.sink.taken.length = limit) : echo.stop.sink.taken = echo.sink.taken := by
  cases hstarted : echo.started with
  | false => rw [stop_of_unstarted hstarted]
  | true =>
      have hroom : echo.sink.Room echo.sink.taken :=
        (Sink.room_iff_of_limited hlimit).2 (Nat.le_of_eq hfull)
      rw [(took_stop hroom hstarted).taken, Sink.fit_of_limited hlimit, ← hfull, List.take_left]

/-! ## What is written without a limit -/

/-- An echo on an unlimited sink that has taken a text of some kind. -/
structure Prints (kind : List Char → Prop) (echo : Echo) : Prop where
  unlimited : echo.sink.limit = none
  taken : kind echo.sink.taken

variable {kind : List Char → Prop}

theorem keeps_prints
    (hbatch : ∀ text batch, kind text → kind (text ++ (batchText batch).toList)) :
    Keeps consumer (Prints kind) := by
  intro instant batch echo h
  have htook := took_forward (Sink.room_of_unlimited h.unlimited _) batch
  refine ⟨htook.limit.trans h.unlimited, ?_⟩
  show kind (echo.forward batch).2.sink.taken
  rw [htook.taken, Sink.fit_of_unlimited h.unlimited]
  exact hbatch _ _ h.taken

theorem Prints.stop (hclosing : ∀ text, kind text → kind (text ++ closing))
    (h : Prints kind echo) : Prints kind echo.stop := by
  cases hstarted : echo.started with
  | false =>
      rw [stop_of_unstarted hstarted]
      exact h
  | true =>
      have htook := took_stop (Sink.room_of_unlimited h.unlimited _) hstarted
      refine ⟨htook.limit.trans h.unlimited, ?_⟩
      rw [htook.taken, Sink.fit_of_unlimited h.unlimited]
      exact hclosing _ h.taken

/-! ## Two histories -/

/-- A run that fails because a batch does not fit, where the other machine goes on. Stopping the
echo adds nothing to what its sink has taken by then. -/
structure Fills (limit : Nat) (request : Request) (m m' n : Machine Echo) (heard : Machine Echo)
    (whole : Echo) (batch : Batch) : Prop where
  ran : m.run consumer request = (.returned (.error (.consumer .full)), m')
  within : Within limit heard.consumer whole
  failed : Answered consumer request m heard batch (.error .full)
  handled : Answered consumer request n (heard.handTo whole) batch (.ok (flow batch))
  taken : m'.consumer.sink.taken = (heard.consumer.forward batch).2.sink.taken
  full : m'.consumer.sink.taken.length = limit

/-- Runs of a machine whose echo has a limited sink, beside those of one whose echo has an
unlimited sink. They do not differ but in the text taken, up to a run that fails because a batch
does not fit. All runs behind that are refused and leave the machine as it is. -/
inductive Truncates (limit : Nat) : Machine Echo → Machine Echo → List Request → Prop
  | none {m n : Machine Echo} : Truncates limit m n []
  | same {m m' n : Machine Echo} {whole : Echo} {request : Request} {requests : List Request}
      {outcome : Outcome Fault} :
      m.run consumer request = (outcome, m') →
      n.run consumer request = (outcome, m'.handTo whole) → Cut limit m'.consumer whole →
      Truncates limit m' (m'.handTo whole) requests → Truncates limit m n (request :: requests)
  | full {m m' n heard : Machine Echo} {whole : Echo} {batch : Batch} {request : Request}
      {requests : List Request} :
      Fills limit request m m' n heard whole batch →
      (m'.runAll consumer requests = requests.map fun _ => (.returned (.error .stopped), m')) →
      Truncates limit m n (request :: requests)

/-- Machines that do not differ but in their sinks, between two runs. -/
inductive Abreast (limit : Nat) : Machine Echo → Machine Echo → Prop
  | running {m : Machine Echo} {whole : Echo} :
      m.Running → Within limit m.consumer whole → Abreast limit m (m.handTo whole)
  | stopped {m : Machine Echo} {whole : Echo} :
      m.stopped = true → Cut limit m.consumer whole → Abreast limit m (m.handTo whole)

variable {request : Request} {m m' n heard : Machine Echo} {batch : Batch}

theorem Abreast.cut (h : Abreast limit m n) : Cut limit m.consumer n.consumer := by
  cases h with
  | running _ hwithin => exact hwithin.cut
  | stopped _ hcut => exact hcut

/-- A batch that does not fit ends the run of the limited echo. -/
theorem fills_of_failed (hm : m.Running) {fault : Fault} {answer : EventLoop.Flow}
    (hwithin : Within limit heard.consumer whole)
    (hfailed : Answered consumer request m heard batch (.error fault))
    (hhandled : Answered consumer request n (heard.handTo whole) batch (.ok answer)) :
    Fills limit request m (m.run consumer request).2 n heard whole batch ∧
      (m.run consumer request).2.stopped = true := by
  have hforward : (heard.consumer.forward batch).1 = .error fault := by
    obtain ⟨_, _, _, _, _, _, hanswer⟩ := hfailed
    exact hanswer
  have hflow : flow batch = answer := by
    obtain ⟨_, _, _, _, _, _, hanswer⟩ := hhandled
    have hroom := answer_of_room hwithin.flushes.2 batch (hwithin.room_whole _)
    exact Except.ok.inj (hroom.symm.trans hanswer)
  obtain ⟨rfl, hlimit, hfull⟩ := hwithin.full_of_failed hforward
  obtain ⟨stimulus, _, hrun⟩ := hfailed.run_eq_of_error hm
  have htaken : (heard.consumer.forward batch).2.stop.sink.taken =
      (heard.consumer.forward batch).2.sink.taken := taken_stop_of_full hlimit hfull
  rw [hrun]
  refine ⟨?_, rfl⟩
  exact
    { ran := hrun
      within := hwithin
      failed := hfailed
      handled := by rw [hflow]; exact hhandled
      taken := htaken
      full := (congrArg List.length htaken).trans hfull }

/-- A run takes both machines the same way, or the sink of the first is full with it. -/
theorem Abreast.run (h : Abreast limit m n) (request : Request) :
    (∃ outcome m' whole, m.run consumer request = (outcome, m') ∧
      n.run consumer request = (outcome, m'.handTo whole) ∧
      Abreast limit m' (m'.handTo whole)) ∨
    ∃ m' heard whole batch, Fills limit request m m' n heard whole batch ∧ m'.stopped = true ∧
      n.Running := by
  cases h with
  | stopped hstopped hcut =>
      rename_i whole
      have hstopped' : (m.handTo whole).stopped = true := hstopped
      exact .inl ⟨_, m, whole, Machine.run_of_stopped hstopped consumer request,
        Machine.run_of_stopped hstopped' consumer request, .stopped hstopped hcut⟩
  | running hm hwithin =>
      rename_i whole
      rcases (follows_within limit).run hm hwithin request with
        ⟨hsame, hbeside⟩ | ⟨heard, whole', batch, fault, answer, hheard, hfailed, hhandled⟩
      · refine .inl ?_
        have hagrees := hm.run_agrees consumer request
        generalize m.run consumer request = ran at hsame hbeside hagrees ⊢
        generalize (m.handTo whole).run consumer request = ran' at hsame hbeside ⊢
        obtain ⟨outcome, m'⟩ := ran
        obtain ⟨outcome', n'⟩ := ran'
        cases hsame
        cases hbeside with
        | dropped hnext =>
            exact ⟨_, _, _, rfl, rfl, .running hagrees.running_of_dropped hnext⟩
        | returned hnext hstop =>
            refine ⟨_, _, _, rfl, rfl, .stopped hagrees.stopped_of_returned ?_⟩
            rw [hstop]
            exact hnext.stop
      · obtain ⟨hfills, hstopped⟩ := fills_of_failed hm hheard hfailed hhandled
        exact .inr ⟨_, heard, whole', batch, hfills, hstopped, hm.handTo whole⟩

theorem Abreast.truncates (h : Abreast limit m n) (requests : List Request) :
    Truncates limit m n requests := by
  induction requests generalizing m n with
  | nil => exact .none
  | cons request requests ih =>
      rcases h.run request with
        ⟨outcome, m', whole, hrun, hrun', hnext⟩ | ⟨m', heard, whole, batch, hfills, hstopped, _⟩
      · exact .same hrun hrun' hnext.cut (ih hnext)
      · exact .full hfills (Machine.runAll_of_stopped hstopped consumer requests)

/-- What the other machine writes from then on comes behind the limit. -/
theorem Fills.cut (h : Fills limit request m m' n heard whole batch) (hn : n.Running)
    (requests : List Request) :
    Cut limit m'.consumer ((n.run consumer request).2.afterRuns consumer requests).consumer := by
  let text := (whole.forward batch).2.sink.taken
  have hcut : m'.consumer.sink.taken = text.take limit := h.taken.trans (h.within.took_forward batch)
  have hkeeps : Keeps consumer (Prints (text <+: ·)) :=
    keeps_prints fun _ batch hprefix => hprefix.trans (List.prefix_append _ _)
  have hstop : ∀ instant echo, Prints (text <+: ·) echo →
      Prints (text <+: ·) (consumer.stop instant echo) := fun _ echo hprints =>
    hprints.stop fun _ hprefix => hprefix.trans (List.prefix_append _ _)
  have htook := Echo.took_forward (h.within.room_whole _) batch
  have hstart : Prints (text <+: ·) (whole.forward batch).2 :=
    ⟨htook.limit.trans h.within.unlimited, List.prefix_refl text⟩
  have hafter := (h.handled.run_over hkeeps hn hstart).keeps hstop
  obtain ⟨rest, hrest⟩ := ((hn.run_agrees consumer request).rests.keeps_afterRuns hkeeps hstop
    hafter requests).taken
  have hlimit : limit ≤ text.length := by
    have hfull := h.full
    rw [hcut, List.length_take] at hfull
    omega
  rw [Cut, ← hrest, List.take_append_of_le_length hlimit, hcut]

theorem Abreast.cut_afterRuns (h : Abreast limit m n) (requests : List Request) :
    Cut limit (m.afterRuns consumer requests).consumer
      (n.afterRuns consumer requests).consumer := by
  induction requests generalizing m n with
  | nil => exact h.cut
  | cons request requests ih =>
      rw [Machine.afterRuns, Machine.afterRuns]
      rcases h.run request with
        ⟨outcome, m', whole, hrun, hrun', hnext⟩ | ⟨m', heard, whole, batch, hfills, hstopped, hn⟩
      · rw [hrun, hrun']
        exact ih hnext
      · rw [hfills.ran, Machine.afterRuns_of_stopped hstopped]
        exact hfills.cut hn requests

/-! ## From the start -/

/-- What is written by an echo that is started and, if that succeeds, is run. -/
def output (sink : Sink) (config : Session.Config) (backspace : UInt8) (source : Source)
    (clock : Nat) (requests : List Request) : List Char :=
  match (new sink).start with
  | (.error _, echo) => echo.sink.taken
  | (.ok (), echo) =>
    ((fresh config backspace echo source clock).afterRuns consumer requests).consumer.sink.taken

theorem room_new (limit : Option Nat) : (new (.new limit none)).sink.Room [] :=
  fun _ _ => Nat.zero_le _

theorem start_whole :
    ∃ whole, (new (.new none none)).start = (.ok (), whole) ∧ whole.sink.limit = none ∧
      whole.sink.flushLimit = none ∧ whole.sink.taken = opening := by
  have hroom : (new (.new none none)).sink.Room opening := Sink.room_of_unlimited rfl opening
  have htook := took_start (room_new none)
  exact ⟨_, Prod.ext (answer_start_of_room rfl hroom) rfl, htook.limit, htook.flushLimit,
    htook.taken⟩

/-- On a limited sink the start fails for lack of space, or it goes as on an unlimited one. -/
theorem start_limited (limit : Nat) :
    (∃ echo, (new (.new (some limit) none)).start = (.error .full, echo) ∧
      limit ≤ opening.length ∧ echo.sink.taken = opening.take limit) ∨
    ∃ echo whole, (new (.new (some limit) none)).start = (.ok (), echo) ∧
      (new (.new none none)).start = (.ok (), whole) ∧ Within limit echo whole := by
  have htook := took_start (room_new (some limit))
  have htaken : (new (.new (some limit) none)).start.2.sink.taken = opening.take limit :=
    htook.taken
  have hiff : (new (.new (some limit) none)).sink.Room opening ↔ opening.length ≤ limit :=
    Sink.room_iff_of_limited rfl
  by_cases hle : opening.length ≤ limit
  · obtain ⟨whole, hwhole, hunlimited, hflushes, hopening⟩ := start_whole
    have hok : (new (.new (some limit) none)).start = (.ok (), _) :=
      Prod.ext (answer_start_of_room rfl (hiff.2 hle)) rfl
    rw [List.take_of_length_le hle] at htaken
    refine .inr ⟨_, whole, hok, hwhole, ?_⟩
    exact
      { limited := htook.limit
        unlimited := hunlimited
        flushes := ⟨htook.flushLimit, hflushes⟩
        started := (started_of_start hok).trans (started_of_start hwhole).symm
        taken := htaken.trans hopening.symm
        fits := by rwa [hopening] }
  · have hfull : (new (.new (some limit) none)).start = (.error .full, _) :=
      Prod.ext (answer_start_of_not_room (room_new _) (mt hiff.1 hle)) rfl
    exact .inl ⟨_, hfull, Nat.le_of_not_le hle, htaken⟩

variable {config : Session.Config} {backspace : UInt8} {source : Source} {clock : Nat}
  {requests : List Request}

theorem output_whole {whole : Echo} (h : (new (.new none none)).start = (.ok (), whole)) :
    output (.new none none) config backspace source clock requests =
      ((fresh config backspace whole source clock).afterRuns consumer
        requests).consumer.sink.taken := by
  rw [output, h]

theorem kind_output (kind : List Char → Prop) (hopening : kind opening)
    (hbatch : ∀ text batch, kind text → kind (text ++ (batchText batch).toList))
    (hclosing : ∀ text, kind text → kind (text ++ closing)) :
    kind (output (.new none none) config backspace source clock requests) := by
  obtain ⟨whole, hstart, hunlimited, _, htaken⟩ := start_whole
  have hm := running_fresh config backspace whole source clock
  have hprints : Prints kind whole := ⟨hunlimited, htaken ▸ hopening⟩
  rw [output_whole hstart]
  exact ((Rests.running hm).keeps_afterRuns (keeps_prints hbatch)
    (fun _ _ hprints => hprints.stop hclosing) hprints requests).taken

theorem ascii_output :
    ∀ c ∈ output (.new none none) config backspace source clock requests, c.toNat < 128 := by
  have happend : ∀ text others : List Char, (∀ c ∈ others, c.toNat < 128) →
      (∀ c ∈ text, c.toNat < 128) → ∀ c ∈ text ++ others, c.toNat < 128 :=
    fun text others hothers htext => List.forall_mem_append.2 ⟨htext, hothers⟩
  exact kind_output (fun text => ∀ c ∈ text, c.toNat < 128) (ascii_of_all (by decide))
    (fun text batch => happend text _ (ascii_batchText batch))
    (fun text => happend text _ (ascii_of_all (by decide)))

theorem opening_prefix_output :
    opening <+: output (.new none none) config backspace source clock requests :=
  kind_output (opening <+: ·) (List.prefix_refl opening)
    (fun _ _ hprefix => hprefix.trans (List.prefix_append _ _))
    (fun _ hprefix => hprefix.trans (List.prefix_append _ _))

/-- An echo on a limited sink writes what it would write on an unlimited one, up to the limit; all
of it is ASCII, a byte for a character. If the opening does not fit the start fails. Otherwise the
runs go the same way, up to one that fails because a batch does not fit. -/
theorem output_truncated (config : Session.Config) (backspace : UInt8) (source : Source)
    (clock : Nat) (requests : List Request) (limit : Nat) :
    let whole := output (.new none none) config backspace source clock requests
    output (.new (some limit) none) config backspace source clock requests = whole.take limit ∧
      (∀ c ∈ whole, c.toNat < 128) ∧
      ((∃ echo, (new (.new (some limit) none)).start = (.error .full, echo)) ∨
        ∃ echo whole, (new (.new (some limit) none)).start = (.ok (), echo) ∧
          (new (.new none none)).start = (.ok (), whole) ∧
          Truncates limit (fresh config backspace echo source clock)
            (fresh config backspace whole source clock) requests) := by
  intro output'
  refine ⟨?_, ascii_output, ?_⟩
  · rcases start_limited limit with
      ⟨echo, hstart, hle, htaken⟩ | ⟨echo, whole, hstart, hwhole, hwithin⟩
    · obtain ⟨rest, hrest⟩ : opening <+: output' := opening_prefix_output
      rw [output, hstart, ← hrest, List.take_append_of_le_length hle]
      exact htaken
    · have habreast : Abreast limit (fresh config backspace echo source clock)
          (fresh config backspace whole source clock) :=
        .running (running_fresh config backspace echo source clock) hwithin
      rw [output, hstart, show output' = _ from output_whole hwhole]
      exact habreast.cut_afterRuns requests
  · rcases start_limited limit with
      ⟨echo, hstart, _, _⟩ | ⟨echo, whole, hstart, hwhole, hwithin⟩
    · exact .inl ⟨echo, hstart⟩
    · have habreast : Abreast limit (fresh config backspace echo source clock)
          (fresh config backspace whole source clock) :=
        .running (running_fresh config backspace echo source clock) hwithin
      exact .inr ⟨echo, whole, hstart, hwhole, habreast.truncates requests⟩

end Keystroke.Echo
