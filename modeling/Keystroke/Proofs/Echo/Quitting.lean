import Keystroke.Proofs.Echo.QuitKey
import Keystroke.Proofs.Echo.Restoration
import Keystroke.Proofs.EventLoop.Splitting

/-! # Quitting

An echo quits at the first batch with Ctrl-Q in it. So whether a run quits is decided
by the stream of decoded keys, and not by how the data of its source is cut up. The
batch is one of a chunk, since nothing held back is resolved to Ctrl-Q, and it is
printed like any other.
-/

namespace Keystroke

open Decoder (Segment)
open EventLoop
open EventLoop.Machine (Over fresh running_fresh delivered_decoded Keeps)

namespace EventLoop

/-- No source asks to quit. -/
theorem Source.reason_readings (now : Nat) (source : Source) :
    (source.readings now).reason ≠ .consumerQuit := by
  induction now, source using Source.readings.induct with
  | case1 now source bytes rest h ih =>
      rw [readings_of_chunk h]
      exact ih
  | case2 now source rest h =>
      rw [readings_of_endOfInput h]
      exact ShutdownReason.noConfusion
  | case3 now source error rest h =>
      rw [readings_of_failed h]
      exact ShutdownReason.noConfusion

end EventLoop

namespace Echo

/-- A run with an echo that quits at a batch, behind the batches in front. It ends there: the batch
is printed, and nothing behind it is read or printed but what puts the terminal back. -/
structure QuitsAt (source : Source) (front : List (Nat × Batch)) (instant : Nat) (batch : Batch)
    (ran : Outcome Fault × Machine (Echo × List Call)) : Prop where
  first : ∀ earlier ∈ front, quitKey ∉ earlier.2.events
  quits : quitKey ∈ batch.events
  outcome : ran.1 = .returned (.ok .consumerQuit)
  clock : ran.2.clock = instant
  calls : ran.2.consumer.2 = handed (front ++ [(instant, batch)]) ++ [.stop instant]
  printed : ran.2.consumer.1.sink.taken =
    opening ++ transcript (front.map Prod.snd ++ [batch]) ++ closing
  read : source.Gives ((front.map Prod.snd ++ [batch]).filterMap Batch.bytes?) ran.2.source

/-! ## The answers of an echo -/

theorem flow_eq_quit_iff {batch : Batch} : flow batch = .quit ↔ quitKey ∈ batch.events := by
  have hany : batch.events.any isQuit = true ↔ quitKey ∈ batch.events := by
    rw [List.any_eq_true]
    constructor
    · rintro ⟨event, hmem, hquit⟩
      rwa [isQuit_iff.1 hquit] at hmem
    · exact fun hmem => ⟨quitKey, hmem, isQuit_iff.2 rfl⟩
  rw [← hany, flow]
  split
  · exact iff_of_true rfl ‹_›
  · exact iff_of_false (fun h => nomatch h) ‹_›

theorem flow_eq_proceed {batch : Batch} (h : quitKey ∉ batch.events) : flow batch = .proceed := by
  cases hflow : flow batch with
  | proceed => rfl
  | quit => exact absurd (flow_eq_quit_iff.1 hflow) h

theorem answersBy_flow : AnswersBy consumer Unfailing flow where
  keeps := keeps_unfailing
  answer := fun _ batch _ h => h.answer batch

/-! ## Runs -/

variable {config : Session.Config} {backspace : UInt8} {source : Source} {start : Nat}

theorem quitsAt_of_first (hp : 0 < config.tickInterval.nanos) {front back : List (Nat × Batch)}
    {instant : Nat} {batch : Batch}
    (hdecoded : source.decoded config backspace start = front ++ (instant, batch) :: back)
    (hfront : ∀ earlier ∈ front, quitKey ∉ earlier.2.events) (hquit : quitKey ∈ batch.events) :
    QuitsAt source front instant batch
      ((fresh config backspace (ready, []) source start).run consumer.recorded quiet) := by
  let m := fresh config backspace (ready, ([] : List Call)) source start
  have hm : m.Running := running_fresh config backspace (ready, []) source start
  have hshowing : Showing m.consumer := unfailing_ready.toShowing
  have hdelivered := delivered_decoded consumer.recorded hp backspace (ready, []) source start
  rw [hdecoded] at hdelivered
  obtain ⟨hanswer, hdelivery⟩ := answersBy_flow.deliver_of_quit unfailing_ready
    (fun earlier hmem => flow_eq_proceed (hfront earlier hmem)) (flow_eq_quit_iff.2 hquit)
  have houtcome : (m.run consumer.recorded quiet).1 = .returned (.ok .consumerQuit) :=
    hdelivered.outcome.trans (congrArg Outcome.returned hanswer)
  have hrecorded : (m.run consumer.recorded quiet).2.consumer.2 =
      handed (front ++ [(instant, batch)]) ++ [.stop instant] :=
    (congrArg Prod.snd hdelivered.consumer).trans hdelivery
  have hover := hm.run_over keeps_showing hshowing quiet
  obtain ⟨calls, hcalls, hgives⟩ := hm.progress_of_quit houtcome
  change Over consumer.recorded Showing (m.run consumer.recorded quiet).1
    (m.run consumer.recorded quiet).2 at hover
  change QuitsAt source front instant batch (m.run consumer.recorded quiet)
  generalize m.run consumer.recorded quiet = ran at houtcome hrecorded hover hcalls hgives ⊢
  -- The calls of the run are those of the stream, and so are the chunks that were read.
  obtain ⟨rfl, hstop⟩ := List.append_singleton_inj.1 (hcalls.symm.trans hrecorded)
  have hclosed : Closed ran.2.consumer := by
    rw [houtcome] at hover
    exact closed_of_over hover
  have hgiven : given (handed (front ++ [(instant, batch)])) = front.map Prod.snd ++ [batch] := by
    rw [given_handed, List.map_append]
    rfl
  refine
    { first := hfront
      quits := hquit
      outcome := houtcome
      clock := Call.stop.inj hstop
      calls := hrecorded
      printed := ?_
      read := ?_ }
  · rw [hclosed.taken, hrecorded, given_concat_stop, hgiven]
  · rw [← hgiven]
    exact hgives

/-- The first batch with Ctrl-Q in it is one of a chunk. -/
theorem exists_first (h : quitKey ∈ keys (source.decoded config backspace start)) :
    ∃ front instant bytes events back,
      source.decoded config backspace start = front ++ (instant, .input bytes events) :: back ∧
        (∀ earlier ∈ front, quitKey ∉ earlier.2.events) ∧ quitKey ∈ events := by
  obtain ⟨batch, hmem, hkey⟩ := List.mem_flatMap.1 h
  cases hfind : (source.decoded config backspace start).find?
      fun batch => decide (quitKey ∈ batch.2.events) with
  | none => exact absurd (decide_eq_true hkey) (List.find?_eq_none.1 hfind batch hmem)
  | some first =>
      obtain ⟨hfirst, front, back, hsplit, hfront⟩ := List.find?_eq_some_iff_append.1 hfind
      obtain ⟨instant, found⟩ := first
      have hfound : (instant, found) ∈ source.decoded config backspace start := by
        rw [hsplit]
        exact List.mem_append_right front List.mem_cons_self
      have hquit := of_decide_eq_true hfirst
      obtain ⟨bytes, events, rfl⟩ := input_of_mem_timeline quitKey_notMem_resolution hfound hquit
      refine ⟨front, instant, bytes, events, back, hsplit, fun earlier hearlier => ?_, hquit⟩
      have hnot := hfront earlier hearlier
      simpa using hnot

/-- A run quits if and only if there is a Ctrl-Q in the decoded stream. -/
theorem quits_iff (hp : 0 < config.tickInterval.nanos) :
    ((fresh config backspace (ready, []) source start).run consumer.recorded quiet).1 =
        .returned (.ok .consumerQuit) ↔
      quitKey ∈ keys (source.decoded config backspace start) := by
  constructor
  · intro hreturned
    by_cases hkey : quitKey ∈ keys (source.decoded config backspace start)
    · exact hkey
    have hproceed : ∀ batch ∈ source.decoded config backspace start, flow batch.2 = .proceed :=
      fun batch hmem =>
        flow_eq_proceed fun hquit => hkey (List.mem_flatMap.2 ⟨batch, hmem, hquit⟩)
    have hdelivered := delivered_decoded consumer.recorded hp backspace (ready, []) source start
    rw [hdelivered.outcome, answersBy_flow.deliver_of_proceed unfailing_ready hproceed] at hreturned
    injection hreturned with hresult
    exact absurd (Except.ok.inj hresult) (source.reason_readings start)
  · intro hkey
    obtain ⟨front, instant, bytes, events, back, hdecoded, hfront, hquit⟩ := exists_first hkey
    exact (quitsAt_of_first hp hdecoded hfront hquit).outcome

/-- Whether a run with an echo quits is decided by the stream of decoded keys: it does so if and
only if there is a Ctrl-Q in it, typed as the control byte or reported in the extended form. It ends
with the batch that has the first Ctrl-Q in it, which is one of a chunk and is printed whole, and
nothing is read behind it. Sources with the same bytes at the same instants agree on it, however
the bytes are split. -/
theorem quits_by_decoded_keys (config : Session.Config) (backspace : UInt8) (source : Source)
    (start : Nat) (hp : 0 < config.tickInterval.nanos) :
    let decoded := source.decoded config backspace start
    let segments := ((Decoder.new backspace).run (calls decoded)).1
    let ran := fun source : Source =>
      (fresh config backspace (ready, []) source start).run consumer.recorded quiet
    ((ran source).1 = .returned (.ok .consumerQuit) ↔ quitKey ∈ keys decoded) ∧
    (keys decoded = segments.map Segment.event ∧
      ∀ segment ∈ segments, segment.event = quitKey ↔ QuitCode segment.bytes) ∧
    ((ran source).1 = .returned (.ok .consumerQuit) →
      ∃ front instant bytes events back, decoded = front ++ (instant, .input bytes events) :: back ∧
        QuitsAt source front instant (.input bytes events) (ran source)) ∧
    ∀ other : Source, other.arriving = source.arriving →
      ((ran other).1 = .returned (.ok .consumerQuit) ↔
        (ran source).1 = .returned (.ok .consumerQuit)) := by
  intro decoded segments ran
  refine ⟨quits_iff hp, ⟨?_, ?_⟩, ?_, ?_⟩
  · obtain ⟨d', hdecodes⟩ : ∃ d', Decodes (.new backspace) decoded d' := decodes_timeline _ _
    exact hdecodes.events
  · exact fun segment hmem => quit_iff (Decoder.provenance_run backspace _ segment hmem)
  · intro hreturned
    obtain ⟨front, instant, bytes, events, back, hdecoded, hfront, hquit⟩ :=
      exists_first ((quits_iff hp).1 hreturned)
    exact ⟨front, instant, bytes, events, back, hdecoded,
      quitsAt_of_first hp hdecoded hfront hquit⟩
  · intro other harriving
    have htyped := Source.typed_decoded harriving config backspace start
    have hkeys : ∀ source : Source, quitKey ∈ typed (source.decoded config backspace start) ↔
        quitKey ∈ keys (source.decoded config backspace start) :=
      fun _ => mem_typed_timeline quitKey_notMem_resolution
    exact (quits_iff hp).trans (((hkeys other).symm.trans (by rw [htyped])).trans
      ((hkeys source).trans (quits_iff hp).symm))

/-- Alt and Ctrl-Q does not quit, an extended report of Ctrl-Q does, whole or in pieces. -/
theorem quits_with_report :
    let config : Session.Config := ⟨.ofNanos 2, .ofNanos 5⟩
    let source : Source := [⟨1, .data [0x1b, 0x11]⟩,
      ⟨3, .data [0x1b, 0x5b, 0x31, 0x31, 0x33, 0x3b, 0x35, 0x75, 0x62]⟩]
    let pieces : Source := [⟨1, .data [0x1b]⟩, ⟨1, .data [0x11]⟩,
      ⟨3, .data [0x1b, 0x5b, 0x31]⟩, ⟨3, .data [0x31, 0x33, 0x3b, 0x35, 0x75, 0x62]⟩]
    let ran := fun source : Source =>
      (fresh config 0x7f (ready, []) source 0).run consumer.recorded quiet
    (ran source).1 = .returned (.ok .consumerQuit) ∧ (ran source).2.clock = 3 ∧
      (ran pieces).1 = .returned (.ok .consumerQuit) := by
  intro config source pieces ran
  obtain ⟨hiff, _, hends, hagree⟩ := quits_by_decoded_keys config 0x7f source 0 (by decide)
  have hreadings : source.readings 0 =
      ⟨[(1, [0x1b, 0x11]), (3, [0x1b, 0x5b, 0x31, 0x31, 0x33, 0x3b, 0x35, 0x75, 0x62])], 3,
        .endOfInput⟩ := by
    rw [Source.readings_of_chunk rfl, Source.readings_of_chunk rfl,
      Source.readings_of_endOfInput rfl]
    rfl
  have hdecoded : source.decoded config 0x7f 0 =
      [(1, .input [0x1b, 0x11] [.press (.codepoint 'q') ⟨false, true, true, false⟩]),
        (3, .input [0x1b, 0x5b, 0x31, 0x31, 0x33, 0x3b, 0x35, 0x75, 0x62]
          [quitKey, .character 'b'])] := by
    rw [Source.decoded, hreadings]
    decide +kernel
  have hquit : (ran source).1 = .returned (.ok .consumerQuit) := by
    refine hiff.2 ?_
    rw [hdecoded]
    decide +kernel
  refine ⟨hquit, ?_, (hagree pieces rfl).2 hquit⟩
  obtain ⟨front, instant, bytes, events, back, hsplit, hat⟩ := hends hquit
  rw [hdecoded] at hsplit
  rcases front with _ | ⟨first, _ | ⟨second, front⟩⟩
  · cases hsplit
    exact absurd hat.quits (by decide +kernel)
  · cases hsplit
    exact hat.clock
  · simp at hsplit

end Echo

end Keystroke
