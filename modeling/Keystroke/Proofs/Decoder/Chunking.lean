import Keystroke.Proofs.Decoder.Run

/-! # Chunks of input

How the input is cut into chunks shows neither in the keys nor in the bytes held
back. A run is therefore determined by its stretches, the bytes that were fed
between one flush and the next.
-/

namespace Keystroke.Decoder

theorem Settled.run_feeds {d : Decoder} (h : d.Settled) (chunks : List Bytes) :
    d.run (chunks.map .feed) = d.feed chunks.flatten := by
  induction chunks generalizing d with
  | nil => exact h.feed_nil.symm
  | cons chunk chunks ih =>
      rw [List.flatten_cons, feed_append, ← ih (settled_feed d chunk)]
      rfl

/-- The bytes fed before, between and after the flushes of a run. -/
def stretches : List Call → List Bytes
  | [] => [[]]
  | .feed bytes :: calls => (stretches calls).modifyHead (bytes ++ ·)
  | .flush :: calls => [] :: stretches calls

/-- The run that feeds every stretch in one piece. -/
def wholeCalls : List Bytes → List Call
  | [] => []
  | stretch :: others => .feed stretch :: others.flatMap fun next => [.flush, .feed next]

theorem stretches_ne_nil (calls : List Call) :
    ∃ stretch others, stretches calls = stretch :: others := by
  induction calls with
  | nil => exact ⟨[], [], rfl⟩
  | cons call calls ih =>
      cases call with
      | feed bytes =>
          obtain ⟨stretch, others, h⟩ := ih
          exact ⟨bytes ++ stretch, others, by rw [stretches, h, List.modifyHead_cons]⟩
      | flush => exact ⟨[], stretches calls, rfl⟩

theorem run_feed_append (d : Decoder) (bytes more : Bytes) (calls : List Call) :
    d.run (.feed (bytes ++ more) :: calls) = d.run (.feed bytes :: .feed more :: calls) := by
  simp only [run, answer]
  rw [feed_append, List.append_assoc]

/-- Every run is the run over its stretches. -/
theorem Settled.run_wholeCalls {d : Decoder} (h : d.Settled) (calls : List Call) :
    d.run (wholeCalls (stretches calls)) = d.run calls := by
  induction calls generalizing d with
  | nil =>
      change d.run ([[]].map .feed) = d.run []
      rw [h.run_feeds]
      exact h.feed_nil
  | cons call calls ih =>
      obtain ⟨stretch, others, hs⟩ := stretches_ne_nil calls
      cases call with
      | feed bytes =>
          have hrun := ih (settled_feed d bytes)
          rw [hs, wholeCalls] at hrun
          rw [stretches, hs, List.modifyHead_cons, wholeCalls, run_feed_append]
          exact run_cons_congr hrun
      | flush =>
          have hrun := ih (settled_flush d)
          rw [hs] at hrun
          rw [stretches, hs]
          change d.run (.feed [] :: .flush :: wholeCalls (stretch :: others)) = _
          rw [run_cons, answer, h.feed_nil]
          exact run_cons_congr hrun

/-- The bytes that a call feeds. -/
def Call.bytes : Call → Bytes
  | .feed bytes => bytes
  | .flush => []

theorem stretches_flatten (calls : List Call) :
    (stretches calls).flatten = calls.flatMap Call.bytes := by
  induction calls with
  | nil => rfl
  | cons call calls ih =>
      rw [List.flatMap_cons, ← ih]
      cases call with
      | feed bytes =>
          obtain ⟨stretch, others, hs⟩ := stretches_ne_nil calls
          rw [stretches, hs, List.modifyHead_cons, List.flatten_cons, List.flatten_cons,
            List.append_assoc]
          rfl
      | flush => rfl

theorem answer_covers (d : Decoder) (call : Call) :
    (d.answer call).1.flatMap Segment.bytes ++ (d.answer call).2.pending =
      d.pending ++ call.bytes := by
  cases call with
  | feed bytes => exact scan_covers d.backspace false (d.pending ++ bytes)
  | flush => exact (scan_covers d.backspace true d.pending).trans (List.append_nil _).symm

/-- The segments of a run and the bytes held back behind it are the bytes fed, with those held
back before. -/
theorem run_covers (d : Decoder) (calls : List Call) :
    (d.run calls).1.flatMap Segment.bytes ++ (d.run calls).2.pending =
      d.pending ++ calls.flatMap Call.bytes := by
  induction calls generalizing d with
  | nil => exact (List.append_nil _).symm
  | cons call calls ih =>
      rw [run_cons, List.flatMap_append, List.append_assoc, ih, ← List.append_assoc,
        answer_covers, List.append_assoc, List.flatMap_cons]

/-- The stretches of a fresh decoder are decoded one by one: the last is fed, each before it
is fed and flushed. -/
theorem run_wholeCalls_concat (backspace : UInt8) (others : List Bytes) (last : Bytes) :
    ((new backspace).run (wholeCalls (others ++ [last]))).1 =
      (others.flatMap fun stretch => ((new backspace).run [.feed stretch, .flush]).1) ++
        ((new backspace).feed last).1 := by
  induction others with
  | nil => exact List.append_nil _
  | cons stretch others ih =>
      have hcalls : wholeCalls (stretch :: others ++ [last]) =
          [.feed stretch, .flush] ++ wholeCalls (others ++ [last]) := by
        cases others <;> rfl
      have hfresh : ((new backspace).run [.feed stretch, .flush]).2 = new backspace :=
        congrArg Prod.snd (flush_eq ((new backspace).feed stretch).2)
      rw [hcalls, run_append, hfresh, ih, List.flatMap_cons, List.append_assoc]

/-- From any state that calls can bring a decoder to, feeding chunks is feeding them joined, with
the same segments and the same bytes held back. Two runs with the same stretches are the same,
so a flush behind the chunks is the flush behind them joined. -/
theorem run_invariant_of_chunking (backspace : UInt8) (history : List Call) :
    let d := ((new backspace).run history).2
    (∀ chunks : List Bytes, d.run (chunks.map .feed) = d.feed chunks.flatten) ∧
    (∀ calls others : List Call, stretches calls = stretches others →
      d.run calls = d.run others) ∧
    (∀ chunks : List Bytes,
      d.run (chunks.map .feed ++ [.flush]) = d.run [.feed chunks.flatten, .flush]) := by
  intro d
  have hd : d.Settled := settled_run backspace history
  refine ⟨hd.run_feeds, ?_, ?_⟩
  · intro calls others h
    rw [← hd.run_wholeCalls calls, h, hd.run_wholeCalls others]
  · intro chunks
    rw [run_append, hd.run_feeds]
    rfl

/-- A cursor key behind a character that was given up, in three chunks and in one. -/
theorem run_cursorKey_in_chunks :
    let d := ((new 0x7f).run [.feed [0xe2], .flush]).2
    stretches [.feed [0x1b], .feed [], .feed [0x5b, 0x41], .flush] =
        stretches [.feed [0x1b, 0x5b, 0x41], .flush] ∧
      d.run [.feed [0x1b], .feed [], .feed [0x5b, 0x41], .flush] =
        d.run [.feed [0x1b, 0x5b, 0x41], .flush] :=
  ⟨rfl, (run_invariant_of_chunking 0x7f [.feed [0xe2], .flush]).2.1 _ _ rfl⟩

end Keystroke.Decoder
