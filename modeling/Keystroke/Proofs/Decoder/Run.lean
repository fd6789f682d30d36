import Keystroke.Proofs.Decoder.Segments

/-! # Runs of a decoder

A run is any sequence of feeds and flushes. Between two calls the bytes held
back never decide a key, so that feeding in two parts is feeding in one, and
feeding nothing changes nothing.
-/

namespace Keystroke.Decoder

inductive Call where
  | feed (bytes : Bytes)
  | flush
deriving DecidableEq

def answer (d : Decoder) : Call → List Segment × Decoder
  | .feed bytes => d.feed bytes
  | .flush => d.flush

/-- The segments that the calls decide, in order, and the decoder behind them. -/
def run (d : Decoder) : List Call → List Segment × Decoder
  | [] => ([], d)
  | call :: calls =>
      ((d.answer call).1 ++ ((d.answer call).2.run calls).1, ((d.answer call).2.run calls).2)

theorem run_cons (d : Decoder) (call : Call) (calls : List Call) :
    d.run (call :: calls) =
      ((d.answer call).1 ++ ((d.answer call).2.run calls).1,
        ((d.answer call).2.run calls).2) := rfl

theorem run_cons_congr {d : Decoder} {call : Call} {calls others : List Call}
    (h : (d.answer call).2.run calls = (d.answer call).2.run others) :
    d.run (call :: calls) = d.run (call :: others) := by
  rw [run_cons, h, run_cons]

theorem feed_eq (d : Decoder) (bytes : Bytes) :
    d.feed bytes =
      ((scan d.backspace false (d.pending ++ bytes)).1,
        ⟨d.backspace, (scan d.backspace false (d.pending ++ bytes)).2⟩) := rfl

theorem flush_eq (d : Decoder) :
    d.flush = ((scan d.backspace true d.pending).1, new d.backspace) := by
  rw [new, ← scan_atEnd_tail d.backspace d.pending]
  rfl

theorem flush_of_nothing {d : Decoder} (h : d.pending = []) : d.flush = ([], d) := by
  rw [flush_eq, h, scan_nil, new, ← h]

theorem pending_flush (d : Decoder) : d.flush.2.pending = [] := by
  rw [flush_eq]
  rfl

/-- Bytes held back do not vanish in a flush. -/
theorem flush_ne_nil {d : Decoder} (h : d.pending ≠ []) : d.flush.1 ≠ [] := by
  intro hnil
  have hcovers := scan_covers d.backspace true d.pending
  rw [scan_atEnd_tail, List.append_nil] at hcovers
  rw [flush_eq] at hnil
  rw [hnil] at hcovers
  exact h hcovers.symm

theorem feed_append (d : Decoder) (bytes more : Bytes) :
    d.feed (bytes ++ more) =
      ((d.feed bytes).1 ++ ((d.feed bytes).2.feed more).1, ((d.feed bytes).2.feed more).2) := by
  simp only [feed_eq]
  rw [← List.append_assoc, scan_append]

theorem run_append (d : Decoder) (calls others : List Call) :
    d.run (calls ++ others) =
      ((d.run calls).1 ++ ((d.run calls).2.run others).1, ((d.run calls).2.run others).2) := by
  induction calls generalizing d with
  | nil => rfl
  | cons call calls ih =>
      simp only [run, List.cons_append]
      rw [ih, List.append_assoc]

/-! ## Bytes held back -/

/-- The bytes held back do not decide a key. -/
def Settled (d : Decoder) : Prop :=
  decodeOne d.backspace false d.pending = .incomplete

theorem settled_new (backspace : UInt8) : (new backspace).Settled := rfl

theorem settled_feed (d : Decoder) (bytes : Bytes) : (d.feed bytes).2.Settled :=
  scan_tail d.backspace (d.pending ++ bytes)

theorem settled_flush (d : Decoder) : d.flush.2.Settled := by
  rw [flush_eq]
  exact settled_new d.backspace

theorem settled_answer (d : Decoder) (call : Call) : (d.answer call).2.Settled := by
  cases call with
  | feed bytes => exact settled_feed d bytes
  | flush => exact settled_flush d

theorem Settled.after_run {d : Decoder} (h : d.Settled) (calls : List Call) :
    (d.run calls).2.Settled := by
  induction calls generalizing d with
  | nil => exact h
  | cons call calls ih => exact ih (settled_answer d call)

theorem settled_run (backspace : UInt8) (calls : List Call) :
    ((new backspace).run calls).2.Settled :=
  (settled_new backspace).after_run calls

theorem Settled.feed_nil {d : Decoder} (h : d.Settled) : d.feed [] = ([], d) := by
  rw [feed_eq, List.append_nil, scan_of_incomplete h]

theorem answer_backspace (d : Decoder) (call : Call) :
    (d.answer call).2.backspace = d.backspace := by
  cases call <;> rfl

theorem run_backspace (d : Decoder) (calls : List Call) :
    (d.run calls).2.backspace = d.backspace := by
  induction calls generalizing d with
  | nil => rfl
  | cons call calls ih => exact (ih _).trans (answer_backspace d call)

end Keystroke.Decoder
