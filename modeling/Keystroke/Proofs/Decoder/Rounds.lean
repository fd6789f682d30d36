import Keystroke.Proofs.Decoder.Run

/-! # Rounds of a scan

A scan as a loop over positions. A cursor has what is decided so far and the position behind
it, and a round looks at the bytes from there on. Positions grow by what a step says it used;
nothing in the loop itself keeps them within the input or has it end. Both come from the
lengths of the steps: every round moves on, no cursor is behind the end, and as many rounds
as there are bytes suffice. The loop ends with the segments of `scan` and in front of its
tail, so that a call of a decoder drops no more bytes than there are.
-/

namespace Keystroke.Decoder

/-- The bytes from a position on, unless the position is behind the end. -/
def bytesFrom? (input : Bytes) (position : Nat) : Option Bytes :=
  if position ≤ input.length then some (input.drop position) else none

structure Cursor where
  segments : List Segment
  position : Nat
deriving DecidableEq

namespace Cursor

def start : Cursor := ⟨[], 0⟩

/-- The bytes that the next round looks at, if there are any. -/
def ahead? (input : Bytes) (c : Cursor) : Option Bytes :=
  (bytesFrom? input c.position).filter fun ahead => !ahead.isEmpty

/-- The cursor behind the segment at the front of the bytes ahead, unless more bytes could
complete it. -/
def round? (backspace : UInt8) (atEnd : Bool) (input ahead : Bytes) (c : Cursor) : Option Cursor :=
  match decodeOne backspace atEnd ahead with
  | .key event used => some ⟨c.segments ++ [⟨ahead.take used, event, false⟩], c.position + used⟩
  | .incomplete =>
    if atEnd then some ⟨c.segments ++ [⟨ahead, .invalid, true⟩], input.length⟩ else none

/-- The rounds up to an end of the loop: one for each segment, and another one to find that the
bytes ahead are undecided, if there are any. -/
def rounds (input : Bytes) (c : Cursor) : Nat :=
  c.segments.length + if c.position = input.length then 0 else 1

end Cursor

/-- Where the loop ends from a cursor on, if it does so within a number of rounds. -/
def loop (backspace : UInt8) (atEnd : Bool) (input : Bytes) : Nat → Cursor → Option Cursor
  | 0, c => if c.ahead? input = none then some c else none
  | rounds + 1, c =>
    match c.ahead? input with
    | none => some c
    | some ahead =>
      match c.round? backspace atEnd input ahead with
      | none => some c
      | some next => loop backspace atEnd input rounds next

/-- Runs the loop over all bytes held back and drops those that it used, if there are so many. -/
def drain? (d : Decoder) (atEnd : Bool) (rounds : Nat) : Option (List Segment × Decoder) := do
  let last ← loop d.backspace atEnd d.pending rounds .start
  let tail ← bytesFrom? d.pending last.position
  return (last.segments, { d with pending := tail })

variable {backspace : UInt8} {atEnd : Bool} {input ahead : Bytes} {c next : Cursor}

theorem bytesFrom?_of_le {position : Nat} (h : position ≤ input.length) :
    bytesFrom? input position = some (input.drop position) :=
  if_pos h

theorem drain?_of_loop {d : Decoder} {rounds : Nat} {last : Cursor}
    (hloop : loop d.backspace atEnd d.pending rounds .start = some last)
    (hle : last.position ≤ d.pending.length) :
    d.drain? atEnd rounds = some (last.segments, ⟨d.backspace, d.pending.drop last.position⟩) := by
  simp [drain?, hloop, bytesFrom?_of_le hle]

/-! ## One round -/

namespace Cursor

theorem ahead?_of_lt (h : c.position < input.length) :
    c.ahead? input = some (input.drop c.position) := by
  have hne : input.drop c.position ≠ [] := by simpa using h
  simp [ahead?, bytesFrom?_of_le (Nat.le_of_lt h), hne]

theorem ahead?_of_end (h : c.position = input.length) : c.ahead? input = none := by
  rw [ahead?, bytesFrom?_of_le (Nat.le_of_eq h), h, List.drop_length]
  rfl

/-- A round that decides nothing has found the tail. -/
theorem scan_of_round?_eq_none
    (hr : c.round? backspace atEnd input ahead = none) :
    scan backspace atEnd ahead = ([], ahead) := by
  unfold round? at hr
  cases hstep : decodeOne backspace atEnd ahead with
  | key event used => simp [hstep] at hr
  | incomplete =>
      cases atEnd with
      | false => exact scan_of_incomplete hstep
      | true => simp [hstep] at hr

end Cursor

/-- The cursor is not behind the end, has no more segments than bytes before it, and the scan of
the input is what is decided so far and the scan of what is ahead. -/
structure OnCourse (backspace : UInt8) (atEnd : Bool) (input : Bytes) (c : Cursor) : Prop where
  position_le : c.position ≤ input.length
  length_le : c.segments.length ≤ c.position
  scan_eq : scan backspace atEnd input =
    (c.segments ++ (scan backspace atEnd (input.drop c.position)).1,
      (scan backspace atEnd (input.drop c.position)).2)

theorem OnCourse.start (backspace : UInt8) (atEnd : Bool) (input : Bytes) :
    OnCourse backspace atEnd input .start :=
  ⟨Nat.zero_le _, Nat.le_refl 0, rfl⟩

theorem OnCourse.move {segment : Segment} {position : Nat}
    (h : OnCourse backspace atEnd input c) (hlt : c.position < position)
    (hle : position ≤ input.length)
    (hscan : scan backspace atEnd (input.drop c.position) =
      (segment :: (scan backspace atEnd (input.drop position)).1,
        (scan backspace atEnd (input.drop position)).2)) :
    OnCourse backspace atEnd input ⟨c.segments ++ [segment], position⟩ where
  position_le := hle
  length_le := by
    have hsegments := h.length_le
    simp only [List.length_append, List.length_singleton]
    omega
  scan_eq := by
    rw [h.scan_eq, hscan]
    simp

/-- A round that decides a segment moves on and stays within the input. -/
theorem OnCourse.round (h : OnCourse backspace atEnd input c) (hlt : c.position < input.length)
    (hr : c.round? backspace atEnd input (input.drop c.position) = some next) :
    OnCourse backspace atEnd input next ∧ c.position < next.position ∧
      next.segments.length = c.segments.length + 1 := by
  unfold Cursor.round? at hr
  cases hstep : decodeOne backspace atEnd (input.drop c.position) with
  | key event used =>
      simp only [hstep, Option.some.injEq] at hr
      subst hr
      have hused := decodeOne_le hstep
      rw [List.length_drop] at hused
      have hmoves : c.position < c.position + used := by omega
      refine ⟨h.move hmoves (by omega) ?_, hmoves, by simp⟩
      rw [scan_of_key hstep, List.drop_drop]
  | incomplete =>
      cases atEnd with
      | false => simp [hstep] at hr
      | true =>
          simp only [hstep, if_true, Option.some.injEq] at hr
          subst hr
          have hne : input.drop c.position ≠ [] := by simpa using hlt
          refine ⟨h.move hlt (Nat.le_refl _) ?_, hlt, by simp⟩
          rw [scan_atEnd_of_incomplete hne hstep, List.drop_length, scan_nil]

theorem OnCourse.rounds_le (h : OnCourse backspace atEnd input c) :
    c.rounds input ≤ input.length := by
  have hposition := h.position_le
  have hsegments := h.length_le
  unfold Cursor.rounds
  split <;> omega

/-! ## All rounds -/

theorem loop_of_end (h : c.position = input.length) (rounds : Nat) :
    loop backspace atEnd input rounds c = some c := by
  cases rounds <;> simp [loop, Cursor.ahead?_of_end h]

theorem loop_of_lt (h : c.position < input.length) :
    loop backspace atEnd input 0 c = none := by
  simp [loop, Cursor.ahead?_of_lt h]

theorem loop_succ_of_lt (h : c.position < input.length) (rounds : Nat) :
    loop backspace atEnd input (rounds + 1) c =
      match c.round? backspace atEnd input (input.drop c.position) with
      | none => some c
      | some next => loop backspace atEnd input rounds next := by
  simp [loop, Cursor.ahead?_of_lt h]

/-- The loop goes from `c` to `last` and ends there, with the rounds that this takes or more. What
is ahead of `last` is left over. -/
structure Leads (backspace : UInt8) (atEnd : Bool) (input : Bytes) (c last : Cursor) : Prop where
  onCourse : OnCourse backspace atEnd input last
  length_le : c.segments.length ≤ last.segments.length
  scan_eq : scan backspace atEnd (input.drop last.position) = ([], input.drop last.position)
  loop_eq : ∀ rounds, loop backspace atEnd input rounds c =
    if last.rounds input ≤ c.segments.length + rounds then some last else none

theorem Leads.of_end (hc : OnCourse backspace atEnd input c) (h : c.position = input.length) :
    Leads backspace atEnd input c c where
  onCourse := hc
  length_le := Nat.le_refl _
  scan_eq := by simp [h, scan_nil]
  loop_eq rounds := by
    have hle : c.rounds input ≤ c.segments.length + rounds := by simp [Cursor.rounds, h]
    rw [loop_of_end h, if_pos hle]

theorem Leads.of_undecided (hc : OnCourse backspace atEnd input c) (h : c.position < input.length)
    (hr : c.round? backspace atEnd input (input.drop c.position) = none) :
    Leads backspace atEnd input c c where
  onCourse := hc
  length_le := Nat.le_refl _
  scan_eq := Cursor.scan_of_round?_eq_none hr
  loop_eq rounds := by
    have hrounds : c.rounds input = c.segments.length + 1 := by
      simp [Cursor.rounds, Nat.ne_of_lt h]
    rw [hrounds]
    cases rounds with
    | zero => rw [loop_of_lt h, if_neg (by omega)]
    | succ rounds => rw [loop_succ_of_lt h, hr, if_pos (by omega)]

theorem Leads.of_round {last : Cursor} (hnext : Leads backspace atEnd input next last)
    (h : c.position < input.length)
    (hr : c.round? backspace atEnd input (input.drop c.position) = some next)
    (hlength : next.segments.length = c.segments.length + 1) :
    Leads backspace atEnd input c last where
  onCourse := hnext.onCourse
  length_le := by
    have hle := hnext.length_le
    omega
  scan_eq := hnext.scan_eq
  loop_eq rounds := by
    have hle := hnext.length_le
    have hrounds : last.segments.length ≤ last.rounds input := Nat.le_add_right _ _
    cases rounds with
    -- There is no round for the segment behind `c`, which `last` counts.
    | zero => rw [loop_of_lt h, if_neg (by omega)]
    | succ rounds =>
        rw [loop_succ_of_lt h, hr, ← Nat.add_assoc, Nat.add_right_comm, ← hlength]
        exact hnext.loop_eq rounds

/-- The loop ends: every round that does not end it leaves less of the input ahead. -/
theorem OnCourse.exists_leads (h : OnCourse backspace atEnd input c) :
    ∃ last, Leads backspace atEnd input c last := by
  induction hn : input.length - c.position using Nat.strongRecOn generalizing c with
  | ind n ih =>
      by_cases hend : c.position = input.length
      · exact ⟨c, .of_end h hend⟩
      have hlt : c.position < input.length := Nat.lt_of_le_of_ne h.position_le hend
      cases hr : c.round? backspace atEnd input (input.drop c.position) with
      | none => exact ⟨c, .of_undecided h hlt hr⟩
      | some next =>
          obtain ⟨hnext, hposition, hlength⟩ := h.round hlt hr
          obtain ⟨last, hlast⟩ := ih (input.length - next.position) (by omega) hnext rfl
          exact ⟨last, hlast.of_round hlt hr hlength⟩

/-- Where the loop ends, it has what the scan of the input decides, and the tail is ahead. -/
theorem Leads.scan_input {last : Cursor} (h : Leads backspace atEnd input c last) :
    scan backspace atEnd input = (last.segments, input.drop last.position) := by
  rw [h.onCourse.scan_eq, h.scan_eq, List.append_nil]

theorem Leads.position_eq {last : Cursor} (h : Leads backspace true input c last) :
    last.position = input.length := by
  have htail := scan_atEnd_tail backspace (input.drop last.position)
  rw [h.scan_eq, List.drop_eq_nil_iff] at htail
  exact Nat.le_antisymm h.onCourse.position_le htail

theorem Leads.loop_start {last : Cursor} (h : Leads backspace atEnd input .start last)
    (rounds : Nat) :
    loop backspace atEnd input rounds .start =
      if last.rounds input ≤ rounds then some last else none := by
  simpa [Cursor.start] using h.loop_eq rounds

/-- The loop uses no more bytes than are held back, and what it drops leaves the tail. -/
theorem drain?_eq (d : Decoder) (atEnd : Bool) :
    d.drain? atEnd d.pending.length =
      some ((scan d.backspace atEnd d.pending).1,
        ⟨d.backspace, (scan d.backspace atEnd d.pending).2⟩) := by
  obtain ⟨last, hlast⟩ := (OnCourse.start d.backspace atEnd d.pending).exists_leads
  have hloop := hlast.loop_start d.pending.length
  rw [if_pos hlast.onCourse.rounds_le] at hloop
  rw [drain?_of_loop hloop hlast.onCourse.position_le, hlast.scan_input]

/-- A decided key takes at least one byte and no more than there are, and so does the control
sequence or the character in it. Hence the loop over any input ends, after as many rounds as there
are bytes or fewer. It has no more segments than it used bytes, and used no more bytes than there
are, at the end of the input all of them; these segments and the bytes that are left are those of
the scan. A feed and a flush are the loop over what is held back, with the used bytes dropped. -/
theorem loop_ends_in_bounds (backspace : UInt8) :
    (∀ atEnd input event used, decodeOne backspace atEnd input = .key event used →
      1 ≤ used ∧ used ≤ input.length) ∧
    (∀ body event used, ControlSequence.decode body = .key event used →
      1 ≤ used ∧ used ≤ body.length) ∧
    (∀ b rest event used, Utf8.decode b rest = .key event used →
      1 ≤ used ∧ used ≤ (b :: rest).length) ∧
    (∀ atEnd input, ∃ last : Cursor,
      (∀ rounds, loop backspace atEnd input rounds .start =
        if last.rounds input ≤ rounds then some last else none) ∧
      last.rounds input ≤ input.length ∧ last.segments.length ≤ last.position ∧
      last.position ≤ input.length ∧ (atEnd = true → last.position = input.length) ∧
      scan backspace atEnd input = (last.segments, input.drop last.position)) ∧
    (∀ pending bytes : Bytes,
      (Decoder.mk backspace (pending ++ bytes)).drain? false (pending ++ bytes).length =
        some ((Decoder.mk backspace pending).feed bytes) ∧
      (Decoder.mk backspace pending).drain? true pending.length =
        some (Decoder.mk backspace pending).flush) := by
  refine ⟨?_, ?_, ?_, ?_, ?_⟩
  · intro atEnd input event used h
    exact decodeOne_le h
  · intro body event used h
    exact (ControlSequence.decode_within body).key h
  · intro b rest event used h
    exact (Utf8.decode_within b rest).key h
  · intro atEnd input
    obtain ⟨last, hlast⟩ := (OnCourse.start backspace atEnd input).exists_leads
    refine ⟨last, hlast.loop_start, hlast.onCourse.rounds_le, hlast.onCourse.length_le,
      hlast.onCourse.position_le, ?_, hlast.scan_input⟩
    intro hend
    subst hend
    exact hlast.position_eq
  · intro pending bytes
    exact ⟨drain?_eq ⟨backspace, pending ++ bytes⟩ false, drain?_eq ⟨backspace, pending⟩ true⟩

/-- A malformed control sequence and a character that is cut off, at the end of the input. -/
theorem loop_of_malformed_sequence :
    let input : Bytes := [0x1b, 0x5b, 0x31, 0x3f, 0xc3]
    decodeOne 0x7f true input = .key .invalid 4 ∧ (1 ≤ 4 ∧ 4 ≤ input.length) ∧
      ControlSequence.decode [0x31, 0x3f, 0xc3] = .key .invalid 2 ∧ 2 ≤ [0x31, 0x3f, 0xc3].length ∧
      Utf8.decode 0xc3 [0x41] = .key .invalid 2 ∧ 2 ≤ [0xc3, 0x41].length ∧
      ∃ last, loop 0x7f true input input.length .start = some last ∧
        last.segments.length ≤ 5 ∧ last.position = 5 := by
  intro input
  obtain ⟨hone, hsequence, hcharacter, hloop, _⟩ := loop_ends_in_bounds 0x7f
  have hkey : decodeOne 0x7f true input = .key .invalid 4 := by decide
  have hbody : ControlSequence.decode [0x31, 0x3f, 0xc3] = .key .invalid 2 := by decide
  have hlead : Utf8.decode 0xc3 [0x41] = .key .invalid 2 := by decide
  obtain ⟨last, hlast, hrounds, hsegments, hposition, hend, _⟩ := hloop true input
  refine ⟨hkey, hone _ _ _ _ hkey, hbody, (hsequence _ _ _ hbody).2, hlead,
    (hcharacter _ _ _ _ hlead).2, last, ?_, ?_, hend rfl⟩
  · rw [hlast, if_pos hrounds]
  · exact Nat.le_trans hsegments hposition

/-- The loop takes a round for each of the two. -/
example :
    loop 0x7f true [0x1b, 0x5b, 0x31, 0x3f, 0xc3] 1 .start = none ∧
      loop 0x7f true [0x1b, 0x5b, 0x31, 0x3f, 0xc3] 2 .start =
        some ⟨[⟨[0x1b, 0x5b, 0x31, 0x3f], .invalid, false⟩, ⟨[0xc3], .invalid, true⟩], 5⟩ := by
  decide

end Keystroke.Decoder
