import Keystroke.Decoder.ControlSequence

/-! # Parameters as they are written

The parameter section is cut by `;` into parameters and each of these by `:`
into values, which are decimal numbers. Reading it byte by byte keeps exactly
these numbers, up to the greatest value, and stops at the first byte that is not
acceptable where it stands.
-/

namespace Keystroke.Decoder.ControlSequence

/-- The `i`-th of the pieces between separators, empty if there are not so many. -/
def piece (separator : UInt8) (bytes : Bytes) (i : Nat) : Bytes :=
  (bytes.splitOn separator).getD i []

def decimal (digits : Bytes) : Nat :=
  digits.foldl (fun n b => n * 10 + (b.toNat - 0x30)) 0

/-- The number between the `i`-th `;` and the `j`-th `:` behind it, zero if none is written. -/
def written (run : Bytes) (i j : Nat) : Nat :=
  decimal (piece 0x3a (piece 0x3b run i) j)

/-- The parameter that the next byte belongs to. -/
def currentParameter (run : Bytes) : Bytes :=
  piece 0x3b run (run.count 0x3b)

/-! ## Pieces -/

theorem piece_nil (separator : UInt8) (i : Nat) : piece separator [] i = [] := by
  cases i <;> rfl

theorem piece_cons_self_zero (separator : UInt8) (bytes : Bytes) :
    piece separator (separator :: bytes) 0 = [] := by
  rw [piece, List.splitOn_cons_eq_if_modifyHead, if_pos (beq_self_eq_true separator)]
  rfl

theorem piece_cons_self_succ (separator : UInt8) (bytes : Bytes) (i : Nat) :
    piece separator (separator :: bytes) (i + 1) = piece separator bytes i := by
  rw [piece, List.splitOn_cons_eq_if_modifyHead, if_pos (beq_self_eq_true separator),
    List.getD_cons_succ]
  rfl

theorem piece_cons_zero {separator b : UInt8} (h : b ≠ separator) (bytes : Bytes) :
    piece separator (b :: bytes) 0 = b :: piece separator bytes 0 := by
  rw [piece, piece, List.splitOn_cons_eq_if_modifyHead, if_neg (by simpa using h)]
  cases hs : bytes.splitOn separator with
  | nil => exact absurd hs (List.splitOn_ne_nil separator bytes)
  | cons first others => rfl

theorem piece_cons_succ {separator b : UInt8} (h : b ≠ separator) (bytes : Bytes) (i : Nat) :
    piece separator (b :: bytes) (i + 1) = piece separator bytes (i + 1) := by
  rw [piece, piece, List.splitOn_cons_eq_if_modifyHead, if_neg (by simpa using h)]
  cases hs : bytes.splitOn separator with
  | nil => exact absurd hs (List.splitOn_ne_nil separator bytes)
  | cons first others => rfl

theorem piece_of_count_lt {separator : UInt8} {bytes : Bytes} {i : Nat}
    (h : bytes.count separator < i) : piece separator bytes i = [] := by
  induction bytes generalizing i with
  | nil => exact piece_nil separator i
  | cons b bytes ih =>
      obtain ⟨k, rfl⟩ : ∃ k, i = k + 1 := ⟨i - 1, by omega⟩
      by_cases hb : b = separator
      · rw [hb, List.count_cons_self] at h
        rw [hb, piece_cons_self_succ]
        exact ih (by omega)
      · rw [List.count_cons_of_ne hb] at h
        rw [piece_cons_succ hb]
        exact ih h

/-- One more byte goes to the last piece, unless it is a separator. -/
theorem piece_concat (separator b : UInt8) (bytes : Bytes) (i : Nat) :
    piece separator (bytes ++ [b]) i =
      if b ≠ separator ∧ i = bytes.count separator then piece separator bytes i ++ [b]
      else piece separator bytes i := by
  induction bytes generalizing i with
  | nil =>
      by_cases hb : b = separator
      · rw [if_neg (fun h => h.1 hb), hb]
        cases i with
        | zero => exact piece_cons_self_zero separator []
        | succ i => rw [List.nil_append, piece_cons_self_succ, piece_nil, piece_nil]
      · cases i with
        | zero => rw [if_pos ⟨hb, rfl⟩, List.nil_append, piece_cons_zero hb, piece_nil]; rfl
        | succ i =>
            rw [if_neg (fun h => absurd h.2 (by simp)), List.nil_append, piece_cons_succ hb]
  | cons c bytes ih =>
      by_cases hc : c = separator
      · rw [hc, List.cons_append, List.count_cons_self]
        cases i with
        | zero =>
            rw [if_neg (fun h => absurd h.2 (by omega)), piece_cons_self_zero,
              piece_cons_self_zero]
        | succ i =>
            rw [piece_cons_self_succ, piece_cons_self_succ, ih i]
            simp only [Nat.add_right_cancel_iff]
      · rw [List.cons_append, List.count_cons_of_ne hc]
        cases i with
        | zero =>
            rw [piece_cons_zero hc, piece_cons_zero hc, ih 0]
            split
            · rfl
            · rfl
        | succ i => rw [piece_cons_succ hc, piece_cons_succ hc, ih (i + 1)]

theorem decimal_concat (digits : Bytes) (b : UInt8) :
    decimal (digits ++ [b]) = decimal digits * 10 + (b.toNat - 0x30) := by
  rw [decimal, List.foldl_append]
  rfl

theorem count_concat_of_ne {a b : UInt8} (h : b ≠ a) (bytes : Bytes) :
    (bytes ++ [b]).count a = bytes.count a := by
  rw [List.count_append, List.count_cons_of_ne h, List.count_nil, Nat.add_zero]

theorem count_concat_self (a : UInt8) (bytes : Bytes) :
    (bytes ++ [a]).count a = bytes.count a + 1 := by
  rw [List.count_append, List.count_singleton_self]

theorem currentParameter_concat_self (run : Bytes) : currentParameter (run ++ [0x3b]) = [] := by
  rw [currentParameter, piece_concat, if_neg (fun h => h.1 rfl)]
  apply piece_of_count_lt
  rw [count_concat_self]
  exact Nat.lt_succ_self _

theorem currentParameter_concat {b : UInt8} (h : b ≠ 0x3b) (run : Bytes) :
    currentParameter (run ++ [b]) = currentParameter run ++ [b] := by
  rw [currentParameter, count_concat_of_ne h, piece_concat, if_pos ⟨h, rfl⟩]
  rfl

theorem written_concat_separator {b : UInt8} (h : b = 0x3a ∨ b = 0x3b) (run : Bytes) (i j : Nat) :
    written (run ++ [b]) i j = written run i j := by
  rw [written, piece_concat]
  split
  · rename_i hlast
    rcases h with rfl | rfl
    · rw [piece_concat, if_neg (fun h => h.1 rfl)]
      rfl
    · exact absurd rfl hlast.1
  · rfl

/-- A digit goes to the last value of the last parameter. -/
theorem written_concat_digit {b : UInt8} (hcolon : b ≠ 0x3a) (hsemicolon : b ≠ 0x3b) (run : Bytes)
    (i j : Nat) :
    written (run ++ [b]) i j =
      if i = run.count 0x3b ∧ j = (currentParameter run).count 0x3a then
        written run i j * 10 + (b.toNat - 0x30)
      else written run i j := by
  rw [written, piece_concat]
  by_cases hi : i = run.count 0x3b
  · have hcurrent : piece 0x3b run i = currentParameter run := by rw [hi]; rfl
    rw [if_pos ⟨hsemicolon, hi⟩, hcurrent, piece_concat]
    by_cases hj : j = (currentParameter run).count 0x3a
    · rw [if_pos ⟨hcolon, hj⟩, if_pos ⟨hi, hj⟩, decimal_concat, written, hcurrent]
    · rw [if_neg (fun h => hj h.2), if_neg (fun h => hj h.2), written, hcurrent]
  · rw [if_neg (fun h => hi h.2), if_neg (fun h => hi h.1), written]

/-! ## Acceptable bytes -/

/-- The byte is a private one, a fourth `:` in its parameter, or behind a sixteenth `;`. -/
def Offends (run : Bytes) (b : UInt8) : Prop :=
  isMarker b = true ∨ (b = 0x3a ∧ 3 ≤ (currentParameter run).count 0x3a) ∨ 16 ≤ run.count 0x3b

/-- Parameter bytes none of which offends behind those in front of it and `start`. -/
def AcceptedAfter (start run : Bytes) : Prop :=
  ∀ before b after, run = before ++ b :: after →
    isParameterByte b = true ∧ ¬ Offends (start ++ before) b

def Accepted (run : Bytes) : Prop := AcceptedAfter [] run

theorem acceptedAfter_nil (start : Bytes) : AcceptedAfter start [] := by
  intro before b after h
  cases before <;> cases h

theorem acceptedAfter_cons {start run : Bytes} {b : UInt8} :
    AcceptedAfter start (b :: run) ↔
      (isParameterByte b = true ∧ ¬ Offends start b) ∧ AcceptedAfter (start ++ [b]) run := by
  constructor
  · intro h
    refine ⟨?_, ?_⟩
    · have hb := h [] b run rfl
      rwa [List.append_nil] at hb
    · intro before c after hrun
      have hc := h (b :: before) c after (by rw [hrun]; rfl)
      rwa [List.append_assoc]
  · rintro ⟨hb, hrun⟩ before c after h
    cases before with
    | nil =>
        cases h
        rwa [List.append_nil]
    | cons d before =>
        cases h
        have hc := hrun before c after rfl
        rwa [List.append_assoc] at hc

/-- The parameters read are those of the bytes. -/
structure Parameters.Describes (p : Parameters) (run : Bytes) : Prop where
  index_eq : p.index = run.count 0x3b
  sub_eq : p.sub = (currentParameter run).count 0x3a
  value_eq : ∀ i j, p.value i j = min (written run i j) maxValue

theorem Parameters.describes_empty : Parameters.empty.Describes [] := by
  refine ⟨rfl, rfl, ?_⟩
  intro i j
  rw [written, piece_nil, piece_nil]
  rfl

theorem Parameters.describes_pushDigit {p : Parameters} {run : Bytes} {b : UInt8}
    (h : p.Describes run) (hcolon : b ≠ 0x3a) (hsemicolon : b ≠ 0x3b) :
    (p.pushDigit (b.toNat - 0x30)).Describes (run ++ [b]) := by
  refine ⟨?_, ?_, ?_⟩
  · rw [count_concat_of_ne hsemicolon]
    exact h.index_eq
  · rw [currentParameter_concat hsemicolon, count_concat_of_ne hcolon]
    exact h.sub_eq
  · intro i j
    rw [written_concat_digit hcolon hsemicolon, pushDigit]
    dsimp only
    rw [← h.index_eq, ← h.sub_eq]
    split
    · rename_i hlast
      rw [hlast.1, hlast.2, h.value_eq]
      omega
    · exact h.value_eq i j

/-- What reading one byte does to the parameters. -/
theorem Parameters.push_cases {p q : Parameters} {b : UInt8} (h : p.push? b = some q) :
    (0x30 ≤ b.toNat ∧ b.toNat ≤ 0x39 ∧ q = p.pushDigit (b.toNat - 0x30)) ∨
      (b = 0x3a ∧ q = { p with sub := p.sub + 1 }) ∨
      (b = 0x3b ∧ q = { p with index := p.index + 1, sub := 0 }) := by
  unfold Parameters.push? at h
  split at h
  · cases h
  · split at h
    · rename_i hdigit
      cases h
      exact .inl ⟨hdigit.1, hdigit.2, rfl⟩
    · split at h
      · split at h
        · cases h
          exact .inr (.inl ⟨by assumption, rfl⟩)
        · cases h
      · split at h
        · cases h
          exact .inr (.inr ⟨by assumption, rfl⟩)
        · cases h

theorem Parameters.Describes.push {p q : Parameters} {run : Bytes} {b : UInt8}
    (h : p.Describes run) (hpush : p.push? b = some q) : q.Describes (run ++ [b]) := by
  rcases Parameters.push_cases hpush with ⟨_, hle, rfl⟩ | ⟨rfl, rfl⟩ | ⟨rfl, rfl⟩
  · apply describes_pushDigit h
    · rintro rfl
      exact absurd hle (by decide)
    · rintro rfl
      exact absurd hle (by decide)
  · refine ⟨?_, ?_, ?_⟩
    · rw [count_concat_of_ne (by decide)]
      exact h.index_eq
    · rw [currentParameter_concat (by decide), count_concat_self, ← h.sub_eq]
    · intro i j
      rw [written_concat_separator (.inl rfl)]
      exact h.value_eq i j
  · refine ⟨?_, ?_, ?_⟩
    · rw [count_concat_self, ← h.index_eq]
    · rw [currentParameter_concat_self]
      rfl
    · intro i j
      rw [written_concat_separator (.inr rfl)]
      exact h.value_eq i j

theorem Parameters.Describes.offends_iff {p : Parameters} {run : Bytes} (h : p.Describes run)
    (b : UInt8) :
    Offends run b ↔
      (0x3c ≤ b.toNat ∧ b.toNat ≤ 0x3f) ∨ (b.toNat = 0x3a ∧ 3 ≤ p.sub) ∨ 16 ≤ p.index := by
  have hcolon : b = 0x3a ↔ b.toNat = 0x3a := UInt8.toNat_inj.symm
  rw [Offends, isMarker, decide_eq_true_iff, hcolon, h.index_eq, h.sub_eq]

theorem Parameters.Describes.push_eq_none_iff {p : Parameters} {run : Bytes} {b : UInt8}
    (h : p.Describes run) (hb : isParameterByte b = true) :
    p.push? b = none ↔ Offends run b := by
  have hrange := of_decide_eq_true hb
  have hcolon : b = 0x3a ↔ b.toNat = 0x3a := UInt8.toNat_inj.symm
  have hsemicolon : b = 0x3b ↔ b.toNat = 0x3b := UInt8.toNat_inj.symm
  have hindices : maxParameters = 16 := rfl
  have hsubs : maxSubvalues = 4 := rfl
  rw [h.offends_iff, Parameters.push?]
  by_cases hindex : maxParameters ≤ p.index
  · simp only [if_pos hindex, true_iff]
    omega
  rw [if_neg hindex]
  by_cases hdigit : 0x30 ≤ b.toNat ∧ b.toNat ≤ 0x39
  · simp only [if_pos hdigit, reduceCtorEq, false_iff]
    omega
  rw [if_neg hdigit]
  by_cases hb : b = 0x3a
  · have hnat := hcolon.1 hb
    rw [if_pos hb]
    by_cases hsub : p.sub + 1 < maxSubvalues
    · simp only [if_pos hsub, reduceCtorEq, false_iff]
      omega
    · simp only [if_neg hsub, true_iff]
      omega
  rw [if_neg hb]
  rw [hcolon] at hb
  by_cases hb' : b = 0x3b
  · have hnat := hsemicolon.1 hb'
    simp only [if_pos hb', reduceCtorEq, false_iff]
    omega
  · simp only [if_neg hb', true_iff]
    rw [hsemicolon] at hb'
    omega

theorem isParameterByte_of_push {p q : Parameters} {b : UInt8} (h : p.push? b = some q) :
    isParameterByte b = true := by
  rw [isParameterByte, decide_eq_true_iff]
  rcases Parameters.push_cases h with ⟨hge, hle, _⟩ | ⟨rfl, _⟩ | ⟨rfl, _⟩
  · omega
  · decide
  · decide

/-- Acceptable bytes are all read, into the parameters they describe. -/
theorem Parameters.Describes.foldlM_push {p : Parameters} {start run : Bytes}
    (h : p.Describes start) (hrun : AcceptedAfter start run) :
    ∃ q, run.foldlM Parameters.push? p = some q ∧ q.Describes (start ++ run) := by
  induction run generalizing p start with
  | nil => exact ⟨p, rfl, by rwa [List.append_nil]⟩
  | cons b run ih =>
      obtain ⟨⟨hb, hgood⟩, hrest⟩ := acceptedAfter_cons.1 hrun
      cases hpush : p.push? b with
      | none => exact absurd ((h.push_eq_none_iff hb).1 hpush) hgood
      | some q =>
          obtain ⟨r, hfold, hr⟩ := ih (h.push hpush) hrest
          refine ⟨r, ?_, ?_⟩
          · rw [List.foldlM_cons, hpush]
            exact hfold
          · rwa [List.append_assoc] at hr

/-- Only acceptable bytes are all read. -/
theorem Parameters.Describes.accepted {p q : Parameters} {start run : Bytes}
    (h : p.Describes start) (hfold : run.foldlM Parameters.push? p = some q) :
    AcceptedAfter start run := by
  induction run generalizing p start with
  | nil => exact acceptedAfter_nil start
  | cons b run ih =>
      rw [List.foldlM_cons] at hfold
      cases hpush : p.push? b with
      | none =>
          rw [hpush] at hfold
          cases hfold
      | some r =>
          rw [hpush] at hfold
          have hb := isParameterByte_of_push hpush
          refine acceptedAfter_cons.2 ⟨⟨hb, ?_⟩, ih (h.push hpush) hfold⟩
          intro hbad
          rw [(h.push_eq_none_iff hb).2 hbad] at hpush
          cases hpush

end Keystroke.Decoder.ControlSequence
