import Keystroke.Proofs.ControlSequence.Grammar

/-! # Unfinished control sequences

A body is undecided exactly if it is an optional marker, a well-formed parameter
section and intermediate bytes. Well-formed says of the section as a whole what
the reader checks byte by byte: which bytes it has, how many values a parameter
has, and how many parameters there are.
-/

namespace Keystroke.Decoder.ControlSequence

/-- Digits, `:` and `;`, with at most three `:` in a parameter and nothing behind sixteen `;`. -/
structure WellFormed (run : Bytes) : Prop where
  bytes : ∀ b ∈ run, 0x30 ≤ b.toNat ∧ b.toNat ≤ 0x3b
  values : ∀ parameter ∈ run.splitOn 0x3b, parameter.count 0x3a ≤ 3
  parameters : ∀ before after, run = before ++ after → 16 ≤ before.count 0x3b → after = []

inductive Unfinished : Bytes → Prop
  | intro {marker run inter : Bytes} :
      (marker = [] ∨ ∃ b, isMarker b = true ∧ marker = [b]) → WellFormed run →
      (∀ c ∈ inter, isIntermediate c = true) → Unfinished (marker ++ (run ++ inter))

/-! ## Well-formed sections are acceptable runs -/

theorem piece_mem {separator : UInt8} {bytes : Bytes} {i : Nat}
    (h : i < (bytes.splitOn separator).length) :
    piece separator bytes i ∈ bytes.splitOn separator := by
  rw [piece, List.getD_eq_getElem?_getD, List.getElem?_eq_getElem h]
  exact List.getElem_mem h

theorem exists_piece_of_mem {separator : UInt8} {bytes part : Bytes}
    (h : part ∈ bytes.splitOn separator) : ∃ i, piece separator bytes i = part := by
  obtain ⟨i, hi⟩ := List.getElem?_of_mem h
  exact ⟨i, by rw [piece, List.getD_eq_getElem?_getD, hi]; rfl⟩

theorem piece_start (separator : UInt8) (bytes more : Bytes) (i : Nat) :
    piece separator bytes i <+: piece separator (bytes ++ more) i := by
  induction more generalizing bytes with
  | nil => simp
  | cons b more ih =>
      have hone : piece separator bytes i <+: piece separator (bytes ++ [b]) i := by
        rw [piece_concat]
        split
        · exact List.prefix_append _ _
        · exact List.prefix_refl _
      have hmore := ih (bytes ++ [b])
      rw [List.append_assoc] at hmore
      exact hone.trans hmore

theorem AcceptedAfter.count_piece_le {start run : Bytes} (h : AcceptedAfter start run)
    (hstart : ∀ i, (piece 0x3b start i).count 0x3a ≤ 3) (i : Nat) :
    (piece 0x3b (start ++ run) i).count 0x3a ≤ 3 := by
  induction run generalizing start with
  | nil =>
      rw [List.append_nil]
      exact hstart i
  | cons b run ih =>
      obtain ⟨⟨_, hgood⟩, hrest⟩ := acceptedAfter_cons.1 h
      have hnext : ∀ k, (piece 0x3b (start ++ [b]) k).count 0x3a ≤ 3 := by
        intro k
        rw [piece_concat]
        split
        · rename_i hlast
          by_cases hb : b = 0x3a
          · have hlt : ¬ 3 ≤ (currentParameter start).count 0x3a :=
              fun hle => hgood (.inr (.inl ⟨hb, hle⟩))
            rw [hb, count_concat_self, hlast.2]
            exact Nat.lt_of_not_le hlt
          · rw [count_concat_of_ne hb]
            exact hstart k
        · exact hstart k
      have hrun := ih hrest hnext
      rwa [List.append_assoc] at hrun

theorem Accepted.wellFormed {run : Bytes} (h : Accepted run) : WellFormed run := by
  refine ⟨?_, ?_, ?_⟩
  · intro b hb
    obtain ⟨before, after, hrun⟩ := List.append_of_mem hb
    obtain ⟨hparameter, hgood⟩ := h before b after hrun
    have hmarker : ¬ isMarker b = true := fun hmarker => hgood (.inl hmarker)
    rw [isParameterByte, decide_eq_true_iff] at hparameter
    rw [isMarker, decide_eq_true_iff] at hmarker
    omega
  · intro parameter hmem
    obtain ⟨i, rfl⟩ := exists_piece_of_mem hmem
    apply AcceptedAfter.count_piece_le h
    intro k
    rw [piece_nil]
    exact Nat.zero_le 3
  · intro before after hrun hcount
    cases after with
    | nil => rfl
    | cons b after => exact absurd (.inr (.inr hcount)) (h before b after hrun).2

theorem WellFormed.count_piece_le {run : Bytes} (h : WellFormed run) (i : Nat) :
    (piece 0x3b run i).count 0x3a ≤ 3 := by
  by_cases hi : i < (run.splitOn 0x3b).length
  · exact h.values _ (piece_mem hi)
  · rw [piece, List.getD_eq_getElem?_getD, List.getElem?_eq_none (Nat.le_of_not_lt hi)]
    exact Nat.zero_le 3

theorem WellFormed.accepted {run : Bytes} (h : WellFormed run) : Accepted run := by
  intro before b after hrun
  have hrange := h.bytes b (by rw [hrun]; exact List.mem_append_right before List.mem_cons_self)
  refine ⟨by rw [isParameterByte, decide_eq_true_iff]; omega, ?_⟩
  rw [List.nil_append]
  rintro (hmarker | ⟨hb, hle⟩ | hcount)
  · rw [isMarker, decide_eq_true_iff] at hmarker
    omega
  · -- With the fourth separator, the parameter that it belongs to has too many.
    have hstart := piece_start 0x3b (before ++ [b]) after (before.count 0x3b)
    have hlast :
        piece 0x3b (before ++ [b]) (before.count 0x3b) = currentParameter before ++ [b] := by
      rw [piece_concat, if_pos ⟨by rw [hb]; decide, rfl⟩]
      rfl
    rw [hlast, List.append_assoc, List.singleton_append, ← hrun] at hstart
    have hcount := hstart.sublist.count_le 0x3a
    have hmost := h.count_piece_le (before.count 0x3b)
    rw [hb, count_concat_self] at hcount
    omega
  · have hnil := h.parameters before (b :: after) hrun hcount
    cases hnil

/-! ## Undecided bodies -/

theorem marked_of_forall {marker rest : Bytes}
    (hmarker : marker = [] ∨ ∃ b, isMarker b = true ∧ marker = [b])
    (hrest : ∀ b ∈ rest, isMarker b = false) : Marked marker rest := by
  rcases hmarker with rfl | hmarker
  · refine .inr ⟨rfl, ?_⟩
    intro b after h
    exact hrest b (by rw [h]; exact List.mem_cons_self)
  · exact .inl hmarker

theorem marked_of_wellFormed {marker run inter : Bytes}
    (hmarker : marker = [] ∨ ∃ b, isMarker b = true ∧ marker = [b]) (hrun : WellFormed run)
    (hinter : ∀ c ∈ inter, isIntermediate c = true) : Marked marker (run ++ inter) := by
  apply marked_of_forall hmarker
  intro b hb
  rw [isMarker, decide_eq_false_iff_not]
  rcases List.mem_append.1 hb with hb | hb
  · have hrange := hrun.bytes b hb
    omega
  · have hrange := of_decide_eq_true (hinter b hb)
    omega

theorem decode_eq_incomplete_iff {body : Bytes} : decode body = .incomplete ↔ Unfinished body := by
  constructor
  · intro h
    have hdecodes := decodes_decode body
    rw [h] at hdecodes
    cases hdecodes with
    | cutShort hmarked hrun hinter =>
        refine .intro ?_ hrun.wellFormed hinter
        rcases hmarked with hmarker | ⟨hnil, _⟩
        · exact .inr hmarker
        · exact .inl hnil
  · rintro ⟨hmarker, hrun, hinter⟩
    exact (Decodes.cutShort (marked_of_wellFormed hmarker hrun hinter) hrun.accepted hinter).decode_eq

end Keystroke.Decoder.ControlSequence
