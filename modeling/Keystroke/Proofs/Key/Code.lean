import Keystroke.Key

/-! # Codes of keys

Which key a number names, as a table: every function key has its tag, every
character its code, except that four control codes name function keys. All other
numbers, the surrogates and those past the last tag, name nothing.
-/

namespace Keystroke

/-- A character and a number determine each other. -/
theorem scalar?_eq_some_iff {code : Nat} {c : Char} : scalar? code = some c ↔ c.toNat = code := by
  unfold scalar?
  constructor
  · intro h
    by_cases hvalid : code.isValidChar
    · rw [dif_pos hvalid] at h
      cases h
      rfl
    · rw [dif_neg hvalid] at h
      cases h
  · rintro rfl
    have hvalid : c.toNat.isValidChar := c.valid
    rw [dif_pos hvalid]
    rfl

theorem scalar?_eq_none_iff {code : Nat} :
    scalar? code = none ↔ (0xd800 ≤ code ∧ code ≤ 0xdfff) ∨ 0x110000 ≤ code := by
  have hvalid : code.isValidChar ↔ code < 0xd800 ∨ (0xdfff < code ∧ code < 0x110000) := Iff.rfl
  unfold scalar?
  by_cases h : code.isValidChar
  · rw [dif_pos h]
    refine iff_of_false (Option.some_ne_none _) ?_
    omega
  · rw [dif_neg h]
    refine iff_of_true rfl ?_
    omega

namespace FunctionKey

theorem ofTag?_eq_some_iff {tag : Nat} {key : FunctionKey} :
    ofTag? tag = some key ↔ key.tag = tag := by
  constructor
  · intro h
    unfold ofTag? at h
    split at h
    · rename_i hbase
      obtain ⟨hlt, hkey⟩ := List.getElem?_eq_some_iff.1 h
      obtain ⟨n, rfl⟩ : ∃ n, tag = tagBase + n := ⟨tag - tagBase, by omega⟩
      have hindex : ∀ i : Fin all.length, (all.get i).tag = tagBase + i := by decide
      simp only [Nat.add_sub_cancel_left] at hlt hkey
      rw [← hkey]
      exact hindex ⟨n, hlt⟩
    · cases h
  · rintro rfl
    exact ofTag?_tag key

theorem ofTag?_eq_none_iff {tag : Nat} : ofTag? tag = none ↔ tag < tagBase ∨ invalid.tag < tag := by
  have hlength : all.length = 32 := rfl
  have hlast : invalid.tag = tagBase + 31 := rfl
  unfold ofTag?
  split
  · rw [List.getElem?_eq_none_iff]
    omega
  · simp only [true_iff]
    omega

end FunctionKey

namespace Key

/-- The numbers that name a key, and which. -/
inductive Names : Nat → Key → Prop
  | function (key : FunctionKey) : Names key.tag (.function key)
  | character {c : Char} :
      c.toNat ≠ 9 → c.toNat ≠ 13 → c.toNat ≠ 27 → c.toNat ≠ 127 → Names c.toNat (.codepoint c)
  | tab : Names 9 (.function .tab)
  | enter : Names 13 (.function .enter)
  | escape : Names 27 (.function .escape)
  | backspace : Names 127 (.function .backspace)

/-- The numbers that name nothing: the surrogates, and those past the last tag. -/
def Unnamed (code : Nat) : Prop :=
  (0xd800 ≤ code ∧ code ≤ 0xdfff) ∨ FunctionKey.invalid.tag < code

theorem ofCode_of_names {code : Nat} {key : Key} (h : Names code key) : ofCode code = key := by
  cases h with
  | function key => rw [ofCode, FunctionKey.ofTag?_tag]
  | @character c htab henter hescape hbackspace =>
      have hbase : FunctionKey.tagBase = 0x110000 := rfl
      have hnone : FunctionKey.ofTag? c.toNat = none := by
        have hvalid : c.toNat < 0xd800 ∨ (0xdfff < c.toNat ∧ c.toNat < 0x110000) := c.valid
        exact FunctionKey.ofTag?_eq_none_iff.2 (.inl (by omega))
      rw [ofCode, hnone]
      dsimp only
      rw [if_neg htab, if_neg henter, if_neg hescape, if_neg hbackspace,
        scalar?_eq_some_iff.2 rfl]
  | tab => rfl
  | enter => rfl
  | escape => rfl
  | backspace => rfl

theorem ofCode_of_unnamed {code : Nat} (h : Unnamed code) : ofCode code = .function .invalid := by
  have hbase : FunctionKey.tagBase = 0x110000 := rfl
  have hlast : FunctionKey.invalid.tag = FunctionKey.tagBase + 31 := rfl
  have hnone : FunctionKey.ofTag? code = none := by
    rw [FunctionKey.ofTag?_eq_none_iff]
    rcases h with h | h <;> omega
  have hscalar : scalar? code = none := by
    rw [scalar?_eq_none_iff]
    rcases h with h | h <;> omega
  have hne : ∀ n, n < 0xd800 → code ≠ n := by
    rintro n hn rfl
    rcases h with h | h <;> omega
  rw [ofCode, hnone]
  dsimp only
  rw [if_neg (hne 9 (by decide)), if_neg (hne 13 (by decide)), if_neg (hne 27 (by decide)),
    if_neg (hne 127 (by decide)), hscalar]

/-- Every number is in one of the two tables. -/
theorem names_or_unnamed (code : Nat) : (∃ key, Names code key) ∨ Unnamed code := by
  cases htag : FunctionKey.ofTag? code with
  | some key =>
      rw [← FunctionKey.ofTag?_eq_some_iff.1 htag]
      exact .inl ⟨_, .function key⟩
  | none =>
      cases hscalar : scalar? code with
      | none =>
          have hbase : FunctionKey.tagBase = 0x110000 := rfl
          rw [FunctionKey.ofTag?_eq_none_iff] at htag
          rw [scalar?_eq_none_iff] at hscalar
          refine .inr ?_
          unfold Unnamed
          omega
      | some c =>
          obtain rfl := scalar?_eq_some_iff.1 hscalar
          left
          by_cases htab : c.toNat = 9
          · exact ⟨.function .tab, by rw [htab]; exact .tab⟩
          by_cases henter : c.toNat = 13
          · exact ⟨.function .enter, by rw [henter]; exact .enter⟩
          by_cases hescape : c.toNat = 27
          · exact ⟨.function .escape, by rw [hescape]; exact .escape⟩
          by_cases hbackspace : c.toNat = 127
          · exact ⟨.function .backspace, by rw [hbackspace]; exact .backspace⟩
          exact ⟨_, .character htab henter hescape hbackspace⟩

end Key

end Keystroke
