import Keystroke.Decoder.Scan

/-! # Characters

Which bytes are a key by themselves, and when a character of several bytes is
still undecided: its lead byte is no erase character and announces more
continuation bytes than there are.
-/

namespace Keystroke.Decoder

/-- How many bytes follow a lead byte. -/
def announced (lead : UInt8) : Nat :=
  if lead.toNat ≤ 0xdf then 1 else if lead.toNat ≤ 0xef then 2 else 3

/-- A lead byte that is not the erase character, and fewer continuation bytes than it announces. -/
inductive PartialCharacter (backspace : UInt8) : Bytes → Prop
  | intro {lead : UInt8} {rest : Bytes} :
      0xc0 ≤ lead.toNat → lead.toNat ≤ 0xf7 → lead ≠ backspace →
      (∀ b ∈ rest, 0x80 ≤ b.toNat ∧ b.toNat ≤ 0xbf) → rest.length < announced lead →
      PartialCharacter backspace (lead :: rest)

theorem Utf8.readContinuation_eq_incomplete_iff {least following code used : Nat} {rest : Bytes} :
    Utf8.readContinuation least following code used rest = .incomplete ↔
      rest.length < following ∧ ∀ b ∈ rest, Utf8.isContinuation b = true := by
  induction rest generalizing following code used with
  | nil =>
      cases following with
      | zero => simp [Utf8.readContinuation]
      | succ following => simp [Utf8.readContinuation]
  | cons b rest ih =>
      cases following with
      | zero => simp [Utf8.readContinuation]
      | succ following =>
          rw [Utf8.readContinuation, List.length_cons, Nat.add_lt_add_iff_right,
            List.forall_mem_cons]
          by_cases hb : Utf8.isContinuation b = true
          · rw [if_pos hb, ih]
            simp only [hb, true_and]
          · rw [if_neg hb]
            simp only [hb, reduceCtorEq, false_iff]
            exact fun h => h.2.1

theorem Utf8.lead_eq_some {b : UInt8} (h : 0xc0 ≤ b.toNat ∧ b.toNat ≤ 0xf7) :
    ∃ bits least, Utf8.lead? b = some ⟨announced b, bits, least⟩ := by
  unfold Utf8.lead? announced
  by_cases htwo : b.toNat ≤ 0xdf
  · exact ⟨b.toNat - 0xc0, 0x80, by rw [if_pos ⟨h.1, htwo⟩, if_pos htwo]⟩
  by_cases hthree : b.toNat ≤ 0xef
  · refine ⟨b.toNat - 0xe0, 0x800, ?_⟩
    rw [if_neg (fun hb => htwo hb.2), if_pos ⟨by omega, hthree⟩, if_neg htwo, if_pos hthree]
  · refine ⟨b.toNat - 0xf0, 0x10000, ?_⟩
    rw [if_neg (fun hb => htwo hb.2), if_neg (fun hb => hthree hb.2), if_pos ⟨by omega, h.2⟩,
      if_neg htwo, if_neg hthree]

theorem Utf8.lead_eq_none {b : UInt8} (h : ¬ (0xc0 ≤ b.toNat ∧ b.toNat ≤ 0xf7)) :
    Utf8.lead? b = none := by
  unfold Utf8.lead?
  rw [if_neg (by omega), if_neg (by omega), if_neg (by omega)]

/-- Below DEL every byte is a key by itself. -/
theorem singleByteEvent_of_lt {b : UInt8} (h : b.toNat < 0x7f) (backspace : UInt8) :
    ∃ event, singleByteEvent? backspace b = some event := by
  unfold singleByteEvent?
  simp only [h, if_true]
  repeat' split
  all_goals exact ⟨_, rfl⟩

/-- From DEL on, only the erase character and DEL are. -/
theorem singleByteEvent_of_le {b : UInt8} (h : 0x7f ≤ b.toNat) (backspace : UInt8) :
    singleByteEvent? backspace b =
      if b = backspace then some (.function .backspace)
      else if b = 0x7f then some .invalid
      else none := by
  have hne : ∀ c : UInt8, c.toNat < 0x7f → b ≠ c := by
    rintro c hc rfl
    omega
  unfold singleByteEvent? escByte
  rw [if_neg (hne 0x00 (by decide)), if_neg (hne 0x09 (by decide)), if_neg (hne 0x0d (by decide)),
    if_neg (hne 0x1b (by decide)), if_neg (by omega), if_neg (hne 0x20 (by decide)),
    if_neg (by omega)]

theorem singleByteEvent_eq_none_iff {backspace b : UInt8} :
    singleByteEvent? backspace b = none ↔ 0x80 ≤ b.toNat ∧ b ≠ backspace := by
  by_cases hb : b.toNat < 0x7f
  · obtain ⟨event, hevent⟩ := singleByteEvent_of_lt hb backspace
    rw [hevent]
    simp only [reduceCtorEq, false_iff]
    omega
  have hdel : b = 0x7f ↔ b.toNat = 0x7f := UInt8.toNat_inj.symm
  rw [singleByteEvent_of_le (Nat.le_of_not_lt hb)]
  by_cases hback : b = backspace
  · rw [if_pos hback]
    simp only [reduceCtorEq, false_iff]
    exact fun h => h.2 hback
  rw [if_neg hback]
  by_cases hdel' : b = 0x7f
  · rw [if_pos hdel']
    simp only [reduceCtorEq, false_iff]
    have hnat := hdel.1 hdel'
    omega
  · rw [if_neg hdel']
    rw [hdel] at hdel'
    simp only [true_iff]
    exact ⟨by omega, hback⟩

theorem decodeKey_eq_incomplete_iff {backspace b : UInt8} {rest : Bytes} :
    decodeKey backspace (b :: rest) = .incomplete ↔ PartialCharacter backspace (b :: rest) := by
  constructor
  · intro h
    rw [decodeKey] at h
    cases hsingle : singleByteEvent? backspace b with
    | some event =>
        rw [hsingle] at h
        cases h
    | none =>
        rw [hsingle] at h
        have hne := (singleByteEvent_eq_none_iff.1 hsingle).2
        by_cases hlead : 0xc0 ≤ b.toNat ∧ b.toNat ≤ 0xf7
        · obtain ⟨bits, least, hb⟩ := Utf8.lead_eq_some hlead
          dsimp only at h
          rw [Utf8.decode, hb] at h
          obtain ⟨hlen, hrest⟩ := Utf8.readContinuation_eq_incomplete_iff.1 h
          exact .intro hlead.1 hlead.2 hne (fun c hc => of_decide_eq_true (hrest c hc)) hlen
        · dsimp only at h
          rw [Utf8.decode, Utf8.lead_eq_none hlead] at h
          cases h
  · rintro ⟨hge, hle, hne, hrest, hlen⟩
    obtain ⟨bits, least, hb⟩ := Utf8.lead_eq_some ⟨hge, hle⟩
    rw [decodeKey, singleByteEvent_eq_none_iff.2 ⟨by omega, hne⟩]
    dsimp only
    rw [Utf8.decode, hb]
    exact Utf8.readContinuation_eq_incomplete_iff.2
      ⟨hlen, fun c hc => decide_eq_true (hrest c hc)⟩

theorem PartialCharacter.lead_ne {backspace b : UInt8} {rest : Bytes}
    (h : PartialCharacter backspace (b :: rest)) {c : UInt8} (hc : c.toNat < 0xc0) : b ≠ c := by
  cases h with
  | intro hge =>
      rintro rfl
      omega

end Keystroke.Decoder
