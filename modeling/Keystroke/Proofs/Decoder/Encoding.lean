import Mathlib.Data.List.Basic
import Keystroke.Proofs.Decoder.Character
import Keystroke.Proofs.Key.Code

/-! # Characters and their encoding

The reader of continuation bytes against the encoding of characters. A lead byte
with as many continuation bytes as it announces spells a code; it decodes to a
character if and only if it is the encoding of that character, and to an invalid
key otherwise. A byte that breaks the sequence off makes it invalid as well.
-/

namespace Keystroke.Decoder.Utf8

open String (utf8EncodeChar)

theorem scalarEvent_character {least : Nat} {c : Char} (h : least ≤ c.toNat) :
    scalarEvent least c.toNat = .character c := by
  rw [scalarEvent, if_neg (Nat.not_lt.2 h), scalar?_eq_some_iff.2 rfl]

/-- A code is invalid where it is written too long or is no character's. -/
theorem scalarEvent_cases (least code : Nat) :
    scalarEvent least code = .invalid ∨
      ∃ c : Char, c.toNat = code ∧ least ≤ code ∧ scalarEvent least code = .character c := by
  by_cases hlt : code < least
  · exact .inl (by rw [scalarEvent, if_pos hlt])
  · cases hscalar : scalar? code with
    | none => exact .inl (by rw [scalarEvent, if_neg hlt, hscalar])
    | some c =>
        obtain rfl := scalar?_eq_some_iff.1 hscalar
        exact .inr ⟨c, rfl, Nat.le_of_not_lt hlt, scalarEvent_character (Nat.le_of_not_lt hlt)⟩

/-- The code with the bits of continuation bytes behind it. -/
def extend (code : Nat) (rest : Bytes) : Nat :=
  rest.foldl (fun code b => code * 64 + (b.toNat - 0x80)) code

theorem extend_cons (code : Nat) (b : UInt8) (rest : Bytes) :
    extend code (b :: rest) = extend (code * 64 + (b.toNat - 0x80)) rest := by
  rw [extend, extend, List.foldl_cons]

theorem readContinuation_of_all {least code used : Nat} {rest : Bytes}
    (h : ∀ b ∈ rest, isContinuation b = true) :
    readContinuation least rest.length code used rest =
      .key (scalarEvent least (extend code rest)) (used + rest.length) := by
  induction rest generalizing code used with
  | nil => rfl
  | cons b rest ih =>
      rw [List.length_cons, readContinuation, if_pos (h b List.mem_cons_self),
        ih (fun c hc => h c (List.mem_cons_of_mem b hc)), extend_cons, Nat.add_right_comm,
        Nat.add_assoc]

theorem readContinuation_of_broken {least following code used : Nat} {rest after : Bytes}
    {b : UInt8}
    (hrest : ∀ c ∈ rest, isContinuation c = true) (hlt : rest.length < following)
    (hb : isContinuation b = false) :
    readContinuation least following code used (rest ++ b :: after) =
      .key .invalid (used + rest.length + 1) := by
  induction rest generalizing following code used with
  | nil =>
      obtain ⟨n, rfl⟩ : ∃ n, following = n + 1 :=
        ⟨following - 1, by rw [List.length_nil] at hlt; omega⟩
      rw [List.nil_append, readContinuation, if_neg (by rw [hb]; decide)]
      rfl
  | cons c rest ih =>
      rw [List.length_cons] at hlt
      obtain ⟨n, rfl⟩ : ∃ n, following = n + 1 := ⟨following - 1, by omega⟩
      rw [List.cons_append, readContinuation, if_pos (hrest c List.mem_cons_self),
        ih (fun d hd => hrest d (List.mem_cons_of_mem c hd)) (by omega), List.length_cons,
        Nat.add_right_comm used, Nat.add_assoc used]

/-- A lead byte and exactly the continuation bytes that it announces. -/
structure Spelled (b : UInt8) (rest : Bytes) (lead : Lead) : Prop where
  lead_eq : lead? b = some lead
  all : ∀ c ∈ rest, isContinuation c = true
  length_eq : rest.length = lead.following

theorem Spelled.decode_eq {b : UInt8} {rest : Bytes} {lead : Lead} (h : Spelled b rest lead) :
    decode b rest = .key (scalarEvent lead.least (extend lead.bits rest)) (rest.length + 1) := by
  rw [decode, h.lead_eq]
  dsimp only
  rw [← h.length_eq, readContinuation_of_all h.all, Nat.add_comm]

/-- The three kinds of lead byte. -/
theorem lead_cases {b : UInt8} {lead : Lead} (h : lead? b = some lead) :
    (0xc0 ≤ b.toNat ∧ b.toNat ≤ 0xdf ∧ lead = ⟨1, b.toNat - 0xc0, 0x80⟩) ∨
      (0xe0 ≤ b.toNat ∧ b.toNat ≤ 0xef ∧ lead = ⟨2, b.toNat - 0xe0, 0x800⟩) ∨
      (0xf0 ≤ b.toNat ∧ b.toNat ≤ 0xf7 ∧ lead = ⟨3, b.toNat - 0xf0, 0x10000⟩) := by
  unfold lead? at h
  split at h
  · rename_i hb
    cases h
    exact .inl ⟨hb.1, hb.2, rfl⟩
  · split at h
    · rename_i hb
      cases h
      exact .inr (.inl ⟨hb.1, hb.2, rfl⟩)
    · split at h
      · rename_i hb
        cases h
        exact .inr (.inr ⟨hb.1, hb.2, rfl⟩)
      · cases h

theorem eq_ofNat {b : UInt8} {n : Nat} (h : b.toNat = n) : UInt8.ofNat n = b := by
  rw [← h, UInt8.ofNat_toNat]

/-- What is spelled in no more bytes than needed is the encoding of its character. -/
theorem Spelled.encode_eq {b : UInt8} {rest : Bytes} {lead : Lead} (h : Spelled b rest lead)
    {c : Char} (hc : c.toNat = extend lead.bits rest) (hle : lead.least ≤ c.toNat) :
    utf8EncodeChar c = b :: rest := by
  have hvalue : c.val.toNat = c.toNat := rfl
  have hall : ∀ d ∈ rest, 0x80 ≤ d.toNat ∧ d.toNat ≤ 0xbf :=
    fun d hd => of_decide_eq_true (h.all d hd)
  have hlen := h.length_eq
  rcases lead_cases h.lead_eq with ⟨hge, hmost, rfl⟩ | ⟨hge, hmost, rfl⟩ | ⟨hge, hmost, rfl⟩
  · obtain ⟨b₁, rfl⟩ := List.length_eq_one_iff.1 hlen
    have h₁ := hall b₁ (by simp)
    simp only [extend, List.foldl_cons, List.foldl_nil] at hc
    simp only [utf8EncodeChar, hvalue]
    dsimp only at hle
    rw [if_neg (by omega), if_pos (by omega), eq_ofNat (b := b) (by omega),
      eq_ofNat (b := b₁) (by omega)]
  · obtain ⟨b₁, b₂, rfl⟩ := List.length_eq_two.1 hlen
    have h₁ := hall b₁ (by simp)
    have h₂ := hall b₂ (by simp)
    simp only [extend, List.foldl_cons, List.foldl_nil] at hc
    simp only [utf8EncodeChar, hvalue]
    dsimp only at hle
    rw [if_neg (by omega), if_neg (by omega), if_pos (by omega), eq_ofNat (b := b) (by omega),
      eq_ofNat (b := b₁) (by omega), eq_ofNat (b := b₂) (by omega)]
  · obtain ⟨b₁, b₂, b₃, rfl⟩ := List.length_eq_three.1 hlen
    have h₁ := hall b₁ (by simp)
    have h₂ := hall b₂ (by simp)
    have h₃ := hall b₃ (by simp)
    simp only [extend, List.foldl_cons, List.foldl_nil] at hc
    simp only [utf8EncodeChar, hvalue]
    dsimp only at hle
    rw [if_neg (by omega), if_neg (by omega), if_neg (by omega), eq_ofNat (b := b) (by omega),
      eq_ofNat (b := b₁) (by omega), eq_ofNat (b := b₂) (by omega), eq_ofNat (b := b₃) (by omega)]

theorem encode_of_lt {c : Char} (h : c.toNat < 0x80) :
    utf8EncodeChar c = [UInt8.ofNat c.toNat] := by
  have hvalue : c.val.toNat = c.toNat := rfl
  simp only [utf8EncodeChar, hvalue]
  rw [if_pos (by omega)]

theorem toNat_ofNat {n : Nat} (h : n < 256) : (UInt8.ofNat n).toNat = n := by
  rw [UInt8.toNat_ofNat']
  exact Nat.mod_eq_of_lt h

/-- The continuation byte for the low six bits. -/
theorem isContinuation_ofNat (n : Nat) : isContinuation (UInt8.ofNat (n % 64 + 0x80)) = true := by
  rw [isContinuation, toNat_ofNat (by omega), decide_eq_true_iff]
  omega

theorem extend_ofNat (code n : Nat) (rest : Bytes) :
    extend code (UInt8.ofNat (n % 64 + 0x80) :: rest) = extend (code * 64 + n % 64) rest := by
  rw [extend_cons, toNat_ofNat (by omega), Nat.add_sub_cancel]

/-- The encoding of a character from `0x80` on spells it in no more bytes than needed. -/
theorem exists_spelled {c : Char} (h : 0x80 ≤ c.toNat) :
    ∃ b rest lead, utf8EncodeChar c = b :: rest ∧ Spelled b rest lead ∧
      lead.least ≤ c.toNat ∧ extend lead.bits rest = c.toNat := by
  have hvalue : c.val.toNat = c.toNat := rfl
  have hvalid : c.toNat < 0xd800 ∨ (0xdfff < c.toNat ∧ c.toNat < 0x110000) := c.valid
  have hnil : ∀ code, extend code [] = code := fun code => rfl
  simp only [utf8EncodeChar, hvalue]
  generalize c.toNat = n at h hvalid
  rw [if_neg (by omega)]
  by_cases htwo : n ≤ 0x7ff
  · refine ⟨_, _, ⟨1, n / 64 % 32, 0x80⟩, if_pos htwo, ⟨?_, ?_, rfl⟩, h, ?_⟩
    · rw [lead?, toNat_ofNat (by omega), if_pos (by omega), Nat.add_sub_cancel]
    · simp only [List.forall_mem_cons, isContinuation_ofNat, true_and]
      simp
    · dsimp only
      rw [extend_ofNat, hnil]
      omega
  rw [if_neg htwo]
  by_cases hthree : n ≤ 0xffff
  · refine ⟨_, _, ⟨2, n / 4096 % 16, 0x800⟩, if_pos hthree, ⟨?_, ?_, rfl⟩, ?_, ?_⟩
    · rw [lead?, toNat_ofNat (by omega), if_neg (by omega), if_pos (by omega),
        Nat.add_sub_cancel]
    · simp only [List.forall_mem_cons, isContinuation_ofNat, true_and]
      simp
    · dsimp only
      omega
    · dsimp only
      rw [extend_ofNat, extend_ofNat, hnil]
      omega
  · refine ⟨_, _, ⟨3, n / 262144 % 8, 0x10000⟩, if_neg hthree, ⟨?_, ?_, rfl⟩, ?_, ?_⟩
    · rw [lead?, toNat_ofNat (by omega), if_neg (by omega), if_neg (by omega), if_pos (by omega),
        Nat.add_sub_cancel]
    · simp only [List.forall_mem_cons, isContinuation_ofNat, true_and]
      simp
    · dsimp only
      omega
    · dsimp only
      rw [extend_ofNat, extend_ofNat, extend_ofNat, hnil]
      omega

end Keystroke.Decoder.Utf8
