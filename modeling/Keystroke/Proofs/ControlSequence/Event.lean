import Keystroke.Decoder.ControlSequence
import Keystroke.Proofs.Key.Code

/-! # Events of control sequences

The event of a control sequence looks at three values only: the code, the code
of the shifted key, and the modifier word. What it reports for each final byte is
a table: the key, and the mask of its modifiers, which is the low four bits of one
less than the modifier word wherever the final byte reports any.
-/

namespace Keystroke

theorem KeyEvent.press_key (key : Key) (modifiers : Modifiers) :
    (press key modifiers).key = key := by
  unfold press
  split
  · rename_i h
    exact h.symm
  · rfl

theorem KeyEvent.press_modifiers {key : Key} (h : key ≠ .function .invalid)
    (modifiers : Modifiers) : (press key modifiers).modifiers = modifiers := by
  rw [press, dif_neg h]

theorem KeyEvent.press_invalid (modifiers : Modifiers) :
    press (.function .invalid) modifiers = invalid := by
  rw [press, dif_pos rfl]

theorem Modifiers.mask_ofMask (n : Nat) : (ofMask n).mask = n % 16 := by
  simp only [ofMask, mask, Nat.toNat_testBit]
  omega

theorem Modifiers.shift_iff_mask (m : Modifiers) : m.shift = true ↔ m.mask % 2 = 1 := by
  rcases m with ⟨_ | _, _ | _, _ | _, _ | _⟩ <;> decide

theorem Modifiers.mask_withoutShift {m : Modifiers} (h : m.shift = true) :
    ({ m with shift := false } : Modifiers).mask = m.mask - 1 := by
  rcases m with ⟨_ | _, alt, ctrl, super⟩
  · cases h
  · simp only [mask, Bool.toNat_true, Bool.toNat_false]
    omega

namespace Decoder.ControlSequence

theorem eq_ofNat_of_ofUInt8_eq {b : UInt8} {c : Char} (h : Char.ofUInt8 b = c) :
    b = UInt8.ofNat c.toNat := by
  have hnat : b.toNat = c.toNat := by
    rw [← h]
    rfl
  rw [← hnat, UInt8.ofNat_toNat]

/-- Only the code, the shifted code and the modifier word are looked at. -/
theorem event_congr {p q : Parameters} (hcode : p.value 0 0 = q.value 0 0)
    (hshifted : p.value 0 1 = q.value 0 1) (hword : p.value 1 0 = q.value 1 0) (b : UInt8) :
    event b p = event b q := by
  simp only [event, Parameters.modifiers, hcode, hshifted, hword]

/-! ## The tables -/

/-- The keys with a final byte of their own: A, B, C, D, F, H, P, Q, R and S. -/
def cursorKeys : List (UInt8 × FunctionKey) :=
  [(0x41, .up), (0x42, .down), (0x43, .right), (0x44, .left), (0x46, .endKey), (0x48, .home),
    (0x50, .f1), (0x51, .f2), (0x52, .f3), (0x53, .f4)]

/-- The keys that a number in front of `~` stands for. -/
def keypadKeys : List (Nat × FunctionKey) :=
  [(1, .home), (2, .insert), (3, .delete), (4, .endKey), (5, .pageUp), (6, .pageDown),
    (15, .f5), (17, .f6), (18, .f7), (19, .f8), (20, .f9), (21, .f10), (23, .f11), (24, .f12)]

/-- The number that names the key of an extended report, and the mask that is left: where a
shifted key is written and Shift is held, the shifted key stands for both. -/
inductive Used (code shifted mask : Nat) : Nat → Nat → Prop
  | base : shifted = 0 ∨ mask % 2 = 0 → Used code shifted mask code mask
  | shifted : shifted ≠ 0 → mask % 2 = 1 → Used code shifted mask shifted (mask - 1)

/-- The low four bits of one less than the modifier word. -/
def reportedMask (word : Nat) : Nat := (word - 1) % 16

/-- The key and the mask that a final byte reports, by the code, the shifted code and the modifier
word. Discarded input has no modifiers; it is what a number in no table and any other final byte
report. -/
inductive Reports (code shifted word : Nat) : UInt8 → Key → Nat → Prop
  | cursor {b : UInt8} {key : FunctionKey} : (b, key) ∈ cursorKeys →
      Reports code shifted word b (.function key) (reportedMask word)
  | focusIn : Reports code shifted word 0x49 (.function .focusIn) 0
  | focusOut : Reports code shifted word 0x4f (.function .focusOut) 0
  | pasteStart : code = 200 → Reports code shifted word 0x7e (.function .pasteStart) 0
  | pasteEnd : code = 201 → Reports code shifted word 0x7e (.function .pasteEnd) 0
  | keypad {key : FunctionKey} : (code, key) ∈ keypadKeys →
      Reports code shifted word 0x7e (.function key) (reportedMask word)
  | otherNumber : code ≠ 200 → code ≠ 201 → (∀ key, (code, key) ∉ keypadKeys) →
      Reports code shifted word 0x7e (.function .invalid) 0
  | extended {used mask : Nat} {key : Key} : Used code shifted (reportedMask word) used mask →
      Key.Names used key → key ≠ .function .invalid → Reports code shifted word 0x75 key mask
  | nameless {used mask : Nat} : Used code shifted (reportedMask word) used mask →
      used = FunctionKey.invalid.tag ∨ Key.Unnamed used →
      Reports code shifted word 0x75 (.function .invalid) 0
  | otherFinal {b : UInt8} : (∀ key, (b, key) ∉ cursorKeys) →
      b ≠ 0x49 → b ≠ 0x4f → b ≠ 0x75 → b ≠ 0x7e →
      Reports code shifted word b (.function .invalid) 0

/-! ## Reading the tables -/

theorem cursorKey_eq_some_iff {b : UInt8} {key : FunctionKey} :
    cursorKey? b = some key ↔ (b, key) ∈ cursorKeys := by
  constructor
  · intro h
    unfold cursorKey? at h
    split at h
    case h_11 => cases h
    all_goals
      rename_i hchar
      cases h
      rw [eq_ofNat_of_ofUInt8_eq hchar]
      decide
  · intro h
    simp only [cursorKeys, List.mem_cons, List.not_mem_nil, or_false, Prod.mk.injEq] at h
    rcases h with h | h | h | h | h | h | h | h | h | h <;> obtain ⟨rfl, rfl⟩ := h <;> rfl

theorem keypadKey_eq_some_iff {n : Nat} {key : FunctionKey} :
    keypadKey? n = some key ↔ (n, key) ∈ keypadKeys := by
  constructor
  · intro h
    unfold keypadKey? at h
    split at h <;> cases h <;> decide
  · intro h
    simp only [keypadKeys, List.mem_cons, List.not_mem_nil, or_false, Prod.mk.injEq] at h
    rcases h with h | h | h | h | h | h | h | h | h | h | h | h | h | h <;>
      obtain ⟨rfl, rfl⟩ := h <;> rfl

theorem invalid_notMem_cursorKeys (b : UInt8) : (b, FunctionKey.invalid) ∉ cursorKeys := by
  simp [cursorKeys]

theorem invalid_notMem_keypadKeys (n : Nat) : (n, FunctionKey.invalid) ∉ keypadKeys := by
  simp [keypadKeys]

/-- Only extended reports name characters. -/
theorem Reports.final_of_codepoint {code shifted word n : Nat} {b : UInt8} {c : Char}
    (h : Reports code shifted word b (.codepoint c) n) : b = 0x75 := by
  cases h with
  | extended => rfl

/-! ## The event and the tables -/

theorem event_extended (p : Parameters) :
    event 0x75 p = extendedEvent (p.value 0 0) (p.value 0 1) p.modifiers := rfl

theorem event_keypad (p : Parameters) :
    event 0x7e p = keypadEvent (p.value 0 0) p.modifiers := rfl

theorem Parameters.mask_modifiers (p : Parameters) :
    p.modifiers.mask = reportedMask (p.value 1 0) :=
  Modifiers.mask_ofMask (p.value 1 0 - 1)

theorem press_of_ne_invalid {key : Key} (h : key ≠ .function .invalid) (modifiers : Modifiers) :
    (KeyEvent.press key modifiers).key = key ∧
      (KeyEvent.press key modifiers).modifiers.mask = modifiers.mask :=
  ⟨KeyEvent.press_key key modifiers, by rw [KeyEvent.press_modifiers h]⟩

theorem keypadEvent_of_mem {n : Nat} {key : FunctionKey} (h : (n, key) ∈ keypadKeys)
    (modifiers : Modifiers) : keypadEvent n modifiers = .press (.function key) modifiers := by
  have hstart : n ≠ 200 := by
    rintro rfl
    simp [keypadKeys] at h
  have hend : n ≠ 201 := by
    rintro rfl
    simp [keypadKeys] at h
  rw [keypadEvent, if_neg hstart, if_neg hend, keypadKey_eq_some_iff.2 h]

theorem keypadEvent_of_notMem {n : Nat} (hstart : n ≠ 200) (hend : n ≠ 201)
    (h : ∀ key, (n, key) ∉ keypadKeys) (modifiers : Modifiers) :
    keypadEvent n modifiers = .invalid := by
  have hnone : keypadKey? n = none :=
    Option.eq_none_iff_forall_ne_some.2 fun key hkey => h key (keypadKey_eq_some_iff.1 hkey)
  rw [keypadEvent, if_neg hstart, if_neg hend, hnone]

theorem event_of_otherFinal {b : UInt8} (h : ∀ key, (b, key) ∉ cursorKeys) (hin : b ≠ 0x49)
    (hout : b ≠ 0x4f) (hextended : b ≠ 0x75) (hkeypad : b ≠ 0x7e) (p : Parameters) :
    event b p = .invalid := by
  have hnone : cursorKey? b = none :=
    Option.eq_none_iff_forall_ne_some.2 fun key hkey => h key (cursorKey_eq_some_iff.1 hkey)
  rw [event, hnone]
  dsimp only
  split
  · rename_i hchar
    exact absurd (eq_ofNat_of_ofUInt8_eq hchar) hin
  · rename_i hchar
    exact absurd (eq_ofNat_of_ofUInt8_eq hchar) hout
  · rename_i hchar
    exact absurd (eq_ofNat_of_ofUInt8_eq hchar) hextended
  · rename_i hchar
    exact absurd (eq_ofNat_of_ofUInt8_eq hchar) hkeypad
  · rfl

theorem Used.extendedEvent_eq {code shifted used mask : Nat} {m : Modifiers}
    (h : Used code shifted m.mask used mask) :
    ∃ left : Modifiers, left.mask = mask ∧
      extendedEvent code shifted m = .press (.ofCode used) left := by
  cases h with
  | base hbase =>
      refine ⟨m, rfl, ?_⟩
      rw [extendedEvent, if_neg]
      rintro ⟨hshifted, hshift⟩
      have hodd := m.shift_iff_mask.1 hshift
      omega
  | shifted hshifted hodd =>
      have hshift := m.shift_iff_mask.2 hodd
      exact ⟨{ m with shift := false }, Modifiers.mask_withoutShift hshift,
        by rw [extendedEvent, if_pos ⟨hshifted, hshift⟩]⟩

theorem exists_used (code shifted mask : Nat) : ∃ used left, Used code shifted mask used left := by
  by_cases hbase : shifted = 0 ∨ mask % 2 = 0
  · exact ⟨code, mask, .base hbase⟩
  · exact ⟨shifted, mask - 1, .shifted (by omega) (by omega)⟩

theorem ofCode_of_nameless {used : Nat} (h : used = FunctionKey.invalid.tag ∨ Key.Unnamed used) :
    Key.ofCode used = .function .invalid := by
  rcases h with rfl | h
  · exact Key.ofCode_of_names (.function .invalid)
  · exact Key.ofCode_of_unnamed h

theorem Reports.event_eq {p : Parameters} {b : UInt8} {key : Key} {n : Nat}
    (h : Reports (p.value 0 0) (p.value 0 1) (p.value 1 0) b key n) :
    (event b p).key = key ∧ (event b p).modifiers.mask = n := by
  cases h with
  | @cursor _ key hmem =>
      have hne : Key.function key ≠ .function .invalid := by
        rintro ⟨⟩
        exact invalid_notMem_cursorKeys b hmem
      rw [← p.mask_modifiers, event, cursorKey_eq_some_iff.2 hmem]
      exact press_of_ne_invalid hne p.modifiers
  | focusIn => exact ⟨rfl, rfl⟩
  | focusOut => exact ⟨rfl, rfl⟩
  | pasteStart hcode =>
      rw [event_keypad, hcode]
      exact ⟨rfl, rfl⟩
  | pasteEnd hcode =>
      rw [event_keypad, hcode]
      exact ⟨rfl, rfl⟩
  | @keypad key hmem =>
      have hne : Key.function key ≠ .function .invalid := by
        rintro ⟨⟩
        exact invalid_notMem_keypadKeys _ hmem
      rw [← p.mask_modifiers, event_keypad, keypadEvent_of_mem hmem]
      exact press_of_ne_invalid hne p.modifiers
  | otherNumber hstart hend hmem =>
      rw [event_keypad, keypadEvent_of_notMem hstart hend hmem]
      exact ⟨rfl, rfl⟩
  | extended hused hnames hne =>
      rw [← p.mask_modifiers] at hused
      obtain ⟨left, rfl, hevent⟩ := hused.extendedEvent_eq
      rw [event_extended, hevent, Key.ofCode_of_names hnames]
      exact press_of_ne_invalid hne left
  | nameless hused hnone =>
      rw [← p.mask_modifiers] at hused
      obtain ⟨left, _, hevent⟩ := hused.extendedEvent_eq
      rw [event_extended, hevent, ofCode_of_nameless hnone, KeyEvent.press_invalid]
      exact ⟨rfl, rfl⟩
  | otherFinal hmem hin hout hextended hkeypad =>
      rw [event_of_otherFinal hmem hin hout hextended hkeypad]
      exact ⟨rfl, rfl⟩

/-- The tables leave no final byte and no values out. -/
theorem exists_reports (code shifted word : Nat) (b : UInt8) :
    ∃ key n, Reports code shifted word b key n := by
  by_cases hcursor : ∃ key, (b, key) ∈ cursorKeys
  · obtain ⟨key, hmem⟩ := hcursor
    exact ⟨_, _, .cursor hmem⟩
  by_cases hin : b = 0x49
  · rw [hin]
    exact ⟨_, _, .focusIn⟩
  by_cases hout : b = 0x4f
  · rw [hout]
    exact ⟨_, _, .focusOut⟩
  by_cases hextended : b = 0x75
  · obtain ⟨used, left, hused⟩ := exists_used code shifted (reportedMask word)
    rw [hextended]
    rcases Key.names_or_unnamed used with ⟨key, hnames⟩ | hunnamed
    · by_cases hkey : key = .function .invalid
      · rw [hkey] at hnames
        cases hnames
        exact ⟨_, _, .nameless hused (.inl rfl)⟩
      · exact ⟨_, _, .extended hused hnames hkey⟩
    · exact ⟨_, _, .nameless hused (.inr hunnamed)⟩
  by_cases hkeypad : b = 0x7e
  · rw [hkeypad]
    by_cases hstart : code = 200
    · exact ⟨_, _, .pasteStart hstart⟩
    by_cases hend : code = 201
    · exact ⟨_, _, .pasteEnd hend⟩
    by_cases hnumber : ∃ key, (code, key) ∈ keypadKeys
    · obtain ⟨key, hmem⟩ := hnumber
      exact ⟨_, _, .keypad hmem⟩
    · exact ⟨_, _, .otherNumber hstart hend (not_exists.1 hnumber)⟩
  · exact ⟨_, _, .otherFinal (not_exists.1 hcursor) hin hout hextended hkeypad⟩

/-- An event is what the tables say of its final byte and the three values. -/
theorem event_iff_reports {p : Parameters} {b : UInt8} {key : Key} {n : Nat} :
    (event b p).key = key ∧ (event b p).modifiers.mask = n ↔
      Reports (p.value 0 0) (p.value 0 1) (p.value 1 0) b key n := by
  constructor
  · rintro ⟨rfl, rfl⟩
    obtain ⟨key, n, h⟩ := exists_reports (p.value 0 0) (p.value 0 1) (p.value 1 0) b
    rw [h.event_eq.1, h.event_eq.2]
    exact h
  · intro h
    exact h.event_eq

end Decoder.ControlSequence

end Keystroke
