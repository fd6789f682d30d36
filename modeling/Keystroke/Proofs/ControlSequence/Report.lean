import Keystroke.Proofs.ControlSequence.Unfinished
import Keystroke.Proofs.Decoder.Chunking
import Keystroke.Proofs.Decoder.Factorisation
import Keystroke.Proofs.Key.Code
import Mathlib.Algebra.Group.Nat.Defs

/-! # Extended reports

An extended report writes the number of a key and a modifier word in decimal. It
may name a shifted key, and it may carry zeros in front of its numbers, a private
marker, surplus bits in the modifier word, further values and parameters, and
intermediate bytes. Whatever it carries, it is one complete sequence and decodes
to the key that its number names; reports in a row decode one by one.
-/

namespace Keystroke

theorem Modifiers.ofMask_mask_add (m : Modifiers) (n : Nat) : ofMask (m.mask + 16 * n) = m := by
  have hlow : ∀ k, ofMask (k % 2 ^ 4) = ofMask k := by
    intro k
    simp only [ofMask, Nat.testBit_mod_two_pow]
    rfl
  have hmask : m.mask < 16 := by
    rcases m with ⟨_ | _, _ | _, _ | _, _ | _⟩ <;> decide
  rw [← hlow, show (m.mask + 16 * n) % 2 ^ 4 = m.mask by omega, ofMask_mask]

namespace Decoder.ControlSequence

/-! ## Numbers in decimal -/

/-- A number in decimal with zeros in front of it. -/
def numeral (zeros n : Nat) : Bytes :=
  (List.replicate zeros '0' ++ Nat.toDigits 10 n).map Char.toUInt8

theorem isDigit_of_mem_digits {zeros n : Nat} :
    ∀ c ∈ List.replicate zeros '0' ++ Nat.toDigits 10 n, c.isDigit = true := by
  intro c hc
  rcases List.mem_append.1 hc with hzero | hdigit
  · rw [List.eq_of_mem_replicate hzero]
    rfl
  · exact Nat.isDigit_of_mem_toDigits (by decide) (by decide) hdigit

theorem toNat_toUInt8_of_isDigit {c : Char} (h : c.isDigit = true) :
    c.toUInt8.toNat = c.toNat := by
  have hle := (Char.isDigit_iff_toNat.1 h).2
  have hnine : '9'.toNat = 57 := rfl
  rw [Char.toUInt8, UInt32.toNat_toUInt8]
  exact Nat.mod_eq_of_lt (by change c.toNat < 256; omega)

theorem isDigit_of_mem_numeral {zeros n : Nat} {b : UInt8} (h : b ∈ numeral zeros n) :
    0x30 ≤ b.toNat ∧ b.toNat ≤ 0x39 := by
  obtain ⟨c, hc, rfl⟩ := List.mem_map.1 h
  have hdigit := isDigit_of_mem_digits c hc
  rw [toNat_toUInt8_of_isDigit hdigit]
  exact Char.isDigit_iff_toNat.1 hdigit

theorem not_mem_numeral {b : UInt8} (h : 0x39 < b.toNat) (zeros n : Nat) : b ∉ numeral zeros n := by
  intro hb
  have hdigit := isDigit_of_mem_numeral hb
  omega

theorem decimal_map {digits : List Char} (h : ∀ c ∈ digits, c.isDigit = true) :
    decimal (digits.map Char.toUInt8) = Nat.ofDigitChars 10 digits 0 := by
  rw [decimal]
  generalize 0 = n
  induction digits generalizing n with
  | nil => rfl
  | cons c digits ih =>
      have hc := toNat_toUInt8_of_isDigit (h c List.mem_cons_self)
      rw [List.map_cons, List.foldl_cons, hc, Nat.mul_comm, Nat.ofDigitChars_cons]
      exact ih (fun d hd => h d (List.mem_cons_of_mem c hd)) _

/-- Zeros in front of a number change nothing. -/
theorem decimal_numeral (zeros n : Nat) : decimal (numeral zeros n) = n := by
  rw [numeral, decimal_map isDigit_of_mem_digits, Nat.ofDigitChars_append,
    Nat.ofDigitChars_replicate_zero, Nat.mul_zero, Nat.ofDigitChars_ten_toDigits]

/-! ## Pieces of what is written -/

theorem piece_append_zero {separator : UInt8} {front : Bytes} (h : separator ∉ front)
    (rest : Bytes) : piece separator (front ++ rest) 0 = front ++ piece separator rest 0 := by
  induction front with
  | nil => rfl
  | cons b front ih =>
      have hb : b ≠ separator := fun hb => h (hb ▸ List.mem_cons_self)
      rw [List.cons_append, piece_cons_zero hb, ih (fun hmem => h (List.mem_cons_of_mem b hmem)),
        List.cons_append]

theorem piece_append_cons_succ {separator : UInt8} {front : Bytes} (h : separator ∉ front)
    (rest : Bytes) (i : Nat) :
    piece separator (front ++ separator :: rest) (i + 1) = piece separator rest i := by
  induction front with
  | nil => exact piece_cons_self_succ separator rest i
  | cons b front ih =>
      have hb : b ≠ separator := fun hb => h (hb ▸ List.mem_cons_self)
      rw [List.cons_append, piece_cons_succ hb, ih (fun hmem => h (List.mem_cons_of_mem b hmem))]

/-- Nothing stands in front of the first separator. -/
theorem piece_zero_of_start {separator : UInt8} {rest : Bytes}
    (h : ∀ b after, rest = b :: after → b = separator) : piece separator rest 0 = [] := by
  cases rest with
  | nil => exact piece_nil separator 0
  | cons b after =>
      rw [h b after rfl]
      exact piece_cons_self_zero separator after

/-! ## Reports -/

/-- A shifted key, with zeros in front of its number and further values behind it. -/
structure Shifted where
  zeros : Nat
  code : Nat
  others : Bytes
  others_start : ∀ b after, others = b :: after → b = 0x3a
  others_inside : 0x3b ∉ others

def Shifted.bytes (shifted : Shifted) : Bytes :=
  0x3a :: (numeral shifted.zeros shifted.code ++ shifted.others)

/-- The first parameter: the number of a key, and its shifted key if one is named. -/
def keyParameter (zeros code : Nat) (shifted : Option Shifted) : Bytes :=
  numeral zeros code ++ (shifted.map Shifted.bytes).getD []

/-- The word for modifiers, with bits beyond theirs. -/
def modifierWord (modifiers : Modifiers) (surplus : Nat) : Nat :=
  1 + modifiers.mask + 16 * surplus

structure Report where
  marker : Option UInt8
  codeZeros : Nat
  code : Nat
  shifted : Option Shifted
  wordZeros : Nat
  modifiers : Modifiers
  surplus : Nat
  /-- Further values of the second parameter, and further parameters. -/
  further : Bytes
  intermediates : Bytes
  marker_private : ∀ b ∈ marker, isMarker b = true
  word_lt : modifierWord modifiers surplus < 2 ^ 32
  further_start : ∀ b after, further = b :: after → b = 0x3a ∨ b = 0x3b
  wellFormed : WellFormed (keyParameter codeZeros code shifted ++
    0x3b :: (numeral wordZeros (modifierWord modifiers surplus) ++ further))
  intermediates_all : ∀ b ∈ intermediates, isIntermediate b = true

namespace Report

def parameters (r : Report) : Bytes :=
  keyParameter r.codeZeros r.code r.shifted ++
    0x3b :: (numeral r.wordZeros (modifierWord r.modifiers r.surplus) ++ r.further)

def bytes (r : Report) : Bytes :=
  0x1b :: 0x5b :: (r.marker.toList ++ (r.parameters ++ (r.intermediates ++ [0x75])))

/-- No shifted key is named, or Shift is not held. -/
def Unshifted (r : Report) : Prop :=
  (∀ shifted ∈ r.shifted, shifted.code = 0) ∨ r.modifiers.shift = false

/-- The event that a report stands for. A shifted key that is reached uses up Shift. -/
inductive Stands : Report → KeyEvent → Prop
  | key {r : Report} {key : Key} :
      r.Unshifted → Key.Names r.code key → Stands r (.press key r.modifiers)
  | unnamed {r : Report} : r.Unshifted → Key.Unnamed r.code → Stands r .invalid
  | shifted {r : Report} {shifted : Shifted} :
      r.shifted = some shifted → 0 < shifted.code → r.modifiers.shift = true →
      Stands r (.press (.ofCode shifted.code) { r.modifiers with shift := false })

/-! ## Values of a report -/

theorem not_mem_keyParameter (zeros code : Nat) (shifted : Option Shifted) :
    0x3b ∉ keyParameter zeros code shifted := by
  intro h
  rcases List.mem_append.1 h with h | h
  · exact not_mem_numeral (by decide) zeros code h
  · cases shifted with
    | none => cases h
    | some shifted =>
        rcases List.mem_cons.1 h with h | h
        · exact absurd h (by decide)
        · rcases List.mem_append.1 h with h | h
          · exact not_mem_numeral (by decide) _ _ h
          · exact shifted.others_inside h

theorem piece_keyParameter_zero (zeros code : Nat) (shifted : Option Shifted) :
    piece 0x3a (keyParameter zeros code shifted) 0 = numeral zeros code := by
  rw [keyParameter, piece_append_zero (not_mem_numeral (by decide) zeros code),
    piece_zero_of_start, List.append_nil]
  intro b after h
  cases shifted with
  | none => cases h
  | some shifted =>
      cases h
      rfl

theorem piece_keyParameter_one (zeros code : Nat) (shifted : Shifted) :
    piece 0x3a (keyParameter zeros code (some shifted)) 1 =
      numeral shifted.zeros shifted.code := by
  have hstart : piece 0x3a shifted.others 0 = [] := piece_zero_of_start shifted.others_start
  change piece 0x3a (numeral zeros code ++ 0x3a :: (_ ++ shifted.others)) 1 = _
  rw [piece_append_cons_succ (not_mem_numeral (by decide) zeros code),
    piece_append_zero (not_mem_numeral (by decide) _ _), hstart, List.append_nil]

theorem piece_keyParameter_one_none (zeros code : Nat) :
    piece 0x3a (keyParameter zeros code none) 1 = [] := by
  apply piece_of_count_lt
  have hcount : (keyParameter zeros code none).count 0x3a = 0 := by
    rw [keyParameter, Option.map_none, Option.getD_none, List.append_nil]
    exact List.count_eq_zero.2 (not_mem_numeral (by decide) zeros code)
  omega

theorem written_code (r : Report) : written r.parameters 0 0 = r.code := by
  rw [written, parameters, piece_append_zero (not_mem_keyParameter _ _ _), piece_cons_self_zero,
    List.append_nil, piece_keyParameter_zero, decimal_numeral]

theorem written_shifted (r : Report) :
    written r.parameters 0 1 = (r.shifted.map Shifted.code).getD 0 := by
  rw [written, parameters, piece_append_zero (not_mem_keyParameter _ _ _), piece_cons_self_zero,
    List.append_nil]
  cases r.shifted with
  | none =>
      rw [piece_keyParameter_one_none]
      rfl
  | some shifted =>
      rw [piece_keyParameter_one, decimal_numeral]
      rfl

theorem written_word (r : Report) :
    written r.parameters 1 0 = modifierWord r.modifiers r.surplus := by
  have hfurther : piece 0x3a (piece 0x3b r.further 0) 0 = [] := by
    cases hf : r.further with
    | nil => rw [piece_nil, piece_nil]
    | cons b after =>
        rcases r.further_start b after hf with rfl | rfl
        · rw [piece_cons_zero (by decide), piece_cons_self_zero]
        · rw [piece_cons_self_zero, piece_nil]
  rw [written, parameters, piece_append_cons_succ (not_mem_keyParameter _ _ _),
    piece_append_zero (not_mem_numeral (by decide) _ _),
    piece_append_zero (not_mem_numeral (by decide) _ _), hfurther, List.append_nil,
    decimal_numeral]

/-! ## Decoding reports -/

/-- The greatest value is no name, like every number that it stands for. -/
theorem ofCode_min (code : Nat) : Key.ofCode (min code maxValue) = Key.ofCode code := by
  have hmax : maxValue = 0xffffffff := rfl
  have htag : FunctionKey.invalid.tag = 0x11001f := rfl
  by_cases hle : code ≤ maxValue
  · rw [Nat.min_eq_left hle]
  · rw [Nat.min_eq_right (by omega), Key.ofCode_of_unnamed (.inr (by omega)),
      Key.ofCode_of_unnamed (.inr (by omega))]

theorem Stands.extendedEvent_eq {r : Report} {event : KeyEvent} (h : r.Stands event) :
    extendedEvent (min r.code maxValue) (min ((r.shifted.map Shifted.code).getD 0) maxValue)
      r.modifiers = event := by
  have hmax : maxValue = 0xffffffff := rfl
  have hplain : r.Unshifted →
      extendedEvent (min r.code maxValue) (min ((r.shifted.map Shifted.code).getD 0) maxValue)
        r.modifiers = .press (.ofCode r.code) r.modifiers := by
    intro hunshifted
    rw [extendedEvent, if_neg, ofCode_min]
    rintro ⟨hcode, hshift⟩
    rcases hunshifted with hnone | hfalse
    · cases hs : r.shifted with
      | none => exact hcode (by rw [hs]; rfl)
      | some shifted =>
          rw [hs, Option.map_some, Option.getD_some, hnone shifted hs] at hcode
          exact hcode rfl
    · rw [hfalse] at hshift
      cases hshift
  cases h with
  | key hunshifted hnames => rw [hplain hunshifted, Key.ofCode_of_names hnames]
  | unnamed hunshifted hunnamed =>
      rw [hplain hunshifted, Key.ofCode_of_unnamed hunnamed]
      rfl
  | @shifted shifted hs hpos hshift =>
      rw [hs, Option.map_some, Option.getD_some, extendedEvent, if_pos ⟨by omega, hshift⟩,
        ofCode_min]

theorem marked (r : Report) :
    Marked r.marker.toList (r.parameters ++ (r.intermediates ++ [0x75])) := by
  apply marked_of_forall
  · cases hm : r.marker with
    | none => exact .inl rfl
    | some b => exact .inr ⟨b, r.marker_private b hm, rfl⟩
  · intro b hb
    rw [isMarker, decide_eq_false_iff_not]
    rcases List.mem_append.1 hb with hb | hb
    · have hrange := r.wellFormed.bytes b hb
      omega
    · rcases List.mem_append.1 hb with hb | hb
      · have hrange := of_decide_eq_true (r.intermediates_all b hb)
        omega
      · rw [List.mem_singleton.1 hb]
        decide

theorem Stands.complete {r : Report} {event : KeyEvent} (h : r.Stands event) (backspace : UInt8) :
    Complete backspace r.bytes event := by
  have hmax : maxValue = 0xffffffff := rfl
  let p : Parameters := ⟨fun i j => min (written r.parameters i j) maxValue, 0, 0⟩
  have hword : p.modifiers = r.modifiers := by
    have hlt := r.word_lt
    have hsum : modifierWord r.modifiers r.surplus - 1 = r.modifiers.mask + 16 * r.surplus := by
      rw [modifierWord]
      omega
    change Modifiers.ofMask (min (written r.parameters 1 0) maxValue - 1) = _
    rw [written_word, Nat.min_eq_left (by omega), hsum, Modifiers.ofMask_mask_add]
  have hevent : ControlSequence.event 0x75 p = event := by
    change extendedEvent (min (written r.parameters 0 0) maxValue)
      (min (written r.parameters 0 1) maxValue) p.modifiers = _
    rw [hword, written_code, written_shifted, h.extendedEvent_eq]
  have hdecodes : Decodes (r.marker.toList ++ (r.parameters ++ (r.intermediates ++ [0x75])))
      (.key (ControlSequence.event 0x75 p) _) :=
    .final r.marked r.wellFormed.accepted r.intermediates_all rfl (fun i j => rfl)
  rw [complete_iff]
  change decodeBracket false _ = _
  rw [decodeBracket_false, hdecodes.decode_eq, hevent]
  simp only [Step.shift, bytes, List.length_cons, List.length_append, List.length_nil]
  congr 1
  omega

theorem exists_stands (r : Report) : ∃ event, r.Stands event := by
  by_cases hunshifted : r.Unshifted
  · rcases Key.names_or_unnamed r.code with ⟨key, hnames⟩ | hunnamed
    · exact ⟨_, .key hunshifted hnames⟩
    · exact ⟨_, .unnamed hunshifted hunnamed⟩
  · rw [Unshifted, not_or] at hunshifted
    obtain ⟨hcode, hshift⟩ := hunshifted
    cases hs : r.shifted with
    | none => exact absurd (fun shifted hmem => by rw [hs] at hmem; cases hmem) hcode
    | some shifted =>
        refine ⟨_, .shifted hs (Nat.pos_of_ne_zero fun hzero => hcode ?_) (by simpa using hshift)⟩
        intro other hmem
        rw [hs, Option.mem_some] at hmem
        rw [← hmem, hzero]

/-! ## The shortest form -/

theorem wellFormed_numerals (code word : Nat) :
    WellFormed (numeral 0 code ++ 0x3b :: numeral 0 word) := by
  apply Accepted.wellFormed
  intro before b after h
  have hmem : b ∈ numeral 0 code ++ 0x3b :: numeral 0 word := by
    rw [h]
    exact List.mem_append_right before List.mem_cons_self
  have hb : (0x30 ≤ b.toNat ∧ b.toNat ≤ 0x39) ∨ b = 0x3b := by
    rcases List.mem_append.1 hmem with hmem | hmem
    · exact .inl (isDigit_of_mem_numeral hmem)
    · rcases List.mem_cons.1 hmem with hmem | hmem
      · exact .inr hmem
      · exact .inl (isDigit_of_mem_numeral hmem)
  have hcount : before.count 0x3b ≤ 1 := by
    have hall := congrArg (List.count 0x3b) h
    have hdigits : ∀ n, (numeral 0 n).count 0x3b = 0 :=
      fun n => List.count_eq_zero.2 (not_mem_numeral (by decide) 0 n)
    rw [List.count_append, List.count_append, List.count_cons_self, hdigits, hdigits] at hall
    omega
  have hsemicolon : (0x3b : UInt8).toNat = 0x3b := rfl
  have hnat : 0x30 ≤ b.toNat ∧ b.toNat ≤ 0x3b ∧ b.toNat ≠ 0x3a := by
    rcases hb with hb | rfl <;> omega
  refine ⟨by rw [isParameterByte, decide_eq_true_iff]; omega, ?_⟩
  rw [List.nil_append]
  rintro (hmarker | ⟨rfl, _⟩ | hle)
  · rw [isMarker, decide_eq_true_iff] at hmarker
    omega
  · exact hnat.2.2 rfl
  · omega

/-- The report of a number and modifiers that carries nothing besides. -/
def plain (code : Nat) (modifiers : Modifiers) : Report where
  marker := none
  codeZeros := 0
  code := code
  shifted := none
  wordZeros := 0
  modifiers := modifiers
  surplus := 0
  further := []
  intermediates := []
  marker_private := fun _ h => by cases h
  word_lt := by
    have hmask : modifiers.mask < 16 := by
      rcases modifiers with ⟨_ | _, _ | _, _ | _, _ | _⟩ <;> decide
    rw [modifierWord]
    omega
  further_start := fun _ _ h => by cases h
  wellFormed := by
    rw [keyParameter, Option.map_none, Option.getD_none, List.append_nil, List.append_nil]
    exact wellFormed_numerals code (modifierWord modifiers 0)
  intermediates_all := fun _ h => by cases h

theorem bytes_plain (code : Nat) (modifiers : Modifiers) :
    (plain code modifiers).bytes =
      [0x1b, 0x5b] ++ numeral 0 code ++ [0x3b] ++ numeral 0 (1 + modifiers.mask) ++ [0x75] := by
  simp [bytes, parameters, plain, keyParameter, modifierWord]

/-- Every report stands for an event, whatever it carries: for the key that its number names with
its modifiers, for an invalid key if the number names none, and for the shifted key without Shift
if one is named and Shift is held. Reports in a row, fed to a fresh decoder in any chunks, are
these events in order, and nothing is held back. -/
theorem run_reports (backspace : UInt8) :
    (∀ code modifiers, (plain code modifiers).bytes =
      [0x1b, 0x5b] ++ numeral 0 code ++ [0x3b] ++ numeral 0 (1 + modifiers.mask) ++ [0x75]) ∧
    (∀ r : Report, ∃ event, r.Stands event) ∧
    (∀ (reports : List (Report × KeyEvent)) (chunks : List Bytes),
      (∀ report ∈ reports, report.1.Stands report.2) →
      chunks.flatten = (reports.map fun report => report.1.bytes).flatten →
      let ran := (new backspace).run (chunks.map .feed)
      ran.1.map Segment.event = reports.map Prod.snd ∧ ran.2 = new backspace) := by
  refine ⟨bytes_plain, exists_stands, ?_⟩
  intro reports chunks hreports hchunks ran
  have hran :
      ran = ((reports.map fun report => ⟨report.1.bytes, report.2, false⟩), new backspace) := by
    have hkeys : ∀ key ∈ reports.map fun report => (report.1.bytes, report.2),
        Complete backspace key.1 key.2 := by
      intro key hkey
      obtain ⟨report, hmem, rfl⟩ := List.mem_map.1 hkey
      exact (hreports report hmem).complete backspace
    have hfeed := feed_complete hkeys
    rw [List.map_map, List.map_map] at hfeed
    change (new backspace).run (chunks.map .feed) = _
    rw [(settled_new backspace).run_feeds, hchunks]
    exact hfeed
  rw [hran]
  refine ⟨?_, rfl⟩
  rw [List.map_map]
  rfl

/-- A capital letter, with an empty third value behind it. -/
def capital : Shifted := ⟨0, 65, [0x3a], fun b after h => by cases h; rfl, by decide⟩

/-- The letter `a` and its capital with Ctrl and Shift, and everything that a report may carry. -/
def shiftedLetter : Report where
  marker := some 0x3e
  codeZeros := 1
  code := 97
  shifted := some capital
  wordZeros := 2
  modifiers := ⟨true, false, true, false⟩
  surplus := 1
  further := [0x3a, 0x31, 0x3b, 0x32]
  intermediates := [0x20, 0x24]
  marker_private := fun b h => by cases h; rfl
  word_lt := by decide
  further_start := fun b after h => by cases h; exact .inl rfl
  wellFormed := ((foldlM_push_iff _).2 ⟨_, rfl⟩).wellFormed
  intermediates_all := by
    simp only [List.mem_cons, List.not_mem_nil, or_false, forall_eq_or_imp, forall_eq]
    decide

/-- Two reports cut inside the first. -/
theorem run_shiftedLetter :
    let reports : List (Report × KeyEvent) :=
      [(shiftedLetter, .press (.codepoint 'A') .onlyCtrl),
        (plain 1114126 .onlyAlt, .press (.function .f5) .onlyAlt)]
    let chunks : List Bytes :=
      [[0x1b, 0x5b, 0x3e, 0x30, 0x39, 0x37, 0x3a, 0x36],
        [0x35, 0x3a, 0x3b, 0x30, 0x30, 0x32, 0x32, 0x3a, 0x31, 0x3b, 0x32, 0x20, 0x24, 0x75, 0x1b],
        [0x5b, 0x31, 0x31, 0x31, 0x34, 0x31, 0x32, 0x36, 0x3b, 0x33, 0x75]]
    (∀ report ∈ reports, report.1.Stands report.2) ∧
    chunks.flatten = (reports.map fun report => report.1.bytes).flatten ∧
    ((new 0x7f).run (chunks.map .feed)).1.map Segment.event =
        [.press (.codepoint 'A') .onlyCtrl, .press (.function .f5) .onlyAlt] ∧
      ((new 0x7f).run (chunks.map .feed)).2 = new 0x7f := by
  intro reports chunks
  have hreports : ∀ report ∈ reports, report.1.Stands report.2 := by
    intro report hmem
    simp only [reports, List.mem_cons, List.not_mem_nil, or_false] at hmem
    rcases hmem with rfl | rfl
    · exact @Stands.shifted shiftedLetter capital rfl (by decide) rfl
    · exact @Stands.key (plain 1114126 .onlyAlt) _ (.inr rfl) (.function .f5)
  have hchunks : chunks.flatten = (reports.map fun report => report.1.bytes).flatten := by decide
  exact ⟨hreports, hchunks, (run_reports 0x7f).2.2 reports chunks hreports hchunks⟩

end Report

end Decoder.ControlSequence

end Keystroke
