import Keystroke.Proofs.ControlSequence.Event
import Keystroke.Proofs.Decoder.Encoding
import Keystroke.Proofs.Decoder.Forms
import Keystroke.Proofs.Decoder.Provenance

/-! # Typed text

Text comes in as the encodings of its characters. Each encoding is one complete
sequence, so that text decodes to one key for each of its characters. Conversely
a key with a character from `0x80` on comes from nothing but the encoding of that
character, with or without Alt, or from a control sequence; what is not well
formed is invalid.
-/

namespace Keystroke

open String (utf8EncodeChar)

theorem toNat_ofUInt8 (b : UInt8) : (Char.ofUInt8 b).toNat = b.toNat := rfl

theorem toNat_charOfNat {n : Nat} (h : n < 0xd800) : (Char.ofNat n).toNat = n := by
  have hvalid : n.isValidChar := .inl h
  rw [Char.ofNat, dif_pos hvalid]
  rfl

theorem char_eq_of_toNat {c d : Char} (h : c.toNat = d.toNat) : c = d := by
  rw [← Char.ofNat_toNat c, h, Char.ofNat_toNat]

namespace Decoder

/-- The key of a typed character. A control character stands for Ctrl with the letter or sign
that it is named by, unless it has a key of its own. -/
def typed (backspace : UInt8) (c : Char) : KeyEvent :=
  if c = '\x00' then .press (.function .space) .onlyCtrl
  else if c = '\t' then .function .tab
  else if c = '\r' then .function .enter
  else if c.toNat ≤ 26 then .press (.codepoint (Char.ofNat ('a'.toNat - 1 + c.toNat))) .onlyCtrl
  else if c.toNat < 32 then .press (.codepoint (Char.ofNat ('@'.toNat + c.toNat))) .onlyCtrl
  else if c = ' ' then .function .space
  else if c = '\x7f' then
    if backspace = 0x7f then .function .backspace else .invalid
  else .character c

/-! ## Characters of one byte -/

theorem controlCharacter_eq {b : UInt8} {c : Char} (h : b.toNat = c.toNat) (hlt : c.toNat < 32) :
    controlCharacter b =
      if c.toNat ≤ 26 then Char.ofNat ('a'.toNat - 1 + c.toNat)
      else Char.ofNat ('@'.toNat + c.toNat) := by
  have ha : 'a'.toNat = 0x61 := rfl
  have hat : '@'.toNat = 0x40 := rfl
  rw [controlCharacter, h]
  split
  · apply char_eq_of_toNat
    rw [toNat_ofUInt8, UInt8.toNat_add, h, toNat_charOfNat (by omega)]
    change (c.toNat + 0x60) % 256 = _
    omega
  · apply char_eq_of_toNat
    rw [toNat_ofUInt8, UInt8.toNat_add, h, toNat_charOfNat (by omega)]
    change (c.toNat + 0x40) % 256 = _
    omega

theorem singleByteEvent_typed {backspace b : UInt8} {c : Char} (h : b.toNat = c.toNat)
    (hlt : c.toNat < 0x80) (hescape : c ≠ '\x1b') :
    singleByteEvent? backspace b = some (typed backspace c) := by
  have hbyte : ∀ (x : UInt8) (d : Char), x.toNat = d.toNat → (b = x ↔ c = d) := by
    intro x d hx
    constructor
    · rintro rfl
      exact char_eq_of_toNat (h.symm.trans hx)
    · rintro rfl
      exact UInt8.toNat_inj.1 (h.trans hx.symm)
  have hchar : Char.ofUInt8 b = c := char_eq_of_toNat h
  unfold singleByteEvent? typed
  simp only [hbyte 0x00 '\x00' rfl, hbyte 0x09 '\t' rfl, hbyte 0x0d '\r' rfl,
    hbyte escByte '\x1b' rfl, hbyte 0x20 ' ' rfl, hbyte 0x7f '\x7f' rfl, hchar, if_neg hescape, h]
  by_cases hnull : c = '\x00'
  · rw [if_pos hnull, if_pos hnull]
  by_cases htab : c = '\t'
  · simp only [if_neg hnull, if_pos htab]
  by_cases henter : c = '\r'
  · simp only [if_neg hnull, if_neg htab, if_pos henter]
  simp only [if_neg hnull, if_neg htab, if_neg henter]
  have hne : c.toNat ≠ 27 := fun hnat => hescape (char_eq_of_toNat hnat)
  by_cases hcontrol : c.toNat < 32
  · rw [if_pos hcontrol, controlCharacter_eq h hcontrol]
    by_cases hletter : c.toNat ≤ 26
    · simp only [if_pos hletter]
    · simp only [if_neg hletter, if_pos hcontrol]
  have hletter : ¬ c.toNat ≤ 26 := by omega
  simp only [if_neg hletter, if_neg hcontrol]
  by_cases hspace : c = ' '
  · simp only [if_pos hspace]
  simp only [if_neg hspace]
  by_cases hdelete : c = '\x7f'
  · subst hdelete
    rw [if_neg (by decide), if_pos rfl, if_pos rfl, (hbyte 0x7f '\x7f' rfl).2 rfl, apply_ite some]
    simp only [eq_comm]
  · have hnat : c.toNat ≠ 127 := fun hnat => hdelete (char_eq_of_toNat hnat)
    simp only [if_neg hdelete]
    rw [if_pos (by omega)]

theorem complete_of_single {backspace b : UInt8} {event : KeyEvent} (hescape : b ≠ escByte)
    (h : singleByteEvent? backspace b = some event) : Complete backspace [b] event := by
  rw [complete_iff, decodeOne, if_neg hescape, decodeKey, h]
  rfl

/-! ## Characters of several bytes -/

theorem Utf8.Spelled.le {b : UInt8} {rest : Bytes} {lead : Utf8.Lead}
    (h : Utf8.Spelled b rest lead) : 0x80 ≤ b.toNat := by
  rcases Utf8.lead_cases h.lead_eq with h | h | h <;> omega

theorem decodeKey_of_le {backspace b : UInt8} (hle : 0x80 ≤ b.toNat) (hne : b ≠ backspace)
    (rest : Bytes) : decodeKey backspace (b :: rest) = Utf8.decode b rest := by
  rw [decodeKey, singleByteEvent_eq_none_iff.2 ⟨hle, hne⟩]

/-- A character of several bytes is complete by itself and behind Alt. -/
theorem complete_of_decodeKey {backspace b : UInt8} {rest : Bytes} {event : KeyEvent}
    (hle : 0x80 ≤ b.toNat) (h : decodeKey backspace (b :: rest) = .key event (rest.length + 1)) :
    Complete backspace (b :: rest) event ∧
      Complete backspace (0x1b :: b :: rest) (event.withModifiers .onlyAlt) := by
  have hne : ∀ x : UInt8, x.toNat < 0x80 → b ≠ x := by
    rintro x hx rfl
    omega
  rw [complete_iff, complete_iff]
  refine ⟨?_, ?_⟩
  · rw [decodeOne, if_neg (hne escByte (by decide)), h]
    rfl
  · rw [decodeOne_escape, decodeEscape, if_neg (hne 0x5b (by decide)),
      if_neg (hne 0x4f (by decide)), h]
    rfl

theorem complete_typed {backspace : UInt8} {c : Char} (hescape : c ≠ '\x1b')
    (hback : 1 < (utf8EncodeChar c).length → (utf8EncodeChar c).head? ≠ some backspace) :
    Complete backspace (utf8EncodeChar c) (typed backspace c) := by
  by_cases hlt : c.toNat < 0x80
  · have hbyte : (UInt8.ofNat c.toNat).toNat = c.toNat := Utf8.toNat_ofNat (by omega)
    rw [Utf8.encode_of_lt hlt]
    refine complete_of_single ?_ (singleByteEvent_typed hbyte hlt hescape)
    intro heq
    rw [heq] at hbyte
    exact hescape (char_eq_of_toNat hbyte.symm)
  · obtain ⟨b, rest, lead, hencode, hspelled, hleast, hcode⟩ :=
      Utf8.exists_spelled (Nat.le_of_not_lt hlt)
    have hne : ∀ d : Char, d.toNat < 0x80 → c ≠ d := by
      rintro d hd rfl
      exact hlt hd
    have htyped : typed backspace c = .character c := by
      unfold typed
      rw [if_neg (hne _ (by decide)), if_neg (hne _ (by decide)), if_neg (hne _ (by decide)),
        if_neg (by omega), if_neg (by omega), if_neg (hne _ (by decide)),
        if_neg (hne _ (by decide))]
    have hrest : 0 < rest.length := by
      have hlead := Utf8.lead_cases hspelled.lead_eq
      rw [hspelled.length_eq]
      rcases hlead with ⟨_, _, rfl⟩ | ⟨_, _, rfl⟩ | ⟨_, _, rfl⟩ <;> exact Nat.succ_pos _
    rw [hencode, List.length_cons, List.head?_cons] at hback
    have hb : b ≠ backspace := fun hb => hback (by omega) (congrArg some hb)
    have hkey := (decodeKey_of_le hspelled.le hb rest).trans hspelled.decode_eq
    rw [hcode, Utf8.scalarEvent_character hleast] at hkey
    rw [hencode, htyped]
    exact (complete_of_decodeKey hspelled.le hkey).1

/-! ## Where characters come from -/

theorem lt_of_singleByteEvent {backspace b : UInt8} {event : KeyEvent} {c : Char}
    (h : singleByteEvent? backspace b = some event) (hkey : event.key = .codepoint c) :
    c.toNat < 0x80 := by
  unfold singleByteEvent? at h
  repeat' split at h
  all_goals cases h
  all_goals
    simp only [KeyEvent.function, KeyEvent.character, KeyEvent.plain, KeyEvent.press_key,
      KeyEvent.invalid, reduceCtorEq, Key.codepoint.injEq] at hkey
  · rename_i hlt
    subst hkey
    rw [controlCharacter, toNat_ofUInt8]
    split <;> rw [UInt8.toNat_add]
    · change (b.toNat + 0x60) % 256 < 0x80
      omega
    · change (b.toNat + 0x40) % 256 < 0x80
      omega
  · rename_i hlt
    subst hkey
    rw [toNat_ofUInt8]
    omega

/-- A reader that decides a character has read exactly the continuation bytes it asked for. -/
theorem Utf8.readContinuation_cases {least following code used used' : Nat} {rest : Bytes}
    {event : KeyEvent}
    (h : Utf8.readContinuation least following code used rest = .key event used') :
    event = .invalid ∨ ∃ here after, rest = here ++ after ∧ here.length = following ∧
      (∀ b ∈ here, Utf8.isContinuation b = true) ∧ used' = used + following ∧
      event = Utf8.scalarEvent least (Utf8.extend code here) := by
  induction rest generalizing following code used with
  | nil =>
      cases following with
      | zero =>
          cases h
          exact .inr ⟨[], [], rfl, rfl, by simp, rfl, rfl⟩
      | succ following => cases h
  | cons b rest ih =>
      cases following with
      | zero =>
          cases h
          exact .inr ⟨[], b :: rest, rfl, rfl, by simp, rfl, rfl⟩
      | succ following =>
          rw [Utf8.readContinuation] at h
          split at h
          · rename_i hb
            rcases ih h with hinvalid | ⟨here, after, hrest, hlen, hall, hused, hevent⟩
            · exact .inl hinvalid
            · refine .inr ⟨b :: here, after, by rw [hrest]; rfl, by rw [List.length_cons, hlen],
                List.forall_mem_cons.2 ⟨hb, hall⟩, by omega, ?_⟩
              rw [Utf8.extend_cons]
              exact hevent
          · cases h
            exact .inl rfl

theorem decodeKey_wide {backspace : UInt8} {bytes : Bytes} {event : KeyEvent} {c : Char}
    (h : decodeKey backspace bytes = .key event bytes.length)
    (hkey : event.key = .codepoint c) (hc : 0x80 ≤ c.toNat) :
    bytes = utf8EncodeChar c ∧ event = .character c := by
  have hvalid : event ≠ .invalid := by
    rintro rfl
    cases hkey
  cases bytes with
  | nil => cases h
  | cons b rest =>
      rw [decodeKey] at h
      cases hsingle : singleByteEvent? backspace b with
      | some single =>
          rw [hsingle] at h
          obtain ⟨rfl, _⟩ := Step.key.inj h
          have hlt := lt_of_singleByteEvent hsingle hkey
          omega
      | none =>
          rw [hsingle] at h
          dsimp only at h
          rw [Utf8.decode] at h
          cases hlead : Utf8.lead? b with
          | none =>
              rw [hlead] at h
              exact absurd (Step.key.inj h).1.symm hvalid
          | some lead =>
              rw [hlead] at h
              dsimp only at h
              rcases Utf8.readContinuation_cases h with
                hinvalid | ⟨here, after, rfl, hlen, hall, hused, hevent⟩
              · exact absurd hinvalid hvalid
              · rw [List.length_cons, List.length_append] at hused
                obtain rfl := List.length_eq_zero_iff.1 (by omega : after.length = 0)
                rw [List.append_nil]
                rcases Utf8.scalarEvent_cases lead.least (Utf8.extend lead.bits here) with
                  hinvalid | ⟨d, hd, hleast, hscalar⟩
                · exact absurd (hevent.trans hinvalid) hvalid
                · rw [hevent, hscalar] at hkey
                  obtain rfl : d = c := by
                    rw [KeyEvent.character, KeyEvent.plain, KeyEvent.press_key] at hkey
                    injection hkey
                  exact ⟨(Utf8.Spelled.encode_eq ⟨hlead, hall, hlen⟩ hd (hd ▸ hleast)).symm,
                    hevent.trans hscalar⟩

/-- A decided string with a wide character is its encoding or a control sequence. -/
theorem Complete.of_codepoint {backspace : UInt8} {bytes : Bytes} {event : KeyEvent} {c : Char}
    (h : Complete backspace bytes event) (hkey : event.key = .codepoint c) (hc : 0x80 ≤ c.toNat)
    (hsequence : ¬ [0x1b, 0x5b] <+: bytes) :
    (bytes = utf8EncodeChar c ∧ event = .character c) ∨
      (bytes = 0x1b :: utf8EncodeChar c ∧ event = .press (.codepoint c) .onlyAlt) := by
  cases h.form with
  | plain hdecode => exact .inl (decodeKey_wide hdecode hkey hc)
  | alt hdecode =>
      rw [KeyEvent.withModifiers, KeyEvent.press_key] at hkey
      obtain ⟨rfl, rfl⟩ := decodeKey_wide hdecode hkey hc
      exact .inr ⟨rfl, rfl⟩
  | sequence => exact absurd (List.prefix_append [0x1b, 0x5b] _) hsequence
  | singleShift final =>
      rw [ControlSequence.singleShiftEvent] at hkey
      split at hkey
      · rw [KeyEvent.function, KeyEvent.plain, KeyEvent.press_key] at hkey
        cases hkey
      · cases hkey

theorem lt_of_resolution {bytes : Bytes} {event : KeyEvent} {c : Char}
    (h : resolution bytes = [event]) (hkey : event.key = .codepoint c) : c.toNat < 0x80 := by
  unfold resolution at h
  repeat' split at h
  all_goals cases h
  all_goals
    simp only [KeyEvent.function, KeyEvent.plain, KeyEvent.press_key, KeyEvent.invalid,
      reduceCtorEq, Key.codepoint.injEq] at hkey
  all_goals
    subst hkey
    decide

/-! ## Ill-formed characters -/

/-- What is no encoding: a lead byte with the continuation bytes that it announces which spell no
character or spell it in too many bytes, a character broken off by another byte, and a byte that
begins none. -/
inductive IllFormed (backspace : UInt8) : Bytes → Prop
  | noCharacter {lead : UInt8} {rest : Bytes} :
      0xc0 ≤ lead.toNat → lead.toNat ≤ 0xf7 → lead ≠ backspace →
      (∀ b ∈ rest, 0x80 ≤ b.toNat ∧ b.toNat ≤ 0xbf) → rest.length = announced lead →
      (∀ c, utf8EncodeChar c ≠ lead :: rest) → IllFormed backspace (lead :: rest)
  | brokenOff {start : Bytes} {b : UInt8} :
      PartialCharacter backspace start → ¬ (0x80 ≤ b.toNat ∧ b.toNat ≤ 0xbf) →
      IllFormed backspace (start ++ [b])
  | stray {b : UInt8} :
      (0x80 ≤ b.toNat ∧ b.toNat ≤ 0xbf) ∨ 0xf8 ≤ b.toNat → b ≠ backspace →
      IllFormed backspace [b]

theorem IllFormed.decodeKey_eq {backspace : UInt8} {bytes : Bytes} (h : IllFormed backspace bytes) :
    ∃ b rest, bytes = b :: rest ∧ 0x80 ≤ b.toNat ∧
      decodeKey backspace (b :: rest) = .key .invalid (rest.length + 1) := by
  cases h with
  | @noCharacter lead rest hge hle hne hrest hlen hnone =>
      refine ⟨lead, rest, rfl, by omega, ?_⟩
      obtain ⟨bits, least, hlead⟩ := Utf8.lead_eq_some ⟨hge, hle⟩
      have hspelled : Utf8.Spelled lead rest ⟨announced lead, bits, least⟩ :=
        ⟨hlead, fun b hb => decide_eq_true (hrest b hb), hlen⟩
      rw [decodeKey_of_le (by omega) hne, hspelled.decode_eq]
      rcases Utf8.scalarEvent_cases least (Utf8.extend bits rest) with hinvalid | ⟨c, hc, hleast, _⟩
      · rw [hinvalid]
      · exact absurd (hspelled.encode_eq hc (hc ▸ hleast)) (hnone c)
  | @brokenOff start b hstart hb =>
      cases hstart with
      | @intro lead rest hge hle hne hrest hlen =>
          refine ⟨lead, rest ++ [b], rfl, by omega, ?_⟩
          obtain ⟨bits, least, hlead⟩ := Utf8.lead_eq_some ⟨hge, hle⟩
          rw [decodeKey_of_le (by omega) hne, Utf8.decode, hlead]
          dsimp only
          rw [Utf8.readContinuation_of_broken (fun c hc => decide_eq_true (hrest c hc)) hlen
            (decide_eq_false hb), List.length_append, List.length_singleton, Nat.add_comm 1]
  | @stray b hb hne =>
      refine ⟨b, [], rfl, by omega, ?_⟩
      rw [decodeKey_of_le (by omega) hne, Utf8.decode, Utf8.lead_eq_none (by omega)]
      rfl

theorem IllFormed.complete {backspace : UInt8} {bytes : Bytes} (h : IllFormed backspace bytes) :
    Complete backspace bytes .invalid ∧ Complete backspace (0x1b :: bytes) .invalid := by
  obtain ⟨b, rest, rfl, hb, hkey⟩ := h.decodeKey_eq
  exact complete_of_decodeKey hb hkey

/-- Text without Escape, whose characters of several bytes do not begin with the erase character,
decodes to the key of each character from its encoding, and nothing is held back. In any run, a key
with a character from `0x80` on that is no control sequence comes from the encoding of that
character, or from that encoding behind Alt. Ill-formed characters are one invalid key each, with
Alt as well. -/
theorem feed_typed (backspace : UInt8) :
    (∀ text : List Char, (∀ c ∈ text, c ≠ '\x1b') →
      (∀ c ∈ text, 1 < (utf8EncodeChar c).length → (utf8EncodeChar c).head? ≠ some backspace) →
      (new backspace).feed (text.flatMap utf8EncodeChar) =
        (text.map fun c => ⟨utf8EncodeChar c, typed backspace c, false⟩, new backspace)) ∧
    (∀ calls, ∀ segment ∈ ((new backspace).run calls).1, ∀ c : Char,
      segment.event.key = .codepoint c → 0x80 ≤ c.toNat → ¬ [0x1b, 0x5b] <+: segment.bytes →
      (segment.bytes = utf8EncodeChar c ∧ segment.event = .character c) ∨
        (segment.bytes = 0x1b :: utf8EncodeChar c ∧
          segment.event = .press (.codepoint c) .onlyAlt)) ∧
    (∀ bytes, IllFormed backspace bytes →
      Complete backspace bytes .invalid ∧ Complete backspace (0x1b :: bytes) .invalid) := by
  refine ⟨?_, ?_, fun bytes h => h.complete⟩
  · intro text hescape hback
    have hkeys : ∀ key ∈ text.map fun c => (utf8EncodeChar c, typed backspace c),
        Complete backspace key.1 key.2 := by
      intro key hkey
      obtain ⟨c, hc, rfl⟩ := List.mem_map.1 hkey
      exact complete_typed (hescape c hc) (hback c hc)
    have hfeed := feed_complete hkeys
    rw [List.map_map, List.map_map] at hfeed
    exact hfeed
  · intro calls segment hmem c hkey hc hsequence
    cases provenance_run backspace calls segment hmem with
    | fed hcomplete => exact hcomplete.of_codepoint hkey hc hsequence
    | flushed _ hresolution =>
        have hlt := lt_of_resolution hresolution hkey
        omega

/-- A letter, Ctrl with a letter, and characters of two, three and four bytes; the erase character
is the last byte of one of them. -/
theorem feed_typed_characters :
    (∀ c ∈ ['x', '\x11', 'é', '€', '😀'], c ≠ '\x1b') ∧
    (∀ c ∈ ['x', '\x11', 'é', '€', '😀'], 1 < (utf8EncodeChar c).length →
      (utf8EncodeChar c).head? ≠ some 0xac) ∧
    (new 0xac).feed [0x78, 0x11, 0xc3, 0xa9, 0xe2, 0x82, 0xac, 0xf0, 0x9f, 0x98, 0x80] =
      ([⟨[0x78], .character 'x', false⟩, ⟨[0x11], .press (.codepoint 'q') .onlyCtrl, false⟩,
        ⟨[0xc3, 0xa9], .character 'é', false⟩, ⟨[0xe2, 0x82, 0xac], .character '€', false⟩,
        ⟨[0xf0, 0x9f, 0x98, 0x80], .character '😀', false⟩], new 0xac) :=
  have hescape : ∀ c ∈ ['x', '\x11', 'é', '€', '😀'], c ≠ '\x1b' := by
    simp only [List.mem_cons, List.not_mem_nil, or_false, forall_eq_or_imp, forall_eq]
    decide
  have hback : ∀ c ∈ ['x', '\x11', 'é', '€', '😀'], 1 < (utf8EncodeChar c).length →
      (utf8EncodeChar c).head? ≠ some 0xac := by
    simp only [List.mem_cons, List.not_mem_nil, or_false, forall_eq_or_imp, forall_eq]
    decide
  ⟨hescape, hback, (feed_typed 0xac).1 _ hescape hback⟩

end Decoder

end Keystroke
