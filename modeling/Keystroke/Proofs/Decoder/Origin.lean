import Keystroke.Proofs.ControlSequence.Finished
import Keystroke.Proofs.Decoder.Forms
import Keystroke.Proofs.Decoder.Text

/-! # Origins of keys

Which keys can come from which bytes. Typed bytes, with or without Alt, give named keys
and visible characters without Shift and Super; the erase key comes from the erase
character only. All else takes a control sequence: Shift and Super any of them, a focus
or paste marker its own report, and any other key the extended form.
-/

namespace Keystroke

theorem KeyEvent.press_withModifiers (key : Key) (m n : Modifiers) :
    (press key m).withModifiers n = press key (m.union n) := by
  by_cases hkey : key = .function .invalid
  · subst hkey
    rfl
  · rw [withModifiers, press_key, press_modifiers hkey]

theorem Modifiers.eq_none_of_mask {m : Modifiers} (h : m.mask = 0) : m = none := by
  rw [← ofMask_mask m, h]
  rfl

theorem KeyEvent.foldl_withModifiers_invalid (chain : List Modifiers) :
    chain.foldl withModifiers invalid = invalid := by
  induction chain with
  | nil => rfl
  | cons m chain ih => exact ih

namespace Decoder

open ControlSequence (Finished Reports unlisted written)

/-- The bytes are a control sequence with the final byte and the parameter section. -/
inductive Sequence (final : UInt8) (run : Bytes) : Bytes → Prop
  | intro {body : Bytes} : Finished final run body → Sequence final run (0x1b :: 0x5b :: body)

/-- The bytes are a control sequence of the extended form, which ends in `u`. -/
def Extended (bytes : Bytes) : Prop := ∃ run, Sequence 0x75 run bytes

theorem Sequence.getLast?_eq {final : UInt8} {run bytes : Bytes} (h : Sequence final run bytes) :
    bytes.getLast? = some final := by
  cases h with
  | intro hfinished =>
      cases hfinished with
      | intro => simp [List.getLast?_append, List.getLast?_cons]

/-- A visible ASCII character, or any beyond ASCII: no control character, blank or DEL. -/
def Graphic (c : Char) : Prop :=
  (0x21 ≤ c.toNat ∧ c.toNat ≤ 0x7e) ∨ 0x80 ≤ c.toNat

/-- Neither Shift nor Super is held. -/
structure Unshifted (m : Modifiers) : Prop where
  shift : m.shift = false
  super : m.super = false

/-- The reports of focus and paste, by their final byte and their number. -/
inductive Announces : FunctionKey → Bytes → Prop
  | focusIn {run bytes : Bytes} : Sequence 0x49 run bytes → Announces .focusIn bytes
  | focusOut {run bytes : Bytes} : Sequence 0x4f run bytes → Announces .focusOut bytes
  | pasteStart {run bytes : Bytes} :
      Sequence 0x7e run bytes → written run 0 0 = 200 → Announces .pasteStart bytes
  | pasteEnd {run bytes : Bytes} :
      Sequence 0x7e run bytes → written run 0 0 = 201 → Announces .pasteEnd bytes

/-- Where an event comes from. -/
inductive Origin (backspace : UInt8) : Bytes → KeyEvent → Prop
  | invalid {bytes : Bytes} : Origin backspace bytes .invalid
  | erase : 0x7f ≤ backspace.toNat → Origin backspace [backspace] (.function .backspace)
  | altErase :
      0x7f ≤ backspace.toNat →
      Origin backspace [0x1b, backspace] (.press (.function .backspace) .onlyAlt)
  | named {bytes : Bytes} {key : FunctionKey} {m : Modifiers} :
      key ∉ unlisted → Unshifted m → Origin backspace bytes (.press (.function key) m)
  | character {bytes : Bytes} {c : Char} {m : Modifiers} :
      Graphic c → Unshifted m → Origin backspace bytes (.press (.codepoint c) m)
  | sequence {bytes run : Bytes} {final : UInt8} {event : KeyEvent}
      {p : ControlSequence.Parameters} :
      Sequence final run bytes →
      (∀ i j, p.value i j = min (written run i j) ControlSequence.maxValue) →
      Reports (p.value 0 0) (p.value 0 1) (p.value 1 0) final event.key event.modifiers.mask →
      Origin backspace bytes event

variable {backspace b : UInt8} {bytes rest : Bytes} {event : KeyEvent}

/-! ## Typed keys -/

/-- The event comes from the bytes, and with Alt from the bytes behind an escape. -/
structure Enters (backspace : UInt8) (bytes : Bytes) (event : KeyEvent) : Prop where
  plain : Origin backspace bytes event
  alt : Origin backspace (0x1b :: bytes) (event.withModifiers .onlyAlt)

theorem unshifted_none : Unshifted .none := ⟨rfl, rfl⟩

theorem unshifted_onlyCtrl : Unshifted .onlyCtrl := ⟨rfl, rfl⟩

theorem unshifted_onlyAlt : Unshifted .onlyAlt := ⟨rfl, rfl⟩

theorem Unshifted.union_onlyAlt {m : Modifiers} (h : Unshifted m) : Unshifted (m.union .onlyAlt) :=
  ⟨by simp [Modifiers.union, Modifiers.onlyAlt, h.shift],
    by simp [Modifiers.union, Modifiers.onlyAlt, h.super]⟩

theorem enters_invalid : Enters backspace bytes .invalid := ⟨.invalid, .invalid⟩

theorem enters_erase (h : 0x7f ≤ backspace.toNat) :
    Enters backspace [backspace] (.function .backspace) :=
  ⟨.erase h, .altErase h⟩

theorem enters_named {key : FunctionKey} {m : Modifiers} (h : key ∉ unlisted) (hm : Unshifted m) :
    Enters backspace bytes (.press (.function key) m) := by
  refine ⟨.named h hm, ?_⟩
  rw [KeyEvent.press_withModifiers]
  exact .named h hm.union_onlyAlt

theorem enters_function {key : FunctionKey} (h : key ∉ unlisted) :
    Enters backspace bytes (.function key) :=
  enters_named h unshifted_none

theorem enters_character {c : Char} {m : Modifiers} (h : Graphic c) (hm : Unshifted m) :
    Enters backspace bytes (.press (.codepoint c) m) := by
  refine ⟨.character h hm, ?_⟩
  rw [KeyEvent.press_withModifiers]
  exact .character h hm.union_onlyAlt

/-- A control byte that is no key of its own names a letter or a sign. -/
theorem graphic_controlCharacter (hpos : 0 < b.toNat) (hlt : b.toNat < 0x20) :
    Graphic (controlCharacter b) := by
  refine .inl ?_
  rw [controlCharacter, toNat_ofUInt8]
  split <;> rw [UInt8.toNat_add]
  · change 0x21 ≤ (b.toNat + 0x60) % 256 ∧ (b.toNat + 0x60) % 256 ≤ 0x7e
    omega
  · change 0x21 ≤ (b.toNat + 0x40) % 256 ∧ (b.toNat + 0x40) % 256 ≤ 0x7e
    omega

theorem enters_singleByteEvent (h : singleByteEvent? backspace b = some event) :
    Enters backspace [b] event := by
  have hne : ∀ c : UInt8, b ≠ c → b.toNat ≠ c.toNat := fun c hc heq => hc (UInt8.toNat_inj.1 heq)
  unfold singleByteEvent? at h
  split at h
  · cases h
    exact enters_named (by decide) unshifted_onlyCtrl
  rename_i hnull
  split at h
  · cases h
    exact enters_function (by decide)
  split at h
  · cases h
    exact enters_function (by decide)
  split at h
  · cases h
    exact enters_function (by decide)
  split at h
  · rename_i hcontrol
    cases h
    exact enters_character (graphic_controlCharacter (Nat.pos_of_ne_zero (hne 0 hnull)) hcontrol)
      unshifted_onlyCtrl
  rename_i hcontrol
  split at h
  · cases h
    exact enters_function (by decide)
  rename_i hblank
  split at h
  · rename_i hlt
    cases h
    have hgraphic : Graphic (Char.ofUInt8 b) := by
      have hblank := hne 0x20 hblank
      refine .inl ?_
      rw [toNat_ofUInt8]
      change b.toNat ≠ 0x20 at hblank
      omega
    exact enters_character hgraphic unshifted_none
  rename_i hlt
  split at h
  · rename_i herase
    cases h
    subst herase
    exact enters_erase (Nat.le_of_not_lt hlt)
  split at h
  · cases h
    exact enters_invalid
  · cases h

theorem enters_scalarEvent {least : Nat} (h : 0x80 ≤ least) (code : Nat) :
    Enters backspace bytes (Utf8.scalarEvent least code) := by
  rcases Utf8.scalarEvent_cases least code with hinvalid | ⟨c, hcode, hleast, hcharacter⟩
  · rw [hinvalid]
    exact enters_invalid
  · rw [hcharacter]
    exact enters_character (.inr (by omega)) unshifted_none

theorem enters_decode {used : Nat} (h : Utf8.decode b rest = .key event used) :
    Enters backspace bytes event := by
  unfold Utf8.decode at h
  split at h
  · rename_i lead hlead
    have hleast : 0x80 ≤ lead.least := by
      rcases Utf8.lead_cases hlead with ⟨_, _, rfl⟩ | ⟨_, _, rfl⟩ | ⟨_, _, rfl⟩ <;> simp
    rcases Utf8.readContinuation_cases h with rfl | ⟨here, after, _, _, _, _, rfl⟩
    · exact enters_invalid
    · exact enters_scalarEvent hleast _
  · cases h
    exact enters_invalid

theorem enters_decodeKey (h : decodeKey backspace bytes = .key event bytes.length) :
    Enters backspace bytes event := by
  cases bytes with
  | nil => cases h
  | cons b rest =>
      rw [decodeKey] at h
      cases hsingle : singleByteEvent? backspace b with
      | some single =>
          rw [hsingle] at h
          obtain ⟨rfl, hused⟩ := Step.key.inj h
          rw [List.length_cons] at hused
          obtain rfl := List.length_eq_zero_iff.1 (by omega : rest.length = 0)
          exact enters_singleByteEvent hsingle
      | none =>
          rw [hsingle] at h
          exact enters_decode h

/-! ## All keys -/

theorem origin_singleShift (b : UInt8) :
    Origin backspace bytes (ControlSequence.singleShiftEvent b) := by
  unfold ControlSequence.singleShiftEvent
  split
  · rename_i hkey
    have hmem := ControlSequence.cursorKey_eq_some_iff.1 hkey
    exact .named (ControlSequence.notMem_unlisted_of_cursorKeys hmem) unshifted_none
  · exact .invalid

theorem Form.origin (h : Form backspace bytes event) : Origin backspace bytes event := by
  cases h with
  | plain hkey => exact (enters_decodeKey hkey).plain
  | alt hkey => exact (enters_decodeKey hkey).alt
  | sequence hbody =>
      rcases ControlSequence.finished_of_decode hbody with
        rfl | ⟨final, run, p, hfinished, hvalue, hreported⟩
      · exact .invalid
      · exact .sequence (.intro hfinished) hvalue hreported
  | singleShift b => exact origin_singleShift b

theorem origin_of_resolution (h : resolution bytes = [event]) : Origin backspace bytes event := by
  unfold resolution at h
  split at h
  · cases h
  split at h
  · cases h
    exact (enters_function (by decide)).plain
  split at h
  · cases h
    exact .character (.inl (by decide)) unshifted_onlyAlt
  split at h
  · cases h
    exact .character (.inl (by decide)) unshifted_onlyAlt
  · cases h
    exact .invalid

theorem Provenance.origin {segment : Segment} (h : Provenance backspace segment) :
    Origin backspace segment.bytes segment.event := by
  cases h with
  | fed hcomplete => exact hcomplete.form.origin
  | flushed _ hresolution => exact origin_of_resolution hresolution

/-! ## What an origin says -/

theorem Unshifted.press {m : Modifiers} (h : Unshifted m) (key : Key) :
    Unshifted (KeyEvent.press key m).modifiers := by
  by_cases hkey : key = .function .invalid
  · subst hkey
    exact unshifted_none
  · rwa [KeyEvent.press_modifiers hkey]

theorem not_unshifted {m : Modifiers} (h : m.shift = true ∨ m.super = true) : ¬Unshifted m := by
  rintro ⟨hshift, hsuper⟩
  rw [hshift, hsuper] at h
  simp at h

/-- Shift and Super take a control sequence. -/
theorem Origin.exists_sequence (h : Origin backspace bytes event)
    (hmodifiers : event.modifiers.shift = true ∨ event.modifiers.super = true) :
    ∃ final run, Sequence final run bytes := by
  have hnot := not_unshifted hmodifiers
  cases h with
  | invalid => exact absurd unshifted_none hnot
  | erase => exact absurd unshifted_none hnot
  | altErase => exact absurd unshifted_onlyAlt hnot
  | named _ hm => exact absurd (hm.press _) hnot
  | character _ hm => exact absurd (hm.press _) hnot
  | sequence hsequence _ _ => exact ⟨_, _, hsequence⟩

/-- Only the extended form names other characters than visible ones. -/
theorem Origin.function_or_graphic (h : Origin backspace bytes event) (hnot : ¬Extended bytes) :
    (∃ key, event.key = .function key) ∨ ∃ c, event.key = .codepoint c ∧ Graphic c := by
  cases h with
  | invalid => exact .inl ⟨_, rfl⟩
  | erase => exact .inl ⟨_, rfl⟩
  | altErase => exact .inl ⟨_, rfl⟩
  | named => exact .inl ⟨_, KeyEvent.press_key _ _⟩
  | character hgraphic _ => exact .inr ⟨_, KeyEvent.press_key _ _, hgraphic⟩
  | sequence hsequence _ hreported =>
      cases hkey : event.key with
      | function key => exact .inl ⟨key, rfl⟩
      | codepoint c =>
          rw [hkey] at hreported
          obtain rfl := hreported.final_of_codepoint
          exact absurd ⟨_, hsequence⟩ hnot

theorem written_of_value {p : ControlSequence.Parameters} {run : Bytes} {n : Nat}
    (hvalue : ∀ i j, p.value i j = min (written run i j) ControlSequence.maxValue)
    (h : p.value 0 0 = n) (hlt : n < ControlSequence.maxValue) : written run 0 0 = n := by
  have hmin := hvalue 0 0
  omega

/-- Unless it is of the extended form, a marker of focus or paste is its own report. -/
theorem Origin.announces (h : Origin backspace bytes event) (hnot : ¬Extended bytes)
    {key : FunctionKey} (hkey : event.key = .function key) (hmem : key ∈ unlisted)
    (hne : key ≠ .backspace) : event.modifiers = .none ∧ Announces key bytes := by
  cases h with
  | invalid =>
      cases hkey
      exact absurd hmem (by decide)
  | erase =>
      cases hkey
      exact absurd rfl hne
  | altErase =>
      cases hkey
      exact absurd rfl hne
  | named hlisted _ =>
      rw [KeyEvent.press_key] at hkey
      cases hkey
      exact absurd hmem hlisted
  | character =>
      rw [KeyEvent.press_key] at hkey
      cases hkey
  | sequence hsequence hvalue hreported =>
      rw [hkey] at hreported
      generalize hmask : event.modifiers.mask = mask at hreported
      cases hreported with
      | cursor hcursor =>
          exact absurd hmem (ControlSequence.notMem_unlisted_of_cursorKeys hcursor)
      | keypad hkeypad =>
          exact absurd hmem (ControlSequence.notMem_unlisted_of_keypadKeys hkeypad)
      | focusIn => exact ⟨Modifiers.eq_none_of_mask hmask, .focusIn hsequence⟩
      | focusOut => exact ⟨Modifiers.eq_none_of_mask hmask, .focusOut hsequence⟩
      | pasteStart hnumber =>
          have hwritten := written_of_value hvalue hnumber (by decide)
          exact ⟨Modifiers.eq_none_of_mask hmask, .pasteStart hsequence hwritten⟩
      | pasteEnd hnumber =>
          have hwritten := written_of_value hvalue hnumber (by decide)
          exact ⟨Modifiers.eq_none_of_mask hmask, .pasteEnd hsequence hwritten⟩
      | extended => exact absurd ⟨_, hsequence⟩ hnot
      | nameless => exact absurd ⟨_, hsequence⟩ hnot
      | otherNumber => exact absurd hmem (by decide)
      | otherFinal => exact absurd hmem (by decide)

/-- The erase key is the erase character, unless the extended form names it. -/
theorem Origin.erases (h : Origin backspace bytes event)
    (hkey : event.key = .function .backspace) :
    Extended bytes ∨
      0x7f ≤ backspace.toNat ∧ (bytes = [backspace] ∨ bytes = [0x1b, backspace]) := by
  cases h with
  | invalid => cases hkey
  | erase hle => exact .inr ⟨hle, .inl rfl⟩
  | altErase hle => exact .inr ⟨hle, .inr rfl⟩
  | named hlisted _ =>
      rw [KeyEvent.press_key] at hkey
      cases hkey
      exact absurd (by decide) hlisted
  | character =>
      rw [KeyEvent.press_key] at hkey
      cases hkey
  | sequence hsequence _ hreported =>
      rw [hkey] at hreported
      generalize event.modifiers.mask = mask at hreported
      cases hreported with
      | cursor hcursor =>
          exact absurd (by decide) (ControlSequence.notMem_unlisted_of_cursorKeys hcursor)
      | keypad hkeypad =>
          exact absurd (by decide) (ControlSequence.notMem_unlisted_of_keypadKeys hkeypad)
      | extended => exact .inl ⟨_, hsequence⟩

/-- In any run, invalid input has no modifiers and takes none. Shift and Super come from control
sequences only. What is not of the extended form is a function key or a visible character; a
marker of focus or paste has no modifiers there, and is the report of that marker. The erase key is
the erase character from DEL on, alone or behind an escape, or comes from the extended form. -/
theorem event_origins (backspace : UInt8) (calls : List Call) :
    ∀ segment ∈ ((new backspace).run calls).1,
      let event := segment.event
      let bytes := segment.bytes
      (event.key = .function .invalid →
        event.modifiers = .none ∧
          ∀ chain : List Modifiers, chain.foldl KeyEvent.withModifiers event = .invalid) ∧
      ((event.modifiers.shift = true ∨ event.modifiers.super = true) →
        ∃ final run, Sequence final run bytes) ∧
      (¬Extended bytes →
        (∃ key, event.key = .function key) ∨
          ∃ c, event.key = .codepoint c ∧
            ((0x21 ≤ c.toNat ∧ c.toNat ≤ 0x7e) ∨ 0x80 ≤ c.toNat)) ∧
      (¬Extended bytes →
        ∀ marker ∈ [FunctionKey.focusIn, .focusOut, .pasteStart, .pasteEnd],
          event.key = .function marker → event.modifiers = .none ∧ Announces marker bytes) ∧
      (event.key = .function .backspace →
        Extended bytes ∨
          0x7f ≤ backspace.toNat ∧ (bytes = [backspace] ∨ bytes = [0x1b, backspace])) := by
  intro segment hmem event bytes
  have horigin : Origin backspace bytes event :=
    (provenance_run backspace calls segment hmem).origin
  refine ⟨?_, horigin.exists_sequence, horigin.function_or_graphic, ?_, horigin.erases⟩
  · intro hinvalid
    have hevent : event = .invalid := KeyEvent.eq_invalid_of_key hinvalid
    rw [hevent]
    exact ⟨rfl, KeyEvent.foldl_withModifiers_invalid⟩
  · intro hnot marker hmarker hkey
    refine horigin.announces hnot hkey (List.mem_cons_of_mem _ hmarker) ?_
    rintro rfl
    exact absurd hmarker (by decide)

/-- The start of a paste that comes in two chunks, with a modifier word for Shift. -/
theorem origin_of_pasteStart :
    let segment : Segment :=
      ⟨[0x1b, 0x5b, 0x32, 0x30, 0x30, 0x3b, 0x32, 0x7e], .function .pasteStart, false⟩
    segment ∈ ((new 0x7f).run
        [.feed [0x1b, 0x5b, 0x32, 0x30], .feed [0x30, 0x3b, 0x32, 0x7e, 0x7f]]).1 ∧
      ¬Extended segment.bytes ∧ segment.event.modifiers = .none ∧
      Announces .pasteStart segment.bytes := by
  intro segment
  have hmem : segment ∈ ((new 0x7f).run
      [.feed [0x1b, 0x5b, 0x32, 0x30], .feed [0x30, 0x3b, 0x32, 0x7e, 0x7f]]).1 := by
    decide +kernel
  have hnot : ¬Extended segment.bytes := by
    rintro ⟨run, hsequence⟩
    exact absurd hsequence.getLast?_eq (by decide)
  obtain ⟨_, _, _, hmarker, _⟩ := event_origins 0x7f _ segment hmem
  obtain ⟨hnone, hannounces⟩ := hmarker hnot .pasteStart (by decide) rfl
  exact ⟨hmem, hnot, hnone, hannounces⟩

end Decoder

end Keystroke
