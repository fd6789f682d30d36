import Keystroke.KeyEvent
import Mathlib.Data.List.Nodup

/-! # Texts of keys

Every key event has a text of its own. It consists of visible characters: a mark for
each modifier, which is a letter and a hyphen, and then a character, its number in
hexadecimal or the name of a function key. None of these has a hyphen in second
place, so the marks end where the key begins.
-/

namespace Keystroke

/-! ## Numbers in hexadecimal -/

theorem digitChar_inj {m n : Nat} (hm : m < 16) (hn : n < 16)
    (h : m.digitChar = n.digitChar) : m = n := by
  have hall : ∀ i : Fin 16, ∀ j : Fin 16, i.val.digitChar = j.val.digitChar → i = j := by decide
  exact congrArg Fin.val (hall ⟨m, hm⟩ ⟨n, hn⟩ h)

theorem toDigits_injective : Function.Injective (Nat.toDigits 16) := by
  intro m n h
  induction m using Nat.strongRecOn generalizing n with
  | ind m ih =>
      rw [Nat.toDigits_eq_if (by decide), Nat.toDigits_eq_if (n := n) (by decide)] at h
      split at h
      · rename_i hm
        split at h
        · rename_i hn
          exact digitChar_inj hm hn (List.singleton_inj.1 h)
        · have hnil := (List.append_singleton_inj.1 (h.symm.trans (List.nil_append _).symm)).1
          exact absurd hnil Nat.toDigits_ne_nil
      · rename_i hm
        split at h
        · have hnil := (List.append_singleton_inj.1 (h.trans (List.nil_append _).symm)).1
          exact absurd hnil Nat.toDigits_ne_nil
        · obtain ⟨hdigits, hlast⟩ := List.append_singleton_inj.1 h
          have hquotient : m / 16 = n / 16 := ih (m / 16) (by omega) hdigits
          have hremainder : m % 16 = n % 16 :=
            digitChar_inj (Nat.mod_lt m (by decide)) (Nat.mod_lt n (by decide)) hlast
          omega

theorem exists_of_mem_toDigits {n : Nat} {c : Char} (h : c ∈ Nat.toDigits 16 n) :
    ∃ d < 16, c = d.digitChar := by
  induction n using Nat.strongRecOn with
  | ind n ih =>
      rw [Nat.toDigits_eq_if (by decide)] at h
      split at h
      · rename_i hn
        exact ⟨n, hn, List.mem_singleton.1 h⟩
      · rcases List.mem_append.1 h with hfront | hlast
        · exact ih (n / 16) (by omega) hfront
        · exact ⟨n % 16, Nat.mod_lt n (by decide), List.mem_singleton.1 hlast⟩

theorem toList_hexText (n : Nat) : (hexText n).toList = '0' :: 'x' :: Nat.toDigits 16 n := by
  simp [hexText]

theorem hexText_injective : Function.Injective hexText := by
  intro m n h
  have hlist := congrArg String.toList h
  rw [toList_hexText, toList_hexText] at hlist
  exact toDigits_injective (List.cons.inj (List.cons.inj hlist).2).2

/-! ## Visible texts -/

/-- A text that is there, and all of it to be seen. -/
structure Visible (text : String) : Prop where
  ne_nil : text.toList ≠ []
  all : ∀ c ∈ text.toList, Key.isVisible c = true

theorem visible_hexText (n : Nat) : Visible (hexText n) := by
  refine ⟨by simp [toList_hexText], ?_⟩
  have hdigit : ∀ d : Fin 16, Key.isVisible d.val.digitChar = true := by decide
  simp only [toList_hexText, List.mem_cons]
  rintro c (rfl | rfl | hc)
  · rfl
  · rfl
  · obtain ⟨d, hd, rfl⟩ := exists_of_mem_toDigits hc
    exact hdigit ⟨d, hd⟩

namespace FunctionKey

theorem mem_all (key : FunctionKey) : key ∈ all := by
  cases key <;> decide

theorem name_injective : Function.Injective name := by
  intro key other h
  have hnodup : (all.map name).Nodup := by decide +kernel
  exact List.inj_on_of_nodup_map hnodup (mem_all key) (mem_all other) h

/-- A name is a word of at least two letters; it is no number and has no hyphen. -/
theorem name_cons (key : FunctionKey) :
    ∃ c d rest, key.name.toList = c :: d :: rest ∧ c ≠ '0' ∧ d ≠ '-' := by
  cases key <;> exact ⟨_, _, _, rfl, by decide, by decide⟩

theorem visible_name (key : FunctionKey) : Visible key.name := by
  obtain ⟨c, d, rest, hname, _, _⟩ := key.name_cons
  refine ⟨by simp [hname], List.all_eq_true.1 ?_⟩
  cases key <;> decide +kernel

end FunctionKey

namespace Key

theorem text_of_visible {c : Char} (h : isVisible c = true) :
    (codepoint c).text = String.singleton c :=
  if_pos h

theorem text_of_hidden {c : Char} (h : ¬isVisible c = true) :
    (codepoint c).text = hexText c.toNat :=
  if_neg h

theorem singleton_ne {c a b : Char} {rest : List Char} {text : String}
    (h : text.toList = a :: b :: rest) : String.singleton c ≠ text := by
  rintro rfl
  simp at h

theorem hexText_ne_name (n : Nat) (key : FunctionKey) : hexText n ≠ key.name := by
  intro h
  obtain ⟨c, d, rest, hname, hc, _⟩ := key.name_cons
  rw [← h, toList_hexText] at hname
  exact hc (List.cons.inj hname).1.symm

theorem text_codepoint_ne (c : Char) (key : FunctionKey) :
    (codepoint c).text ≠ (function key).text := by
  obtain ⟨a, b, rest, hname, _, _⟩ := key.name_cons
  by_cases hc : isVisible c = true
  · rw [text_of_visible hc]
    exact singleton_ne hname
  · rw [text_of_hidden hc]
    exact hexText_ne_name c.toNat key

theorem text_codepoint_inj {c d : Char} (h : (codepoint c).text = (codepoint d).text) : c = d := by
  by_cases hc : isVisible c = true <;> by_cases hd : isVisible d = true
  · rw [text_of_visible hc, text_of_visible hd] at h
    simpa using congrArg String.toList h
  · rw [text_of_visible hc, text_of_hidden hd] at h
    exact absurd h (singleton_ne (toList_hexText d.toNat))
  · rw [text_of_hidden hc, text_of_visible hd] at h
    exact absurd h.symm (singleton_ne (toList_hexText c.toNat))
  · rw [text_of_hidden hc, text_of_hidden hd] at h
    exact Char.toNat_inj.1 (hexText_injective h)

theorem text_injective : Function.Injective text := by
  intro key other h
  cases key with
  | codepoint c =>
      cases other with
      | codepoint d => rw [text_codepoint_inj h]
      | function other => exact absurd h (text_codepoint_ne c other)
  | function key =>
      cases other with
      | codepoint d => exact absurd h.symm (text_codepoint_ne d key)
      | function other => rw [FunctionKey.name_injective h]

theorem visible_text (key : Key) : Visible key.text := by
  cases key with
  | codepoint c =>
      by_cases hc : isVisible c = true
      · rw [text_of_visible hc]
        exact ⟨by simp, by simpa using hc⟩
      · rw [text_of_hidden hc]
        exact visible_hexText c.toNat
  | function key => exact key.visible_name

/-- No key has a hyphen in second place. -/
theorem text_second (key : Key) (a : Char) (rest : List Char) :
    key.text.toList ≠ a :: '-' :: rest := by
  intro h
  cases key with
  | codepoint c =>
      by_cases hc : isVisible c = true
      · rw [text_of_visible hc] at h
        simp at h
      · rw [text_of_hidden hc, toList_hexText] at h
        simp at h
  | function key =>
      obtain ⟨c, d, others, hname, _, hd⟩ := key.name_cons
      rw [text, hname] at h
      exact hd (List.cons.inj (List.cons.inj h).2).1

end Key

/-! ## Modifiers in front of a key -/

/-- The mark of a modifier that may be held. -/
def mark (letter : Char) (held : Bool) : List Char :=
  if held then [letter, '-'] else []

/-- A text that does not begin with the mark. -/
def Unmarked (letter : Char) (text : List Char) : Prop :=
  ∀ rest, text ≠ letter :: '-' :: rest

theorem Unmarked.mark_append {letter other : Char} {text : List Char} (h : Unmarked letter text)
    (hne : other ≠ letter) (held : Bool) : Unmarked letter (mark other held ++ text) := by
  cases held with
  | false => exact h
  | true =>
      intro rest heq
      exact hne (List.cons.inj heq).1

theorem mark_append_inj {letter : Char} {held held' : Bool} {text text' : List Char}
    (htext : Unmarked letter text) (htext' : Unmarked letter text')
    (h : mark letter held ++ text = mark letter held' ++ text') : held = held' ∧ text = text' := by
  cases held with
  | false =>
      cases held' with
      | false => exact ⟨rfl, h⟩
      | true => exact absurd h (htext text')
  | true =>
      cases held' with
      | false => exact absurd h.symm (htext' text)
      | true => exact ⟨rfl, (List.cons.inj (List.cons.inj h).2).2⟩

theorem isVisible_of_mem_mark {letter c : Char} {held : Bool} (h : Key.isVisible letter = true)
    (hc : c ∈ mark letter held) : Key.isVisible c = true := by
  cases held with
  | false => cases hc
  | true =>
      rcases List.mem_cons.1 hc with rfl | hc
      · exact h
      · rw [List.mem_singleton.1 hc]
        rfl

/-- The marks of modifiers, one behind the other. -/
def marks (held : Char → Bool) (letters : List Char) : List Char :=
  letters.flatMap fun letter => mark letter (held letter)

theorem marks_cons_append (held : Char → Bool) (letter : Char) (letters text : List Char) :
    marks held (letter :: letters) ++ text =
      mark letter (held letter) ++ (marks held letters ++ text) := by
  rw [marks, List.flatMap_cons, List.append_assoc]
  rfl

theorem Unmarked.marks_append {letter : Char} {letters text : List Char} (h : Unmarked letter text)
    (hletters : letter ∉ letters) (held : Char → Bool) :
    Unmarked letter (marks held letters ++ text) := by
  induction letters with
  | nil => exact h
  | cons other letters ih =>
      rw [List.mem_cons, not_or] at hletters
      rw [marks_cons_append]
      exact (ih hletters.2).mark_append (Ne.symm hletters.1) _

/-- Which marks stand in front of a text can be read off, if no letter comes twice. -/
theorem marks_append_inj {letters text text' : List Char} {held held' : Char → Bool}
    (hletters : letters.Nodup) (htext : ∀ letter, Unmarked letter text)
    (htext' : ∀ letter, Unmarked letter text')
    (h : marks held letters ++ text = marks held' letters ++ text') :
    (∀ letter ∈ letters, held letter = held' letter) ∧ text = text' := by
  induction letters with
  | nil => exact ⟨fun _ hmem => absurd hmem List.not_mem_nil, h⟩
  | cons letter letters ih =>
      rw [List.nodup_cons] at hletters
      rw [marks_cons_append, marks_cons_append] at h
      obtain ⟨hsame, hrest⟩ := mark_append_inj ((htext letter).marks_append hletters.1 held)
        ((htext' letter).marks_append hletters.1 held') h
      obtain ⟨hothers, htexts⟩ := ih hletters.2 hrest
      exact ⟨List.forall_mem_cons.2 ⟨hsame, hothers⟩, htexts⟩

/-- Whether the modifier with a letter is held. -/
def Modifiers.holds (modifiers : Modifiers) : Char → Bool
  | 's' => modifiers.super
  | 'C' => modifiers.ctrl
  | 'A' => modifiers.alt
  | 'S' => modifiers.shift
  | _ => false

/-- The letters of modifiers in the order of their marks. -/
def Modifiers.letters : List Char := ['s', 'C', 'A', 'S']

theorem Modifiers.ext_of_holds {modifiers others : Modifiers}
    (h : ∀ letter ∈ letters, modifiers.holds letter = others.holds letter) :
    modifiers = others := by
  obtain ⟨shift, alt, ctrl, super⟩ := modifiers
  obtain ⟨shift', alt', ctrl', super'⟩ := others
  have hsuper : super = super' := h 's' (by decide)
  have hctrl : ctrl = ctrl' := h 'C' (by decide)
  have halt : alt = alt' := h 'A' (by decide)
  have hshift : shift = shift' := h 'S' (by decide)
  rw [hsuper, hctrl, halt, hshift]

namespace KeyEvent

theorem toList_text (event : KeyEvent) :
    event.text.toList = marks event.modifiers.holds Modifiers.letters ++ event.key.text.toList := by
  obtain ⟨key, ⟨shift, alt, ctrl, super⟩, _⟩ := event
  cases shift <;> cases alt <;> cases ctrl <;> cases super <;>
    simp [text, Modifiers.text, marks, mark, Modifiers.letters, Modifiers.holds]

theorem ext_of_eq {event other : KeyEvent} (hkey : event.key = other.key)
    (hmodifiers : event.modifiers = other.modifiers) : event = other := by
  obtain ⟨key, modifiers, _⟩ := event
  cases hkey
  cases hmodifiers
  rfl

theorem text_injective : Function.Injective text := by
  intro event other h
  have hlist := congrArg String.toList h
  have hkeys : ∀ (key : Key) (letter : Char), Unmarked letter key.text.toList :=
    fun key letter rest => key.text_second letter rest
  rw [toList_text, toList_text] at hlist
  obtain ⟨hholds, hkey⟩ := marks_append_inj (by decide) (hkeys event.key) (hkeys other.key) hlist
  exact ext_of_eq (Key.text_injective (String.toList_inj.1 hkey)) (Modifiers.ext_of_holds hholds)

theorem visible_text (event : KeyEvent) : Visible event.text := by
  have hletters : ∀ letter ∈ Modifiers.letters, Key.isVisible letter = true :=
    List.all_eq_true.1 (by decide)
  obtain ⟨hne, hall⟩ := event.key.visible_text
  refine ⟨by simp [toList_text, hne], fun c hc => ?_⟩
  rw [toList_text] at hc
  rcases List.mem_append.1 hc with hmarks | hkey
  · obtain ⟨letter, hletter, hmark⟩ := List.mem_flatMap.1 hmarks
    exact isVisible_of_mem_mark (hletters letter hletter) hmark
  · exact hall c hkey

end KeyEvent

end Keystroke
