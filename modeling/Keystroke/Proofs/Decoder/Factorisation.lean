import Keystroke.Proofs.Decoder.Run

/-! # Complete sequences

The byte strings that are one key by themselves form a prefix-free code. Any
input is cut into such strings and an undecided tail in exactly one way, and the
decoder finds it: what a string decodes to depends on nothing in front of it or
behind it.
-/

namespace Keystroke.Decoder

/-- The keys that a fresh decoder finds in the bytes. -/
def events (backspace : UInt8) (bytes : Bytes) : List KeyEvent :=
  ((new backspace).feed bytes).1.map Segment.event

/-- What a fresh decoder holds back of the bytes. -/
def held (backspace : UInt8) (bytes : Bytes) : Bytes :=
  ((new backspace).feed bytes).2.pending

/-- The bytes are one key, and become one only with the last of them. -/
structure Complete (backspace : UInt8) (code : Bytes) (event : KeyEvent) : Prop where
  events_eq : events backspace code = [event]
  held_eq : held backspace code = []
  minimal : ∀ start, start <+: code → start ≠ code → events backspace start = []

/-- No start of the bytes is a key. -/
def Undecided (backspace : UInt8) (tail : Bytes) : Prop :=
  ∀ start, start <+: tail → events backspace start = []

structure Factorisation (backspace : UInt8) (bytes : Bytes) (keys : List (Bytes × KeyEvent))
    (tail : Bytes) : Prop where
  covers : (keys.map Prod.fst).flatten ++ tail = bytes
  complete : ∀ key ∈ keys, Complete backspace key.1 key.2
  undecided : Undecided backspace tail

theorem events_eq_scan (backspace : UInt8) (bytes : Bytes) :
    events backspace bytes = (scan backspace false bytes).1.map Segment.event := rfl

theorem held_eq_scan (backspace : UInt8) (bytes : Bytes) :
    held backspace bytes = (scan backspace false bytes).2 := rfl

theorem events_of_incomplete {backspace : UInt8} {bytes : Bytes}
    (h : decodeOne backspace false bytes = .incomplete) : events backspace bytes = [] := by
  rw [events_eq_scan, scan_of_incomplete h]
  rfl

theorem events_of_key {backspace : UInt8} {bytes : Bytes} {event : KeyEvent} {used : Nat}
    (h : decodeOne backspace false bytes = .key event used) :
    events backspace bytes = event :: events backspace (bytes.drop used) := by
  rw [events_eq_scan, scan_of_key h]
  rfl

theorem incomplete_of_events {backspace : UInt8} {bytes : Bytes} (h : events backspace bytes = []) :
    decodeOne backspace false bytes = .incomplete := by
  cases hs : decodeOne backspace false bytes with
  | key event used =>
      rw [events_of_key hs] at h
      cases h
  | incomplete => rfl

theorem undecided_iff {backspace : UInt8} {tail : Bytes} :
    Undecided backspace tail ↔ decodeOne backspace false tail = .incomplete := by
  constructor
  · intro h
    exact incomplete_of_events (h tail (List.prefix_refl tail))
  · intro h start hstart
    obtain ⟨more, rfl⟩ := hstart
    cases hs : decodeOne backspace false start with
    | key event used =>
        rw [decodeOne_append hs more] at h
        cases h
    | incomplete => exact events_of_incomplete hs

/-- The complete strings are those that decide a key and give all their bytes to it. -/
theorem complete_iff {backspace : UInt8} {code : Bytes} {event : KeyEvent} :
    Complete backspace code event ↔
      decodeOne backspace false code = .key event code.length := by
  constructor
  · intro h
    cases hs : decodeOne backspace false code with
    | incomplete =>
        have hnone := h.events_eq
        rw [events_of_incomplete hs] at hnone
        cases hnone
    | key event' used =>
        have hone := h.events_eq
        rw [events_of_key hs, List.cons.injEq] at hone
        -- The bytes that the key takes decide it already, so they cannot fall short.
        have hstart : decodeOne backspace false (code.take used) = .key event' used := by
          rw [decodeOne_take hs, if_pos (Nat.le_refl used)]
        have hall : code.take used = code := by
          by_cases heq : code.take used = code
          · exact heq
          · have hnone := h.minimal (code.take used) (List.take_prefix used code) heq
            rw [events_of_key hstart] at hnone
            cases hnone
        have hlen := congrArg List.length hall
        rw [List.length_take] at hlen
        have hle := (decodeOne_le hs).2
        rw [hone.1, show used = code.length by omega]
  · intro h
    refine ⟨?_, ?_, ?_⟩
    · rw [events_of_key h, List.drop_length, events_of_incomplete rfl]
    · rw [held_eq_scan, scan_of_key h, List.drop_length, scan_nil]
    · intro start hstart hne
      have hlt : start.length < code.length := by
        have hle := hstart.length_le
        have hlen : start.length ≠ code.length := fun hlen => hne (hstart.eq_of_length hlen)
        omega
      have htake := decodeOne_take h start.length
      rw [← List.prefix_iff_eq_take.1 hstart, if_neg (by omega)] at htake
      exact events_of_incomplete htake

theorem Complete.ne_nil {backspace : UInt8} {code : Bytes} {event : KeyEvent}
    (h : Complete backspace code event) : code ≠ [] := by
  rintro rfl
  cases complete_iff.1 h

theorem Complete.append {backspace : UInt8} {code : Bytes} {event : KeyEvent}
    (h : Complete backspace code event) (more : Bytes) :
    decodeOne backspace false (code ++ more) = .key event code.length :=
  decodeOne_append (complete_iff.1 h) more

theorem Complete.eq_of_start {backspace : UInt8} {code code' : Bytes} {event event' : KeyEvent}
    (h : Complete backspace code event) (h' : Complete backspace code' event')
    (hstart : code <+: code') : code = code' ∧ event = event' := by
  obtain ⟨more, rfl⟩ := hstart
  have hkey := h.append more
  rw [complete_iff.1 h'] at hkey
  have hlen : (code ++ more).length = code.length := by injection hkey
  have hmore : more = [] := by
    rw [List.length_append] at hlen
    exact List.length_eq_zero_iff.1 (by omega)
  rw [hmore, List.append_nil]
  exact ⟨rfl, by injection hkey with hevent; exact hevent.symm⟩

/-- A factorisation is what a scan finds. -/
theorem Factorisation.scan_eq {backspace : UInt8} {bytes tail : Bytes}
    {keys : List (Bytes × KeyEvent)} (h : Factorisation backspace bytes keys tail) :
    scan backspace false bytes = (keys.map fun key => ⟨key.1, key.2, false⟩, tail) := by
  induction keys generalizing bytes with
  | nil =>
      have hbytes : tail = bytes := h.covers
      rw [← hbytes, scan_of_incomplete (undecided_iff.1 h.undecided)]
      rfl
  | cons key keys ih =>
      have hbytes := h.covers
      rw [List.map_cons, List.flatten_cons, List.append_assoc] at hbytes
      have hkey := (h.complete key List.mem_cons_self).append ((keys.map Prod.fst).flatten ++ tail)
      have hrest := ih ⟨rfl, fun k hk => h.complete k (List.mem_cons_of_mem key hk), h.undecided⟩
      rw [← hbytes, scan_of_key hkey, List.take_left, List.drop_left, hrest]
      rfl

/-- Complete strings in a row are their keys in order. -/
theorem feed_complete {backspace : UInt8} {keys : List (Bytes × KeyEvent)}
    (h : ∀ key ∈ keys, Complete backspace key.1 key.2) :
    (new backspace).feed (keys.map Prod.fst).flatten =
      (keys.map fun key => ⟨key.1, key.2, false⟩, new backspace) := by
  have hscan : scan backspace false (keys.map Prod.fst).flatten = _ :=
    Factorisation.scan_eq ⟨List.append_nil _, h, undecided_iff.2 rfl⟩
  rw [feed_eq]
  change ((scan backspace false (keys.map Prod.fst).flatten).1,
    Decoder.mk backspace (scan backspace false (keys.map Prod.fst).flatten).2) = _
  rw [hscan]
  rfl

theorem factorisation_scan (backspace : UInt8) (bytes : Bytes) :
    Factorisation backspace bytes
      ((scan backspace false bytes).1.map fun segment => (segment.bytes, segment.event))
      (scan backspace false bytes).2 := by
  induction bytes using scan_induction backspace with
  | key bytes event used h ih =>
      have hle := (decodeOne_le h).2
      have hcomplete : Complete backspace (bytes.take used) event := by
        rw [complete_iff, decodeOne_take h, if_pos (Nat.le_refl used), List.length_take,
          Nat.min_eq_left hle]
      rw [scan_of_key h]
      refine ⟨?_, ?_, ih.undecided⟩
      · rw [List.map_cons, List.map_cons, List.flatten_cons, List.append_assoc, ih.covers]
        exact List.take_append_drop used bytes
      · intro key hmem
        rcases List.mem_cons.1 hmem with rfl | hmem
        · exact hcomplete
        · exact ih.complete key hmem
  | incomplete bytes h =>
      rw [scan_of_incomplete h]
      refine ⟨rfl, ?_, undecided_iff.2 h⟩
      intro key hmem
      cases hmem

theorem events_append_complete {backspace : UInt8} {before code after : Bytes} {event : KeyEvent}
    (hbefore : held backspace before = []) (hcode : Complete backspace code event) :
    events backspace (before ++ code ++ after) =
      events backspace before ++ event :: events backspace after := by
  rw [held_eq_scan] at hbefore
  rw [events_eq_scan, List.append_assoc, scan_append, hbefore, List.nil_append, List.map_append,
    ← events_eq_scan, ← events_eq_scan, events_of_key (hcode.append after), List.drop_left]

/-- The complete strings are not empty and none is a proper start of another. Every input is
complete strings and an undecided tail in one way only, and the decoder answers with their keys
and holds back the tail. Where nothing is held back, a complete string is its key whatever came
before it and whatever follows. -/
theorem existsUnique_factorisation (backspace : UInt8) :
    (∀ code event, Complete backspace code event → code ≠ []) ∧
    (∀ code event code' event', Complete backspace code event → Complete backspace code' event' →
      code <+: code' → code = code' ∧ event = event') ∧
    (∀ bytes, ∃ keys tail, Factorisation backspace bytes keys tail ∧
      (∀ keys' tail', Factorisation backspace bytes keys' tail' → keys' = keys ∧ tail' = tail) ∧
      events backspace bytes = keys.map Prod.snd ∧ held backspace bytes = tail) ∧
    (∀ before code after event, held backspace before = [] → Complete backspace code event →
      events backspace (before ++ code ++ after) =
        events backspace before ++ event :: events backspace after) := by
  refine ⟨?_, ?_, ?_, ?_⟩
  · intro code event h
    exact h.ne_nil
  · intro code event code' event' h h' hstart
    exact h.eq_of_start h' hstart
  · intro bytes
    have hscan := factorisation_scan backspace bytes
    refine ⟨_, _, hscan, ?_, ?_, rfl⟩
    · intro keys' tail' h
      rw [h.scan_eq, List.map_map]
      exact ⟨(List.map_id keys').symm, rfl⟩
    · rw [events_eq_scan, List.map_map]
      rfl
  · intro before code after event hbefore hcode
    exact events_append_complete hbefore hcode

/-- A malformed control sequence is complete with the byte that breaks it off. -/
theorem events_around_malformed_sequence :
    Complete 0x7f [0x1b, 0x5b, 0x31, 0x3f] .invalid ∧ held 0x7f [0x61] = [] ∧
      events 0x7f ([0x61] ++ [0x1b, 0x5b, 0x31, 0x3f] ++ [0x41]) =
        events 0x7f [0x61] ++ .invalid :: events 0x7f [0x41] :=
  have hcode : Complete 0x7f [0x1b, 0x5b, 0x31, 0x3f] .invalid := complete_iff.2 rfl
  have ha : Complete 0x7f [0x61] (.character 'a') := complete_iff.2 rfl
  ⟨hcode, ha.held_eq, (existsUnique_factorisation 0x7f).2.2.2 _ _ _ _ ha.held_eq hcode⟩

end Keystroke.Decoder
