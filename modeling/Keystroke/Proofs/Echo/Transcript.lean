import Keystroke.Proofs.Echo.Printing
import Keystroke.Proofs.Key.Text

/-! # Transcripts

The text that an echo writes can be read in one way only. Items of a list contain no
blank, so the blank behind a comma ends an item even if the item has commas of its
own. Lines contain no carriage return, and their first letter tells the two kinds of
lines apart.
-/

namespace Keystroke.Echo

open Decoder (Bytes)

/-- What stands in front of the first separator, and what behind it. -/
theorem append_cons_inj {separator : Char} {front front' rest rest' : List Char}
    (hfront : separator ∉ front) (hfront' : separator ∉ front')
    (h : front ++ separator :: rest = front' ++ separator :: rest') :
    front = front' ∧ rest = rest' := by
  induction front generalizing front' with
  | nil =>
      cases front' with
      | nil => exact ⟨rfl, (List.cons.inj h).2⟩
      | cons c front' =>
          have hc : separator = c := (List.cons.inj h).1
          exact absurd (hc ▸ List.mem_cons_self) hfront'
  | cons c front ih =>
      cases front' with
      | nil =>
          have hc : c = separator := (List.cons.inj h).1
          exact absurd (hc ▸ List.mem_cons_self) hfront
      | cons d front' =>
          obtain ⟨rfl, htail⟩ := List.cons.inj h
          rw [List.mem_cons, not_or] at hfront hfront'
          obtain ⟨rfl, hrest⟩ := ih hfront.2 hfront'.2 htail
          exact ⟨rfl, hrest⟩

/-! ## Lists -/

theorem joined_cons_cons (item next : String) (items : List String) :
    joined (item :: next :: items) = (item.toList ++ [',']) ++ ' ' :: joined (next :: items) := by
  simp [joined, List.intercalate_cons_cons]

theorem joined_singleton (item : String) : joined [item] = item.toList :=
  List.intercalate_singleton

theorem blank_notMem {item : String} (h : Visible item) : ' ' ∉ item.toList :=
  fun hmem => absurd (h.all ' ' hmem) (by decide)

theorem blank_notMem_comma {item : String} (h : Visible item) : ' ' ∉ item.toList ++ [','] := by
  simpa using blank_notMem h

theorem blank_mem_joined (item next : String) (items : List String) :
    ' ' ∈ joined (item :: next :: items) := by
  rw [joined_cons_cons]
  exact List.mem_append_right _ List.mem_cons_self

theorem joined_ne_nil {item : String} (h : Visible item) (items : List String) :
    joined (item :: items) ≠ [] := by
  cases items with
  | nil =>
      rw [joined_singleton]
      exact h.ne_nil
  | cons next items => exact List.ne_nil_of_mem (blank_mem_joined item next items)

/-- Visible items can be read off a list. -/
theorem joined_inj {items others : List String} (hitems : ∀ item ∈ items, Visible item)
    (hothers : ∀ item ∈ others, Visible item) (h : joined items = joined others) :
    items = others := by
  induction items generalizing others with
  | nil =>
      cases others with
      | nil => rfl
      | cons other others =>
          rw [List.forall_mem_cons] at hothers
          exact absurd h.symm (joined_ne_nil hothers.1 others)
  | cons item items ih =>
      rw [List.forall_mem_cons] at hitems
      cases others with
      | nil => exact absurd h (joined_ne_nil hitems.1 items)
      | cons other others =>
          rw [List.forall_mem_cons] at hothers
          cases items with
          | nil =>
              rw [joined_singleton] at h
              cases others with
              | nil =>
                  rw [joined_singleton] at h
                  rw [String.toList_inj.1 h]
              | cons next others =>
                  exact absurd (h ▸ blank_mem_joined other next others) (blank_notMem hitems.1)
          | cons next items =>
              cases others with
              | nil =>
                  rw [joined_singleton] at h
                  exact absurd (h ▸ blank_mem_joined item next items) (blank_notMem hothers.1)
              | cons next' others =>
                  rw [joined_cons_cons, joined_cons_cons] at h
                  obtain ⟨hitem, hrest⟩ := append_cons_inj (blank_notMem_comma hitems.1)
                    (blank_notMem_comma hothers.1) h
                  rw [String.toList_inj.1 (List.append_left_inj [','] |>.1 hitem),
                    ih hitems.2 hothers.2 hrest]

theorem listText_inj {items others : List String} (hitems : ∀ item ∈ items, Visible item)
    (hothers : ∀ item ∈ others, Visible item) (h : listText items = listText others) :
    items = others := by
  have hlist := congrArg String.toList h
  rw [toList_listText, toList_listText] at hlist
  exact joined_inj hitems hothers (List.append_left_inj [']'] |>.1 (List.cons.inj hlist).2)

theorem visible_bytes (bytes : Bytes) :
    ∀ item ∈ bytes.map (fun b => hexText b.toNat), Visible item := by
  intro item hitem
  obtain ⟨b, _, rfl⟩ := List.mem_map.1 hitem
  exact visible_hexText b.toNat

theorem visible_events (events : List KeyEvent) :
    ∀ item ∈ events.map KeyEvent.text, Visible item := by
  intro item hitem
  obtain ⟨event, _, rfl⟩ := List.mem_map.1 hitem
  exact event.visible_text

theorem bytesText_injective : Function.Injective bytesText := by
  intro bytes others h
  have hcode : Function.Injective fun b : UInt8 => hexText b.toNat :=
    fun b c hbc => UInt8.toNat_inj.1 (hexText_injective hbc)
  exact hcode.list_map (listText_inj (visible_bytes bytes) (visible_bytes others) h)

theorem eventsText_injective : Function.Injective eventsText := by
  intro events others h
  exact KeyEvent.text_injective.list_map
    (listText_inj (visible_events events) (visible_events others) h)

/-! ## Lines -/

theorem mem_joined {items : List String} (hitems : ∀ item ∈ items, Visible item) :
    ∀ c ∈ joined items, Key.isVisible c = true ∨ c = ' ' := by
  induction items with
  | nil => exact List.forall_mem_nil _
  | cons item items ih =>
      rw [List.forall_mem_cons] at hitems
      cases items with
      | nil =>
          rw [joined_singleton]
          exact fun c hc => .inl (hitems.1.all c hc)
      | cons next items =>
          rw [joined_cons_cons]
          simp only [List.mem_append, List.mem_cons, List.not_mem_nil, or_false]
          rintro c ((hc | rfl) | rfl | hc)
          · exact .inl (hitems.1.all c hc)
          · exact .inl rfl
          · exact .inr rfl
          · exact ih hitems.2 c hc

/-- No line ends within a list. -/
theorem return_notMem_listText {items : List String} (hitems : ∀ item ∈ items, Visible item) :
    '\r' ∉ (listText items).toList := by
  rw [toList_listText]
  simp only [List.mem_cons, List.mem_append, List.not_mem_nil, or_false]
  rintro (h | h | h)
  · cases h
  · rcases mem_joined hitems '\r' h with hvisible | hblank
    · exact absurd hvisible (by decide)
    · cases hblank
  · cases h

theorem ascii_of_all {text : List Char} (h : text.all (fun c => decide (c.toNat < 128)) = true) :
    ∀ c ∈ text, c.toNat < 128 :=
  fun c hc => of_decide_eq_true (List.all_eq_true.1 h c hc)

theorem ascii_of_isVisible {c : Char} (h : Key.isVisible c = true) : c.toNat < 128 := by
  have hrange := of_decide_eq_true h
  omega

theorem ascii_listText {items : List String} (hitems : ∀ item ∈ items, Visible item) :
    ∀ c ∈ (listText items).toList, c.toNat < 128 := by
  rw [toList_listText]
  simp only [List.mem_cons, List.mem_append, List.not_mem_nil, or_false]
  rintro c (rfl | hc | rfl)
  · decide
  · rcases mem_joined hitems c hc with hvisible | rfl
    · exact ascii_of_isVisible hvisible
    · decide
  · decide

theorem ascii_inputLine (bytes : Bytes) : ∀ c ∈ (inputLine bytes).toList, c.toNat < 128 := by
  have hlist := ascii_listText (visible_bytes bytes)
  simp only [inputLine, bytesText, String.toList_append, List.forall_mem_append]
  exact ⟨⟨ascii_of_all (by decide), hlist⟩, ascii_of_all (by decide)⟩

theorem ascii_outputLine (events : List KeyEvent) :
    ∀ c ∈ (outputLine events).toList, c.toNat < 128 := by
  have hlist := ascii_listText (visible_events events)
  simp only [outputLine, eventsText, String.toList_append, List.forall_mem_append]
  exact ⟨⟨ascii_of_all (by decide), hlist⟩, ascii_of_all (by decide)⟩

/-- The text of a batch is ASCII, so that its characters are its bytes. -/
theorem ascii_batchText (batch : Batch) : ∀ c ∈ (batchText batch).toList, c.toNat < 128 := by
  cases batch with
  | input bytes events =>
      simp only [batchText, String.toList_append, List.forall_mem_append]
      exact ⟨ascii_inputLine bytes, ascii_outputLine events⟩
  | flushed events => exact ascii_outputLine events

/-- A list can be read off a line. -/
theorem line_inj {items others : List String} (hitems : ∀ item ∈ items, Visible item)
    (hothers : ∀ item ∈ others, Visible item) {rest rest' : List Char}
    (h : (listText items).toList ++ '\r' :: '\n' :: rest =
      (listText others).toList ++ '\r' :: '\n' :: rest') : items = others ∧ rest = rest' := by
  obtain ⟨hlist, htail⟩ :=
    append_cons_inj (return_notMem_listText hitems) (return_notMem_listText hothers) h
  exact ⟨listText_inj hitems hothers (String.toList_inj.1 hlist), (List.cons.inj htail).2⟩

theorem inputLine_append (bytes : Bytes) (rest : List Char) :
    (inputLine bytes).toList ++ rest =
      "input: ".toList ++ ((bytesText bytes).toList ++ '\r' :: '\n' :: rest) := by
  simp [inputLine]

theorem outputLine_append (events : List KeyEvent) (rest : List Char) :
    (outputLine events).toList ++ rest =
      "output: ".toList ++ ((eventsText events).toList ++ '\r' :: '\n' :: rest) := by
  simp [outputLine]

theorem inputLine_append_inj {bytes bytes' : Bytes} {rest rest' : List Char}
    (h : (inputLine bytes).toList ++ rest = (inputLine bytes').toList ++ rest') :
    bytes = bytes' ∧ rest = rest' := by
  rw [inputLine_append, inputLine_append] at h
  obtain ⟨hbytes, hrest⟩ :=
    line_inj (visible_bytes bytes) (visible_bytes bytes') (List.append_cancel_left h)
  exact ⟨bytesText_injective (congrArg listText hbytes), hrest⟩

theorem outputLine_append_inj {events events' : List KeyEvent} {rest rest' : List Char}
    (h : (outputLine events).toList ++ rest = (outputLine events').toList ++ rest') :
    events = events' ∧ rest = rest' := by
  rw [outputLine_append, outputLine_append] at h
  obtain ⟨hevents, hrest⟩ :=
    line_inj (visible_events events) (visible_events events') (List.append_cancel_left h)
  exact ⟨eventsText_injective (congrArg listText hevents), hrest⟩

/-- The first letter of a line says of what kind it is. -/
theorem inputLine_ne_outputLine {bytes : Bytes} {events : List KeyEvent} {rest rest' : List Char} :
    (inputLine bytes).toList ++ rest ≠ (outputLine events).toList ++ rest' := by
  rw [inputLine_append, outputLine_append]
  simp

/-! ## Batches -/

theorem batchText_append_inj {batch batch' : Batch} {rest rest' : List Char}
    (h : (batchText batch).toList ++ rest = (batchText batch').toList ++ rest') :
    batch = batch' ∧ rest = rest' := by
  cases batch with
  | input bytes events =>
      rw [batchText, String.toList_append, List.append_assoc] at h
      cases batch' with
      | input bytes' events' =>
          rw [batchText, String.toList_append, List.append_assoc] at h
          obtain ⟨rfl, houtput⟩ := inputLine_append_inj h
          obtain ⟨rfl, hrest⟩ := outputLine_append_inj houtput
          exact ⟨rfl, hrest⟩
      | flushed events' => exact absurd h inputLine_ne_outputLine
  | flushed events =>
      cases batch' with
      | input bytes' events' =>
          rw [batchText, batchText, String.toList_append, List.append_assoc] at h
          exact absurd h.symm inputLine_ne_outputLine
      | flushed events' =>
          obtain ⟨rfl, hrest⟩ := outputLine_append_inj h
          exact ⟨rfl, hrest⟩

theorem transcript_cons (batch : Batch) (batches : List Batch) :
    transcript (batch :: batches) = (batchText batch).toList ++ transcript batches := by
  rw [toList_batchText]
  rfl

theorem batchText_ne_nil (batch : Batch) : (batchText batch).toList ≠ [] := by
  cases batch <;> simp [batchText, inputLine, outputLine]

theorem transcript_injective : Function.Injective transcript := by
  intro batches others h
  induction batches generalizing others with
  | nil =>
      cases others with
      | nil => rfl
      | cons other others =>
          rw [transcript_cons] at h
          exact absurd h.symm (List.append_ne_nil_of_left_ne_nil (batchText_ne_nil other) _)
  | cons batch batches ih =>
      cases others with
      | nil =>
          rw [transcript_cons] at h
          exact absurd h (List.append_ne_nil_of_left_ne_nil (batchText_ne_nil batch) _)
      | cons other others =>
          rw [transcript_cons, transcript_cons] at h
          obtain ⟨rfl, hrest⟩ := batchText_append_inj h
          rw [ih hrest]

/-! ## The echo -/

/-- The echo behind batches that it was handed one after another. -/
def forwardAll (echo : Echo) : List Batch → Echo
  | [] => echo
  | batch :: batches => (echo.forward batch).2.forwardAll batches

/-- What an echo adds to the text that its sink has taken before. -/
def written (echo : Echo) (batches : List Batch) : List Char :=
  (echo.forwardAll batches).sink.taken.drop echo.sink.taken.length

theorem taken_forwardAll {echo : Echo} (h : echo.sink.limit = none) (batches : List Batch) :
    (echo.forwardAll batches).sink.taken = echo.sink.taken ++ transcript batches := by
  induction batches generalizing echo with
  | nil => exact (List.append_nil _).symm
  | cons batch batches ih =>
      have htook := took_forward (Sink.room_of_unlimited h _) batch
      rw [forwardAll, ih (htook.limit.trans h), htook.taken, Sink.fit_of_unlimited h,
        List.append_assoc, transcript_cons]

/-- What echoes on sinks without a limit write determines the batches that they were handed, in
number, kind, bytes and keys. So does the text of an event determine the event, and the text of a
list of events or of bytes the list. -/
theorem written_determines_batches (echo other : Echo) (hecho : echo.sink.limit = none)
    (hother : other.sink.limit = none) :
    (∀ batches others, echo.written batches = other.written others → batches = others) ∧
      Function.Injective KeyEvent.text ∧ Function.Injective eventsText ∧
        Function.Injective bytesText := by
  refine ⟨?_, KeyEvent.text_injective, eventsText_injective, bytesText_injective⟩
  intro batches others h
  rw [written, written, taken_forwardAll hecho, taken_forwardAll hother, List.drop_left,
    List.drop_left] at h
  exact transcript_injective h

/-- Keys that look like the end of a list do not end it, on an echo that was started and on one
that was not. -/
theorem written_separators_ne :
    let echo := (Echo.new (.new none none)).start.2
    let other := Echo.new (.new none (some 0))
    echo.sink.limit = none ∧ other.sink.limit = none ∧
      echo.written [.flushed [.character ']', .press (.codepoint ',') .onlySuper]] ≠
        other.written [.flushed [], .flushed [.press (.codepoint ',') .onlySuper]] := by
  intro echo other
  refine ⟨rfl, rfl, fun h => ?_⟩
  have hbatches := (written_determines_batches echo other rfl rfl).1 _ _ h
  exact absurd hbatches (by decide)

end Keystroke.Echo
