import Keystroke.Echo

/-! # Printing

What the calls of an echo write. Each of them prints a few texts one after another
and flushes behind the last. A sink with room for all of them takes them and is
flushed; any other takes as much as fits, and the call fails without a flush.
-/

namespace Keystroke.Echo

namespace Sink

/-- Whether so much can be taken in all. -/
def Room (sink : Sink) (text : List Char) : Prop :=
  ∀ limit, sink.limit = some limit → text.length ≤ limit

/-- What is taken, of what is written in all. -/
def fit (sink : Sink) (text : List Char) : List Char :=
  match sink.limit with
  | none => text
  | some limit => text.take limit

variable {sink : Sink} {text more : List Char}

theorem room_of_unlimited (h : sink.limit = none) (text : List Char) : sink.Room text := by
  intro limit hlimit
  rw [h] at hlimit
  cases hlimit

theorem room_iff_of_limited {limit : Nat} (h : sink.limit = some limit) :
    sink.Room text ↔ text.length ≤ limit := by
  constructor
  · intro hroom
    exact hroom limit h
  · intro hle other hother
    rw [h] at hother
    cases hother
    exact hle

theorem exists_limit_of_not_room (h : ¬sink.Room text) :
    ∃ limit, sink.limit = some limit ∧ limit < text.length := by
  cases hlimit : sink.limit with
  | none => exact absurd (room_of_unlimited hlimit text) h
  | some limit =>
      rw [room_iff_of_limited hlimit] at h
      exact ⟨limit, rfl, Nat.lt_of_not_le h⟩

theorem Room.of_append (h : sink.Room (text ++ more)) : sink.Room text := by
  intro limit hlimit
  have hle := h limit hlimit
  rw [List.length_append] at hle
  omega

theorem fit_of_unlimited (h : sink.limit = none) : sink.fit text = text := by
  rw [fit, h]

theorem fit_of_limited {limit : Nat} (h : sink.limit = some limit) :
    sink.fit text = text.take limit := by
  rw [fit, h]

theorem fit_of_room (h : sink.Room text) : sink.fit text = text := by
  cases hlimit : sink.limit with
  | none => exact fit_of_unlimited hlimit
  | some limit =>
      rw [fit_of_limited hlimit]
      exact List.take_of_length_le (h limit hlimit)

theorem room_fit (sink : Sink) (text : List Char) : sink.Room (sink.fit text) := by
  intro limit hlimit
  rw [fit_of_limited hlimit]
  exact List.length_take_le limit text

/-- A text that does not fit leaves no room for more. -/
theorem fit_append_of_not_room (h : ¬sink.Room text) : sink.fit (text ++ more) = sink.fit text := by
  obtain ⟨limit, hlimit, hlt⟩ := exists_limit_of_not_room h
  rw [fit_of_limited hlimit, fit_of_limited hlimit]
  exact List.take_append_of_le_length (Nat.le_of_lt hlt)

/-! ## Writing -/

theorem write_of_room (h : sink.Room (sink.taken ++ text)) :
    sink.write text = (.ok (), { sink with taken := sink.taken ++ text }) := by
  unfold write
  cases hlimit : sink.limit with
  | none => rfl
  | some limit =>
      have hle := h limit hlimit
      rw [List.length_append] at hle
      have htake : text.take (limit - sink.taken.length) = text :=
        List.take_of_length_le (by omega)
      simp [htake]

theorem write_of_not_room (hroom : sink.Room sink.taken) (h : ¬sink.Room (sink.taken ++ text)) :
    sink.write text = (.error .full, { sink with taken := sink.fit (sink.taken ++ text) }) := by
  obtain ⟨limit, hlimit, hlt⟩ := exists_limit_of_not_room h
  have hle := hroom limit hlimit
  rw [List.length_append] at hlt
  have hshort : (text.take (limit - sink.taken.length)).length ≠ text.length := by
    rw [List.length_take]
    omega
  have hfit : sink.fit (sink.taken ++ text) =
      sink.taken ++ text.take (limit - sink.taken.length) := by
    rw [fit_of_limited hlimit, List.take_append, List.take_of_length_le hle]
  rw [hfit, write, hlimit]
  exact congrArg (·, _) (if_neg hshort)

/-! ## Printing several texts -/

/-- The operations that print texts one after another. -/
def printing (texts : List (List Char)) : List Operation :=
  texts.map .write ++ [.flush]

theorem perform_printing_of_room {texts : List (List Char)}
    (h : sink.Room (sink.taken ++ texts.flatten)) :
    sink.perform (printing texts) = flush { sink with taken := sink.taken ++ texts.flatten } := by
  induction texts generalizing sink with
  | nil =>
      rw [List.flatten_nil, List.append_nil]
      cases hflush : sink.flush with
      | mk result behind => cases result <;> simp [printing, perform, apply, hflush]
  | cons text texts ih =>
      rw [List.flatten_cons, ← List.append_assoc] at h
      have hrest : perform { sink with taken := sink.taken ++ text } (printing texts) = _ := ih h
      rw [List.flatten_cons, ← List.append_assoc, ← hrest]
      simp [printing, perform, apply, write_of_room h.of_append]

theorem perform_printing_of_not_room {texts : List (List Char)} (hroom : sink.Room sink.taken)
    (h : ¬sink.Room (sink.taken ++ texts.flatten)) :
    sink.perform (printing texts) =
      (.error .full, { sink with taken := sink.fit (sink.taken ++ texts.flatten) }) := by
  induction texts generalizing sink with
  | nil =>
      rw [List.flatten_nil, List.append_nil] at h
      exact absurd hroom h
  | cons text texts ih =>
      rw [List.flatten_cons, ← List.append_assoc] at h ⊢
      by_cases htext : sink.Room (sink.taken ++ text)
      · have hrest : perform { sink with taken := sink.taken ++ text } (printing texts) = _ :=
          ih htext h
        rw [printing, List.map_cons, List.cons_append, perform, apply, write_of_room htext]
        exact hrest
      · rw [printing, List.map_cons, List.cons_append, perform, apply,
          write_of_not_room hroom htext, fit_append_of_not_room htext]

/-- A sink behind one that a text was written to. -/
structure Took (sink : Sink) (text : List Char) (behind : Sink) : Prop where
  taken : behind.taken = sink.fit (sink.taken ++ text)
  limit : behind.limit = sink.limit
  flushLimit : behind.flushLimit = sink.flushLimit

theorem flush_frame (sink : Sink) :
    sink.flush.2.taken = sink.taken ∧ sink.flush.2.limit = sink.limit ∧
      sink.flush.2.flushLimit = sink.flushLimit := by
  unfold flush
  split <;> exact ⟨rfl, rfl, rfl⟩

theorem flush_ok_of_unlimited (h : sink.flushLimit = none) : sink.flush.1 = .ok () := by
  unfold flush
  rw [h]
  rfl

theorem answer_printing_of_room {texts : List (List Char)} (hflush : sink.flushLimit = none)
    (h : sink.Room (sink.taken ++ texts.flatten)) : (sink.perform (printing texts)).1 = .ok () := by
  have hok : (flush { sink with taken := sink.taken ++ texts.flatten }).1 = .ok () :=
    flush_ok_of_unlimited hflush
  rw [perform_printing_of_room h, hok]

theorem took_printing (hroom : sink.Room sink.taken) (texts : List (List Char)) :
    sink.Took texts.flatten (sink.perform (printing texts)).2 := by
  by_cases h : sink.Room (sink.taken ++ texts.flatten)
  · rw [perform_printing_of_room h]
    obtain ⟨htaken, hlimit, hflushLimit⟩ :=
      flush_frame { sink with taken := sink.taken ++ texts.flatten }
    exact ⟨htaken.trans (fit_of_room h).symm, hlimit, hflushLimit⟩
  · rw [perform_printing_of_not_room hroom h]
    exact ⟨rfl, rfl, rfl⟩

theorem Took.room {behind : Sink} (h : sink.Took text behind) : behind.Room behind.taken := by
  have hroom := room_fit sink (sink.taken ++ text)
  rw [← h.taken] at hroom
  intro limit hlimit
  exact hroom limit (h.limit.symm.trans hlimit)

end Sink

/-! ## The texts -/

/-- What switches the reports on, and the greeting. -/
def opening : List Char :=
  "\x1b[?1004h\x1b[?2004hPress Ctrl-Q to exit\r\n".toList

/-- What switches the reports off. -/
def closing : List Char :=
  "\x1b[?2004l\x1b[?1004l".toList

/-- A byte in hexadecimal, with one digit where that is enough. -/
def byteItem (b : UInt8) : String :=
  "0x" ++ String.ofList (if b.toNat < 16 then [b.toNat.digitChar]
    else [(b.toNat / 16).digitChar, (b.toNat % 16).digitChar])

/-- The items of a list, one behind the other. -/
def joined (items : List String) : List Char :=
  [',', ' '].intercalate (items.map String.toList)

def line (label : String) (items : List String) : List Char :=
  label.toList ++ ": [".toList ++ joined items ++ "]\r\n".toList

/-- The lines of a batch. The raw bytes of a chunk have a line in front of that of the keys. -/
def batchLines : Batch → List Char
  | .input bytes events =>
      line "input" (bytes.map byteItem) ++ line "output" (events.map KeyEvent.text)
  | .flushed events => line "output" (events.map KeyEvent.text)

/-- The lines of batches, in order. -/
def transcript (batches : List Batch) : List Char :=
  batches.flatMap batchLines

theorem opening_eq :
    opening =
      [enableFocusReports.toList, enablePasteMarkers.toList, greeting.toList].flatten := by
  decide

theorem closing_eq :
    closing = [disablePasteMarkers.toList, disableFocusReports.toList].flatten := by
  decide

theorem hexText_eq_byteItem (b : UInt8) : hexText b.toNat = byteItem b := by
  have hlt := b.toNat_lt
  unfold hexText byteItem
  split
  · rename_i hsmall
    rw [Nat.toDigits_of_lt_base hsmall]
  · rename_i hlarge
    rw [Nat.toDigits_eq_if (by decide), if_neg hlarge, Nat.toDigits_of_lt_base (by omega)]
    rfl

theorem toList_listText (items : List String) :
    (listText items).toList = '[' :: (joined items ++ [']']) := by
  simp [listText, joined, String.toList_intercalate]

theorem toList_inputLine (bytes : Decoder.Bytes) :
    (inputLine bytes).toList = line "input" (bytes.map byteItem) := by
  simp [inputLine, bytesText, toList_listText, line, hexText_eq_byteItem]

theorem toList_outputLine (events : List KeyEvent) :
    (outputLine events).toList = line "output" (events.map KeyEvent.text) := by
  simp [outputLine, eventsText, toList_listText, line]

theorem toList_batchText (batch : Batch) : (batchText batch).toList = batchLines batch := by
  cases batch with
  | input bytes events =>
      rw [batchText, String.toList_append, toList_inputLine, toList_outputLine, batchLines]
  | flushed events => exact toList_outputLine events

example :
    transcript [.input [0x61, 0x00, 0x1b] [.character 'a', .press (.codepoint ' ') .onlyCtrl],
      .flushed [.function .escape]] =
    "input: [0x61, 0x0, 0x1b]\r\noutput: [a, C-0x20]\r\noutput: [Esc]\r\n".toList := by
  decide +kernel

/-! ## The calls -/

/-- What a batch says about going on. -/
def flow (batch : Batch) : EventLoop.Flow :=
  if batch.events.any isQuit then .quit else .proceed

variable {echo : Echo}

theorem startOperations_eq :
    startOperations =
      Sink.printing [enableFocusReports.toList, enablePasteMarkers.toList, greeting.toList] := rfl

theorem stopOperations_eq :
    stopOperations =
      Sink.printing [disablePasteMarkers.toList, disableFocusReports.toList] := rfl

theorem batchOperations_eq (batch : Batch) :
    batchOperations batch = Sink.printing [(batchText batch).toList] := rfl

theorem forward_eq (echo : Echo) (batch : Batch) :
    echo.forward batch =
      ((echo.sink.perform (batchOperations batch)).1.map fun _ => flow batch,
        { echo with sink := (echo.sink.perform (batchOperations batch)).2 }) := by
  unfold forward
  cases echo.sink.perform (batchOperations batch) with
  | mk result behind => cases result <;> rfl

theorem started_of_start {started : Echo} (h : echo.start = (.ok (), started)) :
    started.started = true := by
  unfold start at h
  cases hperformed : echo.sink.perform startOperations with
  | mk result behind =>
      rw [hperformed] at h
      cases result with
      | error fault => cases h
      | ok done =>
          cases h
          rfl

theorem stop_of_started (h : echo.started = true) :
    echo.stop = ⟨(echo.sink.perform stopOperations).2, false,
      echo.records ++ stopRecords (echo.sink.perform stopOperations).1⟩ :=
  if_pos h

theorem stop_of_unstarted (h : echo.started = false) : echo.stop = echo :=
  if_neg (Bool.eq_false_iff.1 h)

/-! ## What is taken -/

theorem took_start (h : echo.sink.Room echo.sink.taken) :
    echo.sink.Took opening echo.start.2.sink := by
  have htook := Sink.took_printing h
    [enableFocusReports.toList, enablePasteMarkers.toList, greeting.toList]
  rw [← startOperations_eq, ← opening_eq] at htook
  exact htook

theorem took_forward (h : echo.sink.Room echo.sink.taken) (batch : Batch) :
    echo.sink.Took (batchText batch).toList (echo.forward batch).2.sink := by
  have htook := Sink.took_printing h [(batchText batch).toList]
  rw [← batchOperations_eq, List.flatten_singleton] at htook
  rw [forward_eq]
  exact htook

theorem took_stop (h : echo.sink.Room echo.sink.taken) (hstarted : echo.started = true) :
    echo.sink.Took closing echo.stop.sink := by
  have htook := Sink.took_printing h [disablePasteMarkers.toList, disableFocusReports.toList]
  rw [← stopOperations_eq, ← closing_eq] at htook
  rw [stop_of_started hstarted]
  exact htook

theorem started_forward (echo : Echo) (batch : Batch) :
    (echo.forward batch).2.started = echo.started := by
  rw [forward_eq]

/-! ## What is logged -/

theorem records_forward (echo : Echo) (batch : Batch) :
    (echo.forward batch).2.records = echo.records := by
  rw [forward_eq]

theorem stopRecords_eq_nil_iff {result : Except Fault Unit} :
    stopRecords result = [] ↔ result = .ok () := by
  cases result <;> simp [stopRecords]

/-- A start is undone without a record exactly if the whole text is taken and flushed. -/
theorem records_stop_eq_iff (hroom : echo.sink.Room echo.sink.taken)
    (hstarted : echo.started = true) :
    echo.stop.records = echo.records ↔
      echo.sink.Room (echo.sink.taken ++ closing) ∧
        ({ echo.sink with taken := echo.sink.taken ++ closing } : Sink).flush.1 = .ok () := by
  rw [stop_of_started hstarted]
  dsimp only
  rw [List.append_right_eq_self, stopRecords_eq_nil_iff, closing_eq, stopOperations_eq]
  by_cases h : echo.sink.Room (echo.sink.taken ++
      [disablePasteMarkers.toList, disableFocusReports.toList].flatten)
  · rw [Sink.perform_printing_of_room h, and_iff_right h]
  · rw [Sink.perform_printing_of_not_room hroom h]
    exact iff_of_false nofun fun hboth => h hboth.1

/-! ## What is answered -/

theorem start_answer (echo : Echo) :
    echo.start.1 = (echo.sink.perform startOperations).1 := rfl

theorem start_answer_of_room (h : echo.sink.Room (echo.sink.taken ++ opening)) :
    echo.start.1 = ({ echo.sink with taken := echo.sink.taken ++ opening } : Sink).flush.1 := by
  rw [opening_eq] at h ⊢
  rw [start_answer, startOperations_eq, Sink.perform_printing_of_room h]

theorem answer_start_of_room (hflush : echo.sink.flushLimit = none)
    (h : echo.sink.Room (echo.sink.taken ++ opening)) : echo.start.1 = .ok () := by
  rw [start_answer_of_room h]
  exact Sink.flush_ok_of_unlimited hflush

theorem answer_start_of_not_room (hroom : echo.sink.Room echo.sink.taken)
    (h : ¬echo.sink.Room (echo.sink.taken ++ opening)) : echo.start.1 = .error .full := by
  rw [start_answer, startOperations_eq,
    Sink.perform_printing_of_not_room hroom (by rwa [← opening_eq])]

theorem answer_of_room (hflush : echo.sink.flushLimit = none) (batch : Batch)
    (h : echo.sink.Room (echo.sink.taken ++ (batchText batch).toList)) :
    (echo.forward batch).1 = .ok (flow batch) := by
  rw [forward_eq, batchOperations_eq,
    Sink.answer_printing_of_room hflush (by rwa [List.flatten_singleton])]
  rfl

theorem answer_of_not_room (hroom : echo.sink.Room echo.sink.taken) {batch : Batch}
    (h : ¬echo.sink.Room (echo.sink.taken ++ (batchText batch).toList)) :
    (echo.forward batch).1 = .error .full := by
  rw [forward_eq, batchOperations_eq,
    Sink.perform_printing_of_not_room hroom (by rwa [List.flatten_singleton])]
  rfl

end Keystroke.Echo
