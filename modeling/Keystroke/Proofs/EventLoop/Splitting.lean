import Keystroke.Proofs.EventLoop.Stream

/-! # Splitting the data

How data is cut into pieces makes no difference to the keys of the chunks, as long as
every byte is read at the same instant: no tick falls between two reads at one instant,
so nothing is flushed there. A source is compared with the one in which every byte
arrives by itself.
-/

namespace Keystroke.EventLoop

open Decoder (Bytes Segment)

/-- The keys of the chunks. Those of idle flushes are left out. -/
def typed (batches : List (Nat × Batch)) : List KeyEvent :=
  batches.flatMap fun
    | (_, .input _ events) => events
    | (_, .flushed _) => []

/-- The chunks taken apart, each byte at the instant of its chunk. -/
def singles (chunks : List (Nat × Bytes)) : List (Nat × Bytes) :=
  chunks.flatMap fun chunk => chunk.2.map fun b => (chunk.1, [b])

theorem singles_cons (instant : Nat) (bytes : Bytes) (chunks : List (Nat × Bytes)) :
    singles ((instant, bytes) :: chunks) =
      bytes.map (fun b => (instant, [b])) ++ singles chunks :=
  List.flatMap_cons

variable {flush? : Bytes → Nat → Nat → Option Nat} {endsAt endsAt' : Nat}

/-! ## The timeline -/

theorem typed_append (batches others : List (Nat × Batch)) :
    typed (batches ++ others) = typed batches ++ typed others :=
  List.flatMap_append

theorem mem_typed {batches : List (Nat × Batch)} {key : KeyEvent} :
    key ∈ typed batches ↔
      ∃ instant bytes events, (instant, .input bytes events) ∈ batches ∧ key ∈ events := by
  rw [typed, List.mem_flatMap]
  constructor
  · rintro ⟨⟨instant, batch⟩, hbatch, hkey⟩
    cases batch with
    | input bytes events => exact ⟨instant, bytes, events, hbatch, hkey⟩
    | flushed events => cases hkey
  · rintro ⟨instant, bytes, events, hbatch, hkey⟩
    exact ⟨(instant, .input bytes events), hbatch, hkey⟩

theorem typed_flushAt (d : Decoder) (instant? : Option Nat) :
    typed (flushAt d instant?).1 = [] := by
  cases instant? <;> rfl

/-- The keys of the chunks, chunk by chunk. -/
theorem typed_timeline_cons (d : Decoder) (instant : Nat) (bytes : Bytes)
    (chunks : List (Nat × Bytes)) :
    let fed := d.feed bytes
    typed (timeline flush? endsAt d ((instant, bytes) :: chunks)) =
      fed.1.map Segment.event ++
        typed (timeline flush? endsAt
          (flushAt fed.2
            (flush? fed.2.pending instant (nextRead endsAt chunks))).2
          chunks) := by
  intro fed
  have hflush := typed_flushAt fed.2
    (flush? fed.2.pending instant (nextRead endsAt chunks))
  rw [timeline, ← List.singleton_append, typed_append, typed_append, hflush, List.nil_append]
  exact congrArg (· ++ _) (List.flatMap_singleton _ _)

/-- Nothing is flushed between two reads at one instant. -/
def Apart (flush? : Bytes → Nat → Nat → Option Nat) : Prop :=
  ∀ pending instant, flush? pending instant instant = none

/-- The next chunk is read at the same instant. -/
theorem typed_timeline_again (hapart : Apart flush?) {instant : Nat}
    {chunks : List (Nat × Bytes)} (h : nextRead endsAt chunks = instant) (d : Decoder)
    (bytes : Bytes) :
    typed (timeline flush? endsAt d ((instant, bytes) :: chunks)) =
      (d.feed bytes).1.map Segment.event ++
        typed (timeline flush? endsAt (d.feed bytes).2 chunks) := by
  rw [typed_timeline_cons, h, hapart]
  rfl

/-- A byte at the front of a chunk can be read by itself. -/
theorem typed_timeline_byte (d : Decoder) (instant : Nat) (b : UInt8) (bytes : Bytes)
    (chunks : List (Nat × Bytes)) :
    typed (timeline flush? endsAt d ((instant, b :: bytes) :: chunks)) =
      (d.feed [b]).1.map Segment.event ++
        typed (timeline flush? endsAt (d.feed [b]).2 ((instant, bytes) :: chunks)) := by
  have hfeed := Decoder.feed_append d [b] bytes
  rw [List.singleton_append] at hfeed
  rw [typed_timeline_cons, typed_timeline_cons, hfeed, List.map_append, List.append_assoc]

/-- The keys of a chunk, with those behind it, are the keys of its bytes read one by one. -/
theorem typed_timeline_bytes (hapart : Apart flush?) {chunks others : List (Nat × Bytes)}
    (hrest : ∀ d, typed (timeline flush? endsAt d chunks) =
      typed (timeline flush? endsAt' d others))
    (hnext : nextRead endsAt chunks = nextRead endsAt' others ∨ chunks = [] ∧ others = [])
    (d : Decoder) (instant : Nat) (b : UInt8) (bytes : Bytes) :
    typed (timeline flush? endsAt d ((instant, b :: bytes) :: chunks)) =
      typed (timeline flush? endsAt' d
        ((b :: bytes).map (fun b => (instant, [b])) ++ others)) := by
  induction bytes generalizing d b with
  | nil =>
      rw [List.map_singleton, List.singleton_append, typed_timeline_cons, typed_timeline_cons]
      rcases hnext with hnext | ⟨rfl, rfl⟩
      · rw [hnext, hrest]
      · rfl
  | cons c bytes ih =>
      rw [typed_timeline_byte, ih]
      exact (typed_timeline_again hapart rfl d [b]).symm

/-- The keys of chunks that are not empty are those of their bytes read one by one. The last flush
depends on the end of the input, but it is none of these keys. -/
theorem typed_timeline_singles (hapart : Apart flush?) (endsAt' : Nat)
    {chunks : List (Nat × Bytes)} (h : ∀ chunk ∈ chunks, chunk.2 ≠ []) (d : Decoder) :
    typed (timeline flush? endsAt d chunks) =
      typed (timeline flush? endsAt' d (singles chunks)) := by
  induction chunks generalizing d with
  | nil => rfl
  | cons chunk chunks ih =>
      obtain ⟨instant, bytes⟩ := chunk
      rw [List.forall_mem_cons] at h
      obtain ⟨b, bytes, rfl⟩ := List.exists_cons_of_ne_nil h.1
      rw [singles_cons]
      refine typed_timeline_bytes hapart (ih h.2) ?_ d instant b bytes
      cases chunks with
      | nil => exact .inr ⟨rfl, rfl⟩
      | cons next others =>
          obtain ⟨c, more, hmore⟩ := List.exists_cons_of_ne_nil (h.2 next List.mem_cons_self)
          rw [← Prod.eta next, hmore, singles_cons]
          exact .inl rfl

/-- A key that nothing held back is resolved to comes with a chunk. -/
theorem mem_typed_timeline {chunks : List (Nat × Bytes)} {d : Decoder} {key : KeyEvent}
    (h : ∀ held, key ∉ Decoder.resolution held) :
    key ∈ typed (timeline flush? endsAt d chunks) ↔
      key ∈ keys (timeline flush? endsAt d chunks) := by
  rw [mem_typed, keys, List.mem_flatMap]
  constructor
  · rintro ⟨instant, bytes, events, hbatch, hkey⟩
    exact ⟨_, hbatch, hkey⟩
  · rintro ⟨⟨instant, batch⟩, hbatch, hkey⟩
    obtain ⟨bytes, events, rfl⟩ := input_of_mem_timeline h hbatch hkey
    exact ⟨instant, bytes, events, hbatch, hkey⟩

/-! ## The source -/

/-- The bytes of a source, each with the instant from which on it can be read, up to the first end
of input or failure. -/
def Source.arriving : Source → List (Nat × UInt8)
  | [] => []
  | ⟨_, .failure _⟩ :: _ => []
  | ⟨ready, .data bytes⟩ :: rest =>
    if bytes = [] then [] else bytes.map (ready, ·) ++ arriving rest

/-- The reads of bytes one by one, from an instant on. -/
def readOneByOne (now : Nat) : List (Nat × UInt8) → List (Nat × Bytes)
  | [] => []
  | (ready, b) :: bytes => (max now ready, [b]) :: readOneByOne (max now ready) bytes

/-- Bytes of one arrival are read at one instant. -/
theorem readOneByOne_append {bytes : Bytes} (h : bytes ≠ []) (now ready : Nat)
    (more : List (Nat × UInt8)) :
    readOneByOne now (bytes.map (ready, ·) ++ more) =
      bytes.map (fun b => (max now ready, [b])) ++ readOneByOne (max now ready) more := by
  induction bytes generalizing now with
  | nil => exact absurd rfl h
  | cons b bytes ih =>
      rw [List.map_cons, List.cons_append, readOneByOne, List.map_cons, List.cons_append]
      cases bytes with
      | nil => rfl
      | cons c bytes =>
          have hlater : max (max now ready) ready = max now ready := by omega
          rw [ih (List.cons_ne_nil c bytes), hlater]

namespace Source

variable {now : Nat} {source rest : Source} {bytes : Bytes}

theorem arriving_of_chunk (now : Nat) (h : source.read = (.chunk bytes, rest)) :
    ∃ ready, source.readyAt now = max now ready ∧
      source.arriving = bytes.map (ready, ·) ++ rest.arriving := by
  cases source with
  | nil => cases h
  | cons arrival others =>
      rcases arrival with ⟨ready, content | error⟩
      · refine ⟨ready, rfl, ?_⟩
        rw [read] at h
        split at h
        · cases h
        · rename_i hne
          rw [arriving, if_neg hne]
          split at h
          · cases h
            rfl
          · rename_i hlong
            have hdrop : content.drop readLimit ≠ [] := by
              rw [← List.length_pos_iff, List.length_drop]
              omega
            cases h
            rw [arriving, if_neg hdrop, ← List.append_assoc, ← List.map_append,
              List.take_append_drop]
      · cases h

theorem arriving_of_no_chunk (h : ∀ bytes, source.read.1 ≠ .chunk bytes) :
    source.arriving = [] := by
  cases source with
  | nil => rfl
  | cons arrival others =>
      rcases arrival with ⟨ready, content | error⟩
      · by_cases hnil : content = []
        · rw [arriving, if_pos hnil]
        · rw [read, if_neg hnil] at h
          split at h
          · exact absurd rfl (h content)
          · exact absurd rfl (h (content.take readLimit))
      · rfl

/-- Taken apart, the chunks of a source are fixed by the instants at which its bytes arrive. -/
theorem singles_readings (now : Nat) (source : Source) :
    singles (source.readings now).chunks = readOneByOne now source.arriving := by
  induction now, source using readings.induct with
  | case1 now source bytes rest h ih =>
      obtain ⟨ready, hready, harriving⟩ := arriving_of_chunk now h
      have hne : bytes ≠ [] := List.length_pos_iff.1 (read_chunk h).1
      rw [readings_of_chunk h, Readings.cons, singles_cons, ih, harriving, hready,
        readOneByOne_append hne]
  | case2 now source rest h =>
      rw [readings_of_endOfInput h, arriving_of_no_chunk (by simp [h])]
      rfl
  | case3 now source error rest h =>
      rw [readings_of_failed h, arriving_of_no_chunk (by simp [h])]
      rfl

theorem apart_flushBetween (config : Session.Config) (start : Nat) :
    Apart (flushBetween? config start) := by
  intro pending instant
  unfold flushBetween? flushInstant?
  simp only [ticks, Nat.sub_self, List.range'_zero, List.filter_nil, List.getElem?_nil, ite_self]

/-- Sources with the same bytes at the same instants give the same keys, however the bytes are
split and however the input ends. -/
theorem typed_decoded {other : Source} (h : other.arriving = source.arriving)
    (config : Session.Config) (backspace : UInt8) (start : Nat) :
    typed (other.decoded config backspace start) =
      typed (source.decoded config backspace start) := by
  have hne : ∀ source : Source, ∀ chunk ∈ (source.readings start).chunks, chunk.2 ≠ [] :=
    fun source chunk hchunk =>
      List.length_pos_iff.1 (length_of_mem_chunks start source chunk hchunk).1
  have hsingles : singles (other.readings start).chunks = singles (source.readings start).chunks := by
    rw [singles_readings, singles_readings, h]
  have hapart := apart_flushBetween config start
  rw [decoded, decoded, typed_timeline_singles hapart 0 (hne other), hsingles,
    ← typed_timeline_singles hapart 0 (hne source)]

end Source

end Keystroke.EventLoop
