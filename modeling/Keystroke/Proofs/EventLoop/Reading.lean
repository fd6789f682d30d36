import Keystroke.EventLoop.Source
import Keystroke.Session.Reason

/-! # Reading a source

What a source gives to a reader that waits for it and for nothing else: the
chunks, each at the instant of its read, up to the end of the input or a failure.
-/

namespace Keystroke.EventLoop

open Decoder (Bytes)

structure Readings where
  /-- The chunks in order, each with the instant of its read. -/
  chunks : List (Nat × Bytes)
  /-- The instant of the read that ends the input. -/
  endsAt : Nat
  /-- How it ends. -/
  reason : ShutdownReason
deriving DecidableEq

def Readings.cons (instant : Nat) (bytes : Bytes) (readings : Readings) : Readings :=
  { readings with chunks := (instant, bytes) :: readings.chunks }

/-- The instant of the next read, with the chunks still to come. -/
def nextRead (endsAt : Nat) : List (Nat × Bytes) → Nat
  | [] => endsAt
  | (instant, _) :: _ => instant

namespace Source

/-- The readings from an instant on. -/
def readings (now : Nat) (source : Source) : Readings :=
  match _ : source.read with
  | (.chunk bytes, rest) =>
    (readings (source.readyAt now) rest).cons (source.readyAt now) bytes
  | (.endOfInput, _) => ⟨[], source.readyAt now, .endOfInput⟩
  | (.failed error, _) => ⟨[], source.readyAt now, .readFailed error⟩
termination_by source.weight
decreasing_by
  rename_i h
  have hless := @weight_read source (by simp [h])
  rwa [h] at hless

/-- The bytes in front of the first end of input or failure. -/
def data : Source → Bytes
  | [] => []
  | ⟨_, .failure _⟩ :: _ => []
  | ⟨_, .data bytes⟩ :: rest => if bytes = [] then [] else bytes ++ data rest

variable {now : Nat} {source rest : Source} {bytes : Bytes}

theorem readings_of_chunk (h : source.read = (.chunk bytes, rest)) :
    source.readings now =
      (rest.readings (source.readyAt now)).cons (source.readyAt now) bytes := by
  rw [readings]
  split <;> simp_all

theorem readings_of_endOfInput (h : source.read = (.endOfInput, rest)) :
    source.readings now = ⟨[], source.readyAt now, .endOfInput⟩ := by
  rw [readings]
  split <;> simp_all

theorem readings_of_failed {error : String} (h : source.read = (.failed error, rest)) :
    source.readings now = ⟨[], source.readyAt now, .readFailed error⟩ := by
  rw [readings]
  split <;> simp_all

theorem nextRead_readings (now : Nat) (source : Source) :
    nextRead (source.readings now).endsAt (source.readings now).chunks = source.readyAt now := by
  cases h : source.read with
  | mk result rest =>
      cases result with
      | chunk bytes => rw [readings_of_chunk h]; rfl
      | endOfInput => rw [readings_of_endOfInput h]; rfl
      | failed error => rw [readings_of_failed h]; rfl

/-! ## Waiting -/

theorem le_readyAt (now : Nat) (source : Source) : now ≤ source.readyAt now := by
  cases source with
  | nil => exact Nat.le_refl now
  | cons arrival rest => exact Nat.le_max_left now arrival.ready

theorem readyAt_of_le {later : Nat} (hnow : now ≤ later) (hlater : later ≤ source.readyAt now) :
    source.readyAt later = source.readyAt now := by
  cases source with
  | nil => exact Nat.le_antisymm hlater hnow
  | cons arrival rest =>
      simp only [readyAt] at hlater ⊢
      omega

/-- Waiting for a read changes no reading. -/
theorem readings_of_le {later : Nat} (hnow : now ≤ later) (hlater : later ≤ source.readyAt now) :
    source.readings later = source.readings now := by
  have hready := readyAt_of_le hnow hlater
  cases h : source.read with
  | mk result rest =>
      cases result with
      | chunk bytes => rw [readings_of_chunk h, readings_of_chunk h, hready]
      | endOfInput => rw [readings_of_endOfInput h, readings_of_endOfInput h, hready]
      | failed error => rw [readings_of_failed h, readings_of_failed h, hready]

theorem horizon_eq_max (now : Nat) (source : Source) :
    source.horizon now = max now (source.horizon 0) := by
  induction source with
  | nil => exact (Nat.max_zero now).symm
  | cons arrival rest ih =>
      simp only [horizon, ih]
      omega

/-- A read leaves nothing that arrives later than what was there. -/
theorem horizon_after_read (now : Nat) (source : Source) :
    source.read.2.horizon (source.readyAt now) ≤ source.horizon now := by
  have hready := readyAt_le_horizon now source
  have hread := horizon_read now source
  rw [horizon_eq_max] at hread ⊢
  omega

/-! ## The chunks -/

theorem read_chunk (h : source.read = (.chunk bytes, rest)) :
    0 < bytes.length ∧ bytes.length ≤ readLimit ∧ source.data = bytes ++ rest.data := by
  cases source with
  | nil => simp [read] at h
  | cons arrival others =>
      rcases arrival with ⟨ready, content | error⟩
      · rw [read] at h
        split at h
        · simp at h
        · rename_i hne
          have hpos : 0 < content.length := List.length_pos_iff.mpr hne
          split at h
          · rename_i hfits
            cases h
            exact ⟨hpos, hfits, by rw [data, if_neg hne]⟩
          · rename_i hlong
            have hdrop : content.drop readLimit ≠ [] := by
              rw [← List.length_pos_iff, List.length_drop]
              omega
            cases h
            refine ⟨?_, ?_, ?_⟩
            · rw [List.length_take]
              exact Nat.lt_min.2 ⟨by decide, hpos⟩
            · exact List.length_take_le readLimit content
            · rw [data, if_neg hne, data, if_neg hdrop, ← List.append_assoc,
                List.take_append_drop]
      · cases h

/-- A source without a next chunk has no data. -/
theorem data_of_no_chunk (h : ∀ bytes, source.read.1 ≠ .chunk bytes) : source.data = [] := by
  cases source with
  | nil => rfl
  | cons arrival others =>
      rcases arrival with ⟨ready, content | error⟩
      · by_cases hnil : content = []
        · rw [data, if_pos hnil]
        · rw [read, if_neg hnil] at h
          split at h
          · exact absurd rfl (h content)
          · exact absurd rfl (h (content.take readLimit))
      · rfl

/-- A read adds no failure to what is left to read. -/
theorem failure_mem_of_read {ready : Nat} {error : String}
    (h : ⟨ready, .failure error⟩ ∈ source.read.2) : ⟨ready, .failure error⟩ ∈ source := by
  cases source with
  | nil => exact h
  | cons arrival others =>
      rcases arrival with ⟨_, content | _⟩
      · rw [read] at h
        split at h
        · exact List.mem_cons_of_mem _ h
        · split at h
          · exact List.mem_cons_of_mem _ h
          · rcases List.mem_cons.1 h with hcut | hothers
            · cases hcut
            · exact List.mem_cons_of_mem _ hothers
      · exact List.mem_cons_of_mem _ h

theorem failure_mem_of_failed {error : String} (h : source.read.1 = .failed error) :
    ∃ ready, ⟨ready, .failure error⟩ ∈ source := by
  cases source with
  | nil => cases h
  | cons arrival others =>
      rcases arrival with ⟨ready, content | _⟩
      · rw [read] at h
        split at h
        · cases h
        · split at h <;> cases h
      · cases h
        exact ⟨ready, List.mem_cons_self⟩

/-- A chunk has between one byte and a buffer of them. -/
theorem length_of_mem_chunks (now : Nat) (source : Source) :
    ∀ chunk ∈ (source.readings now).chunks,
      0 < chunk.2.length ∧ chunk.2.length ≤ readLimit := by
  induction now, source using readings.induct with
  | case1 now source bytes rest h ih =>
      obtain ⟨hpos, hle, _⟩ := read_chunk h
      rw [readings_of_chunk h]
      intro chunk hchunk
      rcases List.mem_cons.1 hchunk with rfl | hchunk
      · exact ⟨hpos, hle⟩
      · exact ih chunk hchunk
  | case2 now source rest h =>
      rw [readings_of_endOfInput h]
      exact List.forall_mem_nil _
  | case3 now source error rest h =>
      rw [readings_of_failed h]
      exact List.forall_mem_nil _

/-- The chunks are the data cut up. -/
theorem chunks_flatten (now : Nat) (source : Source) :
    ((source.readings now).chunks.map Prod.snd).flatten = source.data := by
  induction now, source using readings.induct with
  | case1 now source bytes rest h ih =>
      rw [readings_of_chunk h, (read_chunk h).2.2, ← ih]
      rfl
  | case2 now source rest h =>
      rw [readings_of_endOfInput h, data_of_no_chunk (by simp [h])]
      rfl
  | case3 now source error rest h =>
      rw [readings_of_failed h, data_of_no_chunk (by simp [h])]
      rfl

end Source

end Keystroke.EventLoop
