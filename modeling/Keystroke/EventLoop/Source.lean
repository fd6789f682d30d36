import Keystroke.Decoder.Step

/-!
# Byte sources

A byte source is a list of arrivals, each readable from some instant on. Reads
take the arrivals in order and never more than a buffer at once; what does not
fit stays in front. A source that is used up reports its end at once.
-/

namespace Keystroke.EventLoop

open Decoder (Bytes)

/-- The size of the read buffer. -/
def readLimit : Nat := 1024

inductive Content where
  | data (bytes : Bytes)
  | failure (error : String)
deriving DecidableEq

def Content.weight : Content → Nat
  | data bytes => bytes.length + 1
  | failure _ => 1

structure Arrival where
  /-- The instant from which on this can be read. -/
  ready : Nat
  content : Content
deriving DecidableEq

abbrev Source := List Arrival

inductive ReadResult where
  | chunk (bytes : Bytes)
  | endOfInput
  | failed (error : String)
deriving DecidableEq

namespace Source

/-- The first instant from `now` on at which a read has a result. -/
def readyAt (now : Nat) : Source → Nat
  | [] => now
  | arrival :: _ => max now arrival.ready

/-- The result of a read and what is left to read. A read of no bytes is the end of input. -/
def read : Source → ReadResult × Source
  | [] => (.endOfInput, [])
  | ⟨_, .failure error⟩ :: rest => (.failed error, rest)
  | ⟨ready, .data bytes⟩ :: rest =>
    if bytes = [] then (.endOfInput, rest)
    else if bytes.length ≤ readLimit then (.chunk bytes, rest)
    else (.chunk (bytes.take readLimit), ⟨ready, .data (bytes.drop readLimit)⟩ :: rest)

/-- What is left to read, counted so that every chunk or failure that is read lowers it. -/
def weight : Source → Nat
  | [] => 0
  | arrival :: rest => arrival.content.weight + weight rest

theorem weight_read_le (source : Source) : weight source.read.2 ≤ weight source := by
  cases source with
  | nil => exact Nat.le_refl _
  | cons arrival rest =>
    rcases arrival with ⟨ready, bytes | error⟩
    · simp only [read]
      split
      · simp [weight]
      · split <;> simp [weight, Content.weight]
    · simp [read, weight]

theorem weight_read {source : Source} (h : source.read.1 ≠ .endOfInput) :
    weight source.read.2 < weight source := by
  cases source with
  | nil => exact absurd rfl h
  | cons arrival rest =>
    rcases arrival with ⟨ready, bytes | error⟩
    · simp only [read] at h ⊢
      by_cases hb : bytes = []
      · simp only [hb, if_true] at h
        exact absurd rfl h
      · have hpos : 0 < bytes.length := List.length_pos_iff.mpr hb
        simp only [hb, if_false]
        split
        · simp [weight, Content.weight]
        · simp only [weight, Content.weight, List.length_drop, readLimit]
          omega
    · simp [read, weight, Content.weight]

/-- The last instant at which an arrival becomes readable, or `now` if that is later. -/
def horizon (now : Nat) : Source → Nat
  | [] => now
  | arrival :: rest => max arrival.ready (horizon now rest)

theorem le_horizon (now : Nat) (source : Source) : now ≤ horizon now source := by
  induction source with
  | nil => exact Nat.le_refl _
  | cons arrival rest ih => exact Nat.le_trans ih (Nat.le_max_right _ _)

theorem readyAt_le_horizon (now : Nat) (source : Source) :
    readyAt now source ≤ horizon now source := by
  cases source with
  | nil => exact Nat.le_refl _
  | cons arrival rest =>
    have := le_horizon now rest
    simp only [readyAt, horizon]
    omega

theorem horizon_le_of_le {now later : Nat} {source : Source} (h : later ≤ horizon now source) :
    horizon later source ≤ horizon now source := by
  induction source with
  | nil => exact h
  | cons arrival rest ih =>
    simp only [horizon] at h ⊢
    by_cases hr : later ≤ horizon now rest
    · have := ih hr
      omega
    · have hmono : ∀ s : Source, horizon later s ≤ max later (horizon now s) := by
        intro s
        induction s with
        | nil => exact Nat.le_max_left _ _
        | cons a s ihs =>
          simp only [horizon]
          omega
      have := hmono rest
      omega

theorem horizon_read (now : Nat) (source : Source) :
    horizon now source.read.2 ≤ horizon now source := by
  cases source with
  | nil => exact Nat.le_refl _
  | cons arrival rest =>
    rcases arrival with ⟨ready, bytes | error⟩
    · simp only [read]
      split
      · exact Nat.le_max_right _ _
      · split
        · exact Nat.le_max_right _ _
        · exact Nat.le_refl _
    · exact Nat.le_max_right _ _

end Source

end Keystroke.EventLoop
