/-! # Ticks

The instants at which ticks fall, at whole multiples of a period behind a start,
and how many of them lie in a stretch of time.
-/

namespace Keystroke.EventLoop

/-- The ticks from `a` on and before `b`, in order. -/
def ticks (start period a b : Nat) : List Nat :=
  (List.range' a (b - a)).filter fun i => decide (start < i ∧ period ∣ i - start)

/-- The instant is the first tick from `a` on. -/
structure FirstTick (start period a tick : Nat) : Prop where
  le : a ≤ tick
  isTick : ∃ k, tick = start + (k + 1) * period
  first : tick = start + period ∨ tick < a + period

variable {start period a tick : Nat}

theorem exists_firstTick (hp : 0 < period) (start a : Nat) :
    ∃ tick, FirstTick start period a tick := by
  have hbelow := Nat.div_mul_le_self (a - start - 1) period
  have habove := Nat.lt_div_mul_add (b := period) hp (a := a - start - 1)
  refine ⟨_, ?_, ⟨(a - start - 1) / period, rfl⟩, ?_⟩
  · rw [Nat.succ_mul]
    omega
  · rw [Nat.succ_mul]
    by_cases ha : a ≤ start + 1
    · rw [show a - start - 1 = 0 by omega, Nat.zero_div]
      omega
    · omega

theorem FirstTick.next (hp : 0 < period) (h : FirstTick start period a tick) :
    FirstTick start period (tick + 1) (tick + period) := by
  obtain ⟨k, hk⟩ := h.isTick
  refine ⟨by omega, ⟨k + 1, ?_⟩, .inr (by omega)⟩
  rw [hk, Nat.succ_mul (k + 1) period, Nat.add_assoc]

theorem FirstTick.lt (h : FirstTick start period a tick) : start + period ≤ tick := by
  obtain ⟨k, rfl⟩ := h.isTick
  have hle : 1 * period ≤ (k + 1) * period := Nat.mul_le_mul_right period (by omega)
  omega

theorem FirstTick.le_of_tick (h : FirstTick start period a tick) {i : Nat} (hi : a ≤ i)
    (hstart : start < i) (hdvd : period ∣ i - start) : tick ≤ i := by
  obtain ⟨k, hk⟩ := h.isTick
  obtain ⟨m, hm⟩ := hdvd
  rcases h.first with hfirst | hfirst
  · have hpos : 0 < m := by
      rcases Nat.eq_zero_or_pos m with rfl | hpos
      · omega
      · exact hpos
    have hle : period * 1 ≤ period * m := Nat.mul_le_mul_left period hpos
    omega
  · -- An earlier tick would lie a whole period before, and so before `a`.
    by_cases hlt : k + 1 ≤ m
    · have hle : period * (k + 1) ≤ period * m := Nat.mul_le_mul_left period hlt
      rw [Nat.mul_comm] at hk
      omega
    · have hle : period * m ≤ period * k := Nat.mul_le_mul_left period (by omega)
      rw [Nat.mul_comm, Nat.mul_succ] at hk
      omega

theorem ticks_eq_nil (h : FirstTick start period a tick) {b : Nat} (hb : b ≤ tick) :
    ticks start period a b = [] := by
  rw [ticks, List.filter_eq_nil_iff]
  intro i hi hticks
  rw [List.mem_range'_1] at hi
  obtain ⟨hstart, hdvd⟩ := of_decide_eq_true hticks
  have hle := h.le_of_tick hi.1 hstart hdvd
  omega

theorem ticks_eq_cons (hp : 0 < period) (h : FirstTick start period a tick) {b : Nat}
    (hb : tick < b) : ticks start period a b = tick :: ticks start period (tick + 1) b := by
  have hle := h.le
  have hsplit : List.range' a (b - a) =
      List.range' a (tick - a) ++ tick :: List.range' (tick + 1) (b - (tick + 1)) := by
    have hcons : List.range' tick (b - tick) =
        tick :: List.range' (tick + 1) (b - (tick + 1)) := by
      rw [show b - tick = b - (tick + 1) + 1 by omega, List.range'_succ]
    have happend := List.range'_append_1 (s := a) (m := tick - a) (n := b - tick)
    rw [show a + (tick - a) = tick by omega, show tick - a + (b - tick) = b - a by omega] at happend
    rw [← happend, hcons]
  have hnil : (List.range' a (tick - a)).filter
      (fun i => decide (start < i ∧ period ∣ i - start)) = [] := ticks_eq_nil h (Nat.le_refl tick)
  have htick : decide (start < tick ∧ period ∣ tick - start) = true := by
    obtain ⟨k, hk⟩ := h.isTick
    have hlt := h.lt
    exact decide_eq_true ⟨by omega, ⟨k + 1, by rw [Nat.mul_comm]; omega⟩⟩
  rw [ticks, hsplit, List.filter_append, hnil, List.nil_append, List.filter_cons, if_pos htick]
  rfl

/-- The ticks follow the first one at the distance of a period. -/
theorem ticks_getElem? (hp : 0 < period) (h : FirstTick start period a tick) (b n : Nat) :
    (ticks start period a b)[n]? =
      if tick + n * period < b then some (tick + n * period) else none := by
  induction n generalizing a tick with
  | zero =>
      rw [Nat.zero_mul, Nat.add_zero]
      by_cases hb : tick < b
      · rw [ticks_eq_cons hp h hb, if_pos hb, List.getElem?_cons_zero]
      · rw [ticks_eq_nil h (Nat.le_of_not_lt hb), if_neg hb, List.getElem?_nil]
  | succ n ih =>
      have hsum : tick + (n + 1) * period = tick + period + n * period := by
        rw [Nat.add_mul, Nat.one_mul]
        omega
      by_cases hb : tick < b
      · rw [ticks_eq_cons hp h hb, List.getElem?_cons_succ, ih (h.next hp), hsum]
      · rw [ticks_eq_nil h (Nat.le_of_not_lt hb), List.getElem?_nil, if_neg]
        omega

/-- A tick comes at least as many periods behind `a` as there are ticks in front of it. -/
theorem le_of_ticks_getElem? (hp : 0 < period) {b n i : Nat}
    (h : (ticks start period a b)[n]? = some i) : a + n * period ≤ i ∧ i < b := by
  obtain ⟨tick, hfirst⟩ := exists_firstTick hp start a
  have hle := hfirst.le
  rw [ticks_getElem? hp hfirst] at h
  split at h
  · cases h
    omega
  · cases h

end Keystroke.EventLoop
