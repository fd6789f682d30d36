/-!
# Durations

Whole nanoseconds up to a fixed greatest duration. Addition stops there.
-/

namespace Keystroke

/-- The greatest duration is a nanosecond short of `2 ^ 64` seconds. -/
def Duration.maxNanos : Nat := 18446744073709551615999999999

structure Duration where
  nanos : Nat
  nanos_le : nanos ≤ Duration.maxNanos
deriving DecidableEq

namespace Duration

/-- The duration of so many nanoseconds, or the greatest one. -/
def ofNanos (n : Nat) : Duration := ⟨min n maxNanos, Nat.min_le_right _ _⟩

def ofMillis (n : Nat) : Duration := ofNanos (n * 1000000)

def zero : Duration := ofNanos 0

def add (d e : Duration) : Duration := ofNanos (d.nanos + e.nanos)

theorem nanos_ofNanos (n : Nat) : (ofNanos n).nanos = min n maxNanos := rfl

theorem nanos_add (d e : Duration) : (d.add e).nanos = min (d.nanos + e.nanos) maxNanos := rfl

/-- `n` units of `unit` nanoseconds each, with the decimal places that are needed. -/
def decimalText (n unit places : Nat) : String :=
  let fraction := Nat.toDigits 10 (n % unit)
  let padded := List.replicate (places - fraction.length) '0' ++ fraction
  let kept := (padded.reverse.dropWhile (· == '0')).reverse
  toString (n / unit) ++ (if kept = [] then "" else "." ++ String.ofList kept)

/-- The largest unit of which there is at least one names the duration. -/
def text (d : Duration) : String :=
  if 1000000000 ≤ d.nanos then decimalText d.nanos 1000000000 9 ++ "s"
  else if 1000000 ≤ d.nanos then decimalText d.nanos 1000000 6 ++ "ms"
  else if 1000 ≤ d.nanos then decimalText d.nanos 1000 3 ++ "µs"
  else toString d.nanos ++ "ns"

end Duration

end Keystroke
