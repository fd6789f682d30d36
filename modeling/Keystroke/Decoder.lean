import Keystroke.Decoder.Scan

/-!
# The key decoder

Bytes arrive in chunks of any size. Feeding decodes every complete key and holds
back the tail that more bytes could complete; flushing decides that tail once the
wait for more bytes is over, and holds nothing back.
-/

namespace Keystroke

open Decoder (Bytes Segment scan)

structure Decoder where
  /-- The erase character of the terminal. -/
  backspace : UInt8
  /-- The bytes held back. -/
  pending : Bytes
deriving DecidableEq

namespace Decoder

def new (backspace : UInt8) : Decoder := ⟨backspace, []⟩

def hasPending (d : Decoder) : Bool := !d.pending.isEmpty

/-- The segments decided by more bytes, and the decoder behind them. -/
def feed (d : Decoder) (bytes : Bytes) : List Segment × Decoder :=
  let (segments, tail) := scan d.backspace false (d.pending ++ bytes)
  (segments, { d with pending := tail })

/-- The segments decided by the end of the wait for more bytes. -/
def flush (d : Decoder) : List Segment × Decoder :=
  let (segments, tail) := scan d.backspace true d.pending
  (segments, { d with pending := tail })

end Decoder

end Keystroke
