import Keystroke.Session
import Keystroke.Proofs.Decoder.Run

/-! # Answers of a session

What an active session does with a chunk and with elapsed time: it waits, it has
nothing to flush, or it flushes the bytes held back.
-/

namespace Keystroke

/-- The call to the decoder behind a batch. -/
def Batch.call : Batch → Decoder.Call
  | input bytes _ => .feed bytes
  | flushed _ => .flush

namespace Session

variable {s : Session}

theorem handle_input (ha : s.phase = .active) (bytes : Decoder.Bytes) :
    s.handle (.input bytes) = s.handleInput bytes := by
  simp only [handle, ha]

theorem handle_tick (ha : s.phase = .active) (elapsed : Duration) :
    s.handle (.tick elapsed) = s.handleTick elapsed := by
  simp only [handle, ha]

variable {elapsed : Duration}

theorem handleTick_of_le
    (h : (s.idle.add elapsed).nanos ≤ s.config.idleThreshold.nanos) :
    s.handleTick elapsed = noResponse { s with idle := s.idle.add elapsed } := by
  rw [handleTick, if_pos h]

theorem handleTick_of_nothing (hd : s.decoder.pending = [])
    (h : s.config.idleThreshold.nanos < (s.idle.add elapsed).nanos) :
    s.handleTick elapsed = noResponse { s with idle := .zero } := by
  rw [handleTick, if_neg (Nat.not_le.2 h), Decoder.flush_of_nothing hd]
  exact if_pos rfl

theorem handleTick_of_held (hd : s.decoder.pending ≠ [])
    (h : s.config.idleThreshold.nanos < (s.idle.add elapsed).nanos) :
    s.handleTick elapsed =
      ⟨{ s with decoder := s.decoder.flush.2, idle := .zero },
        [.forward (.flushed (s.decoder.flush.1.map Decoder.Segment.event))],
        s.decoder.flush.1.filterMap discardRecord? ++
          [.idleFlush s.decoder.flush.1.length]⟩ := by
  rw [handleTick, if_neg (Nat.not_le.2 h)]
  exact if_neg (Decoder.flush_ne_nil hd)

end Session

end Keystroke
