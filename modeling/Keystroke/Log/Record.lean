import Keystroke.Duration
import Keystroke.Session.Reason

/-!
# Log records

Everything that is worth a line in the log, each kind with its level, the target
that filters select it by, and its message.
-/

namespace Keystroke.Log

inductive Level where
  | error | warn | info | debug | trace
deriving DecidableEq, Repr

namespace Level

/-- Lower is more severe. -/
def rank : Level → Nat
  | error => 1
  | warn => 2
  | info => 3
  | debug => 4
  | trace => 5

def text : Level → String
  | error => "ERROR"
  | warn => "WARN"
  | info => "INFO"
  | debug => "DEBUG"
  | trace => "TRACE"

end Level

inductive Record where
  /-- Bytes that form no key were dropped while decoding. -/
  | undecodable (bytes : List UInt8)
  /-- A held-back sequence that cannot complete was dropped. -/
  | truncated (bytes : List UInt8)
  | idleFlush (count : Nat)
  | shuttingDown (reason : ShutdownReason) (pending : Nat)
  | started (tick idle : Duration) (backspace : UInt8)
  | readFailed (error : String)
  /-- What an echo switched on in the terminal could not be switched off. -/
  | restoreFailed (error : String)
  | enteredRawMode (erase : UInt8)
  | restoredSettings
  | finished (reason : ShutdownReason)
deriving DecidableEq

namespace Record

def level : Record → Level
  | undecodable _ => .trace
  | truncated _ => .trace
  | idleFlush _ => .trace
  | shuttingDown _ _ => .debug
  | started _ _ _ => .debug
  | readFailed _ => .warn
  | restoreFailed _ => .warn
  | enteredRawMode _ => .debug
  | restoredSettings => .debug
  | finished _ => .info

def target : Record → String
  | undecodable _ => "ttykey_core::decoder"
  | truncated _ => "ttykey_core::decoder"
  | idleFlush _ => "ttykey_core::session"
  | shuttingDown _ _ => "ttykey_core::session"
  | started _ _ _ => "ttykey_app::runtime"
  | readFailed _ => "ttykey_app::runtime"
  | restoreFailed _ => "ttykey_tui::echo"
  | enteredRawMode _ => "ttykey_tui::terminal"
  | restoredSettings => "ttykey_tui::terminal"
  | finished _ => "ttykey_tui"

/-- The names of what a record carries. -/
def fields : Record → List String
  | undecodable _ => ["message", "bytes"]
  | truncated _ => ["message", "bytes"]
  | idleFlush _ => ["message", "count"]
  | shuttingDown _ _ => ["message", "reason", "pending"]
  | started _ _ _ => ["message", "tick", "idle", "backspace"]
  | readFailed _ => ["message"]
  | restoreFailed _ => ["message"]
  | enteredRawMode _ => ["message", "erase"]
  | restoredSettings => ["message"]
  | finished _ => ["message", "reason"]

/-- Bytes in decimal. -/
def bytesText (bytes : List UInt8) : String :=
  "[" ++ String.intercalate ", " (bytes.map fun b => toString b.toNat) ++ "]"

def message : Record → String
  | undecodable bytes => "discarding undecodable input bytes=Some(" ++ bytesText bytes ++ ")"
  | truncated bytes => "discarding truncated sequence bytes=" ++ bytesText bytes
  | idleFlush count => "idle flush count=" ++ toString count
  | shuttingDown reason pending =>
    "input session shutting down reason=" ++ reason.text ++ " pending=" ++ toString pending
  | started tick idle backspace =>
    "input runtime started tick=" ++ tick.text ++ " idle=" ++ idle.text ++ " backspace=" ++
      toString backspace.toNat
  | readFailed error => "input read failed: " ++ error
  | restoreFailed error => "failed to disable terminal reporting modes: " ++ error
  | enteredRawMode erase => "entered raw terminal mode erase=" ++ toString erase.toNat
  | restoredSettings => "restored terminal settings"
  | finished reason => "key echo finished reason=" ++ reason.text

def line (record : Record) : String :=
  record.level.text ++ " " ++ record.target ++ ": " ++ record.message

end Record

end Keystroke.Log
