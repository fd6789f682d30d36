import Keystroke.Session

/-!
# The text of batches

Raw bytes and decoded keys are printed as lists in brackets. The terminal is in raw
mode, so lines end in carriage return and line feed.
-/

namespace Keystroke.Echo

open Decoder (Bytes)

def listText (items : List String) : String :=
  "[" ++ String.intercalate ", " items ++ "]"

def bytesText (bytes : Bytes) : String :=
  listText (bytes.map fun b => hexText b.toNat)

def eventsText (events : List KeyEvent) : String :=
  listText (events.map KeyEvent.text)

def inputLine (bytes : Bytes) : String :=
  "input: " ++ bytesText bytes ++ "\r\n"

def outputLine (events : List KeyEvent) : String :=
  "output: " ++ eventsText events ++ "\r\n"

/-- The raw bytes of a chunk go in front of its keys; a flush has only keys. -/
def batchText : Batch → String
  | .input bytes events => inputLine bytes ++ outputLine events
  | .flushed events => outputLine events

end Keystroke.Echo
