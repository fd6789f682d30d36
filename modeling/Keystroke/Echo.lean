import Keystroke.Echo.Sink
import Keystroke.Echo.Text
import Keystroke.EventLoop.Consumer
import Keystroke.Log.Record

/-!
# The echo

A consumer that prints every batch. Between start and stop the terminal reports
focus changes and marks pasted text. Ctrl-Q, and no other modifier with it, asks to
quit.
-/

namespace Keystroke

open Echo (Sink Fault Operation)
open Log (Record)

structure Echo where
  sink : Sink
  /-- Started and not yet stopped again. -/
  started : Bool
  /-- What it has logged. -/
  records : List Record
deriving DecidableEq

namespace Echo

def new (sink : Sink) : Echo := ⟨sink, false, []⟩

def enableFocusReports : String := "\x1b[?1004h"

def disableFocusReports : String := "\x1b[?1004l"

def enablePasteMarkers : String := "\x1b[?2004h"

def disablePasteMarkers : String := "\x1b[?2004l"

def greeting : String := "Press Ctrl-Q to exit\r\n"

def startOperations : List Operation :=
  [.write enableFocusReports.toList, .write enablePasteMarkers.toList,
    .write greeting.toList, .flush]

def batchOperations (batch : Batch) : List Operation :=
  [.write (batchText batch).toList, .flush]

def stopOperations : List Operation :=
  [.write disablePasteMarkers.toList, .write disableFocusReports.toList, .flush]

/-- The echo counts as started only if the terminal took everything. -/
def start (echo : Echo) : Except Fault Unit × Echo :=
  let (result, sink) := echo.sink.perform startOperations
  let started := match result with | .ok () => true | .error _ => echo.started
  (result, { echo with sink := sink, started := started })

def isQuit (event : KeyEvent) : Bool :=
  decide (event = .press (.codepoint 'q') .onlyCtrl)

def forward (echo : Echo) (batch : Batch) : Except Fault EventLoop.Flow × Echo :=
  match echo.sink.perform (batchOperations batch) with
  | (.ok (), sink) =>
    (.ok (if batch.events.any isQuit then .quit else .proceed), { echo with sink := sink })
  | (.error fault, sink) => (.error fault, { echo with sink := sink })

/-- What is logged when a start is undone. -/
def stopRecords : Except Fault Unit → List Record
  | .ok () => []
  | .error fault => [.restoreFailed fault.message]

/-- Undoes a start, once. A failure is logged and not reported. -/
def stop (echo : Echo) : Echo :=
  if echo.started then
    let (result, sink) := echo.sink.perform stopOperations
    ⟨sink, false, echo.records ++ stopRecords result⟩
  else echo

def consumer : EventLoop.Consumer Echo Fault where
  forward _ batch echo := echo.forward batch
  stop _ echo := echo.stop

end Echo

end Keystroke
