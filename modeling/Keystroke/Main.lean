import Keystroke.Program

/-!
# The command

Runs the program on the standard streams. The terminal is expected in raw mode
already; its settings are left to whoever starts the command. Input is read byte by
byte in a task of its own, so that ticks go on while nothing is typed.
-/

namespace Keystroke.Main

open CommandLine (Options)
open EventLoop (Machine RunError)

abbrev Reading := Task (Except IO.Error ByteArray)

structure Streams where
  input : IO.FS.Stream
  output : IO.FS.Stream
  log : IO.FS.Stream

def Streams.startReading (streams : Streams) : BaseIO Reading :=
  IO.asTask (streams.input.read 1) .dedicated

/-- Waits for a read up to the given instant, and tells whether it came. -/
partial def awaitRead (reading : Reading) (instant : Nat) : BaseIO Bool := do
  if ← IO.hasFinished reading then return true
  else if instant ≤ (← IO.monoNanosNow) then return false
  else
    IO.sleep 1
    awaitRead reading instant

/-- Prints what the echo has written and the records that pass, and forgets them. -/
def emit (streams : Streams) (filter : Log.Filter) (m : Machine Echo) : IO (Machine Echo) := do
  streams.output.putStr (String.ofList m.consumer.sink.taken)
  streams.output.flush
  for line in filter.lines m.records do
    streams.log.putStrLn line
  return { m with consumer := { m.consumer with sink := .new none none }, records := [] }

partial def serve (streams : Streams) (filter : Log.Filter) (period tickAt : Nat)
    (reading : Reading) (m : Machine Echo) :
    IO (Except (RunError Echo.Fault) ShutdownReason) := do
  let arrived ← awaitRead reading tickAt
  let now ← IO.monoNanosNow
  let arrival : EventLoop.Arrival :=
    if arrived then
      match reading.get with
      | .ok bytes => ⟨now, .data bytes.toList⟩
      | .error error => ⟨now, .failure error.toString⟩
    else ⟨now + 1, .data []⟩
  let (outcome, m, tickAt) :=
    Machine.turn Echo.consumer ⟨none, none⟩ period tickAt
      { m with clock := now, source := [arrival] }
  let m ← emit streams filter m
  match outcome with
  | some (.returned result) => return result
  | _ =>
    let reading ← if arrived then streams.startReading else pure reading
    serve streams filter period tickAt reading m

/-- The erase character of a terminal nobody has changed. -/
def eraseKey : UInt8 := 0x7f

def runOnTerminal (streams : Streams) (filter : Log.Filter) (config : Session.Config) :
    IO (Except Terminal.Error ShutdownReason) := do
  if !((← streams.input.isTty) && (← streams.output.isTty)) then return .error .notATerminal
  match (Echo.new (.new none none)).start with
  | (.error fault, _) => return .error (.io fault)
  | (.ok (), echo) =>
    let m := Machine.new config eraseKey echo []
    let started := Log.Record.started config.tickInterval config.idleThreshold eraseKey
    let m ← emit streams filter { m with records := [started] }
    let period := config.tickInterval.nanos
    let result ← serve streams filter period ((← IO.monoNanosNow) + period)
      (← streams.startReading) m
    for line in filter.lines (Terminal.finalRecords result) do
      streams.log.putStrLn line
    return Terminal.resultOf result

def fileError : IO.Error → Option FileError
  | .noFileOrDirectory _ _ _ => some .notFound
  | .inappropriateType _ code _ => some (if code = 20 then .notADirectory else .isDirectory)
  | .invalidArgument _ code _ => if code = 36 then some .nameTooLong else none
  | .permissionDenied _ code _ => if code = 13 then some .permissionDenied else none
  | .noSuchThing _ code _ => if code = 6 then some .noDevice else none
  | _ => none

def failureText (error : IO.Error) : String :=
  match fileError error with
  | some known => known.text
  | none => error.toString

def runWith (options : Options) : IO UInt32 := do
  let errors ← IO.getStderr
  let (filter, complaints) := Program.chooseFilter (← IO.getEnv "RUST_LOG") options
  complaints.forM errors.putStrLn
  try
    let log ←
      match options.logFile with
      | some path => IO.FS.Stream.ofHandle <$> IO.FS.Handle.mk path .write
      | none => pure errors
    match ← runOnTerminal ⟨← IO.getStdin, ← IO.getStdout, log⟩ filter options.config with
    | .ok _ => return 0
    | .error error =>
      errors.putStrLn (Program.failureLine (Program.errorText error))
      return 1
  catch error =>
    errors.putStrLn (Program.failureLine (failureText error))
    return 1

end Keystroke.Main

open Keystroke

def main (arguments : List String) : IO UInt32 :=
  match CommandLine.read arguments with
  | .inform info => do
    (Program.infoLines info).forM (IO.println ·)
    return 0
  | .complain error => do
    error.lines.forM (IO.eprintln ·)
    return 2
  | .run options => Main.runWith options
