import Keystroke.Session
import Keystroke.Unsigned

/-!
# Options

What can be given on the command line: four settings, each with a value, and two
requests for information.
-/

namespace Keystroke.CommandLine

inductive Setting where
  | tickMs | idleMs | logLevel | logFile
deriving DecidableEq, Repr

inductive Info where
  | help | version
deriving DecidableEq, Repr

/-- Everything that has a long name. -/
inductive Named where
  | setting (setting : Setting)
  | info (info : Info)
deriving DecidableEq, Repr

namespace Named

/-- In the order in which they are offered. -/
def all : List Named :=
  [.setting .tickMs, .setting .idleMs, .setting .logLevel, .setting .logFile,
    .info .help, .info .version]

def isSetting : Named → Bool
  | setting _ => true
  | info _ => false

def long : Named → String
  | setting .tickMs => "tick-ms"
  | setting .idleMs => "idle-ms"
  | setting .logLevel => "log-level"
  | setting .logFile => "log-file"
  | info .help => "help"
  | info .version => "version"

def placeholder : Named → String
  | setting .tickMs => " <TICK_MS>"
  | setting .idleMs => " <IDLE_MS>"
  | setting .logLevel => " <LOG_LEVEL>"
  | setting .logFile => " <LOG_FILE>"
  | info _ => ""

/-- The name as it is written, with a place for the value. -/
def shape (named : Named) : String := "--" ++ named.long ++ named.placeholder

def ofLong? (name : String) : Option Named := all.find? (·.long == name)

end Named

structure Options where
  tickMs : Nat
  idleMs : Nat
  logLevel : String
  logFile : Option String
deriving DecidableEq

def Options.standard : Options := ⟨25, 50, "warn", none⟩

def Options.config (options : Options) : Session.Config :=
  ⟨.ofMillis options.tickMs, .ofMillis options.idleMs⟩

inductive ValueError where
  /-- An empty value where one is required. -/
  | missing
  | unreadable (error : Unsigned.Error)
  /-- A tick interval of zero. -/
  | zero
deriving DecidableEq, Repr

/-- Reads the value of a setting. -/
def Options.set (options : Options) (setting : Setting) (value : String) :
    Except ValueError Options :=
  match setting with
  | .tickMs =>
    match Unsigned.read value.toList with
    | .error e => .error (.unreadable e)
    | .ok n => if n = 0 then .error .zero else .ok { options with tickMs := n }
  | .idleMs =>
    match Unsigned.read value.toList with
    | .error e => .error (.unreadable e)
    | .ok n => .ok { options with idleMs := n }
  | .logLevel => .ok { options with logLevel := value }
  | .logFile => if value = "" then .error .missing else .ok { options with logFile := some value }

end Keystroke.CommandLine
