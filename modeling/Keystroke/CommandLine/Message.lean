import Keystroke.CommandLine.Options
import Keystroke.CommandLine.Plain

/-!
# What the command line answers

The text of help and version, and the wording of every error with the usage line
that goes with it.
-/

namespace Keystroke.CommandLine

inductive Error where
  | missingValue (setting : Setting)
  | zeroTick (value : String)
  | unreadable (setting : Setting) (value : String) (error : Unsigned.Error)
  | repeated (setting : Setting)
  /-- An unknown argument, what it may have meant, and what the usage line shows. -/
  | unexpected (argument : String) (meant : Option Named) (shown : List Named)
  /-- A value for something that takes none, perhaps behind settings. -/
  | surplusValue (info : Info) (value : String) (behindSettings : Bool)
deriving DecidableEq

def programName : String := "keyecho"

def usageOf (arguments : String) : String := "Usage: " ++ programName ++ " " ++ arguments

/-- What is shown is given by name; if there is nothing to show, the options are summed up. -/
def usage (shown : List Named) : String :=
  usageOf (if shown = [] then "[OPTIONS]" else String.intercalate " " (shown.map Named.shape))

/-- All settings, as something of which one is chosen. -/
def anySetting : String :=
  "<" ++ String.intercalate "|" ((Named.all.filter Named.isSetting).map Named.shape) ++ ">"

def helpLines : List String :=
  ["Print the keys decoded from raw terminal input",
    "",
    usage [],
    "",
    "Options:",
    "      --tick-ms <TICK_MS>      Tick interval in milliseconds [default: 25]",
    "      --idle-ms <IDLE_MS>      Idle time in milliseconds after which pending input is " ++
      "flushed [default: 50]",
    "      --log-level <LOG_LEVEL>  Log level (trace, debug, info, warn, error) [default: warn]",
    "      --log-file <LOG_FILE>    Write logs to this file instead of stderr",
    "  -h, --help                   Print help",
    "  -V, --version                Print version"]

def versionLines : List String := [programName ++ " 0.1.0"]

namespace Error

def quotedShape (named : Named) : String := "'" ++ named.shape ++ "'"

def invalidValue (setting : Setting) (value cause : String) : String :=
  "invalid value '" ++ Plain.text value ++ "' for " ++ quotedShape (.setting setting) ++ ": " ++
    cause

def summary : Error → String
  | missingValue setting =>
    "a value is required for " ++ quotedShape (.setting setting) ++ " but none was supplied"
  | zeroTick value => invalidValue .tickMs value "0 is not in 1..18446744073709551615"
  | unreadable setting value error => invalidValue setting value error.message
  | repeated setting =>
    "the argument " ++ quotedShape (.setting setting) ++ " cannot be used multiple times"
  | unexpected argument _ _ => "unexpected argument '" ++ Plain.text argument ++ "' found"
  | surplusValue info value _ =>
    "unexpected value '" ++ Plain.text value ++ "' for " ++ quotedShape (.info info) ++
      " found; no more were expected"

def details : Error → List String
  | missingValue _ => []
  | zeroTick _ => []
  | unreadable _ _ _ => []
  | repeated _ => [usage [], ""]
  | unexpected _ none shown => [usage shown, ""]
  | unexpected _ (some meant) shown =>
    ["  tip: a similar argument exists: '--" ++ meant.long ++ "'", "", usage shown, ""]
  | surplusValue info _ false => [usage [.info info], ""]
  | surplusValue info _ true => [usageOf ((Named.info info).shape ++ " " ++ anySetting), ""]

def lines (error : Error) : List String :=
  ["error: " ++ error.summary, ""] ++ error.details ++
    ["For more information, try '--help'."]

end Error

end Keystroke.CommandLine
