/-!
# Terminal settings

Raw mode turns off everything a terminal does to its input and output on its own.
It is entered with a guard that holds the settings found, and left by putting them
back.
-/

namespace Keystroke.Terminal

structure Settings where
  /-- Input is delivered in lines that can be edited. -/
  canonical : Bool
  echo : Bool
  /-- Control characters raise signals. -/
  signals : Bool
  extendedInput : Bool
  /-- Carriage return is read as line feed. -/
  returnAsLineFeed : Bool
  /-- Control characters stop and resume the output. -/
  flowControl : Bool
  outputProcessing : Bool
  /-- The erase character, zero if there is none. -/
  erase : UInt8
deriving DecidableEq, Repr

namespace Settings

/-- Everything is on, with the given erase character. -/
def interactive (erase : UInt8) : Settings := ⟨true, true, true, true, true, true, true, erase⟩

def raw (s : Settings) : Settings := ⟨false, false, false, false, false, false, false, s.erase⟩

def isRaw (s : Settings) : Bool :=
  !(s.canonical || s.echo || s.signals || s.extendedInput || s.returnAsLineFeed ||
    s.flowControl || s.outputProcessing)

/-- The erase character that counts while keys are decoded: Delete where none is set. -/
def eraseKey (s : Settings) : UInt8 := if s.erase = 0 then 0x7f else s.erase

end Settings

/-- What is needed to leave raw mode again. -/
structure RawMode where
  found : Settings
deriving DecidableEq

namespace RawMode

/-- The guard, and the settings in force from now on. -/
def enter (s : Settings) : RawMode × Settings := (⟨s⟩, s.raw)

def leave (mode : RawMode) : Settings := mode.found

end RawMode

end Keystroke.Terminal
