import Keystroke.Decoder.Utf8
import Keystroke.Decoder.ControlSequence

/-!
# Scanning input

Input is cut into segments, one key each, from the front. At the end of the
input, a tail that more bytes could still complete is either left over or, once
the wait for more is over, decided as it stands.
-/

namespace Keystroke.Decoder

def escByte : UInt8 := 0x1b

/-- A control byte is Ctrl with the letter or sign that has its low five bits. -/
def controlCharacter (b : UInt8) : Char :=
  Char.ofUInt8 (if b.toNat ≤ 0x1a then b + 0x60 else b + 0x40)

/-- The event of a byte that is a key by itself. The erase character `backspace` counts only
where the byte has no meaning of its own. -/
def singleByteEvent? (backspace b : UInt8) : Option KeyEvent :=
  if b = 0x00 then some (.press (.function .space) .onlyCtrl)
  else if b = 0x09 then some (.function .tab)
  else if b = 0x0d then some (.function .enter)
  else if b = escByte then some (.function .escape)
  else if b.toNat < 0x20 then some (.press (.codepoint (controlCharacter b)) .onlyCtrl)
  else if b = 0x20 then some (.function .space)
  else if b.toNat < 0x7f then some (.character (Char.ofUInt8 b))
  else if b = backspace then some (.function .backspace)
  else if b = 0x7f then some .invalid
  else none

/-- Decodes one key that is no escape sequence. -/
def decodeKey (backspace : UInt8) : Bytes → Step
  | [] => .incomplete
  | b :: rest =>
    match singleByteEvent? backspace b with
    | some event => .key event 1
    | none => Utf8.decode b rest

/-- A key that is final only because nothing follows. -/
def onlyAtEnd (atEnd : Bool) (event : KeyEvent) (used : Nat) : Step :=
  if atEnd then .key event used else .incomplete

/-- Decodes what follows `ESC [`, or the key Alt and `[` if nothing does. -/
def decodeBracket (atEnd : Bool) : Bytes → Step
  | [] => onlyAtEnd atEnd (.press (.codepoint '[') .onlyAlt) 2
  | b :: rest => (ControlSequence.decode (b :: rest)).shift 2

/-- Decodes what follows `ESC O`, or the key Alt and `O` if nothing does. -/
def decodeSingleShift (atEnd : Bool) : Bytes → Step
  | [] => onlyAtEnd atEnd (.press (.codepoint 'O') .onlyAlt) 2
  | b :: _ => .key (ControlSequence.singleShiftEvent b) 3

/-- Decodes what follows `ESC`: a sequence, the next key with Alt, or Escape if nothing
follows. -/
def decodeEscape (backspace : UInt8) (atEnd : Bool) : Bytes → Step
  | [] => onlyAtEnd atEnd (.function .escape) 1
  | b :: rest =>
    if b = 0x5b then decodeBracket atEnd rest
    else if b = 0x4f then decodeSingleShift atEnd rest
    else ((decodeKey backspace (b :: rest)).mapEvent (·.withModifiers .onlyAlt)).shift 1

/-- Decodes one key at the front of the input; `atEnd` says that nothing follows the input. -/
def decodeOne (backspace : UInt8) (atEnd : Bool) : Bytes → Step
  | [] => .incomplete
  | b :: rest =>
    if b = escByte then decodeEscape backspace atEnd rest
    else decodeKey backspace (b :: rest)

theorem decodeKey_within (backspace : UInt8) (input : Bytes) :
    (decodeKey backspace input).Within 1 input.length := by
  cases input with
  | nil => trivial
  | cons b rest =>
    simp only [decodeKey]
    split
    · exact ⟨Nat.le_refl _, by simp⟩
    · exact Utf8.decode_within b rest

theorem onlyAtEnd_within (atEnd : Bool) (event : KeyEvent) (used : Nat) :
    (onlyAtEnd atEnd event used).Within used used := by
  cases atEnd with
  | false => trivial
  | true => exact ⟨Nat.le_refl _, Nat.le_refl _⟩

theorem decodeBracket_within (atEnd : Bool) (rest : Bytes) :
    (decodeBracket atEnd rest).Within 2 (rest.length + 2) := by
  cases rest with
  | nil => exact onlyAtEnd_within _ _ _
  | cons b rest =>
    exact ((ControlSequence.decode_within (b :: rest)).shift 2).mono (by omega) (Nat.le_refl _)

theorem decodeSingleShift_within (atEnd : Bool) (rest : Bytes) :
    (decodeSingleShift atEnd rest).Within 2 (rest.length + 2) := by
  cases rest with
  | nil => exact onlyAtEnd_within _ _ _
  | cons b rest => exact ⟨by omega, by simp only [List.length_cons]; omega⟩

theorem decodeEscape_within (backspace : UInt8) (atEnd : Bool) (rest : Bytes) :
    (decodeEscape backspace atEnd rest).Within 1 (rest.length + 1) := by
  cases rest with
  | nil => exact onlyAtEnd_within _ _ _
  | cons b rest =>
    simp only [decodeEscape]
    split
    · exact (decodeBracket_within atEnd rest).mono (by omega) (Nat.le_refl _)
    · split
      · exact (decodeSingleShift_within atEnd rest).mono (by omega) (Nat.le_refl _)
      · exact (((decodeKey_within backspace (b :: rest)).mapEvent _).shift 1).mono (by omega)
          (Nat.le_refl _)

/-- A decided key takes at least one byte and no more than there are. -/
theorem decodeOne_within (backspace : UInt8) (atEnd : Bool) (input : Bytes) :
    (decodeOne backspace atEnd input).Within 1 input.length := by
  cases input with
  | nil => trivial
  | cons b rest =>
    simp only [decodeOne]
    split
    · exact decodeEscape_within backspace atEnd rest
    · exact decodeKey_within backspace (b :: rest)

/-- One decided key with the bytes it took. It is `truncated` if it stands for a sequence that
was given up at the end of the input. -/
structure Segment where
  bytes : Bytes
  event : KeyEvent
  truncated : Bool
deriving DecidableEq

/-- Cuts the input into segments and the tail that is left over. At the end of the input there
is no tail: a sequence that cannot complete is one invalid key. -/
def scan (backspace : UInt8) (atEnd : Bool) (input : Bytes) : List Segment × Bytes :=
  if input = [] then ([], [])
  else
    match _ : decodeOne backspace atEnd input with
    | .key event used =>
      let (segments, tail) := scan backspace atEnd (input.drop used)
      (⟨input.take used, event, false⟩ :: segments, tail)
    | .incomplete => if atEnd then ([⟨input, .invalid, true⟩], []) else ([], input)
termination_by input.length
decreasing_by
  rename_i h
  have hw := decodeOne_within backspace atEnd input
  rw [h] at hw
  have hu := hw.1
  have hm := hw.2
  rw [List.length_drop]
  omega

end Keystroke.Decoder
