import Keystroke.Decoder.Step

/-!
# Characters of several bytes

A lead byte announces how many continuation bytes follow and the least code
that needs so many. A byte that breaks the sequence off is used up with it, and
an overlong form, a surrogate or a code past the last character is no character.
-/

namespace Keystroke.Decoder.Utf8

/-- What a lead byte says: the continuation bytes to come, the top bits of the code, and the
least code that is written with so many bytes. -/
structure Lead where
  following : Nat
  bits : Nat
  least : Nat
deriving DecidableEq

def lead? (b : UInt8) : Option Lead :=
  if 0xc0 ≤ b.toNat ∧ b.toNat ≤ 0xdf then some ⟨1, b.toNat - 0xc0, 0x80⟩
  else if 0xe0 ≤ b.toNat ∧ b.toNat ≤ 0xef then some ⟨2, b.toNat - 0xe0, 0x800⟩
  else if 0xf0 ≤ b.toNat ∧ b.toNat ≤ 0xf7 then some ⟨3, b.toNat - 0xf0, 0x10000⟩
  else none

def isContinuation (b : UInt8) : Bool :=
  decide (0x80 ≤ b.toNat ∧ b.toNat ≤ 0xbf)

/-- The event of a code that was written in the length for codes from `least` on. -/
def scalarEvent (least code : Nat) : KeyEvent :=
  if code < least then .invalid
  else
    match scalar? code with
    | some c => .character c
    | none => .invalid

/-- Reads continuation bytes: `following` are to come, `code` and `used` stand for those read. -/
def readContinuation (least : Nat) : (following code used : Nat) → Bytes → Step
  | 0, code, used, _ => .key (scalarEvent least code) used
  | _ + 1, _, _, [] => .incomplete
  | following + 1, code, used, b :: rest =>
    if isContinuation b then
      readContinuation least following (code * 64 + (b.toNat - 0x80)) (used + 1) rest
    else .key .invalid (used + 1)

/-- Decodes the character that begins with the byte `b` from `0x80` on. -/
def decode (b : UInt8) (rest : Bytes) : Step :=
  match lead? b with
  | some lead => readContinuation lead.least lead.following lead.bits 1 rest
  | none => .key .invalid 1

theorem readContinuation_within (least following code used : Nat) (rest : Bytes) :
    (readContinuation least following code used rest).Within used (used + rest.length) := by
  induction rest generalizing following code used with
  | nil =>
    cases following with
    | zero => exact ⟨Nat.le_refl _, Nat.le_add_right _ _⟩
    | succ following => trivial
  | cons b rest ih =>
    cases following with
    | zero => exact ⟨Nat.le_refl _, Nat.le_add_right _ _⟩
    | succ following =>
      simp only [readContinuation, List.length_cons]
      split
      · exact (ih following _ (used + 1)).mono (by omega) (by omega)
      · exact ⟨by omega, by omega⟩

theorem decode_within (b : UInt8) (rest : Bytes) :
    (decode b rest).Within 1 (rest.length + 1) := by
  unfold decode
  split
  · exact (readContinuation_within _ _ _ _ _).mono (by omega) (by omega)
  · exact ⟨by omega, by omega⟩

end Keystroke.Decoder.Utf8
