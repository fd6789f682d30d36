/-!
# Plain text

What remains of a text when everything is taken out that a terminal would act on
instead of showing it. Control sequences are followed to their ends; blanks that
end a line or move along it stay.
-/

namespace Keystroke.CommandLine.Plain

/-- What a terminal is in the middle of: nothing, an escape, a control sequence (`csi`), a
command to the operating system (`osc`), a device control string (`dcs`), or another string. -/
inductive Place where
  | ground
  | escape | escapeIntermediate
  | csi | csiParameters | csiIntermediate | csiIgnored
  | osc
  | dcs | dcsParameters | dcsIntermediate | dcsIgnored | dcsPayload
  | string
deriving DecidableEq, Repr

/-- The roles of ASCII characters in sequences. -/
inductive Role where
  | control | intermediate | parameter | privateMark | final
deriving DecidableEq, Repr

def Role.of (c : Char) : Role :=
  if c.toNat < 0x20 ∨ c.toNat = 0x7f then control
  else if c.toNat < 0x30 then intermediate
  else if c.toNat < 0x3c then parameter
  else if c.toNat < 0x40 then privateMark
  else final

namespace Place

def afterEscape : Char → Place
  | '[' => csi
  | ']' => osc
  | 'P' => dcs
  | 'X' => string
  | '^' => string
  | '_' => string
  | _ => ground

/-- Within a sequence. -/
def inside (place : Place) (c : Char) : Place :=
  match place, Role.of c with
  | escape, .control => escape
  | escape, .intermediate => escapeIntermediate
  | escape, _ => afterEscape c
  | escapeIntermediate, .control => escapeIntermediate
  | escapeIntermediate, .intermediate => escapeIntermediate
  | csi, .control => csi
  | csi, .intermediate => csiIntermediate
  | csi, .parameter => csiParameters
  | csi, .privateMark => csiParameters
  | csiParameters, .control => csiParameters
  | csiParameters, .intermediate => csiIntermediate
  | csiParameters, .parameter => csiParameters
  | csiParameters, .privateMark => csiIgnored
  | csiIntermediate, .control => csiIntermediate
  | csiIntermediate, .intermediate => csiIntermediate
  | csiIntermediate, .parameter => csiIgnored
  | csiIntermediate, .privateMark => csiIgnored
  | csiIgnored, .final => ground
  | csiIgnored, _ => csiIgnored
  | osc, _ => if c = '\x07' then ground else osc
  | dcs, .control => dcs
  | dcs, .intermediate => dcsIntermediate
  | dcs, .parameter => dcsParameters
  | dcs, .privateMark => dcsParameters
  | dcs, .final => dcsPayload
  | dcsParameters, .control => dcsParameters
  | dcsParameters, .intermediate => dcsIntermediate
  | dcsParameters, .parameter => dcsParameters
  | dcsParameters, .privateMark => dcsIgnored
  | dcsParameters, .final => dcsPayload
  | dcsIntermediate, .control => dcsIntermediate
  | dcsIntermediate, .intermediate => dcsIntermediate
  | dcsIntermediate, .parameter => dcsIgnored
  | dcsIntermediate, .privateMark => dcsIgnored
  | dcsIntermediate, .final => dcsPayload
  | dcsIgnored, _ => dcsIgnored
  | dcsPayload, _ => dcsPayload
  | string, _ => string
  | _, _ => ground

/-- After an ASCII character. Cancelling ends a sequence and an escape begins one anywhere. -/
def next (place : Place) (c : Char) : Place :=
  if c = '\x18' ∨ c = '\x1a' then ground
  else if c = '\x1b' then escape
  else place.inside c

/-- Whether control characters are acted on at once, so that blanks among them stay. -/
def obeysControls : Place → Bool
  | ground | escape | escapeIntermediate => true
  | csi | csiParameters | csiIntermediate | csiIgnored => true
  | _ => false

/-- Whether the byte `9c` ends the string. -/
def endsAtTerminator : Place → Bool
  | dcsIgnored | dcsPayload | string => true
  | _ => false

end Place

def isLineControl (c : Char) : Bool := c == '\t' || c == '\n' || c == '\x0c' || c == '\r'

def isPrintable (c : Char) : Bool := decide (0x20 ≤ c.toNat) && decide (c.toNat < 0x7f)

/-- A reader of text. While it is showing characters the place is left as it was before. -/
structure Reader where
  place : Place
  showing : Bool

namespace Reader

def start : Reader := ⟨.ground, false⟩

/-- Whether an ASCII character is shown. -/
def shows (r : Reader) (c : Char) : Bool :=
  if r.showing then isPrintable c || isLineControl c
  else (r.place == .ground && isPrintable c) || (r.place.obeysControls && isLineControl c)

def stepAscii (r : Reader) (c : Char) : Reader :=
  if r.showing && r.shows c then r else ⟨r.place.next c, r.shows c⟩

/-- Other characters are shown outside of sequences; their bytes can end a string. -/
def stepWide (r : Reader) (c : Char) : Reader :=
  if r.showing || r.place == .ground then ⟨.ground, true⟩
  else if r.place.endsAtTerminator && (String.utf8EncodeChar c).contains 0x9c then ⟨.ground, false⟩
  else r

def step (r : Reader) (c : Char) : Reader :=
  if c.toNat < 0x80 then r.stepAscii c else r.stepWide c

/-- A character was shown if the reader shows after it. -/
def remains (r : Reader) : List Char → List Char
  | [] => []
  | c :: rest =>
    let next := r.step c
    if next.showing then c :: next.remains rest else next.remains rest

end Reader

/-- The text without control sequences and control characters. -/
def text (s : String) : String := String.ofList (Reader.start.remains s.toList)

end Keystroke.CommandLine.Plain
