/-!
# Decimal numbers

Numbers with a sign, a fraction and an exponent, all of them optional, and the words
for infinity and for what is no number.
-/

namespace Keystroke.Decimal

def unsigned : List Char → List Char
  | '+' :: rest => rest
  | '-' :: rest => rest
  | text => text

def isExponent : List Char → Bool
  | [] => true
  | c :: rest => (c == 'e' || c == 'E') && unsigned rest != [] && (unsigned rest).all Char.isDigit

/-- Digits, of which the whole part or the fraction may be missing, and an exponent. -/
def isFinite (text : List Char) : Bool :=
  let whole := text.takeWhile Char.isDigit
  match text.drop whole.length with
  | '.' :: rest =>
    let fraction := rest.takeWhile Char.isDigit
    (whole != [] || fraction != []) && isExponent (rest.drop fraction.length)
  | rest => whole != [] && isExponent rest

def words : List String := ["inf", "infinity", "nan"]

def isNumber (text : List Char) : Bool :=
  isFinite (unsigned text) || words.contains (String.ofList ((unsigned text).map Char.toLower))

end Keystroke.Decimal
