/-!
# Similarity of words

How far two words agree, for suggesting what was meant. Two characters are partners
if they are equal and no farther apart than half the longer word; a word's partners
in a different order count half. The similarity is the mean of three shares: the
partners in either word, and those of them that keep their order.
-/

namespace Keystroke.CommandLine.Similarity

/-- How far partners may be apart. -/
def reach (a b : List Char) : Nat := max a.length b.length / 2 - 1

/-- The first position for which `test` holds, counted from `position`. -/
def firstFrom (position : Nat) (test : Nat → Char → Bool) : List Char → Option Nat
  | [] => none
  | c :: rest => if test position c then some position else firstFrom (position + 1) test rest

/-- The characters that find a partner, each with the position of the first one that is free;
`position` is that of the first character. -/
def partners (reach : Nat) (other : List Char) (position : Nat) (taken : List Nat) :
    List Char → List (Char × Nat)
  | [] => []
  | c :: rest =>
    let fits (j : Nat) (d : Char) : Bool :=
      decide (position ≤ j + reach) && decide (j ≤ position + reach) && c == d &&
        !taken.contains j
    match firstFrom 0 fits other with
    | some j => (c, j) :: partners reach other (position + 1) (j :: taken) rest
    | none => partners reach other (position + 1) taken rest

/-- The characters of a word at the given positions, in the order of the word. -/
def charactersAt (positions : List Nat) (word : List Char) : List Char :=
  (word.zipIdx.filter fun (_, i) => positions.contains i).map Prod.fst

/-- The similarity of two words, rounded where its parts are computed. -/
def score (a b : List Char) : Float :=
  let found := partners (reach a b) b 0 [] a
  let inOrder := charactersAt (found.map Prod.snd) b
  let swaps := ((found.map Prod.fst).zip inOrder).countP (fun (c, d) => c != d) / 2
  let matched := found.length.toFloat
  if found.length = 0 then 0.0
  else
    (matched / a.length.toFloat + matched / b.length.toFloat +
      (matched - swaps.toFloat) / matched) / 3.0

/-- A similarity above seven tenths is worth a suggestion. -/
def isClose (score : Float) : Bool := decide (0.7 < score)

/-- The candidate most similar to a word, the last one of several, if any is close to it. -/
def closest? {α : Type} (word : String) (spelling : α → String) (candidates : List α) : Option α :=
  let scored := candidates.map fun candidate =>
    (candidate, score word.toList (spelling candidate).toList)
  let best := (scored.filter fun (_, score) => isClose score).foldl
    (fun (best : Option (α × Float)) entry =>
      match best with
      | some found => if found.2 ≤ entry.2 then some entry else best
      | none => some entry)
    none
  best.map Prod.fst

end Keystroke.CommandLine.Similarity
