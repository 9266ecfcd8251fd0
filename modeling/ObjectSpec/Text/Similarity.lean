import ObjectSpec.Double.Decimal

/-!
# Similarity of two texts

The Jaro–Winkler score, from 0 to 1: how many characters the texts have in
common at nearby places, how many of these are out of order, and a bonus for a
common beginning. Each step is rounded to a double.
-/

namespace ObjectSpec.Text

/-- The first place of `c` in `b` from `low` up to `high` that is not taken. -/
def freePlace? (b : List Char) (c : Char) (low high : Nat) (taken : List Nat) : Option Nat :=
  ((b.zipIdx.take high).find? fun (d, j) => decide (low ≤ j) && d == c && !taken.contains j).map
    Prod.snd

/-- The characters of `a` from place `i` on that find a place in `b` within `reach`, with it. -/
def commonFrom (b : List Char) (reach : Nat) : Nat → List Nat → List Char → List (Char × Nat)
  | _, _, [] => []
  | i, taken, c :: cs =>
    match freePlace? b c (i - reach) (min b.length (i + reach + 1)) taken with
    | some j => (c, j) :: commonFrom b reach (i + 1) (j :: taken) cs
    | none => commonFrom b reach (i + 1) taken cs

/-- The common characters, with their places in `b`. -/
def common (a b : List Char) : List (Char × Nat) :=
  commonFrom b (max a.length b.length / 2 - 1) 0 [] a

/-- How many pairs of common characters change places. -/
def transpositions (b : List Char) (found : List (Char × Nat)) : Nat :=
  let places := found.map Prod.snd
  let inOrder := (b.zipIdx.filter fun (_, j) => places.contains j).map Prod.fst
  ((found.map Prod.fst).zip inOrder).countP (fun (c, d) => c != d) / 2

def ratio (a b : Nat) : Double := (Double.ofInt a).div (Double.ofInt b)

/-- The Jaro score. -/
def jaro (a b : List Char) : Double :=
  if a.isEmpty && b.isEmpty then Double.ofInt 1
  else
    let found := common a b
    let m := found.length
    if m = 0 then Double.ofInt 0
    else
      let inOrder := m - transpositions b found
      (((ratio m a.length).add (ratio m b.length)).add (ratio inOrder m)).div (Double.ofInt 3)

def commonStart : List Char → List Char → Nat
  | a :: as, b :: bs => if a = b then commonStart as bs + 1 else 0
  | _, _ => 0

/-- A decimal fraction below one. -/
def fraction (digits places : Nat) : Double := Decimal.toDouble false ⟨digits, -places⟩

/-- The Jaro–Winkler score: texts that are similar already gain a tenth of what is missing for each
of up to four characters at the start that they share. -/
def similarity (a b : String) : Double :=
  let a := a.toList
  let b := b.toList
  let score := jaro a b
  if score.atMost (fraction 7 1) then score
  else
    let shared := commonStart (a.take 4) b
    score.add (((fraction 1 1).mul (Double.ofInt shared)).mul ((Double.ofInt 1).sub score))

end ObjectSpec.Text
