import GrammarKit.Number.Binary64

/-!
Shortest decimals.

Of the decimals that read back as a given number, the shortest is the one with the fewest digits, and
of those the one nearest to the number. For one to seventeen digits in turn, the two neighbours of
the number on the grid of that many digits are read back; if a point of the grid reads back, so does
one of them.
-/

namespace GrammarKit

inductive Tie where
  | up
  | toEven
  deriving DecidableEq, Repr

namespace Binary64

def digitCount (n : Nat) : Nat := if n = 0 then 0 else (Nat.toDigits 10 n).length

def leadingExponent (units : Nat) : Int :=
  if unitsInOne ≤ units then (digitCount (units / unitsInOne) : Int) - 1
  else -(digitCount ((unitsInOne + units - 1) / units - 1) : Int)

/-- A number of units in terms of a power of ten, as numerator and denominator. -/
def onGrid (units : Nat) : Int → Nat × Nat
  | .ofNat e => (units, unitsInOne * Nat.pow 10 e)
  | .negSucc e => (units * Nat.pow 10 (e + 1), unitsInOne)

def neighbours (tie : Tie) (units : Nat) (exponent : Int) : List Nat :=
  let (num, den) := onGrid units exponent
  let below := num / den
  let twice := 2 * (num % den)
  let upFirst : Bool :=
    if twice = den then
      match tie with
      | .up => true
      | .toEven => below % 2 == 1
    else decide (den < twice)
  if upFirst then [below + 1, below] else [below, below + 1]

/-- The first neighbour that reads back, over grids of `digits` digits and more. -/
def search (tie : Tie) (x : Binary64) (units : Nat) (leading : Int) : Nat → Nat → Option (Nat × Int)
  | 0, _ => none
  | grids + 1, digits =>
    let exponent := leading + 1 - digits
    match (neighbours tie units exponent).find? fun c => nearest ⟨false, c, exponent⟩ = x with
    | some c => some (c, exponent)
    | none => search tie x units leading grids (digits + 1)

def dropZeros : Nat → Nat × Int → Nat × Int
  | 0, d => d
  | steps + 1, (c, e) => if c ≠ 0 ∧ c % 10 = 0 then dropZeros steps (c / 10, e + 1) else (c, e)

/-- Coefficient and exponent of the shortest decimal of a finite magnitude that is not zero. -/
def shortest (tie : Tie) (significand exponent : Nat) : Nat × Int :=
  let units := significand * Nat.pow 2 exponent
  let found := search tie (ofParts false significand exponent) units (leadingExponent units) 17 1
  dropZeros 1100 (found.getD (units * Nat.pow 5 1074, -1074))

end Binary64

end GrammarKit
