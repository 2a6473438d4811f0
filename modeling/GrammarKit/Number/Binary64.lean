import GrammarKit.Number.Decimal

/-!
Binary floating point numbers of 64 bits.

A finite number is `significand * 2 ^ exponent` units, one unit being `2 ^ -1074`, the least number
above zero. Each number has one such form: the significand has 53 bits, or fewer where the exponent
is zero. Both zeros are numbers of their own. Rounding goes to the nearest number, and from the
middle between two to the one with the even significand.
-/

namespace GrammarKit

namespace Binary64

def maxExponent : Nat := 2045

def leastFull : Nat := Nat.pow 2 52

def significandLimit : Nat := Nat.pow 2 53

def unitsInOne : Nat := Nat.pow 2 1074

def Canonical (significand exponent : Nat) : Prop :=
  significand < significandLimit ∧ (exponent = 0 ∨ leastFull ≤ significand) ∧
    exponent ≤ maxExponent

instance (significand exponent : Nat) : Decidable (Canonical significand exponent) :=
  inferInstanceAs (Decidable (_ ∧ _ ∧ _))

end Binary64

inductive Binary64 where
  | finite (negative : Bool) (significand exponent : Nat)
      (canonical : Binary64.Canonical significand exponent)
  | infinite (negative : Bool)
  | nan
  deriving DecidableEq, Repr

namespace Binary64

def zero (negative : Bool) : Binary64 := .finite negative 0 0 (by decide)

/-- Whatever is too large for a finite number is infinite. -/
def ofParts (negative : Bool) (significand exponent : Nat) : Binary64 :=
  if h : Canonical significand exponent then .finite negative significand exponent h
  else .infinite negative

/-- A quotient rounded to the nearest whole number, from the middle to the even one. -/
def divideToEven (num den : Nat) : Nat :=
  let q := num / den
  let r := num % den
  if 2 * r < den then q else if den < 2 * r then q + 1 else q + q % 2

def ofUnits (negative : Bool) (units den : Nat) : Binary64 :=
  let exponent := (units / den).log2 + 1 - 53
  let significand := divideToEven units (den * Nat.pow 2 exponent)
  if significand = significandLimit then ofParts negative leastFull (exponent + 1)
  else ofParts negative significand exponent

def ofRatio (negative : Bool) (num den : Nat) : Binary64 := ofUnits negative (num * unitsInOne) den

/-- The number nearest to a decimal. Magnitudes that are out of reach by their number of digits
alone are settled without computing the power of ten. -/
def nearest (d : Decimal) : Binary64 :=
  let bits : Int := d.coefficient.log2
  if d.coefficient = 0 then zero d.negative
  else if 400 < d.exponent + bits / 4 then .infinite d.negative
  else if d.exponent + bits / 3 + 1 < -400 then zero d.negative
  else match d.exponent with
    | .ofNat e => ofRatio d.negative (d.coefficient * Nat.pow 10 e) 1
    | .negSucc e => ofRatio d.negative d.coefficient (Nat.pow 10 (e + 1))

def isFinite : Binary64 → Bool
  | .finite .. => true
  | _ => false

def isInfinite : Binary64 → Bool
  | .infinite _ => true
  | _ => false

def special? (name : List Char) : Option (Bool → Binary64) :=
  if name = ['i', 'n', 'f'] ∨ name = ['i', 'n', 'f', 'i', 'n', 'i', 't', 'y'] then some .infinite
  else if name = ['n', 'a', 'n'] then some fun _ => .nan
  else none

def ofChars? (cs : List Char) : Option Binary64 :=
  match Decimal.ofChars? cs with
  | some d => some (nearest d)
  | none =>
    match splitSign cs with
    | (negative, name) => (special? (name.map Char.toLower)).map (· negative)

end Binary64

end GrammarKit
