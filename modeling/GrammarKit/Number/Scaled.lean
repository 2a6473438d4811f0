import GrammarKit.Number.Binary64

/-!
Numbers read in two roundings.

The leading digits of a numeral, as many as stay below `2 ^ 64`, are rounded on their own; the
outcome is then multiplied or divided by the power of ten that is left, itself rounded, and the
result is rounded again. That is quick, and now and then a neighbour of the nearest number.
-/

namespace GrammarKit

namespace Binary64

def units : Binary64 → Nat
  | .finite _ significand exponent _ => significand * Nat.pow 2 exponent
  | _ => 0

def maxTenExponent : Nat := 308

def tenPower (e : Nat) : Binary64 := nearest ⟨false, 1, e⟩

def timesTenPower (negative : Bool) (x : Binary64) (e : Nat) : Binary64 :=
  if e ≤ maxTenExponent then ofUnits negative (x.units * (tenPower e).units) unitsInOne
  else if x.units = 0 then zero negative
  else .infinite negative

/-- A number over a power of ten. A power that is too large is taken away step by step. -/
def overTenPower (negative : Bool) (x : Binary64) (e : Nat) : Binary64 :=
  if e ≤ maxTenExponent then ofRatio negative x.units (tenPower e).units
  else if x.units = 0 then zero negative
  else overTenPower negative (ofRatio negative x.units (tenPower maxTenExponent).units)
    (e - maxTenExponent)
termination_by e
decreasing_by simp only [maxTenExponent] at *; omega

/-- The leading digits that fit behind `n` in a number of 64 bits, and the digits left over. -/
def takeDigits : Nat → List Char → Nat × List Char
  | n, [] => (n, [])
  | n, c :: cs =>
    let m := digitsValue [c] + n * 10
    if m < UInt64.size then takeDigits m cs else (n, c :: cs)

/-- The number with these digits in front of the point and behind it. A digit in front that is
left over counts as a factor of ten, one behind as nothing. -/
def scaled (negative : Bool) (whole fraction : List Char) (exponent : Int) : Binary64 :=
  let (n, wholeLeft) := takeDigits 0 whole
  let (n, fractionLeft) := takeDigits n fraction
  let x := ofRatio false n 1
  match exponent + wholeLeft.length - (fraction.length - fractionLeft.length : Nat) with
  | .ofNat e => timesTenPower negative x e
  | .negSucc e => overTenPower negative x (e + 1)

end Binary64

end GrammarKit
