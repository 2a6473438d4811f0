/-!
Decimal numerals.

A decimal is a whole coefficient times a power of ten. It is read from an optional sign, digits with
at most one point among them, and an optional exponent; at least one digit stands beside the point.
-/

namespace GrammarKit

def splitSign : List Char → Bool × List Char
  | '+' :: cs => (false, cs)
  | '-' :: cs => (true, cs)
  | cs => (false, cs)

def digitsValue (digits : List Char) : Nat := Nat.ofDigitChars 10 digits 0

def isNatural (cs : List Char) : Bool := !cs.isEmpty && cs.all Char.isDigit

def natural? (cs : List Char) : Option Nat := if isNatural cs then some (digitsValue cs) else none

def integer? (cs : List Char) : Option Int :=
  match splitSign cs with
  | (negative, cs) => (natural? cs).map fun n => if negative then -(n : Int) else n

structure Decimal where
  negative : Bool
  coefficient : Nat
  exponent : Int
  deriving DecidableEq, Repr

namespace Decimal

def splitFraction : List Char → List Char × List Char
  | '.' :: cs => (cs.takeWhile Char.isDigit, cs.dropWhile Char.isDigit)
  | cs => ([], cs)

/-- From here on an exponent is large enough, and the digits behind it count for nothing. -/
def exponentLimit : Nat := 65536

/-- The value of the digits of an exponent, up to the one that reaches the limit. -/
def exponentValue (digits : List Char) : Nat :=
  digits.foldl (fun n c => if n < exponentLimit then n * 10 + digitsValue [c] else n) 0

def exponent? : List Char → Option Int
  | [] => some 0
  | c :: cs =>
    if c = 'e' ∨ c = 'E' then
      match splitSign cs with
      | (negative, digits) =>
        let n : Int := exponentValue digits
        if isNatural digits then some (if negative then -n else n) else none
    else none

def ofChars? (cs : List Char) : Option Decimal :=
  let (negative, cs) := splitSign cs
  let whole := cs.takeWhile Char.isDigit
  let (fraction, cs) := splitFraction (cs.dropWhile Char.isDigit)
  if whole.isEmpty && fraction.isEmpty then none
  else (exponent? cs).map fun e => ⟨negative, digitsValue (whole ++ fraction), e - fraction.length⟩

end Decimal

end GrammarKit
