import GrammarKit.Number.Shortest

/-!
Writing floating point numbers.

A number is written with its shortest digits, positionally for middling magnitudes and with an
exponent otherwise. What is left open here is a matter of the format that writes it.
-/

namespace GrammarKit

structure FloatLayout where
  /-- The least power of ten of a first digit that is written positionally; sixteen digits in front
  of the point are the most. -/
  leastPositional : Int
  exponentSign : Bool
  tie : Tie
  deriving Repr

namespace FloatLayout

def zeros (n : Nat) : List Char := List.replicate n '0'

def integerChars (n : Int) : List Char :=
  if n < 0 then '-' :: Nat.toDigits 10 n.natAbs else Nat.toDigits 10 n.natAbs

def positional (digits : List Char) (exponent : Int) : List Char :=
  match exponent with
  | .ofNat e => digits ++ zeros e ++ ['.', '0']
  | .negSucc e =>
    let places := e + 1
    if places < digits.length then
      digits.take (digits.length - places) ++ '.' :: digits.drop (digits.length - places)
    else '0' :: '.' :: zeros (places - digits.length) ++ digits

def scientific (layout : FloatLayout) (digits : List Char) (leading : Int) : List Char :=
  digits.take 1 ++ (if digits.length ≤ 1 then [] else '.' :: digits.drop 1) ++ 'e' ::
    (if layout.exponentSign && 0 ≤ leading then ['+'] else []) ++ integerChars leading

def magnitude (layout : FloatLayout) (significand exponent : Nat) : List Char :=
  if significand = 0 then ['0', '.', '0']
  else
    let (coefficient, e) := Binary64.shortest layout.tie significand exponent
    let digits := Nat.toDigits 10 coefficient
    let leading := (digits.length : Int) - 1 + e
    if layout.leastPositional ≤ leading ∧ leading < 16 then positional digits e
    else scientific layout digits leading

def chars (layout : FloatLayout) : Binary64 → List Char
  | .finite negative significand exponent _ =>
    (if negative then ['-'] else []) ++ layout.magnitude significand exponent
  | .infinite negative => (if negative then ['-'] else []) ++ ['i', 'n', 'f']
  | .nan => ['N', 'a', 'N']

/-- Numbers in grammar text: positional from `0.0001` on, an exponent without a plus sign. -/
def grammarText : FloatLayout := ⟨-4, false, .up⟩

/-- Numbers in JSON: positional from `0.00001` on, a positive exponent with its sign. -/
def json : FloatLayout := ⟨-5, true, .toEven⟩

end FloatLayout

end GrammarKit
