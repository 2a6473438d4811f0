import GrammarKit.Text.Blank
import GrammarKit.Token
import GrammarKit.Token.Fenced
import GrammarKit.Token.Quoted

/-!
Matching tokens at the start of a text. A match is the number of characters it takes; nothing is
consumed by looking. Names and numbers are ASCII.
-/

namespace GrammarKit

def isNameStart (c : Char) : Bool := c.isAlpha || c == '_'

def isNameChar (c : Char) : Bool := c.isAlphanum || c == '_'

namespace Token

def nameLength? : List Char → Option Nat
  | [] => none
  | c :: cs => if isNameStart c then some ((cs.takeWhile isNameChar).length + 1) else none

def wordLength? (word cs : List Char) : Option Nat :=
  if word.isPrefixOf cs && !((cs.drop word.length).head?.any isNameChar) then some word.length
  else none

def charLength? (mark : Char) (cs : List Char) : Option Nat :=
  if cs.head? = some mark then some 1 else none

def signLength : List Char → Nat
  | c :: _ => if c = '+' ∨ c = '-' then 1 else 0
  | [] => 0

def digitsLength (cs : List Char) : Nat := (cs.takeWhile Char.isDigit).length

def fractionLength : List Char → Nat
  | c :: cs => if c = '.' then digitsLength cs + 1 else 0
  | [] => 0

/-- An exponent counts only with a digit in it. -/
def exponentLength : List Char → Nat
  | c :: cs =>
    if c = 'e' ∨ c = 'E' then
      let sign := signLength cs
      let digits := digitsLength (cs.drop sign)
      if digits = 0 then 0 else 1 + sign + digits
    else 0
  | [] => 0

/-- A number has a digit in front of its point or right behind it. -/
def numberLength? (cs : List Char) : Option Nat :=
  let sign := signLength cs
  let whole := digitsLength (cs.drop sign)
  let fraction := fractionLength (cs.drop (sign + whole))
  if whole = 0 ∧ fraction ≤ 1 then none
  else
    let plain := sign + whole + fraction
    some (plain + exponentLength (cs.drop plain))

/-- A name with the blanks behind it. It is none where a colon follows at once, and it leaves one
blank in front of a colon that follows later. -/
def blankedLength? (name? : List Char → Option Nat) (cs : List Char) : Option Nat :=
  match name? cs with
  | none => none
  | some n =>
    let tail := cs.drop n
    let gap := (tail.takeWhile isBlank).length
    if (tail.drop gap).head? = some ':' then if gap = 0 then none else some (n + (gap - 1))
    else some (n + gap)

def referenceLength? : List Char → Option Nat := blankedLength? nameLength?

def length? : Token → List Char → Option Nat
  | argKvsep => charLength? '='
  | argSep => charLength? ','
  | argsSign => charLength? '@'
  | brktBeg => charLength? '('
  | brktEnd => charLength? ')'
  | code => fun cs => (Fenced.match? cs).map Fenced.length
  | textEnd => fun cs => if cs.isEmpty then some 0 else none
  | litBool => fun cs =>
    (wordLength? ['T', 'r', 'u', 'e'] cs).or (wordLength? ['F', 'a', 'l', 's', 'e'] cs)
  | litNone => wordLength? ['N', 'o', 'n', 'e']
  | litNum => numberLength?
  | occ01Trailer => charLength? '?'
  | occ0mTrailer => charLength? '*'
  | occ1mTrailer => charLength? '+'
  | orExprOp => charLength? '|'
  | regexStr => fun cs => (Quoted.match? cs).map Quoted.length
  | ruleColon => charLength? ':'
  | ruleName => nameLength?
  | ruleRef => referenceLength?
  | sqrbrktBeg => charLength? '['
  | sqrbrktEnd => charLength? ']'

def startsAt (cs : List Char) (t : Token) : Bool := (t.length? cs).isSome

end Token

end GrammarKit
