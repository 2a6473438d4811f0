import GrammarKit.Json
import GrammarKit.Number.Scaled
import GrammarKit.Text.Position
import GrammarKit.Text.Hex

/-!
Reading JSON.

Text is read from left to right, and the first thing that is wrong counts: the text ends too early,
it is no JSON, or it is JSON that does not say what is asked for. A value whose content does not
matter is passed over: surrogates and the size of numbers in it are not looked at.
-/

namespace GrammarKit

namespace Json

inductive Problem where
  | eof
  | malformed
  | data
  deriving DecidableEq, Repr

abbrev Read (α : Type) := Except Problem (α × List Char)

/-- How closely a value is looked at. -/
inductive Care where
  | full
  | skipped
  deriving DecidableEq, Repr

def isSpace (c : Char) : Bool := c == ' ' || c == '\n' || c == '\t' || c == '\r'

def skipSpace (cs : List Char) : List Char := cs.dropWhile isSpace

def word : List Char → List Char → Read Unit
  | [], cs => .ok ((), cs)
  | _ :: _, [] => .error .eof
  | w :: ws, c :: cs => if w = c then word ws cs else .error .malformed

def endsWithinFour (cs : List Char) : Bool := byteLength (cs.take 4) < 4

/-- The four digits of a numbered escape. Text that ends within them has ended too early, whatever
it holds. -/
def fourDigits (cs : List Char) : Read Nat :=
  if endsWithinFour cs then .error .eof
  else
    match (cs.take 4).mapM hexDigit? with
    | some [a, b, c, d] => .ok (((a * 16 + b) * 16 + c) * 16 + d, cs.drop 4)
    | _ => .error .malformed

def isLeadSurrogate (n : Nat) : Bool := 0xD800 ≤ n && n ≤ 0xDBFF

def isTrailSurrogate (n : Nat) : Bool := 0xDC00 ≤ n && n ≤ 0xDFFF

def trailSurrogate (lead : Nat) : List Char → Read Char
  | [] => .error .eof
  | ['\\'] => .error .eof
  | '\\' :: 'u' :: cs =>
    match fourDigits cs with
    | .error p => .error p
    | .ok (trail, cs) =>
      if isTrailSurrogate trail then
        .ok (Char.ofNat (0x10000 + (lead - 0xD800) * 0x400 + (trail - 0xDC00)), cs)
      else .error .malformed
  | _ => .error .malformed

def numberedEscape (care : Care) (cs : List Char) : Read Char :=
  match fourDigits cs with
  | .error p => .error p
  | .ok (n, cs) =>
    if care = .skipped then .ok ('?', cs)
    else if isLeadSurrogate n then trailSurrogate n cs
    else if isTrailSurrogate n then .error .malformed
    else .ok (Char.ofNat n, cs)

def escapedChar (care : Care) : List Char → Read Char
  | [] => .error .eof
  | '"' :: cs => .ok ('"', cs)
  | '\\' :: cs => .ok ('\\', cs)
  | '/' :: cs => .ok ('/', cs)
  | 'b' :: cs => .ok ('\x08', cs)
  | 'f' :: cs => .ok ('\x0c', cs)
  | 'n' :: cs => .ok ('\n', cs)
  | 'r' :: cs => .ok ('\r', cs)
  | 't' :: cs => .ok ('\t', cs)
  | 'u' :: cs => numberedEscape care cs
  | _ => .error .malformed

/-- The rest of a string whose first quotation mark has been read, over at most `steps` characters;
what has been read of it is `read`, the last character first. -/
def stringFrom (care : Care) : Nat → List Char → List Char → Read String
  | 0, _, _ => .error .eof
  | _, [], _ => .error .eof
  | steps + 1, c :: cs, read =>
    if c = '"' then .ok (String.ofList read.reverse, cs)
    else if c = '\\' then
      match escapedChar care cs with
      | .error p => .error p
      | .ok (c, cs) => stringFrom care steps cs (c :: read)
    else if c.toNat < 0x20 then .error .malformed
    else stringFrom care steps cs (c :: read)

def stringBody (care : Care) (cs : List Char) : Read String :=
  stringFrom care (cs.length + 1) cs []

/-- What it means that a number lacks a digit: if the text ends there, a number that is read has
ended too early, and one that is passed over is malformed. -/
def missingDigit (care : Care) (cs : List Char) : Problem :=
  if cs.isEmpty && care == .full then .eof else .malformed

def someDigits (care : Care) (cs : List Char) : Read (List Char) :=
  let digits := cs.takeWhile Char.isDigit
  if digits.isEmpty then .error (missingDigit care cs) else .ok (digits, cs.drop digits.length)

def wholeDigits (care : Care) (cs : List Char) : Read (List Char) :=
  match someDigits care cs with
  | .error p => .error p
  | .ok (digits, cs) =>
    if digits.head? = some '0' ∧ 1 < digits.length then .error .malformed else .ok (digits, cs)

def fractionDigits (care : Care) : List Char → Read (Option (List Char))
  | '.' :: cs => (someDigits care cs).map fun (digits, cs) => (some digits, cs)
  | cs => .ok (none, cs)

def exponentPart (care : Care) : List Char → Read (Option Int)
  | c :: cs =>
    if c = 'e' ∨ c = 'E' then
      match splitSign cs with
      | (negative, cs) =>
        (someDigits care cs).map fun (digits, cs) =>
          let n : Int := digitsValue digits
          (some (if negative then -n else n), cs)
    else .ok (none, c :: cs)
  | [] => .ok (none, [])

def isWord (n : Int) : Bool := Int64.minValue.toInt ≤ n && n < UInt64.size

def finiteNumber (care : Care) (x : Binary64) : Except Problem Json :=
  match care with
  | .full => if x.isInfinite then .error .malformed else .ok (float x)
  | .skipped => .ok null

/-- A number. It is whole if it has neither point nor exponent and fits; minus zero is not whole. -/
def number (care : Care) (cs : List Char) : Except Problem (Json × List Char) := do
  let negative := cs.head? = some '-'
  let (whole, cs) ← wholeDigits care (if negative then cs.drop 1 else cs)
  let (fraction, cs) ← fractionDigits care cs
  let (exponent, cs) ← exponentPart care cs
  let n : Int := digitsValue whole
  let n := if negative then -n else n
  if fraction.isNone ∧ exponent.isNone ∧ isWord n ∧ ¬(negative ∧ n = 0) then
    pure (int n, cs)
  else
    let x ← finiteNumber care
      (Binary64.scaled negative whole (fraction.getD []) (exponent.getD 0))
    pure (x, cs)

def setMember (members : List (String × Json)) (name : String) (value : Json) :
    List (String × Json) :=
  if members.any fun m => m.1 == name then
    members.map fun m => if m.1 == name then (name, value) else m
  else members ++ [(name, value)]

def colon (cs : List Char) : Read Unit :=
  match skipSpace cs with
  | [] => .error .eof
  | ':' :: cs => .ok ((), cs)
  | _ => .error .malformed

def nextItem (isFirst : Bool) (cs : List Char) : Read Bool :=
  match skipSpace cs with
  | [] => .error .eof
  | ']' :: cs => .ok (false, cs)
  | c :: cs =>
    if isFirst then .ok (true, c :: cs)
    else if c = ',' then
      match skipSpace cs with
      | ']' :: _ => .error .malformed
      | cs => .ok (true, cs)
    else .error .malformed

def nextMember (isFirst : Bool) (cs : List Char) : Read Bool :=
  match skipSpace cs with
  | [] => .error .eof
  | '\x7d' :: cs => .ok (false, cs)
  | c :: cs =>
    if isFirst then if c = '"' then .ok (true, cs) else .error .malformed
    else if c = ',' then
      match skipSpace cs with
      | [] => .error .eof
      | '"' :: cs => .ok (true, cs)
      | _ => .error .malformed
    else .error .malformed

mutual

/-- A value, with at most `steps` values and brackets in it. -/
def valueFrom (care : Care) : Nat → List Char → Read Json
  | 0, _ => .error .malformed
  | steps + 1, cs =>
    match skipSpace cs with
    | [] => .error .eof
    | 'n' :: cs => (word ['u', 'l', 'l'] cs).map fun (_, cs) => (null, cs)
    | 't' :: cs => (word ['r', 'u', 'e'] cs).map fun (_, cs) => (bool true, cs)
    | 'f' :: cs => (word ['a', 'l', 's', 'e'] cs).map fun (_, cs) => (bool false, cs)
    | '"' :: cs => (stringBody care cs).map fun (s, cs) => (string s, cs)
    | '[' :: cs => itemsFrom care steps true cs []
    | '\x7b' :: cs => membersFrom care steps true cs []
    | c :: cs => if c = '-' ∨ c.isDigit then number care (c :: cs) else .error .malformed

def itemsFrom (care : Care) : Nat → Bool → List Char → List Json → Read Json
  | 0, _, _, _ => .error .malformed
  | steps + 1, isFirst, cs, items =>
    match nextItem isFirst cs with
    | .error p => .error p
    | .ok (false, cs) => .ok (array items.reverse, cs)
    | .ok (true, cs) =>
      match valueFrom care steps cs with
      | .error p => .error p
      | .ok (item, cs) => itemsFrom care steps false cs (item :: items)

def membersFrom (care : Care) : Nat → Bool → List Char → List (String × Json) → Read Json
  | 0, _, _, _ => .error .malformed
  | steps + 1, isFirst, cs, members =>
    match nextMember isFirst cs with
    | .error p => .error p
    | .ok (false, cs) => .ok (object members, cs)
    | .ok (true, cs) =>
      match stringBody care cs with
      | .error p => .error p
      | .ok (name, cs) =>
        match colon cs with
        | .error p => .error p
        | .ok (_, cs) =>
          match valueFrom care steps cs with
          | .error p => .error p
          | .ok (value, cs) => membersFrom care steps false cs (setMember members name value)

end

def value (care : Care) (cs : List Char) : Read Json := valueFrom care (2 * cs.length + 2) cs

def atEnd (cs : List Char) : Except Problem Unit :=
  if (skipSpace cs).isEmpty then .ok () else .error .malformed

def ofText (text : String) : Except Problem Json := do
  let (j, cs) ← value .full text.toList
  atEnd cs
  pure j

end Json

end GrammarKit
