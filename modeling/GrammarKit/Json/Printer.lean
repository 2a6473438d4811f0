import GrammarKit.Json

/-!
JSON text, on one line or spread over lines with an indentation of two spaces a level.

Quotation marks, backslashes and control characters below the space are escaped; everything else
stands as it is. JSON has no word for a number that is not finite, so those are `null`.
-/

namespace GrammarKit

namespace Json

def lowerHex (n : Nat) : Char := (Nat.toDigits 16 n).headD '0'

def escapeChar (c : Char) : List Char :=
  match c with
  | '"' => ['\\', '"']
  | '\\' => ['\\', '\\']
  | '\x08' => ['\\', 'b']
  | '\t' => ['\\', 't']
  | '\n' => ['\\', 'n']
  | '\x0c' => ['\\', 'f']
  | '\r' => ['\\', 'r']
  | c =>
    if c.toNat < 0x20 then ['\\', 'u', '0', '0', lowerHex (c.toNat / 16), lowerHex (c.toNat % 16)]
    else [c]

def stringChars (s : String) : List Char := '"' :: s.toList.flatMap escapeChar ++ ['"']

def floatChars : Binary64 → List Char
  | .finite negative significand exponent canonical =>
    FloatLayout.json.chars (.finite negative significand exponent canonical)
  | _ => ['n', 'u', 'l', 'l']

def atomChars? : Json → Option (List Char)
  | null => some ['n', 'u', 'l', 'l']
  | bool true => some ['t', 'r', 'u', 'e']
  | bool false => some ['f', 'a', 'l', 's', 'e']
  | int n => some (FloatLayout.integerChars n)
  | float x => some (floatChars x)
  | string s => some (stringChars s)
  | array [] => some ['[', ']']
  | object [] => some ['\x7b', '\x7d']
  | array _ => none
  | object _ => none

mutual

/-- Appends the text of a value on one line to `out`, the end first. -/
def compactOnto (out : List Char) : Json → List Char
  | array (item :: items) => ']' :: compactItems (compactOnto ('[' :: out) item) items
  | object ((name, value) :: members) =>
    '\x7d' :: compactMembers
      (compactOnto (':' :: ((stringChars name).reverse ++ '\x7b' :: out)) value) members
  | atom => ((atomChars? atom).getD []).reverse ++ out

def compactItems (out : List Char) : List Json → List Char
  | [] => out
  | item :: items => compactItems (compactOnto (',' :: out) item) items

def compactMembers (out : List Char) : List (String × Json) → List Char
  | [] => out
  | (name, value) :: members =>
    compactMembers (compactOnto (':' :: ((stringChars name).reverse ++ ',' :: out)) value) members

end

def compact (j : Json) : String := String.ofList (compactOnto [] j).reverse

def lineOnto (out : List Char) (level : Nat) : List Char :=
  List.replicate (2 * level) ' ' ++ '\n' :: out

mutual

def prettyOnto (out : List Char) (level : Nat) : Json → List Char
  | array (item :: items) =>
    let out := prettyOnto (lineOnto ('[' :: out) (level + 1)) (level + 1) item
    ']' :: lineOnto (prettyItems out (level + 1) items) level
  | object ((name, value) :: members) =>
    let out := (stringChars name).reverse ++ lineOnto ('\x7b' :: out) (level + 1)
    let out := prettyOnto (' ' :: ':' :: out) (level + 1) value
    '\x7d' :: lineOnto (prettyMembers out (level + 1) members) level
  | atom => ((atomChars? atom).getD []).reverse ++ out

def prettyItems (out : List Char) (level : Nat) : List Json → List Char
  | [] => out
  | item :: items => prettyItems (prettyOnto (lineOnto (',' :: out) level) level item) level items

def prettyMembers (out : List Char) (level : Nat) : List (String × Json) → List Char
  | [] => out
  | (name, value) :: members =>
    let out := (stringChars name).reverse ++ lineOnto (',' :: out) level
    prettyMembers (prettyOnto (' ' :: ':' :: out) level value) level members

end

def pretty (j : Json) : String := String.ofList (prettyOnto [] 0 j).reverse

end Json

end GrammarKit
