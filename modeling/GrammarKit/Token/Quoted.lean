/-!
Quoted literals.

A literal stands between two equal quotes, which are one or three quotation marks of one kind; an
`r` in front makes it raw. A backslash takes the next character with it, so a quote behind a
backslash closes nothing; a line feed cannot be taken. Triple quotes are tried before single ones.
-/

namespace GrammarKit

inductive Quote where
  | tripleSingle
  | tripleDouble
  | single
  | double
  deriving DecidableEq, Repr

namespace Quote

def all : List Quote := [tripleSingle, tripleDouble, single, double]

def chars : Quote → List Char
  | tripleSingle => ['\'', '\'', '\'']
  | tripleDouble => ['"', '"', '"']
  | single => ['\'']
  | double => ['"']

def bodyLength? (quote : Quote) (cs : List Char) : Option Nat := go cs 0
where
  go : List Char → Nat → Option Nat
    | [], _ => none
    | c :: cs, n =>
      if quote.chars.isPrefixOf (c :: cs) then some n
      else if c = '\\' then
        match cs with
        | [] => none
        | e :: cs => if e = '\n' then none else go cs (n + 2)
      else go cs (n + 1)

end Quote

structure Quoted where
  raw : Bool
  quote : Quote
  bodyLength : Nat
  deriving DecidableEq, Repr

namespace Quoted

def bodyStart (q : Quoted) : Nat := q.raw.toNat + q.quote.chars.length

def length (q : Quoted) : Nat := q.bodyStart + q.bodyLength + q.quote.chars.length

def body (q : Quoted) (lexeme : List Char) : List Char :=
  (lexeme.drop q.bodyStart).take q.bodyLength

/-- A literal with this quote, on a text whose `r` is already read. -/
def withQuote? (raw : Bool) (cs : List Char) (quote : Quote) : Option Quoted :=
  if quote.chars.isPrefixOf cs then
    (quote.bodyLength? (cs.drop quote.chars.length)).map (Quoted.mk raw quote)
  else none

def match? (cs : List Char) : Option Quoted :=
  let raw := cs.head? == some 'r'
  Quote.all.findSome? (withQuote? raw (cs.drop raw.toNat))

end Quoted

end GrammarKit
