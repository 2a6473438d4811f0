import GrammarKit.Text.Bytes
import GrammarKit.Text.Hex
import GrammarKit.Token.Quoted

/-!
The text that a quoted literal stands for.

A raw literal stands for its body. In any other, a backslash and the characters behind it may stand
for one character, or for none where a line feed is behind it; what is no escape is kept as it is
written, backslash included, so that the source of a regular expression comes through unchanged.
-/

namespace GrammarKit

def hexValue? : List Char → Option Nat
  | [] => none
  | cs => cs.foldlM (fun n c => (hexDigit? c).map fun d => n * 16 + d) 0

/-- Hexadecimal digits may have a plus sign in front. -/
def hexNumber? : List Char → Option Nat
  | '+' :: cs => hexValue? cs
  | cs => hexValue? cs

def scalar? (n : Nat) : Option Char := if h : n.isValidChar then some (Char.ofNatAux n h) else none

/-- The character that the next `width` characters name, if they take up as many bytes. -/
def numbered? (width : Nat) (rest : List Char) : Option Char :=
  let digits := rest.take width
  if byteLength digits = width then (hexNumber? digits).bind scalar? else none

def numberedEscape (mark : Char) (width : Nat) (rest : List Char) : List Char × Nat :=
  match numbered? width rest with
  | some c => ([c], width)
  | none => (['\\', mark], 0)

/-- What a backslash and the character behind it stand for, and how many further characters belong
to the escape. -/
def escape (mark : Char) (rest : List Char) : List Char × Nat :=
  match mark with
  | '\n' => ([], 0)
  | '\\' => (['\\'], 0)
  | '\'' => (['\''], 0)
  | '"' => (['"'], 0)
  | 'n' => (['\n'], 0)
  | 'r' => (['\r'], 0)
  | 't' => (['\t'], 0)
  | 'a' => (['\x07'], 0)
  | 'b' => (['\x08'], 0)
  | 'f' => (['\x0c'], 0)
  | 'v' => (['\x0b'], 0)
  | '0' => (['\x00'], 0)
  | 'x' => numberedEscape 'x' 2 rest
  | 'u' => numberedEscape 'u' 4 rest
  | 'U' => numberedEscape 'U' 8 rest
  | c => (['\\', c], 0)

/-- Replaces the escapes in a text, after `skip` characters that belong to an escape before it. -/
def unescapeFrom : Nat → List Char → List Char
  | _, [] => []
  | skip + 1, _ :: cs => unescapeFrom skip cs
  | 0, '\\' :: mark :: cs => (escape mark cs).1 ++ unescapeFrom (escape mark cs).2 cs
  | 0, c :: cs => c :: unescapeFrom 0 cs

def unescape (body : List Char) : List Char := unescapeFrom 0 body

def decodeQuoted (lexeme : List Char) : Option (List Char) :=
  match Quoted.match? lexeme with
  | some q =>
    if q.length = lexeme.length then
      some (if q.raw then q.body lexeme else unescape (q.body lexeme))
    else none
  | none => none

def decodeString (lexeme : String) : Option String :=
  (decodeQuoted lexeme.toList).map String.ofList

def quoteChar (c : Char) : List Char :=
  match c with
  | '\\' => ['\\', '\\']
  | '\'' => ['\\', '\'']
  | '\n' => ['\\', 'n']
  | '\r' => ['\\', 'r']
  | '\t' => ['\\', 't']
  | c => [c]

def quote (text : List Char) : List Char := '\'' :: text.flatMap quoteChar ++ ['\'']

end GrammarKit
