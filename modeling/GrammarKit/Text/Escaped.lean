import GrammarKit.Text.Printable

/-!
Text between double quotes on one line, with whatever would not show as itself written as an escape.
-/

namespace GrammarKit

def escapeChar (c : Char) : List Char :=
  match c with
  | '"' => ['\\', '"']
  | '\\' => ['\\', '\\']
  | '\n' => ['\\', 'n']
  | '\r' => ['\\', 'r']
  | '\t' => ['\\', 't']
  | '\x00' => ['\\', '0']
  | c =>
    if isPrintable c then [c]
    else ['\\', 'u', '\x7b'] ++ Nat.toDigits 16 c.toNat ++ ['\x7d']

def escaped (text : List Char) : List Char := '"' :: text.flatMap escapeChar ++ ['"']

end GrammarKit
