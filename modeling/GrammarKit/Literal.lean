import GrammarKit.Literal.Escape
import GrammarKit.Number.Layout
import GrammarKit.Sorted

/-!
Literal values, and the named arguments that hold them.
-/

namespace GrammarKit

inductive Value where
  | str (text : String)
  | int (n : Int64)
  | float (x : Binary64)
  | bool (b : Bool)
  | none
  deriving DecidableEq

/-- Named arguments; of a repeated name the last value counts. -/
abbrev Args := SortedMap String Value

namespace Value

def default : Value := .none

def kind : Value → String
  | str _ => "Str"
  | int _ => "Int"
  | float _ => "Float"
  | bool _ => "Bool"
  | none => "None"

/-- A number is an integer if it is written without point and exponent and fits 64 bits. -/
def ofNumber? (lexeme : List Char) : Option Value :=
  let fractional := lexeme.any fun c => c == '.' || c == 'e' || c == 'E'
  match if fractional then Option.none else integer? lexeme with
  | some n =>
    if Int64.minValue.toInt ≤ n ∧ n ≤ Int64.maxValue.toInt then some (.int (.ofInt n))
    else (Binary64.ofChars? lexeme).map .float
  | Option.none => (Binary64.ofChars? lexeme).map .float

/-- The literal that stands for a value. An infinite number is written as a literal out of range. -/
def chars : Value → List Char
  | str text => quote text.toList
  | int n => FloatLayout.integerChars n.toInt
  | float (.infinite negative) => (if negative then ['-'] else []) ++ ['1', 'e', '9', '9', '9']
  | float x => FloatLayout.grammarText.chars x
  | bool true => ['T', 'r', 'u', 'e']
  | bool false => ['F', 'a', 'l', 's', 'e']
  | none => ['N', 'o', 'n', 'e']

def text (v : Value) : String := String.ofList v.chars

end Value

end GrammarKit
