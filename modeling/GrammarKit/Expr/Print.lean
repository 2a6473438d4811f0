import GrammarKit.Expr
import GrammarKit.Token.Fenced

/-!
Expressions as grammar text.

Parentheses stand where the text would otherwise read back as another expression: around a composite
inside a composite that binds at least as tightly, and around all but plain leaves in front of an
occurrence mark.
-/

namespace GrammarKit

def joinWith (sep : List Char) : List (List Char) → List Char
  | [] => []
  | [piece] => piece
  | piece :: pieces => piece ++ sep ++ joinWith sep pieces

def argsChars (args : Args) : List Char :=
  ['@', '('] ++ joinWith [',', ' '] (args.entries.map fun e => e.1.toList ++ '=' :: e.2.chars) ++
    [')']

def longestRun (cs : List Char) : Nat := go cs 0 0
where
  go : List Char → Nat → Nat → Nat
    | [], run, longest => max run longest
    | c :: cs, run, longest =>
      if c = fenceMark then go cs (run + 1) longest else go cs 0 (max run longest)

/-- A block of code between fences longer than any run of backticks in it. -/
def fencedChars (text : List Char) : List Char :=
  let fence := List.replicate (longestRun text + 1) fenceMark
  fence ++ ' ' :: text ++ ' ' :: fence

namespace Pattern

def chars (p : Pattern) : List Char :=
  quote p.source.toList ++
    match p.args with
    | some args => ' ' :: argsChars args
    | none => []

end Pattern

namespace Expr

def parenthesized (cs : List Char) : List Char := '(' :: cs ++ [')']

def isChoice : Expr → Bool
  | choice _ => true
  | _ => false

def isComposite : Expr → Bool
  | choice _ | sequence _ => true
  | _ => false

def isPlainLeaf : Expr → Bool
  | pattern _ | reference _ => true
  | _ => false

mutual

def chars : Expr → List Char
  | choice items => joinWith [' ', '|', ' '] (alternatives items)
  | sequence items => joinWith [' '] (steps items)
  | wrap o item =>
    (if item.isPlainLeaf then item.chars else parenthesized item.chars) ++ [o.suffix]
  | pattern p => p.chars
  | reference name => name.toList
  | code text => fencedChars text.toList

def alternatives : List Expr → List (List Char)
  | [] => []
  | item :: items =>
    (if item.isChoice then parenthesized item.chars else item.chars) :: alternatives items

def steps : List Expr → List (List Char)
  | [] => []
  | item :: items =>
    (if item.isComposite then parenthesized item.chars else item.chars) :: steps items

end

def text (e : Expr) : String := String.ofList e.chars

end Expr

end GrammarKit
