import GrammarKit.Literal
import GrammarKit.Text.Blank

/-!
Expressions of grammar rules.

A body chooses between alternatives, puts items in sequence, wraps an item in an occurrence, or is a
leaf: a pattern, a reference to a rule, or a block of code that is carried along and never looked
into. The smart constructors keep composites of one item from arising and wrappers from nesting.
-/

namespace GrammarKit

inductive Occurrence where
  | zeroOrOne
  | zeroOrMore
  | oneOrMore
  deriving DecidableEq, Repr

namespace Occurrence

def all : List Occurrence := [zeroOrOne, zeroOrMore, oneOrMore]

def suffix : Occurrence → Char
  | zeroOrOne => '?'
  | zeroOrMore => '*'
  | oneOrMore => '+'

def ofSuffix? (c : Char) : Option Occurrence := all.find? fun o => o.suffix == c

def nullable : Occurrence → Bool
  | oneOrMore => false
  | _ => true

end Occurrence

/-- A terminal: the source of a regular expression, with the arguments written behind it. -/
structure Pattern where
  source : String
  args : Option Args
  deriving DecidableEq

namespace Pattern

def flagsArg : String := "flags"

/-- The flags, `0` where the argument is missing or no text. -/
def flags (p : Pattern) : String :=
  match p.args.bind fun args => args.get? flagsArg with
  | some (.str flags) => flags
  | _ => "0"

end Pattern

inductive Expr where
  | choice (items : List Expr)
  | sequence (items : List Expr)
  | wrap (occurrence : Occurrence) (item : Expr)
  | pattern (p : Pattern)
  | reference (name : String)
  | code (text : String)

namespace Expr

mutual

def same : Expr → Expr → Bool
  | choice as, choice bs => sameItems as bs
  | sequence as, sequence bs => sameItems as bs
  | wrap o a, wrap p b => o == p && same a b
  | pattern p, pattern q => p == q
  | reference a, reference b => a == b
  | code a, code b => a == b
  | _, _ => false

def sameItems : List Expr → List Expr → Bool
  | [], [] => true
  | a :: as, b :: bs => same a b && sameItems as bs
  | _, _ => false

end

mutual

theorem same_iff : ∀ a b : Expr, same a b = true ↔ a = b
  | choice as, b => by cases b <;> simp [same, sameItems_iff as]
  | sequence as, b => by cases b <;> simp [same, sameItems_iff as]
  | wrap o a, b => by cases b <;> simp [same, same_iff a]
  | pattern p, b => by cases b <;> simp [same]
  | reference a, b => by cases b <;> simp [same]
  | code a, b => by cases b <;> simp [same]

theorem sameItems_iff : ∀ as bs : List Expr, sameItems as bs = true ↔ as = bs
  | [], bs => by cases bs <;> simp [sameItems]
  | a :: as, bs => by cases bs <;> simp [sameItems, same_iff a, sameItems_iff as]

end

instance : DecidableEq Expr := fun a b => decidable_of_iff _ (same_iff a b)

instance : Inhabited Expr := ⟨sequence []⟩

def ofChoice : List Expr → Expr
  | [item] => item
  | items => choice items

def ofSequence : List Expr → Expr
  | [item] => item
  | items => sequence items

def ofCode (text : List Char) : Expr := code (String.ofList (trim text))

def occurrence? : Expr → Option Occurrence
  | wrap o _ => some o
  | _ => none

def wrapped? : Expr → Option Expr
  | wrap _ item => some item
  | _ => none

def typeName : Expr → String
  | choice _ => "ExprOr"
  | sequence _ => "ExprSeq"
  | wrap .zeroOrOne _ => "ExprOcc01"
  | wrap .zeroOrMore _ => "ExprOcc0m"
  | wrap .oneOrMore _ => "ExprOcc1m"
  | pattern _ => "Pattern"
  | reference _ => "RuleRef"
  | code _ => "Code"

def strip (which : Occurrence → Bool) : Expr → Expr
  | wrap o item => if which o then strip which item else wrap o item
  | e => e

/-- Wraps an expression. A wrapper that it already has is merged, so that no wrapper stands directly
inside another. -/
def occur (e : Expr) : Occurrence → Expr
  | .zeroOrOne =>
    match strip (· == .zeroOrOne) e with
    | wrap .zeroOrMore item => wrap .zeroOrMore item
    | wrap .oneOrMore item => wrap .zeroOrMore item
    | other => wrap .zeroOrOne other
  | .zeroOrMore => wrap .zeroOrMore (strip (fun _ => true) e)
  | .oneOrMore =>
    match strip (· == .oneOrMore) e with
    | wrap .zeroOrOne item => wrap .zeroOrMore item
    | wrap .zeroOrMore item => wrap .zeroOrMore item
    | other => wrap .oneOrMore other

end Expr

end GrammarKit
