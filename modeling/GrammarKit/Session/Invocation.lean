import GrammarKit.Rule
import GrammarKit.Text.Position

/-!
The tree of rule invocations.

Every invocation is recorded with the one that made it, and no record is ever taken away. So the
rules that led to a failure can be named long after their invocations have ended.
-/

namespace GrammarKit

abbrev InvocationId := Nat

structure Invocation where
  rule : Rule
  parent : Option InvocationId
  entry : Position
  deriving DecidableEq, Repr

structure InvocationTree where
  records : Array Invocation
  deriving DecidableEq, Repr

namespace InvocationTree

def empty : InvocationTree := ⟨#[]⟩

def size (t : InvocationTree) : Nat := t.records.size

def isEmpty (t : InvocationTree) : Bool := t.records.isEmpty

def push (t : InvocationTree) (i : Invocation) : InvocationTree := ⟨t.records.push i⟩

def get? (t : InvocationTree) (id : InvocationId) : Option Invocation := t.records[id]?

/-- Collects the rules of an invocation and its ancestors, over at most `steps` of them. -/
def ancestry (t : InvocationTree) : Nat → Option InvocationId → List Rule → List Rule
  | 0, _, rules => rules
  | _, none, rules => rules
  | steps + 1, some id, rules =>
    match t.get? id with
    | some i => ancestry t steps i.parent (i.rule :: rules)
    | none => rules

/-- The rules from the root down to an invocation. A parent is recorded before its children, so no
chain is longer than the tree. -/
def chain (t : InvocationTree) (id : InvocationId) : List Rule := t.ancestry t.size (some id) []

end InvocationTree

end GrammarKit
