import GrammarKit.Expr.Names
import GrammarKit.Grammar

/-!
References and FIRST sets.

A grammar is closed if every reference names one of its rules. The FIRST set of an expression says
which patterns can begin a match of it, and whether it can match nothing at all. The sets of all
rules are found by applying the bodies to the sets known so far until a round adds nothing.
-/

namespace GrammarKit

structure FirstSet where
  nullable : Bool
  patterns : SortedSet Terminal
  deriving DecidableEq, Repr

namespace FirstSet

def empty : FirstSet := ⟨false, .empty⟩

instance : Inhabited FirstSet := ⟨empty⟩

def nothing : FirstSet := ⟨true, .empty⟩

def union (a b : FirstSet) : FirstSet := ⟨a.nullable || b.nullable, a.patterns.union b.patterns⟩

def followedBy (a b : FirstSet) : FirstSet :=
  if a.nullable then ⟨b.nullable, a.patterns.union b.patterns⟩ else a

def subset (a b : FirstSet) : Bool :=
  (!a.nullable || b.nullable) && a.patterns.subset b.patterns

end FirstSet

abbrev FirstTable := SortedMap String FirstSet

namespace Expr

mutual

/-- The FIRST set of an expression, given those of the rules; an unknown rule adds nothing. -/
@[simp] def first (table : FirstTable) : Expr → FirstSet
  | choice items => firstOfAny table items
  | sequence items => firstInTurn table items
  | wrap o item =>
    let inner := item.first table
    ⟨o.nullable || inner.nullable, inner.patterns⟩
  | pattern p =>
    if p.source.isEmpty then .nothing else ⟨false, SortedSet.empty.add (Terminal.ofPattern p)⟩
  | reference name => (table.get? name).getD .empty
  | code _ => .nothing

@[simp] def firstOfAny (table : FirstTable) : List Expr → FirstSet
  | [] => .empty
  | item :: items => (item.first table).union (firstOfAny table items)

@[simp] def firstInTurn (table : FirstTable) : List Expr → FirstSet
  | [] => .nothing
  | item :: items => (item.first table).followedBy (firstInTurn table items)

end

end Expr

structure UndefinedRule where
  name : String
  referrer : String
  deriving DecidableEq, Repr

namespace UndefinedRule

def message (e : UndefinedRule) : String :=
  "rule `" ++ e.referrer ++ "` refers to undefined rule `" ++ e.name ++ "`"

end UndefinedRule

namespace Grammar

def terminals (g : Grammar) : SortedSet Terminal :=
  SortedSet.ofList (g.rules.flatMap fun r => r.body.terminals.toList)

/-- The least name that a rule refers to and that no rule has. -/
def undefinedIn? (g : Grammar) (r : Definition) : Option UndefinedRule :=
  (r.body.referencedRules.toList.find? fun name => (g.rule? name).isNone).map (UndefinedRule.mk · r.name)

def checkClosed (g : Grammar) : Except UndefinedRule Unit :=
  match g.rules.findSome? g.undefinedIn? with
  | some e => .error e
  | none => .ok ()

/-- Adds to the set of a rule what its body gives; tells whether that was new. -/
def improve (state : FirstTable × Bool) (r : Definition) : FirstTable × Bool :=
  let computed := r.body.first state.1
  let current := (state.1.get? r.name).getD .empty
  if computed.subset current then state else (state.1.insert r.name (current.union computed), true)

def round (g : Grammar) (table : FirstTable) : FirstTable × Bool :=
  g.rules.foldl improve (table, false)

def rounds (g : Grammar) : Nat → FirstTable → FirstTable
  | 0, table => table
  | n + 1, table =>
    match g.round table with
    | (table, true) => rounds g n table
    | (table, false) => table

/-- As many rounds as can add anything, and one to see that nothing more is added. -/
def roundBound (g : Grammar) : Nat := g.rules.length * (g.terminals.toList.length + 1) + 1

def firstSets (g : Grammar) : Except UndefinedRule FirstTable :=
  match g.checkClosed with
  | .error e => .error e
  | .ok () =>
    .ok (g.rounds g.roundBound (SortedMap.ofList (g.rules.map fun r => (r.name, FirstSet.empty))))

end Grammar

end GrammarKit
