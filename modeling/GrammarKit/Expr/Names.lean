import GrammarKit.Expr

/-!
What an expression mentions: the rules that it refers to and the patterns that it uses.
-/

namespace GrammarKit

/-- A pattern as analyses see it: its source with its flags. -/
structure Terminal where
  source : String
  flags : String
  deriving DecidableEq, Repr

namespace Terminal

instance : Ord Terminal := ⟨compareLex (compareOn source) (compareOn flags)⟩

instance : Std.TransOrd Terminal :=
  inferInstanceAs (Std.TransCmp (compareLex (compareOn source) (compareOn flags)))

instance : Std.LawfulEqOrd Terminal where
  eq_of_compare {a b} h := by
    obtain ⟨hs, hf⟩ := compareLex_eq_eq.1 h
    cases a; cases b
    simp_all [compareOn]

def ofPattern (p : Pattern) : Terminal := ⟨p.source, p.flags⟩

end Terminal

namespace Expr

mutual

def references : Expr → List String
  | choice items => itemReferences items
  | sequence items => itemReferences items
  | wrap _ item => item.references
  | pattern _ => []
  | reference name => [name]
  | code _ => []

def itemReferences : List Expr → List String
  | [] => []
  | item :: items => item.references ++ itemReferences items

end

mutual

def patterns : Expr → List Pattern
  | choice items => itemPatterns items
  | sequence items => itemPatterns items
  | wrap _ item => item.patterns
  | pattern p => [p]
  | reference _ => []
  | code _ => []

def itemPatterns : List Expr → List Pattern
  | [] => []
  | item :: items => item.patterns ++ itemPatterns items

end

def referencedRules (e : Expr) : SortedSet String := SortedSet.ofList e.references

def terminals (e : Expr) : SortedSet Terminal :=
  SortedSet.ofList (e.patterns.map Terminal.ofPattern)

end Expr

end GrammarKit
