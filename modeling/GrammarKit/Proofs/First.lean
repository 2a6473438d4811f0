import GrammarKit.Grammar.First
import Mathlib.Data.Finset.Card

/-!
What begins a match, apart from any way to compute it: the least relations under which an expression
can match nothing, and under which a pattern can begin a match of it. Several rules may have one name;
a reference stands for each of them.
-/

namespace GrammarKit

namespace Grammar

inductive Nullable (g : Grammar) : Expr → Prop
  | code {text} : Nullable g (.code text)
  | pattern {p : Pattern} (empty : p.source = "") : Nullable g (.pattern p)
  | optional {o : Occurrence} {e} (h : o.nullable = true) : Nullable g (.wrap o e)
  | repeated {e} (h : Nullable g e) : Nullable g (.wrap .oneOrMore e)
  | choice {items e} (mem : e ∈ items) (h : Nullable g e) : Nullable g (.choice items)
  | sequence {items} (h : ∀ e ∈ items, Nullable g e) : Nullable g (.sequence items)
  | reference {r} (mem : r ∈ g.rules) (h : Nullable g r.body) : Nullable g (.reference r.name)

inductive StartsWith (g : Grammar) : Expr → Terminal → Prop
  | pattern {p : Pattern} (some : p.source ≠ "") : StartsWith g (.pattern p) (.ofPattern p)
  | wrap {o e t} (h : StartsWith g e t) : StartsWith g (.wrap o e) t
  | choice {items e t} (mem : e ∈ items) (h : StartsWith g e t) : StartsWith g (.choice items) t
  | sequence {before e after t} (skipped : ∀ d ∈ before, g.Nullable d) (h : StartsWith g e t) :
      StartsWith g (.sequence (before ++ e :: after)) t
  | reference {r t} (mem : r ∈ g.rules) (h : StartsWith g r.body t) :
      StartsWith g (.reference r.name) t

/-- The distinct patterns of a grammar, with their flags, that do not match nothing. -/
def startingTerminals (g : Grammar) : Finset Terminal :=
  (((g.rules.flatMap fun r => r.body.patterns).filter fun p => p.source ≠ "").map
    Terminal.ofPattern).toFinset

theorem mem_startingTerminals {g : Grammar} {t : Terminal} : t ∈ g.startingTerminals ↔
    ∃ r ∈ g.rules, ∃ p ∈ r.body.patterns, p.source ≠ "" ∧ Terminal.ofPattern p = t := by
  simp only [startingTerminals, List.mem_toFinset, List.mem_map, List.mem_filter, List.mem_flatMap,
    decide_eq_true_eq]
  constructor
  · rintro ⟨p, ⟨⟨r, hr, hp⟩, some⟩, rfl⟩
    exact ⟨r, hr, p, hp, some, rfl⟩
  · rintro ⟨r, hr, p, hp, some, rfl⟩
    exact ⟨p, ⟨⟨r, hr, hp⟩, some⟩, rfl⟩

end Grammar

theorem Expr.mem_itemPatterns {items : List Expr} {p : Pattern} :
    p ∈ itemPatterns items ↔ ∃ e ∈ items, p ∈ e.patterns := by
  induction items with
  | nil => simp [itemPatterns]
  | cons e items ih => simp [itemPatterns, ih]

theorem Grammar.StartsWith.mem {g : Grammar} {e : Expr} {t : Terminal} (h : g.StartsWith e t) :
    (∃ p ∈ e.patterns, p.source ≠ "" ∧ Terminal.ofPattern p = t) ∨ t ∈ g.startingTerminals := by
  induction h with
  | pattern some => exact .inl ⟨_, List.mem_singleton.2 rfl, some, rfl⟩
  | wrap h ih => exact ih
  | choice mem h ih =>
    refine ih.imp_left ?_
    rintro ⟨p, hp, found⟩
    exact ⟨p, Expr.mem_itemPatterns.2 ⟨_, mem, hp⟩, found⟩
  | sequence skipped h ih =>
    refine ih.imp_left ?_
    rintro ⟨p, hp, found⟩
    exact ⟨p, Expr.mem_itemPatterns.2 ⟨_, by simp, hp⟩, found⟩
  | reference mem h ih =>
    right
    rcases ih with ⟨p, hp, found⟩ | found
    · exact Grammar.mem_startingTerminals.2 ⟨_, mem, p, hp, found⟩
    · exact found

inductive FirstItem where
  | nothing
  | terminal (t : Terminal)
  deriving DecidableEq

def FirstSet.has (s : FirstSet) : FirstItem → Bool
  | .nothing => s.nullable
  | .terminal t => s.patterns.contains t

def Grammar.Begins (g : Grammar) (e : Expr) : FirstItem → Prop
  | .nothing => g.Nullable e
  | .terminal t => g.StartsWith e t

end GrammarKit
