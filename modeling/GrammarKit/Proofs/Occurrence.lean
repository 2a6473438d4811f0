import GrammarKit.Proofs.WellFormed

/-!
Wrapping an expression. Whatever wrappers it has, merging a further one keeps all that wrappers add
up to. A wrapper of a well-formed expression stands around something unwrapped, so taking wrappers
off is over after one, and the wrapper that is put on stands around no other.
-/

namespace GrammarKit

def Occurrence.merge (inner outer : Occurrence) : Occurrence :=
  if inner = outer then outer else .zeroOrMore

namespace Expr

variable {e : Expr}

theorem occur_of_single (single : e.occurrence? = none) (o : Occurrence) :
    e.occur o = .wrap o e := by
  cases e with
  | wrap => cases single
  | _ => cases o <;> rfl

/-- Around a wrapper of an unwrapped item, one of the two wrappers is left, or a repetition. -/
theorem occur_wrap_of_single (single : e.occurrence? = none) (p o : Occurrence) :
    (wrap p e).occur o = .wrap (if p = o then o else .zeroOrMore) e := by
  cases e with
  | wrap => cases single
  | _ => cases p <;> cases o <;> rfl

/-- A wrapper is taken off in front of an equal one and in front of a repetition; else a repetition
takes the place of both. -/
theorem occur_wrap (p o : Occurrence) (e : Expr) :
    (wrap p e).occur o =
      if p = o ∨ o = .zeroOrMore then e.occur o else .wrap .zeroOrMore e := by
  cases p <;> cases o <;> rfl

/-- Induction over the wrappers of an expression, the outermost first. -/
theorem induct_wrapped {motive : Expr → Prop}
    (single : ∀ e : Expr, e.occurrence? = none → motive e)
    (wrap : ∀ o e, motive e → motive (.wrap o e)) : ∀ e, motive e
  | .wrap o e => wrap o e (induct_wrapped single wrap e)
  | .choice items => single (.choice items) rfl
  | .sequence items => single (.sequence items) rfl
  | .pattern p => single (.pattern p) rfl
  | .reference name => single (.reference name) rfl
  | .code text => single (.code text) rfl

/-- What is computed of an expression does not see that wrappers are merged, if it does not tell two
wrappers around each other from the one that they merge to. -/
theorem map_occur.{u} {β : Type u} {f : Expr → β} {g : Occurrence → β → β}
    (wraps : ∀ o e, f (.wrap o e) = g o (f e))
    (merges : ∀ p o b, g o (g p b) = g (p.merge o) b) (e : Expr) (o : Occurrence) :
    f (e.occur o) = g o (f e) := by
  induction e using induct_wrapped with
  | single e single => rw [occur_of_single single, wraps]
  | wrap p e ih =>
    rw [occur_wrap, wraps p e, merges, Occurrence.merge]
    split
    next taken =>
      rw [ih]
      rcases taken with rfl | rfl
      · rw [if_pos rfl]
      · rw [ite_self]
    next kept =>
      rw [wraps, if_neg (not_or.1 kept).1]

theorem WellFormed.isCode (h : e.WellFormed) : e.isCode = false := by
  cases h <;> rfl

theorem WellFormed.occur (h : e.WellFormed) (o : Occurrence) : (e.occur o).WellFormed := by
  cases h with
  | @wrap p item single inner =>
    rw [occur_wrap_of_single single]
    exact .wrap single inner
  | choice several each =>
    rw [occur_of_single rfl]
    exact .wrap rfl (.choice several each)
  | sequence several some each trimmed =>
    rw [occur_of_single rfl]
    exact .wrap rfl (.sequence several some each trimmed)
  | pattern h =>
    rw [occur_of_single rfl]
    exact .wrap rfl (.pattern h)
  | reference h =>
    rw [occur_of_single rfl]
    exact .wrap rfl (.reference h)

end Expr

end GrammarKit
