import GrammarKit.Proofs.Occurrence

/-!
Wrapping over and over. Main statement: what is wrapped is a wrapper, and wrapping it in the same way
again changes nothing; around an expression without a wrapper, requests one after another leave one
wrapper, and which one depends on what is requested, not on the order or on how often.
-/

namespace GrammarKit

namespace Occurrence

def collapse (os : List Occurrence) : Occurrence :=
  if ∀ o ∈ os, o = .zeroOrOne then .zeroOrOne
  else if ∀ o ∈ os, o = .oneOrMore then .oneOrMore
  else .zeroOrMore

theorem collapse_cons (p : Occurrence) (os : List Occurrence) :
    collapse (p :: os) = if ∀ o ∈ os, o = p then p else .zeroOrMore := by
  cases p with
  | zeroOrOne => simp [collapse]
  | zeroOrMore => simp [collapse]
  | oneOrMore => simp [collapse]

theorem collapse_congr {os os' : List Occurrence} (same : ∀ o, o ∈ os' ↔ o ∈ os) :
    collapse os' = collapse os := by
  simp only [collapse, same]

/-- A request that differs from the first one turns the wrapper into a repetition, and a repetition
stays one. -/
theorem foldl_merge (p : Occurrence) (os : List Occurrence) :
    os.foldl merge p = collapse (p :: os) := by
  rw [collapse_cons]
  induction os generalizing p with
  | nil => simp
  | cons q os ih =>
    rw [List.foldl_cons, ih, merge]
    by_cases same : p = q
    · subst same
      simp
    · have differs : ¬ ∀ o ∈ q :: os, o = p := fun all => same (all q (by simp)).symm
      rw [if_neg same, if_neg differs, ite_self]

end Occurrence

namespace Expr

variable {x : Expr}

theorem isSome_occurrence?_occur (e : Expr) (o : Occurrence) :
    (e.occur o).occurrence?.isSome = true := by
  induction e using induct_wrapped with
  | single e single =>
    rw [occur_of_single single, occurrence?, Option.isSome_some]
  | wrap p e ih =>
    rw [occur_wrap]
    split
    next => exact ih
    next => rfl

/-- Around any number of wrappers: the request takes off wrappers until one is left that absorbs it. -/
theorem occur_occur_self (e : Expr) (o : Occurrence) : (e.occur o).occur o = e.occur o := by
  induction e using induct_wrapped with
  | single e single => rw [occur_of_single single, occur_wrap_of_single single, if_pos rfl]
  | wrap p e ih =>
    rw [occur_wrap]
    split
    next => exact ih
    next kept =>
      have other : ¬ (Occurrence.zeroOrMore = o ∨ o = .zeroOrMore) := by
        rintro (rfl | rfl)
        · exact kept (.inr rfl)
        · exact kept (.inr rfl)
      rw [occur_wrap, if_neg other]

theorem foldl_occur_wrap (single : x.occurrence? = none) (p : Occurrence)
    (os : List Occurrence) : os.foldl occur (wrap p x) = wrap (os.foldl Occurrence.merge p) x := by
  induction os generalizing p with
  | nil => rfl
  | cons o os ih =>
    rw [List.foldl_cons, List.foldl_cons, occur_wrap_of_single single, ih, Occurrence.merge]

theorem foldl_occur (single : x.occurrence? = none) {os : List Occurrence} (some : os ≠ []) :
    os.foldl occur x = wrap (.collapse os) x := by
  obtain ⟨p, os, rfl⟩ := List.exists_cons_of_ne_nil some
  rw [List.foldl_cons, occur_of_single single, foldl_occur_wrap single, Occurrence.foldl_merge]

/-- Wrapping puts one wrapper on that the same request leaves alone, and requests one after another
collapse to one. -/
theorem occur_collapses :
    (∀ (e : Expr) (o : Occurrence),
      (e.occur o).occurrence?.isSome = true ∧ (e.occur o).occur o = e.occur o) ∧
    ∀ (x : Expr) (os : List Occurrence), x.occurrence? = none → os ≠ [] →
      os.foldl occur x =
        (if ∀ o ∈ os, o = .zeroOrOne then wrap .zeroOrOne x
        else if ∀ o ∈ os, o = .oneOrMore then wrap .oneOrMore x
        else wrap .zeroOrMore x) ∧
      ∀ os' : List Occurrence, (∀ o, o ∈ os' ↔ o ∈ os) → os'.foldl occur x = os.foldl occur x := by
  refine ⟨fun e o => ⟨isSome_occurrence?_occur e o, occur_occur_self e o⟩, ?_⟩
  intro x os single some
  constructor
  · rw [foldl_occur single some, Occurrence.collapse]
    split
    next => rfl
    next =>
      split
      next => rfl
      next => rfl
  · intro os' same
    obtain ⟨o, rest, rfl⟩ := List.exists_cons_of_ne_nil some
    have some' : os' ≠ [] := List.ne_nil_of_mem ((same o).2 (by simp))
    rw [foldl_occur single some', foldl_occur single some, Occurrence.collapse_congr same]

/-- At least once, then possibly absent, then at least once again: any number of times. -/
theorem occur_collapses_mixed :
    (reference "x").occurrence? = none ∧
      [Occurrence.oneOrMore, .zeroOrOne, .oneOrMore].foldl occur (reference "x") =
        wrap .zeroOrMore (reference "x") :=
  ⟨rfl, (occur_collapses.2 (reference "x") [.oneOrMore, .zeroOrOne, .oneOrMore] rfl
    (List.cons_ne_nil _ _)).1.trans (by decide)⟩

end Expr

end GrammarKit
