import GrammarKit.Proofs.Occurrence
import Mathlib.Computability.Language
import Mathlib.Order.CompletePartialOrder

/-!
What expressions mean, whatever their leaves mean: a choice is the union of its items, a sequence
their concatenation, and an occurrence takes its item at most once, any number of times, or at least
once. Main statement: merging wrappers and unwrapping composites of one item keep the meaning.
-/

open scoped Computability

namespace GrammarKit

universe u

variable {α : Type u}

def Occurrence.times : Occurrence → Language α → Language α
  | .zeroOrOne, l => 1 + l
  | .zeroOrMore, l => l∗
  | .oneOrMore, l => l * l∗

structure Leaves (α : Type u) where
  pattern : Pattern → Language α
  reference : String → Language α
  code : String → Language α

namespace Expr

variable (m : Leaves α)

mutual

def language : Expr → Language α
  | choice items => languageOfAny items
  | sequence items => languageInTurn items
  | wrap o item => o.times item.language
  | pattern p => m.pattern p
  | reference name => m.reference name
  | code text => m.code text

def languageOfAny : List Expr → Language α
  | [] => 0
  | item :: items => item.language + languageOfAny items

def languageInTurn : List Expr → Language α
  | [] => 1
  | item :: items => item.language * languageInTurn items

end

theorem languageOfAny_eq (items : List Expr) :
    languageOfAny m items = (items.map (language m)).sum := by
  induction items with
  | nil => rfl
  | cons e items ih => rw [languageOfAny, ih, List.map_cons, List.sum_cons]

theorem languageInTurn_eq (items : List Expr) :
    languageInTurn m items = (items.map (language m)).prod := by
  induction items with
  | nil => rfl
  | cons e items ih => rw [languageInTurn, ih, List.map_cons, List.prod_cons]

theorem language_ofChoice (items : List Expr) :
    (ofChoice items).language m = (items.map (language m)).sum := by
  unfold ofChoice
  split
  · rw [List.map_singleton, List.sum_singleton]
  · rw [language, languageOfAny_eq]

theorem language_ofSequence (items : List Expr) :
    (ofSequence items).language m = (items.map (language m)).prod := by
  unfold ofSequence
  split
  · rw [List.map_singleton, List.prod_singleton]
  · rw [language, languageInTurn_eq]

end Expr

/-- A language between another one and its repetition repeats to the same. -/
theorem kstar_eq_of_le {l m : Language α} (above : l ≤ m) (below : m ≤ l∗) : m∗ = l∗ := by
  apply le_antisymm
  · calc m∗ ≤ l∗∗ := kstar_mono below
      _ = l∗ := kstar_idem l
  · exact kstar_mono above

namespace Occurrence

variable (l : Language α)

theorem le_times (o : Occurrence) : l ≤ o.times l := by
  cases o with
  | zeroOrOne => exact le_add_self
  | zeroOrMore => exact le_kstar
  | oneOrMore =>
    calc l = l * 1 := (mul_one l).symm
      _ ≤ l * l∗ := mul_le_mul_right one_le_kstar l

theorem times_le (o : Occurrence) : o.times l ≤ l∗ := by
  cases o with
  | zeroOrOne => exact add_le one_le_kstar le_kstar
  | zeroOrMore => exact le_rfl
  | oneOrMore => exact mul_kstar_le_kstar

/-- Whatever occurrence there is inside a repetition, the repetition covers it. -/
theorem kstar_times (o : Occurrence) : (o.times l)∗ = l∗ :=
  kstar_eq_of_le (le_times l o) (times_le l o)

/-- Two occurrences around each other allow as many times as the one that they merge to. -/
theorem times_times (p o : Occurrence) : o.times (p.times l) = (p.merge o).times l := by
  cases o with
  | zeroOrMore =>
    rw [merge, ite_self]
    exact kstar_times l p
  | zeroOrOne =>
    cases p with
    | zeroOrOne =>
      show 1 + (1 + l) = 1 + l
      rw [← add_assoc, add_idem]
    | zeroOrMore =>
      show 1 + l∗ = l∗
      exact add_eq_right_iff_le.2 one_le_kstar
    | oneOrMore =>
      show 1 + l * l∗ = l∗
      exact one_add_mul_kstar
  | oneOrMore =>
    show p.times l * (p.times l)∗ = _
    rw [kstar_times]
    cases p with
    | zeroOrOne =>
      show (1 + l) * l∗ = l∗
      rw [add_mul, one_mul]
      exact add_eq_left_iff_le.2 mul_kstar_le_kstar
    | zeroOrMore =>
      show l∗ * l∗ = l∗
      exact kstar_mul_kstar l
    | oneOrMore =>
      show l * l∗ * l∗ = l * l∗
      rw [mul_assoc, kstar_mul_kstar]

end Occurrence

namespace Expr

/-- Wrapping an expression, whatever wrappers it has, takes its language as often as the occurrence
allows; putting items together, be there one or more or none, gives the union of their languages or
the concatenation. -/
theorem language_normalized (m : Leaves α) :
    (∀ (e : Expr) (o : Occurrence), (e.occur o).language m = o.times (e.language m)) ∧
      ∀ items : List Expr,
        (ofChoice items).language m = (items.map (language m)).sum ∧
          (ofSequence items).language m = (items.map (language m)).prod := by
  constructor
  · intro e o
    apply map_occur
    · intro o e
      rw [language]
    · intro p o l
      exact Occurrence.times_times l p o
  · intro items
    exact ⟨language_ofChoice m items, language_ofSequence m items⟩

end Expr

end GrammarKit
