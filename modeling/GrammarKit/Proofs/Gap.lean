import Mathlib.Data.List.Basic
import Mathlib.Logic.Function.Basic

/-!
Arrays that are alike but for a gap: one of them has some entries more, in one stretch, and the
entries behind that stretch stand that much further on.
-/

namespace GrammarKit

structure Gap where
  start : Nat
  length : Nat
  deriving DecidableEq, Repr

namespace Gap

variable {g : Gap} {α β : Type} {f : α → β} {xs : Array α} {ys : Array β}

def shift (g : Gap) (n : Nat) : Nat := if n < g.start then n else n + g.length

theorem shift_of_lt {n : Nat} (h : n < g.start) : g.shift n = n := if_pos h

theorem shift_of_le {n : Nat} (h : g.start ≤ n) : g.shift n = n + g.length :=
  if_neg (Nat.not_lt.2 h)

theorem map_shift_of_lt {place : Option Nat} (h : ∀ n ∈ place, n < g.start) :
    place.map g.shift = place := by
  cases place with
  | none => rfl
  | some n => exact congrArg some (shift_of_lt (h n rfl))

theorem shift_injective (g : Gap) : Function.Injective g.shift := by
  intro m n h
  unfold shift at h
  split at h <;> split at h <;> omega

theorem shift_ne {e : Nat} (start : g.start ≤ e) (stop : e < g.start + g.length) (n : Nat) :
    g.shift n ≠ e := by
  unfold shift
  split <;> omega

/-- The entries of one array, changed by `f`, stand around the gap in the other. -/
structure Spreads (g : Gap) (f : α → β) (xs : Array α) (ys : Array β) : Prop where
  start : g.start ≤ xs.size
  size : ys.size = xs.size + g.length
  get : ∀ i, ys[g.shift i]? = xs[i]?.map f

namespace Spreads

theorem shift_size (h : g.Spreads f xs ys) : g.shift xs.size = ys.size := by
  rw [shift_of_le h.start, h.size]

theorem push (h : g.Spreads f xs ys) (x : α) : g.Spreads f (xs.push x) (ys.push (f x)) where
  start := by
    rw [Array.size_push]
    exact Nat.le_succ_of_le h.start
  size := by
    rw [Array.size_push, Array.size_push, h.size]
    omega
  get := by
    intro i
    rw [Array.getElem?_push, Array.getElem?_push, ← h.shift_size]
    by_cases hi : i = xs.size
    · rw [if_pos hi, if_pos (by rw [hi])]
      rfl
    · rw [if_neg hi, if_neg (g.shift_injective.ne hi), h.get]

/-- An array that goes on where another one ends has a gap there, as long as what goes on. -/
theorem of_extends {f : α → α} {ys : Array α} (size : xs.size ≤ ys.size)
    (kept : ∀ (i : Nat) x, xs[i]? = some x → ys[i]? = some x)
    (fixed : ∀ (i : Nat) x, xs[i]? = some x → f x = x) :
    Spreads ⟨xs.size, ys.size - xs.size⟩ f xs ys where
  start := Nat.le_refl _
  size := (Nat.add_sub_cancel' size).symm
  get := by
    intro i
    by_cases hi : i < xs.size
    · have held := Array.getElem?_eq_getElem hi
      rw [shift_of_lt hi, held, kept i _ held, Option.map_some, fixed i _ held]
    · have behind : xs.size ≤ i := Nat.le_of_not_lt hi
      rw [shift_of_le behind, Array.getElem?_eq_none behind, Array.getElem?_eq_none]
      · rfl
      · dsimp only
        omega

end Spreads

end Gap

end GrammarKit
