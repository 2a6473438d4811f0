import GrammarKit.Text.Blank
import Mathlib.Data.List.DropRight

/-!
Trimming. Main statements: trimming drops blanks and nothing else, it leaves nothing to trim, and it
leaves a text as it is exactly if that has no blank at either end.
-/

namespace GrammarKit

theorem count_dropWhile {p : Char → Bool} {c : Char} (h : p c = false) (cs : List Char) :
    (cs.dropWhile p).count c = cs.count c := by
  have none : (cs.takeWhile p).count c = 0 := by
    rw [List.count_eq_zero]
    intro mem
    have hc := List.all_eq_true.1 List.all_takeWhile c mem
    rw [h] at hc
    cases hc
  have split := congrArg (List.count c) (@List.takeWhile_append_dropWhile _ p cs)
  rwa [List.count_append, none, Nat.zero_add] at split

/-- Trimming drops nothing but blanks. -/
theorem count_trim {c : Char} (h : isBlank c = false) (cs : List Char) :
    (trim cs).count c = cs.count c := by
  rw [trim, List.count_reverse, count_dropWhile h, List.count_reverse, count_dropWhile h]

theorem trim_blanks (text : List Char) : trim (' ' :: text ++ [' ']) = trim text := by
  unfold trim
  rw [List.cons_append, List.dropWhile_cons_of_pos (by decide), List.dropWhile_append]
  split
  · rename_i h
    rw [List.isEmpty_iff.1 h]
    rfl
  · rw [List.reverse_append]
    show ((' ' :: (text.dropWhile isBlank).reverse).dropWhile isBlank).reverse = _
    rw [List.dropWhile_cons_of_pos (by decide)]

def Trimmed (cs : List Char) : Prop :=
  ∀ c, cs.head? = some c ∨ cs.getLast? = some c → isBlank c = false

theorem trim_eq_rdropWhile (cs : List Char) :
    trim cs = (cs.dropWhile isBlank).rdropWhile isBlank := rfl

theorem trimmed_trim (cs : List Char) : Trimmed (trim cs) := by
  rintro c (first | last)
  · obtain ⟨more, hmore⟩ := List.head?_eq_some_iff.1 first
    obtain ⟨back, hback⟩ := List.rdropWhile_prefix isBlank (cs.dropWhile isBlank)
    rw [← trim_eq_rdropWhile, hmore] at hback
    have stop := List.head?_dropWhile_not isBlank cs
    rwa [← hback] at stop
  · obtain ⟨some, rfl⟩ := List.mem_getLast?_eq_getLast last
    have stop := List.rdropWhile_last_not isBlank (cs.dropWhile isBlank) some
    exact Bool.eq_false_iff.2 stop

theorem trim_eq_self_iff {cs : List Char} : trim cs = cs ↔ Trimmed cs := by
  constructor
  · intro h
    rw [← h]
    exact trimmed_trim cs
  · intro h
    have front : cs.dropWhile isBlank = cs := by
      cases cs with
      | nil => rfl
      | cons c cs => exact List.dropWhile_cons_of_neg (Bool.eq_false_iff.1 (h c (.inl rfl)))
    rw [trim_eq_rdropWhile, front, List.rdropWhile_eq_self_iff]
    exact fun some => Bool.eq_false_iff.1 (h _ (.inr (List.getLast?_eq_some_getLast some)))

instance (cs : List Char) : Decidable (Trimmed cs) := decidable_of_iff _ trim_eq_self_iff

theorem trim_trim (cs : List Char) : trim (trim cs) = trim cs :=
  trim_eq_self_iff.2 (trimmed_trim cs)

end GrammarKit
