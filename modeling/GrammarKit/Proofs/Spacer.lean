import GrammarKit.Proofs.Exchange.Plain
import Mathlib.Data.List.TakeWhile

/-!
Stretches of layout, and the texts that they part. Whichever stretch stands between two tokens, it
is skipped, and it belongs to neither of them.
-/

namespace GrammarKit

inductive Layout : List Char → Prop
  | nil : Layout []
  | blank {c cs} (h : isBlank c) (rest : Layout cs) : Layout (c :: cs)
  | comment (body) {cs} (h : '\n' ∉ body) (rest : Layout cs) : Layout ('#' :: (body ++ '\n' :: cs))

def Plain (w : List Char) : Prop := ∀ c ∈ w, c ≠ '\'' ∧ c ≠ '"' ∧ c ≠ fenceMark ∧ c ≠ '\\'

instance (w : List Char) : Decidable (Plain w) :=
  List.decidableBAll (fun c => c ≠ '\'' ∧ c ≠ '"' ∧ c ≠ fenceMark ∧ c ≠ '\\') w

/-- The stretch begins with layout, and nothing in it opens, closes or hides a literal. -/
structure Spacer (s : List Char) : Prop where
  plain : Plain s
  head : ∃ c cs, s = c :: cs ∧ (isBlank c ∨ c = '#')

/-- The text ends as tokens do: its last character, if any, is no blank and no backslash. -/
def Finished (p : List Char) : Prop := ∀ c, p.getLast? = some c → isBlank c = false ∧ c ≠ '\\'

variable {s v w p q : List Char}

theorem plain_cons {c : Char} : Plain (c :: w) ↔
    (c ≠ '\'' ∧ c ≠ '"' ∧ c ≠ fenceMark ∧ c ≠ '\\') ∧ Plain w := by simp [Plain]

theorem ne_of_isBlank {c d : Char} (hc : isBlank c) (hd : isBlank d = false) : c ≠ d := by
  rintro rfl
  rw [hc] at hd
  cases hd

theorem closing_of_isBlank {c : Char} (hc : isBlank c) (w : List Char) : Closing (c :: w) := by
  refine closing_cons.2 ⟨?_, ne_of_isBlank hc (by decide), ne_of_isBlank hc (by decide),
    ne_of_isBlank hc (by decide), ne_of_isBlank hc (by decide)⟩
  rw [← Bool.not_eq_true]
  intro name
  rw [isBlank_of_isNameChar name] at hc
  cases hc

theorem behindLayout_line {body : List Char} (h : '\n' ∉ body) (v : List Char) :
    behindLayout true (body ++ '\n' :: v) = settle v := by
  induction body with
  | nil => simp [behindLayout_comment, settle_eq_behindLayout]
  | cons c body ih =>
    rw [List.mem_cons, not_or] at h
    rw [List.cons_append, behindLayout_comment, decide_eq_true (Ne.symm h.1), ih h.2]

/-- Layout is skipped, whatever stands behind it. -/
theorem Layout.settle_append (h : Layout s) (v : List Char) : settle (s ++ v) = settle v := by
  induction h with
  | nil => rfl
  | blank hc rest ih => rw [List.cons_append, settle_cons_of_blank hc, ih]
  | comment body hb rest ih =>
    rw [List.cons_append, List.append_assoc, List.cons_append, settle_eq_behindLayout,
      behindLayout_cons, if_pos rfl, behindLayout_line hb, ih]

theorem Layout.spacer (h : Layout s) (ne : s ≠ []) (plain : Plain s) : Spacer s where
  plain := plain
  head := by
    cases h with
    | nil => exact absurd rfl ne
    | blank hc rest => exact ⟨_, _, rfl, .inl hc⟩
    | comment body hb rest => exact ⟨_, _, rfl, .inr rfl⟩

/-- What is skipped in front of a text begins with layout. -/
theorem Spacer.of_settle (h : settle (s ++ v) = v) (ne : s ≠ []) (plain : Plain s) : Spacer s where
  plain := plain
  head := by
    cases s with
    | nil => exact absurd rfl ne
    | cons c cs =>
      by_cases hc : isBlank c ∨ c = '#'
      · exact ⟨c, cs, rfl, hc⟩
      · rw [not_or, Bool.not_eq_true] at hc
        have whole : Settled (c :: cs ++ v) := settled_cons hc.2 hc.1 _
        have := congrArg List.length (whole.eq.symm.trans h)
        rw [List.length_append, List.length_cons] at this
        omega

namespace Spacer

variable (hs : Spacer s)

include hs

theorem closing (v : List Char) : Closing (s ++ v) := by
  obtain ⟨c, cs, rfl, hc | rfl⟩ := hs.head
  · exact closing_of_isBlank hc _
  · exact closing_cons.2 (by decide)

theorem ne_nil : s ≠ [] := by
  obtain ⟨c, cs, rfl, -⟩ := hs.head
  exact List.cons_ne_nil c cs

theorem not_settled (v : List Char) : ¬Settled (s ++ v) := by
  obtain ⟨c, cs, rfl, hc⟩ := hs.head
  intro settled
  obtain ⟨hash, blank⟩ := Settled.head (show Settled (c :: (cs ++ v)) from settled)
  rw [blank] at hc
  exact hc.elim nofun hash

theorem head_plain {c : Char} (h : (s ++ v).head? = some c) :
    c ≠ '\'' ∧ c ≠ '"' ∧ c ≠ fenceMark ∧ c ≠ '\\' := by
  obtain ⟨d, cs, rfl, -⟩ := hs.head
  cases h
  exact (plain_cons.1 hs.plain).1

end Spacer

@[simp] theorem finished_nil : Finished [] := by simp [Finished]

theorem finished_concat {c : Char} : Finished (p ++ [c]) ↔ isBlank c = false ∧ c ≠ '\\' := by
  simp [Finished]

theorem finished_append (hq : q ≠ []) : Finished (p ++ q) ↔ Finished q := by
  obtain ⟨front, c, rfl⟩ := (List.eq_nil_or_concat q).resolve_left hq
  rw [List.concat_eq_append, ← List.append_assoc, finished_concat, finished_concat]

theorem Finished.of_suffix (h : Finished p) (suffix : q <:+ p) : Finished q := by
  obtain ⟨front, rfl⟩ := suffix
  by_cases hq : q = []
  · rw [hq]
    exact finished_nil
  · exact (finished_append hq).1 h

theorem Finished.drop (h : Finished p) (n : Nat) : Finished (p.drop n) :=
  h.of_suffix (List.drop_suffix n p)

theorem Finished.trimEnd_eq (h : Finished p) : trimEnd p = p := by
  rcases List.eq_nil_or_concat p with rfl | ⟨front, c, rfl⟩
  · rfl
  · rw [List.concat_eq_append, finished_concat] at h
    simp [trimEnd, h.1]

theorem Finished.length_blanks_lt (h : Finished p) (hp : p ≠ []) :
    (p.takeWhile isBlank).length < p.length := by
  rcases List.eq_nil_or_concat p with rfl | ⟨front, c, rfl⟩
  · exact absurd rfl hp
  · rw [List.concat_eq_append, finished_concat] at h
    rw [List.concat_eq_append]
    refine Nat.lt_of_le_of_ne (List.takeWhile_sublist isBlank).length_le fun all => ?_
    have whole := (List.takeWhile_prefix isBlank).eq_of_length all
    have mem : c ∈ (front ++ [c]).takeWhile isBlank := by simp [whole]
    rw [List.mem_takeWhile_imp mem] at h
    cases h.1

end GrammarKit
