import GrammarKit.Text.Blank

/-!
Layout is skipped, not read: what stands behind it is the text settled. Settling is idempotent, and
a text whose end is exchanged settles the same way up to the cut, provided that the new end begins
with a line feed, which closes a comment that the cut left open.
-/

namespace GrammarKit

/-- The text behind the layout at its start; a comment may be open already. -/
def behindLayout (inComment : Bool) (cs : List Char) : List Char :=
  cs.drop (layoutLength.go inComment cs 0)

def settle (cs : List Char) : List Char := cs.drop (layoutLength cs)

def Settled (cs : List Char) : Prop := settle cs = cs

theorem Settled.eq {cs : List Char} (h : Settled cs) : settle cs = cs := h

theorem settle_eq_behindLayout (cs : List Char) : settle cs = behindLayout false cs := rfl

theorem layoutLength_go_add (b : Bool) (cs : List Char) (n m : Nat) :
    layoutLength.go b cs (n + m) = layoutLength.go b cs n + m := by
  induction cs generalizing b n with
  | nil => rfl
  | cons c cs ih =>
    have step : n + m + 1 = n + 1 + m := by omega
    unfold layoutLength.go
    split
    · rw [step, ih]
    · split
      · rw [step, ih]
      · split
        · rw [step, ih]
        · rfl

theorem layoutLength_go_succ (b : Bool) (cs : List Char) :
    layoutLength.go b cs 1 = layoutLength.go b cs 0 + 1 := layoutLength_go_add b cs 0 1

theorem layoutLength_go_le (b : Bool) (cs : List Char) (n : Nat) :
    layoutLength.go b cs n ≤ n + cs.length := by
  induction cs generalizing b n with
  | nil => exact Nat.le_refl n
  | cons c cs ih =>
    have further (b : Bool) : layoutLength.go b cs (n + 1) ≤ n + (c :: cs).length := by
      rw [List.length_cons, Nat.add_comm cs.length, ← Nat.add_assoc]
      exact ih b (n + 1)
    rw [layoutLength.go]
    split
    next => exact further _
    next =>
      split
      next => exact further _
      next =>
        split
        next => exact further _
        next => exact Nat.le_add_right _ _

theorem layoutLength_le (cs : List Char) : layoutLength cs ≤ cs.length := by
  have le := layoutLength_go_le false cs 0
  rwa [Nat.zero_add] at le

@[simp] theorem behindLayout_nil (b : Bool) : behindLayout b [] = [] := rfl

theorem behindLayout_comment (c : Char) (cs : List Char) :
    behindLayout true (c :: cs) = behindLayout (c ≠ '\n') cs := by
  simp [behindLayout, layoutLength.go, layoutLength_go_succ]

theorem behindLayout_cons (c : Char) (cs : List Char) :
    behindLayout false (c :: cs) =
      if c = '#' then behindLayout true cs
      else if isBlank c then behindLayout false cs
      else c :: cs := by
  unfold behindLayout
  rw [layoutLength.go]
  split
  · contradiction
  · split
    · simp [layoutLength_go_succ]
    · split <;> simp [layoutLength_go_succ]

@[simp] theorem settle_nil : settle [] = [] := rfl

@[simp] theorem settled_nil : Settled [] := rfl

theorem settle_cons_of_blank {c : Char} (h : isBlank c) (cs : List Char) :
    settle (c :: cs) = settle cs := by
  have hc : c ≠ '#' := by rintro rfl; revert h; decide
  rw [settle_eq_behindLayout, behindLayout_cons, if_neg hc, if_pos h, ← settle_eq_behindLayout]

theorem settled_cons {c : Char} (h₁ : c ≠ '#') (h₂ : isBlank c = false) (cs : List Char) :
    Settled (c :: cs) := by
  rw [Settled, settle_eq_behindLayout, behindLayout_cons, if_neg h₁, h₂, if_neg Bool.false_ne_true]

theorem settle_line_feed (cs : List Char) : settle ('\n' :: cs) = settle cs :=
  settle_cons_of_blank (by decide) cs

theorem behindLayout_suffix (b : Bool) (cs : List Char) : behindLayout b cs <:+ cs :=
  List.drop_suffix _ _

theorem settle_suffix (cs : List Char) : settle cs <:+ cs := List.drop_suffix _ _

theorem settled_behindLayout (b : Bool) (cs : List Char) : Settled (behindLayout b cs) := by
  induction cs generalizing b with
  | nil => exact settled_nil
  | cons c cs ih =>
    cases b with
    | true => rw [behindLayout_comment]; exact ih _
    | false =>
      rw [behindLayout_cons]
      split
      · exact ih _
      · rename_i hc
        split
        · exact ih _
        · rename_i hb
          exact settled_cons hc (by simpa using hb) cs

theorem settled_settle (cs : List Char) : Settled (settle cs) := settled_behindLayout false cs

@[simp] theorem settle_settle (cs : List Char) : settle (settle cs) = settle cs := settled_settle cs

/-- A settled text begins with a character of a token, if it has one. -/
theorem Settled.head {c : Char} {cs : List Char} (h : Settled (c :: cs)) :
    c ≠ '#' ∧ isBlank c = false := by
  have short : ∀ b, behindLayout b cs ≠ c :: cs := by
    intro b hb
    have := (behindLayout_suffix b cs).length_le
    rw [hb, List.length_cons] at this
    omega
  rw [Settled, settle_eq_behindLayout, behindLayout_cons] at h
  split at h
  · exact absurd h (short true)
  · rename_i hc
    split at h
    · exact absurd h (short false)
    · rename_i hb
      exact ⟨hc, by simpa using hb⟩

theorem Settled.layoutLength {cs : List Char} (h : Settled cs) : layoutLength cs = 0 := by
  cases cs with
  | nil => rfl
  | cons c cs =>
    have := congrArg List.length h
    rw [settle, List.length_drop, List.length_cons] at this
    omega

theorem Settled.append {p v : List Char} (h : Settled (p ++ v)) (hp : p ≠ []) (w : List Char) :
    Settled (p ++ w) := by
  cases p with
  | nil => exact absurd rfl hp
  | cons c p =>
    obtain ⟨hash, blank⟩ := Settled.head (show Settled (c :: (p ++ v)) from h)
    exact settled_cons hash blank _

theorem settle_drop_blanks (cs : List Char) (n : Nat) (h : n ≤ (cs.takeWhile isBlank).length) :
    settle (cs.drop n) = settle cs := by
  induction cs generalizing n with
  | nil => simp
  | cons c cs ih =>
    cases n with
    | zero => rfl
    | succ n =>
      by_cases hc : isBlank c
      · rw [List.takeWhile_cons_of_pos hc] at h
        rw [List.drop_succ_cons, settle_cons_of_blank hc]
        exact ih n (by simpa using h)
      · rw [List.takeWhile_cons_of_neg hc] at h
        simp at h

/-- Layout is skipped up to a cut, where a comment may be open, or up to a character in front of it,
whatever stands behind the cut. -/
theorem behindLayout_append (b : Bool) (p : List Char) :
    (∃ b', ∀ w, behindLayout b (p ++ w) = behindLayout b' w) ∨
      ∃ c q, ∀ w, behindLayout b (p ++ w) = c :: q ++ w := by
  induction p generalizing b with
  | nil => exact .inl ⟨b, fun _ => rfl⟩
  | cons c p ih =>
    simp only [List.cons_append]
    cases b with
    | true =>
      simp only [behindLayout_comment]
      exact ih _
    | false =>
      simp only [behindLayout_cons]
      split
      · exact ih true
      · split
        · exact ih false
        · exact .inr ⟨c, p, fun _ => rfl⟩

/-- The end of a text behind its layout may be exchanged for one that begins with a line feed. -/
theorem behindLayout_exchange {b : Bool} {p q v : List Char} (h : behindLayout b (p ++ v) = q ++ v)
    (w : List Char) : behindLayout b (p ++ '\n' :: w) = settle (q ++ '\n' :: w) := by
  rcases behindLayout_append b p with ⟨b', skips⟩ | ⟨c, q', stops⟩
  · rw [skips] at h ⊢
    have short := (behindLayout_suffix b' v).length_le
    rw [h, List.length_append] at short
    have hq : q = [] := List.length_eq_zero_iff.1 (by omega)
    rw [hq, List.nil_append, settle_line_feed]
    cases b' with
    | false => exact settle_line_feed w
    | true => simp [behindLayout_comment, settle_eq_behindLayout]
  · rw [stops, List.append_cancel_right_eq] at h
    rw [← h, ← stops]
    exact (settled_behindLayout b _).symm

theorem settle_exchange {p q v : List Char} (h : settle (p ++ v) = q ++ v) (w : List Char) :
    settle (p ++ '\n' :: w) = settle (q ++ '\n' :: w) := behindLayout_exchange h w

/-- It may be exchanged for any other text as well that no layout stands in front of. -/
theorem settle_behind {p q v w : List Char} (h : settle (p ++ v) = q ++ v) (hv : v ≠ [])
    (hw : Settled w) : settle (p ++ w) = q ++ w := by
  rw [settle_eq_behindLayout] at h ⊢
  rcases behindLayout_append false p with ⟨b, skips⟩ | ⟨c, q', stops⟩
  · rw [skips] at h ⊢
    have short := (behindLayout_suffix b v).length_le
    rw [h, List.length_append] at short
    have hq : q = [] := List.length_eq_zero_iff.1 (by omega)
    rw [hq, List.nil_append] at h ⊢
    cases b with
    | false => exact hw
    | true =>
      -- An open comment would take a character at least.
      obtain ⟨c, cs, rfl⟩ := List.exists_cons_of_ne_nil hv
      have shorter := (behindLayout_suffix (c ≠ '\n') cs).length_le
      rw [behindLayout_comment] at h
      rw [h, List.length_cons] at shorter
      omega
  · rw [stops, List.append_cancel_right_eq] at h
    rw [stops, h]

end GrammarKit
