import GrammarKit.Proofs.Token.Lead

/-!
Exchanging what follows a token. A token that ends inside a stretch of text still stands there, with
the same length, when the text behind the stretch is replaced by one that is tame (it has no quote
and no backtick, so it closes no literal and no code that the old text left open) and closing (its
first character cannot belong to a name or a number). Here are the tokens that end where their
characters end: names, words, numbers and single characters.
-/

namespace GrammarKit

def Tame (w : List Char) : Prop := ∀ c ∈ w, c ≠ '\'' ∧ c ≠ '"' ∧ c ≠ fenceMark

instance (w : List Char) : Decidable (Tame w) :=
  List.decidableBAll (fun c => c ≠ '\'' ∧ c ≠ '"' ∧ c ≠ fenceMark) w

def Closing (w : List Char) : Prop :=
  ∀ c, w.head? = some c → isNameChar c = false ∧ c ≠ '.' ∧ c ≠ '+' ∧ c ≠ '-' ∧ c ≠ ':'

@[simp] theorem tame_nil : Tame [] := by simp [Tame]

theorem tame_cons {c : Char} {w : List Char} :
    Tame (c :: w) ↔ (c ≠ '\'' ∧ c ≠ '"' ∧ c ≠ fenceMark) ∧ Tame w := by simp [Tame]

theorem tame_append {a b : List Char} : Tame (a ++ b) ↔ Tame a ∧ Tame b := by
  simp only [Tame, List.mem_append]
  exact ⟨fun h => ⟨fun c hc => h c (.inl hc), fun c hc => h c (.inr hc)⟩,
    fun h c hc => hc.elim (h.1 c) (h.2 c)⟩

theorem Tame.line_feed {w : List Char} (h : Tame w) : Tame ('\n' :: w) :=
  tame_cons.2 ⟨by decide, h⟩

@[simp] theorem closing_nil : Closing [] := by simp [Closing]

theorem closing_cons {c : Char} {w : List Char} :
    Closing (c :: w) ↔ isNameChar c = false ∧ c ≠ '.' ∧ c ≠ '+' ∧ c ≠ '-' ∧ c ≠ ':' := by
  simp [Closing]

theorem closing_line_feed (w : List Char) : Closing ('\n' :: w) := closing_cons.2 (by decide)

theorem Closing.not_digit {c : Char} {w : List Char} (h : Closing (c :: w)) :
    c.isDigit = false := by
  have hc := (closing_cons.1 h).1
  rw [← Bool.not_eq_true, isNameChar_iff] at hc
  rw [← Bool.not_eq_true, isDigit_iff]
  omega

/-- A run of characters that ends in the stretch goes on ending there. -/
theorem takeWhile_exchange {f : Char → Bool} {p v w : List Char}
    (h : ((p ++ v).takeWhile f).length ≤ p.length) (hw : ∀ c, w.head? = some c → f c = false) :
    (p ++ w).takeWhile f = (p ++ v).takeWhile f := by
  induction p with
  | nil =>
    have hv : v.takeWhile f = [] := List.length_eq_zero_iff.1 (by simpa using h)
    cases w with
    | nil => simp [hv]
    | cons c w => simp [hv, hw c rfl]
  | cons c p ih =>
    by_cases hc : f c
    · simp only [List.cons_append, List.takeWhile_cons_of_pos hc, List.length_cons,
        Nat.add_le_add_iff_right] at h ⊢
      rw [ih h]
    · simp only [List.cons_append, List.takeWhile_cons_of_neg hc]

theorem prefix_of_stop {l p w : List Char} (h : l <+: p ++ w) (stop : ∀ c ∈ l, w.head? ≠ some c) :
    l <+: p := by
  by_cases hl : l.length ≤ p.length
  · exact List.prefix_of_prefix_length_le h (List.prefix_append p w) hl
  · obtain ⟨q, rfl⟩ := List.prefix_of_prefix_length_le (List.prefix_append p w) h (by omega)
    rw [List.prefix_append_right_inj] at h
    cases q with
    | nil => exact absurd (by simp) hl
    | cons c q =>
      obtain ⟨rest, rfl⟩ := h
      exact absurd rfl (stop c (by simp))

namespace Token

variable {p v w : List Char} {n : Nat}

theorem digitsLength_exchange (h : digitsLength (p ++ v) ≤ p.length) (hw : Closing w) :
    digitsLength (p ++ w) = digitsLength (p ++ v) := by
  unfold digitsLength at *
  rw [takeWhile_exchange h]
  intro c hc
  cases w with
  | nil => cases hc
  | cons d w => cases hc; exact hw.not_digit

theorem signLength_cons_append (c : Char) (p v : List Char) :
    signLength (c :: p ++ v) = signLength (c :: p) := rfl

theorem signLength_le (cs : List Char) : signLength cs ≤ cs.length := by
  cases cs with
  | nil => exact Nat.le_refl 0
  | cons c cs =>
    rw [signLength]
    split <;> simp

theorem signLength_of_closing (hw : Closing w) : signLength w = 0 := by
  cases w with
  | nil => rfl
  | cons c w =>
    have hc := closing_cons.1 hw
    simp [signLength, hc.2.2.1, hc.2.2.2.1]

theorem digitsLength_of_closing (hw : Closing w) : digitsLength w = 0 := by
  cases w with
  | nil => rfl
  | cons c w => simp [digitsLength, hw.not_digit]

theorem fractionLength_of_closing (hw : Closing w) : fractionLength w = 0 := by
  cases w with
  | nil => rfl
  | cons c w => simp [fractionLength, (closing_cons.1 hw).2.1]

theorem exponentLength_of_closing (hw : Closing w) : exponentLength w = 0 := by
  cases w with
  | nil => rfl
  | cons c w =>
    have hc : ¬(c = 'e' ∨ c = 'E') := by
      rintro (rfl | rfl) <;> exact absurd (closing_cons.1 hw).1 (by decide)
    simp only [exponentLength, if_neg hc]

theorem fractionLength_exchange (h : fractionLength (p ++ v) ≤ p.length) (hw : Closing w) :
    fractionLength (p ++ w) = fractionLength (p ++ v) := by
  cases p with
  | nil =>
    have hv : fractionLength ([] ++ v) = 0 := by simpa using h
    rw [hv, List.nil_append, fractionLength_of_closing hw]
  | cons c p =>
    simp only [List.cons_append, fractionLength, List.length_cons] at h ⊢
    split
    · rename_i hc
      rw [if_pos hc] at h
      rw [digitsLength_exchange (v := v) (by omega) hw]
    · rfl

theorem exponentLength_exchange (h : exponentLength (p ++ v) ≤ p.length) (hw : Closing w) :
    exponentLength (p ++ w) = exponentLength (p ++ v) := by
  cases p with
  | nil =>
    have hv : exponentLength ([] ++ v) = 0 := by simpa using h
    rw [hv, List.nil_append, exponentLength_of_closing hw]
  | cons c p =>
    simp only [List.cons_append, exponentLength, List.length_cons] at h ⊢
    split
    · rename_i hc
      rw [if_pos hc] at h
      cases p with
      | nil =>
        -- A sign or a digit behind the mark would lie outside the stretch.
        have hv : digitsLength (v.drop (signLength v)) = 0 := by
          by_cases hd : digitsLength (v.drop (signLength v)) = 0
          · exact hd
          · simp [hd] at h
            omega
        simp [hv, signLength_of_closing hw, digitsLength_of_closing hw]
      | cons d p =>
        rw [signLength_cons_append, signLength_cons_append] at *
        have le := signLength_le (d :: p)
        rw [List.drop_append_of_le_length le] at h ⊢
        rw [List.drop_append_of_le_length le]
        rw [digitsLength_exchange (v := v) _ hw]
        rw [List.length_drop]
        split at h <;> omega
    · rfl

/-- A number that ends in the stretch. -/
theorem numberLength?_exchange (h : numberLength? (p ++ v) = some n) (hn : n ≤ p.length)
    (hw : Closing w) : numberLength? (p ++ w) = some n := by
  rw [numberLength?_eq_some] at h ⊢
  simp only at h ⊢
  obtain ⟨total, some⟩ := h
  have sign : signLength (p ++ w) = signLength (p ++ v) := by
    cases p with
    | nil =>
      rw [List.length_nil] at hn
      omega
    | cons c p => rfl
  have hs : signLength (p ++ v) ≤ p.length := by omega
  have whole : digitsLength ((p ++ w).drop (signLength (p ++ v))) =
      digitsLength ((p ++ v).drop (signLength (p ++ v))) := by
    rw [List.drop_append_of_le_length hs] at *
    rw [List.drop_append_of_le_length hs]
    exact digitsLength_exchange (by rw [List.length_drop]; omega) hw
  rw [sign, whole]
  generalize signLength (p ++ v) = a at *
  generalize digitsLength ((p ++ v).drop a) = b at *
  have hb : a + b ≤ p.length := by omega
  have fraction : fractionLength ((p ++ w).drop (a + b)) =
      fractionLength ((p ++ v).drop (a + b)) := by
    rw [List.drop_append_of_le_length hb] at *
    rw [List.drop_append_of_le_length hb]
    exact fractionLength_exchange (by rw [List.length_drop]; omega) hw
  rw [fraction]
  generalize fractionLength ((p ++ v).drop (a + b)) = c at *
  have hc : a + b + c ≤ p.length := by omega
  have exponent : exponentLength ((p ++ w).drop (a + b + c)) =
      exponentLength ((p ++ v).drop (a + b + c)) := by
    rw [List.drop_append_of_le_length hc] at *
    rw [List.drop_append_of_le_length hc]
    exact exponentLength_exchange (by rw [List.length_drop]; omega) hw
  rw [exponent]
  exact ⟨total, some⟩

theorem charLength?_exchange {mark : Char} (h : charLength? mark (p ++ v) = some n)
    (hn : n ≤ p.length) : charLength? mark (p ++ w) = some n := by
  obtain ⟨rfl, rest, hr⟩ := charLength?_eq_some.1 h
  cases p with
  | nil => exact absurd hn (by simp)
  | cons c p =>
    rw [List.cons_append, List.cons.injEq] at hr
    exact charLength?_eq_some.2 ⟨rfl, p ++ w, by rw [hr.1, List.cons_append]⟩

theorem wordLength?_exchange {word : List Char} (h : wordLength? word (p ++ v) = some n)
    (hn : n ≤ p.length) (hw : Closing w) : wordLength? word (p ++ w) = some n := by
  obtain ⟨rfl, rest, hr, hrest⟩ := wordLength?_eq_some.1 h
  obtain ⟨q, rfl⟩ : word <+: p :=
    List.prefix_of_prefix_length_le ⟨rest, hr.symm⟩ (List.prefix_append p v) hn
  rw [List.append_assoc, List.append_cancel_left_eq] at hr
  refine wordLength?_eq_some.2 ⟨rfl, q ++ w, List.append_assoc .., ?_⟩
  cases q with
  | nil =>
    cases w with
    | nil => rfl
    | cons c w => simp [(closing_cons.1 hw).1]
  | cons c q =>
    rw [← hr] at hrest
    exact hrest

theorem nameLength?_exchange (h : nameLength? (p ++ v) = some n) (hn : n ≤ p.length)
    (hw : Closing w) : nameLength? (p ++ w) = some n := by
  obtain ⟨c, rest, hr, hc, rfl⟩ := nameLength?_eq_some.1 h
  cases p with
  | nil => exact absurd hn (by simp)
  | cons d p =>
    rw [List.cons_append, List.cons.injEq] at hr
    obtain ⟨rfl, rfl⟩ := hr
    refine nameLength?_eq_some.2 ⟨d, p ++ w, rfl, hc, ?_⟩
    have close : ∀ c, w.head? = some c → isNameChar c = false := fun c hc => (hw c hc).1
    rw [takeWhile_exchange (v := v) (by simpa using hn) close]

end Token

end GrammarKit
