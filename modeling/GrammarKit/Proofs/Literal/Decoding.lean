import GrammarKit.Literal
import GrammarKit.Proofs.Terminal

/-!
Every literal that the tokens admit has a value: what stands as a quoted literal decodes, and so
does what stands as a number.
-/

namespace GrammarKit

/-- A quoted literal at the start of a text is one on its own. -/
theorem match?_lexeme {cs : List Char} {q : Quoted} (h : Quoted.match? cs = some q) :
    Quoted.match? (cs.take q.length) = some q ∧ (cs.take q.length).length = q.length := by
  have len : (cs.take q.length).length = q.length :=
    List.length_take_of_le (Token.length_le_of_match?_quoted h)
  rw [← List.take_append_drop q.length cs] at h
  have lexeme := Quoted.match?_exchange (w := []) h (Nat.le_of_eq len.symm) tame_nil
  rw [List.append_nil] at lexeme
  exact ⟨lexeme, len⟩

theorem exists_decodeQuoted {cs : List Char} {n : Nat} (h : Token.regexStr.length? cs = some n) :
    ∃ text, decodeQuoted (cs.take n) = some text := by
  obtain ⟨q, hq, rfl⟩ := Option.map_eq_some_iff.1 h
  obtain ⟨lexeme, len⟩ := match?_lexeme hq
  rw [decodeQuoted, lexeme]
  exact ⟨_, if_pos len.symm⟩

theorem numberLength?_lexeme {cs : List Char} {n : Nat} (h : Token.numberLength? cs = some n) :
    Token.numberLength? (cs.take n) = some (cs.take n).length := by
  have len : (cs.take n).length = n := List.length_take_of_le (Token.numberLength?_le h)
  rw [← List.take_append_drop n cs] at h
  have lexeme := Token.numberLength?_exchange (w := []) h (Nat.le_of_eq len.symm) closing_nil
  rw [List.append_nil] at lexeme
  rw [lexeme, len]

theorem splitSign_snd (cs : List Char) : (splitSign cs).2 = cs.drop (Token.signLength cs) := by
  unfold splitSign
  split
  · rfl
  · rfl
  · rename_i plus minus
    cases cs with
    | nil => rfl
    | cons c cs =>
      have hc : ¬(c = '+' ∨ c = '-') := by
        rintro (rfl | rfl)
        · exact plus cs rfl
        · exact minus cs rfl
      rw [Token.signLength, if_neg hc, List.drop_zero]

theorem dropWhile_eq_drop (f : Char → Bool) (cs : List Char) :
    cs.dropWhile f = cs.drop (cs.takeWhile f).length := by
  have run := @List.drop_left _ (cs.takeWhile f) (cs.dropWhile f)
  rw [List.takeWhile_append_dropWhile] at run
  exact run.symm

namespace Decimal

theorem splitFraction_eq (cs : List Char) :
    (splitFraction cs).2 = cs.drop (Token.fractionLength cs) ∧
      (splitFraction cs).1.length = Token.fractionLength cs - 1 := by
  unfold splitFraction
  split
  · rename_i cs
    exact ⟨dropWhile_eq_drop _ _, rfl⟩
  · rename_i point
    cases cs with
    | nil => exact ⟨rfl, rfl⟩
    | cons c cs =>
      have hc : c ≠ '.' := by
        rintro rfl
        exact point cs rfl
      rw [Token.fractionLength, if_neg hc]
      exact ⟨rfl, rfl⟩

theorem exists_exponent? {cs : List Char} (h : Token.exponentLength cs = cs.length) :
    ∃ e, exponent? cs = some e := by
  cases cs with
  | nil => exact ⟨0, rfl⟩
  | cons c cs =>
    simp only [Token.exponentLength, List.length_cons] at h
    split at h
    · rename_i hc
      split at h
      · omega
      · rename_i hd
        have natural : isNatural (splitSign cs).2 = true := by
          rw [splitSign_snd]
          have sign := Token.signLength_le cs
          generalize hds : cs.drop (Token.signLength cs) = digits at hd h
          have len : digits.length = cs.length - Token.signLength cs := by
            rw [← hds, List.length_drop]
          unfold Token.digitsLength at hd h
          have all : digits.takeWhile Char.isDigit = digits :=
            (List.takeWhile_prefix _).eq_of_length (by omega)
          have digit := List.all_takeWhile (p := Char.isDigit) (l := digits)
          rw [all] at hd digit
          simp only [isNatural, digit, Bool.and_true, Bool.not_eq_true', List.isEmpty_eq_false_iff]
          rintro rfl
          exact hd rfl
        rw [exponent?, if_pos hc]
        dsimp only
        rw [if_pos natural]
        exact ⟨_, rfl⟩
    · omega

/-- The parts of a numeral: its sign, the digits in front of the point and behind it, and its
exponent. -/
theorem ofChars?_eq (cs : List Char) : ofChars? cs =
    if ((splitSign cs).2.takeWhile Char.isDigit).isEmpty &&
        (splitFraction ((splitSign cs).2.dropWhile Char.isDigit)).1.isEmpty then none
    else (exponent? (splitFraction ((splitSign cs).2.dropWhile Char.isDigit)).2).map fun e =>
      ⟨(splitSign cs).1,
        digitsValue ((splitSign cs).2.takeWhile Char.isDigit ++
          (splitFraction ((splitSign cs).2.dropWhile Char.isDigit)).1),
        e - (splitFraction ((splitSign cs).2.dropWhile Char.isDigit)).1.length⟩ := rfl

theorem exists_ofChars? {cs : List Char} (h : Token.numberLength? cs = some cs.length) :
    ∃ d, ofChars? cs = some d := by
  obtain ⟨total, digits⟩ := Token.numberLength?_eq_some.1 h
  have behind : ∀ k, cs.drop (Token.signLength cs + k) = (splitSign cs).2.drop k := by
    intro k
    rw [splitSign_snd, List.drop_drop]
  simp only [Nat.add_assoc, behind, ← splitSign_snd] at total digits
  have sign := congrArg List.length (splitSign_snd cs)
  rw [List.length_drop] at sign
  rw [ofChars?_eq]
  generalize (splitSign cs).2 = tail at *
  have whole : (tail.takeWhile Char.isDigit).length = Token.digitsLength tail := rfl
  obtain ⟨rest, fraction⟩ := splitFraction_eq (tail.dropWhile Char.isDigit)
  rw [dropWhile_eq_drop, whole] at rest fraction ⊢
  have some : ¬((tail.takeWhile Char.isDigit).isEmpty &&
      (splitFraction (tail.drop (Token.digitsLength tail))).1.isEmpty) = true := by
    intro none
    rw [Bool.and_eq_true, List.isEmpty_iff_length_eq_zero, List.isEmpty_iff_length_eq_zero] at none
    omega
  rw [if_neg some]
  have exponent : Token.exponentLength (splitFraction (tail.drop (Token.digitsLength tail))).2 =
      (splitFraction (tail.drop (Token.digitsLength tail))).2.length := by
    have := Token.signLength_le cs
    rw [rest, List.drop_drop, List.length_drop]
    omega
  obtain ⟨e, he⟩ := exists_exponent? exponent
  rw [he]
  exact ⟨_, rfl⟩

end Decimal

theorem exists_ofNumber? {cs : List Char} {n : Nat} (h : Token.litNum.length? cs = some n) :
    ∃ v, Value.ofNumber? (cs.take n) = some v := by
  obtain ⟨d, hd⟩ := Decimal.exists_ofChars? (numberLength?_lexeme h)
  have float : Binary64.ofChars? (cs.take n) = some (Binary64.nearest d) := by
    rw [Binary64.ofChars?, hd]
  rw [Value.ofNumber?, float]
  split
  · split
    · exact ⟨_, rfl⟩
    · exact ⟨_, rfl⟩
  · exact ⟨_, rfl⟩

end GrammarKit
