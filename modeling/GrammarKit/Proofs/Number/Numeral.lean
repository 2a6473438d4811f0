import GrammarKit.Proofs.Literal.Decoding

/-!
Numerals by their parts: a sign, digits in front of the point, digits behind it, and an exponent.
Whatever the parts are, the numeral is one token and stands for the decimal that they spell.
-/

namespace GrammarKit

theorem takeWhile_run {f : Char → Bool} {run rest : List Char} (hrun : ∀ c ∈ run, f c)
    (stop : rest.head?.any f = false) : (run ++ rest).takeWhile f = run := by
  rw [List.takeWhile_append_of_pos hrun]
  cases rest with
  | nil => rw [List.takeWhile_nil, List.append_nil]
  | cons c rest =>
    have hc : ¬f c := by simpa using stop
    rw [List.takeWhile_cons_of_neg hc, List.append_nil]

theorem dropWhile_run {f : Char → Bool} {run rest : List Char} (hrun : ∀ c ∈ run, f c)
    (stop : rest.head?.any f = false) : (run ++ rest).dropWhile f = rest := by
  rw [dropWhile_eq_drop, takeWhile_run hrun stop, List.drop_left]

theorem isDigit_toDigits (n : Nat) : ∀ c ∈ Nat.toDigits 10 n, c.isDigit :=
  fun _ hc => Nat.isDigit_of_mem_toDigits (by decide) (by decide) hc

theorem digitsValue_toDigits (n : Nat) : digitsValue (Nat.toDigits 10 n) = n :=
  Nat.ofDigitChars_ten_toDigits

theorem isNatural_toDigits (n : Nat) : isNatural (Nat.toDigits 10 n) := by
  have some : (Nat.toDigits 10 n).isEmpty = false :=
    List.isEmpty_eq_false_iff.2 Nat.toDigits_ne_nil
  rw [isNatural, some, List.all_eq_true.2 (isDigit_toDigits n)]
  rfl

theorem ne_of_isDigit {c m : Char} (hc : c.isDigit) (hm : m.isDigit = false) : c ≠ m := by
  rintro rfl
  rw [hc] at hm
  cases hm

theorem le_ofDigitChars (digits : List Char) (n : Nat) : n ≤ Nat.ofDigitChars 10 digits n := by
  rw [Nat.ofDigitChars_eq_ofDigitChars_zero]
  have pos : 1 ≤ 10 ^ digits.length := Nat.pow_pos (by decide)
  have le := Nat.mul_le_mul_right n pos
  omega

/-- The digits of an exponent count in full below the limit. -/
theorem foldl_exponent {digits : List Char} {n : Nat}
    (h : Nat.ofDigitChars 10 digits n < Decimal.exponentLimit) :
    digits.foldl (fun n c => if n < Decimal.exponentLimit then n * 10 + digitsValue [c] else n) n =
      Nat.ofDigitChars 10 digits n := by
  induction digits generalizing n with
  | nil => rfl
  | cons c digits ih =>
    rw [Nat.ofDigitChars_cons] at h
    have le := le_ofDigitChars digits (10 * n + (c.toNat - '0'.toNat))
    have step : n * 10 + digitsValue [c] = 10 * n + (c.toNat - '0'.toNat) := by
      rw [digitsValue, Nat.ofDigitChars_cons, Nat.ofDigitChars_nil]
      omega
    rw [List.foldl_cons, if_pos (by omega), step, Nat.ofDigitChars_cons]
    exact ih h

structure Numeral where
  negative : Bool
  whole : List Char
  fraction : Option (List Char)
  exponent : Option Int
  whole_ne_nil : whole ≠ []
  isDigit_whole : ∀ c ∈ whole, c.isDigit
  isDigit_fraction : ∀ c ∈ fraction.getD [], c.isDigit
  exponent_lt : (exponent.getD 0).natAbs < Decimal.exponentLimit

namespace Numeral

def signChars (negative : Bool) : List Char := if negative then ['-'] else []

def fractionChars : Option (List Char) → List Char
  | some digits => '.' :: digits
  | none => []

def exponentChars : Option Int → List Char
  | some e => 'e' :: FloatLayout.integerChars e
  | none => []

def chars (n : Numeral) : List Char :=
  signChars n.negative ++ (n.whole ++ (fractionChars n.fraction ++ exponentChars n.exponent))

def decimal (n : Numeral) : Decimal :=
  ⟨n.negative, digitsValue (n.whole ++ n.fraction.getD []),
    n.exponent.getD 0 - (n.fraction.getD []).length⟩

section

variable {negative : Bool} {digits : List Char}

theorem splitSign_digits (h : digits.head?.any Char.isDigit) :
    splitSign (signChars negative ++ digits) = (negative, digits) := by
  cases negative with
  | true => rfl
  | false =>
    cases digits with
    | nil => cases h
    | cons c digits =>
      have hc : c.isDigit := by simpa using h
      show splitSign (c :: digits) = _
      unfold splitSign
      split
      · rename_i heq
        exact absurd (List.cons.inj heq).1 (ne_of_isDigit hc (by decide))
      · rename_i heq
        exact absurd (List.cons.inj heq).1 (ne_of_isDigit hc (by decide))
      · rfl

theorem signLength_digits (h : digits.head?.any Char.isDigit) :
    Token.signLength (signChars negative ++ digits) = (signChars negative).length := by
  cases negative with
  | true => rfl
  | false =>
    cases digits with
    | nil => cases h
    | cons c digits =>
      have hc : c.isDigit := by simpa using h
      refine if_neg ?_
      rintro (rfl | rfl)
      · exact ne_of_isDigit hc (by decide) rfl
      · exact ne_of_isDigit hc (by decide) rfl

end

theorem head?_toDigits (n : Nat) : (Nat.toDigits 10 n).head?.any Char.isDigit := by
  have all := isDigit_toDigits n
  cases h : Nat.toDigits 10 n with
  | nil => exact absurd h Nat.toDigits_ne_nil
  | cons c digits =>
    rw [h] at all
    exact all c List.mem_cons_self

theorem integerChars_eq (e : Int) :
    FloatLayout.integerChars e = signChars (e < 0) ++ Nat.toDigits 10 e.natAbs := by
  unfold FloatLayout.integerChars signChars
  by_cases h : e < 0
  · simp [h]
  · simp [h]

theorem fractionChars_stop (fraction : Option (List Char)) (exponent : Option Int) :
    (fractionChars fraction ++ exponentChars exponent).head?.any Char.isDigit = false := by
  cases fraction <;> cases exponent <;> rfl

theorem exponentChars_stop (exponent : Option Int) :
    (exponentChars exponent).head?.any Char.isDigit = false := by
  cases exponent <;> rfl

variable (n : Numeral)

theorem head?_whole (rest : List Char) : (n.whole ++ rest).head?.any Char.isDigit := by
  have all := n.isDigit_whole
  cases h : n.whole with
  | nil => exact absurd h n.whole_ne_nil
  | cons c digits =>
    rw [h] at all
    exact all c List.mem_cons_self

theorem splitFraction_chars :
    Decimal.splitFraction (fractionChars n.fraction ++ exponentChars n.exponent) =
      (n.fraction.getD [], exponentChars n.exponent) := by
  cases h : n.fraction with
  | none => cases n.exponent <;> rfl
  | some ds =>
    have digits : ∀ c ∈ ds, c.isDigit := by simpa [h] using n.isDigit_fraction
    have stop := exponentChars_stop n.exponent
    show ((ds ++ exponentChars n.exponent).takeWhile Char.isDigit,
      (ds ++ exponentChars n.exponent).dropWhile Char.isDigit) = _
    rw [takeWhile_run digits stop, dropWhile_run digits stop]
    rfl

theorem exponent?_chars :
    Decimal.exponent? (exponentChars n.exponent) = some (n.exponent.getD 0) := by
  have bounded := n.exponent_lt
  cases h : n.exponent with
  | none => rfl
  | some e =>
    rw [h] at bounded
    have value : Decimal.exponentValue (Nat.toDigits 10 e.natAbs) = e.natAbs := by
      have read : Nat.ofDigitChars 10 (Nat.toDigits 10 e.natAbs) 0 = e.natAbs :=
        digitsValue_toDigits _
      rw [Decimal.exponentValue, foldl_exponent (by rw [read]; exact bounded), read]
    rw [exponentChars, Decimal.exponent?, if_pos (.inl rfl), integerChars_eq,
      splitSign_digits (head?_toDigits _)]
    dsimp only
    rw [if_pos (isNatural_toDigits _), value]
    by_cases he : e < 0
    · rw [decide_eq_true he]
      exact congrArg some (show -(e.natAbs : Int) = e by omega)
    · rw [decide_eq_false he]
      exact congrArg some (show (e.natAbs : Int) = e by omega)

/-- A numeral is read as the decimal that it stands for. -/
theorem ofChars?_chars : Decimal.ofChars? n.chars = some n.decimal := by
  have split : splitSign n.chars = _ := splitSign_digits (n.head?_whole _)
  have stop := fractionChars_stop n.fraction n.exponent
  have some : n.whole.isEmpty = false := List.isEmpty_eq_false_iff.2 n.whole_ne_nil
  rw [Decimal.ofChars?_eq, split]
  dsimp only
  rw [takeWhile_run n.isDigit_whole stop, dropWhile_run n.isDigit_whole stop,
    n.splitFraction_chars, some, n.exponent?_chars]
  rfl

theorem fractionLength_chars :
    Token.fractionLength (fractionChars n.fraction ++ exponentChars n.exponent) =
      (fractionChars n.fraction).length := by
  cases h : n.fraction with
  | none => cases n.exponent <;> rfl
  | some ds =>
    have digits : ∀ c ∈ ds, c.isDigit := by simpa [h] using n.isDigit_fraction
    have stop := exponentChars_stop n.exponent
    show ((ds ++ exponentChars n.exponent).takeWhile Char.isDigit).length + 1 = _
    rw [takeWhile_run digits stop]
    rfl

theorem exponentLength_chars (exponent : Option Int) :
    Token.exponentLength (exponentChars exponent) = (exponentChars exponent).length := by
  cases exponent with
  | none => rfl
  | some e =>
    have digits : (Nat.toDigits 10 e.natAbs).takeWhile Char.isDigit = Nat.toDigits 10 e.natAbs := by
      simpa using @takeWhile_run Char.isDigit _ [] (isDigit_toDigits e.natAbs) rfl
    have pos := List.length_pos_iff.2 (@Nat.toDigits_ne_nil e.natAbs 10)
    rw [exponentChars, Token.exponentLength, if_pos (.inl rfl), integerChars_eq,
      signLength_digits (head?_toDigits _)]
    simp only [List.drop_left, Token.digitsLength, digits, List.length_cons, List.length_append]
    rw [if_neg (by omega)]
    omega

/-- A numeral is one token. -/
theorem numberLength?_chars : Token.numberLength? n.chars = some n.chars.length := by
  have sign : Token.signLength n.chars = (signChars n.negative).length :=
    signLength_digits (n.head?_whole _)
  have afterSign : n.chars.drop (signChars n.negative).length =
      n.whole ++ (fractionChars n.fraction ++ exponentChars n.exponent) := List.drop_left
  have whole :
      Token.digitsLength (n.chars.drop (signChars n.negative).length) = n.whole.length := by
    rw [afterSign, Token.digitsLength,
      takeWhile_run n.isDigit_whole (fractionChars_stop n.fraction n.exponent)]
  have afterWhole : n.chars.drop ((signChars n.negative).length + n.whole.length) =
      fractionChars n.fraction ++ exponentChars n.exponent := by
    rw [← List.drop_drop, afterSign, List.drop_left]
  have afterFraction : n.chars.drop ((signChars n.negative).length + n.whole.length +
      (fractionChars n.fraction).length) = exponentChars n.exponent := by
    rw [← List.drop_drop, afterWhole, List.drop_left]
  have pos := List.length_pos_iff.2 n.whole_ne_nil
  rw [Token.numberLength?_eq_some]
  dsimp only
  rw [sign, whole, afterWhole, n.fractionLength_chars, afterFraction, exponentLength_chars]
  refine ⟨?_, fun h => Nat.ne_of_gt pos h.1⟩
  simp only [chars, List.length_append]
  omega

end Numeral

end GrammarKit
