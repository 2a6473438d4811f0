import GrammarKit.Number.Layout
import GrammarKit.Proofs.Number.Numeral
import GrammarKit.Proofs.Number.Shortest

/-!
Floating point numbers as they are written in grammar text. Main statement: what is written for a
finite number is a numeral that is rounded to that number.
-/

namespace GrammarKit

namespace FloatLayout

open Binary64 (nearest)

variable {negative : Bool}

theorem isDigit_zeros (n : Nat) : ∀ c ∈ zeros n, c.isDigit := by
  intro c hc
  rw [List.eq_of_mem_replicate hc]
  rfl

theorem digitsValue_append_zeros (digits : List Char) (n : Nat) :
    digitsValue (digits ++ zeros n) = digitsValue digits * 10 ^ n := by
  rw [digitsValue, Nat.ofDigitChars_append, zeros, Nat.ofDigitChars_replicate_zero, Nat.mul_comm]
  rfl

theorem digitsValue_zeros_append (n : Nat) (digits : List Char) :
    digitsValue (zeros n ++ digits) = digitsValue digits := by
  rw [digitsValue, Nat.ofDigitChars_append, zeros, Nat.ofDigitChars_replicate_zero, Nat.mul_zero]
  rfl

/-- Where the point stands makes no difference to the number. -/
theorem exists_positional {digits : List Char} (some : digits ≠ []) (all : ∀ c ∈ digits, c.isDigit)
    (exponent : Int) : ∃ whole fraction, positional digits exponent = whole ++ '.' :: fraction ∧
      whole ≠ [] ∧ (∀ c ∈ whole, c.isDigit) ∧ (∀ c ∈ fraction, c.isDigit) ∧
      nearest ⟨negative, digitsValue (whole ++ fraction), -fraction.length⟩ =
        nearest ⟨negative, digitsValue digits, exponent⟩ := by
  unfold positional
  cases exponent with
  | ofNat e =>
    refine ⟨digits ++ zeros e, ['0'], rfl, by simp [some], ?_, isDigit_zeros 1, ?_⟩
    · intro c hc
      exact (List.mem_append.1 hc).elim (all c) (isDigit_zeros e c)
    · have zeros_succ : zeros e ++ ['0'] = zeros (e + 1) := List.replicate_succ'.symm
      rw [List.append_assoc, zeros_succ, digitsValue_append_zeros, Binary64.nearest_mul_ten_pow]
      have places : -((['0'].length : Nat) : Int) + (e + 1 : Nat) = Int.ofNat e := by
        rw [List.length_singleton, Int.ofNat_eq_natCast]
        omega
      rw [places]
  | negSucc e =>
    dsimp only
    split
    · rename_i h
      refine ⟨digits.take (digits.length - (e + 1)), digits.drop (digits.length - (e + 1)), rfl, ?_,
        fun c hc => all c (List.mem_of_mem_take hc),
        fun c hc => all c (List.mem_of_mem_drop hc), ?_⟩
      · intro nil
        have := congrArg List.length nil
        rw [List.length_take, List.length_nil] at this
        omega
      · rw [List.take_append_drop, List.length_drop]
        congr 2
        omega
    · rename_i h
      refine ⟨['0'], zeros (e + 1 - digits.length) ++ digits, rfl, by simp, isDigit_zeros 1, ?_, ?_⟩
      · intro c hc
        exact (List.mem_append.1 hc).elim (isDigit_zeros _ c) (all c)
      · rw [show ['0'] = zeros 1 from rfl, digitsValue_zeros_append, digitsValue_zeros_append,
          List.length_append, zeros, List.length_replicate]
        congr 2
        omega

/-- The number of digits says how large a coefficient is. -/
theorem ten_pow_length_toDigits {c : Nat} (hc : c ≠ 0) :
    10 ^ ((Nat.toDigits 10 c).length - 1) ≤ c ∧ c < 10 ^ (Nat.toDigits 10 c).length := by
  have pos := List.length_pos_iff.2 (@Nat.toDigits_ne_nil c 10)
  constructor
  · apply Nat.le_of_not_lt
    intro short
    by_cases one : (Nat.toDigits 10 c).length - 1 = 0
    · rw [one, Nat.pow_zero] at short
      omega
    · have := (Nat.length_toDigits_le_iff (by decide) (Nat.pos_of_ne_zero one)).2 short
      omega
  · exact (Nat.length_toDigits_le_iff (by decide) pos).1 (Nat.le_refl _)

/-- One digit in front of the point makes a numeral of the same value. -/
theorem exists_scientific {layout : FloatLayout} (unsigned : layout.exponentSign = false)
    {digits : List Char} (some : digits ≠ []) (all : ∀ c ∈ digits, c.isDigit) {leading : Int}
    (bounded : leading.natAbs < Decimal.exponentLimit) :
    ∃ n : Numeral, n.chars = Numeral.signChars negative ++ scientific layout digits leading ∧
      n.decimal = ⟨negative, digitsValue digits, leading + 1 - digits.length⟩ ∧
      n.exponent.isSome := by
  cases digits with
  | nil => exact absurd rfl some
  | cons d digits =>
    obtain ⟨first, rest⟩ := List.forall_mem_cons.1 all
    have whole : ∀ c ∈ [d], c.isDigit := List.forall_mem_singleton.2 first
    cases digits with
    | nil =>
      refine ⟨⟨negative, [d], none, leading, by simp, whole, by simp, bounded⟩, ?_, ?_, rfl⟩
      · simp [Numeral.chars, scientific, Numeral.fractionChars, Numeral.exponentChars, unsigned]
      · simp [Numeral.decimal]
    | cons d' digits =>
      refine ⟨⟨negative, [d], .some (d' :: digits), leading, by simp, whole, rest, bounded⟩,
        ?_, ?_, rfl⟩
      · simp [Numeral.chars, scientific, Numeral.fractionChars, Numeral.exponentChars, unsigned]
      · have places : leading - ((d' :: digits).length : Int) =
            leading + 1 - (d :: d' :: digits).length := by
          rw [List.length_cons, List.length_cons, List.length_cons]
          omega
        exact congrArg (Decimal.mk negative (digitsValue (d :: d' :: digits))) places

/-- A decimal is written as a numeral of the same value, whichever way is taken. -/
theorem exists_numeral_of_nearest {layout : FloatLayout} (unsigned : layout.exponentSign = false)
    {c s e' : Nat} {e : Int} {h : Binary64.Canonical s e'} (hs : s ≠ 0)
    (found : nearest ⟨negative, c, e⟩ = .finite negative s e' h) :
    ∃ n : Numeral, n.chars = Numeral.signChars negative ++
        (let digits := Nat.toDigits 10 c
        let leading := (digits.length : Int) - 1 + e
        if layout.leastPositional ≤ leading ∧ leading < 16 then positional digits e
        else scientific layout digits leading) ∧
      nearest n.decimal = .finite negative s e' h ∧ (n.fraction.isSome ∨ n.exponent.isSome) := by
  have hc : c ≠ 0 := by
    rintro rfl
    cases found
    exact hs rfl
  have some := @Nat.toDigits_ne_nil c 10
  have all := isDigit_toDigits c
  obtain ⟨low, high⟩ := ten_pow_length_toDigits hc
  obtain ⟨below, above⟩ := Binary64.reach_of_nearest found hs
  have below := below _ low
  have above := above _ (Nat.le_of_lt high)
  dsimp only at below above ⊢
  split
  · obtain ⟨whole, fraction, hchars, hwhole, digits, digits', value⟩ :=
      @exists_positional negative _ some all e
    refine ⟨⟨negative, whole, .some fraction, none, hwhole, digits, digits', by decide⟩, ?_, ?_,
      .inl rfl⟩
    · rw [hchars]
      simp [Numeral.chars, Numeral.fractionChars, Numeral.exponentChars]
    · rw [digitsValue_toDigits, found] at value
      rw [← value]
      simp [Numeral.decimal]
  · have bounded : ((Nat.toDigits 10 c).length - 1 + e : Int).natAbs < Decimal.exponentLimit := by
      rw [Binary64.reach] at below above
      rw [Decimal.exponentLimit]
      omega
    obtain ⟨n, hchars, value, exponent⟩ :=
      @exists_scientific negative _ unsigned _ some all _ bounded
    refine ⟨n, hchars, ?_, .inr exponent⟩
    rw [value, digitsValue_toDigits, ← found]
    congr 2
    omega

/-- What is written for a finite number is a numeral, of no integer, and rounds to the number. -/
theorem exists_numeral {s e : Nat} (h : Binary64.Canonical s e) (negative : Bool) :
    ∃ n : Numeral, n.chars = grammarText.chars (.finite negative s e h) ∧
      nearest n.decimal = .finite negative s e h ∧ (n.fraction.isSome ∨ n.exponent.isSome) := by
  by_cases hs : s = 0
  · subst hs
    have he : e = 0 := h.2.1.resolve_right (by decide)
    subst he
    have zero := isDigit_zeros 1
    exact ⟨⟨negative, ['0'], some ['0'], none, by simp, zero, zero, by decide⟩, rfl, rfl, .inl rfl⟩
  · have found := Binary64.nearest_shortest grammarText.tie h negative
    generalize hd : Binary64.shortest grammarText.tie s e = d at found
    obtain ⟨c, e'⟩ := d
    have unsigned : grammarText.exponentSign = false := rfl
    obtain ⟨n, hchars, value, point⟩ := exists_numeral_of_nearest unsigned hs found
    refine ⟨n, ?_, value, point⟩
    rw [hchars, chars, magnitude, if_neg hs, hd]
    rfl

end FloatLayout

end GrammarKit
