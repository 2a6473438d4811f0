import GrammarKit.Number.Binary64
import Mathlib.Algebra.Group.Nat.Defs

/-!
Rounding to the nearest number. Only the value of a quotient counts, not the form in which it is
given, and the shortcuts for decimals out of reach come to what their quotients come to.
-/

namespace GrammarKit

namespace Binary64

variable {negative : Bool}

theorem divideToEven_mul {k : Nat} (hk : 0 < k) (num den : Nat) :
    divideToEven (num * k) (den * k) = divideToEven num den := by
  unfold divideToEven
  simp only [Nat.mul_div_mul_right _ _ hk, Nat.mul_mod_mul_right, ← Nat.mul_assoc,
    Nat.mul_lt_mul_right hk]

theorem divideToEven_self {den : Nat} (hd : 0 < den) (n : Nat) :
    divideToEven (n * den) den = n := by
  unfold divideToEven
  simp only [Nat.mul_div_cancel _ hd, Nat.mul_mod_left, Nat.mul_zero, if_pos hd]

theorem ofUnits_mul {k : Nat} (hk : 0 < k) (units den : Nat) :
    ofUnits negative (units * k) (den * k) = ofUnits negative units den := by
  unfold ofUnits
  rw [Nat.mul_div_mul_right _ _ hk]
  have scale : ∀ p, den * k * p = den * p * k := fun p => Nat.mul_right_comm den k p
  simp only [scale, divideToEven_mul hk]

theorem ofRatio_congr {num den num' den' : Nat} (hd : 0 < den) (hd' : 0 < den')
    (same : num * den' = num' * den) : ofRatio negative num den = ofRatio negative num' den' := by
  unfold ofRatio
  rw [← ofUnits_mul hd' (num * unitsInOne) den, ← ofUnits_mul hd (num' * unitsInOne) den',
    Nat.mul_right_comm, same, Nat.mul_right_comm num', Nat.mul_comm den']

/-- The sign has no part in the rounding. -/
theorem exists_parts (units den : Nat) :
    ∃ s e, ∀ negative, ofUnits negative units den = ofParts negative s e := by
  unfold ofUnits
  dsimp only
  split
  · exact ⟨_, _, fun _ => rfl⟩
  · exact ⟨_, _, fun _ => rfl⟩

theorem ofParts_of_canonical {s e : Nat} (h : Canonical s e) (negative : Bool) :
    ofParts negative s e = .finite negative s e h := dif_pos h

theorem ofParts_eq_finite {n : Bool} {s e s' e' : Nat} {h : Canonical s' e'}
    (parts : ofParts n s e = .finite n s' e' h) : s = s' ∧ e = e' := by
  unfold ofParts at parts
  split at parts
  · cases parts
    exact ⟨rfl, rfl⟩
  · cases parts

theorem ofRatio_negative {num den s e : Nat} {h : Canonical s e} {sign : Bool}
    (found : ofRatio sign num den = .finite sign s e h) (negative : Bool) :
    ofRatio negative num den = .finite negative s e h := by
  obtain ⟨s', e', parts⟩ := exists_parts (num * unitsInOne) den
  unfold ofRatio at found ⊢
  rw [parts] at found ⊢
  obtain ⟨rfl, rfl⟩ := ofParts_eq_finite found
  exact ofParts_of_canonical h negative

theorem ofUnits_units {s e : Nat} (h : Canonical s e) :
    ofUnits negative (s * 2 ^ e) 1 = .finite negative s e h := by
  obtain ⟨below, full, -⟩ := h
  have exponent : (s * 2 ^ e / 1).log2 + 1 - 53 = e := by
    rw [Nat.div_one]
    by_cases zero : s = 0
    · subst zero
      have he : e = 0 := full.resolve_right (by decide)
      subst he
      rfl
    · rcases full with rfl | full
      · have := (Nat.log2_lt zero).2 below
        rw [Nat.pow_zero, Nat.mul_one]
        omega
      · have pos : s * 2 ^ e ≠ 0 := Nat.mul_ne_zero zero (Nat.ne_of_gt (Nat.pow_pos Nat.two_pos))
        have log : (s * 2 ^ e).log2 = 52 + e := by
          rw [Nat.log2_eq_iff pos, Nat.pow_add, show 52 + e + 1 = 53 + e by omega, Nat.pow_add]
          exact ⟨Nat.mul_le_mul_right _ full,
            Nat.mul_lt_mul_of_pos_right below (Nat.pow_pos Nat.two_pos)⟩
        omega
  have significand : divideToEven (s * 2 ^ e) (1 * Nat.pow 2 e) = s := by
    rw [Nat.one_mul]
    exact divideToEven_self (Nat.pow_pos Nat.two_pos) s
  unfold ofUnits
  simp only [exponent, significand]
  rw [if_neg (Nat.ne_of_lt below)]
  exact ofParts_of_canonical _ _

/-- A quotient as large as this power of ten is infinite, and one as small as its reciprocal is
zero. -/
def reach : Nat := 401

theorem two_pow_le_ten_pow {n k : Nat} (h : n ≤ 3 * k) : 2 ^ n ≤ 10 ^ k := by
  calc 2 ^ n ≤ 2 ^ (3 * k) := Nat.pow_le_pow_right Nat.two_pos h
    _ = (2 ^ 3) ^ k := Nat.pow_mul 2 3 k
    _ ≤ 10 ^ k := Nat.pow_le_pow_left (by decide) k

theorem unitsInOne_eq {k : Nat} (hk : k = 1074) : unitsInOne = 2 ^ k := by
  unfold unitsInOne
  rw [← hk, Nat.pow_eq]

/-- Quotients from here on are infinite. -/
theorem ofRatio_of_large {num den : Nat} (hd : 0 < den) (h : den * 10 ^ reach ≤ num) :
    ofRatio negative num den = .infinite negative := by
  obtain ⟨n, hn⟩ : ∃ n, n = 1024 := ⟨_, rfl⟩
  obtain ⟨k, hk⟩ : ∃ k, k = 1074 := ⟨_, rfl⟩
  have whole : 2 ^ (n + k) ≤ num * unitsInOne / den := by
    rw [Nat.le_div_iff_mul_le hd, unitsInOne_eq hk, Nat.pow_add, Nat.mul_right_comm,
      Nat.mul_comm _ den]
    refine Nat.mul_le_mul_right _ (Nat.le_trans (Nat.mul_le_mul_left den ?_) h)
    exact two_pow_le_ten_pow (by rw [reach]; omega)
  have log : n + k ≤ (num * unitsInOne / den).log2 :=
    (Nat.le_log2 (Nat.ne_of_gt (Nat.lt_of_lt_of_le (Nat.two_pow_pos _) whole))).2 whole
  have tooLarge : ∀ s e, maxExponent < e → ofParts negative s e = .infinite negative := by
    intro s e he
    exact dif_neg fun canonical => Nat.not_le_of_lt he canonical.2.2
  unfold ofRatio ofUnits
  dsimp only
  split
  · exact tooLarge _ _ (by unfold maxExponent; omega)
  · exact tooLarge _ _ (by unfold maxExponent; omega)

/-- Quotients up to here are zero. -/
theorem ofRatio_of_small {num den : Nat} (hd : 0 < den) (h : num * 10 ^ reach ≤ den) :
    ofRatio negative num den = zero negative := by
  have half : 2 * (num * unitsInOne) < den := by
    by_cases hn : num = 0
    · rw [hn, Nat.zero_mul]
      exact hd
    · obtain ⟨k, hk⟩ : ∃ k, k = 1074 := ⟨_, rfl⟩
      have quarter : num * (2 ^ 2 * unitsInOne) ≤ den := by
        refine Nat.le_trans (Nat.mul_le_mul_left num ?_) h
        rw [unitsInOne_eq hk, ← Nat.pow_add]
        exact two_pow_le_ten_pow (by rw [reach]; omega)
      have pos := Nat.mul_pos (Nat.pos_of_ne_zero hn) (Nat.two_pow_pos k)
      rw [← unitsInOne_eq hk] at pos
      rw [Nat.mul_left_comm] at quarter
      omega
  have whole : num * unitsInOne / den = 0 := Nat.div_eq_of_lt (by omega)
  have rest : num * unitsInOne % den = num * unitsInOne := Nat.mod_eq_of_lt (by omega)
  have significand : divideToEven (num * unitsInOne) (den * Nat.pow 2 0) = 0 := by
    unfold divideToEven
    rw [show den * Nat.pow 2 0 = den from Nat.mul_one den]
    simp only [whole, rest, if_pos half]
  have exponent : (num * unitsInOne / den).log2 + 1 - 53 = 0 := by
    rw [whole]
    rfl
  unfold ofRatio ofUnits
  simp only [exponent, significand]
  rfl

end Binary64

namespace Decimal

def numerator (d : Decimal) : Nat :=
  match d.exponent with
  | .ofNat e => d.coefficient * Nat.pow 10 e
  | .negSucc _ => d.coefficient

def denominator (d : Decimal) : Nat :=
  match d.exponent with
  | .ofNat _ => 1
  | .negSucc e => Nat.pow 10 (e + 1)

theorem denominator_pos (d : Decimal) : 0 < d.denominator := by
  unfold denominator
  split
  · exact Nat.one_pos
  · exact Nat.pow_pos (by decide)

theorem ten_pow_le {c : Nat} (hc : c ≠ 0) : 10 ^ (c.log2 / 4) ≤ c := by
  calc 10 ^ (c.log2 / 4) ≤ (2 ^ 4) ^ (c.log2 / 4) := Nat.pow_le_pow_left (by decide) _
    _ = 2 ^ (4 * (c.log2 / 4)) := (Nat.pow_mul 2 4 _).symm
    _ ≤ 2 ^ c.log2 := Nat.pow_le_pow_right Nat.two_pos (Nat.mul_div_le _ _)
    _ ≤ c := Nat.log2_self_le hc

theorem le_ten_pow (c : Nat) : c ≤ 10 ^ (c.log2 / 3 + 1) := by
  calc c ≤ 2 ^ (c.log2 + 1) := Nat.le_of_lt Nat.lt_log2_self
    _ ≤ 10 ^ (c.log2 / 3 + 1) := Binary64.two_pow_le_ten_pow (by omega)

theorem large_of_ten_pow {d : Decimal} {k : Nat} (low : 10 ^ k ≤ d.coefficient)
    (h : Binary64.reach ≤ d.exponent + k) :
    d.denominator * 10 ^ Binary64.reach ≤ d.numerator := by
  unfold denominator numerator
  cases he : d.exponent with
  | ofNat e =>
    rw [he, Int.ofNat_eq_natCast] at h
    calc 1 * 10 ^ Binary64.reach ≤ 10 ^ (k + e) := by
          rw [Nat.one_mul]
          exact Nat.pow_le_pow_right (by decide) (by omega)
      _ = 10 ^ k * 10 ^ e := Nat.pow_add ..
      _ ≤ d.coefficient * 10 ^ e := Nat.mul_le_mul_right _ low
  | negSucc e =>
    rw [he] at h
    calc 10 ^ (e + 1) * 10 ^ Binary64.reach = 10 ^ (e + 1 + Binary64.reach) := (Nat.pow_add ..).symm
      _ ≤ 10 ^ k := Nat.pow_le_pow_right (by decide) (by omega)
      _ ≤ d.coefficient := low

theorem small_of_ten_pow {d : Decimal} {k : Nat} (high : d.coefficient ≤ 10 ^ k)
    (h : d.exponent + k ≤ -Binary64.reach) :
    d.numerator * 10 ^ Binary64.reach ≤ d.denominator := by
  have reach : 0 < Binary64.reach := by decide
  unfold denominator numerator
  cases he : d.exponent with
  | ofNat e =>
    rw [he, Int.ofNat_eq_natCast] at h
    omega
  | negSucc e =>
    rw [he] at h
    calc d.coefficient * 10 ^ Binary64.reach
        ≤ 10 ^ k * 10 ^ Binary64.reach := Nat.mul_le_mul_right _ high
      _ = 10 ^ (k + Binary64.reach) := (Nat.pow_add ..).symm
      _ ≤ 10 ^ (e + 1) := Nat.pow_le_pow_right (by decide) (by omega)

end Decimal

namespace Binary64

/-- Every decimal is rounded as the quotient that it stands for. -/
theorem nearest_eq_ofRatio (d : Decimal) :
    nearest d = ofRatio d.negative d.numerator d.denominator := by
  unfold nearest
  dsimp only
  split
  · rename_i hc
    have hn : d.numerator = 0 := by
      unfold Decimal.numerator
      split
      · rw [hc, Nat.zero_mul]
      · exact hc
    apply Eq.symm
    apply ofRatio_of_small d.denominator_pos
    rw [hn, Nat.zero_mul]
    exact Nat.zero_le _
  · rename_i hc
    split
    · rename_i h
      refine (ofRatio_of_large d.denominator_pos ?_).symm
      exact Decimal.large_of_ten_pow (Decimal.ten_pow_le hc) (by rw [reach]; omega)
    · split
      · rename_i h
        refine (ofRatio_of_small d.denominator_pos ?_).symm
        exact Decimal.small_of_ten_pow (Decimal.le_ten_pow _) (by rw [reach]; omega)
      · unfold Decimal.numerator Decimal.denominator
        cases d.exponent <;> rfl

theorem nearest_mul_ten (c : Nat) (e : Int) :
    nearest ⟨negative, c * 10, e⟩ = nearest ⟨negative, c, e + 1⟩ := by
  rw [nearest_eq_ofRatio, nearest_eq_ofRatio]
  apply ofRatio_congr (Decimal.denominator_pos _) (Decimal.denominator_pos _)
  unfold Decimal.numerator Decimal.denominator
  dsimp only
  match e with
  | .ofNat e =>
    show c * 10 * 10 ^ e * 1 = c * 10 ^ (e + 1) * 1
    rw [Nat.pow_succ, Nat.mul_assoc c, Nat.mul_comm 10]
  | .negSucc 0 =>
    show c * 10 * 1 = c * 10 ^ 0 * 10 ^ (0 + 1)
    omega
  | .negSucc (e + 1) =>
    show c * 10 * 10 ^ (e + 1) = c * 10 ^ (e + 1 + 1)
    rw [Nat.pow_succ 10 (e + 1), Nat.mul_assoc, Nat.mul_comm 10]

theorem nearest_mul_ten_pow (c k : Nat) (e : Int) :
    nearest ⟨negative, c * 10 ^ k, e⟩ = nearest ⟨negative, c, e + k⟩ := by
  induction k generalizing e with
  | zero => rw [Nat.pow_zero, Nat.mul_one, Int.natCast_zero, Int.add_zero]
  | succ k ih =>
    rw [Nat.pow_succ, ← Nat.mul_assoc, nearest_mul_ten, ih, Int.add_assoc]
    congr 2
    omega

theorem nearest_of_large {d : Decimal} {k : Nat} (low : 10 ^ k ≤ d.coefficient)
    (h : reach ≤ d.exponent + k) : nearest d = .infinite d.negative := by
  rw [nearest_eq_ofRatio]
  exact ofRatio_of_large d.denominator_pos (Decimal.large_of_ten_pow low h)

theorem nearest_of_small {d : Decimal} {k : Nat} (high : d.coefficient ≤ 10 ^ k)
    (h : d.exponent + k ≤ -reach) : nearest d = zero d.negative := by
  rw [nearest_eq_ofRatio]
  exact ofRatio_of_small d.denominator_pos (Decimal.small_of_ten_pow high h)

/-- A decimal that is rounded to a number other than zero is within reach. -/
theorem reach_of_nearest {d : Decimal} {s e : Nat} {h : Canonical s e}
    (found : nearest d = .finite d.negative s e h) (hs : s ≠ 0) :
    (∀ k : Nat, 10 ^ k ≤ d.coefficient → d.exponent + k < reach) ∧
      ∀ k : Nat, d.coefficient ≤ 10 ^ k → -reach < d.exponent + k := by
  constructor
  · intro k low
    apply Int.lt_of_not_ge
    intro large
    rw [nearest_of_large low large] at found
    cases found
  · intro k high
    apply Int.lt_of_not_ge
    intro small
    rw [nearest_of_small high small] at found
    cases found
    exact hs rfl

end Binary64

end GrammarKit
