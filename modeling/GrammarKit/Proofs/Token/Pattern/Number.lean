import GrammarKit.Proofs.Token.Pattern.Word

/-!
The pattern of numbers, read without regard to case. Once its lookahead has found a digit in front of
the point or right behind it, nothing that follows can fail, so every part takes as much as it can.
-/

namespace GrammarKit

theorem toNat_toLower (c : Char) : c.toLower.toNat =
    if 0x41 ≤ c.toNat ∧ c.toNat ≤ 0x5A then c.toNat + 0x20 else c.toNat := by
  unfold Char.toLower
  split
  · rename_i h
    have lower : 0x41 ≤ c.toNat ∧ c.toNat ≤ 0x5A := by
      simpa [UInt32.le_iff_toNat_le] using h
    rw [if_pos lower]
    show (c.val + 32).toNat = c.val.toNat + 32
    rw [UInt32.toNat_add, Nat.mod_eq_of_lt]
    · rfl
    · have : c.val.toNat ≤ 0x5A := lower.2
      show c.val.toNat + 32 < 2 ^ 32
      omega
  · rename_i h
    rw [if_neg]
    simpa [UInt32.le_iff_toNat_le] using h

theorem toNat_toUpper (c : Char) : c.toUpper.toNat =
    if 0x61 ≤ c.toNat ∧ c.toNat ≤ 0x7A then c.toNat - 0x20 else c.toNat := by
  unfold Char.toUpper
  split
  · rename_i h
    have upper : 0x61 ≤ c.toNat ∧ c.toNat ≤ 0x7A := by
      simpa [UInt32.le_iff_toNat_le] using h
    rw [if_pos upper]
    show (c.val + 4294967264).toNat = c.val.toNat - 32
    have : 0x61 ≤ c.val.toNat ∧ c.val.toNat ≤ 0x7A := upper
    rw [UInt32.toNat_add]
    show (c.val.toNat + 4294967264) % 2 ^ 32 = _
    omega
  · rename_i h
    rw [if_neg]
    simpa [UInt32.le_iff_toNat_le] using h

namespace Regex

def isSign (c : Char) : Bool := c == '+' || c == '-'

def isExponentMark (c : Char) : Bool := c == 'e' || c == 'E'

def sign : Regex := .set false [.range '-' '-', .range '+' '+']

def digit : Regex := .set false [.digit]

/-- Without letters, an item is the same without regard to case. -/
theorem CharItem.hasFolded_eq_has {item : CharItem}
    (h : ∀ c, item.has c = true → c.toNat < 0x41) (ignoreCase : Bool) (c : Char) :
    item.hasFolded ignoreCase c = item.has c := by
  have lower (found : item.has c.toLower = true) : c.toLower = c := by
    have low := h _ found
    rw [← Char.toNat_inj, toNat_toLower, if_neg]
    intro letter
    rw [toNat_toLower, if_pos letter] at low
    omega
  have upper (found : item.has c.toUpper = true) : c.toUpper = c := by
    have low := h _ found
    rw [← Char.toNat_inj, toNat_toUpper, if_neg]
    intro letter
    rw [toNat_toUpper, if_pos letter] at low
    omega
  rw [Bool.eq_iff_iff, hasFolded, Bool.or_eq_true, Bool.and_eq_true, Bool.or_eq_true]
  constructor
  · rintro (found | ⟨-, found | found⟩)
    · exact found
    · rwa [lower found] at found
    · rwa [upper found] at found
  · exact .inl

theorem hasChar_of_unlettered {items : List CharItem}
    (h : ∀ item ∈ items, ∀ c, item.has c = true → c.toNat < 0x41) (ignoreCase negated : Bool)
    (c : Char) : hasChar ignoreCase negated items c = hasChar false negated items c := by
  have same : items.any (CharItem.hasFolded ignoreCase c) = items.any (CharItem.has c) := by
    rw [Bool.eq_iff_iff, List.any_eq_true, List.any_eq_true]
    refine exists_congr fun item => and_congr_right fun mem => ?_
    rw [CharItem.hasFolded_eq_has (h item mem)]
  rw [hasChar_eq_any, hasChar, same]

theorem CharItem.lt_of_has_single {c d : Char} (h : c.toNat < 0x41)
    (found : (range c c).has d = true) : d.toNat < 0x41 :=
  Nat.lt_of_le_of_lt (has_range.1 found).2 h

theorem takes_sign : Takes true sign (one isSign) := by
  refine .set_of_eq fun c => ?_
  rw [hasChar_of_unlettered, hasChar_eq_any]
  · simp [CharItem.has_single, isSign, Bool.or_comm]
  · refine List.forall_mem_cons.2 ⟨fun _ => ?_, List.forall_mem_singleton.2 fun _ => ?_⟩
    · exact CharItem.lt_of_has_single (by decide)
    · exact CharItem.lt_of_has_single (by decide)

theorem takes_point : Takes true (literal '.') (one (· == '.')) := by
  refine .set_of_eq fun c => ?_
  rw [hasChar_of_unlettered, hasChar_single, Bool.bne_false]
  exact List.forall_mem_singleton.2 fun _ => CharItem.lt_of_has_single (by decide)

theorem takes_digit : Takes true digit (one Char.isDigit) := by
  refine .set_of_eq fun c => ?_
  rw [hasChar_of_unlettered, hasChar_eq_any]
  · simp [CharItem.has]
  · refine List.forall_mem_singleton.2 fun c found => ?_
    have := (isDigit_iff c).1 found
    omega

/-- The mark of an exponent is the one letter in a number. -/
theorem takes_exponentMark : Takes true (literal 'e') (one isExponentMark) := by
  refine .set_of_eq fun c => ?_
  rw [Bool.eq_iff_iff]
  simp only [isExponentMark, hasChar, CharItem.hasFolded, List.any_cons, List.any_nil,
    CharItem.has_single, Bool.true_and, Bool.or_false, Bool.bne_false, Bool.or_eq_true,
    beq_iff_eq, ← Char.toNat_inj, toNat_toLower, toNat_toUpper, Char.reduceToNat]
  split <;> split <;> omega

def number : Regex :=
  sequence [.repeated .zeroOrOne true (.group 1 (sequence [sign])),
    .look false (.alt (sequence [digit]) (sequence [literal '.', digit])),
    .group 2 (sequence [.repeated .zeroOrMore true digit]),
    .repeated .zeroOrOne true (.group 3 (sequence [literal '.', .repeated .zeroOrMore true digit])),
    .repeated .zeroOrOne true (.group 4
      (sequence [literal 'e', .repeated .zeroOrOne true sign, .repeated .oneOrMore true digit]))]

def digitsEnds (cs : List Char) : List (List Char) :=
  (one Char.isDigit cs).flatMap (backwards Char.isDigit)

def fractionEnds (cs : List Char) : List (List Char) :=
  prefer true ((one (· == '.') cs).flatMap (backwards Char.isDigit)) cs

def exponentEnds (cs : List Char) : List (List Char) :=
  prefer true ((one isExponentMark cs).flatMap fun cs =>
    (prefer true (one isSign cs) cs).flatMap digitsEnds) cs

def unsignedEnds (cs : List Char) : List (List Char) :=
  let digits := one Char.isDigit cs ++ (one (· == '.') cs).flatMap (one Char.isDigit)
  (if digits.isEmpty = false then [cs] else []).flatMap fun cs =>
    (backwards Char.isDigit cs).flatMap fun cs => (fractionEnds cs).flatMap exponentEnds

theorem ends_number : Ends true number fun cs =>
    (prefer true (one isSign cs) cs).flatMap unsignedEnds := by
  have whole := takes_digit.run.last.ends.group 2
  have fraction := ((takes_point.seq takes_digit.run.last).ends.group 3).zeroOrOne true
  have exponent := ((takes_exponentMark.ends.seq ((takes_sign.ends.zeroOrOne true).seq
    takes_digit.someRun.last.ends)).group 4).zeroOrOne true
  have ahead := (takes_digit.last.ends.alt (takes_point.seq takes_digit.last).ends).look false
  exact ((takes_sign.last.ends.group 1).zeroOrOne true).seq
    (ahead.seq (whole.seq (fraction.seq exponent.last)))

theorem head?_flatMap_of_head? {α β : Type} {l : List α} {g : α → List β} {x : α} {y : β}
    (hx : l.head? = some x) (hy : (g x).head? = some y) : (l.flatMap g).head? = some y := by
  cases l with
  | nil => cases hx
  | cons a l =>
    cases hx
    rw [List.flatMap_cons, List.head?_append, hy]
    rfl

theorem dropWhile_isDigit (cs : List Char) :
    cs.dropWhile Char.isDigit = cs.drop (Token.digitsLength cs) := dropWhile_eq_drop _ _

theorem head?_digitsEnds (cs : List Char) : (digitsEnds cs).head? =
    if Token.digitsLength cs = 0 then none else some (cs.drop (Token.digitsLength cs)) := by
  cases cs with
  | nil => rfl
  | cons c cs =>
    cases hc : c.isDigit with
    | false => simp [digitsEnds, one, hc, Token.digitsLength]
    | true =>
      have run : Token.digitsLength (c :: cs) = Token.digitsLength cs + 1 := by
        simp [Token.digitsLength, hc]
      rw [run, if_neg (Nat.succ_ne_zero _), List.drop_succ_cons, ← dropWhile_isDigit,
        ← head?_backwards]
      simp [digitsEnds, one, hc]

theorem head?_fractionEnds (cs : List Char) :
    (fractionEnds cs).head? = some (cs.drop (Token.fractionLength cs)) := by
  cases cs with
  | nil => rfl
  | cons c cs =>
    by_cases hc : c = '.'
    · rw [hc, Token.fractionLength, if_pos rfl, List.drop_succ_cons, ← dropWhile_isDigit]
      simp [fractionEnds, prefer, one, head?_backwards]
    · simp [fractionEnds, prefer, one, hc, Token.fractionLength]

theorem isSign_iff (c : Char) : isSign c = true ↔ c = '+' ∨ c = '-' := by simp [isSign]

/-- What fails in front of a sign begins behind it. -/
theorem flatMap_sign {g : List Char → List (List Char)}
    (h : ∀ c cs, isSign c → g (c :: cs) = []) (cs : List Char) :
    (prefer true (one isSign cs) cs).flatMap g = g (cs.drop (Token.signLength cs)) := by
  cases cs with
  | nil => simp [prefer, one, Token.signLength]
  | cons c cs =>
    cases hc : isSign c with
    | false =>
      have none : ¬(c = '+' ∨ c = '-') := by simp [← isSign_iff, hc]
      simp [prefer, one, hc, Token.signLength, none]
    | true =>
      simp [prefer, one, hc, Token.signLength, (isSign_iff c).1 hc, h c cs hc]

theorem isDigit_of_isSign {c : Char} (h : isSign c) : c.isDigit = false := by
  rcases (isSign_iff c).1 h with rfl | rfl <;> rfl

theorem head?_exponentEnds (cs : List Char) :
    (exponentEnds cs).head? = some (cs.drop (Token.exponentLength cs)) := by
  cases cs with
  | nil => rfl
  | cons c cs =>
    by_cases hc : c = 'e' ∨ c = 'E'
    · have mark : one isExponentMark (c :: cs) = [cs] := if_pos (by simpa [isExponentMark] using hc)
      have cut (c : Char) (cs : List Char) (h : isSign c) : digitsEnds (c :: cs) = [] := by
        simp [digitsEnds, one, isDigit_of_isSign h]
      rw [exponentEnds, mark, List.flatMap_singleton, flatMap_sign cut, prefer, if_pos rfl,
        List.head?_append, head?_digitsEnds, Token.exponentLength, if_pos hc]
      dsimp only
      split
      · rfl
      · rw [List.drop_drop, Option.some_or, Nat.add_assoc, Nat.add_comm 1, List.drop_succ_cons]
    · have mark : isExponentMark c = false := by simpa [isExponentMark] using hc
      simp [exponentEnds, one, mark, prefer, Token.exponentLength, hc]

theorem one_isDigit_eq_nil (cs : List Char) :
    one Char.isDigit cs = [] ↔ Token.digitsLength cs = 0 := by
  cases cs with
  | nil => simp [one, Token.digitsLength]
  | cons c cs => cases hc : c.isDigit <;> simp [one, Token.digitsLength, hc]

theorem isEmpty_ahead (cs : List Char) :
    (one Char.isDigit cs ++ (one (· == '.') cs).flatMap (one Char.isDigit)).isEmpty = true ↔
      Token.digitsLength cs = 0 ∧ Token.fractionLength (cs.drop (Token.digitsLength cs)) ≤ 1 := by
  rw [List.isEmpty_iff, List.append_eq_nil_iff, one_isDigit_eq_nil]
  refine and_congr_right fun whole => ?_
  rw [whole, List.drop_zero]
  cases cs with
  | nil => simp [one, Token.fractionLength]
  | cons c cs =>
    by_cases hc : c = '.'
    · have point : one (· == '.') (c :: cs) = [cs] := if_pos (by simpa using hc)
      rw [point, List.flatMap_singleton, one_isDigit_eq_nil, Token.fractionLength, if_pos hc]
      omega
    · simp [one, hc, Token.fractionLength]

theorem unsignedEnds_of_isSign {c : Char} (h : isSign c) (cs : List Char) :
    unsignedEnds (c :: cs) = [] := by
  have point : c ≠ '.' := by
    rintro rfl
    cases h
  simp [unsignedEnds, one, isDigit_of_isSign h, point]

theorem head?_unsignedEnds (cs : List Char) : (unsignedEnds cs).head? =
    let whole := Token.digitsLength cs
    let fraction := Token.fractionLength (cs.drop whole)
    if whole = 0 ∧ fraction ≤ 1 then none
    else some (cs.drop (whole + fraction +
      Token.exponentLength (cs.drop (whole + fraction)))) := by
  dsimp only [unsignedEnds]
  by_cases hahead : Token.digitsLength cs = 0 ∧
      Token.fractionLength (cs.drop (Token.digitsLength cs)) ≤ 1
  · rw [if_pos hahead, (isEmpty_ahead cs).2 hahead]
    rfl
  · rw [if_neg hahead, Bool.eq_false_iff.2 fun h => hahead ((isEmpty_ahead cs).1 h), if_pos rfl,
      List.flatMap_singleton]
    refine head?_flatMap_of_head? (head?_backwards _ cs) ?_
    refine head?_flatMap_of_head? (head?_fractionEnds _) ?_
    rw [head?_exponentEnds, dropWhile_isDigit]
    simp only [List.drop_drop, Nat.add_assoc]

theorem head?_numberEnds (cs : List Char) :
    ((prefer true (one isSign cs) cs).flatMap unsignedEnds).head? =
      (Token.numberLength? cs).map cs.drop := by
  rw [flatMap_sign fun _ cs h => unsignedEnds_of_isSign h cs, head?_unsignedEnds,
    Token.numberLength?]
  dsimp only
  simp only [List.drop_drop, Nat.add_assoc]
  split <;> rfl

end Regex

end GrammarKit
