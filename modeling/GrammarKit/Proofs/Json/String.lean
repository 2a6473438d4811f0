import GrammarKit.Json.Printer
import GrammarKit.Json.Reader

/-!
Strings in JSON text. Every character is written in a form that reads back as it, so a written string
is read back whatever characters it has.
-/

namespace GrammarKit

namespace Json

theorem hexDigit?_lowerHex : ∀ d < 16, hexDigit? (lowerHex d) = some d := by decide

theorem utf8Size_lowerHex : ∀ d < 16, (lowerHex d).utf8Size = 1 := by decide

theorem fourDigits_low {n : Nat} (low : n < 0x20) (cs : List Char) :
    fourDigits ('0' :: '0' :: lowerHex (n / 16) :: lowerHex (n % 16) :: cs) = .ok (n, cs) := by
  have high := hexDigit?_lowerHex (n / 16) (by omega)
  have rest := hexDigit?_lowerHex (n % 16) (by omega)
  have bytes : byteLength ['0', '0', lowerHex (n / 16), lowerHex (n % 16)] = 4 := by
    simp only [byteLength, utf8Size_lowerHex (n / 16) (by omega),
      utf8Size_lowerHex (n % 16) (by omega)]
    rfl
  have zero : hexDigit? '0' = some 0 := by decide
  have value : n / 16 * 16 + n % 16 = n := by omega
  simp [fourDigits, endsWithinFour, bytes, zero, high, rest, value]

theorem numberedEscape_low {c : Char} (low : c.toNat < 0x20) (cs : List Char) :
    numberedEscape .full
      ('0' :: '0' :: lowerHex (c.toNat / 16) :: lowerHex (c.toNat % 16) :: cs) = .ok (c, cs) := by
  have lead : isLeadSurrogate c.toNat = false := by
    simp only [isLeadSurrogate, Bool.and_eq_false_iff, decide_eq_false_iff_not]
    omega
  have trail : isTrailSurrogate c.toNat = false := by
    simp only [isTrailSurrogate, Bool.and_eq_false_iff, decide_eq_false_iff_not]
    omega
  simp [numberedEscape, fourDigits_low low, lead, trail, Char.ofNat_toNat]

theorem stringFrom_escapeChar (steps : Nat) (c : Char) (cs read : List Char) :
    stringFrom .full (steps + 1) (escapeChar c ++ cs) read = stringFrom .full steps cs (c :: read) := by
  unfold escapeChar
  split
  case h_8 c quote backslash _ _ _ _ _ =>
    split
    next low =>
      rw [List.cons_append, stringFrom, if_neg (by decide), if_pos rfl]
      simp only [List.cons_append, List.nil_append, escapedChar, numberedEscape_low low]
    next high =>
      rw [List.singleton_append, stringFrom, if_neg quote, if_neg backslash, if_neg high]
  all_goals rfl

theorem stringFrom_chars (l rest : List Char) {steps : Nat} (enough : l.length < steps)
    (read : List Char) : stringFrom .full steps (l.flatMap escapeChar ++ '"' :: rest) read =
      .ok (String.ofList (read.reverse ++ l), rest) := by
  induction l generalizing steps read with
  | nil =>
    obtain ⟨steps, rfl⟩ := Nat.exists_eq_add_one.2 enough
    rw [List.flatMap_nil, List.nil_append, stringFrom, if_pos rfl, List.append_nil]
  | cons c l ih =>
    obtain ⟨steps, rfl⟩ := Nat.exists_eq_add_one.2 (Nat.zero_lt_of_lt enough)
    rw [List.flatMap_cons, List.append_assoc, stringFrom_escapeChar,
      ih (Nat.lt_of_succ_lt_succ enough), List.reverse_cons, List.append_assoc,
      List.singleton_append]

theorem length_le_escaped (l : List Char) : l.length ≤ (l.flatMap escapeChar).length := by
  induction l with
  | nil => exact Nat.le_refl 0
  | cons c l ih =>
    have pos : 1 ≤ (escapeChar c).length := by
      unfold escapeChar
      split <;> try exact Nat.le_add_left 1 _
      split <;> exact Nat.le_add_left 1 _
    rw [List.flatMap_cons, List.length_append, List.length_cons]
    omega

/-- A written string, whose first quotation mark has been read. -/
theorem stringBody_chars (s : String) (rest : List Char) :
    stringBody .full (s.toList.flatMap escapeChar ++ '"' :: rest) = .ok (s, rest) := by
  have enough := length_le_escaped s.toList
  rw [stringBody, stringFrom_chars]
  · simp
  · rw [List.length_append]
    omega

end Json

end GrammarKit
