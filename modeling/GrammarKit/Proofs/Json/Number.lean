import GrammarKit.Json.Printer
import GrammarKit.Json.Reader
import GrammarKit.Proofs.Number.Numeral

/-!
Numbers in JSON text. A number ends where no further digit, point or exponent follows, so what is read
does not depend on a comma or a line feed behind it. Whole numbers of 64 bits are read back as they
were; of floating point numbers the reader says itself which ones are.
-/

namespace GrammarKit

namespace Json

def Stops (rest : List Char) : Prop := ∀ c, rest.head? = some c → c = ',' ∨ c = '\n'

def ReadsBack (x : Binary64) : Prop := number .full (floatChars x) = .ok (.float x, [])

instance (x : Binary64) : Decidable (ReadsBack x) :=
  match h : number .full (floatChars x) with
  | .ok (.float y, []) => decidable_of_iff (y = x) (by simp [ReadsBack, h])
  | .error _ | .ok (.null, _) | .ok (.bool _, _) | .ok (.int _, _) | .ok (.string _, _)
  | .ok (.array _, _) | .ok (.object _, _) | .ok (.float _, _ :: _) =>
    isFalse (by simp [ReadsBack, h])

theorem bind_eq_ok {α β : Type} {x : Except Problem α} {f : α → Except Problem β} {b : β} :
    x >>= f = .ok b ↔ ∃ a, x = .ok a ∧ f a = .ok b := by
  cases x with
  | error p => exact ⟨nofun, nofun⟩
  | ok a => exact ⟨fun h => ⟨a, rfl, h⟩, fun ⟨_, h, h'⟩ => by cases h; exact h'⟩

section

variable {cs left rest : List Char}

theorem Stops.not_digit (stops : Stops rest) : rest.head?.any Char.isDigit = false := by
  cases rest with
  | nil => rfl
  | cons c rest => rcases stops c rfl with rfl | rfl <;> rfl

theorem Stops.head_ne (stops : Stops rest) {c : Char} (hc : c ≠ ',' ∧ c ≠ '\n')
    {more : List Char} : rest ≠ c :: more := by
  rintro rfl
  exact (stops c rfl).elim hc.1 hc.2

theorem someDigits_append (stops : Stops rest) {digits : List Char}
    (h : someDigits .full cs = .ok (digits, left)) :
    someDigits .full (cs ++ rest) = .ok (digits, left ++ rest) := by
  have run : (cs ++ rest).takeWhile Char.isDigit = cs.takeWhile Char.isDigit := by
    rw [List.takeWhile_append]
    split
    next whole =>
      have none : rest.takeWhile Char.isDigit = [] := by
        cases rest with
        | nil => rfl
        | cons c rest => rw [List.takeWhile_cons_of_neg (by simpa using stops.not_digit)]
      rw [none, List.append_nil]
      exact ((List.takeWhile_prefix _).eq_of_length whole).symm
    next => rfl
  unfold someDigits at h ⊢
  dsimp only at h ⊢
  rw [run]
  split at h
  · cases h
  next some =>
    cases h
    rw [if_neg some, List.drop_append_of_le_length (List.takeWhile_sublist _).length_le]

theorem wholeDigits_append (stops : Stops rest) {digits : List Char}
    (h : wholeDigits .full cs = .ok (digits, left)) :
    wholeDigits .full (cs ++ rest) = .ok (digits, left ++ rest) := by
  unfold wholeDigits at h ⊢
  cases hd : someDigits .full cs with
  | error p =>
    rw [hd] at h
    cases h
  | ok read =>
    obtain ⟨digits', left'⟩ := read
    rw [hd] at h
    rw [someDigits_append stops hd]
    dsimp only at h ⊢
    split at h
    · cases h
    next unpadded =>
      cases h
      rw [if_neg unpadded]

theorem fractionDigits_append (stops : Stops rest) {fraction : Option (List Char)}
    (h : fractionDigits .full cs = .ok (fraction, left)) :
    fractionDigits .full (cs ++ rest) = .ok (fraction, left ++ rest) := by
  by_cases point : ∃ more, cs = '.' :: more
  · obtain ⟨more, rfl⟩ := point
    rw [List.cons_append]
    rw [fractionDigits] at h ⊢
    cases hd : someDigits .full more with
    | error p =>
      rw [hd] at h
      cases h
    | ok read =>
      rw [hd] at h
      cases h
      rw [someDigits_append stops hd]
      rfl
  · have whole : ∀ {cs}, (∀ more, cs ≠ '.' :: more) → fractionDigits .full cs = .ok (none, cs) :=
      fun no => fractionDigits.eq_2 _ _ fun more hmore => no more hmore
    rw [whole fun more hmore => point ⟨more, hmore⟩] at h
    cases h
    refine whole fun more hmore => ?_
    cases cs with
    | nil => exact stops.head_ne (by decide) hmore
    | cons c cs =>
      cases hmore
      exact point ⟨_, rfl⟩

theorem exponentPart_of_mark {c : Char} (mark : c = 'e' ∨ c = 'E') (cs : List Char) :
    exponentPart .full (c :: cs) =
      (someDigits .full (splitSign cs).2).map fun (digits, rest) =>
        (some (if (splitSign cs).1 then -(digitsValue digits : Int) else digitsValue digits), rest) :=
  if_pos mark

theorem exponentPart_of_no_mark {c : Char} (no : ¬(c = 'e' ∨ c = 'E')) (cs : List Char) :
    exponentPart .full (c :: cs) = .ok (none, c :: cs) := if_neg no

theorem exponentPart_append (stops : Stops rest) {exponent : Option Int}
    (h : exponentPart .full cs = .ok (exponent, left)) :
    exponentPart .full (cs ++ rest) = .ok (exponent, left ++ rest) := by
  cases cs with
  | nil =>
    cases h
    cases rest with
    | nil => rfl
    | cons c rest =>
      refine exponentPart_of_no_mark ?_ rest
      rcases stops c rfl with rfl | rfl <;> decide
  | cons c cs =>
    by_cases mark : c = 'e' ∨ c = 'E'
    · rw [List.cons_append, exponentPart_of_mark mark] at *
      cases hd : someDigits .full (splitSign cs).2 with
      | error p =>
        rw [hd] at h
        cases h
      | ok read =>
        rw [hd] at h
        cases h
        have unmoved : splitSign (cs ++ rest) = ((splitSign cs).1, (splitSign cs).2 ++ rest) := by
          cases cs with
          | nil => cases hd
          | cons c cs =>
            rw [List.cons_append]
            unfold splitSign
            split <;> simp_all
        rw [unmoved, someDigits_append stops hd]
        rfl
    · rw [exponentPart_of_no_mark mark] at h
      cases h
      exact exponentPart_of_no_mark mark (cs ++ rest)

def ofNumberParts (negative : Bool) (whole : List Char) (fraction : Option (List Char))
    (exponent : Option Int) : Except Problem Json :=
  let n : Int := if negative then -digitsValue whole else digitsValue whole
  if fraction.isNone ∧ exponent.isNone ∧ isWord n ∧ ¬(negative ∧ n = 0) then .ok (int n)
  else finiteNumber .full (Binary64.scaled negative whole (fraction.getD []) (exponent.getD 0))

theorem number_eq (cs : List Char) : number .full cs = (do
    let negative := cs.head? = some '-'
    let (whole, cs) ← wholeDigits .full (if negative then cs.drop 1 else cs)
    let (fraction, cs) ← fractionDigits .full cs
    let (exponent, cs) ← exponentPart .full cs
    (ofNumberParts negative whole fraction exponent).map fun j => (j, cs)) := by
  simp only [number, ofNumberParts]
  congr
  funext whole
  congr
  funext fraction
  congr
  funext exponent
  by_cases sign : cs.head? = some '-'
  · simp only [sign, if_true, decide_true]
    split
    · rfl
    · cases finiteNumber .full _ <;> rfl
  · simp only [sign, if_false, decide_false, Bool.false_eq_true]
    split
    · rfl
    · cases finiteNumber .full _ <;> rfl

/-- A whole text that is a number is that number in front of what stops it. -/
theorem number_append (stops : Stops rest) {j : Json} (h : number .full cs = .ok (j, [])) :
    number .full (cs ++ rest) = .ok (j, rest) := by
  have sign : (cs ++ rest).head? = cs.head? := by
    cases cs with
    | nil => cases h
    | cons c cs => rfl
  have behind : (if cs.head? = some '-' then (cs ++ rest).drop 1 else cs ++ rest) =
      (if cs.head? = some '-' then cs.drop 1 else cs) ++ rest := by
    cases cs with
    | nil => cases h
    | cons c cs => split <;> rfl
  simp only [number_eq, bind_eq_ok, sign, behind] at h ⊢
  obtain ⟨⟨whole, left⟩, hwhole, ⟨fraction, left'⟩, hfraction, ⟨exponent, left''⟩, hexponent, h⟩ := h
  refine ⟨_, wholeDigits_append stops hwhole, _, fractionDigits_append stops hfraction, _,
    exponentPart_append stops hexponent, ?_⟩
  cases hj : ofNumberParts (cs.head? = some '-') whole fraction exponent with
  | error p =>
    rw [hj] at h
    cases h
  | ok j' =>
    rw [hj] at h
    cases h
    rfl

end

theorem head?_toDigits_ne_zero {n : Nat} (hn : n ≠ 0) : (Nat.toDigits 10 n).head? ≠ some '0' := by
  induction n using Nat.strongRecOn with
  | ind n ih =>
    by_cases small : n < 10
    · have digit : ∀ d < 10, d ≠ 0 → Nat.digitChar d ≠ '0' := by decide
      rw [Nat.toDigits_of_lt_base small, List.head?_cons, ne_eq, Option.some.injEq]
      exact digit n small hn
    · have front := ih (n / 10) (by omega) (by omega)
      rw [Nat.toDigits_of_base_le (by decide) (Nat.le_of_not_lt small), List.head?_append]
      cases h : Nat.toDigits 10 (n / 10) with
      | nil => exact absurd h Nat.toDigits_ne_nil
      | cons c digits => rwa [h] at front

/-- The digits of a number are read to their end, and they do not begin with a zero to spare. -/
theorem wholeDigits_toDigits (n : Nat) :
    wholeDigits .full (Nat.toDigits 10 n) = .ok (Nat.toDigits 10 n, []) := by
  have run : (Nat.toDigits 10 n).takeWhile Char.isDigit = Nat.toDigits 10 n := by
    have := takeWhile_run (isDigit_toDigits n) (show ([] : List Char).head?.any _ = false from rfl)
    rwa [List.append_nil] at this
  have digits : someDigits .full (Nat.toDigits 10 n) = .ok (Nat.toDigits 10 n, []) := by
    unfold someDigits
    dsimp only
    rw [run, List.drop_length, List.isEmpty_eq_false_iff.2 Nat.toDigits_ne_nil]
    rfl
  have unpadded : ¬((Nat.toDigits 10 n).head? = some '0' ∧ 1 < (Nat.toDigits 10 n).length) := by
    rintro ⟨zero, long⟩
    by_cases hn : n = 0
    · subst hn
      exact absurd long (by decide)
    · exact head?_toDigits_ne_zero hn zero
  unfold wholeDigits
  rw [digits]
  exact if_neg unpadded

theorem number_of_whole {cs digits : List Char} {j : Json}
    (h : wholeDigits .full (if cs.head? = some '-' then cs.drop 1 else cs) = .ok (digits, []))
    (value : ofNumberParts (cs.head? = some '-') digits none none = .ok j) :
    number .full cs = .ok (j, []) := by
  simp only [number_eq, bind_eq_ok]
  exact ⟨_, h, _, rfl, _, rfl, by rw [value]; rfl⟩

theorem number_integerChars {n : Int} (word : isWord n = true) :
    number .full (FloatLayout.integerChars n) = .ok (.int n, []) := by
  have digits := wholeDigits_toDigits n.natAbs
  have value := digitsValue_toDigits n.natAbs
  unfold FloatLayout.integerChars
  by_cases negative : n < 0
  · have same : -(n.natAbs : Int) = n := by omega
    rw [if_pos negative]
    refine @number_of_whole _ (Nat.toDigits 10 n.natAbs) _ ?_ ?_
    · rwa [List.head?_cons, if_pos rfl]
    · simp only [ofNumberParts, value, same, List.head?_cons, decide_true, if_true]
      exact if_pos ⟨rfl, rfl, word, by omega⟩
  · have same : (n.natAbs : Int) = n := by omega
    have unsigned : (Nat.toDigits 10 n.natAbs).head? ≠ some '-' := by
      intro sign
      have digit := Numeral.head?_toDigits n.natAbs
      rw [sign] at digit
      exact absurd digit (by decide)
    rw [if_neg negative]
    refine @number_of_whole _ (Nat.toDigits 10 n.natAbs) _ ?_ ?_
    · rwa [if_neg unsigned]
    · simp only [ofNumberParts, value, same, unsigned, decide_false, Bool.false_eq_true, if_false]
      exact if_pos ⟨rfl, rfl, word, by simp⟩

end Json

end GrammarKit
