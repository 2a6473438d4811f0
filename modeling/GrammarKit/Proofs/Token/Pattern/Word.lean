import GrammarKit.Proofs.Literal.Decoding
import GrammarKit.Proofs.Regex.Ends
import GrammarKit.Proofs.Regex.Pattern
import GrammarKit.Proofs.Token.Lead

/-!
The patterns of marks, words, names and references. A name cannot be cut short where a name character
may not follow; blanks behind a reference can, and give back one of them in front of a colon.
-/

namespace GrammarKit

namespace Regex

variable {ignoreCase : Bool} {r : Regex} {f : List Char → List (List Char)}

theorem Takes.set_of_eq {negated : Bool} {items : List CharItem} {p : Char → Bool}
    (h : ∀ c, hasChar ignoreCase negated items c = p c) :
    Takes ignoreCase (.set negated items) (one p) := by
  have same : hasChar ignoreCase negated items = p := funext h
  rw [← same]
  exact .set negated items

def sequence (rs : List Regex) : Regex := rs.foldr .seq .empty

theorem threads_sequence_singleton (r : Regex) (t : Thread) :
    (sequence [r]).threads ignoreCase t = r.threads ignoreCase t := by
  simp only [sequence, List.foldr, threads]
  exact List.flatMap_singleton' _

theorem Takes.last (h : Takes ignoreCase r f) : Takes ignoreCase (sequence [r]) f :=
  fun t => (threads_sequence_singleton r t).trans (h t)

theorem Ends.last (h : Ends ignoreCase r f) : Ends ignoreCase (sequence [r]) f :=
  fun t => (congrArg _ (threads_sequence_singleton r t)).trans (h t)

theorem CharItem.has_range {first last c : Char} :
    (range first last).has c = true ↔ first.toNat ≤ c.toNat ∧ c.toNat ≤ last.toNat := by
  simp only [has, Bool.and_eq_true, decide_eq_true_eq]

theorem CharItem.has_single (c d : Char) : (range c c).has d = (d == c) := by
  rw [Bool.eq_iff_iff, has_range, beq_iff_eq, ← Char.toNat_inj]
  omega

theorem hasChar_eq_any (negated : Bool) (items : List CharItem) (c : Char) :
    hasChar false negated items c = (items.any (CharItem.has c) != negated) := by
  have same : CharItem.hasFolded false c = CharItem.has c := funext fun item => Bool.or_false _
  rw [hasChar, same]

theorem hasChar_single (negated : Bool) (c d : Char) :
    hasChar false negated [.range c c] d = ((d == c) != negated) := by
  rw [hasChar_eq_any, List.any_cons, List.any_nil, Bool.or_false, CharItem.has_single]

theorem takes_literal (c : Char) : Takes false (literal c) (one (· == c)) :=
  .set_of_eq fun d => (hasChar_single false c d).trans (Bool.bne_false _)

theorem takes_except (c : Char) : Takes false (.set true [.range c c]) (one (· != c)) :=
  .set_of_eq fun d => (hasChar_single true c d).trans (Bool.bne_true _)

def spelled (word : List Char) (r : Regex) : Regex := word.foldr (fun c r => .seq (literal c) r) r

theorem threads_spelled (word : List Char) (r : Regex) (t : Thread) :
    (spelled word r).threads false t =
      if word.isPrefixOf t.rest then r.threads false (t.moveTo (t.rest.drop word.length))
      else [] := by
  induction word generalizing t with
  | nil => rfl
  | cons c word ih =>
    have step : (spelled (c :: word) r).threads false t =
        (one (· == c) t.rest).flatMap fun cs => (spelled word r).threads false (t.moveTo cs) := by
      rw [← List.flatMap_map, ← takes_literal c t]
      rfl
    rw [step]
    cases t.rest with
    | nil => rfl
    | cons d cs =>
      by_cases hd : d = c
      · simp [one, hd, ih, Thread.moveTo]
      · simp [one, hd, Ne.symm hd]

theorem ends_spelled (h : Ends false r f) (word : List Char) :
    Ends false (spelled word r)
      fun cs => if word.isPrefixOf cs then f (cs.drop word.length) else [] := by
  intro t
  rw [threads_spelled]
  dsimp only
  split
  · exact h _
  · rfl

theorem takes_spelled (word : List Char) : Takes false (spelled word .empty)
    fun cs => if word.isPrefixOf cs then [cs.drop word.length] else [] := by
  intro t
  rw [threads_spelled]
  dsimp only
  split <;> rfl

def nameStart : Regex := .set false [.range 'a' 'z', .range 'A' 'Z', .range '_' '_']

def nameChar : Regex :=
  .set false [.range 'a' 'z', .range 'A' 'Z', .range '0' '9', .range '_' '_']

theorem takes_nameStart : Takes false nameStart (one isNameStart) := by
  refine .set_of_eq fun c => ?_
  rw [hasChar_eq_any, Bool.bne_false, Bool.eq_iff_iff, isNameStart_iff]
  simp only [List.any_cons, List.any_nil, Bool.or_false, Bool.or_eq_true, CharItem.has_range,
    Char.reduceToNat]
  omega

theorem takes_nameChar : Takes false nameChar (one isNameChar) := by
  refine .set_of_eq fun c => ?_
  rw [hasChar_eq_any, Bool.bne_false, Bool.eq_iff_iff, isNameChar_iff]
  simp only [List.any_cons, List.any_nil, Bool.or_false, Bool.or_eq_true, CharItem.has_range,
    Char.reduceToNat]
  omega

def nameEnds : List Char → List (List Char)
  | [] => []
  | c :: cs => if isNameStart c then backwards isNameChar cs else []

def name : Regex := sequence [nameStart, .repeated .zeroOrMore true nameChar]

theorem takes_name : Takes false name nameEnds := by
  intro t
  refine (takes_nameStart.seq takes_nameChar.run.last t).trans ?_
  congr 1
  cases t.rest with
  | nil => rfl
  | cons c cs =>
    dsimp only [one, nameEnds]
    split
    · rw [List.flatMap_singleton]
    · rfl

def notBefore (r : Regex) : Regex := .look true (sequence [r])

def unlessNext (p : Char → Bool) (cs : List Char) : List (List Char) :=
  if cs.head?.any p then [] else [cs]

theorem ends_notBefore {p : Char → Bool} (h : Takes false r (one p)) :
    Ends false (notBefore r) (unlessNext p) := by
  intro t
  refine (h.last.ends.look true t).trans ?_
  cases t.rest with
  | nil => rfl
  | cons c cs => cases hc : p c <;> simp [one, unlessNext, hc]

def wordEnds (word cs : List Char) : List (List Char) :=
  if word.isPrefixOf cs then unlessNext isNameChar (cs.drop word.length) else []

theorem head?_wordEnds (word cs : List Char) :
    (wordEnds word cs).head? = (Token.wordLength? word cs).map cs.drop := by
  unfold wordEnds Token.wordLength? unlessNext
  cases word.isPrefixOf cs with
  | false => rfl
  | true => cases (cs.drop word.length).head?.any isNameChar <;> rfl

def noneLiteral : Regex := spelled ['N', 'o', 'n', 'e'] (sequence [notBefore nameChar])

theorem ends_noneLiteral : Ends false noneLiteral (wordEnds ['N', 'o', 'n', 'e']) :=
  ends_spelled (ends_notBefore takes_nameChar).last _

def boolLiteral : Regex :=
  sequence [.group 1 (.alt (spelled ['T', 'r', 'u', 'e'] .empty)
    (spelled ['F', 'a', 'l', 's', 'e'] .empty)), notBefore nameChar]

theorem ends_boolLiteral : Ends false boolLiteral fun cs =>
    wordEnds ['T', 'r', 'u', 'e'] cs ++ wordEnds ['F', 'a', 'l', 's', 'e'] cs := by
  have words := (takes_spelled ['T', 'r', 'u', 'e']).alt (takes_spelled ['F', 'a', 'l', 's', 'e'])
  have ends := (words.ends.group 1).seq (ends_notBefore takes_nameChar).last
  intro t
  refine (ends t).trans ?_
  dsimp only [wordEnds]
  rw [List.flatMap_append]
  congr 1
  · split <;> simp
  · split <;> simp

theorem head?_nameEnds (cs : List Char) :
    (nameEnds cs).head? = (Token.nameLength? cs).map cs.drop := by
  cases cs with
  | nil => rfl
  | cons c cs =>
    dsimp only [nameEnds, Token.nameLength?]
    split
    · rw [head?_backwards, dropWhile_eq_drop]
      rfl
    · rfl

def reference : Regex :=
  sequence [.group 1 name, notBefore nameChar, .repeated .zeroOrMore true (.set false [.blank]),
    notBefore (literal ':')]

theorem takes_blank : Takes false (.set false [.blank]) (one isBlank) :=
  .set_of_eq fun c => by simp [hasChar, CharItem.hasFolded, CharItem.has]

def blanksEnds (cs : List Char) : List (List Char) :=
  (backwards isBlank cs).flatMap (unlessNext (· == ':'))

theorem ends_reference : Ends false reference fun cs =>
    ((nameEnds cs).flatMap (unlessNext isNameChar)).flatMap blanksEnds := by
  have blanks := takes_blank.run.ends.seq (ends_notBefore (takes_literal ':')).last
  have ends := (takes_name.ends.group 1).seq ((ends_notBefore takes_nameChar).seq blanks)
  intro t
  refine (ends t).trans ?_
  dsimp only
  rw [List.flatMap_assoc]
  rfl

/-- One blank is given back in front of a colon, if there is one. -/
theorem head?_blanksEnds (cs : List Char) :
    (blanksEnds cs).head? =
      let gap := (cs.takeWhile isBlank).length
      if (cs.drop gap).head? = some ':' then
        if gap = 0 then none else some (cs.drop (gap - 1))
      else some (cs.drop gap) := by
  induction cs with
  | nil => rfl
  | cons c cs ih =>
    unfold blanksEnds
    cases hc : isBlank c with
    | false =>
      rw [backwards_of_neg hc, List.takeWhile_cons_of_neg (by simp [hc]), List.flatMap_singleton]
      by_cases colon : c = ':' <;> simp [unlessNext, colon]
    | true =>
      have colon : c ≠ ':' := by
        rintro rfl
        cases hc
      have next : unlessNext (· == ':') (c :: cs) = [c :: cs] := by simp [unlessNext, colon]
      rw [backwards_of_pos hc, List.flatMap_append, List.flatMap_singleton, next, ← blanksEnds,
        List.head?_append, ih, List.takeWhile_cons_of_pos hc]
      simp only [List.length_cons, List.drop_succ_cons, Nat.add_sub_cancel, List.head?_cons]
      generalize (cs.takeWhile isBlank).length = gap
      by_cases hcolon : (cs.drop gap).head? = some ':'
      · rw [if_pos hcolon, if_pos hcolon]
        cases gap <;> rfl
      · rw [if_neg hcolon, if_neg hcolon]
        rfl

/-- A shorter name is followed by a name character. -/
theorem flatMap_nameEnds (cs : List Char) : (nameEnds cs).flatMap (unlessNext isNameChar) =
    ((Token.nameLength? cs).map cs.drop).toList := by
  cases cs with
  | nil => rfl
  | cons c cs =>
    dsimp only [nameEnds, Token.nameLength?]
    split
    · have cut (d : Char) (ds : List Char) (hd : isNameChar d) :
          unlessNext isNameChar (d :: ds) = [] := by simp [unlessNext, hd]
      have stop : (cs.dropWhile isNameChar).head?.any isNameChar = false := by
        have := List.head?_dropWhile_not isNameChar cs
        cases hd : (cs.dropWhile isNameChar).head? with
        | none => rfl
        | some d => simpa [hd] using this
      rw [flatMap_backwards cut, unlessNext, stop, dropWhile_eq_drop]
      rfl
    · rfl

theorem head?_referenceEnds (cs : List Char) :
    (((nameEnds cs).flatMap (unlessNext isNameChar)).flatMap blanksEnds).head? =
      (Token.referenceLength? cs).map cs.drop := by
  rw [flatMap_nameEnds, Token.referenceLength?, Token.blankedLength?]
  cases Token.nameLength? cs with
  | none => rfl
  | some n =>
    simp only [Option.map_some, Option.toList_some, List.flatMap_singleton, head?_blanksEnds]
    split
    · split
      · rfl
      · rw [List.drop_drop]
        rfl
    · rw [List.drop_drop]
      rfl

end Regex

end GrammarKit
