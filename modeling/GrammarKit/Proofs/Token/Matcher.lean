import GrammarKit.Proofs.Token.Pattern

/-!
Tokens and layout are matched as the engine matches the regular expressions that stand for them. A
word ends where its last character has a boundary behind it, which is where no name character
follows. In a number nothing fails behind the digits, and a run of blanks and comments goes on for as
long as there is one.
-/

namespace GrammarKit

namespace Regex

variable {word cs : List Char}

def sourceLength? (source : String) (cs : List Char) : Option Nat :=
  (ofSource? source).bind fun r => r.2.matchLength? r.1 cs

section Words

/-- Behind a name character, a boundary is where no other follows. -/
theorem rest_boundary (start : word.isPrefixOf cs) (named : word.getLast?.any isNameChar) :
    (Regex.boundary.threads false ((Thread.start cs).moveTo (cs.drop word.length))).map
      Thread.rest = unlessNext isNameChar (cs.drop word.length) := by
  obtain ⟨rest, rfl⟩ := List.isPrefixOf_iff_prefix.1 start
  have last : Thread.last? ((Thread.start (word ++ rest)).moveTo rest) = word.getLast? := by
    simp [Thread.last?, Thread.start, Thread.moveTo]
  rw [List.drop_left, threads, last, named, unlessNext, Bool.true_bne]
  show (if (!rest.head?.any isNameChar) = true then _ else _ : List Thread).map _ = _
  cases rest.head?.any isNameChar <;> rfl

theorem wordEnds_eq (named : word.getLast?.any isNameChar) (cs : List Char) :
    wordEnds word cs = (if word.isPrefixOf cs then [cs.drop word.length] else []).flatMap
      fun rest => ((sequence [.boundary]).threads false ((Thread.start cs).moveTo rest)).map
        Thread.rest := by
  unfold wordEnds
  split
  next start =>
    rw [List.flatMap_singleton, threads_sequence_singleton, rest_boundary start named]
  next => rfl

def boundedNone : Regex := spelled ['N', 'o', 'n', 'e'] (sequence [.boundary])

theorem rest_boundedNone (cs : List Char) :
    (boundedNone.threads false (.start cs)).map Thread.rest =
      wordEnds ['N', 'o', 'n', 'e'] cs := by
  have word : boundedNone.threads false (.start cs) =
      if ['N', 'o', 'n', 'e'].isPrefixOf cs then
        (sequence [.boundary]).threads false ((Thread.start cs).moveTo (cs.drop 4)) else [] :=
    threads_spelled ..
  rw [word, wordEnds_eq rfl]
  split
  next => exact (List.flatMap_singleton ..).symm
  next => rfl

def boundedBool : Regex :=
  sequence [.alt (spelled ['T', 'r', 'u', 'e'] .empty) (spelled ['F', 'a', 'l', 's', 'e'] .empty),
    .boundary]

theorem rest_boundedBool (cs : List Char) :
    (boundedBool.threads false (.start cs)).map Thread.rest =
      wordEnds ['T', 'r', 'u', 'e'] cs ++ wordEnds ['F', 'a', 'l', 's', 'e'] cs := by
  have words := (takes_spelled ['T', 'r', 'u', 'e']).alt (takes_spelled ['F', 'a', 'l', 's', 'e'])
  have bounded : boundedBool.threads false (.start cs) = _ :=
    congrArg (List.flatMap ((sequence [.boundary]).threads false)) (words (.start cs))
  rw [bounded, List.flatMap_map, List.map_flatMap, List.flatMap_append,
    wordEnds_eq rfl, wordEnds_eq rfl]
  rfl

end Words

section Number

def decimal : Regex := .set false [.range '0' '9']

theorem takes_decimal : Takes true decimal (one Char.isDigit) := by
  refine .set_of_eq fun c => ?_
  rw [hasChar_of_unlettered, hasChar_eq_any, Bool.bne_false, Bool.eq_iff_iff, isDigit_iff]
  · simp only [List.any_cons, List.any_nil, Bool.or_false, CharItem.has_range, Char.reduceToNat]
  · refine List.forall_mem_singleton.2 fun c found => ?_
    have := (CharItem.has_range.1 found).2
    exact Nat.lt_of_le_of_lt this (by decide)

def decimalNumber : Regex :=
  sequence [.repeated .zeroOrOne true sign,
    .alt
      (sequence [.repeated .oneOrMore true decimal,
        .repeated .zeroOrOne true
          (sequence [literal '.', .repeated .zeroOrMore true decimal])])
      (sequence [literal '.', .repeated .oneOrMore true decimal]),
    .repeated .zeroOrOne true
      (sequence [literal 'e', .repeated .zeroOrOne true sign, .repeated .oneOrMore true decimal])]

def significandEnds (cs : List Char) : List (List Char) :=
  (digitsEnds cs).flatMap fractionEnds ++ (one (· == '.') cs).flatMap digitsEnds

theorem ends_decimalNumber : Ends true decimalNumber fun cs =>
    (prefer true (one isSign cs) cs).flatMap fun cs =>
      (significandEnds cs).flatMap exponentEnds := by
  have digits := takes_decimal.someRun
  have fraction := (takes_point.seq takes_decimal.run.last).zeroOrOne true
  have significand := (digits.seq fraction.last).alt (takes_point.seq digits.last)
  have exponent := (takes_exponentMark.seq ((takes_sign.zeroOrOne true).seq digits.last)).zeroOrOne
    true
  exact ((takes_sign.zeroOrOne true).seq (significand.seq exponent.last)).ends

theorem head?_significandEnds (cs : List Char) : (significandEnds cs).head? =
    let whole := Token.digitsLength cs
    let fraction := Token.fractionLength (cs.drop whole)
    if whole = 0 ∧ fraction ≤ 1 then none else some (cs.drop (whole + fraction)) := by
  unfold significandEnds
  dsimp only
  rw [List.head?_append]
  by_cases whole : Token.digitsLength cs = 0
  · -- Without digits in front there has to be a point with digits behind it.
    have none : digitsEnds cs = [] := by
      rw [← List.head?_eq_none_iff, head?_digitsEnds, if_pos whole]
    rw [none, List.flatMap_nil, List.head?_nil, Option.none_or, whole, List.drop_zero,
      Nat.zero_add]
    cases cs with
    | nil => rfl
    | cons c cs =>
      by_cases hc : c = '.'
      · have point : one (· == '.') (c :: cs) = [cs] := if_pos (by simpa using hc)
        rw [point, List.flatMap_singleton, head?_digitsEnds, Token.fractionLength, if_pos hc,
          List.drop_succ_cons]
        simp
      · simp [one, hc, Token.fractionLength]
  · have some : (digitsEnds cs).head? = some (cs.drop (Token.digitsLength cs)) := by
      rw [head?_digitsEnds, if_neg whole]
    rw [head?_flatMap_of_head? some (head?_fractionEnds _), Option.some_or, List.drop_drop,
      if_neg fun h => whole h.1]

theorem significandEnds_of_isSign {c : Char} (h : isSign c) (cs : List Char) :
    significandEnds (c :: cs) = [] := by
  have point : c ≠ '.' := by
    rintro rfl
    cases h
  simp [significandEnds, digitsEnds, one, isDigit_of_isSign h, point]

theorem head?_decimalNumberEnds (cs : List Char) :
    ((prefer true (one isSign cs) cs).flatMap fun cs =>
      (significandEnds cs).flatMap exponentEnds).head? =
      (Token.numberLength? cs).map cs.drop := by
  have cut (c : Char) (cs : List Char) (h : isSign c) :
      (significandEnds (c :: cs)).flatMap exponentEnds = [] := by
    rw [significandEnds_of_isSign h]
    rfl
  rw [flatMap_sign cut, Token.numberLength?]
  have significand := head?_significandEnds (cs.drop (Token.signLength cs))
  dsimp only at significand ⊢
  simp only [List.drop_drop] at significand
  split at significand
  next none =>
    rw [List.head?_eq_none_iff.1 significand, if_pos none]
    rfl
  next some =>
    rw [head?_flatMap_of_head? significand (head?_exponentEnds _), if_neg some]
    simp only [List.drop_drop, Option.map_some, Nat.add_assoc]

end Number

section Layout

def layout : Regex :=
  sequence [.repeated .zeroOrMore true (.alt (sequence [.set false [.blank]])
    (sequence [literal '#', .repeated .zeroOrMore true (.set true [.range '\n' '\n'])]))]

/-- A blank, or a comment, of which less can be taken. -/
def gapEnds (cs : List Char) : List (List Char) :=
  one isBlank cs ++ (one (· == '#') cs).flatMap (backwards (· != '\n'))

theorem takes_layout : Takes false layout (repeatedly true List.length gapEnds) := by
  have comment := (takes_literal '#').seq (takes_except '\n').run.last
  exact ((takes_blank.last.alt comment).zeroOrMore true).last

theorem behindLayout_true (cs : List Char) :
    behindLayout true cs = settle (cs.dropWhile (· != '\n')) := by
  induction cs with
  | nil => rfl
  | cons c cs ih =>
    rw [behindLayout_comment]
    by_cases hc : c = '\n'
    · rw [hc, List.dropWhile_cons_of_neg (by simp), settle_line_feed]
      rfl
    · rw [List.dropWhile_cons_of_pos (by simpa using hc), decide_eq_true hc, ih]

/-- Where the first gap ends, if there is one, the layout goes on. -/
theorem head?_gapEnds (cs : List Char) :
    match (gapEnds cs).head? with
    | none => Settled cs
    | some rest => rest.length < cs.length ∧ settle cs = settle rest := by
  cases cs with
  | nil => exact settled_nil
  | cons c cs =>
    by_cases hash : c = '#'
    · have comment : (gapEnds (c :: cs)).head? = some (cs.dropWhile (· != '\n')) := by
        simp [gapEnds, one, hash, head?_backwards, show isBlank '#' = false from rfl]
      rw [comment]
      refine ⟨Nat.lt_succ_of_le (List.dropWhile_suffix _).length_le, ?_⟩
      rw [settle_eq_behindLayout, behindLayout_cons, if_pos hash, behindLayout_true]
    · cases blank : isBlank c with
      | true =>
        have gap : (gapEnds (c :: cs)).head? = some cs := by simp [gapEnds, one, blank]
        rw [gap]
        exact ⟨Nat.lt_succ_self _, settle_cons_of_blank blank cs⟩
      | false =>
        have none : (gapEnds (c :: cs)).head? = none := by simp [gapEnds, one, blank, hash]
        rw [none]
        exact settled_cons hash blank cs

theorem head?_layoutEnds (cs : List Char) :
    (repeatedly true List.length gapEnds cs).head? = some (settle cs) := by
  induction h : cs.length using Nat.strong_induction_on generalizing cs with
  | _ n ih =>
    have gap := head?_gapEnds cs
    rw [repeatedly_eq]
    cases hends : gapEnds cs with
    | nil =>
      rw [hends] at gap
      exact congrArg some gap.eq.symm
    | cons rest ends =>
      rw [hends] at gap
      obtain ⟨shorter, same⟩ := gap
      rw [List.filter_cons_of_pos (by simpa using shorter), List.flatMap_cons, prefer, if_pos rfl,
        List.append_assoc, List.head?_append, ih _ (h ▸ shorter) rest rfl, same]
      rfl

end Layout

end Regex

open Regex

/-- The run of blanks and comments at the start of a text is what its regular expression matches. -/
theorem layoutLength_eq_sourceLength? (cs : List Char) :
    sourceLength? layoutSource cs = some (layoutLength cs) := by
  have read : ofSource? layoutSource = some (false, layout) := rfl
  rw [sourceLength?, read, Option.bind_some, matchLength?_eq (takes_layout.ends (.start cs)),
    head?_layoutEnds]
  show some (cs.length - (cs.drop (layoutLength cs)).length) = _
  rw [List.length_drop, Nat.sub_sub_self (layoutLength_le cs)]

def Matcher.length? : Matcher → List Char → Option Nat
  | regex source, cs => sourceLength? source cs
  | code, cs => (Fenced.match? cs).map Fenced.length
  | quoted, cs => (Quoted.match? cs).map Quoted.length
  | reference name, cs => Token.blankedLength? (sourceLength? name) cs

namespace Token

variable {t : Token}

theorem length?_of_source {source : String} {ignoreCase : Bool} {r : Regex}
    (read : ofSource? source = some (ignoreCase, r))
    (h : ∀ cs, t.length? cs = r.matchLength? ignoreCase cs) (cs : List Char) :
    t.length? cs = sourceLength? source cs := by
  rw [sourceLength?, read, h]
  rfl

theorem nameLength?_eq_sourceLength? : nameLength? = sourceLength? nameSource :=
  funext <| length?_of_source (t := .ruleName) (r := Regex.name) rfl
    (length?_of_ends takes_name.ends head?_nameEnds)

/-- Every token is matched as its matcher says. -/
theorem length?_eq_matcher (t : Token) (cs : List Char) :
    t.length? cs = t.matcher.length? cs := by
  cases t with
  | code => rfl
  | regexStr => rfl
  | ruleRef => exact congrArg (blankedLength? · cs) nameLength?_eq_sourceLength?
  | ruleName => exact congrFun nameLength?_eq_sourceLength? cs
  | litNum =>
    exact length?_of_source (t := .litNum) rfl
      (length?_of_ends ends_decimalNumber head?_decimalNumberEnds) cs
  | litNone =>
    exact length?_of_source rfl (length?_of_threads rest_boundedNone (head?_wordEnds _)) cs
  | litBool =>
    refine length?_of_source rfl (length?_of_threads rest_boundedBool fun cs => ?_) cs
    rw [List.head?_append, head?_wordEnds, head?_wordEnds, ← Option.map_or]
    rfl
  | textEnd =>
    refine length?_of_source rfl (length?_of_ends Takes.textEnd.last.ends fun cs => ?_) cs
    cases cs <;> rfl
  | _ => exact length?_of_source rfl (length?_of_mark fun _ => rfl) cs

end Token

end GrammarKit
