import GrammarKit.Proofs.Exchange.Inside
import GrammarKit.Proofs.Phrase.Start
import Mathlib.Logic.Relation

/-!
Texts cut into tokens. Several tokens may stand at one place, but it hardly matters which of them is
taken: names, words and references end at one place, and where a literal or a number can be taken
apart, nothing else can be made of its rest than what it would have been in one piece.

Main statement: of two steps from one text either both lead to the same text, or one of them takes a
single character, and the next step from there leads where the other one leads.
-/

namespace GrammarKit

namespace Token

def Joins (x y : List Char) : Prop := ∃ t lexeme, Token.Takes t x lexeme y

theorem Joins.suffix {x y : List Char} (h : Joins x y) : y <:+ x := by
  obtain ⟨t, lexeme, takes⟩ := h
  exact takes.suffix

theorem Joins.settled {x y : List Char} (h : Joins x y) : Settled x := by
  obtain ⟨t, lexeme, takes⟩ := h
  exact takes.settled_left

def IsWord (t : Token) : Prop := t ∈ [litBool, litNone, ruleName, ruleRef]

instance (t : Token) : Decidable t.IsWord :=
  inferInstanceAs (Decidable (t ∈ [litBool, litNone, ruleName, ruleRef]))

theorem nameLength?_of_wordLength? {word cs : List Char} {n : Nat} (hword : word.all isNameChar)
    (start : word.head?.any isNameStart) (h : wordLength? word cs = some n) :
    nameLength? cs = some n := by
  obtain ⟨rfl, rest, rfl, stop⟩ := wordLength?_eq_some.1 h
  cases word with
  | nil => cases start
  | cons c word =>
    rw [List.all_cons, Bool.and_eq_true] at hword
    have none : rest.takeWhile isNameChar = [] := by
      cases rest with
      | nil => rfl
      | cons d rest => simpa using stop
    refine nameLength?_eq_some.2 ⟨c, word ++ rest, rfl, by simpa using start, ?_⟩
    rw [List.takeWhile_append_of_pos (List.all_eq_true.1 hword.2), none, List.append_nil,
      List.length_cons]

/-- Whatever a word is taken for, it ends where the name ends. -/
theorem Takes.word {t : Token} {x lexeme y : List Char} (h : t.Takes x lexeme y) (ht : t.IsWord) :
    ∃ m, nameLength? x = some m ∧ y = settle (x.drop m) := by
  obtain ⟨n, hn, -, hy⟩ := id h
  cases t with
  | ruleName => exact ⟨n, hn, hy⟩
  | ruleRef =>
    obtain ⟨m, hm, -, hy, -⟩ := h.reference
    exact ⟨m, hm, hy⟩
  | litNone => exact ⟨n, nameLength?_of_wordLength? (by decide) (by decide) hn, hy⟩
  | litBool =>
    rcases Option.or_eq_some_iff.1 hn with hn | ⟨-, hn⟩
    · exact ⟨n, nameLength?_of_wordLength? (by decide) (by decide) hn, hy⟩
    · exact ⟨n, nameLength?_of_wordLength? (by decide) (by decide) hn, hy⟩
  | _ => exact absurd ht (by decide)

theorem Takes.unique {t : Token} {x lexeme lexeme' y y' : List Char} (h : t.Takes x lexeme y)
    (h' : t.Takes x lexeme' y') : y = y' := by
  obtain ⟨n, hn, -, rfl⟩ := h
  obtain ⟨n', hn', -, rfl⟩ := h'
  cases hn.symm.trans hn'
  rfl

/-- A step that takes a single character. From behind it there is one way on, to where another step
leads from in front of it. -/
structure Splits (x y z : List Char) : Prop where
  tail : y = x.tail
  joins : Joins y z
  unique : ∀ z', Joins y z' → z' = z

theorem mark_stops {m : Char} (hm : m = '\'' ∨ m = '"') :
    isNameChar m = false ∧ isBlank m = false ∧ m ≠ '#' ∧ m ≠ 'r' := by
  rcases hm with rfl | rfl <;> decide

theorem eq_regexStr_of_mark {t : Token} {m : Char} {cs : List Char} {n : Nat}
    (hm : m = '\'' ∨ m = '"') (h : t.length? (m :: cs) = some n) : t = .regexStr := by
  have name (k : Nat) (hk : nameLength? (m :: cs) = some k) : False := by
    obtain ⟨_, _, ⟨⟩, start, -⟩ := nameLength?_eq_some.1 hk
    rcases hm with rfl | rfl <;> exact absurd start (by decide)
  have lead : t.lead = .word := by
    rw [lead_eq_of_length? h]
    rcases hm with rfl | rfl <;> decide
  cases t with
  | regexStr => rfl
  | litBool =>
    rcases head_of_startsAt_litBool (startsAt_of_length? h) with rfl | rfl <;>
      exact absurd hm (by decide)
  | litNone =>
    cases head_of_startsAt_litNone (startsAt_of_length? h)
    exact absurd hm (by decide)
  | ruleName => exact (name n h).elim
  | ruleRef =>
    obtain ⟨k, hk, -⟩ := referenceLength?_eq_some.1 h
    exact (name k hk).elim
  | _ => cases lead

/-- The `r` of a raw literal may be taken for a name. -/
theorem splits_raw {t : Token} {x lexeme lexeme' y y' : List Char} (word : t.IsWord)
    (h : t.Takes x lexeme y) (h' : regexStr.Takes x lexeme' y') : Splits x y y' := by
  obtain ⟨m, hm, rfl⟩ := h.word word
  obtain ⟨n, hn, -, rfl⟩ := h'
  obtain ⟨q, hq, rfl⟩ := Option.map_eq_some_iff.1 hn
  obtain ⟨c, cs, rfl, start, rfl⟩ := nameLength?_eq_some.1 hm
  rcases head_of_match?_quoted (by rw [hq]; rfl) with mark | ⟨rfl, mark, rest, hmark, rfl⟩
  · rcases mark with rfl | rfl <;> exact absurd start (by decide)
  · obtain ⟨stop, blank, hash, ne⟩ := mark_stops hmark
    rw [Quoted.match?_raw ne] at hq
    obtain ⟨q, hplain, rfl⟩ := Option.map_eq_some_iff.1 hq
    have plain : q.raw = false := by
      have raw := (Quoted.withQuote?_eq_some.1 (withQuote?_of_match? hplain)).1
      rw [raw]
      simpa using ne
    have literal : regexStr.length? (mark :: rest) = some q.length :=
      Option.map_eq_some_iff.2 ⟨q, hplain, rfl⟩
    have longer : Quoted.length { q with raw := true } = q.length + 1 := by
      simp only [Quoted.length, Quoted.bodyStart, plain]
      simp only [Bool.toNat_true, Bool.toNat_false]
      omega
    have tail : settle (('r' :: mark :: rest).drop
        (((mark :: rest).takeWhile isNameChar).length + 1)) = mark :: rest := by
      rw [List.takeWhile_cons_of_neg (by simp [stop])]
      exact (settled_cons hash blank rest).eq
    rw [tail, longer, List.drop_succ_cons]
    refine ⟨rfl, ⟨.regexStr, _, q.length, literal, rfl, rfl⟩, ?_⟩
    rintro z ⟨t, l, k, hk, -, rfl⟩
    cases eq_regexStr_of_mark hmark hk
    cases literal.symm.trans hk
    rfl

/-- Behind a plus sign stands the same number without it. -/
theorem numberLength?_plus {cs : List Char} {n : Nat} (h : numberLength? ('+' :: cs) = some n) :
    signLength cs = 0 ∧ ∃ m, numberLength? cs = some m ∧ n = m + 1 := by
  rw [numberLength?_eq_some] at h
  have sign : signLength ('+' :: cs) = 1 := rfl
  simp only [sign, List.drop_succ_cons, List.drop_zero, Nat.add_comm 1] at h
  obtain ⟨rfl, digits⟩ := h
  have none : signLength cs = 0 := by
    by_contra signed
    cases cs with
    | nil => exact signed rfl
    | cons c cs =>
      have hc : c = '+' ∨ c = '-' := by
        by_contra hc
        exact signed (if_neg hc)
      refine digits ?_
      rcases hc with rfl | rfl <;> exact ⟨rfl, Nat.zero_le 1⟩
  refine ⟨none, _, numberLength?_eq_some.2 ⟨rfl, ?_⟩, ?_⟩
  · simpa only [none, List.drop_zero, Nat.zero_add] using digits
  · simp only [none, List.drop_zero, Nat.zero_add]
    rw [Nat.add_right_comm _ 1, List.drop_succ_cons]
    omega

/-- The plus sign of a number may be taken for a trailer. -/
theorem splits_plus {x lexeme lexeme' y y' : List Char} (h : occ1mTrailer.Takes x lexeme y)
    (h' : litNum.Takes x lexeme' y') : Splits x y y' := by
  obtain ⟨n, hn, -, rfl⟩ := h
  obtain ⟨n', hn', -, rfl⟩ := h'
  obtain ⟨rfl, cs, rfl⟩ := charLength?_eq_some.1 hn
  obtain ⟨unsigned, m, hm, rfl⟩ := numberLength?_plus hn'
  have number : startsAt cs .litNum := startsAt_of_length? hm
  have tail : settle (('+' :: cs).drop 1) = cs := settled_of_startsAt number
  rw [tail, List.drop_succ_cons]
  refine ⟨rfl, ⟨.litNum, _, m, hm, rfl, rfl⟩, ?_⟩
  rintro z ⟨t, l, k, hk, -, rfl⟩
  have lead := lead_unique (startsAt_of_length? hk) number
  cases t with
  | litNum =>
    cases hk.symm.trans hm
    rfl
  | occ1mTrailer =>
    obtain ⟨-, rest, rfl⟩ := charLength?_eq_some.1 hk
    cases unsigned
  | _ => cases lead

/-- Tokens of one lead are words, quoted literals or numbers, if they are not the same. -/
theorem lead_cases {t t' : Token} (h : t.lead = t'.lead) : t = t' ∨ (t.IsWord ∧ t'.IsWord) ∨
    (t.IsWord ∧ t' = .regexStr) ∨ (t = .regexStr ∧ t'.IsWord) ∨
    (t = .occ1mTrailer ∧ t' = .litNum) ∨ (t = .litNum ∧ t' = .occ1mTrailer) := by
  cases t <;> cases t' <;> first | decide | cases h

/-- Two steps from one text lead to the same text, unless one of them splits what the other takes in
one piece. -/
theorem Joins.cases {x y y' : List Char} (h : Joins x y) (h' : Joins x y') :
    y = y' ∨ Splits x y y' ∨ Splits x y' y := by
  obtain ⟨t, lexeme, h⟩ := h
  obtain ⟨t', lexeme', h'⟩ := h'
  rcases lead_cases (lead_unique h.startsAt h'.startsAt) with rfl | ⟨word, word'⟩ | ⟨word, rfl⟩ |
    ⟨rfl, word⟩ | ⟨rfl, rfl⟩ | ⟨rfl, rfl⟩
  · exact .inl (h.unique h')
  · obtain ⟨m, hm, rfl⟩ := h.word word
    obtain ⟨m', hm', rfl⟩ := h'.word word'
    cases hm.symm.trans hm'
    exact .inl rfl
  · exact .inr (.inl (splits_raw word h h'))
  · exact .inr (.inr (splits_raw word h' h))
  · exact .inr (.inl (splits_plus h h'))
  · exact .inr (.inr (splits_plus h' h))

end Token

variable {p v : List Char}

/-- From the one text to the other, tokens stand one behind the other, with layout between them. -/
def Tiled : List Char → List Char → Prop := Relation.ReflTransGen Token.Joins

namespace Tiled

variable {x y z : List Char}

theorem refl (x : List Char) : Tiled x x := Relation.ReflTransGen.refl

theorem head (joins : Token.Joins x y) (rest : Tiled y z) : Tiled x z :=
  Relation.ReflTransGen.head joins rest

theorem suffix (h : Tiled x z) : z <:+ x := by
  induction h with
  | refl => exact List.suffix_refl x
  | tail _ joins ih => exact joins.suffix.trans ih

theorem exists_joins (h : Tiled x z) (ne : x ≠ z) : ∃ y, Token.Joins x y ∧ Tiled y z := by
  rcases Relation.ReflTransGen.cases_head h with same | first
  · exact absurd same ne
  · exact first

theorem settled (h : Tiled x z) (ne : x ≠ z) : Settled x := by
  obtain ⟨y, joins, -⟩ := h.exists_joins ne
  exact joins.settled

/-- Whichever token is taken first, the place is still ahead, if it does not lie behind the first
character. -/
theorem behind (h : Tiled x z) (ne : x ≠ z) (far : z ≠ x.tail) (joins : Token.Joins x y) :
    Tiled y z := by
  obtain ⟨y', joins', rest⟩ := h.exists_joins ne
  rcases joins.cases joins' with rfl | split | split
  · exact rest
  · exact .head split.joins rest
  · rw [split.tail] at rest
    obtain ⟨y'', next, rest⟩ := rest.exists_joins far.symm
    rw [← split.tail] at next
    rw [← split.unique y'' next]
    exact rest

end Tiled

end GrammarKit
