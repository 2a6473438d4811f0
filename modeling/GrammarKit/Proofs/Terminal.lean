import GrammarKit.Proofs.Exchange.Fenced
import GrammarKit.Proofs.Exchange.Quoted
import Mathlib.Data.List.TakeWhile

/-!
Terminals: a token together with the layout behind it. Between a terminal and the next one lies
exactly the layout, so terminals in a row cover a text.
-/

namespace GrammarKit

namespace Token

/-- The token stands at the start of `x` with this lexeme, and `y` is what stands behind it and the
layout that follows it. -/
def Takes (t : Token) (x lexeme y : List Char) : Prop :=
  ∃ n, t.length? x = some n ∧ lexeme = x.take n ∧ y = settle (x.drop n)

theorem length?_pos {t : Token} {cs : List Char} {n : Nat} (ht : t ≠ .textEnd)
    (h : t.length? cs = some n) : 0 < n := by
  have mark : ∀ m, charLength? m cs = some n → 0 < n := by
    intro m hm
    rw [(charLength?_eq_some.1 hm).1]
    exact Nat.one_pos
  have word : ∀ word, word ≠ [] → wordLength? word cs = some n → 0 < n := by
    intro word hne hw
    rw [(wordLength?_eq_some.1 hw).1]
    exact List.length_pos_iff.2 hne
  cases t with
  | textEnd => exact absurd rfl ht
  | code =>
    obtain ⟨f, hf, rfl⟩ := Option.map_eq_some_iff.1 h
    have := (openingRun_of_match? hf).1
    rw [Fenced.length]
    omega
  | litBool =>
    rcases Option.or_eq_some_iff.1 h with h | ⟨-, h⟩
    · exact word _ (by simp) h
    · exact word _ (by simp) h
  | litNone => exact word _ (by simp) h
  | litNum =>
    obtain ⟨total, some⟩ := numberLength?_eq_some.1 h
    omega
  | regexStr =>
    obtain ⟨q, -, rfl⟩ := Option.map_eq_some_iff.1 h
    have := q.quote.length_pos
    rw [Quoted.length]
    omega
  | ruleName =>
    obtain ⟨_, _, -, -, rfl⟩ := nameLength?_eq_some.1 h
    omega
  | ruleRef =>
    obtain ⟨m, hm, hn⟩ := referenceLength?_eq_some.1 h
    obtain ⟨_, _, -, -, rfl⟩ := nameLength?_eq_some.1 hm
    dsimp only at hn
    split at hn <;> omega
  | _ => exact mark _ h

theorem referenceLength?_bounds {cs : List Char} {n : Nat} (h : referenceLength? cs = some n) :
    ∃ m, nameLength? cs = some m ∧ (cs.drop m).head? ≠ some ':' ∧ m ≤ n ∧
      n - m ≤ ((cs.drop m).takeWhile isBlank).length := by
  obtain ⟨m, hm, hn⟩ := referenceLength?_eq_some.1 h
  refine ⟨m, hm, ?_, ?_⟩
  · intro colon
    have none : ((cs.drop m).takeWhile isBlank) = [] := by
      cases htail : cs.drop m with
      | nil => rfl
      | cons c tail =>
        rw [htail] at colon
        cases colon
        rfl
    simp [none, colon] at hn
  · dsimp only at hn
    split at hn <;> omega

theorem digitsLength_le (cs : List Char) : digitsLength cs ≤ cs.length :=
  (List.takeWhile_sublist _).length_le

theorem fractionLength_le (cs : List Char) : fractionLength cs ≤ cs.length := by
  cases cs with
  | nil => exact Nat.le_refl 0
  | cons c cs =>
    have := digitsLength_le cs
    rw [fractionLength, List.length_cons]
    split <;> omega

theorem exponentLength_le (cs : List Char) : exponentLength cs ≤ cs.length := by
  cases cs with
  | nil => exact Nat.le_refl 0
  | cons c cs =>
    have sign := signLength_le cs
    have digits := digitsLength_le (cs.drop (signLength cs))
    rw [List.length_drop] at digits
    simp only [exponentLength, List.length_cons]
    split
    · split <;> omega
    · omega

theorem numberLength?_le {cs : List Char} {n : Nat} (h : numberLength? cs = some n) :
    n ≤ cs.length := by
  obtain ⟨rfl, -⟩ := numberLength?_eq_some.1 h
  have sign := signLength_le cs
  have whole := digitsLength_le (cs.drop (signLength cs))
  have fraction := fractionLength_le
    (cs.drop (signLength cs + digitsLength (cs.drop (signLength cs))))
  have exponent := exponentLength_le
    (cs.drop (signLength cs + digitsLength (cs.drop (signLength cs)) +
      fractionLength (cs.drop (signLength cs + digitsLength (cs.drop (signLength cs))))))
  simp only [List.length_drop] at whole fraction exponent
  omega

theorem nameLength?_le {cs : List Char} {n : Nat} (h : nameLength? cs = some n) :
    n ≤ cs.length := by
  obtain ⟨_, rest, rfl, -, rfl⟩ := nameLength?_eq_some.1 h
  have := (List.takeWhile_sublist (l := rest) isNameChar).length_le
  rw [List.length_cons]
  omega

theorem length_le_of_match?_fenced {cs : List Char} {f : Fenced} (h : Fenced.match? cs = some f) :
    f.length ≤ cs.length := by
  obtain ⟨pos, le, found, -⟩ := Fenced.ofFence?_eq_some.1 h
  have run := Fenced.openingRun_le cs
  have := (Fenced.go_bounds found (Nat.le_refl 0)).2
  rw [List.length_drop] at this
  rw [Fenced.length]
  omega

theorem length_le_of_match?_quoted {cs : List Char} {q : Quoted} (h : Quoted.match? cs = some q) :
    q.length ≤ cs.length := by
  obtain ⟨raw, -, hp, hn⟩ := Quoted.withQuote?_eq_some.1 (withQuote?_of_match? h)
  have pos := q.quote.length_pos
  have le := hp.length_le
  have := (Quote.go_bounds hn).2
  simp only [List.length_drop] at le this
  rw [Quoted.length, Quoted.bodyStart, raw]
  omega

theorem length?_le {t : Token} {cs : List Char} {n : Nat} (h : t.length? cs = some n) :
    n ≤ cs.length := by
  have mark : ∀ m, charLength? m cs = some n → n ≤ cs.length := by
    intro m hm
    obtain ⟨rfl, rest, rfl⟩ := charLength?_eq_some.1 hm
    simp
  have word : ∀ word, wordLength? word cs = some n → n ≤ cs.length := by
    intro word hw
    obtain ⟨rfl, rest, rfl, -⟩ := wordLength?_eq_some.1 hw
    simp
  cases t with
  | textEnd =>
    simp only [length?] at h
    split at h
    · cases h
      exact Nat.zero_le _
    · cases h
  | code =>
    obtain ⟨f, hf, rfl⟩ := Option.map_eq_some_iff.1 h
    exact length_le_of_match?_fenced hf
  | litBool =>
    rcases Option.or_eq_some_iff.1 h with h | ⟨-, h⟩
    · exact word _ h
    · exact word _ h
  | litNone => exact word _ h
  | litNum => exact numberLength?_le h
  | regexStr =>
    obtain ⟨q, hq, rfl⟩ := Option.map_eq_some_iff.1 h
    exact length_le_of_match?_quoted hq
  | ruleName => exact nameLength?_le h
  | ruleRef =>
    obtain ⟨m, hm, -, le, gap⟩ := referenceLength?_bounds h
    have name := nameLength?_le hm
    have := (List.takeWhile_sublist (l := cs.drop m) isBlank).length_le
    rw [List.length_drop] at this
    omega
  | _ => exact mark _ h

namespace Takes

variable {t : Token} {x y lexeme : List Char}

theorem startsAt (h : t.Takes x lexeme y) : startsAt x t := by
  obtain ⟨n, hn, -⟩ := h
  exact startsAt_of_length? hn

theorem settled_left (h : t.Takes x lexeme y) : Settled x := settled_of_startsAt h.startsAt

theorem settled_right (h : t.Takes x lexeme y) : Settled y := by
  obtain ⟨n, -, -, rfl⟩ := h
  exact settled_settle _

theorem suffix (h : t.Takes x lexeme y) : y <:+ x := by
  obtain ⟨n, -, -, rfl⟩ := h
  exact (settle_suffix _).trans (List.drop_suffix _ _)

theorem length_lt (h : t.Takes x lexeme y) (ht : t ≠ .textEnd) : y.length < x.length := by
  obtain ⟨n, hn, -, rfl⟩ := h
  have pos := length?_pos ht hn
  have le := (settle_suffix (x.drop n)).length_le
  rw [List.length_drop] at le
  cases x with
  | nil => exact absurd (length?_nil hn) ht
  | cons c x =>
    rw [List.length_cons] at le ⊢
    omega

end Takes

theorem isNameChar_of_mem_take {cs : List Char} {m : Nat} (h : nameLength? cs = some m) {c : Char}
    (hc : c ∈ cs.take m) : isNameChar c := by
  obtain ⟨d, rest, rfl, hd, rfl⟩ := nameLength?_eq_some.1 h
  rw [List.take_succ_cons, List.mem_cons] at hc
  rcases hc with rfl | hc
  · exact isNameChar_of_isNameStart hd
  · rw [← List.prefix_iff_eq_take.1 (List.takeWhile_prefix isNameChar)] at hc
    exact List.mem_takeWhile_imp hc

end Token

theorem trimEnd_append {a b : List Char} (ha : ∀ c ∈ a, isBlank c = false)
    (hb : ∀ c ∈ b, isBlank c) : trimEnd (a ++ b) = a := by
  have blanks : b.reverse.dropWhile isBlank = [] :=
    List.dropWhile_eq_nil_iff.2 fun c hc => hb c (List.mem_reverse.1 hc)
  have kept : a.reverse.dropWhile isBlank = a.reverse := by
    cases h : a.reverse with
    | nil => rfl
    | cons c cs =>
      exact List.dropWhile_cons_of_neg (by simp [ha c (List.mem_reverse.1 (by simp [h]))])
  rw [trimEnd, List.reverse_append, List.dropWhile_append, blanks]
  simp [kept]

namespace Token

theorem exists_referenceLength? {cs : List Char} {m : Nat} (h : nameLength? cs = some m)
    (colon : (cs.drop m).head? ≠ some ':') : ∃ n, referenceLength? cs = some n := by
  unfold referenceLength? blankedLength?
  rw [h]
  dsimp only
  split
  · rename_i hc
    split
    · rename_i hg
      rw [hg] at hc
      exact absurd hc (by simpa using colon)
    · exact ⟨_, rfl⟩
  · exact ⟨_, rfl⟩

/-- A reference is a name that no colon follows at once. -/
theorem Takes.reference {x lexeme y : List Char} (h : ruleRef.Takes x lexeme y) :
    ∃ m, nameLength? x = some m ∧ (x.drop m).head? ≠ some ':' ∧ y = settle (x.drop m) ∧
      trimEnd lexeme = x.take m := by
  obtain ⟨n, hn, rfl, rfl⟩ := h
  obtain ⟨m, hm, colon, le, gap⟩ := referenceLength?_bounds hn
  have split : x.take n = x.take m ++ (x.drop m).take (n - m) := by
    rw [← List.take_add]
    congr 1
    omega
  refine ⟨m, hm, colon, ?_, ?_⟩
  · rw [← settle_drop_blanks (x.drop m) (n - m) gap, List.drop_drop]
    congr 2
    omega
  · rw [split]
    refine trimEnd_append (fun c hc => isBlank_of_isNameChar (isNameChar_of_mem_take hm hc)) ?_
    intro c hc
    have run : (x.drop m).take (n - m) <+: (x.drop m).takeWhile isBlank :=
      List.prefix_of_prefix_length_le (List.take_prefix _ _) (List.takeWhile_prefix _)
        ((List.length_take_le _ _).trans gap)
    exact List.mem_takeWhile_imp (run.subset hc)

theorem takes_ruleRef {x : List Char} {m : Nat} (h : nameLength? x = some m)
    (colon : (x.drop m).head? ≠ some ':') :
    ∃ lexeme, ruleRef.Takes x lexeme (settle (x.drop m)) ∧ trimEnd lexeme = x.take m := by
  obtain ⟨n, hn⟩ := exists_referenceLength? h colon
  have takes : ruleRef.Takes x (x.take n) (settle (x.drop n)) := ⟨n, hn, rfl, rfl⟩
  obtain ⟨m', hm', -, hy, hl⟩ := takes.reference
  cases h.symm.trans hm'
  rw [hy] at takes
  exact ⟨_, takes, hl⟩

theorem startsAt_ruleRef {x : List Char} {m : Nat} (h : nameLength? x = some m) :
    startsAt x .ruleRef ↔ (x.drop m).head? ≠ some ':' := by
  constructor
  · intro hs
    obtain ⟨n, hn⟩ := exists_length?_of_startsAt hs
    obtain ⟨m', hm', colon, -⟩ := referenceLength?_bounds hn
    cases h.symm.trans hm'
    exact colon
  · intro colon
    obtain ⟨n, hn⟩ := exists_referenceLength? h colon
    exact startsAt_of_length? hn

/-- Tokens other than references keep their length when the text behind them is exchanged. -/
theorem length?_exchange {t : Token} {p v w : List Char} {n : Nat} (ht : t ≠ .textEnd)
    (href : t ≠ .ruleRef) (h : t.length? (p ++ v) = some n) (hn : n ≤ p.length) (hw : Tame w)
    (hc : Closing w) : t.length? (p ++ w) = some n := by
  cases t with
  | textEnd => exact absurd rfl ht
  | ruleRef => exact absurd rfl href
  | code =>
    obtain ⟨f, hf, rfl⟩ := Option.map_eq_some_iff.1 h
    exact Option.map_eq_some_iff.2 ⟨f, Fenced.match?_exchange hf hn hw, rfl⟩
  | regexStr =>
    obtain ⟨q, hq, rfl⟩ := Option.map_eq_some_iff.1 h
    exact Option.map_eq_some_iff.2 ⟨q, Quoted.match?_exchange hq hn hw, rfl⟩
  | litBool =>
    rcases Option.or_eq_some_iff.1 h with h | ⟨-, h⟩
    · exact Option.or_eq_some_iff.2 (.inl (wordLength?_exchange h hn hc))
    · have false := wordLength?_exchange h hn hc
      have true : wordLength? ['T', 'r', 'u', 'e'] (p ++ w) = none := by
        rw [Option.eq_none_iff_forall_ne_some]
        intro m hm
        obtain ⟨-, _, hT, -⟩ := wordLength?_eq_some.1 hm
        obtain ⟨-, _, hF, -⟩ := wordLength?_eq_some.1 false
        rw [hF] at hT
        simp at hT
      exact Option.or_eq_some_iff.2 (.inr ⟨true, false⟩)
  | litNone => exact wordLength?_exchange h hn hc
  | litNum => exact numberLength?_exchange h hn hc
  | ruleName => exact nameLength?_exchange h hn hc
  | _ => exact charLength?_exchange h hn

theorem reference_exchange {p q v : List Char} {m : Nat} (h : nameLength? (p ++ v) = some m)
    (colon : ((p ++ v).drop m).head? ≠ some ':') (hm : m ≤ p.length)
    (hy : settle ((p ++ v).drop m) = q ++ v) (w : List Char) :
    ∃ lexeme, ruleRef.Takes (p ++ '\n' :: w) lexeme (settle (q ++ '\n' :: w)) := by
  have name : nameLength? (p ++ '\n' :: w) = some m :=
    nameLength?_exchange h hm (closing_line_feed w)
  rw [List.drop_append_of_le_length hm] at colon hy
  have colon' : ((p ++ '\n' :: w).drop m).head? ≠ some ':' := by
    rw [List.drop_append_of_le_length hm]
    cases htail : p.drop m with
    | nil => simp
    | cons c tail =>
      rw [htail] at colon
      exact colon
  obtain ⟨lexeme, takes, -⟩ := takes_ruleRef name colon'
  rw [List.drop_append_of_le_length hm, settle_exchange hy] at takes
  exact ⟨lexeme, takes⟩

/-- Nothing but the text behind a terminal changes when that is exchanged; a reference may be
followed by other blanks. -/
theorem Takes.exchange {t : Token} {x lexeme q v : List Char} (ht : t ≠ .textEnd)
    (h : t.Takes x lexeme (q ++ v)) : ∃ p, x = p ++ v ∧ p ≠ [] ∧ ∀ w, Tame w →
      ∃ lexeme', t.Takes (p ++ '\n' :: w) lexeme' (settle (q ++ '\n' :: w)) ∧
        (t ≠ .ruleRef → lexeme' = lexeme) := by
  have short := h.length_lt ht
  obtain ⟨p, rfl⟩ : ∃ p, x = p ++ v := by
    obtain ⟨gap, hgap⟩ := h.suffix
    exact ⟨gap ++ q, by rw [← hgap, List.append_assoc]⟩
  refine ⟨p, rfl, fun nil => ?_, fun w hw => ?_⟩
  · rw [nil, List.length_append, List.nil_append] at short
    omega
  have inside : ∀ m, m ≤ (p ++ v).length → settle ((p ++ v).drop m) = q ++ v → m ≤ p.length := by
    intro m hm hy
    have := (settle_suffix ((p ++ v).drop m)).length_le
    rw [hy, List.length_drop, List.length_append, List.length_append] at this
    rw [List.length_append] at hm
    omega
  by_cases href : t = .ruleRef
  · subst href
    obtain ⟨m, hm, colon, hy, -⟩ := h.reference
    obtain ⟨lexeme', takes⟩ :=
      reference_exchange hm colon (inside m (nameLength?_le hm) hy.symm) hy.symm w
    exact ⟨lexeme', takes, fun h => absurd rfl h⟩
  · obtain ⟨n, hn, rfl, hy⟩ := h
    have le := inside n (length?_le hn) hy.symm
    rw [List.drop_append_of_le_length le] at hy
    refine ⟨(p ++ v).take n, ⟨n, length?_exchange ht href hn le hw.line_feed (closing_line_feed w),
      ?_, ?_⟩, fun _ => rfl⟩
    · rw [List.take_append_of_le_length le, List.take_append_of_le_length le]
    · rw [List.drop_append_of_le_length le, settle_exchange hy.symm]

end Token

end GrammarKit
