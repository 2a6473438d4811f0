import GrammarKit.Proofs.Exchange.Spacer
import GrammarKit.Proofs.Terminal

/-!
Exchanging a stretch of layout behind tokens. The same tokens stand in front of it as before, and
those that end in front of it keep their length; a reference, which takes blanks of the stretch
along, keeps its name.
-/

namespace GrammarKit

variable {p s s' v w : List Char}

namespace Token

variable {t : Token} {n m : Nat}

/-- The token ends where its own characters end, whatever else the text holds. -/
def EndsByItself (t : Token) : Prop := t ∉ [code, regexStr, ruleRef, textEnd]

/-- The cases of a token by what its end depends on. -/
theorem cases_end {motive : Token → Prop} (code : motive .code) (regexStr : motive .regexStr)
    (ruleRef : motive .ruleRef) (textEnd : motive .textEnd)
    (own : ∀ t, EndsByItself t → motive t) (t : Token) : motive t := by
  cases t with
  | code => exact code
  | regexStr => exact regexStr
  | ruleRef => exact ruleRef
  | textEnd => exact textEnd
  | _ => exact own _ (by simp [EndsByItself])

section

variable (hw : Closing w)

include hw

theorem digitsLength_append_of_closing (p : List Char) :
    digitsLength (p ++ w) = digitsLength p := by
  have whole : digitsLength (p ++ []) ≤ p.length := by simpa using digitsLength_le p
  rw [digitsLength_exchange whole hw, List.append_nil]

theorem fractionLength_append_of_closing (p : List Char) :
    fractionLength (p ++ w) = fractionLength p := by
  have whole : fractionLength (p ++ []) ≤ p.length := by simpa using fractionLength_le p
  rw [fractionLength_exchange whole hw, List.append_nil]

theorem exponentLength_append_of_closing (p : List Char) :
    exponentLength (p ++ w) = exponentLength p := by
  have whole : exponentLength (p ++ []) ≤ p.length := by simpa using exponentLength_le p
  rw [exponentLength_exchange whole hw, List.append_nil]

theorem numberLength?_append_of_closing (hp : p ≠ []) :
    numberLength? (p ++ w) = numberLength? p := by
  have sign : signLength (p ++ w) = signLength p := by
    obtain ⟨c, p, rfl⟩ := List.exists_cons_of_ne_nil hp
    rfl
  have hs := signLength_le p
  have hd := digitsLength_le (p.drop (signLength p))
  rw [List.length_drop] at hd
  have hf := fractionLength_le (p.drop (signLength p + digitsLength (p.drop (signLength p))))
  rw [List.length_drop] at hf
  unfold numberLength?
  simp only
  rw [sign, List.drop_append_of_le_length hs, digitsLength_append_of_closing hw,
    List.drop_append_of_le_length (by omega), fractionLength_append_of_closing hw,
    List.drop_append_of_le_length (by omega), exponentLength_append_of_closing hw]

theorem nameLength?_append_of_closing (hp : p ≠ []) : nameLength? (p ++ w) = nameLength? p := by
  obtain ⟨c, p, rfl⟩ := List.exists_cons_of_ne_nil hp
  have whole : ((p ++ []).takeWhile isNameChar).length ≤ p.length := by
    simpa using (List.takeWhile_sublist (l := p) isNameChar).length_le
  rw [List.cons_append, nameLength?, nameLength?,
    takeWhile_exchange whole fun c hc => (hw c hc).1, List.append_nil]

theorem wordLength?_append_of_closing {word : List Char} (hword : word.all isNameChar)
    (p : List Char) : wordLength? word (p ++ w) = wordLength? word p := by
  ext n
  constructor
  · intro h
    obtain ⟨rfl, rest, hr, -⟩ := wordLength?_eq_some.1 h
    have stop : ∀ c ∈ word, w.head? ≠ some c := by
      intro c hc head
      have name := List.all_eq_true.1 hword c hc
      rw [(hw c head).1] at name
      cases name
    have inside := (prefix_of_stop ⟨rest, hr.symm⟩ stop).length_le
    simpa using wordLength?_exchange h inside closing_nil
  · intro h
    obtain ⟨rfl, rest, rfl, -⟩ := wordLength?_eq_some.1 h
    rw [← List.append_nil (word ++ rest)] at h
    exact wordLength?_exchange h (by simp) hw

/-- The tokens that end by themselves do so in front of a closing text. -/
theorem length?_append_of_closing (own : EndsByItself t) (hp : p ≠ []) :
    t.length? (p ++ w) = t.length? p := by
  have mark (c : Char) : charLength? c (p ++ w) = charLength? c p := by
    obtain ⟨d, p, rfl⟩ := List.exists_cons_of_ne_nil hp
    rfl
  cases t with
  | code | regexStr | ruleRef | textEnd => simp [EndsByItself] at own
  | litBool =>
    show Option.or _ _ = Option.or _ _
    rw [wordLength?_append_of_closing hw rfl, wordLength?_append_of_closing hw rfl]
  | litNone => exact wordLength?_append_of_closing hw rfl p
  | litNum => exact numberLength?_append_of_closing hw hp
  | ruleName => exact nameLength?_append_of_closing hw hp
  | _ => exact mark _

end

theorem length?_lexeme (ht : t ≠ .textEnd) (href : t ≠ .ruleRef) (h : t.length? w = some n) :
    t.length? (w.take n) = some n := by
  have len : (w.take n).length = n := List.length_take_of_le (length?_le h)
  rw [← List.take_append_drop n w] at h
  simpa using length?_exchange ht href h (Nat.le_of_eq len.symm) tame_nil closing_nil

/-- A token in front of a tame and closing text does not reach into it. -/
theorem length?_le_of_tame (ht : t ≠ .textEnd) (href : t ≠ .ruleRef) (hp : p ≠ []) (tame : Tame w)
    (hw : Closing w) (h : t.length? (p ++ w) = some n) : n ≤ p.length := by
  cases t using cases_end with
  | code =>
    obtain ⟨f, hf, rfl⟩ := Option.map_eq_some_iff.1 h
    exact Fenced.length_le_of_tame hf tame
  | regexStr =>
    obtain ⟨q, hq, rfl⟩ := Option.map_eq_some_iff.1 h
    exact Quoted.length_le_of_tame hq hp tame
  | ruleRef => exact absurd rfl href
  | textEnd => exact absurd rfl ht
  | own t own =>
    rw [length?_append_of_closing hw own hp] at h
    exact length?_le h

/-- A token ends with a character that is no blank and no backslash. -/
theorem finished_lexeme (ht : t ≠ .textEnd) (href : t ≠ .ruleRef) (h : t.length? w = some n) :
    Finished (w.take n) := by
  have lexeme := length?_lexeme ht href h
  have len : (w.take n).length = n := List.length_take_of_le (length?_le h)
  rcases List.eq_nil_or_concat (w.take n) with nil | ⟨a, c, hac⟩
  · rw [nil]
    exact finished_nil
  · rw [List.concat_eq_append] at hac
    rw [hac] at lexeme len ⊢
    rw [List.length_append, List.length_singleton] at len
    refine finished_concat.2 ?_
    by_cases ha : a = []
    · subst ha
      have head := (settled_of_startsAt (startsAt_of_length? lexeme)).head
      refine ⟨head.2, ?_⟩
      rintro rfl
      have lead := lead_eq_of_length? lexeme
      revert lead
      cases t <;> decide
    · have stays (closing : Closing [c]) (tame : Tame [c]) : False := by
        have := length?_le_of_tame ht href ha tame closing lexeme
        omega
      constructor
      · rw [← Bool.not_eq_true]
        intro hc
        refine stays (closing_of_isBlank hc []) (tame_cons.2 ⟨?_, tame_nil⟩)
        exact ⟨ne_of_isBlank hc (by decide), ne_of_isBlank hc (by decide),
          ne_of_isBlank hc (by decide)⟩
      · rintro rfl
        exact stays (closing_cons.2 (by decide)) (tame_cons.2 ⟨by decide, tame_nil⟩)

theorem trimEnd_lexeme (ht : t ≠ .textEnd) (href : t ≠ .ruleRef) (h : t.length? w = some n) :
    trimEnd (w.take n) = w.take n := (finished_lexeme ht href h).trimEnd_eq

theorem finished_trimEnd_lexeme (ht : t ≠ .textEnd) (h : t.length? w = some n) :
    Finished (trimEnd (w.take n)) := by
  by_cases href : t = .ruleRef
  · subst href
    obtain ⟨m, hm, -, -, hl⟩ := Takes.reference ⟨n, h, rfl, rfl⟩
    rw [hl]
    intro c hc
    have name := isNameChar_of_mem_take hm (List.mem_of_getLast? hc)
    refine ⟨isBlank_of_isNameChar name, ?_⟩
    rintro rfl
    exact absurd name (by decide)
  · rw [trimEnd_lexeme ht href h]
    exact finished_lexeme ht href h

theorem referenceLength?_append (hp : Finished p) (hw : Closing w) (h : nameLength? p = some m)
    (hm : m < p.length) : referenceLength? (p ++ w) = referenceLength? p := by
  have ne : p ≠ [] := List.length_pos_iff.1 (Nat.zero_lt_of_lt hm)
  have behind : p.drop m ≠ [] := by
    rw [Ne, List.drop_eq_nil_iff]
    omega
  have blanks := (hp.drop m).length_blanks_lt behind
  have gap : (p.drop m ++ w).takeWhile isBlank = (p.drop m).takeWhile isBlank := by
    rw [List.takeWhile_append, if_neg (Nat.ne_of_lt blanks)]
  obtain ⟨c, rest, hrest⟩ :=
    List.exists_cons_of_ne_nil (mt List.drop_eq_nil_iff.1 (Nat.not_le.2 blanks))
  unfold referenceLength? blankedLength?
  rw [nameLength?_append_of_closing hw ne, h]
  simp only
  rw [List.drop_append_of_le_length (Nat.le_of_lt hm), gap,
    List.drop_append_of_le_length (Nat.le_of_lt blanks), hrest]
  rfl

section

variable (hs : Spacer s) (hs' : Spacer s') (hp : Finished p) (ne : p ≠ [])

include hs ne

/-- A name in front of the stretch is referred to unless a colon follows. -/
theorem startsAt_ruleRef_spacer (v : List Char) : startsAt (p ++ (s ++ v)) ruleRef ↔
    ∃ m, nameLength? p = some m ∧ (p.drop m).head? ≠ some ':' := by
  have name := nameLength?_append_of_closing (hs.closing v) ne
  constructor
  · intro h
    obtain ⟨n, hn⟩ := exists_length?_of_startsAt h
    obtain ⟨m, hm, colon, -⟩ := referenceLength?_bounds hn
    have hm' := name ▸ hm
    rw [List.drop_append_of_le_length (nameLength?_le hm')] at colon
    refine ⟨m, hm', fun head => colon ?_⟩
    rw [List.head?_append, head]
    rfl
  · rintro ⟨m, hm, colon⟩
    refine (startsAt_ruleRef (name.trans hm)).2 ?_
    rw [List.drop_append_of_le_length (nameLength?_le hm)]
    cases htail : p.drop m with
    | nil => exact fun head => (hs.closing v _ head).2.2.2.2 rfl
    | cons c tail =>
      rw [htail] at colon
      exact colon

include hs' hp

/-- The same tokens stand in front of the stretches. -/
theorem startsAt_spacer (v : List Char) (t : Token) :
    startsAt (p ++ (s ++ v)) t = startsAt (p ++ (s' ++ v)) t := by
  cases t using cases_end with
  | code =>
    simp only [startsAt, length?, Option.isSome_map]
    exact Fenced.isSome_match?_exchange hs hs' p v
  | regexStr =>
    simp only [startsAt, length?, Option.isSome_map]
    exact Quoted.isSome_match?_exchange hs hs' hp ne v
  | ruleRef =>
    rw [Bool.eq_iff_iff, startsAt_ruleRef_spacer hs ne, startsAt_ruleRef_spacer hs' ne]
  | textEnd => simp [startsAt, length?, ne]
  | own t own =>
    rw [startsAt, startsAt, length?_append_of_closing (hs.closing v) own ne,
      length?_append_of_closing (hs'.closing v) own ne]

theorem length?_spacer (href : t ≠ .ruleRef) (h : t.length? (p ++ (s ++ v)) = some n)
    (hn : n ≤ p.length) : t.length? (p ++ (s' ++ v)) = some n := by
  cases t using cases_end with
  | code =>
    obtain ⟨f, hf, rfl⟩ := Option.map_eq_some_iff.1 h
    exact Option.map_eq_some_iff.2 ⟨f, Fenced.match?_spacer hs hs' hf hn, rfl⟩
  | regexStr =>
    obtain ⟨q, hq, rfl⟩ := Option.map_eq_some_iff.1 h
    exact Option.map_eq_some_iff.2 ⟨q, Quoted.match?_spacer hs hs' hp hq hn, rfl⟩
  | ruleRef => exact absurd rfl href
  | textEnd => simp [length?, ne] at h
  | own t own =>
    rw [length?_append_of_closing (hs'.closing v) own ne]
    rwa [length?_append_of_closing (hs.closing v) own ne] at h

theorem length?_spacer_of_lt (h : t.length? (p ++ (s ++ v)) = some n) (hn : n < p.length) :
    t.length? (p ++ (s' ++ v)) = some n := by
  by_cases href : t = .ruleRef
  · subst href
    obtain ⟨m, hm, -, le, -⟩ := referenceLength?_bounds h
    rw [nameLength?_append_of_closing (hs.closing v) ne] at hm
    have inside := Nat.lt_of_le_of_lt le hn
    show referenceLength? _ = _
    rw [referenceLength?_append hp (hs'.closing v) hm inside]
    rwa [length?, referenceLength?_append hp (hs.closing v) hm inside] at h
  · exact length?_spacer hs hs' hp ne href h (Nat.le_of_lt hn)

/-- A token right in front of the stretch; a reference takes blanks of the stretch along. -/
theorem Takes.spacer {lexeme y : List Char} (h : t.Takes (p ++ (s ++ v)) lexeme y)
    (hl : trimEnd lexeme = p) : y = settle (s ++ v) ∧
      ∃ lexeme', t.Takes (p ++ (s' ++ v)) lexeme' (settle (s' ++ v)) ∧ trimEnd lexeme' = p ∧
        (t ≠ .ruleRef → lexeme' = lexeme) := by
  by_cases href : t = .ruleRef
  · subst href
    obtain ⟨m, hm, -, rfl, hname⟩ := h.reference
    rw [nameLength?_append_of_closing (hs.closing v) ne] at hm
    have le := nameLength?_le hm
    rw [hl, List.take_append_of_le_length le] at hname
    have all : m = p.length := by
      have := congrArg List.length hname
      rw [List.length_take_of_le le] at this
      exact this.symm
    subst all
    refine ⟨by rw [List.drop_left], ?_⟩
    have hm' := (nameLength?_append_of_closing (hs'.closing v) ne).trans hm
    have colon : ((p ++ (s' ++ v)).drop p.length).head? ≠ some ':' := by
      rw [List.drop_left]
      exact fun head => (hs'.closing v _ head).2.2.2.2 rfl
    obtain ⟨lexeme', takes, hl'⟩ := takes_ruleRef hm' colon
    rw [List.drop_left] at takes
    rw [List.take_left] at hl'
    exact ⟨lexeme', takes, hl', fun h => absurd rfl h⟩
  · obtain ⟨n, hn, rfl, rfl⟩ := h
    have ht : t ≠ .textEnd := by
      rintro rfl
      simp [length?, ne] at hn
    rw [trimEnd_lexeme ht href hn] at hl
    have all : n = p.length := by
      have := congrArg List.length hl
      rwa [List.length_take_of_le (length?_le hn)] at this
    subst all
    have kept := length?_spacer hs hs' hp ne href hn (Nat.le_refl _)
    refine ⟨by rw [List.drop_left], p, ⟨p.length, kept, ?_, ?_⟩, hp.trimEnd_eq, fun _ => hl.symm⟩
    · rw [List.take_left]
    · rw [List.drop_left]

end

end Token

end GrammarKit
