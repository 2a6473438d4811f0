import GrammarKit.Proofs.Token.Spacer
import GrammarKit.Proofs.Token.Tiling

/-!
Cutting a text behind a line feed. If the tokens in front of the cut end at it, then the same tokens
stand there whatever follows the cut: a literal or a block of code that is opened in front of it is
closed there. It may still close further on if something else follows, since longer quotes and fences
are tried first; but if the tokens end at the cut again, then they are the same.
-/

namespace GrammarKit

variable {p q v w : List Char}

def Lined (p : List Char) : Prop := ∀ c, p.getLast? = some c → c = '\n'

instance (p : List Char) : Decidable (Lined p) :=
  decidable_of_iff (p.getLast?.all (· == '\n')) (by simp [Lined, Option.all_eq_true])

theorem Lined.exists_eq (h : Lined p) (ne : p ≠ []) : ∃ front, p = front ++ ['\n'] := by
  obtain ⟨front, c, rfl⟩ := (List.eq_nil_or_concat p).resolve_left ne
  rw [List.concat_eq_append] at h
  rw [List.concat_eq_append, h c List.getLast?_concat]
  exact ⟨front, rfl⟩

theorem Lined.of_suffix (h : Lined p) (suffix : q <:+ p) : Lined q := by
  obtain ⟨front, rfl⟩ := suffix
  intro c hc
  exact h c (by rw [List.getLast?_append, hc]; rfl)

/-- A line feed closes every comment, so the layout behind it does not depend on the text in front. -/
theorem settle_line (front : List Char) : (∀ w, settle (front ++ '\n' :: w) = settle w) ∨
    ∃ c cs, ∀ w, settle (front ++ '\n' :: w) = c :: cs ++ '\n' :: w := by
  rcases behindLayout_append false front with ⟨b, skips⟩ | ⟨c, cs, stops⟩
  · refine .inl fun w => ?_
    rw [settle_eq_behindLayout, skips]
    cases b with
    | false => exact settle_line_feed w
    | true => simp [behindLayout_comment, settle_eq_behindLayout]
  · exact .inr ⟨c, cs, fun w => stops _⟩

/-- What layout is skipped in front of a cut behind a line feed does not depend on what follows. -/
theorem Lined.settle_append (h : Lined p) (hv : Settled v) (hw : Settled w)
    (stop : settle (p ++ v) = q ++ v) : settle (p ++ w) = q ++ w := by
  have none (hq : v = q ++ v) : settle w = q ++ w := by
    rw [List.self_eq_append_left.1 hq]
    exact hw
  by_cases ne : p = []
  · subst ne
    exact none (hv.eq.symm.trans stop)
  · obtain ⟨front, rfl⟩ := h.exists_eq ne
    rw [List.append_assoc, List.singleton_append] at stop ⊢
    rcases settle_line front with skips | ⟨c, cs, stops⟩
    · rw [skips] at stop ⊢
      exact none (hv.eq.symm.trans stop)
    · have all : c :: cs ++ ['\n'] ++ v = q ++ v := by
        rw [← stop, stops, List.append_assoc]
        rfl
      rw [stops, ← List.append_cancel_right all, List.append_assoc]
      rfl

theorem inside_of_suffix {n : Nat} (le : n ≤ (p ++ v).length)
    (h : v <:+ settle ((p ++ v).drop n)) : n ≤ p.length := by
  have left := h.length_le.trans (settle_suffix _).length_le
  rw [List.length_drop, List.length_append] at left
  rw [List.length_append] at le
  omega

namespace Token

/-- Numbers and names, words and marks that end in front of a cut behind a line feed do not depend on
what follows it. -/
theorem length?_line {t : Token} (own : EndsByItself t) {front : List Char} (ne : front ≠ [])
    (w : List Char) : t.length? (front ++ ['\n'] ++ w) = t.length? front := by
  rw [List.append_assoc]
  exact length?_append_of_closing (closing_line_feed w) own ne

theorem startsAt_ruleRef_line {front : List Char} (ne : front ≠ []) (v w : List Char) :
    startsAt (front ++ ['\n'] ++ v) .ruleRef = startsAt (front ++ ['\n'] ++ w) .ruleRef := by
  have line : Spacer ['\n'] := ⟨by decide, '\n', [], rfl, .inl (by decide)⟩
  rw [List.append_assoc, List.append_assoc, Bool.eq_iff_iff, startsAt_ruleRef_spacer line ne,
    startsAt_ruleRef_spacer line ne]

end Token

namespace Tiled

/-- Where the cut lies further on, a token ends in front of it. -/
theorem exists_head (h : Tiled (p ++ v) v) (ne : p ≠ []) : ∃ (t : Token) (n : Nat) (q : List Char),
    t.length? (p ++ v) = some n ∧ n ≤ p.length ∧ settle (p.drop n ++ v) = q ++ v ∧
      Tiled (q ++ v) v := by
  obtain ⟨y, ⟨t, lexeme, n, hn, -, rfl⟩, rest⟩ := h.exists_joins (mt List.append_left_eq_self.1 ne)
  obtain ⟨q, hq⟩ := rest.suffix
  have inside := inside_of_suffix (Token.length?_le hn) rest.suffix
  rw [List.drop_append_of_le_length inside] at hq rest
  exact ⟨t, n, q, hn, inside, hq.symm, by rwa [hq]⟩

open Token

/-- The stretch in front of the cut is a token and a line feed at least. -/
theorem exists_front (h : Tiled (p ++ v) v) (lined : Lined p) (ne : p ≠ []) :
    ∃ front, front ≠ [] ∧ p = front ++ ['\n'] := by
  have settled := h.settled (mt List.append_left_eq_self.1 ne)
  obtain ⟨front, rfl⟩ := lined.exists_eq ne
  refine ⟨front, ?_, rfl⟩
  rintro rfl
  exact absurd (Settled.head settled).2 (by decide)

/-- Whichever token is taken first, it ends in front of the cut. -/
theorem cut_behind (h : Tiled (p ++ v) v) (lined : Lined p) (ne : p ≠ []) {y : List Char}
    (joins : Joins (p ++ v) y) : Tiled y v := by
  obtain ⟨front, hfront, rfl⟩ := h.exists_front lined ne
  obtain ⟨c, front, rfl⟩ := List.exists_cons_of_ne_nil hfront
  refine h.behind (mt List.append_left_eq_self.1 ne) (fun far => ?_) joins
  have short := congrArg List.length far
  simp only [List.cons_append, List.tail_cons, List.length_append, List.length_cons] at short
  omega

theorem inside (h : Tiled (p ++ v) v) (lined : Lined p) (ne : p ≠ []) {t : Token} {n : Nat}
    (hn : t.length? (p ++ v) = some n) : n ≤ p.length :=
  inside_of_suffix (length?_le hn) (h.cut_behind lined ne ⟨t, _, n, hn, rfl, rfl⟩).suffix

/-- A quotation mark in front of the cut opens a literal, whatever follows. -/
theorem startsAt_mark {m : Char} (hm : m = '\'' ∨ m = '"') (h : Tiled (m :: p ++ v) v)
    (w : List Char) : (Quoted.match? (m :: p ++ w)).isSome := by
  obtain ⟨t, n, -, hn, inside, -⟩ := h.exists_head (List.cons_ne_nil m p)
  cases eq_regexStr_of_mark hm hn
  obtain ⟨q, hq, rfl⟩ := Option.map_eq_some_iff.1 hn
  exact Quoted.exists_match?_of_length_le hq inside w

/-- An `r` in front of a quotation mark belongs to the literal, whether it is taken for a part of it
or not. -/
theorem startsAt_raw {m : Char} (hm : m = '\'' ∨ m = '"') (h : Tiled ('r' :: m :: p ++ v) v)
    (w : List Char) : (Quoted.match? ('r' :: m :: p ++ w)).isSome := by
  obtain ⟨stop, blank, hash, ne⟩ := mark_stops hm
  obtain ⟨t, n, q, hn, inside, behind, rest⟩ := h.exists_head (List.cons_ne_nil 'r' _)
  have name (k : Nat) (hk : nameLength? ('r' :: m :: p ++ v) = some k) : k = 1 := by
    obtain ⟨_, _, ⟨⟩, -, rfl⟩ := nameLength?_eq_some.1 hk
    simp [stop]
  -- Behind the name the mark itself opens a literal.
  have named (hn : n = 1) : (Quoted.match? ('r' :: m :: p ++ w)).isSome := by
    subst hn
    rw [List.drop_one, List.tail_cons, List.cons_append, (settled_cons hash blank _).eq] at behind
    rw [← behind] at rest
    rw [List.cons_append, List.cons_append, Quoted.match?_raw ne, Option.isSome_map]
    exact startsAt_mark hm rest w
  have lead := lead_eq_of_length? hn
  cases t with
  | regexStr =>
    obtain ⟨q, hq, rfl⟩ := Option.map_eq_some_iff.1 hn
    exact Quoted.exists_match?_of_length_le hq inside w
  | ruleName => exact named (name n hn)
  | ruleRef =>
    have hr : referenceLength? ('r' :: m :: p ++ v) = some n := hn
    obtain ⟨k, hk, -, le, gap⟩ := referenceLength?_bounds hr
    cases name k hk
    have none : (('r' :: m :: p ++ v).drop 1).takeWhile isBlank = [] := by simp [blank]
    rw [none, List.length_nil] at gap
    exact named (by omega)
  | litBool => exact absurd (head_of_startsAt_litBool (startsAt_of_length? hn)) (by decide)
  | litNone => exact absurd (head_of_startsAt_litNone (startsAt_of_length? hn)) (by decide)
  | _ => exact absurd lead (by decide)

/-- A literal that is opened in front of the cut is closed, whatever follows. -/
theorem isSome_quoted (h : Tiled (p ++ v) v) (lined : Lined p) (ne : p ≠ []) {x : List Char}
    (hx : (Quoted.match? (p ++ x)).isSome) (w : List Char) : (Quoted.match? (p ++ w)).isSome := by
  obtain ⟨c, p, rfl⟩ := List.exists_cons_of_ne_nil ne
  rcases head_of_match?_quoted hx with hc | ⟨rfl, m, rest, hm, hp⟩
  · exact startsAt_mark hc h w
  · cases p with
    | nil => exact absurd (lined 'r' rfl) (by decide)
    | cons d p =>
      cases hp
      exact startsAt_raw hm h w

theorem isSome_fenced (h : Tiled (p ++ v) v) (ne : p ≠ []) {x : List Char}
    (hx : (Fenced.match? (p ++ x)).isSome) (w : List Char) : (Fenced.match? (p ++ w)).isSome := by
  obtain ⟨t, n, -, hn, inside, -⟩ := h.exists_head ne
  obtain ⟨f, hf⟩ := Option.isSome_iff_exists.1 hx
  have hc : Token.code.length? (p ++ x) = some f.length := Option.map_eq_some_iff.2 ⟨f, hf, rfl⟩
  obtain ⟨c, p, rfl⟩ := List.exists_cons_of_ne_nil ne
  have lead : t.lead = Token.code.lead :=
    (lead_eq_of_length? hn).trans (lead_eq_of_length? hc).symm
  cases t with
  | code =>
    obtain ⟨f, hf, rfl⟩ := Option.map_eq_some_iff.1 hn
    exact Fenced.exists_match?_of_length_le hf inside w
  | _ => exact absurd lead (by decide)

/-- The same tokens stand in front of the cut, whatever follows. -/
theorem startsAt_eq (h : Tiled (p ++ v) v) (lined : Lined p) (ne : p ≠ []) (w : List Char) :
    startsAt (p ++ v) = startsAt (p ++ w) := by
  obtain ⟨front, hfront, hp⟩ := h.exists_front lined ne
  funext t
  cases t using cases_end with
  | code =>
    simp only [startsAt, length?, Option.isSome_map]
    exact Bool.eq_iff_iff.2 ⟨fun hx => h.isSome_fenced ne hx w, fun hx => h.isSome_fenced ne hx v⟩
  | regexStr =>
    simp only [startsAt, length?, Option.isSome_map]
    exact Bool.eq_iff_iff.2
      ⟨fun hx => h.isSome_quoted lined ne hx w, fun hx => h.isSome_quoted lined ne hx v⟩
  | ruleRef =>
    rw [hp]
    exact startsAt_ruleRef_line hfront v w
  | textEnd => simp [startsAt, length?, ne]
  | own t own => rw [hp, startsAt, startsAt, length?_line own hfront, length?_line own hfront]

/-- So they have the same lengths, if they end at the cut either way. -/
theorem length?_eq (h : Tiled (p ++ v) v) (k : Tiled (p ++ w) w) (lined : Lined p) (ne : p ≠ [])
    {t : Token} (href : t ≠ .ruleRef) {n m : Nat} (hn : t.length? (p ++ v) = some n)
    (hm : t.length? (p ++ w) = some m) : n = m := by
  obtain ⟨front, hfront, hp⟩ := h.exists_front lined ne
  have inside := h.inside lined ne hn
  have inside' := k.inside lined ne hm
  cases t using cases_end with
  | code =>
    obtain ⟨a, ha, rfl⟩ := Option.map_eq_some_iff.1 hn
    obtain ⟨b, hb, rfl⟩ := Option.map_eq_some_iff.1 hm
    rw [Fenced.match?_unique ha inside hb inside']
  | regexStr =>
    obtain ⟨a, ha, rfl⟩ := Option.map_eq_some_iff.1 hn
    obtain ⟨b, hb, rfl⟩ := Option.map_eq_some_iff.1 hm
    rw [Quoted.match?_unique ha inside hb inside']
  | ruleRef => exact absurd rfl href
  | textEnd => simp [length?, ne] at hn
  | own t own =>
    rw [hp, length?_line own hfront] at hn hm
    exact Option.some.inj (hn.symm.trans hm)

theorem takes_reference (h : Tiled (p ++ v) v) (lined : Lined p) (ne : p ≠ []) (hv : Settled v)
    (hw : Settled w) {lexeme : List Char} (takes : ruleRef.Takes (p ++ v) lexeme (q ++ v)) :
    ∃ lexeme', ruleRef.Takes (p ++ w) lexeme' (q ++ w) ∧ trimEnd lexeme = trimEnd lexeme' := by
  obtain ⟨front, hfront, rfl⟩ := h.exists_front lined ne
  have name (x : List Char) : nameLength? (front ++ ['\n'] ++ x) = nameLength? front := by
    rw [List.append_assoc]
    exact nameLength?_append_of_closing (closing_line_feed x) hfront
  obtain ⟨m, hm, -, hq, hl⟩ := takes.reference
  rw [name] at hm
  have le : m ≤ (front ++ ['\n']).length :=
    (nameLength?_le hm).trans (List.prefix_append front ['\n']).length_le
  have refers := (startsAt_ruleRef_line hfront v w).symm.trans takes.startsAt
  rw [startsAt_ruleRef ((name w).trans hm)] at refers
  obtain ⟨lexeme', takes', hl'⟩ := takes_ruleRef ((name w).trans hm) refers
  rw [List.drop_append_of_le_length le] at hq takes'
  rw [(lined.of_suffix (List.drop_suffix _ _)).settle_append hv hw hq.symm] at takes'
  rw [List.take_append_of_le_length le] at hl hl'
  exact ⟨lexeme', takes', hl.trans hl'.symm⟩

theorem takes_token (h : Tiled (p ++ v) v) (k : Tiled (p ++ w) w) (lined : Lined p) (ne : p ≠ [])
    (hv : Settled v) (hw : Settled w) {t : Token} (href : t ≠ .ruleRef) {lexeme : List Char}
    (takes : t.Takes (p ++ v) lexeme (q ++ v)) : t.Takes (p ++ w) lexeme (q ++ w) := by
  have stands := takes.startsAt
  rw [h.startsAt_eq lined ne w] at stands
  obtain ⟨m, hm⟩ := exists_length?_of_startsAt stands
  obtain ⟨n, hn, rfl, hq⟩ := takes
  have le := h.inside lined ne hn
  cases h.length?_eq k lined ne href hn hm
  rw [List.drop_append_of_le_length le] at hq
  refine ⟨m, hm, ?_, ?_⟩
  · rw [List.take_append_of_le_length le, List.take_append_of_le_length le]
  · rw [List.drop_append_of_le_length le,
      (lined.of_suffix (List.drop_suffix _ _)).settle_append hv hw hq.symm]

/-- The token in front of the cut, and what is left behind it and its layout. If the tokens end at
the cut either way, it is the same token whatever follows; a reference may take other blanks along. -/
theorem exists_takes (h : Tiled (p ++ v) v) (k : Tiled (p ++ w) w) (lined : Lined p) (ne : p ≠ [])
    (hv : Settled v) (hw : Settled w) {t : Token} {lexeme y : List Char}
    (takes : t.Takes (p ++ v) lexeme y) : ∃ q lexeme', y = q ++ v ∧ Tiled (q ++ w) w ∧
      t.Takes (p ++ w) lexeme' (q ++ w) ∧ trimEnd lexeme = trimEnd lexeme' ∧
      (t ≠ .ruleRef → lexeme = lexeme') := by
  obtain ⟨q, rfl⟩ := (h.cut_behind lined ne ⟨t, lexeme, takes⟩).suffix
  by_cases href : t = .ruleRef
  · subst href
    obtain ⟨lexeme', takes', name⟩ := h.takes_reference lined ne hv hw takes
    exact ⟨q, lexeme', rfl, k.cut_behind lined ne ⟨_, _, takes'⟩, takes', name,
      fun href => absurd rfl href⟩
  · have takes' := h.takes_token k lined ne hv hw href takes
    exact ⟨q, lexeme, rfl, k.cut_behind lined ne ⟨_, _, takes'⟩, takes', rfl, fun _ => rfl⟩

end Tiled

end GrammarKit
