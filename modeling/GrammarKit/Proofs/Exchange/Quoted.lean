import GrammarKit.Proofs.Exchange.Plain

/-!
Exchanging what follows a quoted literal. The quotes are tried in turn, and one that was tried in
vain may have looked for its end far behind the literal; a tame text does not offer it one.
-/

namespace GrammarKit

namespace Quote

variable {p v w : List Char} {quote : Quote} {n b : Nat}

theorem mem_chars {c : Char} (h : c ∈ quote.chars) : c = '\'' ∨ c = '"' := by
  cases quote <;> simp_all [chars]

theorem length_pos (quote : Quote) : 0 < quote.chars.length := by cases quote <;> decide

theorem prefix_of_head (h : quote.chars <+: p ++ w)
    (hw : ∀ c, w.head? = some c → c ≠ '\'' ∧ c ≠ '"') : quote.chars <+: p :=
  prefix_of_stop h fun c hc head => by
    have := mem_chars hc
    have := hw c head
    simp_all

theorem prefix_of_tame (h : quote.chars <+: p ++ w) (hw : Tame w) : quote.chars <+: p :=
  prefix_of_head h fun c hc => ⟨(hw c (List.mem_of_mem_head? hc)).1,
    (hw c (List.mem_of_mem_head? hc)).2.1⟩

theorem go_of_closing {cs : List Char} (h : quote.chars <+: cs) (n : Nat) :
    bodyLength?.go quote cs n = some n := by
  have hp := List.isPrefixOf_iff_prefix.2 h
  match cs with
  | [] =>
    have le := h.length_le
    have pos := quote.length_pos
    rw [List.length_nil] at le
    omega
  | [c] => rw [bodyLength?.go, if_pos hp]
  | c :: e :: cs => rw [bodyLength?.go, if_pos hp]

theorem go_escape {e : Char} {cs : List Char} (h : ¬quote.chars <+: '\\' :: e :: cs)
    (he : e ≠ '\n') (n : Nat) :
    bodyLength?.go quote ('\\' :: e :: cs) n = bodyLength?.go quote cs (n + 2) := by
  rw [bodyLength?.go, if_neg (fun hp => h (List.isPrefixOf_iff_prefix.1 hp)), if_pos rfl, if_neg he]

theorem go_plain {c : Char} {cs : List Char} (h : ¬quote.chars <+: c :: cs) (hc : c ≠ '\\')
    (n : Nat) : bodyLength?.go quote (c :: cs) n = bodyLength?.go quote cs (n + 1) := by
  have hp := fun hp => h (List.isPrefixOf_iff_prefix.1 hp)
  cases cs with
  | nil => simp only [bodyLength?.go, if_neg hp, if_neg hc]
  | cons e cs => rw [bodyLength?.go, if_neg hp, if_neg hc]

theorem go_add (quote : Quote) (cs : List Char) (m n : Nat) :
    bodyLength?.go quote cs (m + n) = (bodyLength?.go quote cs m).map (· + n) := by
  fun_induction bodyLength?.go quote cs m with
  | case1 => rfl
  | case2 c cs m hp => exact go_of_closing (List.isPrefixOf_iff_prefix.1 hp) _
  | case3 m hp => rw [bodyLength?.go, if_neg hp, if_pos rfl]; rfl
  | case4 m cs hp => rw [bodyLength?.go, if_neg hp, if_pos rfl, if_pos rfl]; rfl
  | case5 m e cs he hp ih =>
    rw [List.isPrefixOf_iff_prefix] at hp
    rw [go_escape hp he, Nat.add_right_comm, ih]
  | case6 c cs m hp hc ih =>
    rw [List.isPrefixOf_iff_prefix] at hp
    rw [go_plain hp hc, Nat.add_right_comm, ih]

/-- A body is read up to a closing quote, past an escape or past a character of its own, or it is
not read at all. -/
theorem go_induct (quote : Quote) {motive : List Char → Nat → Prop}
    (stuck : ∀ cs n, bodyLength?.go quote cs n = none → motive cs n)
    (close : ∀ cs n, quote.chars <+: cs → motive cs n)
    (escape : ∀ e cs n, ¬quote.chars <+: '\\' :: e :: cs → e ≠ '\n' → motive cs (n + 2) →
      motive ('\\' :: e :: cs) n)
    (plain : ∀ c cs n, ¬quote.chars <+: c :: cs → c ≠ '\\' → motive cs (n + 1) →
      motive (c :: cs) n)
    (cs : List Char) (n : Nat) : motive cs n := by
  induction h : cs.length using Nat.strongRecOn generalizing cs n with
  | ind len ih =>
    by_cases hp : quote.chars <+: cs
    · exact close cs n hp
    · have open' : ¬quote.chars.isPrefixOf cs := fun h => hp (List.isPrefixOf_iff_prefix.1 h)
      cases cs with
      | nil => exact stuck [] n rfl
      | cons c cs =>
        rw [List.length_cons] at h
        by_cases hc : c = '\\'
        · subst hc
          cases cs with
          | nil => exact stuck _ n (by rw [bodyLength?.go, if_neg open', if_pos rfl])
          | cons e cs =>
            rw [List.length_cons] at h
            by_cases he : e = '\n'
            · exact stuck _ n (by rw [bodyLength?.go, if_neg open', if_pos rfl, if_pos he])
            · exact escape e cs n hp he (ih cs.length (by omega) cs (n + 2) rfl)
        · exact plain c cs n hp hc (ih cs.length (by omega) cs (n + 1) rfl)

theorem go_bounds {cs : List Char} (h : bodyLength?.go quote cs n = some b) :
    n ≤ b ∧ b + quote.chars.length ≤ n + cs.length := by
  induction cs, n using go_induct quote with
  | stuck cs n dead =>
    rw [dead] at h
    cases h
  | close cs n hp =>
    rw [go_of_closing hp] at h
    cases h
    have := hp.length_le
    omega
  | escape e cs n hp he ih =>
    rw [go_escape hp he] at h
    have := ih h
    simp only [List.length_cons]
    omega
  | plain c cs n hp hc ih =>
    rw [go_plain hp hc] at h
    have := ih h
    simp only [List.length_cons]
    omega

theorem chars_prefix_exchange (h : quote.chars <+: p ++ v) (hl : quote.chars.length ≤ p.length)
    (w : List Char) : quote.chars <+: p ++ w :=
  (List.prefix_of_prefix_length_le h (List.prefix_append p v) hl).trans (List.prefix_append p w)

/-- A body whose closing quote ends in the stretch. -/
theorem go_exchange (h : bodyLength?.go quote (p ++ v) n = some b)
    (hb : b + quote.chars.length ≤ n + p.length) : bodyLength?.go quote (p ++ w) n = some b := by
  generalize hcs : p ++ v = cs at h
  induction cs, n using go_induct quote generalizing p with
  | stuck cs n dead =>
    rw [dead] at h
    cases h
  | close cs n hp =>
    rw [go_of_closing hp] at h
    cases h
    rw [← hcs] at hp
    exact go_of_closing (chars_prefix_exchange hp (by omega) w) _
  | escape e cs n hp he ih =>
    rw [go_escape hp he] at h
    have := (go_bounds h).1
    match p, hcs with
    | [], _ => rw [List.length_nil] at hb; omega
    | [_], _ => rw [List.length_singleton] at hb; omega
    | c :: d :: p, hcs =>
      simp only [List.cons_append, List.cons.injEq] at hcs
      obtain ⟨rfl, rfl, rfl⟩ := hcs
      simp only [List.length_cons] at hb
      have hq : ¬quote.chars <+: '\\' :: d :: (p ++ w) :=
        fun hq => hp (chars_prefix_exchange (p := '\\' :: d :: p) hq (by simp; omega) v)
      rw [List.cons_append, List.cons_append, go_escape hq he]
      exact ih (by omega) rfl h
  | plain c cs n hp hc ih =>
    rw [go_plain hp hc] at h
    have := (go_bounds h).1
    match p, hcs with
    | [], _ => rw [List.length_nil] at hb; omega
    | d :: p, hcs =>
      simp only [List.cons_append, List.cons.injEq] at hcs
      obtain ⟨rfl, rfl⟩ := hcs
      rw [List.length_cons] at hb
      have hq : ¬quote.chars <+: d :: (p ++ w) :=
        fun hq => hp (chars_prefix_exchange (p := d :: p) hq (by simp; omega) v)
      rw [List.cons_append, go_plain hq hc]
      exact ih (by omega) rfl h

theorem go_tame (hw : Tame w) (n : Nat) : bodyLength?.go quote w n = none := by
  have none : ∀ {cs}, Tame cs → ¬quote.chars <+: cs := by
    intro cs hcs hp
    have le := (prefix_of_tame (p := []) hp hcs).length_le
    have pos := quote.length_pos
    rw [List.length_nil] at le
    omega
  induction w, n using go_induct quote with
  | stuck cs n dead => exact dead
  | close cs n hp => exact absurd hp (none hw)
  | escape e cs n hp he ih =>
    rw [go_escape hp he]
    exact ih (tame_cons.1 (tame_cons.1 hw).2).2
  | plain c cs n hp hc ih =>
    rw [go_plain hp hc]
    exact ih (tame_cons.1 hw).2

/-- A literal that is open at the start of the stretch closes in it or not at all, if the text
behind is tame. -/
theorem go_le_of_tame (h : bodyLength?.go quote (p ++ w) n = some b) (hw : Tame w) :
    b + quote.chars.length ≤ n + p.length := by
  generalize hcs : p ++ w = cs at h
  induction cs, n using go_induct quote generalizing p with
  | stuck cs n dead =>
    rw [dead] at h
    cases h
  | close cs n hp =>
    rw [go_of_closing hp] at h
    cases h
    rw [← hcs] at hp
    have := (prefix_of_tame hp hw).length_le
    omega
  | escape e cs n hp he ih =>
    rw [go_escape hp he] at h
    match p, hcs with
    | [], hcs =>
      subst hcs
      rw [go_tame (tame_cons.1 (tame_cons.1 hw).2).2] at h
      cases h
    | [c], hcs =>
      simp only [List.cons_append, List.nil_append, List.cons.injEq] at hcs
      obtain ⟨rfl, rfl⟩ := hcs
      rw [go_tame (tame_cons.1 hw).2] at h
      cases h
    | c :: d :: p, hcs =>
      simp only [List.cons_append, List.cons.injEq] at hcs
      have := ih hcs.2.2 h
      simp only [List.length_cons]
      omega
  | plain c cs n hp hc ih =>
    rw [go_plain hp hc] at h
    match p, hcs with
    | [], hcs =>
      subst hcs
      rw [go_tame (tame_cons.1 hw).2] at h
      cases h
    | d :: p, hcs =>
      simp only [List.cons_append, List.cons.injEq] at hcs
      have := ih hcs.2 h
      simp only [List.length_cons]
      omega

end Quote

namespace Quoted

variable {p v w : List Char} {raw : Bool} {quote : Quote} {q : Quoted}

theorem withQuote?_eq_some {cs : List Char} : withQuote? raw cs quote = some q ↔
    q.raw = raw ∧ q.quote = quote ∧ quote.chars <+: cs ∧
      quote.bodyLength? (cs.drop quote.chars.length) = some q.bodyLength := by
  unfold withQuote?
  constructor
  · intro h
    split at h
    · rename_i hp
      obtain ⟨n, hn, rfl⟩ := Option.map_eq_some_iff.1 h
      exact ⟨rfl, rfl, List.isPrefixOf_iff_prefix.1 hp, hn⟩
    · cases h
  · rintro ⟨rfl, rfl, hp, hn⟩
    rw [if_pos (List.isPrefixOf_iff_prefix.2 hp), hn]
    rfl

theorem withQuote?_exchange (h : withQuote? raw (p ++ v) quote = some q)
    (hl : q.quote.chars.length + q.bodyLength + q.quote.chars.length ≤ p.length) :
    withQuote? raw (p ++ w) quote = some q := by
  obtain ⟨hraw, rfl, hp, hn⟩ := withQuote?_eq_some.1 h
  have le : q.quote.chars.length ≤ p.length := by omega
  refine withQuote?_eq_some.2 ⟨hraw, rfl, Quote.chars_prefix_exchange hp le w, ?_⟩
  rw [List.drop_append_of_le_length le] at hn ⊢
  exact Quote.go_exchange hn (by rw [List.length_drop]; omega)

theorem withQuote?_le_of_tame (h : withQuote? raw (p ++ w) quote = some q) (hw : Tame w) :
    q.quote.chars.length + q.bodyLength + q.quote.chars.length ≤ p.length := by
  obtain ⟨-, rfl, hp, hn⟩ := withQuote?_eq_some.1 h
  have le := (Quote.prefix_of_tame hp hw).length_le
  rw [List.drop_append_of_le_length le] at hn
  have := Quote.go_le_of_tame hn hw
  rw [List.length_drop] at this
  omega

theorem ne_nil_of_length_le (hl : q.length ≤ p.length) : p ≠ [] := by
  have pos := q.quote.length_pos
  rintro rfl
  rw [length, List.length_nil] at hl
  omega

theorem findSome?_exchange {f g : Quote → Option Quoted} {quotes : List Quote}
    (h : quotes.findSome? f = some q) (miss : ∀ quote, f quote = none → g quote = none)
    (hit : ∀ quote, f quote = some q → g quote = some q) : quotes.findSome? g = some q := by
  induction quotes with
  | nil => cases h
  | cons quote quotes ih =>
    rw [List.findSome?_cons] at h ⊢
    cases hf : f quote with
    | some q' =>
      rw [hf] at h
      cases h
      rw [hit quote hf]
    | none =>
      rw [hf] at h
      rw [miss quote hf]
      exact ih h

/-- Whether a literal is raw does not depend on what follows its first character. -/
theorem match?_append (hp : p ≠ []) : ∃ raw s, s <:+ p ∧ s.length + raw.toNat = p.length ∧
    ∀ w, match? (p ++ w) = Quote.all.findSome? (withQuote? raw (s ++ w)) := by
  obtain ⟨c, p, rfl⟩ := List.exists_cons_of_ne_nil hp
  have le : (some c == some 'r').toNat ≤ (c :: p).length :=
    Nat.le_trans (Bool.toNat_le _) (Nat.le_add_left 1 p.length)
  refine ⟨some c == some 'r', (c :: p).drop (some c == some 'r').toNat, List.drop_suffix _ _, ?_,
    fun w => ?_⟩
  · rw [List.length_drop, Nat.sub_add_cancel le]
  · rw [← List.drop_append_of_le_length le]
    rfl

/-- A literal that ends in the stretch. Quotes that were tried before and did not close do not close
now. -/
theorem match?_exchange (h : match? (p ++ v) = some q) (hl : q.length ≤ p.length) (hw : Tame w) :
    match? (p ++ w) = some q := by
  obtain ⟨raw, s, -, len, tries⟩ := match?_append (ne_nil_of_length_le hl)
  rw [tries] at h ⊢
  obtain ⟨quote, -, hq⟩ := List.exists_of_findSome?_eq_some h
  rw [length, bodyStart, (withQuote?_eq_some.1 hq).1] at hl
  refine findSome?_exchange h (fun quote miss => ?_) fun quote hit =>
    withQuote?_exchange hit (by omega)
  cases hnew : withQuote? raw (s ++ w) quote with
  | none => rfl
  | some q' =>
    rw [withQuote?_exchange hnew (withQuote?_le_of_tame hnew hw)] at miss
    cases miss

/-- A literal in front of a tame text does not reach into it. -/
theorem length_le_of_tame (h : match? (p ++ w) = some q) (hp : p ≠ []) (hw : Tame w) :
    q.length ≤ p.length := by
  obtain ⟨raw, s, -, len, tries⟩ := match?_append hp
  rw [tries] at h
  obtain ⟨quote, -, hq⟩ := List.exists_of_findSome?_eq_some h
  have inside := withQuote?_le_of_tame hq hw
  rw [length, bodyStart, (withQuote?_eq_some.1 hq).1]
  omega

/-- A tame text adds nothing to what is quoted in front of it. -/
theorem exists_match?_of_tame (h : match? (p ++ w) = some q) (hp : p ≠ []) (hw : Tame w)
    (v : List Char) : ∃ q', match? (p ++ v) = some q' := by
  obtain ⟨raw, s, -, -, tries⟩ := match?_append hp
  rw [tries] at h
  obtain ⟨quote, mem, hq⟩ := List.exists_of_findSome?_eq_some h
  have hit := withQuote?_exchange (w := v) hq (withQuote?_le_of_tame hq hw)
  rw [tries, ← Option.isSome_iff_exists, List.isSome_findSome?, List.any_eq_true]
  exact ⟨quote, mem, by rw [hit]; rfl⟩

end Quoted

end GrammarKit
