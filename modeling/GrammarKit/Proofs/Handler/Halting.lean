import GrammarKit.Proofs.Handler.Consumed

/-!
What ends a session without an answer. Main statement: a handler breaks off exactly where it has
consumed a block of code that no text can be cut from.
-/

namespace GrammarKit

def Uncut (cs : List Char) : Prop :=
  ∃ n, Token.code.length? cs = some n ∧ Fenced.body? (cs.take n) = none

namespace Handler

variable {α β : Type} {h : Handler α} {f : α → Handler β}

/-- A handler breaks off behind a block of code that has no text, and nowhere else unless its bound
is reached. -/
@[simp] def Halts {α : Type} : Handler α → Prop
  | done _ => True
  | reraise _ => True
  | abort why => why = .exhausted
  | peek _ _ k => ∀ t, (k t).Halts
  | consume t k => (∀ e, (k (.error e)).Halts) ∧ ∀ l,
      if t = .code ∧ Fenced.body? l = none then k (.ok l) = abort .unevenFence else (k (.ok l)).Halts
  | fail _ k => ∀ e, (k e).Halts
  | invoke _ body k => body.Halts ∧ ∀ r, (k r).Halts
  | attempt _ body k => body.Halts ∧ ∀ r, (k r).Halts

theorem halts_ofExcept_bind : (∀ r, ((ofExcept r).bind f).Halts) ↔ ∀ a, (f a).Halts := by
  constructor
  · exact fun halts a => halts (.ok a)
  · intro halts r
    cases r with
    | error e => trivial
    | ok a => exact halts a

@[simp] theorem halts_refuse (tried : List Token) : (refuse tried : Handler α).Halts := by
  simp [refuse]

@[simp] theorem halts_ite (c : Prop) [Decidable c] (a b : Handler α) :
    (if c then a else b).Halts ↔ (c → a.Halts) ∧ (¬c → b.Halts) := by
  split <;> simp_all

@[simp] theorem halts_call_bind (rule : Rule) (body : Handler α) :
    ((call rule body).bind f).Halts ↔ body.Halts ∧ ∀ a, (f a).Halts := by
  rw [← halts_ofExcept_bind]
  rfl

@[simp] theorem halts_call (rule : Rule) (body : Handler α) :
    (call rule body).Halts ↔ body.Halts := by
  rw [← bind_done (call rule body), halts_call_bind]
  simp

@[simp] theorem halts_look_bind (candidates : List Token) (f : Option Token → Handler β) :
    ((look candidates).bind f).Halts ↔ ∀ t, (f t).Halts := Iff.rfl

@[simp] theorem halts_lookBranch_bind (candidates : List Token) (f : Option Token → Handler β) :
    ((lookBranch candidates).bind f).Halts ↔ ∀ t, (f t).Halts := Iff.rfl

@[simp] theorem halts_expect_bind (candidates : List Token) (f : Token → Handler β) :
    ((expect candidates).bind f).Halts ↔ ∀ t, (f t).Halts := by
  constructor
  · exact fun halts t => halts (some t)
  · intro halts t
    cases t with
    | none => simp
    | some t => exact halts t

@[simp] theorem halts_lexeme_bind (t : Token) (f : List Char → Handler β) :
    ((lexeme t).bind f).Halts ↔ ∀ l,
      if t = .code ∧ Fenced.body? l = none then f l = abort .unevenFence else (f l).Halts :=
  ⟨And.right, And.intro fun _ => trivial⟩

/-- Breaking off is consuming a block of code that has no text. -/
theorem Halts.exec_eq_unevenFence (hh : h.Halts) (s : Session) :
    h.exec s = .error .unevenFence ↔ ∃ cs, (Token.code, cs) ∈ h.consumed s ∧ Uncut cs := by
  induction h generalizing s with
  | done a => simp [exec, consumed]
  | reraise e => simp [exec, consumed]
  | abort why => simp_all [exec, consumed]
  | peek branch candidates k ih => exact ih _ (hh _) _
  | fail tried k ih => exact ih _ (hh _) _
  | consume t k ih =>
    obtain ⟨herr, hok⟩ := hh
    cases hn : t.length? s.cursor.rest with
    | none =>
      simp only [exec, consumed, s.consume_of_miss hn]
      exact ih _ (herr _) _
    | some n =>
      simp only [exec, consumed, s.consume_of_hit hn, List.mem_cons, Prod.mk.injEq]
      have := hok (s.cursor.rest.take n)
      split at this
      next uncut =>
        obtain ⟨rfl, none⟩ := uncut
        rw [this]
        exact ⟨fun _ => ⟨_, .inl ⟨rfl, rfl⟩, n, hn, none⟩, fun _ => rfl⟩
      next cut =>
        rw [ih _ this]
        constructor
        · rintro ⟨cs, mem, uncut⟩
          exact ⟨cs, .inr mem, uncut⟩
        · rintro ⟨cs, ⟨rfl, rfl⟩ | mem, uncut⟩
          · obtain ⟨m, hm, none⟩ := uncut
            cases hn.symm.trans hm
            exact absurd ⟨rfl, none⟩ cut
          · exact ⟨cs, mem, uncut⟩
  | invoke rule body k ihb ihk =>
    obtain ⟨hbody, hk⟩ := hh
    have inside := ihb hbody (s.enter rule).2
    simp only [exec, consumed, List.mem_append, or_and_right, exists_or, ← inside]
    cases hr : body.exec (s.enter rule).2 with
    | error why => simp
    | ok r => simp [ihk _ (hk _)]
  | attempt rule body k ihb ihk =>
    obtain ⟨hbody, hk⟩ := hh
    have inside := ihb hbody (s.enter rule).2
    simp only [exec, consumed, List.mem_append, or_and_right, exists_or, ← inside]
    cases hr : body.exec (s.enter rule).2 with
    | error why => simp
    | ok r =>
      obtain ⟨r, u⟩ := r
      cases r <;> simp [ihk _ (hk _)]

end Handler

end GrammarKit
