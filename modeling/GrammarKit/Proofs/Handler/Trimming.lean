import GrammarKit.Proofs.Handler.Reading

/-!
Handlers that trim. Of the lexeme of a reference they use nothing but what is left when the blanks at
its end are trimmed, so it does not matter how many of them it took along.
-/

namespace GrammarKit

namespace Handler

variable {α β : Type} {h : Handler α} {f : α → Handler β}

/-- How a handler goes on behind a reference depends on the trimmed lexeme only. -/
@[simp] def Trims {α : Type} : Handler α → Prop
  | done _ => True
  | reraise _ => True
  | abort _ => True
  | peek _ _ k => ∀ t, (k t).Trims
  | consume t k =>
    (t = .ruleRef → ∀ l l', trimEnd l = trimEnd l' → k (.ok l) = k (.ok l')) ∧ ∀ r, (k r).Trims
  | fail _ k => ∀ e, (k e).Trims
  | invoke _ body k => body.Trims ∧ ∀ r, (k r).Trims
  | attempt _ body k => body.Trims ∧ ∀ r, (k r).Trims

/-- Lexemes that differ at most in the blanks behind a reference lead on alike. -/
theorem Trims.consume_eq {t : Token} {k : Except FailureId (List Char) → Handler α}
    (trims : (consume t k).Trims) {l l' : List Char} (trimmed : trimEnd l = trimEnd l')
    (same : t ≠ .ruleRef → l = l') : k (.ok l) = k (.ok l') := by
  by_cases href : t = .ruleRef
  · exact trims.1 href _ _ trimmed
  · rw [same href]

theorem trims_ofExcept_bind : (∀ r, ((ofExcept r).bind f).Trims) ↔ ∀ a, (f a).Trims := by
  constructor
  · exact fun trims a => trims (.ok a)
  · intro trims r
    cases r with
    | error e => trivial
    | ok a => exact trims a

@[simp] theorem trims_refuse (tried : List Token) : (refuse tried : Handler α).Trims := by
  simp [refuse]

@[simp] theorem trims_ite (c : Prop) [Decidable c] (a b : Handler α) :
    (if c then a else b).Trims ↔ (c → a.Trims) ∧ (¬c → b.Trims) := by
  split <;> simp_all

@[simp] theorem trims_call_bind (rule : Rule) (body : Handler α) :
    ((call rule body).bind f).Trims ↔ body.Trims ∧ ∀ a, (f a).Trims := by
  rw [← trims_ofExcept_bind]
  rfl

@[simp] theorem trims_call (rule : Rule) (body : Handler α) :
    (call rule body).Trims ↔ body.Trims := by
  rw [← bind_done (call rule body), trims_call_bind]
  simp

@[simp] theorem trims_look_bind (candidates : List Token) (f : Option Token → Handler β) :
    ((look candidates).bind f).Trims ↔ ∀ t, (f t).Trims := Iff.rfl

@[simp] theorem trims_lookBranch_bind (candidates : List Token) (f : Option Token → Handler β) :
    ((lookBranch candidates).bind f).Trims ↔ ∀ t, (f t).Trims := Iff.rfl

@[simp] theorem trims_expect_bind (candidates : List Token) (f : Token → Handler β) :
    ((expect candidates).bind f).Trims ↔ ∀ t, (f t).Trims := by
  constructor
  · exact fun trims t => trims (some t)
  · intro trims t
    cases t with
    | none => simp
    | some t => exact trims t

@[simp] theorem trims_lexeme_bind (t : Token) (f : List Char → Handler β) :
    ((lexeme t).bind f).Trims ↔
      (t = .ruleRef → ∀ l l', trimEnd l = trimEnd l' → f l = f l') ∧ ∀ l, (f l).Trims := by
  rw [← trims_ofExcept_bind]
  rfl

end Handler

end GrammarKit
