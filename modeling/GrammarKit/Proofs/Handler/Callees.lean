import GrammarKit.Proofs.Handler.Reading

/-!
Which rules a handler calls: those of the invocations in it, whatever the tokens, lexemes and results
that lead to them, and without those in the bodies of these invocations.
-/

namespace GrammarKit

namespace Handler

variable {α β : Type} {h : Handler α} {f : α → Handler β} {callees : Rule → List Rule}
  {owner rule : Rule}

@[simp] def Calls {α : Type} : Handler α → Rule → Prop
  | done _, _ => False
  | reraise _, _ => False
  | abort _, _ => False
  | peek _ _ k, rule => ∃ t, (k t).Calls rule
  | consume _ k, rule => ∃ r, (k r).Calls rule
  | fail _ k, rule => ∃ e, (k e).Calls rule
  | invoke callee _ k, rule => rule = callee ∨ ∃ r, (k r).Calls rule
  | attempt callee _ k, rule => rule = callee ∨ ∃ r, (k r).Calls rule

@[simp] def CallsWithin (callees : Rule → List Rule) {α : Type} : Handler α → Rule → Prop
  | done _, _ => True
  | reraise _, _ => True
  | abort _, _ => True
  | peek _ _ k, owner => ∀ t, (k t).CallsWithin callees owner
  | consume _ k, owner => ∀ r, (k r).CallsWithin callees owner
  | fail _ k, owner => ∀ e, (k e).CallsWithin callees owner
  | invoke callee body k, owner =>
    callee ∈ callees owner ∧ body.CallsWithin callees callee ∧
      ∀ r, (k r).CallsWithin callees owner
  | attempt callee body k, owner =>
    callee ∈ callees owner ∧ body.CallsWithin callees callee ∧
      ∀ r, (k r).CallsWithin callees owner

theorem CallsWithin.mem_callees (within : h.CallsWithin callees owner) (calls : h.Calls rule) :
    rule ∈ callees owner := by
  induction h with
  | done a => exact calls.elim
  | reraise e => exact calls.elim
  | abort why => exact calls.elim
  | peek branch candidates k ih =>
    obtain ⟨t, calls⟩ := calls
    exact ih t (within t) calls
  | consume t k ih =>
    obtain ⟨r, calls⟩ := calls
    exact ih r (within r) calls
  | fail tried k ih =>
    obtain ⟨e, calls⟩ := calls
    exact ih e (within e) calls
  | invoke callee body k _ ih =>
    rcases calls with rfl | ⟨r, calls⟩
    · exact within.1
    · exact ih r (within.2.2 r) calls
  | attempt callee body k _ ih =>
    rcases calls with rfl | ⟨r, calls⟩
    · exact within.1
    · exact ih r (within.2.2 r) calls

theorem callsWithin_ofExcept_bind :
    (∀ r, ((ofExcept r).bind f).CallsWithin callees owner) ↔
      ∀ a, (f a).CallsWithin callees owner := by
  constructor
  · exact fun within a => within (.ok a)
  · intro within r
    cases r with
    | error e => trivial
    | ok a => exact within a

@[simp] theorem callsWithin_refuse (tried : List Token) :
    (refuse tried : Handler α).CallsWithin callees owner := by
  simp [refuse]

@[simp] theorem callsWithin_ite (c : Prop) [Decidable c] (a b : Handler α) :
    (if c then a else b).CallsWithin callees owner ↔
      (c → a.CallsWithin callees owner) ∧ (¬c → b.CallsWithin callees owner) := by
  split <;> simp_all

@[simp] theorem callsWithin_call_bind (body : Handler α) :
    ((call rule body).bind f).CallsWithin callees owner ↔
      rule ∈ callees owner ∧ body.CallsWithin callees rule ∧
        ∀ a, (f a).CallsWithin callees owner := by
  rw [← callsWithin_ofExcept_bind]
  rfl

@[simp] theorem callsWithin_call (body : Handler α) :
    (call rule body).CallsWithin callees owner ↔
      rule ∈ callees owner ∧ body.CallsWithin callees rule := by
  rw [← bind_done (call rule body), callsWithin_call_bind]
  simp

@[simp] theorem callsWithin_look_bind (candidates : List Token) (f : Option Token → Handler β) :
    ((look candidates).bind f).CallsWithin callees owner ↔
      ∀ t, (f t).CallsWithin callees owner := Iff.rfl

@[simp] theorem callsWithin_lookBranch_bind (candidates : List Token)
    (f : Option Token → Handler β) :
    ((lookBranch candidates).bind f).CallsWithin callees owner ↔
      ∀ t, (f t).CallsWithin callees owner := Iff.rfl

@[simp] theorem callsWithin_expect_bind (candidates : List Token) (f : Token → Handler β) :
    ((expect candidates).bind f).CallsWithin callees owner ↔
      ∀ t, (f t).CallsWithin callees owner := by
  constructor
  · exact fun within t => within (some t)
  · intro within t
    cases t with
    | none => simp
    | some t => exact within t

@[simp] theorem callsWithin_lexeme_bind (t : Token) (f : List Char → Handler β) :
    ((lexeme t).bind f).CallsWithin callees owner ↔
      ∀ l, (f l).CallsWithin callees owner := callsWithin_ofExcept_bind

theorem calls_ofExcept_bind :
    (∃ r, ((ofExcept r).bind f).Calls rule) ↔ ∃ a, (f a).Calls rule := by
  constructor
  · rintro ⟨e | a, calls⟩
    · exact calls.elim
    · exact ⟨a, calls⟩
  · exact fun ⟨a, calls⟩ => ⟨.ok a, calls⟩

@[simp] theorem calls_refuse (tried : List Token) : ¬ (refuse tried : Handler α).Calls rule := by
  simp [refuse]

@[simp] theorem calls_ite (c : Prop) [Decidable c] (a b : Handler α) :
    (if c then a else b).Calls rule ↔ c ∧ a.Calls rule ∨ ¬c ∧ b.Calls rule := by
  split <;> simp_all

@[simp] theorem calls_call_bind (callee : Rule) (body : Handler α) :
    ((call callee body).bind f).Calls rule ↔ rule = callee ∨ ∃ a, (f a).Calls rule := by
  rw [← calls_ofExcept_bind]
  rfl

@[simp] theorem calls_call (callee : Rule) (body : Handler α) :
    (call callee body).Calls rule ↔ rule = callee := by
  rw [← bind_done (call callee body), calls_call_bind]
  simp

@[simp] theorem calls_look_bind (candidates : List Token) (f : Option Token → Handler β) :
    ((look candidates).bind f).Calls rule ↔ ∃ t, (f t).Calls rule := Iff.rfl

@[simp] theorem calls_lookBranch_bind (candidates : List Token) (f : Option Token → Handler β) :
    ((lookBranch candidates).bind f).Calls rule ↔ ∃ t, (f t).Calls rule := Iff.rfl

@[simp] theorem calls_expect_bind (candidates : List Token) (f : Token → Handler β) :
    ((expect candidates).bind f).Calls rule ↔ ∃ t, (f t).Calls rule := by
  constructor
  · rintro ⟨_ | t, calls⟩
    · exact absurd calls (by simp)
    · exact ⟨t, calls⟩
  · exact fun ⟨t, calls⟩ => ⟨some t, calls⟩

end Handler

end GrammarKit
