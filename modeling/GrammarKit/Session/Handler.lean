import GrammarKit.Session.Basic

/-!
Handlers: what the body of an invocation does.

A handler is the tree of its session operations, each branching on what the operation gives. It sees
tokens, lexemes and results, and nothing else of the session. Executing a handler on a session plays
the operations in order. Main statements: executing one handler and then another is executing their
composition, and calling a rule is invoking what its body does.
-/

namespace GrammarKit

inductive Handler : Type → Type 1 where
  | done {α : Type} (a : α) : Handler α
  | reraise {α : Type} (e : FailureId) : Handler α
  | abort {α : Type} (why : Abort) : Handler α
  | peek {α : Type} (branch : Bool) (candidates : List Token) (k : Option Token → Handler α) :
    Handler α
  | consume {α : Type} (t : Token) (k : Except FailureId (List Char) → Handler α) : Handler α
  | fail {α : Type} (tried : List Token) (k : FailureId → Handler α) : Handler α
  | invoke {α β : Type} (rule : Rule) (body : Handler β) (k : Except FailureId β → Handler α) :
    Handler α
  /-- Runs a body inside an invocation, and goes back to where it began if it fails. -/
  | attempt {α β : Type} (rule : Rule) (body : Handler β) (k : Option β → Handler α) : Handler α

namespace Handler

def bind {α β : Type} : Handler α → (α → Handler β) → Handler β
  | done a, f => f a
  | reraise e, _ => reraise e
  | abort why, _ => abort why
  | peek branch candidates k, f => peek branch candidates fun t => (k t).bind f
  | consume t k, f => consume t fun r => (k r).bind f
  | fail tried k, f => fail tried fun e => (k e).bind f
  | invoke rule body k, f => invoke rule body fun r => (k r).bind f
  | attempt rule body k, f => attempt rule body fun r => (k r).bind f

instance : Monad Handler where
  pure := done
  bind := bind

@[simp] theorem pure_eq {α : Type} (a : α) : (pure a : Handler α) = done a := rfl

@[simp] theorem bind_eq {α β : Type} (h : Handler α) (f : α → Handler β) : h >>= f = h.bind f := rfl

theorem bind_done {α : Type} (h : Handler α) : h.bind done = h := by
  induction h <;> simp_all [bind]

theorem bind_assoc {α β γ : Type} (h : Handler α) (f : α → Handler β) (g : β → Handler γ) :
    (h.bind f).bind g = h.bind fun a => (f a).bind g := by
  induction h <;> simp_all [bind]

instance : LawfulMonad Handler := .mk' Handler bind_done (fun _ _ => rfl) bind_assoc

def ofExcept {α : Type} : Except FailureId α → Handler α
  | .ok a => done a
  | .error e => reraise e

def look (candidates : List Token) : Handler (Option Token) := peek false candidates done

def lookBranch (candidates : List Token) : Handler (Option Token) := peek true candidates done

def lexeme (t : Token) : Handler (List Char) := consume t ofExcept

/-- Raises a failure and ends with it; without tokens it names what was looked for. -/
def refuse {α : Type} (tried : List Token) : Handler α := fail tried reraise

def expect (candidates : List Token) : Handler Token :=
  peek false candidates fun
    | some t => done t
    | none => refuse []

def call {α : Type} (rule : Rule) (body : Handler α) : Handler α := invoke rule body ofExcept

def exec {α : Type} : Handler α → Session → Result α
  | done a, s => .ok (.ok a, s)
  | reraise e, s => .ok (.error e, s)
  | abort why, _ => .error why
  | peek branch candidates k, s =>
    match s.peek branch candidates with
    | (t, s) => (k t).exec s
  | consume t k, s =>
    match s.consume t with
    | (r, s) => (k r).exec s
  | fail tried k, s =>
    match s.fail tried with
    | (e, s) => (k e).exec s
  | invoke rule body k, s =>
    match s.enter rule with
    | (frame, s) =>
      match body.exec s with
      | .error why => .error why
      | .ok (r, s) => (k r).exec (s.leave frame r)
  | attempt rule body k, s =>
    let start := s.cursor
    match s.enter rule with
    | (frame, s) =>
      match body.exec s with
      | .error why => .error why
      | .ok (r, s) =>
        match r, s.leave frame r with
        | .ok b, s => (k (some b)).exec s
        | .error _, s => (k none).exec { s with cursor := start }

def resume {α β : Type} (f : α → Session → Result β) : Result α → Result β
  | .error why => .error why
  | .ok (.error e, s) => .ok (.error e, s)
  | .ok (.ok a, s) => f a s

theorem exec_bind {α β : Type} (h : Handler α) (f : α → Handler β) (s : Session) :
    (h.bind f).exec s = resume (fun a s => (f a).exec s) (h.exec s) := by
  induction h generalizing s with
  | done a => rfl
  | reraise e => rfl
  | abort why => rfl
  | peek branch candidates k ih => exact ih _ _ _
  | consume t k ih => exact ih _ _ _
  | fail tried k ih => exact ih _ _ _
  | invoke rule body k _ ih =>
    simp only [bind, exec]
    split
    · rfl
    · exact ih _ _ _
  | attempt rule body k _ ih =>
    simp only [bind, exec]
    split
    · rfl
    · split <;> exact ih _ _ _

section Inversion

variable {α β : Type} {rule : Rule} {body : Handler β} {s u : Session} {r : Except FailureId α}

theorem exec_invoke_eq_ok {k : Except FailureId β → Handler α}
    (hr : (invoke rule body k).exec s = .ok (r, u)) :
    ∃ b t, body.exec (s.enter rule).2 = .ok (b, t) ∧
      (k b).exec (t.leave (s.enter rule).1 b) = .ok (r, u) := by
  simp only [exec] at hr
  split at hr
  · cases hr
  · rename_i b t hb
    exact ⟨b, t, hb, hr⟩

/-- Behind an attempt that fails the cursor is where it was. -/
theorem exec_attempt_eq_ok {k : Option β → Handler α}
    (hr : (attempt rule body k).exec s = .ok (r, u)) :
    ∃ b t, body.exec (s.enter rule).2 = .ok (b, t) ∧
      ((∃ a, b = .ok a ∧ (k (some a)).exec (t.leave (s.enter rule).1 b) = .ok (r, u)) ∨
        ∃ e, b = .error e ∧
          (k none).exec { t.leave (s.enter rule).1 b with cursor := s.cursor } = .ok (r, u)) := by
  simp only [exec] at hr
  split at hr
  · cases hr
  · rename_i b t hb
    cases b with
    | ok a => exact ⟨_, t, hb, .inl ⟨a, rfl, hr⟩⟩
    | error e => exact ⟨_, t, hb, .inr ⟨e, rfl, hr⟩⟩

end Inversion

theorem exec_ofExcept {α : Type} (r : Except FailureId α) (s : Session) :
    (ofExcept r).exec s = .ok (r, s) := by
  cases r <;> rfl

theorem exec_call {α : Type} (rule : Rule) (body : Handler α) (s : Session) :
    (call rule body).exec s = s.invoke rule body.exec := by
  cases h : body.exec (s.enter rule).2 <;> simp [call, exec, Session.invoke, exec_ofExcept, h]

end Handler

end GrammarKit
