import GrammarKit.Proofs.Handler.Visits
import GrammarKit.Proofs.Session.Position

/-!
A session with the debug trace left out. A trace is written and never looked at: whatever is done with
a session leaves it as it would be without a trace, and gives the same.
-/

namespace GrammarKit

namespace Session

def Frame.untraced (frame : Frame) : Frame := { frame with record := none }

def untraced (s : Session) : Session := { s with debug := false, trace := #[] }

universe u

def untracedBehind {β : Type u} (outcome : Except Abort (β × Session)) :
    Except Abort (β × Session) :=
  outcome.map (Prod.map id untraced)

variable (s : Session)

@[simp] theorem untraced_cursor : s.untraced.cursor = s.cursor := rfl

@[simp] theorem untraced_lastNoted : s.untraced.lastNoted = s.lastNoted := rfl

theorem untraced_ofText (text : String) (debug : Bool) :
    (ofText text debug).untraced = ofText text false := rfl

theorem peek_untraced (branch : Bool) (candidates : List Token) :
    s.untraced.peek branch candidates =
      ((s.peek branch candidates).1, (s.peek branch candidates).2.untraced) := by
  unfold peek
  rw [untraced_cursor]
  cases candidates.find? (Token.startsAt s.cursor.rest) <;> rfl

theorem fail_untraced (tried : List Token) :
    s.untraced.fail tried = ((s.fail tried).1, (s.fail tried).2.untraced) := rfl

theorem expect_untraced (candidates : List Token) :
    s.untraced.expect candidates =
      ((s.expect candidates).1, (s.expect candidates).2.untraced) := by
  unfold expect
  rw [peek_untraced]
  cases s.peek false candidates with
  | mk found s => cases found <;> rfl

theorem consume_untraced (t : Token) :
    s.untraced.consume t = ((s.consume t).1, (s.consume t).2.untraced) := by
  cases hn : t.length? s.cursor.rest with
  | none =>
    rw [s.consume_of_miss hn, s.untraced.consume_of_miss hn]
    rfl
  | some n =>
    rw [s.consume_of_hit hn, s.untraced.consume_of_hit hn]
    rfl

theorem enter_untraced (rule : Rule) :
    s.untraced.enter rule = ((s.enter rule).1.untraced, (s.enter rule).2.untraced) := rfl

theorem leave_untraced {α : Type} (frame : Frame) (result : Except FailureId α) :
    s.untraced.leave frame.untraced result = (s.leave frame result).untraced := by
  cases result with
  | ok a =>
    unfold leave markSucceeded
    cases frame.record <;> rfl
  | error e =>
    unfold leave note
    rw [untraced_lastNoted]
    dsimp only
    split
    · rfl
    · rfl

end Session

open Session

namespace Handler

/-- What a handler does it does without a trace. -/
theorem exec_untraced {α : Type} (h : Handler α) (s : Session) :
    h.exec s.untraced = untracedBehind (h.exec s) := by
  induction h generalizing s with
  | done a => rfl
  | reraise e => rfl
  | abort why => rfl
  | peek branch candidates k ih =>
    simp only [exec, peek_untraced]
    exact ih _ _
  | consume t k ih =>
    simp only [exec, consume_untraced]
    exact ih _ _
  | fail tried k ih =>
    simp only [exec, fail_untraced]
    exact ih _ _
  | invoke rule body k ihb ihk =>
    simp only [exec, enter_untraced, ihb]
    cases body.exec (s.enter rule).2 with
    | error why => rfl
    | ok result =>
      obtain ⟨r, t⟩ := result
      simp only [untracedBehind, Except.map, Prod.map, id, leave_untraced]
      exact ihk _ _
  | attempt rule body k ihb ihk =>
    simp only [exec, enter_untraced, ihb]
    cases body.exec (s.enter rule).2 with
    | error why => rfl
    | ok result =>
      obtain ⟨r, t⟩ := result
      simp only [untracedBehind, Except.map, Prod.map, id, leave_untraced]
      cases r with
      | ok b => exact ihk _ _
      | error e => exact ihk _ { t.leave (s.enter rule).1 (.error e) with cursor := s.cursor }

end Handler

namespace Session

variable (s : Session)

theorem run_untraced (rule : Rule) : s.untraced.run rule = untracedBehind (s.run rule) := by
  rw [run_eq_exec, run_eq_exec]
  exact Handler.exec_untraced _ s

theorem attempt_untraced (rule : Rule) :
    s.untraced.attempt rule = untracedBehind (s.attempt rule) := by
  rw [attempt, attempt, run_untraced]
  cases s.run rule with
  | error why => rfl
  | ok result =>
    obtain ⟨r, t⟩ := result
    cases r <;> rfl

theorem perform_untraced (call : Call) :
    s.untraced.perform call = untracedBehind (s.perform call) := by
  cases call with
  | run rule =>
    simp only [perform, run_untraced]
    cases s.run rule <;> rfl
  | attempt rule =>
    simp only [perform, attempt_untraced]
    cases s.attempt rule <;> rfl

end Session

/-- A step of whoever uses a session: an operation, or a body of their own inside an invocation. -/
inductive Step : Type 1 where
  | operation (op : Operation)
  | scan {β : Type} (rule : Rule) (body : Handler β)

inductive Response : Type 1 where
  | found (t : Option Token)
  | expected (result : Except FailureId Token)
  | consumed (result : Except FailureId (List Char))
  | raised (e : FailureId)
  | answered (answer : Answer)
  | scanned {β : Type} (result : Except FailureId β)

namespace Session

def respond (s : Session) : Step → Except Abort (Response × Session)
  | .operation (.peek branch candidates) =>
    .ok ((s.peek branch candidates).map .found id)
  | .operation (.expect candidates) => .ok ((s.expect candidates).map .expected id)
  | .operation (.consume t) => .ok ((s.consume t).map .consumed id)
  | .operation (.fail tried) => .ok ((s.fail tried).map .raised id)
  | .operation (.call call) => (s.perform call).map (Prod.map .answered id)
  | .scan rule body => (s.invoke rule body.exec).map (Prod.map .scanned id)

def responses (s : Session) : List Step → Except Abort (List Response × Session)
  | [] => .ok ([], s)
  | step :: steps =>
    match s.respond step with
    | .error why => .error why
    | .ok (response, s) => (s.responses steps).map (Prod.map (response :: ·) id)

/-- The steps lead to the same sessions as the operations do that they are. -/
theorem respond_operation (s : Session) (op : Operation) :
    (s.respond (.operation op)).map Prod.snd = s.apply op := by
  cases op with
  | call call =>
    simp only [respond, apply]
    cases s.perform call <;> rfl
  | _ => rfl

variable (s : Session)

theorem respond_untraced (step : Step) :
    s.untraced.respond step = untracedBehind (s.respond step) := by
  cases step with
  | operation op =>
    cases op with
    | peek branch candidates => simp only [respond, peek_untraced]; rfl
    | expect candidates => simp only [respond, expect_untraced]; rfl
    | consume t => simp only [respond, consume_untraced]; rfl
    | fail tried => rfl
    | call call =>
      simp only [respond, perform_untraced]
      cases s.perform call <;> rfl
  | scan rule body =>
    simp only [respond, ← Handler.exec_call, Handler.exec_untraced]
    cases (Handler.call rule body).exec s <;> rfl

theorem responses_untraced (steps : List Step) :
    s.untraced.responses steps = untracedBehind (s.responses steps) := by
  induction steps generalizing s with
  | nil => rfl
  | cons step steps ih =>
    rw [responses, responses, respond_untraced]
    cases s.respond step with
    | error why => rfl
    | ok result =>
      obtain ⟨response, t⟩ := result
      simp only [untracedBehind, Except.map, Prod.map, id] at ih ⊢
      rw [ih]
      cases t.responses steps <;> rfl

end Session

end GrammarKit
