import GrammarKit.Proofs.Session.Operation
import GrammarKit.Session.Handler

/-!
The invocations of a handler with what comes of them. Main statements: they are those recorded in the
tree, in the order of its records, and those that yield something are the ones that the debug trace
marks.
-/

namespace GrammarKit

theorem map_modify_eq_set {α β : Type} {f : α → α} {g : α → β} {b : β} (h : ∀ x, g (f x) = b)
    (xs : List α) (n : Nat) : (xs.modify n f).map g = (xs.map g).set n b := by
  induction xs generalizing n with
  | nil => simp
  | cons x xs ih => cases n <;> simp [h, ih]

structure Visit where
  rule : Rule
  entry : Position
  /-- Where the body has left the cursor, if it has yielded something. Only the layout behind it is
  still skipped. -/
  left : Option Position
  deriving DecidableEq, Repr

namespace Visit

def record (v : Visit) : Rule × Position := (v.rule, v.entry)

end Visit

namespace Handler

open Session

def leftAt {α : Type} : Result α → Option Position
  | .ok (.ok _, s) => some s.position
  | _ => none

def visits {α : Type} : Handler α → Session → List Visit
  | done _, _ => []
  | reraise _, _ => []
  | abort _, _ => []
  | peek branch candidates k, s =>
    match s.peek branch candidates with
    | (t, s) => (k t).visits s
  | consume t k, s =>
    match s.consume t with
    | (r, s) => (k r).visits s
  | fail tried k, s =>
    match s.fail tried with
    | (e, s) => (k e).visits s
  | invoke rule body k, s =>
    match s.enter rule with
    | (frame, s) =>
      ⟨rule, s.position, leftAt (body.exec s)⟩ :: body.visits s ++
        match body.exec s with
        | .error _ => []
        | .ok (r, s) => (k r).visits (s.leave frame r)
  | attempt rule body k, s =>
    let start := s.cursor
    match s.enter rule with
    | (frame, s) =>
      ⟨rule, s.position, leftAt (body.exec s)⟩ :: body.visits s ++
        match body.exec s with
        | .error _ => []
        | .ok (r, s) =>
          match r, s.leave frame r with
          | .ok b, s => (k (some b)).visits s
          | .error _, s => (k none).visits { s with cursor := start }

end Handler

namespace Session

def recorded (s : Session) : List (Rule × Position) :=
  s.invocations.records.toList.map fun i => (i.rule, i.entry)

theorem recorded_enter (s : Session) (rule : Rule) :
    (s.enter rule).2.recorded = s.recorded ++ [(rule, (s.enter rule).2.position)] := by
  rw [recorded, enter_invocations, InvocationTree.push, Array.toList_push, List.map_append]
  rfl

def marks (s : Session) : List Bool := s.trace.toList.map TraceEntry.succeeded

theorem peek_marks (s : Session) (branch : Bool) (candidates : List Token) :
    (s.peek branch candidates).2.marks = s.marks := by
  rw [marks, peek_trace, marks]

theorem marks_enter {s : Session} (debug : s.debug = true) (rule : Rule) :
    (s.enter rule).2.marks = s.marks ++ [false] := by
  rw [marks, enter_trace, if_pos debug, Array.toList_push, List.map_append]
  rfl

/-- An invocation that succeeds gets its mark. -/
theorem marks_leave {α : Type} {s t : Session} (rule : Rule) {r : Except FailureId α}
    {inner : List Bool} (debug : s.debug = true) (h : t.marks = s.marks ++ false :: inner) :
    (t.leave (s.enter rule).1 r).marks = s.marks ++ r.isOk :: inner := by
  have record : (s.enter rule).1.record = some s.trace.size := if_pos debug
  have marked : (t.leave (s.enter rule).1 r).marks =
      if r.isOk then t.marks.set s.marks.length true else t.marks := by
    cases r with
    | error e => simp [marks, leave_trace, Except.isOk, Except.toBool]
    | ok a =>
      simp only [marks, leave_trace, record, markSucceeded, Except.isOk, Except.toBool, if_true,
        Array.toList_modify, List.length_map, Array.length_toList]
      exact map_modify_eq_set (by exact fun r => rfl) _ _
  rw [marked, h]
  cases r <;> simp [Except.isOk, Except.toBool]

theorem recorded_eq_of_eq {s u : Session} (h : u.invocations = s.invocations) :
    u.recorded = s.recorded := by
  rw [recorded, recorded, h]

end Session

namespace Handler

open Session

variable {α : Type} {h : Handler α} {s u : Session} {r : Except FailureId α}

/-- The records made while a handler runs are those of its invocations. -/
theorem recorded_exec (hr : h.exec s = .ok (r, u)) :
    u.recorded = s.recorded ++ (h.visits s).map Visit.record := by
  induction h generalizing s u with
  | done a =>
    cases hr
    exact (List.append_nil _).symm
  | reraise e =>
    cases hr
    exact (List.append_nil _).symm
  | abort why => cases hr
  | peek branch candidates k ih =>
    have rest := ih (s.peek branch candidates).1 (s := (s.peek branch candidates).2) hr
    rwa [recorded_eq_of_eq (s.peek_invocations branch candidates)] at rest
  | consume t k ih =>
    have rest := ih (s.consume t).1 (s := (s.consume t).2) hr
    rwa [recorded_eq_of_eq (s.consume_invocations t)] at rest
  | fail tried k ih => exact ih _ hr
  | invoke rule body k ihb ih =>
    obtain ⟨b, t, hb, hr⟩ := exec_invoke_eq_ok hr
    rw [ih _ hr, recorded_eq_of_eq (leave_invocations ..), ihb hb, recorded_enter]
    simp [visits, hb, Visit.record]
  | attempt rule body k ihb ih =>
    obtain ⟨b, t, hb, rest⟩ := exec_attempt_eq_ok hr
    have left : (t.leave (s.enter rule).1 b).recorded =
        s.recorded ++ ((rule, (s.enter rule).2.position) ::
          (body.visits (s.enter rule).2).map Visit.record) := by
      rw [recorded_eq_of_eq (leave_invocations ..), ihb hb, recorded_enter, List.append_assoc]
      rfl
    obtain ⟨a, rfl, hr⟩ | ⟨e, rfl, hr⟩ := rest
    · rw [ih _ hr, left]
      simp [visits, hb, Visit.record]
    · -- Going back in the text takes no record away.
      refine (ih _ hr).trans ((congrArg (· ++ _) left).trans ?_)
      simp [visits, hb, Visit.record]

/-- An invocation leaves its own mark and behind it those of the invocations in its body. -/
theorem marks_invoke {β : Type} {rule : Rule} {body : Handler β} {b : Except FailureId β}
    {t : Session} (debug : s.debug = true) (hb : body.exec (s.enter rule).2 = .ok (b, t))
    (inner : t.marks =
      (s.enter rule).2.marks ++ (body.visits (s.enter rule).2).map fun v => v.left.isSome) :
    (t.leave (s.enter rule).1 b).marks =
      s.marks ++ (leftAt (body.exec (s.enter rule).2)).isSome ::
        (body.visits (s.enter rule).2).map fun v => v.left.isSome := by
  have ended : (leftAt (body.exec (s.enter rule).2)).isSome = b.isOk := by
    rw [hb]
    cases b <;> rfl
  rw [marks_enter debug, List.append_assoc] at inner
  rw [ended, marks_leave rule debug inner]
  rfl

/-- The trace marks the invocations that yield something. -/
theorem marks_exec (hr : h.exec s = .ok (r, u)) (debug : s.debug = true) :
    u.debug = true ∧ u.marks = s.marks ++ (h.visits s).map fun v => v.left.isSome := by
  induction h generalizing s u with
  | done a =>
    cases hr
    exact ⟨debug, (List.append_nil _).symm⟩
  | reraise e =>
    cases hr
    exact ⟨debug, (List.append_nil _).symm⟩
  | abort why => cases hr
  | peek branch candidates k ih =>
    have rest := ih (s.peek branch candidates).1 (s := (s.peek branch candidates).2)
      hr ((s.peek_debug branch candidates).trans debug)
    rwa [peek_marks] at rest
  | consume t k ih =>
    cases hn : t.length? s.cursor.rest with
    | none =>
      simp only [exec, visits, s.consume_of_miss hn] at hr ⊢
      exact ih _ hr debug
    | some n =>
      simp only [exec, visits, s.consume_of_hit hn] at hr ⊢
      exact ih _ hr debug
  | fail tried k ih => exact ih _ hr debug
  | invoke rule body k ihb ih =>
    obtain ⟨b, t, hb, hr⟩ := exec_invoke_eq_ok hr
    obtain ⟨debug', inner⟩ := ihb hb debug
    have left := marks_invoke debug hb inner
    obtain ⟨debug'', rest⟩ := ih b hr ((leave_debug ..).trans debug')
    refine ⟨debug'', ?_⟩
    rw [rest, left]
    simp [visits, hb]
  | attempt rule body k ihb ih =>
    obtain ⟨b, t, hb, rest⟩ := exec_attempt_eq_ok hr
    obtain ⟨debug', inner⟩ := ihb hb debug
    have left := marks_invoke debug hb inner
    have debugged : (t.leave (s.enter rule).1 b).debug = true := (leave_debug ..).trans debug'
    obtain ⟨a, rfl, hr⟩ | ⟨e, rfl, hr⟩ := rest
    · obtain ⟨debug'', rest⟩ := ih (some a) hr debugged
      refine ⟨debug'', ?_⟩
      rw [rest, left]
      simp [visits, hb]
    · obtain ⟨debug'', rest⟩ := ih none hr debugged
      refine ⟨debug'', rest.trans ((congrArg (· ++ _) left).trans ?_)⟩
      simp [visits, hb]

end Handler

end GrammarKit
