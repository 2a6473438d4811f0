import GrammarKit.Proofs.Session.Refusal

/-!
The links between the records of a session: an invocation names the one that made it, a failure the
invocation that it was raised in, and what is noted are failures. Every link points to a record that
is there, and to an earlier one, as long as invocations end in the order in which they are nested.
-/

namespace GrammarKit

namespace Session

structure Linked (s : Session) : Prop where
  current : ∀ id ∈ s.current, id < s.invocations.size
  parents : ∀ id i, s.invocations.get? id = some i → ∀ parent ∈ i.parent, parent < id
  blamed : ∀ (e : FailureId) f, s.failures[e]? = some f →
    ∀ id ∈ f.invocation, id < s.invocations.size
  noted : ∀ e ∈ s.noted, e < s.failures.size

variable {s u : Session}

theorem linked_ofText (text : String) (debug : Bool) : (ofText text debug).Linked where
  current := by simp [ofText]
  parents := by simp [ofText, InvocationTree.empty, InvocationTree.get?]
  blamed := by simp [ofText]
  noted := by simp [ofText]

namespace Linked

theorem of_eq (h : s.Linked) (current : u.current = s.current)
    (invocations : u.invocations = s.invocations) (failures : u.failures = s.failures)
    (noted : u.noted = s.noted) : u.Linked := by
  constructor
  · rw [current, invocations]
    exact h.current
  · rw [invocations]
    exact h.parents
  · rw [failures, invocations]
    exact h.blamed
  · rw [noted, failures]
    exact h.noted

theorem peek (h : s.Linked) (branch : Bool) (candidates : List Token) :
    (s.peek branch candidates).2.Linked :=
  h.of_eq (by simp) (by simp) (by simp) (by simp)

theorem read (h : s.Linked) (n : Nat) : Linked { s with cursor := s.cursor.read n } :=
  h.of_eq rfl rfl rfl rfl

theorem fail (h : s.Linked) (tried : List Token) : (s.fail tried).2.Linked where
  current := h.current
  parents := h.parents
  blamed := by
    intro e f hf id hid
    rw [fail_failures, Array.getElem?_push] at hf
    split at hf
    · cases hf
      exact h.current id hid
    · exact h.blamed e f hf id hid
  noted := by
    intro e he
    rw [fail_failures, Array.size_push]
    exact Nat.lt_succ_of_lt (h.noted e he)

theorem expect (h : s.Linked) (candidates : List Token) : (s.expect candidates).2.Linked := by
  unfold Session.expect
  have peeked := h.peek false candidates
  split
  · rename_i heq
    rwa [heq] at peeked
  · rename_i heq
    rw [heq] at peeked
    exact peeked.fail []

theorem consume (h : s.Linked) (t : Token) : (s.consume t).2.Linked := by
  cases hn : t.length? s.cursor.rest with
  | none =>
    rw [s.consume_of_miss hn]
    exact h.fail [t]
  | some n =>
    rw [s.consume_of_hit hn]
    exact h.read n

theorem enter (h : s.Linked) (rule : Rule) : (s.enter rule).2.Linked where
  current := by
    intro id hid
    rw [enter_current] at hid
    rw [enter_size, ← Option.some.inj hid]
    exact Nat.lt_succ_self _
  parents := by
    intro id i hi parent hparent
    rw [get?_enter] at hi
    split at hi
    · rename_i hid
      cases hi
      rw [hid]
      exact h.current parent hparent
    · exact h.parents id i hi parent hparent
  blamed := by
    intro e f hf id hid
    rw [enter_size]
    exact Nat.lt_succ_of_lt (h.blamed e f hf id hid)
  noted := h.noted

theorem leave {α : Type} (h : s.Linked) {frame : Frame} {result : Except FailureId α}
    (parent : ∀ id ∈ frame.parent, id < s.invocations.size)
    (raised : ∀ e, result = .error e → e < s.failures.size) :
    (s.leave frame result).Linked where
  current := by
    rw [leave_current, leave_invocations]
    exact parent
  parents := by
    rw [leave_invocations]
    exact h.parents
  blamed := by
    rw [leave_failures, leave_invocations]
    exact h.blamed
  noted := by
    intro e he
    rw [leave_failures]
    rcases mem_noted_leave he with before | new
    · exact h.noted e before
    · exact raised e new

end Linked

theorem size_le_of_kept {α : Type} {xs ys : Array α}
    (kept : ∀ (i : Nat) x, xs[i]? = some x → ys[i]? = some x) : xs.size ≤ ys.size := by
  by_contra lt
  rw [Nat.not_le] at lt
  have held := kept _ _ (Array.getElem?_eq_getElem lt)
  have := (Array.getElem?_eq_some_iff.1 held).1
  exact absurd this (Nat.lt_irrefl _)

structure Keeps (s u : Session) : Prop where
  invocations : ∀ id i, s.invocations.get? id = some i → u.invocations.get? id = some i
  failures : ∀ (e : FailureId) f, s.failures[e]? = some f → u.failures[e]? = some f

namespace Keeps

variable {t : Session}

theorem invocations_le (h : Keeps s u) : s.invocations.size ≤ u.invocations.size :=
  size_le_of_kept h.invocations

theorem failures_le (h : Keeps s u) : s.failures.size ≤ u.failures.size :=
  size_le_of_kept h.failures

theorem refl (s : Session) : Keeps s s := ⟨fun _ _ h => h, fun _ _ h => h⟩

theorem trans (h : Keeps s t) (k : Keeps t u) : Keeps s u :=
  ⟨fun id i hi => k.invocations id i (h.invocations id i hi),
    fun e f hf => k.failures e f (h.failures e f hf)⟩

end Keeps

theorem Grows.keeps (h : Grows s u) : Keeps s u where
  invocations := fun id _ hi =>
    (h.invocations id (Array.getElem?_eq_some_iff.1 hi).1).trans hi
  failures := h.failures

/-- What is noted when something has run in `s`, where nothing was noted since the last invocation
began: a failure is noted as soon as it has ended an invocation, and once only. -/
def Notes {α : Type} (s u : Session) : Except FailureId α → Prop
  | .ok _ => u.noted = s.noted ∧ u.lastNoted = none
  | .error e => s.failures.size ≤ e ∧ e < u.failures.size ∧
      (u.noted = s.noted ∧ u.lastNoted = none ∨ u.noted = s.noted.push e ∧ u.lastNoted = some e)

namespace Notes

variable {α : Type} {t : Session}

theorem fail (fresh : s.lastNoted = none) (tried : List Token) :
    Notes s (s.fail tried).2 (.error (s.fail tried).1 : Except FailureId α) := by
  refine ⟨Nat.le_refl _, ?_, .inl ⟨rfl, fresh⟩⟩
  rw [fail_failures, Array.size_push]
  exact Nat.lt_succ_self _

/-- An invocation that fails is noted, by itself or by the one in it that failed. -/
theorem leave_error {rule : Rule} {e : FailureId}
    (h : Notes (s.enter rule).2 t (.error e : Except FailureId α)) (frame : Frame) :
    (t.leave frame (.error e : Except FailureId α)).noted = s.noted.push e ∧
      (t.leave frame (.error e : Except FailureId α)).lastNoted = some e := by
  rw [leave_noted, leave_lastNoted]
  obtain ⟨-, -, ⟨noted, last⟩ | ⟨noted, last⟩⟩ := h
  · simp [last, noted, enter_noted]
  · simp [last, noted, enter_noted]

theorem trans {r : Except FailureId α} (noted : t.noted = s.noted)
    (failures : s.failures.size ≤ t.failures.size) (h : Notes t u r) : Notes s u r := by
  cases r with
  | ok a => exact ⟨h.1.trans noted, h.2⟩
  | error e =>
    obtain ⟨since, here, after⟩ := h
    rw [noted] at after
    exact ⟨Nat.le_trans failures since, here, after⟩

end Notes

theorem Linked.leave_enter {α : Type} {rule : Rule} {t : Session} {result : Except FailureId α}
    (inner : t.Linked) (h : s.Linked) (grows : Grows (s.enter rule).2 t)
    (notes : Notes (s.enter rule).2 t result) : (t.leave (s.enter rule).1 result).Linked := by
  refine inner.leave (fun id hid => ?_) ?_
  · exact Nat.lt_trans (h.current id hid) grows.size_lt
  · rintro e rfl
    exact notes.2.1

end Session

namespace Handler

open Session

theorem Runs.notes {α : Type} {looked : Bool} {s u : Session} {r : Except FailureId α}
    (h : Runs looked s r u) (fresh : s.lastNoted = none) : Notes s u r := by
  induction h with
  | done s a => exact ⟨rfl, fresh⟩
  | hit rest ih => exact (ih (by rwa [peek_lastNoted])).trans (by simp) (by simp)
  | miss nonempty further none rest ih =>
    exact (ih (by rwa [peek_lastNoted])).trans (by simp) (by simp)
  | read s n a => exact ⟨rfl, fresh⟩
  | unread none => exact .fail fresh _
  | refuse s => exact .fail fresh []
  | failed body ih =>
    have inner := ih rfl
    refine ⟨inner.1, ?_, .inr (inner.leave_error _)⟩
    rw [leave_failures]
    exact inner.2.1
  | invoked body rest ihb ih =>
    have inner := ihb rfl
    have grown := body.grows.keeps.failures_le
    refine Notes.trans ?_ (by rwa [leave_failures]) (ih ?_)
    · rw [leave_noted]
      exact inner.1
    · rw [leave_lastNoted]
      exact inner.2

theorem Runs.linked {α : Type} {looked : Bool} {s u : Session} {r : Except FailureId α}
    (h : Runs looked s r u) (linked : s.Linked) (fresh : s.lastNoted = none) : u.Linked := by
  induction h with
  | done s a => exact linked
  | hit rest ih => exact ih (linked.peek _ _) (by rwa [peek_lastNoted])
  | miss nonempty further none rest ih => exact ih (linked.peek _ _) (by rwa [peek_lastNoted])
  | read s n a => exact linked.read n
  | unread none => exact linked.fail _
  | refuse s => exact linked.fail []
  | failed body ih => exact (ih (linked.enter _) rfl).leave_enter linked body.grows (body.notes rfl)
  | invoked body rest ihb ih =>
    refine ih ((ihb (linked.enter _) rfl).leave_enter linked body.grows (body.notes rfl)) ?_
    rw [leave_lastNoted]
    exact (body.notes rfl).2

end Handler

namespace Session

variable {s u : Session}

theorem run_notes {rule : Rule} {e : FailureId} (hr : s.run rule = .ok (.error e, u)) :
    s.failures.size ≤ e ∧ e < u.failures.size ∧ u.noted = s.noted.push e := by
  obtain ⟨t, ht, rfl⟩ := run_eq_ok hr
  have notes := ((Rule.careful_handler _ rule).runs ht).notes rfl
  rw [leave_failures]
  exact ⟨notes.1, notes.2.1, (notes.leave_error _).1⟩

theorem Linked.run (h : s.Linked) {rule : Rule} {result : Except FailureId rule.Output}
    (hr : s.run rule = .ok (result, u)) : u.Linked := by
  obtain ⟨t, ht, rfl⟩ := run_eq_ok hr
  have runs := (Rule.careful_handler (Rule.fuelFor s.text) rule).runs ht
  exact (runs.linked (h.enter rule) rfl).leave_enter h runs.grows (runs.notes rfl)

/-- The outcomes of an attempt: those of a run, where a failure puts the cursor back. -/
theorem attempt_eq_ok {rule : Rule} {result : Option rule.Output}
    (hr : s.attempt rule = .ok (result, u)) :
    (∃ a, result = some a ∧ s.run rule = .ok (.ok a, u)) ∨
      ∃ e t, result = none ∧ s.run rule = .ok (.error e, t) ∧ u = { t with cursor := s.cursor } := by
  unfold Session.attempt at hr
  dsimp only at hr
  split at hr
  · cases hr
  · rename_i a t hrun
    cases hr
    exact .inl ⟨a, rfl, hrun⟩
  · rename_i e t hrun
    cases hr
    exact .inr ⟨e, t, rfl, hrun, rfl⟩

theorem Linked.attempt (h : s.Linked) {rule : Rule} {result : Option rule.Output}
    (hr : s.attempt rule = .ok (result, u)) : u.Linked := by
  rcases attempt_eq_ok hr with ⟨a, -, hrun⟩ | ⟨e, t, -, hrun, rfl⟩
  · exact h.run hrun
  · exact (h.run hrun).of_eq rfl rfl rfl rfl

theorem attempt_keeps {rule : Rule} {result : Option rule.Output}
    (hr : s.attempt rule = .ok (result, u)) : Keeps s u := by
  rcases attempt_eq_ok hr with ⟨a, -, hrun⟩ | ⟨e, t, -, hrun, rfl⟩
  · exact (run_grows hrun).keeps
  · exact ⟨(run_grows hrun).keeps.invocations, (run_grows hrun).keeps.failures⟩

/-- The sessions that operations lead to, with the invocations that have not ended, the innermost
first. An invocation ends with a failure that was raised in the session. -/
inductive Nested : List Frame → Session → Prop
  | start (text : String) (debug : Bool) : Nested [] (ofText text debug)
  | peek {frames s} (h : Nested frames s) (branch : Bool) (candidates : List Token) :
      Nested frames (s.peek branch candidates).2
  | expect {frames s} (h : Nested frames s) (candidates : List Token) :
      Nested frames (s.expect candidates).2
  | consume {frames s} (h : Nested frames s) (t : Token) : Nested frames (s.consume t).2
  | fail {frames s} (h : Nested frames s) (tried : List Token) : Nested frames (s.fail tried).2
  | enter {frames s} (h : Nested frames s) (rule : Rule) :
      Nested ((s.enter rule).1 :: frames) (s.enter rule).2
  | leave {frame frames s} (h : Nested (frame :: frames) s) {α : Type}
      (result : Except FailureId α) (raised : ∀ e, result = .error e → e < s.failures.size) :
      Nested frames (s.leave frame result)
  | run {frames s u} (h : Nested frames s) (rule : Rule) (result : Except FailureId rule.Output)
      (hr : s.run rule = .ok (result, u)) : Nested frames u
  | attempt {frames s u} (h : Nested frames s) (rule : Rule) (result : Option rule.Output)
      (hr : s.attempt rule = .ok (result, u)) : Nested frames u

namespace Nested

variable {frames : List Frame}

theorem reachable (h : Nested frames s) : s.Reachable := by
  induction h with
  | start text debug => exact .start text debug
  | peek h branch candidates ih => exact ih.peek branch candidates
  | expect h candidates ih => exact ih.expect candidates
  | consume h t ih => exact ih.consume t
  | fail h tried ih => exact ih.fail tried
  | enter h rule ih => exact ih.enter rule
  | leave h result raised ih => exact ih.leave _ result
  | run h rule result hr ih => exact ih.run rule result hr
  | attempt h rule result hr ih => exact ih.attempt rule result hr

def Returns (frames : List Frame) (s : Session) : Prop :=
  ∀ frame ∈ frames, ∀ id ∈ frame.parent, id < s.invocations.size

theorem linked_returns (h : Nested frames s) : s.Linked ∧ Returns frames s := by
  have kept : ∀ {frames s u}, Returns frames s → s.invocations.size ≤ u.invocations.size →
      Returns frames u :=
    fun returns le frame mem id hid => Nat.lt_of_lt_of_le (returns frame mem id hid) le
  induction h with
  | start text debug => exact ⟨linked_ofText text debug, by simp [Returns]⟩
  | peek h branch candidates ih => exact ⟨ih.1.peek branch candidates, kept ih.2 (by simp)⟩
  | expect h candidates ih => exact ⟨ih.1.expect candidates, kept ih.2 (by simp)⟩
  | consume h t ih => exact ⟨ih.1.consume t, kept ih.2 (by simp)⟩
  | fail h tried ih => exact ⟨ih.1.fail tried, kept ih.2 (by simp)⟩
  | enter h rule ih =>
    refine ⟨ih.1.enter rule, List.forall_mem_cons.2 ⟨?_, kept ih.2 (by simp)⟩⟩
    intro id hid
    rw [enter_size]
    exact Nat.lt_succ_of_lt (ih.1.current id hid)
  | leave h result raised ih =>
    obtain ⟨parent, returns⟩ := List.forall_mem_cons.1 ih.2
    exact ⟨ih.1.leave parent raised, kept returns (by simp)⟩
  | run h rule result hr ih => exact ⟨ih.1.run hr, kept ih.2 (run_grows hr).size⟩
  | attempt h rule result hr ih =>
    exact ⟨ih.1.attempt hr, kept ih.2 (attempt_keeps hr).invocations_le⟩

theorem linked (h : Nested frames s) : s.Linked := h.linked_returns.1

end Nested

end Session

end GrammarKit
