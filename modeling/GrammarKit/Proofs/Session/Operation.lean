import GrammarKit.Proofs.Layout
import GrammarKit.Session.Basic

/-!
What the operations of a session do to its parts, one lemma for each part that a later proof asks
for. The parts not named are left as they are.
-/

namespace GrammarKit

@[simp] theorem Cursor.read_layout_rest (c : Cursor) :
    (c.read (layoutLength c.rest)).rest = settle c.rest := rfl

namespace Session

variable (s : Session)

theorem peek_fst (branch : Bool) (candidates : List Token) :
    (s.peek branch candidates).1 = candidates.find? (Token.startsAt s.cursor.rest) := by
  unfold peek
  cases candidates.find? (Token.startsAt s.cursor.rest) <;> rfl

@[simp] theorem peek_cursor (branch : Bool) (candidates : List Token) :
    (s.peek branch candidates).2.cursor = s.cursor := by
  unfold peek
  split <;> rfl

@[simp] theorem peek_current (branch : Bool) (candidates : List Token) :
    (s.peek branch candidates).2.current = s.current := by
  unfold peek
  split <;> rfl

@[simp] theorem peek_invocations (branch : Bool) (candidates : List Token) :
    (s.peek branch candidates).2.invocations = s.invocations := by
  unfold peek
  split <;> rfl

@[simp] theorem peek_failures (branch : Bool) (candidates : List Token) :
    (s.peek branch candidates).2.failures = s.failures := by
  unfold peek
  split <;> rfl

@[simp] theorem peek_noted (branch : Bool) (candidates : List Token) :
    (s.peek branch candidates).2.noted = s.noted := by
  unfold peek
  split <;> rfl

@[simp] theorem peek_lastNoted (branch : Bool) (candidates : List Token) :
    (s.peek branch candidates).2.lastNoted = s.lastNoted := by
  unfold peek
  split <;> rfl

@[simp] theorem peek_debug (branch : Bool) (candidates : List Token) :
    (s.peek branch candidates).2.debug = s.debug := by
  unfold peek
  split <;> rfl

@[simp] theorem peek_trace (branch : Bool) (candidates : List Token) :
    (s.peek branch candidates).2.trace = s.trace := by
  unfold peek
  split <;> rfl

theorem peek_tried_of_miss {branch : Bool} {candidates : List Token}
    (h : candidates.find? (Token.startsAt s.cursor.rest) = none) :
    (s.peek branch candidates).2.tried =
      some ((if branch then s.tried.getD [] else []) ++ candidates) := by
  unfold peek
  rw [h]

@[simp] theorem fail_fst (tried : List Token) : (s.fail tried).1 = s.failures.size := rfl

@[simp] theorem fail_cursor (tried : List Token) : (s.fail tried).2.cursor = s.cursor := rfl

@[simp] theorem fail_invocations (tried : List Token) :
    (s.fail tried).2.invocations = s.invocations := rfl

theorem fail_failures (tried : List Token) :
    (s.fail tried).2.failures =
      s.failures.push
        ⟨s.current, s.cursor.position, if tried.isEmpty then s.tried.getD [] else tried⟩ := rfl

@[simp] theorem expect_cursor (candidates : List Token) :
    (s.expect candidates).2.cursor = s.cursor := by
  unfold expect
  have := s.peek_cursor false candidates
  split <;> simp_all

@[simp] theorem expect_invocations (candidates : List Token) :
    (s.expect candidates).2.invocations = s.invocations := by
  unfold expect
  have := s.peek_invocations false candidates
  split <;> simp_all

theorem consume_of_hit {t : Token} {n : Nat} (h : t.length? s.cursor.rest = some n) :
    s.consume t = (.ok (s.cursor.rest.take n), { s with cursor := s.cursor.read n }) := by
  unfold consume
  rw [h]

theorem consume_of_miss {t : Token} (h : t.length? s.cursor.rest = none) :
    s.consume t = (.error (s.fail [t]).1, (s.fail [t]).2) := by
  unfold consume
  rw [h]

@[simp] theorem consume_invocations (t : Token) :
    (s.consume t).2.invocations = s.invocations := by
  unfold consume
  split <;> rfl

@[simp] theorem consume_noted (t : Token) : (s.consume t).2.noted = s.noted := by
  unfold consume
  split <;> rfl

@[simp] theorem enter_cursor (rule : Rule) :
    (s.enter rule).2.cursor = s.cursor.read (layoutLength s.cursor.rest) := rfl

theorem enter_rest (rule : Rule) :
    (s.enter rule).2.cursor.rest = settle s.cursor.rest := rfl

@[simp] theorem enter_current (rule : Rule) :
    (s.enter rule).2.current = some s.invocations.size := rfl

@[simp] theorem enter_failures (rule : Rule) : (s.enter rule).2.failures = s.failures := rfl

theorem enter_invocations (rule : Rule) :
    (s.enter rule).2.invocations =
      s.invocations.push ⟨rule, s.current, (s.enter rule).2.position⟩ := rfl

@[simp] theorem enter_size (rule : Rule) :
    (s.enter rule).2.invocations.size = s.invocations.size + 1 := by
  rw [enter_invocations, InvocationTree.size, InvocationTree.push, Array.size_push,
    InvocationTree.size]

theorem get?_enter (rule : Rule) (id : Nat) :
    (s.enter rule).2.invocations.get? id =
      if id = s.invocations.size then some ⟨rule, s.current, (s.enter rule).2.position⟩
      else s.invocations.get? id := by
  rw [enter_invocations, InvocationTree.get?, InvocationTree.push, Array.getElem?_push,
    InvocationTree.size, InvocationTree.get?]

@[simp] theorem enter_noted (rule : Rule) : (s.enter rule).2.noted = s.noted := rfl

@[simp] theorem enter_debug (rule : Rule) : (s.enter rule).2.debug = s.debug := rfl

theorem enter_trace (rule : Rule) :
    (s.enter rule).2.trace =
      if s.debug then s.trace.push ⟨rule, (s.enter rule).2.position, s.depth, false⟩
      else s.trace := rfl

@[simp] theorem enter_fst_parent (rule : Rule) : (s.enter rule).1.parent = s.current := rfl

section

variable {α : Type} (frame : Frame) (result : Except FailureId α)

@[simp] theorem markSucceeded_cursor (record : Option Nat) :
    (s.markSucceeded record).cursor = s.cursor := by
  cases record <;> rfl

@[simp] theorem note_cursor (e : FailureId) : (s.note e).cursor = s.cursor := by
  unfold note
  split <;> rfl

@[simp] theorem leave_cursor :
    (s.leave frame result).cursor = s.cursor.read (layoutLength s.cursor.rest) := by
  unfold leave skipLayout
  cases result <;> simp

theorem leave_rest : (s.leave frame result).cursor.rest = settle s.cursor.rest := by simp

@[simp] theorem leave_current : (s.leave frame result).current = frame.parent := by
  unfold leave skipLayout
  cases result <;> rfl

@[simp] theorem leave_invocations : (s.leave frame result).invocations = s.invocations := by
  unfold leave skipLayout
  cases result with
  | ok a =>
    unfold markSucceeded
    cases frame.record <;> rfl
  | error e =>
    unfold note
    dsimp only
    split <;> rfl

@[simp] theorem leave_failures : (s.leave frame result).failures = s.failures := by
  unfold leave skipLayout
  cases result with
  | ok a =>
    unfold markSucceeded
    cases frame.record <;> rfl
  | error e =>
    unfold note
    dsimp only
    split <;> rfl

theorem leave_noted : (s.leave frame result).noted =
    match result with
    | .ok _ => s.noted
    | .error e => if s.lastNoted = some e then s.noted else s.noted.push e := by
  unfold leave skipLayout
  cases result with
  | ok a =>
    unfold markSucceeded
    cases frame.record <;> rfl
  | error e =>
    unfold note
    dsimp only
    split <;> rfl

theorem leave_lastNoted : (s.leave frame result).lastNoted =
    match result with
    | .ok _ => s.lastNoted
    | .error e => some e := by
  unfold leave skipLayout
  cases result with
  | ok a =>
    unfold markSucceeded
    cases frame.record <;> rfl
  | error e =>
    unfold note
    dsimp only
    split
    · assumption
    · rfl

@[simp] theorem leave_debug : (s.leave frame result).debug = s.debug := by
  unfold leave skipLayout
  cases result with
  | ok a =>
    unfold markSucceeded
    cases frame.record <;> rfl
  | error e =>
    unfold note
    dsimp only
    split <;> rfl

theorem leave_trace : (s.leave frame result).trace =
    match result with
    | .ok _ => (s.markSucceeded frame.record).trace
    | .error _ => s.trace := by
  unfold leave skipLayout
  cases result with
  | ok a => rfl
  | error e =>
    unfold note
    dsimp only
    split <;> rfl

variable {s frame result}

theorem exists_record_of_leave {n : Nat} {r : TraceEntry}
    (h : (s.leave frame result).trace[n]? = some r) :
    ∃ r', s.trace[n]? = some r' ∧ r'.rule = r.rule ∧ r'.position = r.position ∧
      r'.depth = r.depth := by
  rw [leave_trace] at h
  cases result with
  | error e => exact ⟨r, h, rfl, rfl, rfl⟩
  | ok a =>
    unfold markSucceeded at h
    cases hr : frame.record with
    | none =>
      rw [hr] at h
      exact ⟨r, h, rfl, rfl, rfl⟩
    | some i =>
      simp only [hr, Array.getElem?_modify] at h
      split at h
      · obtain ⟨r', hr', rfl⟩ := Option.map_eq_some_iff.1 h
        exact ⟨r', hr', rfl, rfl, rfl⟩
      · exact ⟨r, h, rfl, rfl, rfl⟩

theorem mem_noted_leave {e : FailureId} (h : e ∈ (s.leave frame result).noted) :
    e ∈ s.noted ∨ result = .error e := by
  rw [leave_noted] at h
  cases result with
  | ok a => exact .inl h
  | error e' =>
    dsimp only at h
    split at h
    · exact .inl h
    · rcases Array.mem_push.1 h with before | rfl
      · exact .inl before
      · exact .inr rfl

end

end Session

end GrammarKit
