import GrammarKit.Proofs.Gap
import GrammarKit.Proofs.Session.Linked

/-!
Two sessions, one of which took a detour: it ran something in vain and went back. It has more
invocations and failures recorded, all of them from the detour, and one more failure noted. From then
on both do the same, with every record made later standing that much further on. What is kept of the
tokens tried and of the failure noted last does not get in the way, since an invocation looks afresh
before it refuses and forgets what was noted before.

Main statement: running a rule keeps the sessions related, and gives the same in both.
-/

namespace GrammarKit

open Session

/-- What a detour has left behind: where its records begin and how many there are, and the failure
noted of them. -/
structure Detour where
  invocations : Gap
  failures : Gap
  noted : FailureId
  within : failures.start ≤ noted ∧ noted < failures.start + failures.length

namespace Detour

variable (d : Detour)

def invocation (i : Invocation) : Invocation :=
  { i with parent := i.parent.map d.invocations.shift }

def failure (f : Failure) : Failure :=
  { f with invocation := f.invocation.map d.invocations.shift }

def result {α : Type} : Except FailureId α → Except FailureId α :=
  Except.mapError d.failures.shift

structure Related (s u : Session) : Prop where
  cursor : u.cursor = s.cursor
  current : u.current = s.current.map d.invocations.shift
  invocations : d.invocations.Spreads d.invocation s.invocations.records u.invocations.records
  failures : d.failures.Spreads d.failure s.failures u.failures
  noted : ∃ before after, s.noted.toList = before ++ after ∧
    u.noted.toList =
      before.map d.failures.shift ++ d.noted :: after.map d.failures.shift

/-- The sessions are related inside an invocation begun since. If the tokens tried have been looked
for there, then they are the same. -/
structure Abreast (looked : Bool) (s u : Session) : Prop extends d.Related s u where
  lastNoted : u.lastNoted = s.lastNoted.map d.failures.shift
  tried : looked = true → u.tried = s.tried

/-- Two outcomes that differ by the detour only: the second is the first with the value renamed, and
the sessions left behind are related by `R`. -/
def Agree {α : Type} (R : Session → Session → Prop) (rename : α → α) :
    Except Abort (α × Session) → Except Abort (α × Session) → Prop
  | .ok (a, s), .ok (b, u) => b = rename a ∧ R s u
  | .error why, .error why' => why' = why
  | _, _ => False

variable {d} {s u : Session} {looked : Bool}

theorem Abreast.mono (h : d.Abreast looked s u) : d.Abreast false s u :=
  { h with tried := fun h => absurd h Bool.false_ne_true }

theorem Agree.cases {α : Type} {R : Session → Session → Prop} {rename : α → α}
    {x y : Except Abort (α × Session)} (h : Agree R rename x y) :
    (∃ why, x = .error why ∧ y = .error why) ∨
      ∃ a s u, x = .ok (a, s) ∧ y = .ok (rename a, u) ∧ R s u := by
  match x, y with
  | .error why, .error why' => exact .inl ⟨why, rfl, congrArg Except.error h⟩
  | .ok (a, s), .ok (b, u) => exact .inr ⟨a, s, u, rfl, by rw [h.1], h.2⟩
  | .ok _, .error _ => exact h.elim
  | .error _, .ok _ => exact h.elim

namespace Related

theorem push_noted (h : d.Related s u) (e : FailureId) :
    ∃ before after, (s.noted.push e).toList = before ++ after ∧
      (u.noted.push (d.failures.shift e)).toList =
        before.map d.failures.shift ++ d.noted :: after.map d.failures.shift := by
  obtain ⟨before, after, hs, hu⟩ := h.noted
  exact ⟨before, after ++ [e], by simp [hs], by simp [hu]⟩

theorem enter (h : d.Related s u) (rule : Rule) :
    d.Abreast false (s.enter rule).2 (u.enter rule).2 where
  cursor := by rw [enter_cursor, enter_cursor, h.cursor]
  current := by
    rw [enter_current, enter_current]
    exact congrArg some h.invocations.shift_size.symm
  invocations := by
    have entry : (u.enter rule).2.position = (s.enter rule).2.position := by
      rw [position, position, enter_cursor, enter_cursor, h.cursor]
    rw [enter_invocations, enter_invocations, entry, h.current]
    exact h.invocations.push _
  failures := h.failures
  noted := h.noted
  lastNoted := rfl
  tried := fun h => absurd h Bool.false_ne_true

end Related

namespace Abreast

theorem peek_fst (h : d.Abreast looked s u) (branch : Bool) (candidates : List Token) :
    (u.peek branch candidates).1 = (s.peek branch candidates).1 := by
  rw [Session.peek_fst, Session.peek_fst, h.cursor]

theorem peek (h : d.Abreast looked s u) {branch : Bool} (hbranch : branch = true → looked = true)
    (candidates : List Token) :
    d.Abreast true (s.peek branch candidates).2 (u.peek branch candidates).2 where
  cursor := by simpa using h.cursor
  current := by simpa using h.current
  invocations := by simpa using h.invocations
  failures := by simpa using h.failures
  noted := by simpa using h.noted
  lastNoted := by simpa using h.lastNoted
  tried := by
    intro _
    unfold Session.peek
    rw [h.cursor]
    split
    · rfl
    · cases branch with
      | false => rfl
      | true => simp only [if_true, h.tried (hbranch rfl)]

theorem read (h : d.Abreast looked s u) (n : Nat) :
    d.Abreast looked { s with cursor := s.cursor.read n } { u with cursor := u.cursor.read n } :=
  { h with cursor := by rw [h.cursor] }

theorem fail_fst (h : d.Abreast looked s u) (tried : List Token) :
    (u.fail tried).1 = d.failures.shift (s.fail tried).1 :=
  h.failures.shift_size.symm

theorem fail (h : d.Abreast looked s u) {tried : List Token}
    (same : tried = [] → looked = true) :
    d.Abreast false (s.fail tried).2 (u.fail tried).2 where
  cursor := h.cursor
  current := h.current
  invocations := h.invocations
  failures := by
    have named : (if tried.isEmpty then u.tried.getD [] else tried) =
        if tried.isEmpty then s.tried.getD [] else tried := by
      cases tried with
      | nil => rw [h.tried (same rfl)]
      | cons t ts => rfl
    rw [fail_failures, fail_failures, named, h.current, h.cursor]
    exact h.failures.push _
  noted := h.noted
  lastNoted := h.lastNoted
  tried := fun h => absurd h Bool.false_ne_true

theorem leave {α : Type} (h : d.Abreast looked s u) {frame frame' : Frame}
    (parent : frame'.parent = frame.parent.map d.invocations.shift)
    (result : Except FailureId α) :
    d.Abreast false (s.leave frame result) (u.leave frame' (d.result result)) where
  cursor := by rw [leave_cursor, leave_cursor, h.cursor]
  current := by rw [leave_current, leave_current, parent]
  invocations := by
    rw [leave_invocations, leave_invocations]
    exact h.invocations
  failures := by
    rw [leave_failures, leave_failures]
    exact h.failures
  noted := by
    rw [leave_noted, leave_noted]
    cases result with
    | ok a => exact h.noted
    | error e =>
      have same : u.lastNoted = some (d.failures.shift e) ↔ s.lastNoted = some e := by
        rw [h.lastNoted]
        exact Option.map_injective d.failures.shift_injective |>.eq_iff (b := some e)
      simp only [result, Except.mapError, same]
      split
      · exact h.noted
      · exact h.push_noted e
  lastNoted := by
    rw [leave_lastNoted, leave_lastNoted]
    cases result with
    | ok a => exact h.lastNoted
    | error e => rfl
  tried := fun h => absurd h Bool.false_ne_true

end Abreast

/-- What a body does alike it does alike as an invocation. -/
theorem Related.invoke {α : Type} {rule : Rule} {body : Session → Result α} (h : d.Related s u)
    (inner : Agree (d.Abreast false) d.result (body (s.enter rule).2) (body (u.enter rule).2)) :
    Agree (d.Abreast false) d.result (s.invoke rule body) (u.invoke rule body) := by
  unfold Session.invoke
  dsimp only
  rcases inner.cases with ⟨why, hs, hu⟩ | ⟨result, s', u', hs, hu, rel⟩
  · rw [hs, hu]
    exact rfl
  · rw [hs, hu]
    exact ⟨rfl, rel.leave h.current result⟩

end Detour

namespace Handler

open Detour

variable {d : Detour} {s u : Session}

theorem exec_invoke {α β : Type} (rule : Rule) (body : Handler β)
    (k : Except FailureId β → Handler α) (s : Session) :
    (invoke rule body k).exec s =
      match s.invoke rule body.exec with
      | .error why => .error why
      | .ok (r, s) => (k r).exec s := by
  cases h : body.exec (s.enter rule).2 <;> simp [exec, Session.invoke, h]

/-- What a careful handler does is the same with a detour behind it. -/
theorem exec_abreast {α : Type} {h : Handler α} {looked : Bool} (hh : h.Careful looked)
    (rel : d.Abreast looked s u) :
    Agree (d.Abreast false) d.result (h.exec s) (h.exec u) := by
  induction h generalizing s u looked with
  | done a => exact ⟨rfl, rel.mono⟩
  | reraise e => exact hh.elim
  | abort why => exact rfl
  | peek branch candidates k ih =>
    obtain ⟨-, hbranch, hnone, hsome⟩ := hh
    have peeked := rel.peek hbranch candidates
    simp only [exec]
    rw [rel.peek_fst]
    cases (s.peek branch candidates).1 with
    | none => exact ih none hnone peeked
    | some t => exact ih (some t) (hsome t) peeked.mono
  | consume t k ih =>
    obtain ⟨herr, hok⟩ := hh
    cases hn : t.length? s.cursor.rest with
    | none =>
      have hn' : t.length? u.cursor.rest = none := by rw [rel.cursor, hn]
      simp only [exec, s.consume_of_miss hn, u.consume_of_miss hn', herr]
      exact ⟨congrArg Except.error (rel.fail_fst [t]), rel.fail (by simp)⟩
    | some n =>
      have hn' : t.length? u.cursor.rest = some n := by rw [rel.cursor, hn]
      have same : u.cursor.rest = s.cursor.rest := congrArg Cursor.rest rel.cursor
      simp only [exec, s.consume_of_hit hn, u.consume_of_hit hn', same]
      rcases (hok _ n hn).cases with ⟨a, ha⟩ | ⟨why, hw⟩
      · rw [ha]
        exact ⟨rfl, (rel.read n).mono⟩
      · rw [hw]
        exact rfl
  | fail tried k ih =>
    obtain ⟨hk, -, hlooked⟩ := hh
    simp only [exec, hk]
    exact ⟨congrArg Except.error (rel.fail_fst tried), rel.fail fun _ => hlooked⟩
  | invoke rule body k ihb ihk =>
    obtain ⟨hbody, herr, hok⟩ := hh
    rw [exec_invoke, exec_invoke]
    rcases (rel.invoke (ihb hbody (rel.enter rule))).cases with
      ⟨why, hs, hu⟩ | ⟨result, s', u', hs, hu, rel'⟩
    · rw [hs, hu]
      exact rfl
    · rw [hs, hu]
      cases result with
      | error e =>
        simp only [Detour.result, Except.mapError, herr]
        exact ⟨rfl, rel'⟩
      | ok b => exact ihk (.ok b) (hok b) rel'
  | attempt rule body k => exact hh.elim

end Handler

namespace Detour.Related

variable {d : Detour} {s u : Session}

theorem run (h : d.Related s u) (rule : Rule) :
    Agree (d.Abreast false) d.result (s.run rule) (u.run rule) := by
  have text : u.text = s.text := congrArg Cursor.text h.cursor
  unfold Session.run
  rw [text]
  exact h.invoke (Handler.exec_abreast (Rule.careful_handler _ rule) (h.enter rule))

theorem attempt (h : d.Related s u) (rule : Rule) :
    Agree d.Related id (s.attempt rule) (u.attempt rule) := by
  unfold Session.attempt
  dsimp only
  rcases (h.run rule).cases with ⟨why, hs, hu⟩ | ⟨result, s', u', hs, hu, rel⟩
  · rw [hs, hu]
    exact rfl
  · rw [hs, hu]
    cases result with
    | error e => exact ⟨rfl, { rel.toRelated with cursor := h.cursor }⟩
    | ok a => exact ⟨rfl, rel.toRelated⟩

end Detour.Related

namespace Session

variable {s u : Session}

def detour (s u : Session) (e : FailureId) (within : s.failures.size ≤ e ∧ e < u.failures.size) :
    Detour where
  invocations := ⟨s.invocations.size, u.invocations.size - s.invocations.size⟩
  failures := ⟨s.failures.size, u.failures.size - s.failures.size⟩
  noted := e
  within := by
    have le := Nat.le_of_lt (Nat.lt_of_le_of_lt within.1 within.2)
    exact ⟨within.1, by rw [Nat.add_sub_cancel' le]; exact within.2⟩

/-- Going on from a session, noting one failure and going back is a detour: nothing that the session
had recorded names a record of it. -/
theorem Linked.related_detour (h : s.Linked) {e : FailureId}
    (within : s.failures.size ≤ e ∧ e < u.failures.size) (cursor : u.cursor = s.cursor)
    (current : u.current = s.current) (keeps : Keeps s u) (noted : u.noted = s.noted.push e) :
    (s.detour u e within).Related s u where
  cursor := cursor
  current := current.trans (Gap.map_shift_of_lt h.current).symm
  invocations := by
    refine .of_extends keeps.invocations_le keeps.invocations fun id i hi => ?_
    have id_lt := (Array.getElem?_eq_some_iff.1 hi).1
    have parent := Gap.map_shift_of_lt (g := (s.detour u e within).invocations)
      fun p hp => Nat.lt_trans (h.parents id i hi p hp) id_lt
    exact congrArg (fun parent => { i with parent := parent }) parent
  failures := by
    refine .of_extends keeps.failures_le keeps.failures fun id f hf => ?_
    have blamed := Gap.map_shift_of_lt (g := (s.detour u e within).invocations) (h.blamed id f hf)
    exact congrArg (fun invocation => { f with invocation := invocation }) blamed
  noted := by
    refine ⟨s.noted.toList, [], (List.append_nil _).symm, ?_⟩
    have before : s.noted.toList.map (s.detour u e within).failures.shift = s.noted.toList := by
      conv_rhs => rw [← List.map_id s.noted.toList]
      refine List.map_congr_left fun n hn => Gap.shift_of_lt (h.noted n ?_)
      exact Array.mem_toList_iff.1 hn
    rw [before, noted, Array.toList_push]
    rfl

/-- An attempt in vain is a detour. -/
theorem Linked.related_attempt (h : s.Linked) {rule : Rule}
    (hr : s.attempt rule = .ok (none, u)) :
    ∃ e t, ∃ within : s.failures.size ≤ e ∧ e < u.failures.size,
      s.run rule = .ok (.error e, t) ∧ (s.detour u e within).Related s u := by
  have keeps := attempt_keeps hr
  rcases attempt_eq_ok hr with ⟨a, habs, -⟩ | ⟨e, t, -, hrun, rfl⟩
  · cases habs
  obtain ⟨since, here, noted⟩ := run_notes hrun
  exact ⟨e, t, ⟨since, here⟩, hrun,
    h.related_detour _ rfl (run_grows hrun).current keeps noted⟩

end Session

end GrammarKit
