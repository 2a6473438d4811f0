import GrammarKit.Proofs.Rule.Careful
import GrammarKit.Proofs.Session.Growth

/-!
What a failure of a rule says of the session it is raised in. The tokens that a peek tries are kept
in one place and say nothing of where they were tried. A careful handler refuses only where it has
just looked, so in its failures the tokens and the place belong together.

Main statement: whatever was done with a session before, a failure of any rule names some tokens,
none of which stands where the cursor is left, and belongs to an invocation of that run.
-/

namespace GrammarKit

namespace Session

def Missed (s : Session) : Prop :=
  ∃ tried, s.tried = some tried ∧ tried ≠ [] ∧
    ∀ t ∈ tried, Token.startsAt s.cursor.rest t = false

structure Explains (s : Session) (f : Failure) : Prop where
  position : f.position = s.position
  settled : Settled s.cursor.rest
  tried_ne_nil : f.tried ≠ []
  missed : ∀ t ∈ f.tried, Token.startsAt s.cursor.rest t = false

variable {s u : Session}

theorem missed_peek {branch : Bool} {candidates : List Token} (hne : candidates ≠ [])
    (hbranch : branch = true → s.Missed)
    (hmiss : candidates.find? (Token.startsAt s.cursor.rest) = none) :
    (s.peek branch candidates).2.Missed := by
  refine ⟨_, s.peek_tried_of_miss hmiss, ?_, ?_⟩
  · simp [hne]
  · intro t ht
    rw [peek_cursor]
    rcases List.mem_append.1 ht with hbefore | hcand
    · cases branch with
      | false => cases hbefore
      | true =>
        obtain ⟨tried, htried, -, hmissed⟩ := hbranch rfl
        rw [if_pos rfl, htried] at hbefore
        exact hmissed t hbefore
    · simpa using List.find?_eq_none.1 hmiss t hcand

theorem explains_fail_nil (hs : Settled s.cursor.rest) (h : s.Missed) :
    (s.fail []).2.Explains ⟨s.current, s.position, s.tried.getD []⟩ := by
  obtain ⟨tried, htried, hne, hmissed⟩ := h
  rw [htried]
  exact ⟨rfl, hs, hne, hmissed⟩

theorem explains_fail_token (hs : Settled s.cursor.rest) {t : Token}
    (h : t.length? s.cursor.rest = none) :
    (s.fail [t]).2.Explains ⟨s.current, s.position, [t]⟩ := by
  refine ⟨rfl, hs, by simp, fun t' ht' => ?_⟩
  rw [List.mem_singleton.1 ht', fail_cursor, Token.startsAt, h]
  rfl

theorem get?_fail (s : Session) (tried : List Token) :
    (s.fail tried).2.failures[(s.fail tried).1]? =
      some ⟨s.current, s.position, if tried.isEmpty then s.tried.getD [] else tried⟩ := by
  rw [fail_failures, fail_fst, Array.getElem?_push_size]
  rfl

theorem Explains.leave {α : Type} {f : Failure} (h : s.Explains f) (frame : Frame)
    (result : Except FailureId α) : (s.leave frame result).Explains f := by
  have same : (s.leave frame result).cursor = s.cursor := by
    rw [leave_cursor, h.settled.layoutLength, Cursor.read_zero]
  constructor
  · exact h.position.trans (congrArg Cursor.position same.symm)
  · rw [same]
    exact h.settled
  · exact h.tried_ne_nil
  · rw [same]
    exact h.missed

def Begun (s u : Session) (invocation : Option Nat) : Prop :=
  ∃ id, invocation = some id ∧ s.invocations.size ≤ id ∧ id < u.invocations.size

/-- What has run in `s` refuses with the failure `e` and leaves `u`: the failure says why, and is that
of the invocation that runs or of one begun since. -/
def Refuses (s u : Session) (e : FailureId) : Prop :=
  ∃ f, u.failures[e]? = some f ∧ u.Explains f ∧
    (f.invocation = s.current ∨ s.Begun u f.invocation)

theorem refuses_fail_nil (hs : Settled s.cursor.rest) (h : s.Missed) :
    s.Refuses (s.fail []).2 (s.fail []).1 :=
  ⟨_, s.get?_fail [], explains_fail_nil hs h, .inl rfl⟩

theorem refuses_fail_token (hs : Settled s.cursor.rest) {t : Token}
    (h : t.length? s.cursor.rest = none) : s.Refuses (s.fail [t]).2 (s.fail [t]).1 :=
  ⟨_, s.get?_fail [t], explains_fail_token hs h, .inl rfl⟩

namespace Refuses

variable {t : Session} {e : FailureId} {rule : Rule}

theorem of_peek {branch : Bool} {candidates : List Token}
    (h : (s.peek branch candidates).2.Refuses u e) : s.Refuses u e := by
  obtain ⟨f, hf, explains, hid⟩ := h
  rw [peek_current] at hid
  refine ⟨f, hf, explains, hid.imp_right ?_⟩
  rintro ⟨id, same, begun, held⟩
  rw [peek_invocations] at begun
  exact ⟨id, same, begun, held⟩

theorem invoke {α : Type} (h : (s.enter rule).2.Refuses t e)
    (size : s.invocations.size < t.invocations.size) (result : Except FailureId α) :
    ∃ f, (t.leave (s.enter rule).1 result).failures[e]? = some f ∧
      (t.leave (s.enter rule).1 result).Explains f ∧
      s.Begun (t.leave (s.enter rule).1 result) f.invocation := by
  obtain ⟨f, hf, explains, hid⟩ := h
  refine ⟨f, by rwa [leave_failures], explains.leave _ _, ?_⟩
  unfold Begun
  rw [leave_invocations]
  rcases hid with own | ⟨id, same, begun, held⟩
  · exact ⟨_, own, Nat.le_refl _, size⟩
  · rw [enter_size] at begun
    exact ⟨id, same, Nat.le_of_succ_le begun, held⟩

theorem behind {α : Type} {result : Except FailureId α}
    (h : (t.leave (s.enter rule).1 result).Refuses u e)
    (size : s.invocations.size < t.invocations.size) : s.Refuses u e := by
  obtain ⟨f, hf, explains, hid⟩ := h
  rw [leave_current, enter_fst_parent] at hid
  refine ⟨f, hf, explains, hid.imp_right ?_⟩
  rintro ⟨id, same, begun, held⟩
  rw [leave_invocations] at begun
  exact ⟨id, same, Nat.le_trans (Nat.le_of_lt size) begun, held⟩

end Refuses

end Session

namespace Handler

open Session

/-- A careful handler refuses only where it has just looked. -/
theorem Runs.refuses {α : Type} {looked : Bool} {s u : Session} {r : Except FailureId α}
    {e : FailureId} (h : Runs looked s r u) (hr : r = .error e) (hs : Settled s.cursor.rest)
    (hlooked : looked = true → s.Missed) : s.Refuses u e := by
  induction h with
  | done s a => cases hr
  | hit rest ih =>
    refine (ih hr ?_ nofun).of_peek
    rwa [peek_cursor]
  | miss nonempty further none rest ih =>
    refine (ih hr ?_ fun _ => missed_peek nonempty (fun hb => hlooked (further hb)) none).of_peek
    rwa [peek_cursor]
  | read s n a => cases hr
  | unread none =>
    cases hr
    exact refuses_fail_token hs none
  | refuse s =>
    cases hr
    exact refuses_fail_nil hs (hlooked rfl)
  | failed body ih =>
    cases hr
    have refused := ih rfl (settled_settle _) nofun
    obtain ⟨f, hf, explains, begun⟩ := refused.invoke body.grows.size_lt (.error e)
    exact ⟨f, hf, explains, .inr begun⟩
  | invoked body rest ihb ih =>
    refine (ih hr ?_ nofun).behind body.grows.size_lt
    rw [leave_rest]
    exact settled_settle _

end Handler

namespace Session

/-- The sessions that operations lead to. An invocation may be left with any frame and result. -/
inductive Reachable : Session → Prop
  | start (text : String) (debug : Bool) : Reachable (ofText text debug)
  | peek {s : Session} (h : Reachable s) (branch : Bool) (candidates : List Token) :
      Reachable (s.peek branch candidates).2
  | expect {s : Session} (h : Reachable s) (candidates : List Token) :
      Reachable (s.expect candidates).2
  | consume {s : Session} (h : Reachable s) (t : Token) : Reachable (s.consume t).2
  | fail {s : Session} (h : Reachable s) (tried : List Token) : Reachable (s.fail tried).2
  | enter {s : Session} (h : Reachable s) (rule : Rule) : Reachable (s.enter rule).2
  | leave {s : Session} (h : Reachable s) {α : Type} (frame : Frame)
      (result : Except FailureId α) : Reachable (s.leave frame result)
  | run {s u : Session} (h : Reachable s) (rule : Rule) (result : Except FailureId rule.Output)
      (hr : s.run rule = .ok (result, u)) : Reachable u
  | attempt {s u : Session} (h : Reachable s) (rule : Rule) (result : Option rule.Output)
      (hr : s.attempt rule = .ok (result, u)) : Reachable u

variable {s u : Session} {rule : Rule}

theorem invoke_eq_ok {α : Type} {body : Session → Result α} {result : Except FailureId α}
    (hr : s.invoke rule body = .ok (result, u)) :
    ∃ t, body (s.enter rule).2 = .ok (result, t) ∧ u = t.leave (s.enter rule).1 result := by
  unfold invoke at hr
  dsimp only at hr
  split at hr
  · cases hr
  · rename_i result' t hb
    cases hr
    exact ⟨t, hb, rfl⟩

theorem run_eq_ok {result : Except FailureId rule.Output} (hr : s.run rule = .ok (result, u)) :
    ∃ t, (rule.handler (Rule.fuelFor s.text)).exec (s.enter rule).2 = .ok (result, t) ∧
      u = t.leave (s.enter rule).1 result := invoke_eq_ok hr

theorem run_grows {result : Except FailureId rule.Output} (hr : s.run rule = .ok (result, u)) :
    Grows s u := by
  obtain ⟨t, ht, rfl⟩ := run_eq_ok hr
  exact .invoke ((Rule.careful_handler _ rule).runs ht).grows

theorem attempt_moves {result : Option rule.Output} (hr : s.attempt rule = .ok (result, u)) :
    ∃ n, u.cursor = s.cursor.read n := by
  unfold Session.attempt at hr
  cases hrun : s.run rule with
  | error why =>
    rw [hrun] at hr
    cases hr
  | ok result' =>
    obtain ⟨result', t⟩ := result'
    rw [hrun] at hr
    cases result' with
    | error e =>
      cases hr
      exact ⟨0, (Cursor.read_zero _).symm⟩
    | ok a =>
      cases hr
      exact (run_grows hrun).cursor

theorem Reachable.coherent (h : s.Reachable) : s.cursor.Coherent := by
  induction h with
  | start text debug => exact Cursor.coherent_ofText text
  | peek h branch candidates ih => rwa [peek_cursor]
  | expect h candidates ih => rwa [expect_cursor]
  | @consume s h t ih =>
    cases hn : t.length? s.cursor.rest with
    | none =>
      rw [consume_of_miss _ hn]
      exact ih
    | some n =>
      rw [consume_of_hit _ hn]
      exact ih.read n
  | fail h tried ih => exact ih
  | enter h rule ih =>
    rw [enter_cursor]
    exact ih.read _
  | leave h frame result ih =>
    rw [leave_cursor]
    exact ih.read _
  | run h rule result hr ih =>
    obtain ⟨n, hn⟩ := (run_grows hr).cursor
    rw [hn]
    exact ih.read n
  | attempt h rule result hr ih =>
    obtain ⟨n, hn⟩ := attempt_moves hr
    rw [hn]
    exact ih.read n

/-- A failure of a rule is raised in an invocation of that run, where the cursor is left. -/
theorem run_explains {e : FailureId} (hr : s.run rule = .ok (.error e, u)) :
    ∃ f, u.failures[e]? = some f ∧ u.Explains f ∧ s.Begun u f.invocation := by
  obtain ⟨t, ht, rfl⟩ := run_eq_ok hr
  have runs := (Rule.careful_handler (Rule.fuelFor s.text) rule).runs ht
  have refused := runs.refuses rfl (settled_settle _) nofun
  exact refused.invoke runs.grows.size_lt (.error e : Except _ _)

structure Truthful (s u : Session) (f : Failure) : Prop where
  tried_ne_nil : f.tried ≠ []
  missed : ∃ rest, textFrom s.text f.position.offset = some rest ∧
    ∀ t ∈ f.tried, Token.startsAt rest t = false
  position : u.position = f.position
  entries : ∀ id i, s.invocations.size ≤ id → u.invocations.get? id = some i →
    i.entry.offset ≤ f.position.offset
  invocation : ∃ id, f.invocation = some id ∧ s.invocations.size ≤ id ∧ id < u.invocations.size

theorem run_failure_truthful {e : FailureId} (hs : s.Reachable)
    (hr : s.run rule = .ok (.error e, u)) :
    ∃ f, u.failures[e]? = some f ∧ Truthful s u f := by
  obtain ⟨f, hf, hexplains, hid⟩ := run_explains hr
  have grows := run_grows hr
  have rest : textFrom s.text u.position.offset = some u.cursor.rest := by
    rw [← grows.text]
    exact (hs.run rule _ hr).coherent.textFrom
  have entries := grows.entries
  rw [← hexplains.position] at rest entries
  exact ⟨f, hf, hexplains.tried_ne_nil, ⟨_, rest, hexplains.missed⟩, hexplains.position.symm,
    entries, hid⟩

/-- A group that is opened and not gone on with. -/
theorem run_failure_truthful_group :
    let s := ofText "(" false
    let u := { s with
      cursor := ⟨"(", ⟨1, 0, 1⟩, []⟩
      invocations := ⟨#[⟨.group, none, .start⟩, ⟨.brktBeg, some 0, .start⟩,
        ⟨.orExpr, some 0, ⟨1, 0, 1⟩⟩, ⟨.seqExpr, some 2, ⟨1, 0, 1⟩⟩]⟩
      failures := #[⟨some 3, ⟨1, 0, 1⟩, Rule.Body.itemStart⟩]
      noted := #[0]
      lastNoted := some 0
      tried := some Rule.Body.itemStart }
    s.run .group = .ok (.error 0, u) ∧ ∃ f, u.failures[0]? = some f ∧ Truthful s u f :=
  ⟨rfl, run_failure_truthful (.start "(" false) (show Session.run _ .group = _ from rfl)⟩

end Session

end GrammarKit
