import GrammarKit.Proofs.Session.Transparency

/-!
What an invocation leaves of the session around it. It goes back to the invocation that made it and
to its depth, and all that it records comes behind what was recorded before. Marking its own trace
record when it has succeeded changes none of the earlier ones, because that record was added when it
began; going back in the text takes none of them away.

Main statement: whatever a body does, an invocation of it leaves every earlier record in its place,
so every failure raised before is told of as before.
-/

namespace GrammarKit

theorem prefix_modify {α : Type} {xs ys : List α} (h : xs <+: ys) (f : α → α) :
    xs <+: ys.modify xs.length f := by
  rw [List.prefix_iff_eq_take, List.take_modify, ← List.prefix_iff_eq_take.1 h,
    List.modify_eq_self (Nat.le_refl _)]

theorem getElem?_of_prefix {α : Type} {xs ys : Array α} (h : xs.toList <+: ys.toList) {i : Nat}
    {x : α} (hx : xs[i]? = some x) : ys[i]? = some x := by
  obtain ⟨behind, happend⟩ := h
  obtain ⟨held, rfl⟩ := Array.getElem?_eq_some_iff.1 hx
  rw [← Array.getElem?_toList, ← happend, List.getElem?_append_left held, Array.getElem?_toList,
    Array.getElem?_eq_getElem held]

namespace Session

variable {s t u : Session}

@[simp] theorem peek_depth (s : Session) (branch : Bool) (candidates : List Token) :
    (s.peek branch candidates).2.depth = s.depth := by
  unfold peek
  split <;> rfl

theorem enter_depth (s : Session) (rule : Rule) : (s.enter rule).2.depth = s.depth + 1 := rfl

@[simp] theorem leave_depth {α : Type} (s : Session) (frame : Frame)
    (result : Except FailureId α) : (s.leave frame result).depth = frame.depth := by
  unfold leave skipLayout
  cases result <;> rfl

/-- `u` runs the invocation of `s`, at the same depth, and goes on with each of its lists. -/
structure Extends (s u : Session) : Prop where
  current : u.current = s.current
  depth : u.depth = s.depth
  invocations : s.invocations.records.toList <+: u.invocations.records.toList
  failures : s.failures.toList <+: u.failures.toList
  noted : s.noted.toList <+: u.noted.toList
  trace : s.trace.toList <+: u.trace.toList

namespace Extends

theorem refl (s : Session) : Extends s s :=
  ⟨rfl, rfl, List.prefix_refl _, List.prefix_refl _, List.prefix_refl _, List.prefix_refl _⟩

theorem trans (h : Extends s t) (k : Extends t u) : Extends s u where
  current := k.current.trans h.current
  depth := k.depth.trans h.depth
  invocations := h.invocations.trans k.invocations
  failures := h.failures.trans k.failures
  noted := h.noted.trans k.noted
  trace := h.trace.trans k.trace

theorem peek (s : Session) (branch : Bool) (candidates : List Token) :
    Extends s (s.peek branch candidates).2 := by
  constructor <;> simp

theorem fail (s : Session) (tried : List Token) : Extends s (s.fail tried).2 :=
  { refl s with
    failures := by
      rw [fail_failures, Array.toList_push]
      exact List.prefix_append _ _ }

theorem move (s : Session) (c : Cursor) : Extends s { s with cursor := c } := { refl s with }

theorem consume (s : Session) (t : Token) : Extends s (s.consume t).2 := by
  cases hn : t.length? s.cursor.rest with
  | none =>
    rw [s.consume_of_miss hn]
    exact fail s [t]
  | some n =>
    rw [s.consume_of_hit hn]
    exact move s _

theorem trace_enter (s : Session) (rule : Rule) :
    s.trace.toList <+: (s.enter rule).2.trace.toList := by
  rw [enter_trace]
  split
  · rw [Array.toList_push]
    exact List.prefix_append _ _
  · exact List.prefix_refl _

theorem invoke {α : Type} {rule : Rule} {result : Except FailureId α}
    (h : Extends (s.enter rule).2 t) : Extends s (t.leave (s.enter rule).1 result) where
  current := by rw [leave_current, enter_fst_parent]
  depth := by
    rw [leave_depth]
    rfl
  invocations := by
    rw [leave_invocations]
    refine List.IsPrefix.trans ?_ h.invocations
    rw [enter_invocations, InvocationTree.push, Array.toList_push]
    exact List.prefix_append _ _
  failures := by
    rw [leave_failures]
    exact h.failures
  noted := by
    rw [leave_noted]
    have before : s.noted.toList <+: t.noted.toList := h.noted
    cases result with
    | ok a => exact before
    | error e =>
      dsimp only
      split
      · exact before
      · rw [Array.toList_push]
        exact before.trans (List.prefix_append _ _)
  trace := by
    rw [leave_trace]
    have before := (trace_enter s rule).trans h.trace
    cases result with
    | error e => exact before
    | ok a =>
      have record : (s.enter rule).1.record = if s.debug then some s.trace.size else none := rfl
      cases hd : s.debug with
      | false =>
        simp only [record, hd, markSucceeded]
        exact before
      | true =>
        -- The record marked is the one behind those of `s`.
        simp only [record, hd, markSucceeded, if_true, Array.toList_modify]
        exact prefix_modify before _

theorem keeps (h : Extends s u) : Keeps s u where
  invocations := fun _ _ hi => getElem?_of_prefix h.invocations hi
  failures := fun _ _ hf => getElem?_of_prefix h.failures hf

end Extends

/-- Every invocation was made by an earlier one, and so will be the next. -/
structure Rooted (s : Session) : Prop where
  current : ∀ id ∈ s.current, id < s.invocations.size
  parents : ∀ id i, s.invocations.get? id = some i → ∀ parent ∈ i.parent, parent < id

theorem Linked.rooted (h : s.Linked) : s.Rooted := ⟨h.current, h.parents⟩

namespace Rooted

theorem of_eq (h : s.Rooted) (current : u.current = s.current)
    (invocations : u.invocations = s.invocations) : u.Rooted := by
  constructor
  · rw [current, invocations]
    exact h.current
  · rw [invocations]
    exact h.parents

theorem peek (h : s.Rooted) (branch : Bool) (candidates : List Token) :
    (s.peek branch candidates).2.Rooted := h.of_eq (by simp) (by simp)

theorem fail (h : s.Rooted) (tried : List Token) : (s.fail tried).2.Rooted := h.of_eq rfl rfl

theorem move (h : s.Rooted) (c : Cursor) : Rooted { s with cursor := c } := h.of_eq rfl rfl

theorem enter (h : s.Rooted) (rule : Rule) : (s.enter rule).2.Rooted where
  current := by
    rintro id ⟨⟩
    rw [enter_size]
    exact Nat.lt_succ_self _
  parents := by
    intro id i hi parent hparent
    rw [get?_enter] at hi
    split at hi
    · rename_i hid
      cases hi
      rw [hid]
      exact h.current parent hparent
    · exact h.parents id i hi parent hparent

theorem leave {α : Type} {rule : Rule} {result : Except FailureId α} (h : t.Rooted)
    (before : s.Rooted) (extends_ : Extends (s.enter rule).2 t) :
    (t.leave (s.enter rule).1 result).Rooted where
  current := by
    intro id hid
    rw [leave_current, enter_fst_parent] at hid
    have grown := extends_.keeps.invocations_le
    rw [enter_size] at grown
    rw [leave_invocations]
    exact Nat.lt_of_lt_of_le (before.current id hid) (Nat.le_of_succ_le grown)
  parents := by
    rw [leave_invocations]
    exact h.parents

end Rooted

/-- Something that every operation keeps, where an invocation ends with what its body has added to the
session, and an attempt in vain goes back in the text. -/
structure Kept (P : Session → Prop) : Prop where
  peek : ∀ {s} branch candidates, P s → P (s.peek branch candidates).2
  consume : ∀ {s} t, P s → P (s.consume t).2
  fail : ∀ {s} tried, P s → P (s.fail tried).2
  enter : ∀ {s} rule, P s → P (s.enter rule).2
  leave : ∀ {s t} {α : Type} {rule : Rule} {result : Except FailureId α}, P s → P t →
    Extends (s.enter rule).2 t → P (t.leave (s.enter rule).1 result)
  back : ∀ {s u}, P s → P u → P { u with cursor := s.cursor }

theorem Kept.of_move {P : Session → Prop}
    (peek : ∀ {s} branch candidates, P s → P (s.peek branch candidates).2)
    (fail : ∀ {s} tried, P s → P (s.fail tried).2)
    (move : ∀ {s} c, P s → P { s with cursor := c })
    (enter : ∀ {s} rule, P s → P (s.enter rule).2)
    (leave : ∀ {s t} {α : Type} {rule : Rule} {result : Except FailureId α}, P s → P t →
      Extends (s.enter rule).2 t → P (t.leave (s.enter rule).1 result)) : Kept P where
  peek := peek
  consume := by
    intro s t h
    cases hn : t.length? s.cursor.rest with
    | none =>
      rw [s.consume_of_miss hn]
      exact fail [t] h
    | some n =>
      rw [s.consume_of_hit hn]
      exact move _ h
  fail := fail
  enter := enter
  leave := leave
  back := fun _ h => move _ h

theorem kept_rooted : Kept Rooted :=
  .of_move (fun branch candidates h => h.peek branch candidates) (fun tried h => h.fail tried)
    (fun c h => h.move c) (fun rule h => h.enter rule) fun before h inner => h.leave before inner

end Session

namespace Handler

open Session

variable {α : Type} {s u : Session}

theorem exec_extends {h : Handler α} {r : Except FailureId α} (hr : h.exec s = .ok (r, u)) :
    Extends s u := by
  induction h generalizing s u with
  | done a =>
    cases hr
    exact .refl s
  | reraise e =>
    cases hr
    exact .refl s
  | abort why => cases hr
  | peek branch candidates k ih => exact (Extends.peek s branch candidates).trans (ih _ hr)
  | consume t k ih => exact (Extends.consume s t).trans (ih _ hr)
  | fail tried k ih => exact (Extends.fail s tried).trans (ih _ hr)
  | invoke rule body k ihb ih =>
    obtain ⟨b, t, hb, hr⟩ := exec_invoke_eq_ok hr
    exact (Extends.invoke (ihb hb)).trans (ih _ hr)
  | attempt rule body k ihb ih =>
    obtain ⟨b, t, hb, rest⟩ := exec_attempt_eq_ok hr
    have invoked : Extends s (t.leave (s.enter rule).1 b) := .invoke (ihb hb)
    obtain ⟨a, rfl, hr⟩ | ⟨e, rfl, hr⟩ := rest
    · exact invoked.trans (ih _ hr)
    · exact (invoked.trans (.move _ _)).trans (ih _ hr)

/-- What every operation keeps is kept by all handlers. -/
theorem exec_kept {P : Session → Prop} (kept : Kept P) {h : Handler α} {r : Except FailureId α}
    (hs : P s) (hr : h.exec s = .ok (r, u)) : P u := by
  induction h generalizing s u with
  | done a =>
    cases hr
    exact hs
  | reraise e =>
    cases hr
    exact hs
  | abort why => cases hr
  | peek branch candidates k ih => exact ih _ (kept.peek branch candidates hs) hr
  | consume t k ih => exact ih _ (kept.consume t hs) hr
  | fail tried k ih => exact ih _ (kept.fail tried hs) hr
  | invoke rule body k ihb ih =>
    obtain ⟨b, t, hb, hr⟩ := exec_invoke_eq_ok hr
    exact ih _ (kept.leave hs (ihb (kept.enter rule hs) hb) (exec_extends hb)) hr
  | attempt rule body k ihb ih =>
    obtain ⟨b, t, hb, rest⟩ := exec_attempt_eq_ok hr
    have left : P (t.leave (s.enter rule).1 b) :=
      kept.leave hs (ihb (kept.enter rule hs) hb) (exec_extends hb)
    obtain ⟨a, rfl, hr⟩ | ⟨e, rfl, hr⟩ := rest
    · exact ih _ left hr
    · exact ih _ (kept.back hs left) hr

end Handler

namespace Session

variable {s u : Session}

namespace Kept

variable {P : Session → Prop}

theorem run (kept : Kept P) {rule : Rule} {result : Except FailureId rule.Output} (hs : P s)
    (hr : s.run rule = .ok (result, u)) : P u := by
  rw [Session.run, ← Handler.exec_call] at hr
  exact Handler.exec_kept kept hs hr

theorem perform (kept : Kept P) {call : Call} {answer : Answer} (hs : P s)
    (hr : s.perform call = .ok (answer, u)) : P u := by
  rcases perform_eq_ok hr with ⟨rule, result, hrun, -⟩ | ⟨rule, result, hattempt, -⟩
  · exact kept.run hs hrun
  · rcases attempt_eq_ok hattempt with ⟨a, -, hrun⟩ | ⟨e, t, -, hrun, rfl⟩
    · exact kept.run hs hrun
    · exact kept.back hs (kept.run hs hrun)

theorem plays (kept : Kept P) {calls : List Call} {answers : List Answer} (hs : P s)
    (hr : s.plays calls = .ok (answers, u)) : P u := by
  induction calls generalizing s answers with
  | nil =>
    cases hr
    exact hs
  | cons call calls ih =>
    obtain ⟨answer, t, rest, hcall, hrest, -⟩ := plays_cons_eq_ok hr
    exact ih (kept.perform hs hcall) hrest

end Kept

/-- The session goes on as it was, and a failure raised before is told of with the same rules, at the
same place and with the same tokens. -/
structure Intact (s u : Session) : Prop extends Extends s u where
  sites : ∀ e, e < s.failures.size → u.site e = s.site e

theorem Extends.intact (h : Extends s u) (hs : s.Linked) (hu : u.Rooted) : Intact s u where
  toExtends := h
  sites := fun _ held => h.keeps.site_of_parents hs hu.parents held

theorem Linked.intact_invoke (hs : s.Linked) {α : Type} {rule : Rule} {body : Handler α}
    {result : Except FailureId α} (hr : s.invoke rule body.exec = .ok (result, u)) :
    Intact s u := by
  obtain ⟨t, ht, rfl⟩ := invoke_eq_ok hr
  have inner := Handler.exec_extends ht
  have rooted := Handler.exec_kept kept_rooted (hs.rooted.enter rule) ht
  exact (Extends.invoke inner).intact hs (rooted.leave hs.rooted inner)

theorem Linked.intact_attempt (hs : s.Linked) {rule : Rule} {result : Option rule.Output}
    (hr : s.attempt rule = .ok (result, u)) : Intact s u := by
  rcases attempt_eq_ok hr with ⟨a, -, hrun⟩ | ⟨e, t, -, hrun, rfl⟩
  · exact hs.intact_invoke hrun
  · have ran := hs.intact_invoke hrun
    exact ⟨ran.toExtends.trans (.move _ _), ran.sites⟩

/-- Whatever is invoked in a session, and whether it fails or not, the session around it is left as it
was, with more records at the end of its lists. -/
theorem invocation_leaves_intact {frames : List Frame} (hs : Nested frames s) :
    (∀ {α : Type} (rule : Rule) (body : Handler α) result u,
      s.invoke rule body.exec = .ok (result, u) → Intact s u) ∧
    (∀ rule, match s.run rule with
      | .error why => why = .unevenFence ∧ Fenced.UnevenIn s.text
      | .ok (_, u) => Intact s u) ∧
    ∀ rule, match s.attempt rule with
      | .error why => why = .unevenFence ∧ Fenced.UnevenIn s.text
      | .ok (_, u) => Intact s u := by
  refine ⟨fun rule body result u hr => hs.linked.intact_invoke hr, fun rule => ?_, fun rule => ?_⟩
  · cases hrun : s.run rule with
    | error why =>
      have performed : s.perform (.run rule) = .error why := by rw [perform, hrun]
      exact hs.unevenIn_of_perform performed
    | ok result => exact hs.linked.intact_invoke hrun
  · cases hattempt : s.attempt rule with
    | error why =>
      have performed : s.perform (.attempt rule) = .error why := by rw [perform, hattempt]
      exact hs.unevenIn_of_perform performed
    | ok result => exact hs.linked.intact_attempt hattempt

/-- A failure raised in a group, in front of an invocation in it that reads a parenthesis and fails. -/
theorem invocation_leaves_intact_group :
    let s := (((ofText "((a" true).enter .group).2.fail [.orExprOp]).2
    let body : Handler Unit := .consume .brktBeg fun _ => .fail [.code] .reraise
    ∃ frames u, Nested frames s ∧ s.invoke .atom body.exec = .ok (.error 1, u) ∧ Intact s u ∧
      u.site 0 = ⟨[.group], .start, [.orExprOp]⟩ ∧ u.site 1 = ⟨[.group, .atom], ⟨1, 0, 1⟩, [.code]⟩ := by
  intro s body
  have nested : Nested [((ofText "((a" true).enter .group).1] s :=
    .fail (.enter (.start "((a" true) .group) [.orExprOp]
  obtain ⟨u, hu, before, new⟩ : ∃ u, s.invoke .atom body.exec = .ok (.error 1, u) ∧
      u.site 0 = ⟨[.group], .start, [.orExprOp]⟩ ∧
      u.site 1 = ⟨[.group, .atom], ⟨1, 0, 1⟩, [.code]⟩ := ⟨_, rfl, rfl, rfl⟩
  exact ⟨_, u, nested, hu, (invocation_leaves_intact nested).1 .atom body _ u hu, before, new⟩

end Session

end GrammarKit
