import GrammarKit.Proofs.Block
import GrammarKit.Proofs.Session.Detour
import GrammarKit.Report

/-!
An attempt in vain is forgotten. Everything that rules are run for later comes out as if it had not
been made: what they yield, whether they fail, where the cursor is left, and which rules, place and
patterns a failure names. Only a report shows it, with one possible reason more.
-/

namespace GrammarKit

namespace InvocationTree

variable {t u : InvocationTree} {f : InvocationId → InvocationId}

/-- Ancestors are found again where the tree is copied with its links, however many steps are allowed
for beyond those needed. -/
theorem ancestry_copied (parents : ∀ id i, t.get? id = some i → ∀ parent ∈ i.parent, parent < id)
    (parents' : ∀ id i, u.get? id = some i → ∀ parent ∈ i.parent, parent < id)
    (copied : ∀ id i, t.get? id = some i →
      u.get? (f id) = some { i with parent := i.parent.map f })
    {id : InvocationId} {steps steps' : Nat} (held : id < t.size) (enough : id < steps)
    (enough' : f id < steps') (rules : List Rule) :
    u.ancestry steps' (some (f id)) rules = t.ancestry steps (some id) rules := by
  induction id using Nat.strongRecOn generalizing steps steps' rules with
  | ind id ih =>
    obtain ⟨steps, rfl⟩ := Nat.exists_eq_add_one_of_ne_zero (Nat.ne_zero_of_lt enough)
    obtain ⟨steps', rfl⟩ := Nat.exists_eq_add_one_of_ne_zero (Nat.ne_zero_of_lt enough')
    have hi : t.get? id = some t.records[id] := Array.getElem?_eq_getElem held
    have hi' := copied id _ hi
    simp only [ancestry, hi, hi']
    cases hp : t.records[id].parent with
    | none => cases steps <;> cases steps' <;> rfl
    | some parent =>
      have lt := parents id _ hi parent hp
      have lt' := parents' (f id) _ hi' (f parent) (by simp [hp])
      exact ih parent lt (Nat.lt_trans lt held) (Nat.lt_of_lt_of_le lt (Nat.le_of_lt_succ enough))
        (Nat.lt_of_lt_of_le lt' (Nat.le_of_lt_succ enough')) _

theorem chain_copied (parents : ∀ id i, t.get? id = some i → ∀ parent ∈ i.parent, parent < id)
    (parents' : ∀ id i, u.get? id = some i → ∀ parent ∈ i.parent, parent < id)
    (copied : ∀ id i, t.get? id = some i →
      u.get? (f id) = some { i with parent := i.parent.map f })
    {id : InvocationId} (held : id < t.size) : u.chain (f id) = t.chain id := by
  have held' := (Array.getElem?_eq_some_iff.1
    (copied id _ (Array.getElem?_eq_getElem held))).1
  exact ancestry_copied parents parents' copied held held held' []

end InvocationTree

namespace Session

variable {s u : Session}

/-- Which rules led to a failure does not change as records are added. -/
theorem Keeps.site_of_parents (h : Keeps s u) (hs : s.Linked)
    (parents : ∀ id i, u.invocations.get? id = some i → ∀ parent ∈ i.parent, parent < id)
    {e : FailureId} (held : e < s.failures.size) : u.site e = s.site e := by
  have hf : s.failures[e]? = some s.failures[e] := Array.getElem?_eq_getElem held
  unfold Session.site failure
  rw [hf, h.failures e _ hf]
  cases hid : s.failures[e].invocation with
  | none => simp [hid]
  | some id =>
    have chain := InvocationTree.chain_copied (f := fun id => id) hs.parents parents
      (fun id i hi => by simpa using h.invocations id i hi) (hs.blamed e _ hf id hid)
    simp [hid, chain]

theorem Keeps.site (h : Keeps s u) (hs : s.Linked) (hu : u.Linked) {e : FailureId}
    (held : e < s.failures.size) : u.site e = s.site e := h.site_of_parents hs hu.parents held

end Session

namespace Detour.Related

open Session

variable {d : Detour} {s u : Session}

theorem site (h : d.Related s u) (hs : s.Linked) (hu : u.Linked) (e : FailureId) :
    u.site (d.failures.shift e) = s.site e := by
  unfold Session.site Session.failure
  rw [h.failures.get]
  cases hf : s.failures[e]? with
  | none => rfl
  | some f =>
    cases hid : f.invocation with
    | none => simp [Detour.failure, hid]
    | some id =>
      have chain := InvocationTree.chain_copied hs.parents hu.parents
        (fun id i hi => by
          have copied := h.invocations.get id
          rw [show s.invocations.records[id]? = some i from hi] at copied
          exact copied)
        (hs.blamed e f hf id hid)
      simp [Detour.failure, hid, chain]

theorem report (h : d.Related s u) (hs : s.Linked) (hu : u.Linked) (e : FailureId) :
    ∃ earlier later, (s.report e).reasons = earlier ++ later ∧
      u.report (d.failures.shift e) =
        { s.report e with reasons := earlier ++ u.site d.noted :: later } := by
  obtain ⟨before, after, noted, noted'⟩ := h.noted
  have text : u.text = s.text := congrArg Cursor.text h.cursor
  have reasons (es : List FailureId) :
      ((es.map d.failures.shift).filter (· ≠ d.failures.shift e)).map u.site =
        (es.filter (· ≠ e)).map s.site := by
    rw [List.filter_map, List.map_map]
    have same : ((fun x => decide (x ≠ d.failures.shift e)) ∘ d.failures.shift) =
        fun x => decide (x ≠ e) := by
      funext x
      simp [d.failures.shift_injective.eq_iff]
    rw [same]
    exact List.map_congr_left fun x _ => h.site hs hu x
  have kept : d.noted ≠ d.failures.shift e := (Gap.shift_ne d.within.1 d.within.2 e).symm
  refine ⟨(before.filter (· ≠ e)).map s.site, (after.filter (· ≠ e)).map s.site, ?_, ?_⟩
  · simp [Session.report, Report.ofText, noted]
  · unfold Session.report Report.ofText
    rw [noted', List.filter_append, List.filter_cons_of_pos (by simpa using kept), List.map_append,
      List.map_cons, reasons, reasons, h.site hs hu, text]

end Detour.Related

inductive Call where
  | run (rule : Rule)
  | attempt (rule : Rule)
  deriving DecidableEq, Repr

inductive Answer where
  | ran (result : Except FailureId Yield) (cursor : Cursor)
  | attempted (result : Option Yield) (cursor : Cursor)

namespace Answer

def failure? : Answer → Option FailureId
  | ran (.error e) _ => some e
  | _ => none

def rename (f : FailureId → FailureId) : Answer → Answer
  | ran result cursor => ran (result.mapError f) cursor
  | attempted result cursor => attempted result cursor

end Answer

namespace Session

def perform (s : Session) : Call → Except Abort (Answer × Session)
  | .run rule =>
    match s.run rule with
    | .error why => .error why
    | .ok (result, s) => .ok (.ran (result.map (Yield.ofOutput rule)) s.cursor, s)
  | .attempt rule =>
    match s.attempt rule with
    | .error why => .error why
    | .ok (result, s) => .ok (.attempted (result.map (Yield.ofOutput rule)) s.cursor, s)

def plays (s : Session) : List Call → Except Abort (List Answer × Session)
  | [] => .ok ([], s)
  | call :: calls =>
    match s.perform call with
    | .error why => .error why
    | .ok (answer, s) =>
      match s.plays calls with
      | .error why => .error why
      | .ok (answers, s) => .ok (answer :: answers, s)

variable {s t u : Session} {frames : List Frame} {call : Call} {calls : List Call} {answer : Answer}
  {answers : List Answer}

theorem perform_eq_ok (hr : s.perform call = .ok (answer, u)) :
    (∃ rule result, s.run rule = .ok (result, u) ∧
        answer = .ran (result.map (Yield.ofOutput rule)) u.cursor) ∨
      ∃ rule result, s.attempt rule = .ok (result, u) ∧
        answer = .attempted (result.map (Yield.ofOutput rule)) u.cursor := by
  cases call with
  | run rule =>
    simp only [perform] at hr
    split at hr
    · cases hr
    · cases hr
      exact .inl ⟨rule, _, ‹_›, rfl⟩
  | attempt rule =>
    simp only [perform] at hr
    split at hr
    · cases hr
    · cases hr
      exact .inr ⟨rule, _, ‹_›, rfl⟩

theorem Nested.perform (h : Nested frames s) (hr : s.perform call = .ok (answer, u)) :
    Nested frames u := by
  rcases perform_eq_ok hr with ⟨rule, result, hrun, -⟩ | ⟨rule, result, hattempt, -⟩
  · exact h.run rule result hrun
  · exact h.attempt rule result hattempt

theorem perform_keeps (hr : s.perform call = .ok (answer, u)) : Keeps s u := by
  rcases perform_eq_ok hr with ⟨rule, result, hrun, -⟩ | ⟨rule, result, hattempt, -⟩
  · exact (run_grows hrun).keeps
  · exact attempt_keeps hattempt

theorem perform_text (hr : s.perform call = .ok (answer, u)) : u.text = s.text := by
  rcases perform_eq_ok hr with ⟨rule, result, hrun, -⟩ | ⟨rule, result, hattempt, -⟩
  · exact (run_grows hrun).text
  · rcases attempt_eq_ok hattempt with ⟨a, -, hrun⟩ | ⟨e, t, -, -, rfl⟩
    · exact (run_grows hrun).text
    · rfl

theorem failure?_lt_of_perform (hr : s.perform call = .ok (answer, u)) {e : FailureId}
    (he : e ∈ answer.failure?) : e < u.failures.size := by
  rcases perform_eq_ok hr with ⟨rule, result, hrun, rfl⟩ | ⟨rule, result, -, rfl⟩
  · cases result with
    | ok a => cases he
    | error e' =>
      cases he
      exact (run_notes hrun).2.1
  · cases he

/-- A call goes through unless the text has a block of code with uneven fences. -/
theorem Nested.unevenIn_of_perform (h : Nested frames s) {why : Abort}
    (hr : s.perform call = .error why) : why = .unevenFence ∧ Fenced.UnevenIn s.text := by
  have ran (rule : Rule) (hrun : s.run rule = .error why) :=
    h.reachable.unevenIn_of_run hrun
  cases call with
  | run rule =>
    simp only [Session.perform] at hr
    split at hr
    · cases hr
      exact ran rule ‹_›
    · cases hr
  | attempt rule =>
    simp only [Session.perform, Session.attempt] at hr
    split at hr
    · rename_i hattempt
      cases hr
      split at hattempt
      · cases hattempt
        exact ran rule ‹_›
      · cases hattempt
      · cases hattempt
    · cases hr

theorem plays_cons_eq_ok (hr : s.plays (call :: calls) = .ok (answers, u)) :
    ∃ answer t rest, s.perform call = .ok (answer, t) ∧ t.plays calls = .ok (rest, u) ∧
      answers = answer :: rest := by
  simp only [plays] at hr
  split at hr
  · cases hr
  · split at hr
    · cases hr
    · cases hr
      exact ⟨_, _, _, ‹_›, ‹_›, rfl⟩

theorem plays_cons_eq_error {why : Abort} (hr : s.plays (call :: calls) = .error why) :
    s.perform call = .error why ∨
      ∃ answer t, s.perform call = .ok (answer, t) ∧ t.plays calls = .error why := by
  simp only [plays] at hr
  split at hr
  · cases hr
    exact .inl ‹_›
  · split at hr
    · cases hr
      exact .inr ⟨_, _, ‹_›, ‹_›⟩
    · cases hr

theorem Nested.plays (h : Nested frames s) (hr : s.plays calls = .ok (answers, u)) :
    Nested frames u := by
  induction calls generalizing s answers with
  | nil =>
    cases hr
    exact h
  | cons call calls ih =>
    obtain ⟨answer, t, rest, hcall, hrest, -⟩ := plays_cons_eq_ok hr
    exact ih (h.perform hcall) hrest

theorem plays_keeps (hr : s.plays calls = .ok (answers, u)) : Keeps s u := by
  induction calls generalizing s answers with
  | nil =>
    cases hr
    exact .refl _
  | cons call calls ih =>
    obtain ⟨answer, t, rest, hcall, hrest, -⟩ := plays_cons_eq_ok hr
    exact (perform_keeps hcall).trans (ih hrest)

theorem failure?_lt_of_plays (hr : s.plays calls = .ok (answers, u)) :
    ∀ answer ∈ answers, ∀ e ∈ answer.failure?, e < u.failures.size := by
  induction calls generalizing s answers with
  | nil =>
    cases hr
    simp
  | cons call calls ih =>
    obtain ⟨answer, t, rest, hcall, hrest, rfl⟩ := plays_cons_eq_ok hr
    refine List.forall_mem_cons.2 ⟨fun e he => ?_, ih hrest⟩
    exact Nat.lt_of_lt_of_le (failure?_lt_of_perform hcall he) (plays_keeps hrest).failures_le

theorem plays_text (hr : s.plays calls = .ok (answers, u)) : u.text = s.text := by
  induction calls generalizing s answers with
  | nil =>
    cases hr
    rfl
  | cons call calls ih =>
    obtain ⟨answer, t, rest, hcall, hrest, -⟩ := plays_cons_eq_ok hr
    exact (ih hrest).trans (perform_text hcall)

theorem Nested.unevenIn_of_plays (h : Nested frames s) {why : Abort}
    (hr : s.plays calls = .error why) : why = .unevenFence ∧ Fenced.UnevenIn s.text := by
  induction calls generalizing s with
  | nil => cases hr
  | cons call calls ih =>
    rcases plays_cons_eq_error hr with hcall | ⟨answer, t, hcall, hrest⟩
    · exact h.unevenIn_of_perform hcall
    · rw [← perform_text hcall]
      exact ih (h.perform hcall) hrest

end Session

namespace Detour.Related

open Session

variable {d : Detour} {s u : Session}

theorem perform (h : d.Related s u) (call : Call) :
    Agree d.Related (Answer.rename d.failures.shift) (s.perform call) (u.perform call) := by
  cases call with
  | run rule =>
    simp only [Session.perform]
    rcases (h.run rule).cases with ⟨why, hs, hu⟩ | ⟨result, s', u', hs, hu, rel⟩
    · rw [hs, hu]
      exact rfl
    · rw [hs, hu]
      refine ⟨?_, rel.toRelated⟩
      rw [rel.cursor]
      cases result <;> rfl
  | attempt rule =>
    simp only [Session.perform]
    rcases (h.attempt rule).cases with ⟨why, hs, hu⟩ | ⟨result, s', u', hs, hu, rel⟩
    · rw [hs, hu]
      exact rfl
    · rw [hs, hu]
      refine ⟨?_, rel⟩
      rw [rel.cursor]
      rfl

theorem plays (h : d.Related s u) (calls : List Call) :
    Agree d.Related (List.map (Answer.rename d.failures.shift)) (s.plays calls)
      (u.plays calls) := by
  induction calls generalizing s u with
  | nil => exact ⟨rfl, h⟩
  | cons call calls ih =>
    simp only [Session.plays]
    rcases (h.perform call).cases with ⟨why, hs, hu⟩ | ⟨answer, s', u', hs, hu, rel⟩
    · rw [hs, hu]
      exact rfl
    · rw [hs, hu]
      dsimp only
      rcases (ih rel).cases with ⟨why, hs, hu⟩ | ⟨answers, s', u', hs, hu, rel⟩
      · rw [hs, hu]
        exact rfl
      · rw [hs, hu]
        exact ⟨rfl, rel⟩

end Detour.Related

namespace Session

variable {s u : Session}

/-- The session `u` knows of every failure what `s` knows, and gives one reason more in reports. -/
structure Echoes (rename : FailureId → FailureId) (reason : FailureSite) (s u : Session) :
    Prop where
  cursor : u.cursor = s.cursor
  sites : ∀ e, u.site (rename e) = s.site e
  reports : ∀ e, ∃ earlier later, (s.report e).reasons = earlier ++ later ∧
    u.report (rename e) = { s.report e with reasons := earlier ++ reason :: later }

/-- How a failure is called where an attempt in vain led from `s` to `u`: those that it raised come
in between. -/
def renamed (s u : Session) : FailureId → FailureId :=
  Gap.shift ⟨s.failures.size, u.failures.size - s.failures.size⟩

/-- What is done after an attempt in vain is what would have been done without it. -/
theorem attempt_transparent {frames : List Frame} {rule : Rule} (hs : Nested frames s)
    (hr : s.attempt rule = .ok (none, u)) :
    ∃ e t, s.run rule = .ok (.error e, t) ∧ ∀ calls,
      match s.plays calls with
      | .error why =>
        why = .unevenFence ∧ Fenced.UnevenIn s.text ∧ u.plays calls = .error why
      | .ok (answers, s') =>
        ∃ u', u.plays calls = .ok (answers.map (Answer.rename (renamed s u)), u') ∧
          (∀ answer ∈ answers, ∀ e ∈ answer.failure?, e < s'.failures.size) ∧
          Echoes (renamed s u) (u.site e) s' u' := by
  have hu : Nested frames u := hs.attempt rule none hr
  obtain ⟨e, t, within, hrun, rel⟩ := hs.linked.related_attempt hr
  refine ⟨e, t, hrun, fun calls => ?_⟩
  rcases (rel.plays calls).cases with ⟨why, hs', hu'⟩ | ⟨answers, s', u', hs', hu', rel'⟩
  · rw [hs']
    obtain ⟨uneven, block⟩ := hs.unevenIn_of_plays hs'
    exact ⟨uneven, block, hu'⟩
  · rw [hs']
    have linked := (hs.plays hs').linked
    have linked' := (hu.plays hu').linked
    refine ⟨u', hu', failure?_lt_of_plays hs', rel'.cursor, rel'.site linked linked', fun e' => ?_⟩
    rw [← (plays_keeps hu').site hu.linked linked' within.2]
    exact rel'.report linked linked' e'

/-- A group is attempted in vain; then its parenthesis is read, and an atom that is not there. -/
theorem attempt_transparent_group :
    let s := ofText "(" false
    let u := { s with
      invocations := ⟨#[⟨.group, none, .start⟩, ⟨.brktBeg, some 0, .start⟩,
        ⟨.orExpr, some 0, ⟨1, 0, 1⟩⟩, ⟨.seqExpr, some 2, ⟨1, 0, 1⟩⟩]⟩
      failures := #[⟨some 3, ⟨1, 0, 1⟩, Rule.Body.itemStart⟩]
      noted := #[0]
      lastNoted := some 0
      tried := some Rule.Body.itemStart }
    let behind : Cursor := ⟨"(", ⟨1, 0, 1⟩, []⟩
    let calls : List Call := [.run .brktBeg, .run .atom]
    s.attempt .group = .ok (none, u) ∧ ∃ s' u',
      s.plays calls = .ok ([.ran (.ok .unit) behind, .ran (.error 0) behind], s') ∧
        u.plays calls = .ok ([.ran (.ok .unit) behind, .ran (.error 1) behind], u') ∧
        Echoes (renamed s u) (u.site 0) s' u' := by
  intro s u behind calls
  have hr : s.attempt .group = .ok (none, u) := by decide
  obtain ⟨e, t, hrun, transparent⟩ := attempt_transparent (.start "(" false) hr
  cases hrun
  obtain ⟨u', hu', -, echoes⟩ := transparent calls
  exact ⟨hr, _, u', rfl, hu', echoes⟩

end Session

end GrammarKit
