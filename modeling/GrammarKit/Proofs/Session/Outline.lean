import GrammarKit.Proofs.Rule.Callees
import GrammarKit.Proofs.Session.Extension
import GrammarKit.Proofs.Session.Preorder

/-!
The debug trace as an outline of the invocations. Its records are indented by the number of their
ancestors, though the depth is counted on its own; and as the records are the invocations in preorder,
the one that made an invocation can be told from the indentation alone.

Main statement: after any calls, the trace outlines the tree of invocations, and every invocation was
made by one whose rule calls its rule.
-/

namespace GrammarKit

theorem find?_reverse_range_eq_some {P : Nat → Bool} {n p : Nat} (lt : p < n) (holds : P p = true)
    (behind : ∀ m, p < m → m < n → P m = false) : (List.range n).reverse.find? P = some p := by
  induction n with
  | zero => exact absurd lt (Nat.not_lt_zero p)
  | succ n ih =>
    rw [List.range_succ, List.reverse_append, List.reverse_singleton, List.singleton_append]
    rcases Nat.lt_succ_iff_lt_or_eq.1 lt with lt | rfl
    · rw [List.find?_cons_of_neg (by simp [behind n lt (Nat.lt_succ_self n)])]
      exact ih lt fun m hm hn => behind m hm (Nat.lt_succ_of_lt hn)
    · rw [List.find?_cons_of_pos holds]

namespace TraceEntry

/-- The last record in front of the one at the place `n` that is indented one step less. -/
def enclosing? (records : Array TraceEntry) (n : Nat) : Option Nat :=
  (List.range n).reverse.find? fun m =>
    records[m]?.map (fun r => r.depth + 1) = records[n]?.map TraceEntry.depth

end TraceEntry

namespace Session

variable {s t u : Session}

theorem get?_enter_of_get? {id : InvocationId} {i : Invocation}
    (hi : s.invocations.get? id = some i) (rule : Rule) :
    (s.enter rule).2.invocations.get? id = some i := InvocationTree.get?_push_of_get? hi _

/-- The trace mirrors the invocations, those come in the order of a tree that is walked through, and
the depth of each of them counts its ancestors. -/
structure Charted (s : Session) : Prop extends Mirrors s where
  chronicle : s.invocations.Chronicle s.current
  depth : s.depth = (s.invocations.route s.current).length
  depths : ∀ (n : Nat) r, s.trace[n]? = some r → r.depth + 1 = (s.invocations.chain n).length

theorem charted_ofText (text : String) : (ofText text true).Charted where
  toMirrors := mirrors_ofText text
  chronicle := .empty
  depth := rfl
  depths := by simp [ofText]

namespace Charted

theorem of_eq (h : s.Charted) (debug : u.debug = s.debug) (trace : u.trace = s.trace)
    (invocations : u.invocations = s.invocations) (current : u.current = s.current)
    (depth : u.depth = s.depth) : u.Charted where
  toMirrors := h.toMirrors.of_eq debug trace invocations
  chronicle := by
    rw [invocations, current]
    exact h.chronicle
  depth := by rw [depth, invocations, current, h.depth]
  depths := by
    rw [trace, invocations]
    exact h.depths

theorem peek (h : s.Charted) (branch : Bool) (candidates : List Token) :
    (s.peek branch candidates).2.Charted :=
  h.of_eq (by simp) (by simp) (by simp) (by simp) (by simp)

theorem fail (h : s.Charted) (tried : List Token) : (s.fail tried).2.Charted :=
  h.of_eq rfl rfl rfl rfl rfl

theorem move (h : s.Charted) (c : Cursor) : Charted { s with cursor := c } :=
  h.of_eq rfl rfl rfl rfl rfl

theorem chronicle_enter (h : s.Charted) (rule : Rule) :
    (s.enter rule).2.invocations.Chronicle (s.enter rule).2.current := by
  rw [enter_invocations, enter_current]
  exact h.chronicle.push rule _

theorem chain_enter (h : s.Charted) (rule : Rule) :
    (s.enter rule).2.invocations.chain s.invocations.size =
      s.invocations.route s.current ++ [rule] := by
  have parents := (h.chronicle_enter rule).parents
  have held := s.get?_enter rule s.invocations.size
  rw [if_pos rfl] at held
  rw [InvocationTree.chain_eq parents held, InvocationTree.route_kept h.chronicle.parents parents
    (fun id i hi => get?_enter_of_get? hi rule) h.chronicle.recorded]

theorem enter (h : s.Charted) (rule : Rule) : (s.enter rule).2.Charted where
  toMirrors := h.toMirrors.enter rule
  chronicle := h.chronicle_enter rule
  depth := by
    rw [enter_depth, enter_current, InvocationTree.route, h.chain_enter, List.length_append, h.depth]
    rfl
  depths := by
    intro n r hr
    rw [h.trace_enter, Array.getElem?_push, h.size] at hr
    split at hr
    · rename_i hn
      cases hr
      rw [hn, h.chain_enter, List.length_append, h.depth]
      rfl
    · have held : n < s.invocations.size := by
        rw [← h.size]
        exact (Array.getElem?_eq_some_iff.1 hr).1
      have same : (s.enter rule).2.invocations.chain n = s.invocations.chain n :=
        InvocationTree.route_kept (p := some n) h.chronicle.parents
          (h.chronicle_enter rule).parents (fun id i hi => get?_enter_of_get? hi rule)
          (by rintro c ⟨⟩; exact held)
      rw [same]
      exact h.depths n r hr

theorem leave {α : Type} {rule : Rule} {result : Except FailureId α} (h : t.Charted)
    (before : s.Charted) (inner : Extends (s.enter rule).2 t) :
    (t.leave (s.enter rule).1 result).Charted where
  toMirrors := h.toMirrors.leave _ _
  chronicle := by
    have running : t.current = some s.invocations.size := by rw [inner.current, enter_current]
    have record := inner.keeps.invocations s.invocations.size _ (by rw [get?_enter, if_pos rfl])
    have chronicle := h.chronicle
    rw [running] at chronicle
    rw [leave_invocations, leave_current, enter_fst_parent]
    exact chronicle.parent record
  depth := by
    have same : t.invocations.route s.current = s.invocations.route s.current :=
      InvocationTree.route_kept before.chronicle.parents h.chronicle.parents
        (fun id i hi => inner.keeps.invocations id i (get?_enter_of_get? hi rule))
        before.chronicle.recorded
    rw [leave_depth, leave_current, leave_invocations, enter_fst_parent, same, ← before.depth]
    rfl
  depths := by
    intro n r hr
    obtain ⟨r', hr', -, -, depth⟩ := exists_record_of_leave hr
    rw [leave_invocations, ← depth]
    exact h.depths n r' hr'

end Charted

theorem kept_charted : Kept Charted :=
  .of_move (fun branch candidates h => h.peek branch candidates) (fun tried h => h.fail tried)
    (fun c h => h.move c) (fun rule h => h.enter rule) fun before h inner => h.leave before inner

/-- Every invocation was made by one whose rule calls its rule. -/
def Lawful (s : Session) : Prop :=
  ∀ id i, s.invocations.get? id = some i → ∀ p ∈ i.parent,
    ∃ j, s.invocations.get? p = some j ∧ i.rule ∈ j.rule.callees

def InRule (s : Session) (owner : Rule) : Prop :=
  ∀ c ∈ s.current, ∃ j, s.invocations.get? c = some j ∧ j.rule = owner

theorem inRule_enter (s : Session) (rule : Rule) : (s.enter rule).2.InRule rule := by
  rintro c ⟨⟩
  exact ⟨_, by rw [get?_enter, if_pos rfl], rfl⟩

theorem InRule.extends_ {owner : Rule} (h : s.InRule owner) (keeps : Extends s u) :
    u.InRule owner := by
  intro c hc
  rw [keeps.current] at hc
  obtain ⟨j, held, same⟩ := h c hc
  exact ⟨j, keeps.keeps.invocations c j held, same⟩

theorem InRule.calls {owner rule : Rule} (h : s.InRule owner) (callee : rule ∈ owner.callees) :
    ∀ c ∈ s.current, ∃ j, s.invocations.get? c = some j ∧ rule ∈ j.rule.callees := by
  intro c hc
  obtain ⟨j, held, rfl⟩ := h c hc
  exact ⟨j, held, callee⟩

namespace Lawful

theorem of_eq (h : s.Lawful) (invocations : u.invocations = s.invocations) : u.Lawful := by
  unfold Lawful
  rw [invocations]
  exact h

theorem fail (h : s.Lawful) (tried : List Token) : (s.fail tried).2.Lawful := h

theorem move (h : s.Lawful) (c : Cursor) : Lawful { s with cursor := c } := h

theorem enter {rule : Rule} (h : s.Lawful)
    (called : ∀ c ∈ s.current, ∃ j, s.invocations.get? c = some j ∧ rule ∈ j.rule.callees) :
    (s.enter rule).2.Lawful := by
  intro id i hi p hp
  have made : ∃ j, s.invocations.get? p = some j ∧ i.rule ∈ j.rule.callees := by
    rw [get?_enter] at hi
    split at hi
    · cases hi
      exact called p hp
    · exact h id i hi p hp
  obtain ⟨j, held, calls⟩ := made
  exact ⟨j, get?_enter_of_get? held rule, calls⟩

theorem leave {α : Type} (h : s.Lawful) (frame : Frame) (result : Except FailureId α) :
    (s.leave frame result).Lawful := h.of_eq (by simp)

end Lawful

end Session

namespace Handler

open Session

/-- A body of a rule that calls only what this rule may keeps the session lawful. -/
theorem CallsWithin.exec_lawful {α : Type} {h : Handler α} {owner : Rule} {s u : Session}
    {r : Except FailureId α} (within : h.CallsWithin Rule.callees owner) (hs : s.Lawful)
    (inRule : s.InRule owner) (hr : h.exec s = .ok (r, u)) : u.Lawful := by
  induction h generalizing owner s u with
  | done a =>
    cases hr
    exact hs
  | reraise e =>
    cases hr
    exact hs
  | abort why => cases hr
  | peek branch candidates k ih =>
    exact ih _ (within _) (hs.of_eq (by simp)) (inRule.extends_ (.peek s branch candidates)) hr
  | consume t k ih =>
    exact ih _ (within _) (hs.of_eq (by simp)) (inRule.extends_ (.consume s t)) hr
  | fail tried k ih => exact ih _ (within _) (hs.fail tried) (inRule.extends_ (.fail s tried)) hr
  | invoke rule body k ihb ih =>
    obtain ⟨callee, withinb, within⟩ := within
    obtain ⟨b, t, hb, hr⟩ := exec_invoke_eq_ok hr
    have begun : (s.enter rule).2.Lawful := hs.enter (inRule.calls callee)
    have lawful : t.Lawful := ihb withinb begun (inRule_enter s rule) hb
    have after : Extends s (t.leave (s.enter rule).1 b) := .invoke (exec_extends hb)
    exact ih _ (within _) (lawful.leave _ _) (inRule.extends_ after) hr
  | attempt rule body k ihb ih =>
    obtain ⟨callee, withinb, within⟩ := within
    obtain ⟨b, t, hb, rest⟩ := exec_attempt_eq_ok hr
    have begun : (s.enter rule).2.Lawful := hs.enter (inRule.calls callee)
    have lawful : t.Lawful := ihb withinb begun (inRule_enter s rule) hb
    have after : Extends s (t.leave (s.enter rule).1 b) := .invoke (exec_extends hb)
    obtain ⟨a, rfl, hr⟩ | ⟨e, rfl, hr⟩ := rest
    · exact ih _ (within _) (lawful.leave _ _) (inRule.extends_ after) hr
    · have back := inRule.extends_ (after.trans (.move _ s.cursor))
      exact ih _ (within _) ((lawful.leave _ _).move _) back hr

end Handler

namespace Session

variable {s u : Session}

theorem Lawful.run {rule : Rule} {result : Except FailureId rule.Output} (hs : s.Lawful)
    (root : s.current = none) (hr : s.run rule = .ok (result, u)) : u.Lawful := by
  obtain ⟨t, ht, rfl⟩ := run_eq_ok hr
  have begun : (s.enter rule).2.Lawful := hs.enter (by rw [root]; exact nofun)
  have within := Rule.callsWithin_handler (Rule.fuelFor s.text) rule
  exact (within.exec_lawful begun (inRule_enter s rule) ht).leave _ _

theorem Lawful.perform {call : Call} {answer : Answer} (hs : s.Lawful) (root : s.current = none)
    (hr : s.perform call = .ok (answer, u)) : u.Lawful := by
  rcases perform_eq_ok hr with ⟨rule, result, hrun, -⟩ | ⟨rule, result, hattempt, -⟩
  · exact hs.run root hrun
  · rcases attempt_eq_ok hattempt with ⟨a, -, hrun⟩ | ⟨e, t, -, hrun, rfl⟩
    · exact hs.run root hrun
    · exact (hs.run root hrun).move _

theorem Lawful.plays {calls : List Call} {answers : List Answer} (hs : s.Lawful)
    (root : s.current = none) (hr : s.plays calls = .ok (answers, u)) : u.Lawful := by
  induction calls generalizing s answers with
  | nil =>
    cases hr
    exact hs
  | cons call calls ih =>
    obtain ⟨answer, t, rest, hcall, hrest, -⟩ := plays_cons_eq_ok hr
    exact ih (hs.perform root hcall) ((perform_current hcall).trans root) hrest

/-- A line of the report: four blanks for every ancestor of the invocation, a mark if it has failed,
and its rule. -/
def Lists (s : Session) (id : InvocationId) (line : List Char) : Prop :=
  ∃ r place, s.trace[id]? = some r ∧
    line = List.replicate (4 * ((s.invocations.chain id).length - 1)) ' ' ++
      ((if r.succeeded then [] else ['!']) ++ (r.rule.name.toList ++ ':' :: place))

/-- The trace tells of every invocation, at the same place, which rule it ran and where it began, and
by its depth which other one made it. -/
structure Outlines (s : Session) : Prop where
  size : s.trace.size = s.invocations.size
  records : ∀ id i, s.invocations.get? id = some i → ∃ r, s.trace[id]? = some r ∧
    r.rule = i.rule ∧ r.position = i.entry ∧ r.depth + 1 = (s.invocations.chain id).length ∧
    (r.depth = 0 ↔ i.parent = none)
  parents : ∀ id i, s.invocations.get? id = some i →
    i.parent = TraceEntry.enclosing? s.trace id ∧ ∀ p ∈ i.parent, p < id
  preorder : s.invocations.preorder = List.range s.invocations.size
  report : ∃ lines, s.traceReport = String.ofList (joinWith ['\n'] lines) ∧
    List.Forall₂ s.Lists s.invocations.preorder lines
  calls : ∀ id i, s.invocations.get? id = some i → ∀ p ∈ i.parent,
    ∃ j, s.invocations.get? p = some j ∧ j.rule.Calls i.rule

namespace Charted

variable {id : InvocationId} {i : Invocation} {r : TraceEntry}

theorem exists_record (h : s.Charted) (hi : s.invocations.get? id = some i) :
    ∃ r, s.trace[id]? = some r := by
  have held : id < s.trace.size := by
    rw [h.size]
    exact InvocationTree.lt_size_of_get? hi
  exact ⟨s.trace[id], Array.getElem?_eq_getElem held⟩

/-- The depth of a record counts the ancestors of its invocation. -/
theorem depth_eq (h : s.Charted) (hi : s.invocations.get? id = some i)
    (hr : s.trace[id]? = some r) : r.depth = (s.invocations.route i.parent).length := by
  have chain := h.depths id r hr
  rw [InvocationTree.chain_eq h.chronicle.parents hi, List.length_append] at chain
  exact Nat.succ.inj chain

theorem depth_eq_zero_iff (h : s.Charted) (hi : s.invocations.get? id = some i)
    (hr : s.trace[id]? = some r) : r.depth = 0 ↔ i.parent = none := by
  rw [h.depth_eq hi hr]
  cases hp : i.parent with
  | none => exact iff_of_true rfl rfl
  | some p =>
    obtain ⟨j, hj⟩ := InvocationTree.get?_of_lt_size
      (Nat.lt_trans (h.chronicle.parents id i hi p hp) (InvocationTree.lt_size_of_get? hi))
    rw [InvocationTree.route, InvocationTree.chain_eq h.chronicle.parents hj]
    simp

/-- Between a record and that of its parent all are indented at least as far. -/
theorem parent_eq (h : s.Charted) (hi : s.invocations.get? id = some i) :
    i.parent = TraceEntry.enclosing? s.trace id := by
  obtain ⟨r, hr⟩ := h.exists_record hi
  symm
  unfold TraceEntry.enclosing?
  rw [hr, Option.map_some]
  cases hp : i.parent with
  | none =>
    rw [(h.depth_eq_zero_iff hi hr).2 hp, List.find?_eq_none]
    intro m _
    cases s.trace[m]? <;> simp
  | some p =>
    have above := h.chronicle.parents id i hi p hp
    have depth : r.depth = (s.invocations.chain p).length := by
      rw [h.depth_eq hi hr, hp, InvocationTree.route]
    have shown (m : InvocationId) (lt : m < id) :
        ∃ q, s.trace[m]? = some q ∧ q.depth + 1 = (s.invocations.chain m).length := by
      obtain ⟨j, hj⟩ := InvocationTree.get?_of_lt_size
        (Nat.lt_trans lt (InvocationTree.lt_size_of_get? hi))
      obtain ⟨q, hq⟩ := h.exists_record hj
      exact ⟨q, hq, h.depths m q hq⟩
    refine find?_reverse_range_eq_some above ?_ fun m behind lt => ?_
    · obtain ⟨q, hq, len⟩ := shown p above
      rw [hq, Option.map_some, len, depth, decide_eq_true_eq]
    · obtain ⟨q, hq, len⟩ := shown m lt
      have below := InvocationTree.length_chain_lt h.chronicle.parents
        (h.chronicle.between id i hi p hp m (Nat.le_of_lt behind) lt) (Nat.ne_of_lt behind)
      rw [hq, Option.map_some, len, depth, decide_eq_false_iff_not, Option.some.injEq]
      exact Nat.ne_of_gt below

/-- The report lists the invocations in preorder. -/
theorem report (h : s.Charted) : ∃ lines,
    s.traceReport = String.ofList (joinWith ['\n'] lines) ∧
      List.Forall₂ s.Lists s.invocations.preorder lines := by
  refine ⟨s.trace.toList.map fun r => r.render s.text, rfl, ?_⟩
  rw [h.chronicle.preorder_eq, List.forall₂_iff_get]
  refine ⟨by simp [h.size], fun id held held' => ?_⟩
  rw [List.length_range] at held
  obtain ⟨i, hi⟩ := InvocationTree.get?_of_lt_size held
  obtain ⟨r, hr⟩ := h.exists_record hi
  obtain ⟨place, line⟩ := r.exists_render s.text
  have depth := h.depths id r hr
  obtain ⟨_, same⟩ := Array.getElem?_eq_some_iff.1 hr
  simp only [List.get_eq_getElem, List.getElem_map, List.getElem_range, Array.getElem_toList, same]
  exact ⟨r, place, hr, by rw [line, ← depth, Nat.add_sub_cancel]⟩

theorem outlines (h : s.Charted) (lawful : s.Lawful) : Outlines s where
  size := h.size
  records := by
    intro id i hi
    obtain ⟨r, hr⟩ := h.exists_record hi
    obtain ⟨rule, position⟩ := h.same id r i hr hi
    exact ⟨r, hr, rule, position, h.depths id r hr, h.depth_eq_zero_iff hi hr⟩
  parents := fun id i hi => ⟨h.parent_eq hi, h.chronicle.parents id i hi⟩
  preorder := h.chronicle.preorder_eq
  report := h.report
  calls := by
    intro id i hi p hp
    obtain ⟨j, hj, callee⟩ := lawful id i hi p hp
    exact ⟨j, hj, Rule.calls_iff_mem_callees.2 callee⟩

end Charted

/-- After any calls the trace outlines the tree of invocations. -/
theorem trace_outlines_invocations (text : String) (calls : List Call) :
    match (ofText text true).plays calls with
    | .error why => why = .unevenFence ∧ Fenced.UnevenIn text
    | .ok (_, s) => Outlines s := by
  cases hplays : (ofText text true).plays calls with
  | error why => exact (Nested.start text true).unevenIn_of_plays hplays
  | ok result =>
    have lawful : (ofText text true).Lawful := by
      simp [Lawful, ofText, InvocationTree.empty, InvocationTree.get?]
    exact (kept_charted.plays (charted_ofText text) hplays).outlines (lawful.plays rfl hplays)

/-- A group is attempted that is not closed; then its parenthesis is read. -/
theorem trace_outlines_invocations_group :
    ∃ answers s, (ofText "(`x` b" true).plays [.attempt .group, .run .brktBeg] = .ok (answers, s) ∧
      Outlines s ∧ s.trace.toList.map (fun r => (r.depth, r.rule, r.succeeded)) =
        [(0, .group, false), (1, .brktBeg, true), (1, .orExpr, true), (2, .seqExpr, true),
          (3, .code, true), (3, .occExpr, true), (4, .atom, true), (5, .ruleRef, true),
          (1, .brktEnd, false), (0, .brktBeg, true)] := by
  obtain ⟨answers, s, hplays, records⟩ : ∃ answers s,
      (ofText "(`x` b" true).plays [.attempt .group, .run .brktBeg] = .ok (answers, s) ∧
        s.trace.toList.map (fun r => (r.depth, r.rule, r.succeeded)) =
          [(0, .group, false), (1, .brktBeg, true), (1, .orExpr, true), (2, .seqExpr, true),
            (3, .code, true), (3, .occExpr, true), (4, .atom, true), (5, .ruleRef, true),
            (1, .brktEnd, false), (0, .brktBeg, true)] :=
    ⟨_, _, rfl, rfl⟩
  have outlines := trace_outlines_invocations "(`x` b" [.attempt .group, .run .brktBeg]
  rw [hplays] at outlines
  exact ⟨answers, s, hplays, outlines, records⟩

end Session

end GrammarKit
