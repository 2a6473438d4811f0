import GrammarKit.Proofs.Session.Line
import GrammarKit.Proofs.Session.Noted
import Mathlib.Data.List.Forall2
import Mathlib.Logic.Relation

/-!
The debug trace. It has a record for every invocation, at the same place, and a record is marked once
its invocation has succeeded. Since a failure ends every invocation around it, the records without a
mark form one chain of invocations, from the root down to the one where the failure was raised.

Main statement: a call that succeeds adds marked records only, and of the records that a failing call
adds those without a mark are the ones of its failure's invocation and of the ancestors of that.
-/

namespace GrammarKit

namespace InvocationTree

def Makes (t : InvocationTree) (parent id : InvocationId) : Prop :=
  ∃ i, t.get? id = some i ∧ i.parent = some parent

def Leads (t : InvocationTree) : InvocationId → InvocationId → Prop := Relation.ReflTransGen t.Makes

inductive Descent (t : InvocationTree) :
    Option InvocationId → List InvocationId → Option InvocationId → Prop
  | here (p : Option InvocationId) : Descent t p [] p
  | down {id i ids q} (held : t.get? id = some i) (below : Descent t (some id) ids q) :
      Descent t i.parent (id :: ids) q

def rule? (t : InvocationTree) (id : InvocationId) : Option Rule := (t.get? id).map Invocation.rule

variable {t : InvocationTree} {p q : Option InvocationId} {id n : InvocationId}
  {ids : List InvocationId}

theorem Descent.ancestry (h : t.Descent p ids q) {steps : Nat} (enough : ids.length ≤ steps)
    (rules : List Rule) :
    t.ancestry steps q rules =
      t.ancestry (steps - ids.length) p (ids.filterMap t.rule? ++ rules) := by
  induction h with
  | here p => rfl
  | @down id i ids q held below ih =>
    rw [List.length_cons] at enough
    obtain ⟨left, hleft⟩ : ∃ left, steps - ids.length = left + 1 :=
      ⟨steps - ids.length - 1, by omega⟩
    have rest : steps - (ids.length + 1) = left := by omega
    have rule : t.rule? id = some i.rule := by rw [rule?, held, Option.map_some]
    rw [ih (by omega), hleft, InvocationTree.ancestry, held, List.length_cons, rest,
      List.filterMap_cons_some rule]
    rfl

theorem Descent.chain (h : t.Descent none ids (some id)) (enough : ids.length ≤ t.size) :
    t.chain id = ids.filterMap t.rule? := by
  have none (steps : Nat) (rules : List Rule) : t.ancestry steps none rules = rules := by
    cases steps <;> rfl
  rw [InvocationTree.chain, h.ancestry enough, none, List.append_nil]

theorem Descent.leads (h : t.Descent p ids (some id)) : ∀ n, n ∈ ids ∨ p = some n → t.Leads n id := by
  generalize hq : some id = q at h
  induction h with
  | here p =>
    rintro n (hn | hn)
    · cases hn
    · cases hq.trans hn
      exact .refl
  | @down id' i ids q held below ih =>
    have top := ih hq id' (.inr rfl)
    rintro n (hn | hn)
    · rcases List.mem_cons.1 hn with rfl | hn
      · exact top
      · exact ih hq n (.inl hn)
    · exact .head ⟨i, held, hn⟩ top

/-- Whatever made an invocation on the way is on the way, or above it. -/
theorem Descent.mem_of_makes (h : t.Descent p ids q) {parent : InvocationId} (hn : n ∈ ids)
    (makes : t.Makes parent n) : parent ∈ ids ∨ p = some parent := by
  induction h with
  | here p => cases hn
  | @down id i ids q held below ih =>
    rcases List.mem_cons.1 hn with rfl | hn
    · obtain ⟨i', held', made⟩ := makes
      cases held.symm.trans held'
      exact .inr made
    · rcases ih hn with mem | same
      · exact .inl (List.mem_cons_of_mem _ mem)
      · cases same
        exact .inl (List.mem_cons_self ..)

theorem Descent.mem_last (h : t.Descent p ids (some id)) : id ∈ ids ∨ p = some id := by
  generalize hq : some id = q at h
  induction h with
  | here p => exact .inr rfl
  | down held below ih =>
    rcases ih hq with mem | same
    · exact .inl (List.mem_cons_of_mem _ mem)
    · cases hq.trans same.symm
      exact .inl (List.mem_cons_self ..)

/-- From outside the tree the way leads through all ancestors. -/
theorem Descent.mem_iff (h : t.Descent none ids (some id)) : n ∈ ids ↔ t.Leads n id := by
  have inside : ∀ {m}, m ∈ ids ∨ none = some m → m ∈ ids := fun h => h.resolve_right nofun
  constructor
  · exact fun hn => h.leads n (.inl hn)
  · intro leads
    induction leads using Relation.ReflTransGen.head_induction_on with
    | refl => exact inside h.mem_last
    | head makes _ ih => exact inside (h.mem_of_makes ih makes)

end InvocationTree

def unmarked (base : Nat) (records : List TraceEntry) : List Nat :=
  ((records.zipIdx base).filter fun x => !x.1.succeeded).map Prod.snd

theorem unmarked_append (base : Nat) (a b : List TraceEntry) :
    unmarked base (a ++ b) = unmarked base a ++ unmarked (base + a.length) b := by
  simp [unmarked, List.zipIdx_append]

theorem unmarked_cons {r : TraceEntry} (h : r.succeeded = false) (base : Nat)
    (records : List TraceEntry) : unmarked base (r :: records) = base :: unmarked (base + 1) records := by
  simp [unmarked, List.zipIdx_cons, h]

theorem unmarked_of_succeeded {records : List TraceEntry} (h : ∀ r ∈ records, r.succeeded = true)
    (base : Nat) : unmarked base records = [] := by
  rw [unmarked, List.map_eq_nil_iff, List.filter_eq_nil_iff]
  rintro ⟨r, n⟩ hr
  obtain ⟨-, -, same⟩ := List.mem_zipIdx hr
  rw [same, h _ (List.getElem_mem _)]
  decide

theorem length_unmarked_le (base : Nat) (records : List TraceEntry) :
    (unmarked base records).length ≤ records.length := by
  rw [unmarked, List.length_map]
  exact (List.length_filter_le ..).trans (Nat.le_of_eq List.length_zipIdx)

theorem mem_unmarked {base n : Nat} {records : List TraceEntry} :
    n ∈ unmarked base records ↔ base ≤ n ∧ ∃ r, records[n - base]? = some r ∧ r.succeeded = false := by
  simp only [unmarked, List.mem_map, List.mem_filter, Prod.exists, exists_eq_right,
    List.mk_mem_zipIdx_iff_le_and_getElem?_sub, Bool.not_eq_true']
  constructor
  · rintro ⟨r, ⟨le, hr⟩, mark⟩
    exact ⟨le, r, hr, mark⟩
  · rintro ⟨le, r, hr, mark⟩
    exact ⟨r, ⟨le, hr⟩, mark⟩

namespace Session

variable {s t u : Session}

/-- The debug trace is kept, and has a record of every invocation at the same place. -/
structure Mirrors (s : Session) : Prop where
  debug : s.debug = true
  size : s.trace.size = s.invocations.size
  same : ∀ (n : Nat) r i, s.trace[n]? = some r → s.invocations.get? n = some i →
    r.rule = i.rule ∧ r.position = i.entry

theorem mirrors_ofText (text : String) : (ofText text true).Mirrors where
  debug := rfl
  size := rfl
  same := by simp [ofText]

namespace Mirrors

theorem of_eq (h : s.Mirrors) (debug : u.debug = s.debug) (trace : u.trace = s.trace)
    (invocations : u.invocations = s.invocations) : u.Mirrors := by
  constructor
  · rw [debug, h.debug]
  · rw [trace, invocations, h.size]
  · rw [trace, invocations]
    exact h.same

theorem peek (h : s.Mirrors) (branch : Bool) (candidates : List Token) :
    (s.peek branch candidates).2.Mirrors :=
  h.of_eq (by simp) (by simp) (by simp)

theorem trace_enter (h : s.Mirrors) (rule : Rule) :
    (s.enter rule).2.trace = s.trace.push ⟨rule, (s.enter rule).2.position, s.depth, false⟩ := by
  rw [enter_trace, h.debug, if_pos rfl]

theorem enter (h : s.Mirrors) (rule : Rule) : (s.enter rule).2.Mirrors where
  debug := h.debug
  size := by rw [h.trace_enter, Array.size_push, enter_size, h.size]
  same := by
    intro n r i hr hi
    rw [h.trace_enter, Array.getElem?_push, h.size] at hr
    rw [get?_enter] at hi
    split at hr
    · rename_i hn
      rw [if_pos hn] at hi
      cases hr
      cases hi
      exact ⟨rfl, rfl⟩
    · rename_i hn
      rw [if_neg hn] at hi
      exact h.same n r i hr hi

theorem leave {α : Type} (h : s.Mirrors) (frame : Frame) (result : Except FailureId α) :
    (s.leave frame result).Mirrors where
  debug := by rw [leave_debug, h.debug]
  size := by
    rw [leave_trace, leave_invocations, ← h.size]
    cases result with
    | error e => rfl
    | ok a =>
      unfold markSucceeded
      cases frame.record with
      | none => rfl
      | some i => exact Array.size_modify
  same := by
    intro n r i hr hi
    rw [leave_invocations] at hi
    obtain ⟨r', hr', rule, position, -⟩ := exists_record_of_leave hr
    rw [← rule, ← position]
    exact h.same n r' i hr' hi

end Mirrors

/-- These records were added to the trace by what has run in `s` and left `u`: all of them marked,
unless it has failed. Then those without a mark lead to where the failure was raised. -/
structure Traces {α : Type} (s u : Session) (added : List TraceEntry) (r : Except FailureId α) :
    Prop where
  mirrors : u.Mirrors
  trace : u.trace.toList = s.trace.toList ++ added
  success : ∀ a, r = .ok a → ∀ x ∈ added, x.succeeded = true
  failure : ∀ e, r = .error e → ∃ f, u.failures[e]? = some f ∧
    u.invocations.Descent s.current (unmarked s.trace.size added) f.invocation

namespace Traces

variable {α β : Type} {r : Except FailureId α} {added inner : List TraceEntry}

theorem silent {a : α} (h : u.Mirrors) (trace : u.trace = s.trace) :
    Traces s u [] (.ok a : Except FailureId α) where
  mirrors := h
  trace := by rw [trace, List.append_nil]
  success := by simp
  failure := nofun

theorem fail (h : s.Mirrors) (tried : List Token) :
    Traces s (s.fail tried).2 [] (.error (s.fail tried).1 : Except FailureId α) where
  mirrors := h.of_eq rfl rfl rfl
  trace := (List.append_nil _).symm
  success := nofun
  failure := by
    rintro e ⟨⟩
    exact ⟨_, s.get?_fail tried, .here s.current⟩

theorem of_peek {branch : Bool} {candidates : List Token}
    (h : Traces (s.peek branch candidates).2 u added r) : Traces s u added r where
  mirrors := h.mirrors
  trace := by rw [h.trace, peek_trace]
  success := h.success
  failure := by
    intro e he
    have := h.failure e he
    rwa [peek_current, peek_trace] at this

/-- An invocation that fails leaves its own record without a mark, in front of those of its body. -/
theorem invoke_error {rule : Rule} {e : FailureId} (hs : s.Mirrors) (grows : Grows (s.enter rule).2 t)
    (h : Traces (s.enter rule).2 t inner (.error e : Except FailureId β)) :
    Traces s (t.leave (s.enter rule).1 (.error e : Except FailureId β))
      (⟨rule, (s.enter rule).2.position, s.depth, false⟩ :: inner)
      (.error e : Except FailureId α) where
  mirrors := h.mirrors.leave _ _
  trace := by
    rw [leave_trace, h.trace, hs.trace_enter, Array.toList_push, List.append_assoc]
    rfl
  success := nofun
  failure := by
    rintro e' ⟨⟩
    obtain ⟨f, hf, below⟩ := h.failure e rfl
    refine ⟨f, by rwa [leave_failures], ?_⟩
    rw [enter_current, hs.trace_enter, Array.size_push, ← hs.size] at below
    have held := grows.invocations s.trace.size (by rw [enter_size, hs.size]; exact Nat.lt_succ_self _)
    rw [get?_enter, if_pos hs.size] at held
    rw [leave_invocations, unmarked_cons rfl]
    exact .down held below

/-- An invocation that succeeds marks its own record, in front of those of its body. -/
theorem invoke_ok {rule : Rule} {b : β} (hs : s.Mirrors)
    (h : Traces (s.enter rule).2 t inner (.ok b : Except FailureId β)) :
    Traces s (t.leave (s.enter rule).1 (.ok b : Except FailureId β))
      (⟨rule, (s.enter rule).2.position, s.depth, true⟩ :: inner)
      (.ok b : Except FailureId β) where
  mirrors := h.mirrors.leave _ _
  trace := by
    have record : (s.enter rule).1.record = some s.trace.toList.length := by
      have : (s.enter rule).1.record = if s.debug then some s.trace.size else none := rfl
      rw [this, hs.debug]
      rfl
    have trace := h.trace
    rw [hs.trace_enter, Array.toList_push, List.append_assoc] at trace
    simp only [leave_trace, record, markSucceeded, Array.toList_modify, trace]
    rw [List.modify_eq_take_cons_drop (by simp)]
    simp [List.drop_append]
  success := by
    rintro a ⟨⟩
    exact List.forall_mem_cons.2 ⟨rfl, h.success b rfl⟩
  failure := nofun

theorem append {b : β} (h : Traces s t inner (.ok b : Except FailureId β))
    (current : t.current = s.current) (k : Traces t u added r) :
    Traces s u (inner ++ added) r where
  mirrors := k.mirrors
  trace := by rw [k.trace, h.trace, List.append_assoc]
  success := by
    intro a ha x hx
    rcases List.mem_append.1 hx with hx | hx
    · exact h.success b rfl x hx
    · exact k.success a ha x hx
  failure := by
    intro e he
    have size : t.trace.size = s.trace.size + inner.length := by
      rw [← Array.length_toList, h.trace, List.length_append, Array.length_toList]
    rw [unmarked_append, unmarked_of_succeeded (h.success b rfl), ← size, ← current]
    exact k.failure e he

end Traces

end Session

namespace Handler

open Session

theorem Runs.traces {α : Type} {looked : Bool} {s u : Session} {r : Except FailureId α}
    (h : Runs looked s r u) (hs : s.Mirrors) : ∃ added, Traces s u added r := by
  induction h with
  | done s a => exact ⟨[], .silent hs rfl⟩
  | hit rest ih =>
    obtain ⟨added, traces⟩ := ih (hs.peek _ _)
    exact ⟨added, traces.of_peek⟩
  | miss nonempty further none rest ih =>
    obtain ⟨added, traces⟩ := ih (hs.peek _ _)
    exact ⟨added, traces.of_peek⟩
  | read s n a => exact ⟨[], .silent (hs.of_eq rfl rfl rfl) rfl⟩
  | unread none => exact ⟨[], .fail hs _⟩
  | refuse s => exact ⟨[], .fail hs []⟩
  | failed body ih =>
    obtain ⟨inner, traces⟩ := ih (hs.enter _)
    exact ⟨_, traces.invoke_error hs body.grows⟩
  | invoked body rest ihb ih =>
    obtain ⟨inner, traces⟩ := ihb (hs.enter _)
    have invoked := traces.invoke_ok hs
    obtain ⟨added, behind⟩ := ih invoked.mirrors
    exact ⟨_, invoked.append (by simp) behind⟩

end Handler

/-- The chain of rules is printed between the place of a failure and the source line. -/
theorem FailureSite.exists_location (r : FailureSite) (width : List Char → Nat) (text : String) :
    ∃ head tail, r.location width text =
      head ++ " (ctx: ".toList ++ r.chain ++ "):\n```\n".toList ++ tail := by
  unfold location
  dsimp only
  rw [List.append_assoc, List.append_assoc, List.append_assoc]
  exact ⟨_, _, rfl⟩

namespace Session

variable {s t u : Session}

theorem run_traces {rule : Rule} {result : Except FailureId rule.Output} (hs : s.Mirrors)
    (hr : s.run rule = .ok (result, u)) : ∃ added, Traces s u added result := by
  obtain ⟨t, ht, rfl⟩ := run_eq_ok hr
  have runs := (Rule.careful_handler (Rule.fuelFor s.text) rule).runs ht
  obtain ⟨inner, traces⟩ := runs.traces (hs.enter rule)
  cases result with
  | ok a => exact ⟨_, traces.invoke_ok hs⟩
  | error e => exact ⟨_, traces.invoke_error hs runs.grows⟩

/-- The report of the trace goes on behind the lines that it had before. Of the lines behind those the
ones with an exclamation mark are, in turn, those of the rules in the chain that is printed for the
failure. -/
structure Prints (s u : Session) (e : FailureId) (before behind : List (List Char)) : Prop where
  earlier : s.traceReport = String.ofList (joinWith ['\n'] before)
  report : u.traceReport = String.ofList (joinWith ['\n'] (before ++ behind))
  single : ∀ line ∈ before ++ behind, '\n' ∉ line
  flagged : List.Forall₂ (fun line rule => ∃ indent place,
      line = List.replicate indent ' ' ++ '!' :: (rule.name.toList ++ ':' :: place))
    (behind.filter TraceEntry.flagged) (u.site e).rules
  chain : (u.site e).chain = joinWith [' '] ((u.site e).rules.map fun rule => rule.name.toList)
  context : ∀ width, ∃ head tail, (u.report e).primary.location width u.text =
    head ++ " (ctx: ".toList ++ (u.site e).chain ++ "):\n```\n".toList ++ tail

/-- The failure is the only one raised. The records without a mark that were added with `added` are
those of the invocation that it was raised in and of the ancestors of that, and so it is printed. -/
structure Blames (s u : Session) (added : List TraceEntry) (e : FailureId) (f : Failure) :
    Prop where
  raised : u.failures = s.failures.push f ∧ e = s.failures.size
  chain : ∃ id, f.invocation = some id ∧ ∀ n : Nat, u.invocations.Leads n id ↔
    s.trace.size ≤ n ∧ ∃ r, u.trace[n]? = some r ∧ r.succeeded = false
  rules : (added.filter fun r => !r.succeeded).map TraceEntry.rule = (u.site e).rules
  lines : ∃ before behind, before.length = s.trace.size ∧ behind.length = added.length ∧
    Prints s u e before behind

/-- The trace goes on with these records, and has one of every invocation. If the call failed, its
failure blames those without a mark, and otherwise there are none. -/
structure Marks (s u : Session) (answer : Answer) (added : List TraceEntry) : Prop where
  mirrors : u.Mirrors
  trace : u.trace.toList = s.trace.toList ++ added
  success : answer.failed = false → ∀ r ∈ added, r.succeeded = true
  failure : answer.failed = true → ∃ e f, Blames s u added e f ∧ ∀ e' ∈ answer.failure?, e' = e

theorem Mirrors.rules {added : List TraceEntry} (h : u.Mirrors)
    (trace : u.trace.toList = s.trace.toList ++ added) :
    (unmarked s.trace.size added).filterMap u.invocations.rule? =
      (added.filter fun r => !r.succeeded).map TraceEntry.rule := by
  have told : ∀ x ∈ (added.zipIdx s.trace.size).filter fun x => !x.1.succeeded,
      u.invocations.rule? x.2 = some x.1.rule := by
    rintro ⟨r, n⟩ hx
    obtain ⟨le, hr⟩ := List.mk_mem_zipIdx_iff_le_and_getElem?_sub.1 (List.mem_of_mem_filter hx)
    have record : u.trace[n]? = some r := by
      rw [← Array.getElem?_toList, trace, List.getElem?_append_right (by simpa using le)]
      simpa using hr
    have held : n < u.invocations.size := by
      rw [← h.size]
      exact (Array.getElem?_eq_some_iff.1 record).1
    have hi : u.invocations.get? n = some u.invocations.records[n] := Array.getElem?_eq_getElem held
    rw [InvocationTree.rule?, hi, Option.map_some, (h.same n r _ record hi).1]
  rw [unmarked, List.filterMap_map]
  calc _ = ((added.zipIdx s.trace.size).filter fun x => !x.1.succeeded).filterMap
        (some ∘ fun x => x.1.rule) := List.filterMap_congr told
    _ = (((added.zipIdx s.trace.size).map Prod.fst).filter fun r => !r.succeeded).map
        TraceEntry.rule := by
      rw [List.filterMap_eq_map, List.filter_map, List.map_map]
      rfl
    _ = _ := by rw [List.zipIdx_map_fst]

/-- The records that were added are printed, and those without a mark are flagged. -/
theorem Prints.of_rules {added : List TraceEntry} {e : FailureId} (text : u.text = s.text)
    (trace : u.trace.toList = s.trace.toList ++ added)
    (rules : (added.filter fun r => !r.succeeded).map TraceEntry.rule = (u.site e).rules) :
    Prints s u e (s.trace.toList.map fun r => r.render u.text)
      (added.map fun r => r.render u.text) where
  earlier := by rw [traceReport, renderTrace, text]
  report := by rw [traceReport, renderTrace, trace, List.map_append]
  single := by
    intro line hline
    rw [← List.map_append] at hline
    obtain ⟨r, -, rfl⟩ := List.mem_map.1 hline
    exact r.notMem_render u.text
  flagged := by
    have flags : (TraceEntry.flagged ∘ fun r : TraceEntry => r.render u.text) =
        fun r => !r.succeeded := funext fun r => r.flagged_render u.text
    rw [← rules, List.filter_map, flags, List.forall₂_map_left_iff, List.forall₂_map_right_iff,
      List.forall₂_same]
    intro r hr
    obtain ⟨place, line⟩ := r.exists_render u.text
    have mark : r.succeeded = false := by simpa using (List.mem_filter.1 hr).2
    rw [mark] at line
    exact ⟨_, place, line⟩
  chain := rfl
  context := fun width => (u.site e).exists_location width u.text

theorem Traces.blames {α : Type} {added : List TraceEntry} {e : FailureId}
    (h : Traces s u added (.error e : Except FailureId α)) (root : s.current = none)
    (text : u.text = s.text)
    (begun : ∀ f, u.failures[e]? = some f → s.Begun u f.invocation)
    (raises : Raises s u (.error e : Except FailureId α)) : ∃ f, Blames s u added e f := by
  obtain ⟨f, hf, descent⟩ := h.failure e rfl
  obtain ⟨rfl, f', raised⟩ := raises
  have same : f' = f := by
    rw [raised, Array.getElem?_push_size] at hf
    exact Option.some.inj hf
  subst same
  obtain ⟨id, blamed, -, -⟩ := begun f' hf
  rw [root, blamed] at descent
  have few : (unmarked s.trace.size added).length ≤ u.invocations.size := by
    have := congrArg List.length h.trace
    rw [Array.length_toList, List.length_append, h.mirrors.size] at this
    have := length_unmarked_le s.trace.size added
    omega
  have rules : (added.filter fun r => !r.succeeded).map TraceEntry.rule =
      (u.site s.failures.size).rules := by
    rw [← h.mirrors.rules h.trace, ← descent.chain few, Session.site, Session.failure, hf, Option.getD_some, blamed]
    rfl
  refine ⟨f', ⟨raised, rfl⟩, ⟨id, blamed, ?_⟩, rules, ?_⟩
  · intro n
    rw [← descent.mem_iff, mem_unmarked]
    refine and_congr_right fun le => ?_
    rw [← Array.getElem?_toList, h.trace, List.getElem?_append_right (by simpa using le),
      Array.length_toList]
  · exact ⟨_, _, by simp, by simp, .of_rules text h.trace rules⟩

theorem run_error_blames {rule : Rule} {e : FailureId} (hs : s.Mirrors) (root : s.current = none)
    (hr : s.run rule = .ok (.error e, u)) : ∃ added, Traces s u added
      (.error e : Except FailureId rule.Output) ∧ ∃ f, Blames s u added e f := by
  obtain ⟨added, traces⟩ := run_traces hs hr
  obtain ⟨named, raised, -⟩ := run_error_accounts hr
  refine ⟨added, traces, traces.blames root (run_grows hr).text ?_ ⟨named, raised⟩⟩
  intro f hf
  obtain ⟨f', hf', -, begun⟩ := run_explains hr
  cases hf.symm.trans hf'
  exact begun

theorem Blames.move {added : List TraceEntry} {e : FailureId} {f : Failure}
    (h : Blames s u added e f) {c : Cursor} (same : c.text = u.text) :
    Blames s { u with cursor := c } added e f where
  raised := h.raised
  chain := h.chain
  rules := h.rules
  lines := by
    have text : Session.text { u with cursor := c } = u.text := same
    obtain ⟨before, behind, earlier, later, prints⟩ := h.lines
    refine ⟨before, behind, earlier, later, { prints with report := ?_, context := ?_ }⟩
    · rw [traceReport, text]
      exact prints.report
    · rw [text]
      exact prints.context

theorem perform_marks {call : Call} {answer : Answer} (hs : s.Mirrors) (root : s.current = none)
    (hr : s.perform call = .ok (answer, u)) : ∃ added, Marks s u answer added := by
  have success {rule : Rule} {a : rule.Output} {answer : Answer} (good : answer.failed = false)
      (hrun : s.run rule = .ok (.ok a, u)) : ∃ added, Marks s u answer added := by
    obtain ⟨added, traces⟩ := run_traces hs hrun
    refine ⟨added, traces.mirrors, traces.trace, fun _ => traces.success a rfl, fun bad => ?_⟩
    exact absurd (good.symm.trans bad) Bool.false_ne_true
  rcases perform_eq_ok hr with ⟨rule, result, hrun, rfl⟩ | ⟨rule, result, hattempt, rfl⟩
  · cases result with
    | ok a => exact success rfl hrun
    | error e =>
      obtain ⟨added, traces, f, blames⟩ := run_error_blames hs root hrun
      refine ⟨added, traces.mirrors, traces.trace, nofun, fun _ => ⟨e, f, blames, ?_⟩⟩
      rintro e' ⟨⟩
      rfl
  · rcases attempt_eq_ok hattempt with ⟨a, rfl, hrun⟩ | ⟨e, t, rfl, hrun, rfl⟩
    · exact success rfl hrun
    · obtain ⟨added, traces, f, blames⟩ := run_error_blames hs root hrun
      have text : s.cursor.text = t.text := (run_grows hrun).text.symm
      exact ⟨added, traces.mirrors.of_eq rfl rfl rfl, traces.trace, nofun,
        fun _ => ⟨e, f, blames.move text, nofun⟩⟩

theorem perform_current {call : Call} {answer : Answer} (hr : s.perform call = .ok (answer, u)) :
    u.current = s.current := by
  rcases perform_eq_ok hr with ⟨rule, result, hrun, -⟩ | ⟨rule, result, hattempt, -⟩
  · exact (run_grows hrun).current
  · rcases attempt_eq_ok hattempt with ⟨a, -, hrun⟩ | ⟨e, t, -, hrun, rfl⟩
    · exact (run_grows hrun).current
    · exact (run_grows hrun).current

theorem Mirrors.plays {calls : List Call} {answers : List Answer} (hs : s.Mirrors)
    (root : s.current = none) (hr : s.plays calls = .ok (answers, u)) :
    u.Mirrors ∧ u.current = none := by
  induction calls generalizing s answers with
  | nil =>
    cases hr
    exact ⟨hs, root⟩
  | cons call calls ih =>
    obtain ⟨answer, t, rest, hcall, hrest, -⟩ := plays_cons_eq_ok hr
    obtain ⟨added, marks⟩ := perform_marks hs root hcall
    exact ih marks.mirrors ((perform_current hcall).trans root) hrest

/-- After any calls, the records that the next call adds are marked, apart from those that its
failure blames. -/
theorem trace_marks_failing_chain (text : String) (calls : List Call) (call : Call) :
    match (ofText text true).plays calls with
    | .error why => why = .unevenFence ∧ Fenced.UnevenIn text
    | .ok (_, s) =>
      match s.perform call with
      | .error why => why = .unevenFence ∧ Fenced.UnevenIn text
      | .ok (answer, u) => ∃ added, Marks s u answer added := by
  have start := Nested.start text true
  cases hplays : (ofText text true).plays calls with
  | error why => exact start.unevenIn_of_plays hplays
  | ok result =>
    obtain ⟨answers, s⟩ := result
    dsimp only
    obtain ⟨mirrors, root⟩ := (mirrors_ofText text).plays rfl hplays
    cases hcall : s.perform call with
    | error why =>
      have broken := (start.plays hplays).unevenIn_of_perform hcall
      rwa [plays_text hplays] at broken
    | ok result => exact perform_marks mirrors root hcall

/-- Behind a parenthesis that was read before, a group is opened and not closed. -/
theorem trace_marks_failing_chain_group :
    ∃ s answer u added, (ofText "((a" true).plays [.run .brktBeg] =
        .ok ([.ran (.ok .unit) ⟨"((a", ⟨1, 0, 1⟩, ['(', 'a']⟩], s) ∧
      s.perform (.attempt .group) = .ok (answer, u) ∧ Marks s u answer added ∧
      u.trace.toList.map (fun r => (r.rule, r.succeeded)) =
        [(.brktBeg, true), (.group, false), (.brktBeg, true), (.orExpr, true), (.seqExpr, true),
          (.occExpr, true), (.atom, true), (.ruleRef, true), (.brktEnd, false)] := by
  obtain ⟨s, answer, u, hplays, hcall, records⟩ :
      ∃ s answer u, (ofText "((a" true).plays [.run .brktBeg] =
          .ok ([.ran (.ok .unit) ⟨"((a", ⟨1, 0, 1⟩, ['(', 'a']⟩], s) ∧
        s.perform (.attempt .group) = .ok (answer, u) ∧
        u.trace.toList.map (fun r => (r.rule, r.succeeded)) =
          [(.brktBeg, true), (.group, false), (.brktBeg, true), (.orExpr, true), (.seqExpr, true),
            (.occExpr, true), (.atom, true), (.ruleRef, true), (.brktEnd, false)] :=
    ⟨_, _, _, rfl, rfl, rfl⟩
  have marks := trace_marks_failing_chain "((a" [.run .brktBeg] (.attempt .group)
  simp only [hplays, hcall] at marks
  obtain ⟨added, marks⟩ := marks
  exact ⟨s, answer, u, added, hplays, hcall, marks, records⟩

end Session

end GrammarKit
