import GrammarKit.Proofs.Session.Transparency
import GrammarKit.Proofs.Text.Row
import GrammarKit.Session.Trace
import Mathlib.Data.List.Forall2

/-!
The positions of a session. The cursor stands somewhere in the text, and every position stored with
an invocation, a failure or a trace record is one where the cursor stood. They are kept while the text
is read and looked up later in the text alone, by the trace, by the caret of a report and by its
labels.

Main statement: whatever is done with a session, each of its positions is the place of the same
character for all of them.
-/

namespace GrammarKit

def Position.Within (p : Position) (text : String) : Prop :=
  ∃ before after, p.Divides text before after

/-- What is shown for a position is cut where the text is divided: the source line of a trace record
by a bar, the one of a report by the caret below it, however columns are counted, and the whole text
by the label. -/
structure Position.Shown (p : Position) (text : String) (before after : List Char) : Prop where
  line : (lines text.toList)[p.row]? = some (lineAt text p.row)
  inside : p.col ≤ (lineAt text p.row).length
  cut : (lineAt text p.row).take p.col <:+ before ∧ (lineAt text p.row).drop p.col <+: after
  bar : ∀ r : TraceEntry, r.position = p → r.render text =
    List.replicate (4 * r.depth) ' ' ++ (if r.succeeded then [] else ['!']) ++ r.rule.name.toList ++
      [':', ' '] ++ p.text.toList ++ [':', ' '] ++
      escaped (lastLine before ++ '|' :: firstLine after)
  caret : ∀ (f : FailureSite) (width : List Char → Nat), f.position = p → f.location width text =
    "Rule `".toList ++ f.ruleName ++ "` failed at ".toList ++ p.text.toList ++
      " (ctx: ".toList ++ f.chain ++ "):\n```\n".toList ++
      (lastLine before ++ firstLine after) ++ ['\n'] ++
      (List.replicate (width (lastLine before)) ' ' ++ ['^']) ++ "\n```".toList
  label : ∀ (f : FailureSite) (lead : String), f.position = p → Report.label? text lead f =
    some ⟨String.ofList (lead.toList ++ '`' :: f.ruleName ++ "` failed here".toList),
      byteLength before, byteLength (after.take 1)⟩

theorem Position.Divides.shown {p : Position} {text : String} {before after : List Char}
    (h : p.Divides text before after) : p.Shown text before after where
  line := by rw [h.line, h.lineAt_eq]
  inside := h.col_le
  cut := by
    rw [h.take_lineAt, h.drop_lineAt]
    exact ⟨List.rtakeWhile_suffix .., List.takeWhile_prefix _⟩
  bar := by
    rintro r rfl
    rw [TraceEntry.render, TraceEntry.markedLine, h.take_lineAt, h.drop_lineAt]
  caret := by
    rintro f width rfl
    unfold FailureSite.location FailureSite.caret
    dsimp only
    rw [h.take_lineAt, h.lineAt_eq]
  label := by
    rintro f lead rfl
    rw [Report.label?, FailureSite.span?, h.charsIn_eq, h.text, h.offset]
    simp

theorem infix_joinWith {piece : List Char} {pieces : List (List Char)} (h : piece ∈ pieces)
    (sep : List Char) : piece <:+: joinWith sep pieces := by
  fun_induction joinWith sep pieces with
  | case1 => cases h
  | case2 only =>
    rw [List.mem_singleton.1 h]
  | case3 first rest _ ih =>
    rcases List.mem_cons.1 h with rfl | h
    · rw [List.append_assoc]
      exact (List.prefix_append _ _).isInfix
    · exact (ih h).trans (List.suffix_append _ _).isInfix

namespace Report

/-- A report tells of its failure and of each possible reason where it is, in print and by a label. -/
structure Points (f : Report) : Prop where
  printed : ∀ r ∈ f.primary :: f.reasons, ∃ before after,
    r.position.Divides f.text before after ∧ r.position.Shown f.text before after ∧
      ∀ title width, r.location width f.text <:+: (f.render title width).toList
  labels : ∃ labels, f.labels? = some labels ∧ List.Forall₂ (fun r (l : Label) =>
      ∃ before after, r.position.Divides f.text before after ∧
        l.offset = byteLength before ∧ l.length = byteLength (after.take 1))
    (f.primary :: f.reasons) labels

variable {f : Report}

theorem location_infix_render {r : FailureSite} (h : r ∈ f.primary :: f.reasons) (title : String)
    (width : List Char → Nat) : r.location width f.text <:+: (f.render title width).toList := by
  have mem : (SectionKind.location, r.location width f.text) ∈ f.sections width title := by
    rcases List.mem_cons.1 h with rfl | h
    · exact List.mem_append_left _ (List.mem_append_left _ (.tail _ (.head _)))
    · have some : ¬f.reasons.isEmpty := fun none => List.ne_nil_of_mem h (List.isEmpty_iff.1 none)
      rw [sections, if_neg some]
      exact List.mem_append_right _ (.tail _ (List.mem_map.2 ⟨r, h, rfl⟩))
  have piece : r.location width f.text ∈ (f.sections width title).map Prod.snd :=
    List.mem_map.2 ⟨_, mem, rfl⟩
  rw [render, String.toList_ofList]
  exact infix_joinWith piece _

/-- A report whose failures are places in its text. -/
theorem points (within : ∀ r ∈ f.primary :: f.reasons, r.position.Within f.text) : f.Points where
  printed := by
    intro r hr
    obtain ⟨before, after, h⟩ := within r hr
    exact ⟨before, after, h, h.shown, location_infix_render hr⟩
  labels := by
    have labelled (lead : String) (r : FailureSite) (h : r.position.Within f.text) :
        ∃ l, label? f.text lead r = some l ∧ ∃ before after, r.position.Divides f.text before after ∧
          l.offset = byteLength before ∧ l.length = byteLength (after.take 1) := by
      obtain ⟨before, after, h⟩ := h
      exact ⟨_, h.shown.label r lead rfl, before, after, h, rfl, rfl⟩
    obtain ⟨primary, reasons⟩ := List.forall_mem_cons.1 within
    obtain ⟨l, hl, told⟩ := labelled "" f.primary primary
    suffices rest : ∃ ls, f.reasons.mapM (label? f.text "possible reason: ") = some ls ∧
        List.Forall₂ (fun r (l : Label) => ∃ before after, r.position.Divides f.text before after ∧
          l.offset = byteLength before ∧ l.length = byteLength (after.take 1)) f.reasons ls by
      obtain ⟨ls, hls, others⟩ := rest
      exact ⟨l :: ls, by rw [labels?, hl, hls], .cons told others⟩
    generalize f.reasons = rs at reasons
    induction rs with
    | nil => exact ⟨[], rfl, .nil⟩
    | cons r rs ih =>
      obtain ⟨here, behind⟩ := List.forall_mem_cons.1 reasons
      obtain ⟨l, hl, told⟩ := labelled "possible reason: " r here
      obtain ⟨ls, hls, others⟩ := ih behind
      exact ⟨l :: ls, by simp [hl, hls], .cons told others⟩

end Report

namespace Session

inductive Stores (s : Session) : Position → Prop
  | cursor : Stores s s.position
  | entry {id : InvocationId} {i : Invocation} (h : s.invocations.get? id = some i) :
      Stores s i.entry
  | failure {e : FailureId} {f : Failure} (h : s.failures[e]? = some f) : Stores s f.position
  | record {n : Nat} {r : TraceEntry} (h : s.trace[n]? = some r) : Stores s r.position

structure Placed (text : String) (s : Session) : Prop where
  reads : s.text = text
  cursor : s.cursor.Coherent
  entries : ∀ id i, s.invocations.get? id = some i → i.entry.Within text
  failures : ∀ (e : FailureId) f, s.failures[e]? = some f → f.position.Within text
  trace : ∀ (n : Nat) r, s.trace[n]? = some r → r.position.Within text

variable {text : String} {s t u : Session}

theorem placed_ofText (text : String) (debug : Bool) : Placed text (ofText text debug) where
  reads := rfl
  cursor := Cursor.coherent_ofText text
  entries := by simp [ofText, InvocationTree.empty, InvocationTree.get?]
  failures := by simp [ofText]
  trace := by simp [ofText]

namespace Placed

theorem position_within (h : Placed text s) : s.position.Within text := by
  obtain ⟨before, divides⟩ := h.cursor.divides
  rw [show s.cursor.text = text from h.reads] at divides
  exact ⟨before, _, divides⟩

theorem within (h : Placed text s) {p : Position} (hp : s.Stores p) : p.Within text := by
  cases hp with
  | cursor => exact h.position_within
  | entry hi => exact h.entries _ _ hi
  | failure hf => exact h.failures _ _ hf
  | record hr => exact h.trace _ _ hr

theorem move (h : Placed text s) {c : Cursor} (same : c.text = s.text) (coherent : c.Coherent) :
    Placed text { s with cursor := c } where
  reads := same.trans h.reads
  cursor := coherent
  entries := h.entries
  failures := h.failures
  trace := h.trace

theorem read (h : Placed text s) (n : Nat) : Placed text { s with cursor := s.cursor.read n } :=
  h.move rfl (h.cursor.read n)

theorem peek (h : Placed text s) (branch : Bool) (candidates : List Token) :
    Placed text (s.peek branch candidates).2 := by
  unfold Session.peek
  split
  · exact { h with }
  · exact { h with }

theorem fail (h : Placed text s) (tried : List Token) : Placed text (s.fail tried).2 where
  reads := h.reads
  cursor := h.cursor
  entries := h.entries
  failures := by
    intro e f hf
    rw [fail_failures, Array.getElem?_push] at hf
    split at hf
    · cases hf
      exact h.position_within
    · exact h.failures e f hf
  trace := h.trace

theorem expect (h : Placed text s) (candidates : List Token) :
    Placed text (s.expect candidates).2 := by
  have peeked := h.peek false candidates
  unfold Session.expect
  split
  · rename_i heq
    rwa [heq] at peeked
  · rename_i heq
    rw [heq] at peeked
    exact peeked.fail []

theorem consume (h : Placed text s) (t : Token) : Placed text (s.consume t).2 := by
  cases hn : t.length? s.cursor.rest with
  | none =>
    rw [s.consume_of_miss hn]
    exact h.fail [t]
  | some n =>
    rw [s.consume_of_hit hn]
    exact h.read n

theorem enter (h : Placed text s) (rule : Rule) : Placed text (s.enter rule).2 := by
  have skipped := h.read (layoutLength s.cursor.rest)
  refine ⟨skipped.reads, skipped.cursor, ?_, h.failures, ?_⟩
  · intro id i hi
    rw [get?_enter] at hi
    split at hi
    · cases hi
      exact skipped.position_within
    · exact h.entries id i hi
  · intro n r hr
    rw [enter_trace] at hr
    split at hr
    · rw [Array.getElem?_push] at hr
      split at hr
      · cases hr
        exact skipped.position_within
      · exact h.trace n r hr
    · exact h.trace n r hr

theorem leave {α : Type} (h : Placed text s) (frame : Frame) (result : Except FailureId α) :
    Placed text (s.leave frame result) where
  reads := by
    rw [Session.text, leave_cursor]
    exact h.reads
  cursor := by
    rw [leave_cursor]
    exact h.cursor.read _
  entries := by
    rw [leave_invocations]
    exact h.entries
  failures := by
    rw [leave_failures]
    exact h.failures
  trace := by
    intro n r hr
    obtain ⟨r', hr', -, same, -⟩ := exists_record_of_leave hr
    rw [← same]
    exact h.trace n r' hr'

end Placed

end Session

namespace Handler

open Session

variable {α : Type} {text : String} {s u : Session}

theorem exec_placed {h : Handler α} {r : Except FailureId α} (hs : Placed text s)
    (hr : h.exec s = .ok (r, u)) : Placed text u := by
  induction h generalizing s u with
  | done a =>
    cases hr
    exact hs
  | reraise e =>
    cases hr
    exact hs
  | abort why => cases hr
  | peek branch candidates k ih => exact ih _ (hs.peek branch candidates) hr
  | consume t k ih => exact ih _ (hs.consume t) hr
  | fail tried k ih => exact ih _ (hs.fail tried) hr
  | invoke rule body k ihb ih =>
    obtain ⟨b, t, hb, hr⟩ := exec_invoke_eq_ok hr
    exact ih _ ((ihb (hs.enter rule) hb).leave _ b) hr
  | attempt rule body k ihb ih =>
    obtain ⟨b, t, hb, rest⟩ := exec_attempt_eq_ok hr
    have left := (ihb (hs.enter rule) hb).leave (s.enter rule).1 b
    obtain ⟨a, rfl, hr⟩ | ⟨e, rfl, hr⟩ := rest
    · exact ih _ left hr
    · exact ih _ (left.move (hs.reads.trans left.reads.symm) hs.cursor) hr

end Handler

namespace Session

inductive Operation where
  | peek (branch : Bool) (candidates : List Token)
  | expect (candidates : List Token)
  | consume (t : Token)
  | fail (tried : List Token)
  | call (call : Call)
  deriving DecidableEq, Repr

def apply (s : Session) : Operation → Except Abort Session
  | .peek branch candidates => .ok (s.peek branch candidates).2
  | .expect candidates => .ok (s.expect candidates).2
  | .consume t => .ok (s.consume t).2
  | .fail tried => .ok (s.fail tried).2
  | .call call => (s.perform call).map Prod.snd

def operate (s : Session) : List Operation → Except Abort Session
  | [] => .ok s
  | op :: ops =>
    match s.apply op with
    | .error why => .error why
    | .ok s => s.operate ops

variable {text : String} {s u : Session} {frames : List Frame}

theorem Placed.run (h : Placed text s) {rule : Rule} {result : Except FailureId rule.Output}
    (hr : s.run rule = .ok (result, u)) : Placed text u := by
  obtain ⟨t, ht, rfl⟩ := run_eq_ok hr
  exact (Handler.exec_placed (h.enter rule) ht).leave _ result

theorem Placed.attempt (h : Placed text s) {rule : Rule} {result : Option rule.Output}
    (hr : s.attempt rule = .ok (result, u)) : Placed text u := by
  rcases attempt_eq_ok hr with ⟨a, -, hrun⟩ | ⟨e, t, -, hrun, rfl⟩
  · exact h.run hrun
  · have ran := h.run hrun
    exact ran.move (h.reads.trans ran.reads.symm) h.cursor

theorem Placed.perform (h : Placed text s) {call : Call} {answer : Answer}
    (hr : s.perform call = .ok (answer, u)) : Placed text u := by
  rcases perform_eq_ok hr with ⟨rule, result, hrun, -⟩ | ⟨rule, result, hattempt, -⟩
  · exact h.run hrun
  · exact h.attempt hattempt

theorem apply_cases {motive : Session → Prop} {op : Operation} (hr : s.apply op = .ok u)
    (peek : ∀ branch candidates, motive (s.peek branch candidates).2)
    (expect : ∀ candidates, motive (s.expect candidates).2)
    (consume : ∀ t, motive (s.consume t).2) (fail : ∀ tried, motive (s.fail tried).2)
    (call : ∀ call answer, s.perform call = .ok (answer, u) → motive u) : motive u := by
  cases op with
  | peek branch candidates =>
    cases hr
    exact peek branch candidates
  | expect candidates =>
    cases hr
    exact expect candidates
  | consume t =>
    cases hr
    exact consume t
  | fail tried =>
    cases hr
    exact fail tried
  | call c =>
    simp only [apply] at hr
    cases hp : s.perform c with
    | error why =>
      rw [hp] at hr
      cases hr
    | ok result =>
      rw [hp] at hr
      cases hr
      exact call c _ hp

theorem Placed.apply (h : Placed text s) {op : Operation} (hr : s.apply op = .ok u) :
    Placed text u :=
  apply_cases hr h.peek h.expect h.consume h.fail fun _ _ hp => h.perform hp

theorem Nested.apply (h : Nested frames s) {op : Operation} (hr : s.apply op = .ok u) :
    Nested frames u :=
  apply_cases hr h.peek h.expect h.consume h.fail fun _ _ hp => h.perform hp

theorem Nested.unevenIn_of_apply (h : Nested frames s) {op : Operation} {why : Abort}
    (hr : s.apply op = .error why) : why = .unevenFence ∧ Fenced.UnevenIn s.text := by
  cases op with
  | call call =>
    simp only [Session.apply] at hr
    cases hp : s.perform call with
    | error why' =>
      rw [hp] at hr
      cases hr
      exact h.unevenIn_of_perform hp
    | ok result =>
      rw [hp] at hr
      cases hr
  | _ => cases hr

theorem operate_placed (ops : List Operation) (hs : Nested frames s) (h : Placed text s) :
    match s.operate ops with
    | .error why => why = .unevenFence ∧ Fenced.UnevenIn text
    | .ok u => Placed text u := by
  induction ops generalizing s with
  | nil => exact h
  | cons op ops ih =>
    rw [operate]
    cases hop : s.apply op with
    | error why =>
      have broken := hs.unevenIn_of_apply hop
      rwa [h.reads] at broken
    | ok t => exact ih (hs.apply hop) (h.apply hop)

/-- A report on any failure points into the text. -/
theorem Placed.points_report (h : Placed text s) (e : FailureId) : (s.report e).Points := by
  have site (e : FailureId) : (s.site e).position.Within s.text := by
    rw [h.reads, Session.site, Session.failure]
    cases hf : s.failures[e]? with
    | none => exact ⟨_, _, Position.start_divides text⟩
    | some f => exact h.failures e f hf
  refine Report.points (List.forall_mem_cons.2 ⟨site e, fun r hr => ?_⟩)
  obtain ⟨e', -, rfl⟩ := List.mem_map.1 hr
  exact site e'

/-- A line of the trace ends with its source line, cut by a bar where the text is divided. -/
def Bars (text : String) (r : TraceEntry) (line : List Char) : Prop :=
  ∃ before after, r.position.Divides text before after ∧
    ∃ head, line = head ++ escaped (lastLine before ++ '|' :: firstLine after)

theorem Placed.bars (h : Placed text s) : ∃ lines,
    s.traceReport = String.ofList (joinWith ['\n'] lines) ∧
      List.Forall₂ (Bars text) s.trace.toList lines := by
  refine ⟨s.trace.toList.map fun r => r.render text, by rw [traceReport, renderTrace, h.reads], ?_⟩
  rw [List.forall₂_map_right_iff, List.forall₂_same]
  intro r hr
  obtain ⟨n, hn⟩ := List.mem_iff_getElem?.1 hr
  rw [Array.getElem?_toList] at hn
  obtain ⟨before, after, divides⟩ := h.trace n r hn
  exact ⟨before, after, divides, _, divides.shown.bar r rfl⟩

/-- Whatever is done with a session, its positions are places in the text, and all that is shown of
them is: in the trace, in any report, and by the labels of the report. -/
theorem operate_positions (text : String) (debug : Bool) (ops : List Operation) :
    match (ofText text debug).operate ops with
    | .error why => why = .unevenFence ∧ Fenced.UnevenIn text
    | .ok s => s.text = text ∧ (∀ e, (s.report e).Points) ∧
        (∃ lines, s.traceReport = String.ofList (joinWith ['\n'] lines) ∧
          List.Forall₂ (Bars text) s.trace.toList lines) ∧
        ∀ p, s.Stores p → ∃ before after, p.Divides text before after ∧
          p.Shown text before after := by
  have placed := operate_placed ops (.start text debug) (placed_ofText text debug)
  cases hops : (ofText text debug).operate ops with
  | error why =>
    rw [hops] at placed
    exact placed
  | ok s =>
    rw [hops] at placed
    refine ⟨placed.reads, placed.points_report, placed.bars, fun p hp => ?_⟩
    obtain ⟨before, after, divides⟩ := placed.within hp
    exact ⟨before, after, divides, divides.shown⟩

/-- A group that is left open in the second line. -/
theorem operate_positions_second_line :
    ∃ s, (ofText "'é'\n(b" false).operate
        [.consume .regexStr, .call (.run .group), .peek true [.brktEnd]] = .ok s ∧
      s.Stores ⟨7, 1, 2⟩ ∧ ∃ before after, Position.Divides ⟨7, 1, 2⟩ "'é'\n(b" before after ∧
        Position.Shown ⟨7, 1, 2⟩ "'é'\n(b" before after := by
  generalize hops : ([.consume .regexStr, .call (.run .group), .peek true [.brktEnd]] :
    List Operation) = ops
  have noted : ((ofText "'é'\n(b" false).operate ops).toOption.bind (fun s => s.failures[0]?) =
      some ⟨some 7, ⟨7, 1, 2⟩, [.brktEnd]⟩ := by
    rw [← hops]
    decide +kernel
  have positions := operate_positions "'é'\n(b" false ops
  cases hrun : (ofText "'é'\n(b" false).operate ops with
  | error why =>
    rw [hrun] at noted
    cases noted
  | ok s =>
    rw [hrun] at noted positions
    have stores : s.Stores ⟨7, 1, 2⟩ := .failure noted
    exact ⟨s, rfl, stores, positions.2.2.2 _ stores⟩

end Session

end GrammarKit
