import GrammarKit.Proofs.Session.Transparency

/-!
The failures that are noted. A failure passes through all the invocations that it ends, and the
innermost of them notes it; those around it find it noted already, because nothing begins in between.

Main statement: after any calls of rules, the failures raised and those noted are the same, one for
each call that failed, in the order of the calls.
-/

namespace GrammarKit

namespace Session

variable {s t u : Session}

def Raises {α : Type} (s u : Session) : Except FailureId α → Prop
  | .ok _ => u.failures = s.failures
  | .error e => e = s.failures.size ∧ ∃ f, u.failures = s.failures.push f

namespace Raises

variable {α : Type} {r : Except FailureId α}

theorem trans (same : t.failures = s.failures) (h : Raises t u r) : Raises s u r := by
  unfold Raises at *
  rwa [same] at h

theorem fail (s : Session) (tried : List Token) :
    Raises s (s.fail tried).2 (.error (s.fail tried).1 : Except FailureId α) :=
  ⟨rfl, _, s.fail_failures tried⟩

theorem leave (h : Raises s t r) (frame : Frame) : Raises s (t.leave frame r) r := by
  unfold Raises at *
  rwa [leave_failures]

end Raises

end Session

namespace Handler

open Session

theorem Runs.raises {α : Type} {looked : Bool} {s u : Session} {r : Except FailureId α}
    (h : Runs looked s r u) : Raises s u r := by
  induction h with
  | done s a => exact rfl
  | hit rest ih => exact ih.trans (by simp)
  | miss nonempty further none rest ih => exact ih.trans (by simp)
  | read s n a => exact rfl
  | unread none => exact .fail _ _
  | refuse s => exact .fail s []
  | failed body ih => exact (ih.trans (enter_failures _ _)).leave _
  | invoked body rest ihb ih => exact ih.trans ((ihb.trans (enter_failures _ _)).leave _)

end Handler

def Answer.failed : Answer → Bool
  | ran (.error _) _ => true
  | attempted none _ => true
  | _ => false

namespace Session

variable {s t u : Session}

/-- A call that failed has raised one failure, and noted it; one that did not has done neither. -/
structure Accounts (s u : Session) (answer : Answer) : Prop where
  success : answer.failed = false → u.failures = s.failures ∧ u.noted = s.noted
  failure : answer.failed = true →
    (∃ f, u.failures = s.failures.push f) ∧ u.noted = s.noted.push s.failures.size
  named : ∀ e ∈ answer.failure?, e = s.failures.size

theorem run_ok_accounts {rule : Rule} {a : rule.Output} (hr : s.run rule = .ok (.ok a, u)) :
    u.failures = s.failures ∧ u.noted = s.noted := by
  obtain ⟨t, ht, rfl⟩ := run_eq_ok hr
  have runs := (Rule.careful_handler _ rule).runs ht
  refine ⟨(runs.raises.trans (enter_failures _ _)).leave _, ?_⟩
  rw [leave_noted]
  exact (runs.notes rfl).1

theorem run_error_accounts {rule : Rule} {e : FailureId} (hr : s.run rule = .ok (.error e, u)) :
    e = s.failures.size ∧ (∃ f, u.failures = s.failures.push f) ∧
      u.noted = s.noted.push s.failures.size := by
  obtain ⟨-, -, noted⟩ := run_notes hr
  obtain ⟨t, ht, rfl⟩ := run_eq_ok hr
  have raises := ((Rule.careful_handler _ rule).runs ht).raises.trans (enter_failures _ _)
  obtain ⟨rfl, f, hf⟩ := raises
  exact ⟨rfl, ⟨f, by rw [leave_failures, hf]⟩, noted⟩

theorem perform_accounts {call : Call} {answer : Answer}
    (hr : s.perform call = .ok (answer, u)) : Accounts s u answer := by
  rcases perform_eq_ok hr with ⟨rule, result, hrun, rfl⟩ | ⟨rule, result, hattempt, rfl⟩
  · cases result with
    | ok a =>
      exact ⟨fun _ => run_ok_accounts hrun, fun h => absurd h Bool.false_ne_true, by
        rintro e ⟨⟩⟩
    | error e =>
      obtain ⟨named, accounts⟩ := run_error_accounts hrun
      refine ⟨fun h => absurd h.symm Bool.false_ne_true, fun _ => accounts, ?_⟩
      rintro e' ⟨⟩
      exact named
  · rcases attempt_eq_ok hattempt with ⟨a, rfl, hrun⟩ | ⟨e, t, rfl, hrun, rfl⟩
    · exact ⟨fun _ => run_ok_accounts hrun, fun h => absurd h Bool.false_ne_true, by
        rintro e ⟨⟩⟩
    · obtain ⟨-, accounts⟩ := run_error_accounts hrun
      exact ⟨fun h => absurd h.symm Bool.false_ne_true, fun _ => accounts, by rintro e ⟨⟩⟩

/-- The failures of a session are those of the answers that failed, in their order. -/
structure Ledger (answers : List Answer) (s : Session) : Prop where
  raised : s.failures.size = (answers.filter Answer.failed).length
  noted : s.noted.toList = List.range s.failures.size
  named : ∀ (k : Nat) answer, (answers.filter Answer.failed)[k]? = some answer →
    ∀ e ∈ answer.failure?, e = k

theorem ledger_ofText (text : String) (debug : Bool) : Ledger [] (ofText text debug) where
  raised := rfl
  noted := rfl
  named := by simp

theorem Ledger.perform {answers : List Answer} (h : Ledger answers s) {call : Call}
    {answer : Answer} (hr : s.perform call = .ok (answer, u)) : Ledger (answers ++ [answer]) u := by
  have accounts := perform_accounts hr
  cases hf : answer.failed with
  | false =>
    obtain ⟨failures, noted⟩ := accounts.success hf
    have same : (answers ++ [answer]).filter Answer.failed = answers.filter Answer.failed := by
      simp [hf]
    constructor
    · rw [same, failures, h.raised]
    · rw [noted, failures, h.noted]
    · rw [same]
      exact h.named
  | true =>
    obtain ⟨⟨f, failures⟩, noted⟩ := accounts.failure hf
    have more : (answers ++ [answer]).filter Answer.failed =
        answers.filter Answer.failed ++ [answer] := by
      simp [hf]
    constructor
    · rw [more, failures, Array.size_push, List.length_append, h.raised, List.length_singleton]
    · rw [noted, failures, Array.size_push, Array.toList_push, h.noted, List.range_succ]
    · intro k answer' hk e he
      rw [more] at hk
      by_cases before : k < (answers.filter Answer.failed).length
      · rw [List.getElem?_append_left before] at hk
        exact h.named k answer' hk e he
      · rw [List.getElem?_append_right (Nat.le_of_not_lt before), List.getElem?_singleton] at hk
        split at hk
        · cases hk
          have last : k = (answers.filter Answer.failed).length := by omega
          rw [accounts.named e he, h.raised, last]
        · cases hk

theorem Ledger.plays {before answers : List Answer} (h : Ledger before s) {calls : List Call}
    (hr : s.plays calls = .ok (answers, u)) : Ledger (before ++ answers) u := by
  induction calls generalizing s before answers with
  | nil =>
    cases hr
    rwa [List.append_nil]
  | cons call calls ih =>
    obtain ⟨answer, t, rest, hcall, hrest, rfl⟩ := plays_cons_eq_ok hr
    have := ih (h.perform hcall) hrest
    rwa [List.append_assoc] at this

/-- A report tells of its own failure first, and then of all the others, in the order of the calls. -/
structure Reports (s : Session) (f : Failure) (e : FailureId) : Prop where
  primary : (s.report e).primary =
    ⟨(f.invocation.map s.invocations.chain).getD [], f.position, f.tried⟩
  reasons : (s.report e).reasons = ((List.range s.failures.size).filter (· ≠ e)).map s.site

theorem Ledger.reports {answers : List Answer} (h : Ledger answers s) {e : FailureId} {f : Failure}
    (hf : s.failures[e]? = some f) : Reports s f e where
  primary := by
    rw [Session.report, Report.ofText, site, failure, hf]
    rfl
  reasons := by rw [Session.report, Report.ofText, h.noted]

/-- After a single call there is no other failure. -/
theorem reasons_run {text : String} {debug : Bool} {rule : Rule} {e : FailureId}
    (hr : (ofText text debug).run rule = .ok (.error e, s)) : (s.report e).reasons = [] := by
  obtain ⟨rfl, -, noted⟩ := run_error_accounts hr
  rw [Session.report, Report.ofText, noted]
  rfl

/-- Every call that fails raises one failure, which is noted once, and no other call raises any. -/
theorem failures_noted_once (text : String) (debug : Bool) :
    (∀ calls, match (ofText text debug).plays calls with
      | .error why => why = .unevenFence ∧ Fenced.UnevenIn text
      | .ok (answers, s) => Ledger answers s ∧
          (∀ (e : FailureId) f, s.failures[e]? = some f → Reports s f e) ∧
          ∀ call, match s.perform call with
            | .error why => why = .unevenFence ∧ Fenced.UnevenIn text
            | .ok (answer, u) => Accounts s u answer) ∧
      (∀ rule o report, parseWith text ⟨rule, debug⟩ = .ok o → o.failure? = some report →
        report.reasons = []) ∧
      ∀ report, parseGrammar text = .ok (.error report) → report.reasons = [] := by
  refine ⟨fun calls => ?_, ?_, ?_⟩
  · have start := Nested.start text debug
    cases hplays : (ofText text debug).plays calls with
    | error why => exact start.unevenIn_of_plays hplays
    | ok result =>
      obtain ⟨answers, s⟩ := result
      have ledger : Ledger answers s := (ledger_ofText text debug).plays hplays
      refine ⟨ledger, fun e f hf => ledger.reports hf, fun call => ?_⟩
      cases hcall : s.perform call with
      | error why =>
        have broken := (start.plays hplays).unevenIn_of_perform hcall
        rwa [plays_text hplays] at broken
      | ok result => exact perform_accounts hcall
  · intro rule o report ho hreport
    unfold parseWith at ho
    dsimp only at ho
    split at ho
    · cases ho
    · cases ho
      cases hreport
    · rename_i e s hrun
      cases ho
      cases hreport
      exact reasons_run hrun
  · intro report hreport
    unfold parseGrammar at hreport
    split at hreport
    · cases hreport
    · cases hreport
    · rename_i e s hrun
      cases hreport
      exact reasons_run hrun

/-- An atom that is not there is attempted between a parenthesis and a bar that are. -/
theorem failures_noted_once_atom :
    let calls : List Call := [.run .brktBeg, .attempt .atom, .run .atom, .run .orExprOp]
    let inside : Cursor := ⟨"(|", ⟨1, 0, 1⟩, ['|']⟩
    ∃ u f, (ofText "(|" false).plays calls = .ok ([.ran (.ok .unit) inside, .attempted none inside,
        .ran (.error 1) inside, .ran (.ok .unit) ⟨"(|", ⟨2, 0, 2⟩, []⟩], u) ∧
      u.noted = #[0, 1] ∧ u.failures[0]? = some f ∧ Reports u f 0 := by
  intro calls inside
  obtain ⟨u, f, hplays, noted, hf⟩ : ∃ u f, (ofText "(|" false).plays calls =
        .ok ([.ran (.ok .unit) inside, .attempted none inside, .ran (.error 1) inside,
          .ran (.ok .unit) ⟨"(|", ⟨2, 0, 2⟩, []⟩], u) ∧
      u.noted = #[0, 1] ∧ u.failures[0]? = some f :=
    ⟨_, ⟨some 1, ⟨1, 0, 1⟩, [.regexStr, .ruleRef, .brktBeg]⟩, rfl, rfl, rfl⟩
  have once := (failures_noted_once "(|" false).1 calls
  rw [hplays] at once
  exact ⟨u, f, hplays, noted, hf, once.2.1 0 f hf⟩

end Session

end GrammarKit
