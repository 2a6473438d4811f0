import GrammarKit.Proofs.Block
import GrammarKit.Proofs.Rule.Spending

/-!
Running a rule takes work in proportion to the text. Every rule begins at most six invocations before
it consumes a token, and all but the end of the text consume one if they yield anything; so the tokens
of a text pay for its invocations.

Main statement: a run ends, its invocations are at most six for each byte and six more, and each of
them that yields something has moved on.
-/

namespace GrammarKit

theorem Cursor.Coherent.offset_le {c : Cursor} (h : c.Coherent) :
    c.position.offset ≤ c.text.utf8ByteSize := by
  obtain ⟨seen, htext, hoff⟩ := h.exists_read
  rw [utf8ByteSize_eq, htext, byteLength_append, hoff]
  exact Nat.le_add_right _ _

theorem Rule.spends_calls (fuel : Nat) (r : Rule) :
    (Rule.calls fuel r).Spends r.yieldCost r.onset := by
  rw [Rule.calls, Handler.spends_call]
  exact ⟨Rule.frugal_handler fuel r, Int.le_refl _, fun _ => Int.le_refl _⟩

namespace Session

variable {s u : Session} {rule : Rule}

theorem run_paid {result : Except FailureId rule.Output} (hr : s.run rule = .ok (result, u)) :
    Paid s u 6 := by
  rw [run_eq_exec] at hr
  have paid := (Rule.spends_calls (Rule.fuelFor s.text) rule).paid hr
  have cheap : Handler.budget rule.yieldCost rule.onset result ≤ 6 := by
    cases result with
    | ok a => exact rule.yieldCost_le
    | error e => exact rule.onset_le
  exact paid.mono cheap

/-- The bytes of a text pay for the invocations of a run on it. -/
theorem run_size_le {text : String} {debug : Bool} {result : Except FailureId rule.Output}
    (hr : (ofText text debug).run rule = .ok (result, u)) :
    u.invocations.size ≤ 6 * (text.utf8ByteSize + 1) := by
  have within : u.position.offset ≤ text.utf8ByteSize := by
    have start : Reachable (ofText text debug) := .start text debug
    have le := (start.run rule result hr).coherent.offset_le
    rwa [show u.cursor.text = text from (run_grows hr).text] at le
  have paid := (run_paid hr).cost
  have before : (ofText text debug).invocations.size = 0 := rfl
  have start : (ofText text debug).position.offset = 0 := rfl
  omega

/-- Running a rule on a text ends, unless the fences of a code block are uneven, with at most six
invocations for each byte and for the end. These are the ones recorded, and each that yields something
has moved on, apart from those at the end of the text. -/
theorem run_linear (text : String) (debug : Bool) (rule : Rule) :
    let visits := (Rule.calls (Rule.fuelFor text) rule).visits (ofText text debug)
    match (ofText text debug).run rule with
    | .error why => why = .unevenFence ∧ Fenced.UnevenIn text
    | .ok (_, u) =>
      u.invocations.size ≤ 6 * (text.utf8ByteSize + 1) ∧
        u.recorded = visits.map Visit.record ∧
        (debug = true → u.marks = visits.map fun v => v.left.isSome) ∧
        ∀ v ∈ visits, v.rule ≠ .textEnd → ∀ p ∈ v.left, v.entry.offset < p.offset := by
  intro visits
  cases hr : (ofText text debug).run rule with
  | error why =>
    have start : Reachable (ofText text debug) := .start text debug
    exact start.unevenIn_of_run hr
  | ok result =>
    have few := run_size_le hr
    rw [run_eq_exec] at hr
    have recorded := Handler.recorded_exec hr
    have marks := fun debugged => (Handler.marks_exec hr debugged).2
    exact ⟨few, recorded, marks, (Rule.spends_calls _ rule).visits_advance _⟩

/-- A group of a block of code and a reference is read. -/
theorem run_linear_group :
    let visits := (Rule.calls (Rule.fuelFor "(`x` b)") .group).visits (ofText "(`x` b)" true)
    ∃ u, (ofText "(`x` b)" true).run .group =
        .ok (.ok (.sequence [.code "x", .reference "b"]), u) ∧
      u.invocations.size = 9 ∧ u.recorded = visits.map Visit.record ∧
      ∀ v ∈ visits, v.rule ≠ .textEnd → ∀ p ∈ v.left, v.entry.offset < p.offset := by
  intro visits
  obtain ⟨u, hrun, nine⟩ : ∃ u, (ofText "(`x` b)" true).run .group =
      .ok (.ok (.sequence [.code "x", .reference "b"]), u) ∧ u.invocations.size = 9 :=
    ⟨_, rfl, rfl⟩
  have linear := run_linear "(`x` b)" true .group
  dsimp only at linear
  rw [hrun] at linear
  exact ⟨u, hrun, nine, linear.2.1, linear.2.2.2⟩

end Session

end GrammarKit
