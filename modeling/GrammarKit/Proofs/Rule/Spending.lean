import GrammarKit.Proofs.Handler.Spending
import GrammarKit.Rule.Handler

/-!
The handlers of all rules are frugal. What the loops spend in a round they get back with the tokens
that it consumes, so how often they go round does not matter.
-/

namespace GrammarKit

namespace Rule

namespace Body

open Handler

section

variable {h : (r : Rule) → Handler r.Output} (frugal : ∀ r, (h r).Frugal r) {good bad : Int}

include frugal

theorem spends_ruleSeq (n : Nat) (rules : List Definition) (hgood : -4 ≤ good) (hbad : 2 ≤ bad) :
    (ruleSeq (fun r => call r (h r)) n rules).Spends good bad := by
  have cost : Rule.ruleDef.yieldCost = -4 := rfl
  induction n generalizing rules good bad with
  | zero => simp [ruleSeq]
  | succ n ih =>
    simp only [ruleSeq, bind_eq, pure_eq, spends_call_bind, spends_expect_bind, spends_ite, Spends,
      cost]
    refine ⟨frugal _, hbad, fun rule => ⟨by omega, fun next => ⟨fun _ => ?_, fun _ => ?_⟩⟩⟩
    · exact ih (rule :: rules) (by omega) (by omega)
    · omega

theorem spends_alternatives (n : Nat) (items : List Expr) (hgood : 0 ≤ good) (hbad : 1 ≤ bad) :
    (alternatives (fun r => call r (h r)) n items).Spends good bad := by
  have mark : Rule.orExprOp.yieldCost = -5 := rfl
  have cost : Rule.seqExpr.yieldCost = -1 := rfl
  have onset : Rule.seqExpr.onset = 5 := rfl
  induction n generalizing items good bad with
  | zero => simp [alternatives]
  | succ n ih =>
    simp only [alternatives, bind_eq, pure_eq, spends_call_bind, spends_expect_bind, spends_ite,
      Spends, mark, cost]
    refine ⟨by omega, fun next => ⟨fun _ => ?_, fun _ => hgood⟩⟩
    refine ⟨frugal _, hbad, fun _ => ⟨frugal _, by omega, fun item => ?_⟩⟩
    exact ih (item :: items) (by omega) (by omega)

theorem spends_codeBlocks_bind {β : Type} (follow : List Token) (n : Nat) (items : List Expr)
    {f : List Expr → Handler β} (hbad : 1 ≤ bad) (spends_f : ∀ items, (f items).Spends good bad) :
    ((codeBlocks (fun r => call r (h r)) follow n items).bind f).Spends good bad := by
  have cost : Rule.code.yieldCost = -5 := rfl
  induction n generalizing items with
  | zero => simp [codeBlocks]
  | succ n ih =>
    simp only [codeBlocks, bind_eq, pure_eq, Handler.bind_assoc, ite_bind, done_bind,
      spends_call_bind, spends_expect_bind, spends_ite, cost]
    refine ⟨by omega, fun next => ⟨fun _ => ?_, fun _ => spends_f items⟩⟩
    refine ⟨frugal _, hbad, fun block => ?_⟩
    exact (ih (block :: items)).mono (by omega) (by omega)

theorem spends_sequenceItems (n : Nat) (items : List Expr) (hgood : -2 ≤ good) (hbad : 4 ≤ bad) :
    (sequenceItems (fun r => call r (h r)) n items).Spends good bad := by
  have cost : Rule.occExpr.yieldCost = -2 := rfl
  induction n generalizing items good bad with
  | zero => simp [sequenceItems]
  | succ n ih =>
    simp only [sequenceItems, bind_eq]
    refine spends_codeBlocks_bind frugal _ n items (by omega) fun items => ?_
    rw [spends_call_bind, cost]
    refine ⟨frugal _, hbad, fun item => ?_⟩
    refine spends_codeBlocks_bind frugal _ n _ (by omega) fun items => ?_
    rw [spends_expect_bind]
    refine ⟨by omega, fun next => ?_⟩
    rw [spends_ite]
    exact ⟨fun _ => ih items (by omega) (by omega), fun _ => (by omega : 0 ≤ good - -2)⟩

end

/-- What is decoded was consumed before, which has paid for a failure. -/
theorem spends_regexStr : regexStr.Frugal .regexStr := by
  simp only [Frugal, regexStr, bind_eq, spends_lexeme_bind]
  refine ⟨fun l => ?_, by decide⟩
  cases decodeQuoted l <;> simp [yieldCost, onset, Token.worth]

theorem spends_litStr : litStr.Frugal .litStr := by
  simp only [Frugal, litStr, regexStr, bind_eq, map_eq, Handler.bind_assoc, spends_lexeme_bind]
  refine ⟨fun l => ?_, by decide⟩
  cases decodeQuoted l <;> simp [yieldCost, onset, Token.worth]

theorem spends_litNum : litNum.Frugal .litNum := by
  simp only [Frugal, litNum, bind_eq, spends_lexeme_bind]
  refine ⟨fun l => ?_, by decide⟩
  cases Value.ofNumber? l <;> simp [yieldCost, onset, Token.worth]

theorem spends_code : code.Frugal .code := by
  simp only [Frugal, code, bind_eq, spends_lexeme_bind]
  refine ⟨fun l => ?_, by decide⟩
  cases Fenced.body? l <;> simp [yieldCost, onset, Token.worth]

end Body

open Handler Body

theorem frugal_body {h : (r : Rule) → Handler r.Output} (frugal : ∀ r, (h r).Frugal r) (n : Nat)
    (r : Rule) : (body (fun r => call r (h r)) n r).Frugal r := by
  unfold Frugal
  cases r with
  | ruleSeq => exact spends_ruleSeq frugal n [] (by decide) (by decide)
  | seqExpr => exact spends_sequenceItems frugal n [] (by decide) (by decide)
  | orExpr =>
    simp only [body, Body.orExpr, bind_eq, spends_call_bind]
    exact ⟨frugal _, by decide, fun item =>
      spends_alternatives frugal n [item] (by decide) (by decide)⟩
  | regexStr => exact spends_regexStr
  | litStr => exact spends_litStr
  | litNum => exact spends_litNum
  | code => exact spends_code
  | all => simp [body, Body.all, Handler.bind_assoc, frugal, yieldCost, onset]
  | argsDef => simp [body, Body.argsDef, frugal, yieldCost, onset]
  | argsGroup => simp [body, Body.argsGroup, frugal, yieldCost, onset]
  | argItem => simp [body, Body.argItem, frugal, yieldCost, onset]
  | argExpr => simp [body, Body.argExpr, frugal, yieldCost, onset]
  | argVal => simp [body, frugal, yieldCost, onset]
  | litVal => simp [body, Body.litVal, frugal, yieldCost, onset]
  | ruleDef => simp [body, Body.ruleDef, Handler.bind_assoc, frugal, yieldCost, onset]
  | occExpr =>
    simp [body, Body.occExpr, Body.item, Body.trailer, Handler.bind_assoc, frugal, yieldCost, onset]
  | occ01Group => simp [body, Body.occ01Group, frugal, yieldCost, onset]
  | atom => simp [body, Body.atom, Handler.bind_assoc, frugal, yieldCost, onset]
  | group => simp [body, Body.group, frugal, yieldCost, onset]
  | _ =>
    simp [body, Body.name, Body.mark, Body.litBool, Body.litNone, Body.ruleRef,
      Handler.bind_assoc, yieldCost, onset, Token.worth]

/-- Every rule spends no more than it may, however deep its calls may nest. -/
theorem frugal_handler (fuel : Nat) (r : Rule) : (handler fuel r).Frugal r := by
  induction fuel generalizing r with
  | zero => trivial
  | succ fuel ih => exact frugal_body ih fuel r

end Rule

end GrammarKit
