import GrammarKit.Proofs.Handler.Halting
import GrammarKit.Rule.Handler

/-!
The handlers of all rules break off behind a block of code that has no text, and nowhere else.
-/

namespace GrammarKit

namespace Rule

namespace Body

open Handler

section

variable {h : (r : Rule) → Handler r.Output} (halts : ∀ r, (h r).Halts)

include halts

theorem halts_ruleSeq (n : Nat) (rules : List Definition) :
    (ruleSeq (fun r => call r (h r)) n rules).Halts := by
  induction n generalizing rules with
  | zero => rfl
  | succ n ih => simp [ruleSeq, halts, ih]

theorem halts_alternatives (n : Nat) (items : List Expr) :
    (alternatives (fun r => call r (h r)) n items).Halts := by
  induction n generalizing items with
  | zero => rfl
  | succ n ih => simp [alternatives, halts, ih]

theorem halts_codeBlocks_bind {β : Type} (follow : List Token) (n : Nat) (items : List Expr)
    {f : List Expr → Handler β} (halts_f : ∀ items, (f items).Halts) :
    ((codeBlocks (fun r => call r (h r)) follow n items).bind f).Halts := by
  induction n generalizing items with
  | zero => rfl
  | succ n ih => simp [codeBlocks, Handler.bind_assoc, halts, ih, halts_f]

theorem halts_sequenceItems (n : Nat) (items : List Expr) :
    (sequenceItems (fun r => call r (h r)) n items).Halts := by
  induction n generalizing items with
  | zero => rfl
  | succ n ih =>
    simp only [sequenceItems, bind_eq]
    refine halts_codeBlocks_bind halts _ n items fun items => ?_
    rw [halts_call_bind]
    refine ⟨halts _, fun item => ?_⟩
    refine halts_codeBlocks_bind halts _ n _ fun items => ?_
    simp [ih]

end

theorem halts_regexStr : regexStr.Halts := by
  simp only [regexStr, bind_eq, halts_lexeme_bind]
  intro l
  cases decodeQuoted l <;> simp

theorem halts_litStr : litStr.Halts := by
  simp only [litStr, regexStr, bind_eq, map_eq, Handler.bind_assoc, halts_lexeme_bind]
  intro l
  cases decodeQuoted l <;> simp

theorem halts_litNum : litNum.Halts := by
  simp only [litNum, bind_eq, halts_lexeme_bind]
  intro l
  cases Value.ofNumber? l <;> simp

theorem halts_code : code.Halts := by
  simp only [code, bind_eq, halts_lexeme_bind]
  intro l
  cases Fenced.body? l <;> simp

end Body

open Handler Body

theorem halts_body {h : (r : Rule) → Handler r.Output} (halts : ∀ r, (h r).Halts) (n : Nat)
    (r : Rule) : (body (fun r => call r (h r)) n r).Halts := by
  cases r with
  | ruleSeq => exact halts_ruleSeq halts n []
  | orExpr => simp [body, Body.orExpr, halts, halts_alternatives halts]
  | seqExpr => exact halts_sequenceItems halts n []
  | regexStr => exact halts_regexStr
  | litStr => exact halts_litStr
  | litNum => exact halts_litNum
  | code => exact halts_code
  | all => simp [body, Body.all, Handler.bind_assoc, halts]
  | argsDef => simp [body, Body.argsDef, halts]
  | argsGroup => simp [body, Body.argsGroup, halts]
  | argItem => simp [body, Body.argItem, halts]
  | argExpr => simp [body, Body.argExpr, halts]
  | argVal => simp [body, halts]
  | litVal => simp [body, Body.litVal, halts]
  | ruleDef => simp [body, Body.ruleDef, Handler.bind_assoc, halts]
  | occExpr => simp [body, Body.occExpr, Body.item, Body.trailer, Handler.bind_assoc, halts]
  | occ01Group => simp [body, Body.occ01Group, halts]
  | atom => simp [body, Body.atom, Handler.bind_assoc, halts]
  | group => simp [body, Body.group, halts]
  | _ => simp [body, Body.name, Body.mark, Body.litBool, Body.litNone, Body.ruleRef,
      Handler.bind_assoc]

/-- Every rule breaks off there only, however deep its calls may nest. -/
theorem halts_handler (fuel : Nat) (r : Rule) : (handler fuel r).Halts := by
  induction fuel generalizing r with
  | zero => rfl
  | succ fuel ih => exact halts_body ih fuel r

end Rule

end GrammarKit
