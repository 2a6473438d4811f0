import GrammarKit.Proofs.Handler.Trimming
import GrammarKit.Rule.Handler

/-!
The handlers of all rules trim: references go by their names.
-/

namespace GrammarKit

namespace Rule

namespace Body

open Handler

section

variable {h : (r : Rule) → Handler r.Output} (trims : ∀ r, (h r).Trims)

include trims

theorem trims_ruleSeq (n : Nat) (rules : List Definition) :
    (ruleSeq (fun r => call r (h r)) n rules).Trims := by
  induction n generalizing rules with
  | zero => simp [ruleSeq]
  | succ n ih => simp [ruleSeq, trims, ih]

theorem trims_alternatives (n : Nat) (items : List Expr) :
    (alternatives (fun r => call r (h r)) n items).Trims := by
  induction n generalizing items with
  | zero => simp [alternatives]
  | succ n ih => simp [alternatives, trims, ih]

theorem trims_codeBlocks_bind {β : Type} (follow : List Token) (n : Nat) (items : List Expr)
    {f : List Expr → Handler β} (trims_f : ∀ items, (f items).Trims) :
    ((codeBlocks (fun r => call r (h r)) follow n items).bind f).Trims := by
  induction n generalizing items with
  | zero => simp [codeBlocks]
  | succ n ih => simp [codeBlocks, Handler.bind_assoc, trims, ih, trims_f]

theorem trims_sequenceItems (n : Nat) (items : List Expr) :
    (sequenceItems (fun r => call r (h r)) n items).Trims := by
  induction n generalizing items with
  | zero => simp [sequenceItems]
  | succ n ih =>
    simp only [sequenceItems, bind_eq]
    refine trims_codeBlocks_bind trims _ n items fun items => ?_
    rw [trims_call_bind]
    refine ⟨trims _, fun item => ?_⟩
    refine trims_codeBlocks_bind trims _ n _ fun items => ?_
    simp [ih]

end

theorem trims_regexStr : regexStr.Trims := by
  simp only [regexStr, bind_eq, trims_lexeme_bind]
  refine ⟨fun h => absurd h (by decide), fun l => ?_⟩
  cases decodeQuoted l <;> simp

theorem trims_litStr : litStr.Trims := by
  simp only [litStr, regexStr, bind_eq, map_eq, Handler.bind_assoc, trims_lexeme_bind]
  refine ⟨fun h => absurd h (by decide), fun l => ?_⟩
  cases decodeQuoted l <;> simp

theorem trims_litNum : litNum.Trims := by
  simp only [litNum, bind_eq, trims_lexeme_bind]
  refine ⟨fun h => absurd h (by decide), fun l => ?_⟩
  cases Value.ofNumber? l <;> simp

theorem trims_code : code.Trims := by
  simp only [code, bind_eq, trims_lexeme_bind]
  refine ⟨fun h => absurd h (by decide), fun l => ?_⟩
  cases Fenced.body? l <;> simp

theorem trims_ruleRef : ruleRef.Trims := by
  simp +contextual [ruleRef]

end Body

open Handler Body

theorem trims_body {h : (r : Rule) → Handler r.Output} (trims : ∀ r, (h r).Trims) (n : Nat)
    (r : Rule) : (body (fun r => call r (h r)) n r).Trims := by
  cases r with
  | ruleSeq => exact trims_ruleSeq trims n []
  | orExpr => simp [body, Body.orExpr, trims, trims_alternatives trims]
  | seqExpr => exact trims_sequenceItems trims n []
  | regexStr => exact trims_regexStr
  | litStr => exact trims_litStr
  | litNum => exact trims_litNum
  | code => exact trims_code
  | ruleRef => exact trims_ruleRef
  | all => simp [body, Body.all, Handler.bind_assoc, trims]
  | argsDef => simp [body, Body.argsDef, trims]
  | argsGroup => simp [body, Body.argsGroup, trims]
  | argItem => simp [body, Body.argItem, trims]
  | argExpr => simp [body, Body.argExpr, trims]
  | argVal => simp [body, trims]
  | litVal => simp [body, Body.litVal, trims]
  | ruleDef => simp [body, Body.ruleDef, Handler.bind_assoc, trims]
  | occExpr => simp [body, Body.occExpr, Body.item, Body.trailer, Handler.bind_assoc, trims]
  | occ01Group => simp [body, Body.occ01Group, trims]
  | atom => simp [body, Body.atom, Handler.bind_assoc, trims]
  | group => simp [body, Body.group, trims]
  | _ => simp [body, Body.name, Body.mark, Body.litBool, Body.litNone, Handler.bind_assoc]

/-- Every rule trims its references, however deep its calls may nest. -/
theorem trims_handler (fuel : Nat) (r : Rule) : (handler fuel r).Trims := by
  induction fuel generalizing r with
  | zero => trivial
  | succ fuel ih => exact trims_body ih fuel r

end Rule

end GrammarKit
