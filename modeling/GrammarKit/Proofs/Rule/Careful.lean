import GrammarKit.Proofs.Handler.Careful
import GrammarKit.Proofs.Literal.Decoding
import GrammarKit.Rule.Handler

/-!
The handlers of all rules are careful. In particular the literals that the tokens admit always have
a value, so no rule refuses behind a token that it has consumed.
-/

namespace GrammarKit

namespace Handler

variable {α β : Type} {looked : Bool}

@[simp] theorem careful_refuse : (refuse [] : Handler α).Careful looked ↔ looked = true := by
  simp [refuse, Careful]

@[simp] theorem careful_ite (c : Prop) [Decidable c] (a b : Handler α) :
    (if c then a else b).Careful looked ↔ (c → a.Careful looked) ∧ (¬c → b.Careful looked) := by
  split <;> simp_all

@[simp] theorem careful_call (rule : Rule) (body : Handler α) :
    (call rule body).Careful looked ↔ body.Careful false := by
  simp [call, Careful, ofExcept]

@[simp] theorem careful_call_bind (rule : Rule) (body : Handler α) (f : α → Handler β) :
    ((call rule body).bind f).Careful looked ↔
      body.Careful false ∧ ∀ a, (f a).Careful false := by
  simp [call, bind, Careful, ofExcept]

@[simp] theorem careful_look_bind (candidates : List Token) (f : Option Token → Handler β) :
    ((look candidates).bind f).Careful looked ↔
      candidates ≠ [] ∧ (f none).Careful true ∧ ∀ t, (f (some t)).Careful false := by
  simp [look, bind, Careful]

@[simp] theorem careful_lookBranch_bind (candidates : List Token) (f : Option Token → Handler β) :
    ((lookBranch candidates).bind f).Careful looked ↔
      candidates ≠ [] ∧ looked = true ∧ (f none).Careful true ∧
        ∀ t, (f (some t)).Careful false := by
  simp [lookBranch, bind, Careful]

@[simp] theorem careful_expect_bind (candidates : List Token) (f : Token → Handler β) :
    ((expect candidates).bind f).Careful looked ↔
      candidates ≠ [] ∧ ∀ t, (f t).Careful false := by
  simp [expect, refuse, bind, Careful]

@[simp] theorem careful_lexeme_bind (t : Token) (f : List Char → Handler β) :
    ((lexeme t).bind f).Careful looked ↔
      ∀ cs n, t.length? cs = some n → (f (cs.take n)).Ends := by
  simp [lexeme, bind, Careful, ofExcept]

end Handler

namespace Rule

namespace Body

open Handler

section

variable {h : (r : Rule) → Handler r.Output} (careful : ∀ r, (h r).Careful false)

theorem careful_mark (t : Token) : (mark t).Careful false := by
  simp [mark, Ends]

theorem careful_name : name.Careful false := by
  simp [name, Ends]

theorem careful_regexStr : regexStr.Careful false := by
  simp only [regexStr, bind_eq, careful_lexeme_bind]
  intro cs n hn
  obtain ⟨text, htext⟩ := exists_decodeQuoted hn
  simp [htext, Ends]

theorem careful_litStr : litStr.Careful false := by
  simp only [litStr, regexStr, bind_eq, map_eq, Handler.bind_assoc, careful_lexeme_bind]
  intro cs n hn
  obtain ⟨text, htext⟩ := exists_decodeQuoted hn
  simp [htext, Ends]

theorem careful_litNum : litNum.Careful false := by
  simp only [litNum, bind_eq, careful_lexeme_bind]
  intro cs n hn
  obtain ⟨v, hv⟩ := exists_ofNumber? hn
  simp [hv, Ends]

theorem careful_litBool : litBool.Careful false := by
  simp [litBool, Ends]

theorem careful_litNone : litNone.Careful false := by
  simp [litNone, mark, Handler.bind_assoc, Ends]

theorem careful_code : code.Careful false := by
  simp only [code, bind_eq, careful_lexeme_bind]
  intro cs n hn
  split <;> trivial

theorem careful_ruleRef : ruleRef.Careful false := by
  simp [ruleRef, Ends]

include careful

theorem careful_all : (all fun r => call r (h r)).Careful false := by
  simp [all, Handler.bind_assoc, careful]

theorem careful_argsDef : (argsDef fun r => call r (h r)).Careful false := by
  simp [argsDef, careful]

theorem careful_argsGroup : (argsGroup fun r => call r (h r)).Careful false := by
  simp [argsGroup, careful]

theorem careful_argItem : (argItem fun r => call r (h r)).Careful false := by
  simp [argItem, careful]

theorem careful_argExpr : (argExpr fun r => call r (h r)).Careful false := by
  simp [argExpr, careful]

theorem careful_litVal : (litVal fun r => call r (h r)).Careful false := by
  simp [litVal, careful]

theorem careful_ruleSeq (n : Nat) (rules : List Definition) :
    (ruleSeq (fun r => call r (h r)) n rules).Careful false := by
  induction n generalizing rules with
  | zero => simp [ruleSeq]
  | succ n ih => simp [ruleSeq, careful, ih]

theorem careful_ruleDef : (ruleDef fun r => call r (h r)).Careful false := by
  simp [ruleDef, Handler.bind_assoc, careful]

theorem careful_alternatives (n : Nat) (items : List Expr) :
    (alternatives (fun r => call r (h r)) n items).Careful false := by
  induction n generalizing items with
  | zero => simp [alternatives]
  | succ n ih => simp [alternatives, careful, ih]

theorem careful_orExpr (n : Nat) : (orExpr (fun r => call r (h r)) n).Careful false := by
  simp [orExpr, careful, careful_alternatives careful]

theorem careful_codeBlocks_bind {β : Type} {follow : List Token} (hf : follow ≠ []) (n : Nat)
    (items : List Expr) {f : List Expr → Handler β} (careful_f : ∀ items, (f items).Careful false) :
    ((codeBlocks (fun r => call r (h r)) follow n items).bind f).Careful false := by
  induction n generalizing items with
  | zero => simp [codeBlocks]
  | succ n ih => simp [codeBlocks, Handler.bind_assoc, careful, hf, ih, careful_f]

theorem careful_sequenceItems (n : Nat) (items : List Expr) :
    (sequenceItems (fun r => call r (h r)) n items).Careful false := by
  induction n generalizing items with
  | zero => simp [sequenceItems]
  | succ n ih =>
    simp only [sequenceItems, bind_eq]
    refine careful_codeBlocks_bind careful (by simp [itemStart]) n items fun items => ?_
    rw [careful_call_bind]
    refine ⟨careful _, fun item => ?_⟩
    refine careful_codeBlocks_bind careful (by simp) n _ fun items => ?_
    simp [ih]

theorem careful_occExpr : (occExpr fun r => call r (h r)).Careful false := by
  simp [occExpr, item, trailer, Handler.bind_assoc, careful]

theorem careful_occ01Group : (occ01Group fun r => call r (h r)).Careful false := by
  simp [occ01Group, careful]

theorem careful_atom : (atom fun r => call r (h r)).Careful false := by
  simp [atom, Handler.bind_assoc, careful]

theorem careful_group : (group fun r => call r (h r)).Careful false := by
  simp [group, careful]

end

end Body

open Handler Body

theorem careful_body {h : (r : Rule) → Handler r.Output} (careful : ∀ r, (h r).Careful false)
    (n : Nat) (r : Rule) : (body (fun r => call r (h r)) n r).Careful false := by
  cases r with
  | all => exact careful_all careful
  | argsDef => exact careful_argsDef careful
  | argsGroup => exact careful_argsGroup careful
  | argItem => exact careful_argItem careful
  | argExpr => exact careful_argExpr careful
  | argKey => exact careful_name
  | argVal => exact (careful_call ..).2 (careful _)
  | litVal => exact careful_litVal careful
  | litStr => exact careful_litStr
  | litNum => exact careful_litNum
  | litBool => exact careful_litBool
  | litNone => exact careful_litNone
  | ruleSeq => exact careful_ruleSeq careful n []
  | ruleDef => exact careful_ruleDef careful
  | ruleName => exact careful_name
  | orExpr => exact careful_orExpr careful n
  | seqExpr => exact careful_sequenceItems careful n []
  | code => exact careful_code
  | occExpr => exact careful_occExpr careful
  | occ01Group => exact careful_occ01Group careful
  | atom => exact careful_atom careful
  | regexStr => exact careful_regexStr
  | ruleRef => exact careful_ruleRef
  | group => exact careful_group careful
  | _ => exact careful_mark _

/-- Every rule is careful, however deep its calls may nest. -/
theorem careful_handler (fuel : Nat) (r : Rule) : (handler fuel r).Careful false := by
  induction fuel generalizing r with
  | zero => trivial
  | succ fuel ih => exact careful_body ih fuel r

end Rule

end GrammarKit
