import GrammarKit.Proofs.Handler.Callees
import GrammarKit.Rule.Handler

/-!
Which rules call which. Main statement: the table `callees` lists for every rule exactly those that
its handler calls.
-/

namespace GrammarKit

namespace Rule

def callees : Rule → List Rule
  | all => [argsDef, ruleSeq, textEnd]
  | argsDef => [argsSign, argsGroup]
  | argsGroup => [brktBeg, brktEnd, argItem]
  | argItem => [argExpr, brktEnd, argSep, argItem]
  | argExpr => [argKey, argKvsep, argVal]
  | argVal => [litVal]
  | litVal => [litStr, litNum, litBool, litNone]
  | ruleSeq => [ruleDef]
  | ruleDef => [ruleName, ruleColon, argsDef, orExpr]
  | orExpr => [seqExpr, orExprOp]
  | seqExpr => [code, occExpr]
  | occExpr => [occ01Group, atom, occ01Trailer, occ0mTrailer, occ1mTrailer]
  | occ01Group => [sqrbrktBeg, orExpr, sqrbrktEnd]
  | atom => [regexStr, argsDef, ruleRef, group]
  | group => [brktBeg, orExpr, brktEnd]
  | _ => []

/-- The handler of the one rule calls the other, if its calls nest deep enough. -/
def Calls (r callee : Rule) : Prop := ∃ fuel, (r.handler fuel).Calls callee

namespace Body

open Handler

section

variable {h : (r : Rule) → Handler r.Output} (within : ∀ r, (h r).CallsWithin callees r)

include within

theorem callsWithin_ruleSeq (n : Nat) (rules : List Definition) :
    (ruleSeq (fun r => call r (h r)) n rules).CallsWithin callees .ruleSeq := by
  induction n generalizing rules with
  | zero => simp [ruleSeq]
  | succ n ih => simp [ruleSeq, within, ih, callees]

theorem callsWithin_alternatives (n : Nat) (items : List Expr) :
    (alternatives (fun r => call r (h r)) n items).CallsWithin callees .orExpr := by
  induction n generalizing items with
  | zero => simp [alternatives]
  | succ n ih => simp [alternatives, within, ih, callees]

theorem callsWithin_codeBlocks_bind {β : Type} (follow : List Token) (n : Nat) (items : List Expr)
    {f : List Expr → Handler β} (within_f : ∀ items, (f items).CallsWithin callees .seqExpr) :
    ((codeBlocks (fun r => call r (h r)) follow n items).bind f).CallsWithin callees .seqExpr := by
  induction n generalizing items with
  | zero => simp [codeBlocks]
  | succ n ih => simp [codeBlocks, Handler.bind_assoc, within, ih, within_f, callees]

theorem callsWithin_sequenceItems (n : Nat) (items : List Expr) :
    (sequenceItems (fun r => call r (h r)) n items).CallsWithin callees .seqExpr := by
  induction n generalizing items with
  | zero => simp [sequenceItems]
  | succ n ih =>
    simp only [sequenceItems, bind_eq]
    refine callsWithin_codeBlocks_bind within _ n items fun items => ?_
    rw [callsWithin_call_bind]
    refine ⟨by simp [callees], within _, fun item => ?_⟩
    refine callsWithin_codeBlocks_bind within _ n _ fun items => ?_
    simp [ih]

end

end Body

open Handler Body

theorem callsWithin_body {h : (r : Rule) → Handler r.Output}
    (within : ∀ r, (h r).CallsWithin callees r) (n : Nat) (r : Rule) :
    (body (fun r => call r (h r)) n r).CallsWithin callees r := by
  cases r with
  | ruleSeq => exact callsWithin_ruleSeq within n []
  | orExpr => simp [body, Body.orExpr, within, callsWithin_alternatives within, callees]
  | seqExpr => exact callsWithin_sequenceItems within n []
  | all => simp [body, Body.all, Handler.bind_assoc, within, callees]
  | argsDef => simp [body, Body.argsDef, within, callees]
  | argsGroup => simp [body, Body.argsGroup, within, callees]
  | argItem => simp [body, Body.argItem, within, callees]
  | argExpr => simp [body, Body.argExpr, within, callees]
  | argVal => simp [body, within, callees]
  | litVal => simp [body, Body.litVal, within, callees]
  | ruleDef => simp [body, Body.ruleDef, Handler.bind_assoc, within, callees]
  | occExpr =>
    simp [body, Body.occExpr, Body.item, Body.trailer, Handler.bind_assoc, within, callees]
  | occ01Group => simp [body, Body.occ01Group, within, callees]
  | atom => simp [body, Body.atom, Handler.bind_assoc, within, callees]
  | group => simp [body, Body.group, within, callees]
  | regexStr =>
    simp only [body, Body.regexStr, bind_eq, callsWithin_lexeme_bind]
    intro l
    cases decodeQuoted l <;> simp
  | litStr =>
    simp only [body, Body.litStr, Body.regexStr, bind_eq, map_eq, Handler.bind_assoc,
      callsWithin_lexeme_bind]
    intro l
    cases decodeQuoted l <;> simp
  | litNum =>
    simp only [body, Body.litNum, bind_eq, callsWithin_lexeme_bind]
    intro l
    cases Value.ofNumber? l <;> simp
  | code =>
    simp only [body, Body.code, bind_eq, callsWithin_lexeme_bind]
    intro l
    cases Fenced.body? l <;> simp
  | _ =>
    simp [body, Body.name, Body.mark, Body.litBool, Body.litNone, Body.ruleRef, Handler.bind_assoc]

/-- Every rule calls the rules listed for it, and so do these in turn. -/
theorem callsWithin_handler (fuel : Nat) (r : Rule) : (handler fuel r).CallsWithin callees r := by
  induction fuel generalizing r with
  | zero => trivial
  | succ fuel ih => exact callsWithin_body ih fuel r

/-- Every rule listed is called, if the right tokens are seen. -/
theorem calls_of_mem_callees {r c : Rule} (h : c ∈ r.callees) : r.Calls c := by
  have token : Nonempty Token := ⟨.code⟩
  have pair : Nonempty (String × Value) := ⟨("", .none)⟩
  refine ⟨3, ?_⟩
  cases r with
  | all =>
    suffices ∃ t, t = Token.argsSign ∧ (c = argsDef ∨ c = ruleSeq ∨ c = textEnd) ∨
        ¬t = Token.argsSign ∧ (c = ruleSeq ∨ c = textEnd) by
      simpa [handler, body, Body.all, Handler.bind_assoc]
    exact ⟨.argsSign, by simpa [callees] using h⟩
  | ruleDef =>
    suffices c = ruleName ∨ c = ruleColon ∨
        ∃ t, t = Token.argsSign ∧ (c = argsDef ∨ c = orExpr) ∨ ¬t = Token.argsSign ∧ c = orExpr by
      simpa [handler, body, Body.ruleDef, Handler.bind_assoc]
    have listed : c = ruleName ∨ c = ruleColon ∨ c = argsDef ∨ c = orExpr := by
      simpa [callees] using h
    exact listed.imp_right fun h => h.imp_right fun h => ⟨.argsSign, .inl ⟨rfl, h⟩⟩
  | seqExpr =>
    suffices ∃ t, t = Token.code ∧ c = code ∨ ¬t = Token.code ∧ (c = occExpr ∨ c = code) by
      simpa [handler, body, Body.sequenceItems, Body.codeBlocks, Handler.bind_assoc]
    have listed : c = code ∨ c = occExpr := by simpa [callees] using h
    rcases listed with block | item
    · exact ⟨.code, .inl ⟨rfl, block⟩⟩
    · exact ⟨.ruleRef, .inr ⟨by decide, .inl item⟩⟩
  | ruleSeq =>
    have listed : c = ruleDef := by simpa [callees] using h
    simp [handler, body, Body.ruleSeq, listed]
  | argsDef => simpa [callees, handler, body, Body.argsDef] using h
  | argsGroup => simpa [callees, handler, body, Body.argsGroup, Option.exists, or_comm] using h
  | argItem =>
    simpa [callees, handler, body, Body.argItem, Option.exists, or_comm, or_left_comm] using h
  | argExpr => simpa [callees, handler, body, Body.argExpr] using h
  | argVal => simpa [callees, handler, body] using h
  | litVal =>
    simpa [callees, handler, body, Body.litVal, Option.exists, or_comm, or_left_comm] using h
  | orExpr =>
    simpa [callees, handler, body, Body.orExpr, Body.alternatives, or_comm, or_left_comm] using h
  | occExpr =>
    simpa [callees, handler, body, Body.occExpr, Body.item, Body.trailer, Handler.bind_assoc,
      Option.exists, or_comm, or_left_comm] using h
  | occ01Group => simpa [callees, handler, body, Body.occ01Group] using h
  | atom =>
    simpa [callees, handler, body, Body.atom, Handler.bind_assoc, Option.exists, or_comm,
      or_left_comm] using h
  | group => simpa [callees, handler, body, Body.group] using h
  | _ => cases h

theorem calls_iff_mem_callees {r c : Rule} : r.Calls c ↔ c ∈ r.callees := by
  constructor
  · rintro ⟨fuel, calls⟩
    exact (callsWithin_handler fuel r).mem_callees calls
  · exact calls_of_mem_callees

end Rule

end GrammarKit
