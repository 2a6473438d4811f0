import GrammarKit.Proofs.Handler.Reading
import GrammarKit.Rule.Handler

/-!
Handlers that cannot be told apart by executing them. Main statement: what a rule does depends on what
the rules do that it calls, and not on how their handlers are put together.
-/

namespace GrammarKit

namespace Handler

variable {α β : Type}

theorem exec_bind_eq (h : Handler α) (f : α → Handler β) :
    (h.bind f).exec = fun s => resume (fun a => (f a).exec) (h.exec s) := by
  funext s
  exact exec_bind h f s

theorem exec_ite (c : Prop) [Decidable c] (h h' : Handler α) :
    (if c then h else h').exec = if c then h.exec else h'.exec := by
  split
  · rfl
  · rfl

end Handler

namespace Rule

open Handler

variable {c c' : (r : Rule) → Handler r.Output}

namespace Body

section

variable (same : ∀ r, (c r).exec = (c' r).exec)

include same

theorem exec_ruleSeq_congr (n : Nat) (rules : List Definition) :
    (ruleSeq c n rules).exec = (ruleSeq c' n rules).exec := by
  induction n generalizing rules with
  | zero => rfl
  | succ n ih => simp [ruleSeq, exec_bind_eq, exec_ite, same, ih]

theorem exec_alternatives_congr (n : Nat) (items : List Expr) :
    (alternatives c n items).exec = (alternatives c' n items).exec := by
  induction n generalizing items with
  | zero => rfl
  | succ n ih => simp [alternatives, exec_bind_eq, exec_ite, same, ih]

theorem exec_codeBlocks_congr (follow : List Token) (n : Nat) (items : List Expr) :
    (codeBlocks c follow n items).exec = (codeBlocks c' follow n items).exec := by
  induction n generalizing items with
  | zero => rfl
  | succ n ih => simp [codeBlocks, exec_bind_eq, exec_ite, same, ih]

theorem exec_sequenceItems_congr (n : Nat) (items : List Expr) :
    (sequenceItems c n items).exec = (sequenceItems c' n items).exec := by
  induction n generalizing items with
  | zero => rfl
  | succ n ih =>
    simp [sequenceItems, exec_bind_eq, exec_ite, exec_codeBlocks_congr same, same, ih]

end

end Body

open Body

theorem exec_body_congr (same : ∀ r, (c r).exec = (c' r).exec) (n : Nat) (r : Rule) :
    (body c n r).exec = (body c' n r).exec := by
  cases r with
  | ruleSeq => exact exec_ruleSeq_congr same n []
  | orExpr => simp [body, Body.orExpr, exec_bind_eq, same, exec_alternatives_congr same]
  | seqExpr => exact exec_sequenceItems_congr same n []
  | all => simp [body, Body.all, exec_bind_eq, exec_ite, same]
  | argsDef => simp [body, Body.argsDef, exec_bind_eq, same]
  | argsGroup => simp [body, Body.argsGroup, exec_bind_eq, exec_ite, same]
  | argItem => simp [body, Body.argItem, exec_bind_eq, exec_ite, same]
  | argExpr => simp [body, Body.argExpr, exec_bind_eq, same]
  | argVal => exact same .litVal
  | litVal => simp [body, Body.litVal, exec_bind_eq, exec_ite, same]
  | ruleDef => simp [body, Body.ruleDef, exec_bind_eq, exec_ite, same]
  | occExpr => simp [body, Body.occExpr, Body.item, Body.trailer, exec_bind_eq, exec_ite, same]
  | occ01Group => simp [body, Body.occ01Group, exec_bind_eq, same]
  | atom => simp [body, Body.atom, exec_bind_eq, exec_ite, same]
  | group => simp [body, Body.group, exec_bind_eq, same]
  | _ => rfl

end Rule

end GrammarKit
