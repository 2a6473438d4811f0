import GrammarKit.Proofs.Phrase.Sound

/-!
The stretches of text that phrases take up, whatever they build, and how the stretches of the parts
of a phrase make up its own.
-/

namespace GrammarKit

namespace Phrase

def Spans {α : Type} (P : List Char → α → List Char → Prop) (x y : List Char) : Prop :=
  ∃ a, P x a y

def Then (P Q : List Char → List Char → Prop) (x z : List Char) : Prop := ∃ y, P x y ∧ Q y z

variable {x y : List Char}

theorem Spans.imp {α β : Type} {P : List Char → α → List Char → Prop}
    {Q : List Char → β → List Char → Prop} {f : α → β} (hPQ : ∀ {a}, P x a y → Q x (f a) y)
    (h : Spans P x y) : Spans Q x y := by
  obtain ⟨a, ha⟩ := h
  exact ⟨f a, hPQ ha⟩

theorem ArgExpr.spans (h : Then (Spans Name) (Then (Mark .argKvsep) (Spans LitVal)) x y) :
    Spans ArgExpr x y := by
  obtain ⟨_, ⟨_, key⟩, _, sign, _, value⟩ := h
  exact ⟨_, .intro key sign value⟩

theorem ArgItem.spans_last (h : Then (Spans ArgExpr) (Mark .brktEnd) x y) : Spans ArgItem x y := by
  obtain ⟨_, ⟨_, h⟩, close⟩ := h
  exact ⟨_, .last h close⟩

theorem ArgItem.spans_lastComma
    (h : Then (Spans ArgExpr) (Then (Mark .argSep) (Mark .brktEnd)) x y) : Spans ArgItem x y := by
  obtain ⟨_, ⟨_, h⟩, _, comma, close⟩ := h
  exact ⟨_, .lastComma h comma close⟩

theorem ArgItem.spans_more (h : Then (Spans ArgExpr) (Then (Mark .argSep) (Spans ArgItem)) x y) :
    Spans ArgItem x y := by
  obtain ⟨_, ⟨_, h⟩, _, comma, _, rest⟩ := h
  exact ⟨_, .more h comma rest⟩

theorem ArgsGroup.spans_empty (h : Then (Mark .brktBeg) (Mark .brktEnd) x y) :
    Spans ArgsGroup x y := by
  obtain ⟨_, opening, close⟩ := h
  exact ⟨_, .empty opening close⟩

theorem ArgsGroup.spans_items (h : Then (Mark .brktBeg) (Spans ArgItem) x y) :
    Spans ArgsGroup x y := by
  obtain ⟨_, opening, _, items⟩ := h
  exact ⟨_, .items opening items⟩

theorem ArgsDef.spans (h : Then (Mark .argsSign) (Spans ArgsGroup) x y) : Spans ArgsDef x y := by
  obtain ⟨_, sign, _, group⟩ := h
  exact ⟨_, .intro sign group (args_eq_ofList.2 rfl)⟩

variable {Legible : List Char → Prop}

theorem CodeBlocks.spans_more (h : Then (Spans (Code Legible)) (Spans (CodeBlocks Legible)) x y) :
    Spans (CodeBlocks Legible) x y := by
  obtain ⟨_, ⟨_, first⟩, _, rest⟩ := h
  exact ⟨_, .more first rest⟩

theorem Alternatives.spans_more (h : Then (Spans (SeqExpr Legible))
    (Then (Mark .orExprOp) (Spans (Alternatives Legible))) x y) :
    Spans (Alternatives Legible) x y := by
  obtain ⟨_, ⟨_, first⟩, _, bar, _, rest⟩ := h
  exact ⟨_, .more first bar rest⟩

theorem Rounds.spans_last (h : Then (Spans (CodeBlocks Legible))
    (Then (Spans (OccExpr Legible)) (Spans (CodeBlocks Legible))) x y) :
    Spans (Rounds Legible) x y := by
  obtain ⟨_, ⟨_, front⟩, _, ⟨_, item⟩, _, back⟩ := h
  exact ⟨_, .last front item back⟩

theorem Rounds.spans_one (h : Spans (OccExpr Legible) x y) : Spans (Rounds Legible) x y :=
  Rounds.spans_last ⟨_, ⟨_, .none⟩, _, h, _, .none⟩

theorem Rounds.spans_more (h : Then (Spans (CodeBlocks Legible)) (Then (Spans (OccExpr Legible))
    (Then (Spans (CodeBlocks Legible)) (Spans (Rounds Legible)))) x y) :
    Spans (Rounds Legible) x y := by
  obtain ⟨_, ⟨_, front⟩, _, ⟨_, item⟩, _, ⟨_, back⟩, _, rest⟩ := h
  exact ⟨_, .more front item back rest⟩

theorem OccExpr.spans_marked {o : Occurrence}
    (h : Then (Spans (Item Legible)) (Mark o.token) x y) : Spans (OccExpr Legible) x y := by
  obtain ⟨_, ⟨_, item⟩, trailer⟩ := h
  exact ⟨_, .marked item o trailer⟩

theorem Occ01Group.spans (h : Then (Mark .sqrbrktBeg)
    (Then (Spans (OrExpr Legible)) (Mark .sqrbrktEnd)) x y) : Spans (Occ01Group Legible) x y := by
  obtain ⟨_, opening, _, ⟨_, inner⟩, close⟩ := h
  exact ⟨_, .intro opening inner close⟩

theorem Group.spans (h : Then (Mark .brktBeg) (Then (Spans (OrExpr Legible)) (Mark .brktEnd)) x y) :
    Spans (Group Legible) x y := by
  obtain ⟨_, opening, _, ⟨_, inner⟩, close⟩ := h
  exact ⟨_, .intro opening inner close⟩

theorem Atom.spans_pattern (h : Then (Spans RegexStr) (Spans (Optionally ArgsDef)) x y) :
    Spans (Atom Legible) x y := by
  obtain ⟨_, ⟨_, literal⟩, _, args⟩ := h
  exact ⟨_, .pattern literal args⟩

def Head : List Char → List Char → Prop := Then (Spans Name) (Mark .ruleColon)

def FurtherHead (x y : List Char) : Prop := Token.startsAt x .ruleRef = false ∧ Head x y

def Body (Legible : List Char → Prop) : List Char → List Char → Prop :=
  Then (Spans (Optionally ArgsDef)) (Spans (OrExpr Legible))

theorem RuleDef.spans (h : Then Head (Body Legible) x y) : Spans (RuleDef Legible) x y := by
  obtain ⟨_, ⟨_, ⟨_, name⟩, colon⟩, _, ⟨_, args⟩, _, expr⟩ := h
  exact ⟨_, .intro name colon args expr⟩

def FurtherDef (Legible : List Char → Prop) (x y : List Char) : Prop :=
  Token.startsAt x .ruleRef = false ∧ Spans (RuleDef Legible) x y

theorem FurtherDef.of_head (h : Then FurtherHead (Body Legible) x y) : FurtherDef Legible x y := by
  obtain ⟨z, ⟨unreferred, head⟩, body⟩ := h
  exact ⟨unreferred, RuleDef.spans ⟨z, head, body⟩⟩

theorem FurtherDefs.spans_more (h : Then (FurtherDef Legible) (Spans (FurtherDefs Legible)) x y) :
    Spans (FurtherDefs Legible) x y := by
  obtain ⟨_, ⟨unreferred, _, first⟩, _, rest⟩ := h
  exact ⟨_, .more unreferred first rest⟩

theorem FurtherDefs.spans_one (h : FurtherDef Legible x y) : Spans (FurtherDefs Legible) x y :=
  FurtherDefs.spans_more ⟨y, h, _, .none⟩

theorem RuleSeq.spans (h : Then (Spans (RuleDef Legible)) (Spans (FurtherDefs Legible)) x y) :
    Spans (RuleSeq Legible) x y := by
  obtain ⟨_, ⟨_, first⟩, _, rest⟩ := h
  exact ⟨_, .intro first rest⟩

theorem RuleSeq.spans_one (h : Spans (RuleDef Legible) x y) : Spans (RuleSeq Legible) x y :=
  RuleSeq.spans ⟨y, h, _, .none⟩

end Phrase

end GrammarKit
