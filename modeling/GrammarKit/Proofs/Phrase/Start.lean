import GrammarKit.Proofs.Phrase
import GrammarKit.Rule.Handler

/-!
Where phrases begin. Every phrase begins with a token, and which one it is tells most alternatives
apart: tokens of different leads never stand at one place.
-/

namespace GrammarKit

namespace Token

theorem startsAt_of_lead_ne {t u : Token} {x : List Char} (ht : startsAt x t)
    (h : u.lead ≠ t.lead) : startsAt x u = false := by
  rw [← Bool.not_eq_true]
  exact fun hu => h (lead_unique hu ht)

theorem head_of_startsAt_regexStr {c : Char} {cs : List Char} (h : startsAt (c :: cs) .regexStr) :
    c = 'r' ∨ c = '\'' ∨ c = '"' := by
  obtain ⟨n, hn⟩ := exists_length?_of_startsAt h
  obtain ⟨q, hq, -⟩ := Option.map_eq_some_iff.1 hn
  rcases head_of_match?_quoted (by rw [hq]; rfl) with mark | ⟨hr, -⟩
  · exact .inr mark
  · exact .inl hr

theorem head_of_startsAt_litBool {c : Char} {cs : List Char} (h : startsAt (c :: cs) .litBool) :
    c = 'T' ∨ c = 'F' := by
  obtain ⟨n, hn⟩ := exists_length?_of_startsAt h
  rcases Option.or_eq_some_iff.1 hn with hn | ⟨-, hn⟩
  · exact .inl (head_of_wordLength? hn)
  · exact .inr (head_of_wordLength? hn)

theorem head_of_startsAt_litNone {c : Char} {cs : List Char} (h : startsAt (c :: cs) .litNone) :
    c = 'N' := by
  obtain ⟨n, hn⟩ := exists_length?_of_startsAt h
  exact head_of_wordLength? hn

theorem exists_cons_of_startsAt {t : Token} {x : List Char} (ht : t ≠ .textEnd)
    (h : startsAt x t) : ∃ c cs, x = c :: cs := by
  cases x with
  | nil =>
    obtain ⟨n, hn⟩ := exists_length?_of_startsAt h
    exact absurd (length?_nil hn) ht
  | cons c cs => exact ⟨c, cs, rfl⟩

theorem unquoted_of_litBool {x : List Char} (h : startsAt x .litBool) :
    startsAt x .regexStr = false := by
  obtain ⟨c, cs, rfl⟩ := exists_cons_of_startsAt (by decide) h
  rw [← Bool.not_eq_true]
  intro hq
  rcases head_of_startsAt_litBool h with rfl | rfl <;>
    exact absurd (head_of_startsAt_regexStr hq) (by decide)

theorem unquoted_of_litNone {x : List Char} (h : startsAt x .litNone) :
    startsAt x .regexStr = false ∧ startsAt x .litBool = false := by
  obtain ⟨c, cs, rfl⟩ := exists_cons_of_startsAt (by decide) h
  cases head_of_startsAt_litNone h
  constructor
  · rw [← Bool.not_eq_true]
    exact fun hq => absurd (head_of_startsAt_regexStr hq) (by decide)
  · rw [← Bool.not_eq_true]
    exact fun hq => absurd (head_of_startsAt_litBool hq) (by decide)

/-- A quoted literal that begins like a name has a quotation mark behind that name. -/
theorem head_behind_name {x : List Char} {m : Nat} (h : nameLength? x = some m)
    (hq : startsAt x .regexStr) :
    (x.drop m).head? = some '\'' ∨ (x.drop m).head? = some '"' := by
  obtain ⟨c, cs, rfl, hc, rfl⟩ := nameLength?_eq_some.1 h
  obtain ⟨n, hn⟩ := exists_length?_of_startsAt hq
  obtain ⟨q, hq, -⟩ := Option.map_eq_some_iff.1 hn
  rcases head_of_match?_quoted (by rw [hq]; rfl) with (rfl | rfl) | ⟨rfl, mark, rest, hm, rfl⟩
  · exact absurd hc (by decide)
  · exact absurd hc (by decide)
  · rcases hm with rfl | rfl
    · exact .inl rfl
    · exact .inr rfl

theorem unquoted_of_ruleName {x : List Char} (h : startsAt x .ruleName)
    (unreferred : startsAt x .ruleRef = false) : startsAt x .regexStr = false := by
  obtain ⟨m, hm⟩ := exists_length?_of_startsAt h
  have colon : (x.drop m).head? = some ':' := by
    rw [← Bool.not_eq_true, startsAt_ruleRef hm] at unreferred
    simpa using unreferred
  rw [← Bool.not_eq_true]
  intro hq
  rcases head_behind_name hm hq with mark | mark
  · rw [mark] at colon
    cases colon
  · rw [mark] at colon
    cases colon

end Token

namespace Phrase

open Token

def Starts (tokens : List Token) (x : List Char) : Prop := ∃ t ∈ tokens, startsAt x t

theorem Starts.settled {tokens : List Token} {x : List Char} (h : Starts tokens x) : Settled x := by
  obtain ⟨t, -, ht⟩ := h
  exact settled_of_startsAt ht

theorem Starts.mono {tokens more : List Token} {x : List Char} (h : Starts tokens x)
    (sub : tokens ⊆ more) : Starts more x := by
  obtain ⟨t, ht, hs⟩ := h
  exact ⟨t, sub ht, hs⟩

theorem Starts.excludes {tokens : List Token} {x : List Char} (h : Starts tokens x) {u : Token}
    (hu : ∀ t ∈ tokens, u.lead ≠ t.lead) : startsAt x u = false := by
  obtain ⟨t, ht, hs⟩ := h
  exact startsAt_of_lead_ne hs (hu t ht)

variable {Legible : List Char → Prop} {x y : List Char} {e : Expr}

theorem Mark.start {t : Token} (h : Mark t x y) : startsAt x t := by
  obtain ⟨lexeme, takes⟩ := h
  exact takes.startsAt

theorem Name.start {a : String} (h : Name x a y) : startsAt x .ruleName := by
  obtain ⟨takes⟩ := h
  exact takes.startsAt

theorem RegexStr.start {a : String} (h : RegexStr x a y) : startsAt x .regexStr := by
  obtain ⟨takes, -⟩ := h
  exact takes.startsAt

theorem LitVal.start {v : Value} (h : LitVal x v y) :
    Starts [.regexStr, .litNum, .litBool, .litNone] x := by
  cases h with
  | str h => exact ⟨_, by simp, h.start⟩
  | num h =>
    obtain ⟨takes, -⟩ := h
    exact ⟨_, by simp, takes.startsAt⟩
  | bool h =>
    obtain ⟨takes⟩ := h
    exact ⟨_, by simp, takes.startsAt⟩
  | none h => exact ⟨_, by simp, h.start⟩

theorem ArgExpr.start {pair : String × Value} (h : ArgExpr x pair y) : startsAt x .ruleName := by
  obtain ⟨key, -, -⟩ := h
  exact key.start

theorem ArgItem.start {pairs : List (String × Value)} (h : ArgItem x pairs y) :
    startsAt x .ruleName := by
  cases h with
  | last h close => exact h.start
  | lastComma h comma close => exact h.start
  | more h comma rest => exact h.start

theorem ArgsGroup.start {pairs : List (String × Value)} (h : ArgsGroup x pairs y) :
    startsAt x .brktBeg := by
  cases h with
  | empty opening close => exact opening.start
  | items opening items => exact opening.start

theorem ArgsDef.start {args : Args} (h : ArgsDef x args y) : startsAt x .argsSign := by
  obtain ⟨sign, -, -⟩ := h
  exact sign.start

theorem Code.start (h : Code Legible x e y) : startsAt x .code := by
  obtain ⟨takes, -⟩ := h
  exact takes.startsAt

theorem Occ01Group.start (h : Occ01Group Legible x e y) : startsAt x .sqrbrktBeg := by
  obtain ⟨opening, -, -⟩ := h
  exact opening.start

theorem Group.start (h : Group Legible x e y) : startsAt x .brktBeg := by
  obtain ⟨opening, -, -⟩ := h
  exact opening.start

theorem Atom.start (h : Atom Legible x e y) : Starts [.ruleRef, .regexStr, .brktBeg] x := by
  cases h with
  | pattern literal h => exact ⟨_, by simp, literal.start⟩
  | reference takes unquoted => exact ⟨_, by simp, takes.startsAt⟩
  | group h => exact ⟨_, by simp, h.start⟩

def itemTokens : List Token := [.ruleRef, .regexStr, .brktBeg, .sqrbrktBeg]

theorem Item.start (h : Item Legible x e y) : Starts itemTokens x := by
  cases h with
  | brackets h => exact ⟨_, by simp [itemTokens], h.start⟩
  | atom h => exact h.start.mono (by decide)

theorem OccExpr.start (h : OccExpr Legible x e y) : Starts itemTokens x := by
  cases h with
  | plain item => exact item.start
  | marked item o trailer => exact item.start

theorem Rounds.start {items : List Expr} (h : Rounds Legible x items y) :
    Starts Rule.Body.itemStart x := by
  have front : ∀ {before w item z}, CodeBlocks Legible x before w → OccExpr Legible w item z →
      Starts Rule.Body.itemStart x := by
    intro before w item z blocks item
    cases blocks with
    | none => exact item.start.mono (by decide)
    | more first rest => exact ⟨_, by decide, first.start⟩
  cases h with
  | last blocks item back => exact front blocks item
  | more blocks item back rest => exact front blocks item

theorem SeqExpr.start (h : SeqExpr Legible x e y) : Starts Rule.Body.itemStart x := by
  obtain ⟨rounds⟩ := h
  exact rounds.start

theorem Alternatives.start {items : List Expr} (h : Alternatives Legible x items y) :
    Starts Rule.Body.itemStart x := by
  cases h with
  | last h => exact h.start
  | more first bar rest => exact first.start

theorem OrExpr.start (h : OrExpr Legible x e y) : Starts Rule.Body.itemStart x := by
  obtain ⟨all⟩ := h
  exact all.start

theorem RuleDef.start {d : Definition} (h : RuleDef Legible x d y) : startsAt x .ruleName := by
  obtain ⟨name, -, -, -⟩ := h
  exact name.start

theorem RuleSeq.start {ds : List Definition} (h : RuleSeq Legible x ds y) :
    startsAt x .ruleName := by
  obtain ⟨first, -⟩ := h
  exact first.start

theorem All.start {g : Grammar} (h : All Legible x g y) : Starts [.argsSign, .ruleName] x := by
  obtain ⟨options, rules, -⟩ := h
  cases options with
  | absent => exact ⟨_, by simp, rules.start⟩
  | present h => exact ⟨_, by simp, h.start⟩

theorem Mark.settled {t : Token} (h : Mark t x y) : Settled y := by
  obtain ⟨lexeme, takes⟩ := h
  exact takes.settled_right

theorem LitVal.settled {v : Value} (h : LitVal x v y) : Settled y := by
  cases h with
  | str h =>
    obtain ⟨takes, -⟩ := h
    exact takes.settled_right
  | num h =>
    obtain ⟨takes, -⟩ := h
    exact takes.settled_right
  | bool h =>
    obtain ⟨takes⟩ := h
    exact takes.settled_right
  | none h => exact h.settled

theorem ArgExpr.settled {pair : String × Value} (h : ArgExpr x pair y) : Settled y := by
  obtain ⟨-, -, value⟩ := h
  exact value.settled

theorem ArgItem.settled {pairs : List (String × Value)} (h : ArgItem x pairs y) : Settled y := by
  induction h with
  | last h close => exact close.settled
  | lastComma h comma close => exact close.settled
  | more h comma rest ih => exact ih

theorem ArgsGroup.settled {pairs : List (String × Value)} (h : ArgsGroup x pairs y) :
    Settled y := by
  cases h with
  | empty opening close => exact close.settled
  | items opening items => exact items.settled

theorem ArgsDef.settled {args : Args} (h : ArgsDef x args y) : Settled y := by
  obtain ⟨-, group, -⟩ := h
  exact group.settled

theorem Occ01Group.settled (h : Occ01Group Legible x e y) : Settled y := by
  obtain ⟨-, -, close⟩ := h
  exact close.settled

theorem Group.settled (h : Group Legible x e y) : Settled y := by
  obtain ⟨-, -, close⟩ := h
  exact close.settled

theorem All.settled {g : Grammar} (h : All Legible x g y) : Settled y := by
  obtain ⟨-, -, stop⟩ := h
  exact stop.settled

end Phrase

end GrammarKit
