import GrammarKit.Proofs.Phrase.Spans
import GrammarKit.Proofs.Phrase.Start

/-!
Phrases do not depend on the text behind them. If the text is cut anywhere behind a phrase, and goes
on from there with a line feed and any tame text, the phrase still stands where it stood.

What a phrase builds is set aside here: the text behind a reference may take blanks from its lexeme.
-/

namespace GrammarKit

namespace Quoted

theorem unquoted_exchange {p v w : List Char} (h : Token.startsAt (p ++ v) .regexStr = false)
    (hp : p ≠ []) (hw : Tame w) : Token.startsAt (p ++ w) .regexStr = false := by
  rw [← Bool.not_eq_true] at h ⊢
  intro hs
  obtain ⟨n, hn⟩ := Token.exists_length?_of_startsAt hs
  obtain ⟨q, hq, -⟩ := Option.map_eq_some_iff.1 hn
  obtain ⟨q', hq'⟩ := exists_match?_of_tame hq hp hw v
  exact h (Token.startsAt_of_length? (Option.map_eq_some_iff.2 ⟨q', hq', rfl⟩))

end Quoted

namespace Phrase

/-- The stretch from `x` to `y` is kept where the text goes on otherwise behind it. -/
def Moves (P : List Char → List Char → Prop) (x y : List Char) : Prop :=
  ∀ q v, y = q ++ v → ∃ p, x = p ++ v ∧ ∀ w, Tame w →
    P (settle (p ++ '\n' :: w)) (settle (q ++ '\n' :: w))

namespace Moves

variable {P Q : List Char → List Char → Prop} {x y z : List Char}

theorem mono (h : Moves P x y) (hPQ : ∀ {x y}, P x y → Q x y) : Moves Q x y := by
  intro q v hy
  obtain ⟨p, hx, hp⟩ := h q v hy
  exact ⟨p, hx, fun w hw => hPQ (hp w hw)⟩

theorem seq (h : Moves P x y) (k : Moves Q y z) : Moves (Then P Q) x z := by
  intro q v hz
  obtain ⟨p, hy, hp⟩ := k q v hz
  obtain ⟨o, hx, ho⟩ := h p v hy
  exact ⟨o, hx, fun w hw => ⟨_, ho w hw, hp w hw⟩⟩

theorem empty (h : ∀ x, P x x) (x : List Char) : Moves P x x :=
  fun q _ hx => ⟨q, hx, fun _ _ => h _⟩

theorem length_le (h : Moves P x y) : y.length ≤ x.length := by
  obtain ⟨p, hx, -⟩ := h [] y rfl
  rw [hx, List.length_append]
  exact Nat.le_add_left _ _

end Moves

theorem moves_of_takes {t : Token} {x lexeme y : List Char} (ht : t ≠ .textEnd)
    (h : t.Takes x lexeme y) :
    Moves (fun x y => ∃ l, t.Takes x l y ∧ (t ≠ .ruleRef → l = lexeme)) x y := by
  rintro q v rfl
  obtain ⟨p, hx, -, hp⟩ := h.exchange ht
  refine ⟨p, hx, fun w hw => ?_⟩
  obtain ⟨l, takes, hl⟩ := hp w hw
  rw [takes.settled_left.eq]
  exact ⟨l, takes, hl⟩

variable {x y : List Char}

theorem Mark.moves {t : Token} (h : Mark t x y) (ht : t ≠ .textEnd) : Moves (Mark t) x y := by
  obtain ⟨lexeme, takes⟩ := h
  exact (moves_of_takes ht takes).mono fun h => h.imp fun _ h => h.1

theorem moves_lexical {α : Type} {P : List Char → α → List Char → Prop} {t : Token}
    {g : List Char → α} (hP : ∀ x a y, P x a y ↔ ∃ lexeme, t.Takes x lexeme y ∧ a = g lexeme)
    (ht : t ≠ .textEnd) {a : α} (h : P x a y) : Moves (Spans P) x y := by
  obtain ⟨lexeme, takes, -⟩ := (hP x a y).1 h
  refine (moves_of_takes ht takes).mono ?_
  rintro x y ⟨l, takes, -⟩
  exact ⟨g l, (hP x _ y).2 ⟨l, takes, rfl⟩⟩

theorem Name.moves {a : String} (h : Name x a y) : Moves (Spans Name) x y :=
  moves_lexical (fun _ _ _ => name_iff) (by decide) h

theorem RegexStr.moves {a : String} (h : RegexStr x a y) : Moves (Spans RegexStr) x y :=
  moves_lexical (fun _ _ _ => regexStr_iff) (by decide) h

theorem LitVal.moves {v : Value} (h : LitVal x v y) : Moves (Spans LitVal) x y := by
  cases h with
  | str h => exact h.moves.mono (Spans.imp .str)
  | num h =>
    exact (moves_lexical (fun _ _ _ => litNum_iff) (by decide) h).mono (Spans.imp .num)
  | bool h =>
    exact (moves_lexical (fun _ _ _ => litBool_iff) (by decide) h).mono (Spans.imp .bool)
  | none h => exact (h.moves (by decide)).mono fun h => ⟨_, .none h⟩

theorem ArgExpr.moves {pair : String × Value} (h : ArgExpr x pair y) :
    Moves (Spans ArgExpr) x y := by
  obtain ⟨key, sign, value⟩ := h
  exact (key.moves.seq ((sign.moves (by decide)).seq value.moves)).mono ArgExpr.spans

theorem ArgItem.moves {pairs : List (String × Value)} (h : ArgItem x pairs y) :
    Moves (Spans ArgItem) x y := by
  induction h with
  | last h close =>
    exact (h.moves.seq (close.moves (by decide))).mono ArgItem.spans_last
  | lastComma h comma close =>
    exact (h.moves.seq ((comma.moves (by decide)).seq (close.moves (by decide)))).mono
      ArgItem.spans_lastComma
  | more h comma rest ih =>
    exact (h.moves.seq ((comma.moves (by decide)).seq ih)).mono ArgItem.spans_more

theorem ArgsGroup.moves {pairs : List (String × Value)} (h : ArgsGroup x pairs y) :
    Moves (Spans ArgsGroup) x y := by
  cases h with
  | empty opening close =>
    exact ((opening.moves (by decide)).seq (close.moves (by decide))).mono ArgsGroup.spans_empty
  | items opening items =>
    exact ((opening.moves (by decide)).seq items.moves).mono ArgsGroup.spans_items

theorem ArgsDef.moves {args : Args} (h : ArgsDef x args y) : Moves (Spans ArgsDef) x y := by
  obtain ⟨sign, group, -⟩ := h
  exact ((sign.moves (by decide)).seq group.moves).mono ArgsDef.spans

theorem Optionally.moves {args : Option Args} (h : Optionally ArgsDef x args y) :
    Moves (Spans (Optionally ArgsDef)) x y := by
  cases h with
  | absent => exact .empty (fun _ => ⟨_, .absent⟩) x
  | present h => exact h.moves.mono (Spans.imp .present)

variable {Legible : List Char → Prop}

theorem Code.moves {e : Expr} (h : Code Legible x e y) : Moves (Spans (Code Legible)) x y := by
  obtain ⟨takes, legible⟩ := h
  refine (moves_of_takes (by decide) takes).mono ?_
  rintro _ _ ⟨l, takes, hl⟩
  rw [hl (by decide)] at takes
  exact ⟨_, .intro takes legible⟩

theorem CodeBlocks.moves {es : List Expr} (h : CodeBlocks Legible x es y) :
    Moves (Spans (CodeBlocks Legible)) x y := by
  induction h with
  | none => exact .empty (fun _ => ⟨_, .none⟩) _
  | more first rest ih =>
    exact (first.moves.seq ih).mono CodeBlocks.spans_more

/-- A reference keeps standing where no quoted literal does. -/
theorem reference_moves {lexeme : List Char} (h : Token.ruleRef.Takes x lexeme y)
    (unquoted : Token.startsAt x .regexStr = false) : Moves (Spans (Atom Legible)) x y := by
  rintro q v rfl
  obtain ⟨p, rfl, hne, hp⟩ := h.exchange (by decide)
  refine ⟨p, rfl, fun w hw => ?_⟩
  obtain ⟨l, takes, -⟩ := hp w hw
  rw [takes.settled_left.eq]
  exact ⟨_, .reference takes (Quoted.unquoted_exchange unquoted hne hw.line_feed)⟩

mutual

theorem OrExpr.moves {x e y} : OrExpr Legible x e y → Moves (Spans (OrExpr Legible)) x y
  | .intro all => (Alternatives.moves all).mono (Spans.imp .intro)

theorem Alternatives.moves {x es y} :
    Alternatives Legible x es y → Moves (Spans (Alternatives Legible)) x y
  | .last h => (SeqExpr.moves h).mono (Spans.imp .last)
  | .more first bar rest =>
    ((SeqExpr.moves first).seq ((bar.moves (by decide)).seq (Alternatives.moves rest))).mono
      Alternatives.spans_more

theorem SeqExpr.moves {x e y} : SeqExpr Legible x e y → Moves (Spans (SeqExpr Legible)) x y
  | .intro rounds => (Rounds.moves rounds).mono (Spans.imp .intro)

theorem Rounds.moves {x es y} : Rounds Legible x es y → Moves (Spans (Rounds Legible)) x y
  | .last front item back =>
    (front.moves.seq ((OccExpr.moves item).seq back.moves)).mono Rounds.spans_last
  | .more front item back rest =>
    (front.moves.seq ((OccExpr.moves item).seq (back.moves.seq (Rounds.moves rest)))).mono
      Rounds.spans_more

theorem OccExpr.moves {x e y} : OccExpr Legible x e y → Moves (Spans (OccExpr Legible)) x y
  | .plain item => (Item.moves item).mono (Spans.imp .plain)
  | .marked item o trailer =>
    ((Item.moves item).seq (trailer.moves (by cases o <;> decide))).mono OccExpr.spans_marked

theorem Item.moves {x e y} : Item Legible x e y → Moves (Spans (Item Legible)) x y
  | .brackets h => (Occ01Group.moves h).mono (Spans.imp .brackets)
  | .atom h => (Atom.moves h).mono (Spans.imp .atom)

theorem Occ01Group.moves {x e y} :
    Occ01Group Legible x e y → Moves (Spans (Occ01Group Legible)) x y
  | .intro opening inner close =>
    ((opening.moves (by decide)).seq ((OrExpr.moves inner).seq (close.moves (by decide)))).mono
      Occ01Group.spans

theorem Atom.moves {x e y} : Atom Legible x e y → Moves (Spans (Atom Legible)) x y
  | .pattern literal h =>
    (literal.moves.seq h.moves).mono Atom.spans_pattern
  | .reference h unquoted => reference_moves h unquoted
  | .group h => (Group.moves h).mono (Spans.imp .group)

theorem Group.moves {x e y} : Group Legible x e y → Moves (Spans (Group Legible)) x y
  | .intro opening inner close =>
    ((opening.moves (by decide)).seq ((OrExpr.moves inner).seq (close.moves (by decide)))).mono
      Group.spans

end

theorem head_moves {name : String} {z : List Char} (h : Name x name z)
    (colon : Mark .ruleColon z y) : Moves Head x y :=
  h.moves.seq (colon.moves (by decide))

/-- A name that is no reference has a colon right behind it. -/
theorem Name.colon {name : String} (h : Name x name y)
    (unreferred : Token.startsAt x .ruleRef = false) :
    ∃ m, Token.nameLength? x = some m ∧ y = x.drop m ∧ y.head? = some ':' := by
  obtain ⟨⟨m, hm, -, hy⟩⟩ := h
  have name : Token.nameLength? x = some m := hm
  have next : (x.drop m).head? = some ':' := by
    rw [← Bool.not_eq_true, Token.startsAt_ruleRef name] at unreferred
    simpa using unreferred
  have settled : settle (x.drop m) = x.drop m := by
    cases htail : x.drop m with
    | nil => rfl
    | cons c tail =>
      rw [htail] at next
      cases next
      exact settled_cons (by decide) (by decide) tail
  rw [settled] at hy
  exact ⟨m, name, hy, by rw [hy, next]⟩

theorem furtherHead_moves (unreferred : Token.startsAt x .ruleRef = false) {name : String}
    {z : List Char} (h : Name x name z) (colon : Mark .ruleColon z y) : Moves FurtherHead x y := by
  intro q v hy
  obtain ⟨p, hx, hp⟩ := head_moves h colon q v hy
  refine ⟨p, hx, fun w hw => ⟨?_, hp w hw⟩⟩
  obtain ⟨m, name, hz, next⟩ := h.colon unreferred
  obtain ⟨lexeme, takes⟩ := colon
  have short := takes.length_lt (by decide)
  rw [hz, hy, hx, List.length_drop, List.length_append, List.length_append] at short
  have lt : m < p.length := by omega
  subst hx
  have name' : Token.nameLength? (p ++ '\n' :: w) = some m :=
    Token.nameLength?_exchange name (Nat.le_of_lt lt) (closing_line_feed w)
  obtain ⟨c, tail, htail⟩ : ∃ c tail, p.drop m = c :: tail := by
    cases htail : p.drop m with
    | nil => exact absurd (List.drop_eq_nil_iff.1 htail) (by omega)
    | cons c tail => exact ⟨c, tail, rfl⟩
  rw [hz, List.drop_append_of_le_length (Nat.le_of_lt lt), htail] at next
  have start : Token.startsAt (p ++ '\n' :: w) .ruleName := Token.startsAt_of_length? name'
  rw [(Token.settled_of_startsAt start).eq,
    ← Bool.not_eq_true, Token.startsAt_ruleRef name',
    List.drop_append_of_le_length (Nat.le_of_lt lt), htail]
  simpa using next

theorem RuleDef.moves {d : Definition} (h : RuleDef Legible x d y) :
    Moves (Spans (RuleDef Legible)) x y := by
  obtain ⟨name, colon, args, expr⟩ := h
  exact ((head_moves name colon).seq (args.moves.seq expr.moves)).mono RuleDef.spans

theorem RuleDef.further_moves {d : Definition} (h : RuleDef Legible x d y)
    (unreferred : Token.startsAt x .ruleRef = false) : Moves (FurtherDef Legible) x y := by
  obtain ⟨name, colon, args, expr⟩ := h
  exact ((furtherHead_moves unreferred name colon).seq (args.moves.seq expr.moves)).mono
    FurtherDef.of_head

theorem FurtherDefs.moves {ds : List Definition} (h : FurtherDefs Legible x ds y) :
    Moves (Spans (FurtherDefs Legible)) x y := by
  induction h with
  | none => exact .empty (fun _ => ⟨_, .none⟩) _
  | more unreferred first rest ih =>
    exact ((first.further_moves unreferred).seq ih).mono FurtherDefs.spans_more

theorem RuleSeq.moves {ds : List Definition} (h : RuleSeq Legible x ds y) :
    Moves (Spans (RuleSeq Legible)) x y := by
  obtain ⟨first, rest⟩ := h
  exact (first.moves.seq rest.moves).mono RuleSeq.spans

end Phrase

end GrammarKit
