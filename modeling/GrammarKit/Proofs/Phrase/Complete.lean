import GrammarKit.Proofs.Phrase.Sound
import GrammarKit.Proofs.Phrase.Start

/-!
Every phrase is found: where a phrase of a rule stands and is followed by what may follow it, the
handler of the rule reads it and yields what it builds. The handlers choose by the next token and
never go back, so at each choice the token that begins the phrase has to exclude those that are
asked for before it; and they ask behind an item for all that may follow, so what follows has to be
among it.

The bound on the depth of calls is left open here: a handler may run out of it instead.
-/

namespace GrammarKit

namespace Reading

variable {α β : Type} {lax : Prop}

/-- The reading yields `a` in front of `y`, unless it runs out of steps or meets an uneven fence
where these are allowed. -/
def Gives (lax : Prop) (o : Reading α) (a : α) (y : List Char) : Prop :=
  o = .yield a y ∨ o = .abort .exhausted ∨ lax ∧ o = .abort .unevenFence

theorem gives_yield (a : α) (y : List Char) : Gives lax (.yield a y) a y := .inl rfl

theorem gives_exhausted (a : α) (y : List Char) : Gives lax (.abort .exhausted) a y :=
  .inr (.inl rfl)

theorem Gives.bind {o : Reading α} {f : α → List Char → Reading β} {a : α} {b : β}
    {y z : List Char} (h : Gives lax o a y) (hf : Gives lax (f a y) b z) :
    Gives lax (o.bind f) b z := by
  rcases h with rfl | rfl | ⟨hlax, rfl⟩
  · exact hf
  · exact gives_exhausted b z
  · exact .inr (.inr ⟨hlax, rfl⟩)

theorem Gives.settled {o : Reading α} {a : α} {y : List Char} (h : Gives lax o a y) :
    Gives lax o.settled a (settle y) := by
  rcases h with rfl | rfl | ⟨hlax, rfl⟩
  · exact gives_yield a _
  · exact gives_exhausted a _
  · exact .inr (.inr ⟨hlax, rfl⟩)

theorem gives_choose {candidates tokens : List Token} {x : List Char} {f : Token → Reading α}
    {a : α} {y : List Char} (h : Phrase.Starts tokens x) (sub : tokens ⊆ candidates)
    (hf : ∀ u ∈ candidates, Token.startsAt x u → ∀ t ∈ tokens, u.lead = t.lead →
      Gives lax (f u) a y) :
    Gives lax (choose candidates x f) a y := by
  obtain ⟨t, ht, hs⟩ := h
  cases hfind : candidates.find? (Token.startsAt x) with
  | none => exact absurd hs (by simpa using List.find?_eq_none.1 hfind t (sub ht))
  | some u =>
    rw [choose_of_find? hfind]
    have hu := List.find?_some hfind
    exact hf u (List.mem_of_find?_eq_some hfind) hu t ht (Token.lead_unique hu hs)

theorem gives_choose_front (front back : List Token) {x : List Char}
    {f : Token → Reading α} {a : α} {y : List Char} (h : Phrase.Starts front x)
    (hf : ∀ u ∈ front, Gives lax (f u) a y) : Gives lax (choose (front ++ back) x f) a y := by
  obtain ⟨t, ht, hs⟩ := h
  cases hfind : front.find? (Token.startsAt x) with
  | none => exact absurd hs (by simpa using List.find?_eq_none.1 hfind t ht)
  | some u =>
    rw [choose_of_find? (by rw [List.find?_append, hfind]; rfl)]
    exact hf u (List.mem_of_find?_eq_some hfind)

end Reading

namespace Phrase

theorem CodeBlocks.append {Legible : List Char → Prop} {x y z : List Char} {es fs : List Expr}
    (h : CodeBlocks Legible x es y) (k : CodeBlocks Legible y fs z) :
    CodeBlocks Legible x (es ++ fs) z := by
  induction h with
  | none => exact k
  | more first rest ih => exact .more first (ih k)

inductive Led (Legible : List Char → Prop) : List Char → List Expr → List Char → Prop
  | last {x y z e after} (item : OccExpr Legible x e y) (back : CodeBlocks Legible y after z) :
      Led Legible x (e :: after) z
  | more {w x y z e after items} (item : OccExpr Legible w e x)
      (back : CodeBlocks Legible x after y) (rest : Led Legible y items z) :
      Led Legible w (e :: (after ++ items)) z

theorem Led.start {Legible : List Char → Prop} {x y : List Char} {items : List Expr}
    (h : Led Legible x items y) : Starts itemTokens x := by
  cases h with
  | last item back => exact item.start
  | more item back rest => exact item.start

/-- The blocks of code between two items all stand behind the first of them. -/
theorem Rounds.led {Legible : List Char → Prop} {y : List Char} :
    ∀ {x : List Char} {items : List Expr}, Rounds Legible x items y →
      ∃ before w rest, CodeBlocks Legible x before w ∧ Led Legible w rest y ∧
        items = before ++ rest
  | _, _, .last front item back => ⟨_, _, _, front, .last item back, rfl⟩
  | _, _, .more front item back rest => by
    obtain ⟨before, w, items, further, led, rfl⟩ := Rounds.led rest
    refine ⟨_, _, _, front, .more item (back.append further) led, ?_⟩
    simp

/-- Tokens behind an expression, besides the name of a further rule. -/
def exprEnd : List Token := [.brktEnd, .sqrbrktEnd, .textEnd]

def itemEnd : List Token := .orExprOp :: exprEnd

def trailers : List Token := [.occ0mTrailer, .occ1mTrailer, .occ01Trailer]

def Follows (tokens : List Token) (y : List Char) : Prop :=
  ∃ t, (t ∈ tokens ∨ t = .ruleName ∧ Token.startsAt y .ruleRef = false) ∧ Token.startsAt y t

/-- What has to stand behind a phrase for its handler to stop there. -/
def Fits : Rule → List Char → Prop
  | .ruleSeq, y => Token.startsAt y .textEnd
  | .ruleDef, y | .orExpr, y => Follows exprEnd y
  | .seqExpr, y => Follows itemEnd y
  | .occExpr, y => Follows (Rule.Body.itemStart ++ itemEnd) y
  | .atom, y => Follows (trailers ++ Rule.Body.itemStart ++ itemEnd) y
  | _, _ => True

theorem Follows.mono {tokens more : List Token} {y : List Char} (h : Follows tokens y)
    (sub : tokens ⊆ more) : Follows more y := by
  obtain ⟨t, ht, hs⟩ := h
  exact ⟨t, ht.imp_left fun ht => sub ht, hs⟩

theorem Follows.starts {tokens : List Token} {y : List Char} (h : Follows tokens y) :
    Starts (.ruleName :: tokens) y := by
  obtain ⟨t, ht | ⟨rfl, -⟩, hs⟩ := h
  · exact ⟨t, List.mem_cons_of_mem _ ht, hs⟩
  · exact ⟨.ruleName, List.mem_cons_self, hs⟩

theorem Starts.follows {tokens : List Token} {y : List Char} (h : Starts tokens y) :
    Follows tokens y := by
  obtain ⟨t, ht, hs⟩ := h
  exact ⟨t, .inl ht, hs⟩

theorem CodeBlocks.follows {Legible : List Char → Prop} {tokens : List Token} {x y : List Char}
    {es : List Expr} (h : CodeBlocks Legible x es y) (hy : Follows tokens y)
    (hcode : .code ∈ tokens) : Follows tokens x := by
  cases h with
  | none => exact hy
  | more first rest => exact ⟨.code, .inl hcode, first.start⟩

theorem Follows.excludes {y : List Char} (h : Follows itemEnd y) {u : Token}
    (hu : u ∈ Rule.Body.itemStart) : Token.startsAt y u = false := by
  obtain ⟨t, ht | ⟨rfl, unreferred⟩, hs⟩ := h
  · have apart : ∀ t ∈ itemEnd, ∀ u ∈ Rule.Body.itemStart, u.lead ≠ t.lead := by decide
    exact Token.startsAt_of_lead_ne hs (apart t ht u hu)
  · have other : u = .regexStr ∨ u = .ruleRef ∨ u.lead ≠ Token.ruleName.lead := by
      revert u
      decide
    rcases other with rfl | rfl | other
    · exact Token.unquoted_of_ruleName hs unreferred
    · exact unreferred
    · exact Token.startsAt_of_lead_ne hs other

end Phrase

namespace Rule

/-- The means to call rules find every phrase that is followed by what may follow it. -/
def Complete (Legible : List Char → Prop) (lax : Prop) (call : (r : Rule) → Handler r.Output) :
    Prop :=
  ∀ (r : Rule) (x : List Char) (a : r.Output) (y : List Char), Phrase.Of Legible r x a y →
    Phrase.Fits r y → Reading.Gives lax ((call r).read x) a y

namespace Body

open Phrase Reading

variable {Legible : List Char → Prop} {lax : Prop} {call : (r : Rule) → Handler r.Output}
  (complete : Complete Legible lax call) {x y : List Char}

include complete

theorem optionalArgs_gives {candidates : List Token} {args : Option Args} {α : Type}
    {f : Option Args → List Char → Reading α} {a : α} {z : List Char}
    (h : Optionally ArgsDef x args y) (hsign : .argsSign ∈ candidates) (tokens : List Token)
    (habsent : args = none → Starts tokens x) (sub : tokens ⊆ candidates)
    (hlead : ∀ t ∈ tokens, Token.argsSign.lead ≠ t.lead) (hf : Gives lax (f args y) a z) :
    Gives lax (choose candidates x fun next => (optionalArgs call next x).bind f) a z := by
  cases h with
  | absent =>
    refine gives_choose (habsent rfl) sub fun u _ _ t ht hu => ?_
    have other : u ≠ .argsSign := by
      rintro rfl
      exact hlead t ht hu
    rw [optionalArgs, if_neg other]
    exact hf
  | present h =>
    refine gives_choose ⟨.argsSign, List.mem_singleton_self _, h.start⟩ (by simpa using hsign)
      fun u _ _ t ht hu => ?_
    have same : u = .argsSign := by
      rw [List.mem_singleton.1 ht] at hu
      revert hu
      cases u <;> decide
    rw [optionalArgs, if_pos same]
    exact Gives.bind ((complete .argsDef _ _ _ h trivial).bind (gives_yield _ _)) hf

theorem all_gives {g : Grammar} (h : All Legible x g y) : Gives lax ((all call).read x) g y := by
  obtain ⟨options, rules, stop⟩ := h
  rw [read_all]
  refine optionalArgs_gives complete options (by decide) [.ruleName] ?_ (by decide) (by decide) ?_
  · rintro rfl
    cases options
    exact ⟨.ruleName, by decide, rules.start⟩
  · exact (complete .ruleSeq _ _ _ rules stop.start).bind
      ((complete .textEnd _ () _ stop trivial).bind (gives_yield _ _))

theorem argsDef_gives {args : Args} (h : ArgsDef x args y) :
    Gives lax ((argsDef call).read x) args y := by
  obtain ⟨sign, group, values⟩ := h
  rw [read_argsDef, args_eq_ofList.1 values]
  exact (complete .argsSign _ () _ sign trivial).bind
    ((complete .argsGroup _ _ _ group trivial).bind (gives_yield _ _))

theorem argsGroup_gives {pairs : List (String × Value)} (h : ArgsGroup x pairs y) :
    Gives lax ((argsGroup call).read x) pairs y := by
  rw [read_argsGroup]
  cases h with
  | empty opening close =>
    refine (complete .brktBeg _ () _ opening trivial).bind ?_
    rw [if_pos close.start]
    exact (complete .brktEnd _ () _ close trivial).bind (gives_yield _ _)
  | items opening items =>
    refine (complete .brktBeg _ () _ opening trivial).bind ?_
    have other := Token.startsAt_of_lead_ne (u := .brktEnd) items.start (by decide)
    rw [other, if_neg Bool.false_ne_true, if_pos items.start]
    exact complete .argItem _ _ _ items trivial

theorem argItem_gives {pairs : List (String × Value)} (h : ArgItem x pairs y) :
    Gives lax ((argItem call).read x) pairs y := by
  rw [read_argItem]
  cases h with
  | last h close =>
    refine (complete .argExpr _ _ _ h trivial).bind ?_
    rw [if_pos close.start]
    exact (complete .brktEnd _ () _ close trivial).bind (gives_yield _ _)
  | lastComma h comma close =>
    refine (complete .argExpr _ _ _ h trivial).bind ?_
    have other := Token.startsAt_of_lead_ne (u := .brktEnd) comma.start (by decide)
    rw [other, if_neg Bool.false_ne_true, if_pos comma.start]
    refine (complete .argSep _ () _ comma trivial).bind ?_
    rw [if_pos close.start]
    exact (complete .brktEnd _ () _ close trivial).bind (gives_yield _ _)
  | more h comma rest =>
    refine (complete .argExpr _ _ _ h trivial).bind ?_
    have other := Token.startsAt_of_lead_ne (u := .brktEnd) comma.start (by decide)
    rw [other, if_neg Bool.false_ne_true, if_pos comma.start]
    refine (complete .argSep _ () _ comma trivial).bind ?_
    have other := Token.startsAt_of_lead_ne (u := .brktEnd) rest.start (by decide)
    rw [other, if_neg Bool.false_ne_true, if_pos rest.start]
    exact (complete .argItem _ _ _ rest trivial).bind (gives_yield _ _)

theorem argExpr_gives {pair : String × Value} (h : ArgExpr x pair y) :
    Gives lax ((argExpr call).read x) pair y := by
  obtain ⟨key, sign, value⟩ := h
  rw [read_argExpr]
  exact (complete .argKey _ _ _ key trivial).bind ((complete .argKvsep _ () _ sign trivial).bind
    ((complete .argVal _ _ _ value trivial).bind (gives_yield _ _)))

theorem litVal_gives {v : Value} (h : LitVal x v y) : Gives lax ((litVal call).read x) v y := by
  rw [read_litVal]
  cases h with
  | str h =>
    rw [if_pos h.start]
    exact complete .litStr _ _ _ ⟨_, h, rfl⟩ trivial
  | num h =>
    have start : Token.startsAt x .litNum := by
      obtain ⟨takes, -⟩ := h
      exact takes.startsAt
    have unquoted := Token.startsAt_of_lead_ne (u := .regexStr) start (by decide)
    rw [unquoted, if_neg Bool.false_ne_true, if_pos start]
    exact complete .litNum _ _ _ h trivial
  | bool h =>
    have start : Token.startsAt x .litBool := by
      obtain ⟨takes⟩ := h
      exact takes.startsAt
    have number := Token.startsAt_of_lead_ne (u := .litNum) start (by decide)
    rw [Token.unquoted_of_litBool start, number, if_neg Bool.false_ne_true,
      if_neg Bool.false_ne_true, if_pos start]
    exact complete .litBool _ _ _ h trivial
  | none h =>
    have number := Token.startsAt_of_lead_ne (u := .litNum) h.start (by decide)
    obtain ⟨unquoted, other⟩ := Token.unquoted_of_litNone h.start
    rw [unquoted, number, other, if_neg Bool.false_ne_true, if_neg Bool.false_ne_true,
      if_neg Bool.false_ne_true, if_pos h.start]
    exact complete .litNone _ _ _ ⟨h, rfl⟩ trivial

theorem ruleSeq_gives {n : Nat} {rules ds : List Definition} {d : Definition} {z : List Char}
    (first : RuleDef Legible x d y) (further : FurtherDefs Legible y ds z)
    (stop : Token.startsAt z .textEnd) :
    Gives lax ((ruleSeq call n rules).read x) (rules.reverse ++ d :: ds) z := by
  induction n generalizing x y rules d ds with
  | zero => exact gives_exhausted _ _
  | succ n ih =>
    rw [read_ruleSeq]
    cases further with
    | none =>
      refine (complete .ruleDef _ _ _ first ⟨.textEnd, .inl (by decide), stop⟩).bind ?_
      refine gives_choose ⟨.textEnd, List.mem_singleton_self _, stop⟩ (by decide)
        fun u _ _ t ht hu => ?_
      have other : u ≠ .ruleName := by
        rintro rfl
        rw [List.mem_singleton.1 ht] at hu
        cases hu
      rw [if_neg other, List.reverse_cons]
      exact gives_yield _ _
    | more unreferred second rest =>
      refine (complete .ruleDef _ _ _ first
        ⟨.ruleName, .inr ⟨rfl, unreferred⟩, second.start⟩).bind ?_
      refine gives_choose ⟨.ruleName, List.mem_singleton_self _, second.start⟩ (by decide)
        fun u hmem _ t ht hu => ?_
      have same : u = .ruleName := by
        rw [List.mem_singleton.1 ht] at hu
        exact (by decide : ∀ u ∈ [Token.ruleName, .textEnd], u.lead = Token.ruleName.lead →
          u = .ruleName) u hmem hu
      have hrest : Gives lax ((ruleSeq call n (d :: rules)).read _) _ z := ih second rest
      rw [List.reverse_cons, List.append_assoc, List.singleton_append] at hrest
      rw [if_pos same]
      exact hrest

theorem ruleDef_gives {d : Definition} (h : RuleDef Legible x d y) (fits : Follows exprEnd y) :
    Gives lax ((ruleDef call).read x) d y := by
  obtain ⟨name, colon, args, body⟩ := h
  rw [read_ruleDef]
  refine (complete .ruleName _ _ _ name trivial).bind
    ((complete .ruleColon _ () _ colon trivial).bind ?_)
  refine optionalArgs_gives complete args (by decide) itemStart ?_ (by decide) (by decide)
    ((complete .orExpr _ _ _ body fits).bind (gives_yield _ _))
  rintro rfl
  cases args
  exact body.start

theorem alternatives_gives {n : Nat} {items es : List Expr} (h : Alternatives Legible x es y)
    (fits : Follows exprEnd y) :
    Gives lax (((call .seqExpr).read x).bind fun item z =>
      (alternatives call n (item :: items)).read z) (.ofChoice (items.reverse ++ es)) y := by
  induction n generalizing x items es with
  | zero =>
    cases h with
    | last h =>
      exact (complete .seqExpr _ _ _ h (fits.mono (by decide))).bind (gives_exhausted _ _)
    | more first bar rest =>
      exact (complete .seqExpr _ _ _ first ⟨.orExprOp, .inl (by decide), bar.start⟩).bind
        (gives_exhausted _ _)
  | succ n ih =>
    cases h with
    | last h =>
      refine (complete .seqExpr _ _ _ h (fits.mono (by decide))).bind ?_
      rw [read_alternatives]
      refine gives_choose fits.starts (by decide) fun u _ _ t ht hu => ?_
      have other : u ≠ .orExprOp := by
        rintro rfl
        exact (by decide : ∀ t ∈ .ruleName :: exprEnd, Token.orExprOp.lead ≠ t.lead) t ht hu
      rw [if_neg other, List.reverse_cons]
      exact gives_yield _ _
    | @more _ _ w _ e es first bar rest =>
      refine (complete .seqExpr _ _ _ first ⟨.orExprOp, .inl (by decide), bar.start⟩).bind ?_
      rw [read_alternatives]
      refine gives_choose ⟨.orExprOp, List.mem_singleton_self _, bar.start⟩ (by decide)
        fun u _ _ t ht hu => ?_
      have same : u = .orExprOp := by
        rw [List.mem_singleton.1 ht] at hu
        revert hu
        cases u <;> decide
      have hrest : Gives lax (((call .seqExpr).read w).bind _)
          (Expr.ofChoice ((e :: items).reverse ++ es)) y := ih rest
      rw [List.reverse_cons, List.append_assoc, List.singleton_append] at hrest
      rw [if_pos same]
      exact (complete .orExprOp _ () _ bar trivial).bind hrest

theorem orExpr_gives {n : Nat} {e : Expr} (h : OrExpr Legible x e y) (fits : Follows exprEnd y) :
    Gives lax ((orExpr call n).read x) e y := by
  obtain ⟨all⟩ := h
  rw [read_orExpr]
  exact alternatives_gives complete all fits

theorem codeBlocks_gives {follow tokens : List Token} {n : Nat} {items blocks : List Expr}
    (h : CodeBlocks Legible x blocks y) (hcode : .code ∈ follow) (hy : Starts tokens y)
    (sub : tokens ⊆ follow) (hlead : ∀ t ∈ tokens, Token.code.lead ≠ t.lead) :
    Gives lax ((codeBlocks call follow n items).read x) (blocks.reverse ++ items) y := by
  induction n generalizing x items blocks with
  | zero => exact gives_exhausted _ _
  | succ n ih =>
    rw [read_codeBlocks]
    cases h with
    | none =>
      refine gives_choose hy sub fun u _ _ t ht hu => ?_
      have other : u ≠ .code := by
        rintro rfl
        exact hlead t ht hu
      rw [if_neg other]
      exact gives_yield _ _
    | @more _ _ _ block blocks first rest =>
      refine gives_choose ⟨.code, List.mem_singleton_self _, first.start⟩ (by simpa using hcode)
        fun u _ _ t ht hu => ?_
      have same : u = .code := by
        rw [List.mem_singleton.1 ht] at hu
        revert hu
        cases u <;> decide
      have hrest : Gives lax ((codeBlocks call follow n (block :: items)).read _) _ y := ih rest
      rw [if_pos same, List.reverse_cons, List.append_assoc, List.singleton_append]
      exact (complete .code _ _ _ first trivial).bind hrest

/-- The loop takes the blocks of code behind an item before it looks for a further item. -/
theorem sequenceItems_gives {n : Nat} {items before more : List Expr} {z : List Char}
    (front : CodeBlocks Legible x before y) (led : Led Legible y more z)
    (fits : Follows itemEnd z) :
    Gives lax ((sequenceItems call n items).read x)
      (.ofSequence (items.reverse ++ (before ++ more))) z := by
  induction n generalizing x y items before more with
  | zero => exact gives_exhausted _ _
  | succ n ih =>
    rw [read_sequenceItems]
    refine (codeBlocks_gives complete front (by decide) led.start (by decide) (by decide)).bind ?_
    cases led with
    | last item back =>
      have hitem : Fits .occExpr _ := back.follows (fits.mono (by decide)) (by decide)
      refine (complete .occExpr _ _ _ item hitem).bind ?_
      refine (codeBlocks_gives complete back (by decide) fits.starts (by decide)
        (by decide)).bind ?_
      refine gives_choose fits.starts (by decide) fun u _ hs _ _ _ => ?_
      have other : u ∉ itemStart := by
        intro hu
        rw [fits.excludes hu] at hs
        cases hs
      rw [if_neg other]
      simpa using gives_yield _ _
    | @more _ _ _ _ e after more item back rest =>
      have hitem : Fits .occExpr _ := back.follows (rest.start.follows.mono (by decide)) (by decide)
      refine (complete .occExpr _ _ _ item hitem).bind ?_
      refine (codeBlocks_gives complete back (by decide) rest.start (by decide)
        (by decide)).bind ?_
      refine gives_choose_front [.ruleRef, .regexStr, .code, .brktBeg, .sqrbrktBeg]
        [.ruleName, .brktEnd, .sqrbrktEnd, .orExprOp, .textEnd] (rest.start.mono (by decide))
        fun u hu => ?_
      have hrest : Gives lax ((sequenceItems call n
          (after.reverse ++ e :: (before.reverse ++ items))).read _) _ z := ih .none rest
      rw [if_pos ((by decide : [Token.ruleRef, .regexStr, .code, .brktBeg, .sqrbrktBeg] ⊆
        itemStart) hu)]
      simpa using hrest

omit complete in
theorem code_gives (legible : ∀ l, Legible l → (Fenced.body? l).isSome ∨ lax) {e : Expr}
    (h : Phrase.Code Legible x e y) : Gives lax (code.read x).settled e y := by
  obtain ⟨⟨n, hn, rfl, rfl⟩, hl⟩ := h
  rw [read_code, hn, block]
  cases hbody : Fenced.body? (x.take n) with
  | some text =>
    simp only [hbody]
    exact gives_yield _ _
  | none =>
    rcases legible _ hl with some | hlax
    · rw [hbody] at some
      cases some
    · simp only [hbody]
      exact .inr (.inr ⟨hlax, rfl⟩)

theorem item_gives {e : Expr} (h : Item Legible x e y)
    (fits : Follows (trailers ++ itemStart ++ itemEnd) y) : Gives lax ((item call).read x) e y := by
  rw [read_item]
  cases h with
  | brackets h =>
    rw [if_pos h.start]
    exact complete .occ01Group _ _ _ h trivial
  | atom h =>
    have some : Token.startsAt x .ruleRef || Token.startsAt x .regexStr ||
        Token.startsAt x .brktBeg := by
      simpa [Starts, or_assoc] using h.start
    rw [h.start.excludes (by decide), if_neg Bool.false_ne_true, if_pos some]
    exact complete .atom _ _ _ h fits

theorem trailer_gives {o : Occurrence} (h : Mark o.token x y) :
    Gives lax ((trailer call).read x) o y := by
  rw [read_trailer]
  cases o with
  | zeroOrOne =>
    have start : Token.startsAt x .occ01Trailer := h.start
    rw [if_pos start]
    exact (complete .occ01Trailer _ () _ h trivial).bind (gives_yield _ _)
  | zeroOrMore =>
    have start : Token.startsAt x .occ0mTrailer := h.start
    have other := Token.startsAt_of_lead_ne (u := .occ01Trailer) start (by decide)
    rw [other, if_neg Bool.false_ne_true, if_pos start]
    exact (complete .occ0mTrailer _ () _ h trivial).bind (gives_yield _ _)
  | oneOrMore =>
    have start : Token.startsAt x .occ1mTrailer := h.start
    have other := Token.startsAt_of_lead_ne (u := .occ01Trailer) start (by decide)
    have other' := Token.startsAt_of_lead_ne (u := .occ0mTrailer) start (by decide)
    rw [other, other', if_neg Bool.false_ne_true, if_neg Bool.false_ne_true, if_pos start]
    exact (complete .occ1mTrailer _ () _ h trivial).bind (gives_yield _ _)

theorem occExpr_gives {e : Expr} (h : OccExpr Legible x e y)
    (fits : Follows (itemStart ++ itemEnd) y) : Gives lax ((occExpr call).read x) e y := by
  rw [read_occExpr]
  cases h with
  | plain item =>
    refine (item_gives complete item (fits.mono (by decide))).bind ?_
    refine gives_choose fits.starts (by decide) fun u _ _ t ht hu => ?_
    have other : u ∉ trailers := fun htrailer =>
      (by decide : ∀ u ∈ trailers, ∀ t ∈ .ruleName :: (itemStart ++ itemEnd), u.lead ≠ t.lead)
        u htrailer t ht hu
    rw [if_neg (show u ∉ [Token.occ0mTrailer, .occ1mTrailer, .occ01Trailer] from other)]
    exact gives_yield _ _
  | @marked _ z _ e item o trailer =>
    have among : Starts trailers z := ⟨o.token, by cases o <;> decide, trailer.start⟩
    refine (item_gives complete item (among.follows.mono (by decide))).bind ?_
    refine gives_choose_front trailers [.ruleRef, .regexStr, .ruleName, .code, .brktBeg, .brktEnd,
      .sqrbrktBeg, .sqrbrktEnd, .orExprOp, .textEnd] among fun u hu => ?_
    rw [if_pos (show u ∈ [Token.occ0mTrailer, .occ1mTrailer, .occ01Trailer] from hu)]
    exact (trailer_gives complete trailer).bind (gives_yield _ _)

theorem occ01Group_gives {e : Expr} (h : Occ01Group Legible x e y) :
    Gives lax ((occ01Group call).read x) e y := by
  obtain ⟨opening, inner, close⟩ := h
  rw [read_occ01Group]
  have fits : Fits .orExpr _ := ⟨.sqrbrktEnd, .inl (by decide), close.start⟩
  exact (complete .sqrbrktBeg _ () _ opening trivial).bind
    ((complete .orExpr _ _ _ inner fits).bind
      ((complete .sqrbrktEnd _ () _ close trivial).bind (gives_yield _ _)))

theorem atom_gives {e : Expr} (h : Atom Legible x e y)
    (fits : Follows (trailers ++ itemStart ++ itemEnd) y) : Gives lax ((atom call).read x) e y := by
  rw [read_atom]
  cases h with
  | pattern literal h =>
    rw [if_pos literal.start]
    refine (complete .regexStr _ _ _ literal trivial).bind ?_
    refine optionalArgs_gives complete h (by decide)
      (.ruleName :: (trailers ++ itemStart ++ itemEnd)) ?_ (by decide) (by decide) (gives_yield _ _)
    rintro rfl
    cases h
    exact fits.starts
  | reference takes unquoted =>
    rw [unquoted, if_neg Bool.false_ne_true, if_pos takes.startsAt]
    exact complete .ruleRef _ _ _ ⟨_, takes, rfl⟩ trivial
  | group h =>
    have unquoted := Token.startsAt_of_lead_ne (u := .regexStr) h.start (by decide)
    have unreferred := Token.startsAt_of_lead_ne (u := .ruleRef) h.start (by decide)
    rw [unquoted, unreferred, if_neg Bool.false_ne_true, if_neg Bool.false_ne_true, if_pos h.start]
    exact complete .group _ _ _ h trivial

theorem group_gives {e : Expr} (h : Group Legible x e y) :
    Gives lax ((group call).read x) e y := by
  obtain ⟨opening, inner, close⟩ := h
  rw [read_group]
  have fits : Fits .orExpr _ := ⟨.brktEnd, .inl (by decide), close.start⟩
  exact (complete .brktBeg _ () _ opening trivial).bind
    ((complete .orExpr _ _ _ inner fits).bind
      ((complete .brktEnd _ () _ close trivial).bind (gives_yield _ _)))

end Body

open Body Phrase Reading

variable {Legible : List Char → Prop} {lax : Prop}
  (legible : ∀ l, Legible l → (Fenced.body? l).isSome ∨ lax)

include legible

theorem body_gives {call : (r : Rule) → Handler r.Output} (complete : Complete Legible lax call)
    {n : Nat} {r : Rule} {x y : List Char} {a : r.Output} (h : Phrase.Of Legible r x a y)
    (fits : Fits r y) : Gives lax ((body call n r).read x).settled a y := by
  cases hr : r.lexical with
  | some lexical =>
    obtain ⟨t, g⟩ := lexical
    rw [read_body_lexical hr, settled_taking_eq_yield.2 ((of_lexical hr).1 h)]
    exact gives_yield a y
  | none =>
    have key : Settled y → Gives lax ((body call n r).read x) a y →
        Gives lax ((body call n r).read x).settled a y := by
      intro hy gives
      rw [← hy.eq]
      exact gives.settled
    cases r <;> try (cases hr; done)
    case all => exact key h.settled (all_gives complete h)
    case argsDef => exact key h.settled (argsDef_gives complete h)
    case argsGroup => exact key h.settled (argsGroup_gives complete h)
    case argItem => exact key h.settled (argItem_gives complete h)
    case argExpr => exact key h.settled (argExpr_gives complete h)
    case argVal => exact key h.settled (complete .litVal _ _ _ h trivial)
    case litVal => exact key h.settled (litVal_gives complete h)
    case ruleSeq =>
      obtain ⟨first, further⟩ := h
      exact key (Token.settled_of_startsAt fits) (ruleSeq_gives complete first further fits)
    case ruleDef => exact key fits.starts.settled (ruleDef_gives complete h fits)
    case orExpr => exact key fits.starts.settled (orExpr_gives complete h fits)
    case seqExpr =>
      obtain ⟨rounds⟩ := h
      obtain ⟨before, w, rest, front, led, rfl⟩ := rounds.led
      exact key fits.starts.settled (sequenceItems_gives complete front led fits)
    case code => exact code_gives legible h
    case occExpr => exact key fits.starts.settled (occExpr_gives complete h fits)
    case occ01Group => exact key h.settled (occ01Group_gives complete h)
    case atom => exact key fits.starts.settled (atom_gives complete h fits)
    case group => exact key h.settled (group_gives complete h)

omit legible in
theorem of_start {r : Rule} {x y : List Char} {a : r.Output} (h : Phrase.Of Legible r x a y) :
    Settled x := by
  cases hr : r.lexical with
  | some lexical =>
    obtain ⟨lexeme, takes, -⟩ := (of_lexical hr).1 h
    exact takes.settled_left
  | none =>
    cases r <;> try (cases hr; done)
    case argsDef | argsGroup | argItem | argExpr | ruleSeq | ruleDef | code | occ01Group | group =>
      exact Token.settled_of_startsAt h.start
    case argVal | litVal => exact (LitVal.start h).settled
    all_goals exact h.start.settled

theorem calls_complete (n : Nat) : Complete Legible lax (calls n) := by
  induction n with
  | zero =>
    intro r x a y _ _
    rw [calls, Handler.read_call]
    exact gives_exhausted a y
  | succ n ih =>
    intro r x a y h fits
    rw [read_calls_succ n r (of_start h)]
    exact body_gives legible ih h fits

end Rule

end GrammarKit
