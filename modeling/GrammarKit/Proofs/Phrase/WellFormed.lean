import GrammarKit.Proofs.Occurrence
import GrammarKit.Proofs.Parse
import GrammarKit.Proofs.Text.Blank

/-!
What phrases build is well formed. The terminals see to names, literals and blanks; a choice or a
sequence of one item is that item; and a round of a sequence has an item beside its blocks of code.
Main statement: whatever the parser returns is a well-formed grammar.
-/

namespace GrammarKit

namespace Token

theorem isName_take {x : List Char} {m : Nat} (h : nameLength? x = some m) :
    IsName (String.ofList (x.take m)) := by
  obtain ⟨c, rest, rfl, hc, rfl⟩ := nameLength?_eq_some.1 h
  refine ⟨c, rest.takeWhile isNameChar, ?_, hc, fun d hd => List.mem_takeWhile_imp hd⟩
  rw [String.toList_ofList, List.take_succ_cons,
    ← List.prefix_iff_eq_take.1 (List.takeWhile_prefix isNameChar)]

end Token

theorem Binary64.nearest_ne_nan (d : Decimal) : nearest d ≠ .nan := by
  have parts : ∀ negative significand exponent, ofParts negative significand exponent ≠ .nan := by
    intro negative significand exponent
    unfold ofParts
    split <;> nofun
  have units : ∀ negative units den, ofUnits negative units den ≠ .nan := by
    intro negative units den
    unfold ofUnits
    dsimp only
    split <;> exact parts _ _ _
  unfold nearest
  dsimp only
  split
  · nofun
  · split
    · nofun
    · split
      · nofun
      · split <;> exact units _ _ _

/-- A numeral stands for a number. -/
theorem Value.ofNumber?_ne_nan {cs : List Char} {n : Nat} (h : Token.litNum.length? cs = some n)
    {v : Value} (hv : Value.ofNumber? (cs.take n) = some v) : v ≠ .float .nan := by
  obtain ⟨d, hd⟩ := Decimal.exists_ofChars? (numberLength?_lexeme h)
  have float : Binary64.ofChars? (cs.take n) = some (Binary64.nearest d) := by
    rw [Binary64.ofChars?, hd]
  rw [Value.ofNumber?, float] at hv
  split at hv
  · split at hv
    · cases hv
      exact Value.noConfusion
    · cases hv
      exact fun e => Binary64.nearest_ne_nan d (Value.float.inj e)
  · cases hv
    exact fun e => Binary64.nearest_ne_nan d (Value.float.inj e)

namespace Phrase

variable {x y : List Char}

theorem Name.isName {name : String} (h : Name x name y) : IsName name := by
  obtain ⟨n, hn, rfl, -⟩ := h
  exact Token.isName_take hn

theorem LitVal.ne_nan {v : Value} (h : LitVal x v y) : v ≠ .float .nan := by
  cases h with
  | str h => nofun
  | num h =>
    obtain ⟨⟨n, hn, rfl, -⟩, decoded⟩ := h
    exact Value.ofNumber?_ne_nan hn decoded
  | bool h =>
    cases h
    nofun
  | none h => nofun

theorem ArgItem.wellFormed {pairs : List (String × Value)} (h : ArgItem x pairs y) :
    ∀ e ∈ pairs, IsName e.1 ∧ e.2 ≠ .float .nan := by
  have one : ∀ {x pair y}, ArgExpr x pair y → IsName pair.1 ∧ pair.2 ≠ .float .nan := by
    rintro _ _ _ ⟨key, -, value⟩
    exact ⟨key.isName, value.ne_nan⟩
  induction h with
  | last h => exact List.forall_mem_singleton.2 (one h)
  | lastComma h => exact List.forall_mem_singleton.2 (one h)
  | more h _ _ ih => exact List.forall_mem_cons.2 ⟨one h, ih⟩

theorem ArgsGroup.wellFormed {pairs : List (String × Value)} (h : ArgsGroup x pairs y) :
    ∀ e ∈ pairs, IsName e.1 ∧ e.2 ≠ .float .nan := by
  cases h with
  | empty => exact List.forall_mem_nil _
  | items _ items => exact items.wellFormed

theorem ArgsDef.wellFormed {args : Args} (h : ArgsDef x args y) : args.WellFormed := by
  obtain ⟨-, group, values⟩ := h
  intro e he
  have found := (SortedMap.find?_eq_some args.increasing).2 he
  have last := (values e.1).symm.trans found
  obtain ⟨e', hfind, hvalue⟩ := Option.map_eq_some_iff.1 last
  have key : e'.1 = e.1 := by simpa using List.find?_some hfind
  have written := group.wellFormed e' (List.mem_reverse.1 (List.mem_of_find?_eq_some hfind))
  rwa [key, hvalue] at written

theorem Optionally.wellFormed {args : Option Args} (h : Optionally ArgsDef x args y) :
    ∀ a ∈ args, a.WellFormed := by
  cases h with
  | absent => exact fun a ha => absurd ha (by simp)
  | present h =>
    rintro a ⟨⟩
    exact h.wellFormed

theorem reference_isName {lexeme : List Char} (h : Token.ruleRef.Takes x lexeme y) :
    IsName (String.ofList (trimEnd lexeme)) := by
  obtain ⟨m, hm, -, -, name⟩ := h.reference
  rw [name]
  exact Token.isName_take hm

variable {Legible : List Char → Prop}

theorem Code.trimmed {e : Expr} (h : Code Legible x e y) :
    ∃ text, e = .code text ∧ trim text.toList = text.toList := by
  obtain ⟨-, -⟩ := h
  refine ⟨_, rfl, ?_⟩
  rw [String.toList_ofList, trim_trim]

theorem CodeBlocks.trimmed {es : List Expr} (h : CodeBlocks Legible x es y) :
    ∀ e ∈ es, ∃ text, e = .code text ∧ trim text.toList = text.toList := by
  induction h with
  | none => exact List.forall_mem_nil _
  | more first _ ih => exact List.forall_mem_cons.2 ⟨first.trimmed, ih⟩

structure Sequential (items : List Expr) : Prop where
  some : ∃ e ∈ items, e.isCode = false
  each : ∀ e ∈ items, e.isCode = false → e.WellFormed
  trimmed : ∀ text, .code text ∈ items → trim text.toList = text.toList

/-- A round: an item between blocks of code. -/
theorem sequential_round {before after : List Expr} {e : Expr} {x₁ y₁ x₂ y₂ : List Char}
    (front : CodeBlocks Legible x₁ before y₁) (item : e.WellFormed)
    (back : CodeBlocks Legible x₂ after y₂) : Sequential (before ++ e :: after) := by
  have blocks : ∀ d ∈ before ++ e :: after, d = e ∨
      ∃ text, d = .code text ∧ trim text.toList = text.toList := by
    intro d hd
    rcases List.mem_append.1 hd with hd | hd
    · exact .inr (front.trimmed d hd)
    · rcases List.mem_cons.1 hd with rfl | hd
      · exact .inl rfl
      · exact .inr (back.trimmed d hd)
  refine ⟨⟨e, by simp, item.isCode⟩, fun d hd plain => ?_, fun text hd => ?_⟩
  · rcases blocks d hd with rfl | ⟨text, rfl, -⟩
    · exact item
    · cases plain
  · rcases blocks _ hd with rfl | ⟨text', same, trimmed⟩
    · cases item
    · cases same
      exact trimmed

theorem Sequential.append {items more : List Expr} (h : Sequential items) (k : Sequential more) :
    Sequential (items ++ more) := by
  obtain ⟨e, he, plain⟩ := h.some
  refine ⟨⟨e, List.mem_append_left _ he, plain⟩, fun d hd => ?_, fun text hd => ?_⟩
  · exact (List.mem_append.1 hd).elim (h.each d) (k.each d)
  · exact (List.mem_append.1 hd).elim (h.trimmed text) (k.trimmed text)

theorem Sequential.ofSequence {items : List Expr} (h : Sequential items) :
    (Expr.ofSequence items).WellFormed := by
  obtain ⟨e, he, plain⟩ := h.some
  match items with
  | [] => cases he
  | [item] =>
    rw [List.mem_singleton.1 he] at plain
    exact h.each item List.mem_cons_self plain
  | a :: b :: items => exact .sequence (by simp) h.some h.each h.trimmed

theorem wellFormed_ofChoice {items : List Expr} (some : items ≠ [])
    (each : ∀ e ∈ items, e.WellFormed) : (Expr.ofChoice items).WellFormed := by
  match items with
  | [] => exact absurd rfl some
  | [item] => exact each item List.mem_cons_self
  | a :: b :: items => exact .choice (by simp) each

theorem Alternatives.ne_nil {es : List Expr} (h : Alternatives Legible x es y) : es ≠ [] := by
  cases h <;> exact List.cons_ne_nil _ _

mutual

theorem OrExpr.wellFormed {x e y} : OrExpr Legible x e y → e.WellFormed
  | .intro all => wellFormed_ofChoice (Alternatives.ne_nil all) (Alternatives.wellFormed all)

theorem Alternatives.wellFormed {x es y} :
    Alternatives Legible x es y → ∀ e ∈ es, e.WellFormed
  | .last h => List.forall_mem_singleton.2 (SeqExpr.wellFormed h)
  | .more first _ rest =>
    List.forall_mem_cons.2 ⟨SeqExpr.wellFormed first, Alternatives.wellFormed rest⟩

theorem SeqExpr.wellFormed {x e y} : SeqExpr Legible x e y → e.WellFormed
  | .intro rounds => (Rounds.sequential rounds).ofSequence

theorem Rounds.sequential {x es y} : Rounds Legible x es y → Sequential es
  | .last front item back => sequential_round front (OccExpr.wellFormed item) back
  | .more front item back rest => by
    have round := sequential_round front (OccExpr.wellFormed item) back
    rw [← List.cons_append, ← List.append_assoc]
    exact round.append (Rounds.sequential rest)

theorem OccExpr.wellFormed {x e y} : OccExpr Legible x e y → e.WellFormed
  | .plain item => Item.wellFormed item
  | .marked item o _ => (Item.wellFormed item).occur o

theorem Item.wellFormed {x e y} : Item Legible x e y → e.WellFormed
  | .brackets h => Occ01Group.wellFormed h
  | .atom h => Atom.wellFormed h

theorem Occ01Group.wellFormed {x e y} : Occ01Group Legible x e y → e.WellFormed
  | .intro _ inner _ => (OrExpr.wellFormed inner).occur .zeroOrOne

theorem Atom.wellFormed {x e y} : Atom Legible x e y → e.WellFormed
  | .pattern _ args => .pattern args.wellFormed
  | .reference h _ => .reference (reference_isName h)
  | .group h => Group.wellFormed h

theorem Group.wellFormed {x e y} : Group Legible x e y → e.WellFormed
  | .intro _ inner _ => OrExpr.wellFormed inner

end

theorem RuleDef.wellFormed {d : Definition} (h : RuleDef Legible x d y) : d.WellFormed := by
  obtain ⟨name, -, args, expr⟩ := h
  exact ⟨name.isName, args.wellFormed, expr.wellFormed⟩

theorem FurtherDefs.wellFormed {ds : List Definition} (h : FurtherDefs Legible x ds y) :
    ∀ d ∈ ds, d.WellFormed := by
  induction h with
  | none => exact List.forall_mem_nil _
  | more _ first _ ih => exact List.forall_mem_cons.2 ⟨first.wellFormed, ih⟩

theorem All.wellFormed {g : Grammar} (h : All Legible x g y) : g.WellFormed := by
  obtain ⟨options, ⟨first, rest⟩, -⟩ := h
  exact ⟨options.wellFormed, List.cons_ne_nil _ _,
    List.forall_mem_cons.2 ⟨first.wellFormed, rest.wellFormed⟩⟩

end Phrase

/-- Whatever is parsed is well formed. -/
theorem parseGrammar_wellFormed {text : String} {g : Grammar}
    (h : parseGrammar text = .ok (.ok g)) : g.WellFormed := by
  obtain ⟨y, hread⟩ := parseGrammar_eq_ok.1 h
  have found := Rule.calls_sound (fun _ _ _ => trivial) _ .all _ g y (settled_settle _) hread
  have all : Phrase.All (fun _ => True) (settle text.toList) g y := found.phrase
  exact all.wellFormed

/-- Groups that wrap what is wrapped already, and a block of code in a group of one. -/
theorem parseGrammar_wellFormed_nested :
    parseGrammar "a: [[b?]+]* ((`c` d))" = .ok (.ok ⟨none, [⟨"a", .sequence
      [.wrap .zeroOrMore (.reference "b"), .sequence [.code "c", .reference "d"]], none⟩]⟩) ∧
    Grammar.WellFormed ⟨none, [⟨"a", .sequence
      [.wrap .zeroOrMore (.reference "b"), .sequence [.code "c", .reference "d"]], none⟩]⟩ :=
  ⟨by rfl, parseGrammar_wellFormed (show parseGrammar "a: [[b?]+]* ((`c` d))" = _ by rfl)⟩

end GrammarKit
