import GrammarKit.Proofs.Occurrence
import GrammarKit.Proofs.Phrase.Start
import GrammarKit.Proofs.Printed.Fence
import GrammarKit.Proofs.Printed.Literal

/-!
Expressions as phrases. Main statement: what a well-formed expression is printed as is a phrase that
builds this expression. Parentheses make an item of anything; without them an expression is a phrase
of its own level only, so the levels are shown together, by induction on the expression.
-/

namespace GrammarKit

namespace Phrase

def expressionEnd : List Char := [' ', ')', '?', '*', '+', '\n']

section

variable {Legible : List Char → Prop} {rest : List Char} {e : Expr}

theorem Ends.not_name (h : Ends expressionEnd rest) : rest.head?.any isNameChar = false := by
  obtain ⟨c, hc, more, rfl⟩ := h
  simp only [expressionEnd, List.mem_cons, List.not_mem_nil, or_false] at hc
  rcases hc with rfl | rfl | rfl | rfl | rfl | rfl
  all_goals rfl

theorem atom_reference {name : String} (hname : IsName name) (h : Ends expressionEnd rest) :
    Atom Legible (settle (name.toList ++ rest)) (.reference name) (settle rest) := by
  have length := Token.nameLength?_append hname h.not_name
  have behind : (name.toList ++ rest).drop name.toList.length = rest := List.drop_left
  obtain ⟨lexeme, takes, trimmed⟩ :=
    Token.takes_ruleRef length (by rw [behind]; exact h.head_ne (by decide))
  rw [behind] at takes
  rw [List.take_left] at trimmed
  have unquoted : Token.startsAt (name.toList ++ rest) .regexStr = false := by
    rw [← Bool.not_eq_true]
    intro hq
    have mark := Token.head_behind_name length hq
    rw [behind] at mark
    exact mark.elim (h.head_ne (by decide)) (h.head_ne (by decide))
  have atom : Atom Legible _ _ _ := .reference takes unquoted
  rw [trimmed, String.ofList_toList] at atom
  rwa [takes.settled_left]

theorem atom_pattern {p : Pattern} (hargs : ∀ args ∈ p.args, args.WellFormed)
    (h : Ends expressionEnd rest) :
    Atom Legible (settle (p.chars ++ rest)) (.pattern p) (settle rest) := by
  obtain ⟨source, args⟩ := p
  rw [Pattern.chars, List.append_assoc]
  cases args with
  | none => exact .pattern (regexStr_quote source (h.head_ne (by decide))) .absent
  | some args =>
    refine .pattern (regexStr_quote source (fun mark => nomatch mark)) (.present ?_)
    rw [List.cons_append, settle_cons_of_blank (by decide)]
    exact argsDef_chars (hargs args rfl) rest

/-- Parentheses make an item of an expression. -/
theorem atom_parenthesized {cs : List Char}
    (h : OrExpr Legible (settle (cs ++ ')' :: rest)) e (settle (')' :: rest))) :
    Atom Legible (settle (Expr.parenthesized cs ++ rest)) e (settle rest) := by
  have whole : Expr.parenthesized cs ++ rest = '(' :: (cs ++ ')' :: rest) := by
    simp [Expr.parenthesized]
  rw [whole]
  exact .group (.intro (mark_of_length? rfl) h (mark_of_length? rfl))

theorem code_fencedChars (legible : ∀ text, Legible (fencedChars text)) {text : String}
    (trimmed : trim text.toList = text.toList) :
    Code Legible (settle (fencedChars text.toList ++ rest)) (.code text) (settle rest) := by
  have length := length?_fencedChars text.toList rest
  have code := Code.intro (Token.takes_of_length? length) (legible text.toList)
  rwa [block, body?_fencedChars, Option.getD_some, ofCode_spaced.2 trimmed] at code

end

/-- An expression as printed, as a phrase of every level that it stands for without parentheses. -/
structure Printed (Legible : List Char → Prop) (e : Expr) : Prop where
  orExpr : ∀ {rest}, Ends expressionEnd rest →
    OrExpr Legible (settle (e.chars ++ rest)) e (settle rest)
  seqExpr : e.isChoice = false → ∀ {rest}, Ends expressionEnd rest →
    SeqExpr Legible (settle (e.chars ++ rest)) e (settle rest)
  occExpr : e.isComposite = false → ∀ {rest}, Ends expressionEnd rest →
    OccExpr Legible (settle (e.chars ++ rest)) e (settle rest)
  atom : e.isPlainLeaf = true → ∀ {rest}, Ends expressionEnd rest →
    Atom Legible (settle (e.chars ++ rest)) e (settle rest)

section

variable {Legible : List Char → Prop} {x y rest : List Char} {e : Expr}

theorem OccExpr.alone (h : OccExpr Legible x e y) : SeqExpr Legible x e y :=
  SeqExpr.intro (.last .none h .none)

theorem SeqExpr.alone (h : SeqExpr Legible x e y) : OrExpr Legible x e y :=
  OrExpr.intro (.last h)

theorem Atom.alone (h : Atom Legible x e y) : OccExpr Legible x e y := .plain (.atom h)

namespace Printed

theorem of_atom (h : ∀ {rest}, Ends expressionEnd rest →
    Atom Legible (settle (e.chars ++ rest)) e (settle rest)) : Printed Legible e where
  orExpr ends := (h ends).alone.alone.alone
  seqExpr _ _ ends := (h ends).alone.alone
  occExpr _ _ ends := (h ends).alone
  atom _ _ ends := h ends

theorem of_occExpr (leaf : e.isPlainLeaf = false) (h : ∀ {rest}, Ends expressionEnd rest →
    OccExpr Legible (settle (e.chars ++ rest)) e (settle rest)) : Printed Legible e where
  orExpr ends := (h ends).alone.alone
  seqExpr _ _ ends := (h ends).alone
  occExpr _ _ ends := h ends
  atom plain := absurd plain (by rw [leaf]; exact Bool.false_ne_true)

theorem parenthesized (h : Printed Legible e) (rest : List Char) :
    Atom Legible (settle (Expr.parenthesized e.chars ++ rest)) e (settle rest) :=
  atom_parenthesized (h.orExpr ⟨')', by decide, rest, rfl⟩)

theorem step (h : Printed Legible e) (ends : Ends expressionEnd rest) :
    OccExpr Legible
      (settle ((if e.isComposite then Expr.parenthesized e.chars else e.chars) ++ rest)) e
      (settle rest) := by
  by_cases composite : e.isComposite
  · rw [if_pos composite]
    exact (h.parenthesized rest).alone
  · rw [if_neg composite]
    exact h.occExpr (by simpa using composite) ends

theorem alternative (h : Printed Legible e) (ends : Ends expressionEnd rest) :
    SeqExpr Legible (settle ((if e.isChoice then Expr.parenthesized e.chars else e.chars) ++ rest))
      e (settle rest) := by
  by_cases choice : e.isChoice
  · rw [if_pos choice]
    exact (h.parenthesized rest).alone.alone
  · rw [if_neg choice]
    exact h.seqExpr (by simpa using choice) ends

theorem marked (h : Printed Legible e) (ends : Ends expressionEnd rest) :
    Atom Legible (settle ((if e.isPlainLeaf then e.chars else Expr.parenthesized e.chars) ++ rest))
      e (settle rest) := by
  by_cases leaf : e.isPlainLeaf
  · rw [if_pos leaf]
    exact h.atom leaf ends
  · rw [if_neg leaf]
    exact h.parenthesized rest

end Printed

theorem occExpr_wrap (single : e.occurrence? = none) (h : Printed Legible e) (o : Occurrence) :
    OccExpr Legible (settle ((Expr.wrap o e).chars ++ rest)) (.wrap o e) (settle rest) := by
  have ends : Ends expressionEnd (o.suffix :: rest) :=
    ⟨o.suffix, by cases o <;> decide, rest, rfl⟩
  have trailer : Mark o.token (settle (o.suffix :: rest)) (settle rest) :=
    mark_of_length? (by cases o <;> rfl)
  have occ := OccExpr.marked (.atom (h.marked ends)) o trailer
  rw [Expr.occur_of_single single] at occ
  rw [Expr.chars, List.append_assoc]
  exact occ

theorem joinWith_cons (sep piece : List Char) (pieces : List (List Char)) :
    joinWith sep (piece :: pieces) = piece ++ pieces.flatMap (sep ++ ·) := by
  induction pieces generalizing piece with
  | nil => simp [joinWith]
  | cons next pieces ih =>
    rw [joinWith_cons_cons, ih, List.flatMap_cons, List.append_assoc, List.append_assoc]

theorem Rounds.cons_code {c : Expr} {items : List Expr} {z : List Char} (h : Code Legible x c y)
    (rounds : Rounds Legible y items z) : Rounds Legible x (c :: items) z := by
  cases rounds with
  | last front item back => exact .last (.more h front) item back
  | more front item back rest => exact .more (.more h front) item back rest

section

variable {items : List Expr} (legible : ∀ text, Legible (fencedChars text))
  (trimmed : ∀ text, .code text ∈ items → trim text.toList = text.toList)

def stepsBehind (items : List Expr) (rest : List Char) : List Char :=
  (Expr.steps items).flatMap ([' '] ++ ·) ++ rest

theorem stepsBehind_cons (e : Expr) (items : List Expr) (rest : List Char) :
    stepsBehind (e :: items) rest =
      ' ' :: ((if e.isComposite then Expr.parenthesized e.chars else e.chars) ++
        stepsBehind items rest) := by
  simp [stepsBehind, Expr.steps]

theorem ends_stepsBehind (items : List Expr) (ends : Ends expressionEnd rest) :
    Ends expressionEnd (stepsBehind items rest) := by
  cases items with
  | nil => exact ends
  | cons e items =>
    rw [stepsBehind_cons]
    exact ⟨' ', by decide, _, rfl⟩

include legible trimmed

theorem code_step {c : Expr} (code : c.isCode = true) (mem : c ∈ items) (rest : List Char) :
    Code Legible (settle ((if c.isComposite then Expr.parenthesized c.chars else c.chars) ++ rest))
      c (settle rest) := by
  cases c with
  | code text => exact code_fencedChars legible (trimmed text mem)
  | _ => cases code

theorem codeBlocks_steps (codes : ∀ e ∈ items, e.isCode = true) :
    CodeBlocks Legible (settle (stepsBehind items rest)) items (settle rest) := by
  induction items with
  | nil => exact .none
  | cons c items ih =>
    obtain ⟨code, codes⟩ := List.forall_mem_cons.1 codes
    rw [stepsBehind_cons, settle_cons_of_blank (by decide)]
    refine .more (code_step legible trimmed code List.mem_cons_self _) (ih ?_ codes)
    exact fun text mem => trimmed text (List.mem_cons_of_mem _ mem)

/-- Every item that is no code begins a round, and takes the blocks of code behind it if nothing
else follows. -/
theorem rounds_steps (some : ∃ e ∈ items, e.isCode = false)
    (each : ∀ e ∈ items, e.isCode = false → Printed Legible e) (ends : Ends expressionEnd rest) :
    Rounds Legible (settle (stepsBehind items rest)) items (settle rest) := by
  induction items with
  | nil =>
    obtain ⟨e, mem, -⟩ := some
    cases mem
  | cons e items ih =>
    have trimmed' : ∀ text, .code text ∈ items → trim text.toList = text.toList :=
      fun text mem => trimmed text (List.mem_cons_of_mem _ mem)
    have each' : ∀ e ∈ items, e.isCode = false → Printed Legible e :=
      fun e mem => each e (List.mem_cons_of_mem _ mem)
    rw [stepsBehind_cons, settle_cons_of_blank (by decide)]
    cases code : e.isCode with
    | true =>
      refine .cons_code (code_step legible trimmed code List.mem_cons_self _) (ih trimmed' ?_ each')
      obtain ⟨e', mem, item⟩ := some
      rcases List.mem_cons.1 mem with rfl | mem
      · rw [code] at item
        cases item
      · exact ⟨e', mem, item⟩
    | false =>
      have item := (each e List.mem_cons_self code).step (ends_stepsBehind items ends)
      by_cases more : ∃ e ∈ items, e.isCode = false
      · exact .more .none item .none (ih trimmed' more each')
      · refine .last .none item (codeBlocks_steps legible trimmed' ?_)
        intro c mem
        rw [← Bool.not_eq_false]
        exact fun item => more ⟨c, mem, item⟩

theorem seqExpr_sequence (several : 2 ≤ items.length) (some : ∃ e ∈ items, e.isCode = false)
    (each : ∀ e ∈ items, e.isCode = false → Printed Legible e) (ends : Ends expressionEnd rest) :
    SeqExpr Legible (settle ((Expr.sequence items).chars ++ rest)) (.sequence items)
      (settle rest) := by
  have rounds := SeqExpr.intro (rounds_steps legible trimmed some each ends)
  match items with
  | e :: e' :: items =>
    rw [stepsBehind_cons, settle_cons_of_blank (by decide)] at rounds
    rw [Expr.chars, Expr.steps, joinWith_cons, List.append_assoc]
    exact rounds

end

theorem alternatives_chars {items : List Expr} (some : items ≠ [])
    (each : ∀ e ∈ items, Printed Legible e) (ends : Ends expressionEnd rest) :
    Alternatives Legible (settle (joinWith [' ', '|', ' '] (Expr.alternatives items) ++ rest)) items
      (settle rest) := by
  induction items with
  | nil => exact absurd rfl some
  | cons e items ih =>
    obtain ⟨first, each⟩ := List.forall_mem_cons.1 each
    cases items with
    | nil =>
      exact .last (first.alternative ends)
    | cons e' items =>
      have alternatives := ih (List.cons_ne_nil _ _) each
      rw [Expr.alternatives, Expr.alternatives, joinWith_cons_cons, List.append_assoc,
        List.append_assoc, ← Expr.alternatives]
      generalize joinWith [' ', '|', ' '] (Expr.alternatives (e' :: items)) ++ rest = tail at *
      have blank : Ends expressionEnd (' ' :: '|' :: ' ' :: tail) := ⟨' ', by decide, _, rfl⟩
      have seq := first.alternative blank
      rw [settle_cons_of_blank (by decide) ('|' :: ' ' :: tail)] at seq
      refine .more seq (mark_of_length? rfl) ?_
      rwa [settle_cons_of_blank (by decide) tail]

theorem orExpr_choice {items : List Expr} (several : 2 ≤ items.length)
    (each : ∀ e ∈ items, Printed Legible e) (ends : Ends expressionEnd rest) :
    OrExpr Legible (settle ((Expr.choice items).chars ++ rest)) (.choice items) (settle rest) := by
  match items with
  | e :: e' :: items =>
    rw [Expr.chars]
    exact OrExpr.intro (alternatives_chars (List.cons_ne_nil _ _) each ends)

/-- What a well-formed expression is printed as is a phrase that builds it. -/
theorem printed_of_wellFormed (legible : ∀ text, Legible (fencedChars text)) (h : e.WellFormed) :
    Printed Legible e := by
  induction h with
  | choice several _ ih =>
    constructor
    · exact orExpr_choice several ih
    · intro choice
      cases choice
    · intro composite
      cases composite
    · intro leaf
      cases leaf
  | sequence several some _ trimmed ih =>
    constructor
    · exact fun ends => (seqExpr_sequence legible trimmed several some ih ends).alone
    · exact fun _ _ ends => seqExpr_sequence legible trimmed several some ih ends
    · intro composite
      cases composite
    · intro leaf
      cases leaf
  | wrap single _ ih => exact .of_occExpr rfl fun ends => occExpr_wrap single ih _
  | pattern h => exact .of_atom fun ends => atom_pattern h ends
  | reference h =>
    refine .of_atom fun ends => ?_
    rw [Expr.chars]
    exact atom_reference h ends

end

end Phrase

end GrammarKit
