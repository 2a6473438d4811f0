import GrammarKit.Proofs.Parse
import GrammarKit.Proofs.Printed.Expr

/-!
Printing and parsing. Main statement: the text of a well-formed grammar parses back to that grammar.
-/

namespace GrammarKit

namespace Phrase

section

variable {Legible : List Char → Prop} {r : Definition}

def argsPart (args : Option Args) (blank : Char) : List Char :=
  match args with
  | some args => argsChars args ++ [blank]
  | none => []

theorem optionally_argsPart {args : Option Args} (h : ∀ a ∈ args, a.WellFormed) {blank : Char}
    (hblank : isBlank blank) (rest : List Char) :
    Optionally ArgsDef (settle (argsPart args blank ++ rest)) args (settle rest) := by
  cases args with
  | none => exact .absent
  | some args =>
    have behind := argsDef_chars (h args rfl) (blank :: rest)
    rw [settle_cons_of_blank hblank] at behind
    rw [argsPart, List.append_assoc]
    exact .present behind

theorem chars_append (r : Definition) (rest : List Char) : r.chars ++ rest =
    r.name.toList ++ ':' :: ' ' :: (argsPart r.args ' ' ++ (r.body.chars ++ rest)) := by
  have parts : r.chars = r.name.toList ++ [':', ' '] ++ argsPart r.args ' ' ++ r.body.chars := rfl
  rw [parts, List.append_assoc, List.append_assoc, List.append_assoc]
  rfl

/-- A rule on its line. -/
theorem ruleDef_chars (legible : ∀ text, Legible (fencedChars text)) (h : r.WellFormed)
    (rest : List Char) :
    RuleDef Legible (settle (r.chars ++ '\n' :: rest)) r (settle rest) := by
  have ends : Ends expressionEnd ('\n' :: rest) := ⟨'\n', by decide, rest, rfl⟩
  have body := (printed_of_wellFormed legible h.body).orExpr ends
  rw [settle_line_feed] at body
  have args := optionally_argsPart h.args (by decide : isBlank ' ') (r.body.chars ++ '\n' :: rest)
  rw [← settle_cons_of_blank (by decide : isBlank ' ')] at args
  rw [chars_append]
  exact .intro (name_of_isName h.name rfl) (mark_of_length? rfl) args body

theorem unreferred_chars (h : IsName r.name) (rest : List Char) :
    Token.startsAt (settle (r.chars ++ rest)) .ruleRef = false := by
  rw [chars_append]
  generalize ' ' :: (argsPart r.args ' ' ++ (r.body.chars ++ rest)) = more
  have length : Token.nameLength? (r.name.toList ++ ':' :: more) = _ :=
    Token.nameLength?_append h rfl
  have name : Token.startsAt (r.name.toList ++ ':' :: more) .ruleName :=
    Token.startsAt_of_length? length
  rw [Token.settled_of_startsAt name, ← Bool.not_eq_true, Token.startsAt_ruleRef length,
    List.drop_left]
  exact fun colon => colon rfl

theorem furtherDefs_chars (legible : ∀ text, Legible (fencedChars text)) {rules : List Definition}
    (h : ∀ r ∈ rules, r.WellFormed) :
    FurtherDefs Legible (settle (rules.flatMap fun r => r.chars ++ ['\n'])) rules [] := by
  induction rules with
  | nil => exact .none
  | cons r rules ih =>
    obtain ⟨first, h⟩ := List.forall_mem_cons.1 h
    rw [List.flatMap_cons, List.append_assoc, List.singleton_append]
    exact .more (unreferred_chars first.name _) (ruleDef_chars legible first _) (ih h)

end

end Phrase

/-- The text of a well-formed grammar derives that grammar. -/
theorem derives_text {g : Grammar} (h : g.WellFormed) {Legible : List Char → Prop}
    (legible : ∀ text, Legible (fencedChars text)) : Derives Legible g.text g := by
  obtain ⟨options, rules⟩ := g
  cases rules with
  | nil => exact absurd rfl h.some
  | cons r rules =>
    obtain ⟨first, further⟩ := List.forall_mem_cons.1 h.rules
    have args := Phrase.optionally_argsPart h.options (by decide : isBlank '\n')
      (r.chars ++ '\n' :: rules.flatMap fun r => r.chars ++ ['\n'])
    have seq := Phrase.RuleSeq.intro (Phrase.ruleDef_chars legible first _)
      (Phrase.furtherDefs_chars legible further)
    have whole : (Grammar.text ⟨options, r :: rules⟩).toList = Phrase.argsPart options '\n' ++
        (r.chars ++ '\n' :: rules.flatMap fun r => r.chars ++ ['\n']) := by
      rw [Grammar.text, String.toList_ofList, Grammar.chars, List.flatMap_cons,
        List.append_assoc r.chars]
      rfl
    refine ⟨[], ?_⟩
    rw [whole]
    exact .intro args seq ⟨[], 0, rfl, rfl, rfl⟩

/-- Printing and then parsing is the identity on well-formed grammars. -/
theorem parseGrammar_text {g : Grammar} (h : g.WellFormed) : parseGrammar g.text = .ok (.ok g) := by
  apply parseGrammar_of_derives
  apply derives_text h
  intro text
  rw [body?_fencedChars]
  rfl

theorem parseGrammar_text_quoted :
    let g : Grammar := ⟨some ⟨[("depth", .int 3)], by simp⟩,
      [⟨"item", .sequence [.wrap .zeroOrMore (.choice [.pattern ⟨"it's", none⟩, .reference "r"]),
        .code "x ` y"], none⟩]⟩
    g.WellFormed ∧ parseGrammar g.text = .ok (.ok g) := by
  intro g
  have depth : IsName "depth" :=
    ⟨'d', ['e', 'p', 't', 'h'], by decide, by decide, List.all_eq_true.1 (by decide)⟩
  have item : IsName "item" :=
    ⟨'i', ['t', 'e', 'm'], by decide, by decide, List.all_eq_true.1 (by decide)⟩
  have r : IsName "r" := ⟨'r', [], by decide, by decide, List.forall_mem_nil _⟩
  have choice : Expr.WellFormed (.choice [.pattern ⟨"it's", none⟩, .reference "r"]) := by
    refine .choice (by decide) fun e he => ?_
    simp only [List.mem_cons, List.not_mem_nil, or_false] at he
    rcases he with rfl | rfl
    · exact .pattern (by simp)
    · exact .reference r
  have body : Expr.WellFormed (.sequence [.wrap .zeroOrMore (.choice
      [.pattern ⟨"it's", none⟩, .reference "r"]), .code "x ` y"]) := by
    refine .sequence (by decide) ⟨_, List.mem_cons_self, rfl⟩ (fun e he item => ?_)
      fun text he => ?_
    · simp only [List.mem_cons, List.not_mem_nil, or_false] at he
      rcases he with rfl | rfl
      · exact .wrap rfl choice
      · cases item
    · simp only [List.mem_cons, List.not_mem_nil, or_false, reduceCtorEq, Expr.code.injEq,
        false_or] at he
      subst he
      decide
  have wellFormed : g.WellFormed := by
    refine ⟨fun args hargs e he => ?_, List.cons_ne_nil _ _, fun r hr => ?_⟩
    · cases hargs
      rw [List.mem_singleton.1 he]
      exact ⟨depth, nofun⟩
    · rw [List.mem_singleton.1 hr]
      exact ⟨item, by simp, body⟩
  exact ⟨wellFormed, parseGrammar_text wellFormed⟩

end GrammarKit
