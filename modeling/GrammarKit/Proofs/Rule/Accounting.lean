import GrammarKit.Proofs.Handler.Accounting
import GrammarKit.Proofs.Rule.Careful
import GrammarKit.Proofs.Rule.Reading

/-!
All rules account for what they look for, but where a bracket has to be closed and where a further
rule has to begin: there the failure names these alone, though the tokens that could have gone on
with the expression in front have been looked for as well.
-/

namespace GrammarKit

namespace Rule

/-- Failures that need not name all that was looked for. -/
def closings : List (List Token) := [[.brktEnd], [.sqrbrktEnd], [.ruleName, .textEnd]]

def exprEnd : List Token := [.ruleName, .brktEnd, .sqrbrktEnd, .textEnd]

def seqEnd : List Token := .orExprOp :: exprEnd

def itemEnd : List Token := Body.itemStart ++ seqEnd

/-- Where a rule is called, one of these may have been found already. -/
def foundBefore : Rule → List Token
  | .argsDef | .argsSign => [.argsSign]
  | .brktEnd | .sqrbrktEnd => exprEnd
  | .group | .brktBeg | .argsGroup => [.brktBeg]
  | .argItem | .argExpr | .argKey | .ruleSeq | .ruleDef | .ruleName => [.ruleName]
  | .litStr | .regexStr => [.regexStr]
  | .litNum => [.litNum]
  | .litBool => [.litBool]
  | .litNone => [.litNone]
  | .argSep => [.argSep]
  | .orExpr | .seqExpr => Body.itemStart
  | .orExprOp => [.orExprOp]
  | .code => [.code]
  | .occExpr => [.ruleRef, .regexStr, .brktBeg, .sqrbrktBeg]
  | .occ01Group | .sqrbrktBeg => [.sqrbrktBeg]
  | .occ01Trailer => [.occ01Trailer]
  | .occ0mTrailer => [.occ0mTrailer]
  | .occ1mTrailer => [.occ1mTrailer]
  | .atom => [.ruleRef, .regexStr, .brktBeg]
  | .ruleRef => [.ruleRef]
  | .textEnd => [.textEnd]
  | .all | .argKvsep | .argVal | .litVal | .ruleColon => []

def foundBehind : Rule → List Token
  | .all | .textEnd | .ruleSeq => [.textEnd]
  | .ruleDef | .orExpr => exprEnd
  | .seqExpr => seqEnd
  | .occExpr => itemEnd
  | .atom => [.occ0mTrailer, .occ1mTrailer, .occ01Trailer] ++ itemEnd
  | _ => []

open Handler Body

theorem lexical_covers {r : Rule} {t : Token} {g : List Char → r.Output}
    (h : r.lexical = some (t, g)) :
    (r.foundBefore ⊆ [t] ∨ [t] ∈ closings) ∧
      (if t = .textEnd then [Token.textEnd] else []) = r.foundBehind := by
  cases r <;> cases h <;> decide

theorem exists_consume {r : Rule} {t : Token} {g : List Char → r.Output}
    (h : r.lexical = some (t, g)) (call : (r : Rule) → Handler r.Output) (n : Nat) :
    ∃ k, body call n r = consume t k := by
  cases r <;> cases h <;> exact ⟨_, rfl⟩

namespace Body

section

variable {h : (r : Rule) → Handler r.Output}
  (accounts : ∀ r, (call r (h r)).Accounts closings [] r.foundBefore r.foundBehind)

include accounts

theorem accounts_call_bind {β : Type} (r : Rule) {next more : List Token}
    {f : r.Output → Handler β} (sub : next ⊆ r.foundBefore)
    (hf : ∀ a, (f a).Accounts closings [] r.foundBehind more) :
    ((call r (h r)).bind f).Accounts closings [] next more :=
  ((accounts r).weaken sub).bind _ hf

theorem accounts_optionalArgs_bind {β : Type} {candidates : List Token} (rest : List Token)
    {next more : List Token} {f : Option Args → Handler β}
    (covers : next ⊆ candidates ∨ candidates ∈ closings)
    (rests : ∀ t ∈ candidates, t ≠ .argsSign → t ∈ rest)
    (hf : ∀ args, (f args).Accounts closings [] rest more) :
    ((expect candidates).bind fun t =>
      if t = .argsSign then ((call .argsDef (h .argsDef)).bind fun a => done (some a)).bind f
      else (done none).bind f).Accounts closings [] next more := by
  refine .expect covers fun t ht => .ite (fun sign => ?_) fun other => ?_
  · subst sign
    rw [Handler.bind_assoc]
    refine accounts_call_bind accounts .argsDef (by decide) fun a => ?_
    exact (hf (some a)).weaken (List.nil_subset _)
  · exact .bind _ (.done_of_mem none (rests t ht other)) hf

theorem accounts_all : (all fun r => call r (h r)).Accounts closings [] [] [.textEnd] := by
  refine accounts_optionalArgs_bind accounts [.ruleName] ?_ ?_ fun options => ?_
  · decide
  · decide
  refine accounts_call_bind accounts .ruleSeq (by decide) fun rules => ?_
  exact accounts_call_bind accounts .textEnd (by decide) fun _ => .done _ (by decide)

theorem accounts_argsDef :
    (argsDef fun r => call r (h r)).Accounts closings [] [.argsSign] [] := by
  refine accounts_call_bind accounts .argsSign (by decide) fun _ => ?_
  exact accounts_call_bind accounts .argsGroup (by decide) fun pairs => .done _ (by decide)

theorem accounts_argsGroup :
    (argsGroup fun r => call r (h r)).Accounts closings [] [.brktBeg] [] := by
  refine accounts_call_bind accounts .brktBeg (by decide) fun _ => ?_
  refine .look [] (by decide) ?_ (.lookBranch [] (by decide) (accounts .argItem) .refuse)
  exact accounts_call_bind accounts .brktEnd (by decide) fun _ => .done _ (by decide)

theorem accounts_argItem :
    (argItem fun r => call r (h r)).Accounts closings [] [.ruleName] [] := by
  have close (pairs : List (String × Value)) :
      ((call .brktEnd (h .brktEnd)).bind fun _ => done pairs).Accounts closings [] [.brktEnd] [] :=
    accounts_call_bind accounts .brktEnd (by decide) fun _ => .done _ (by decide)
  refine accounts_call_bind accounts .argExpr (by decide) fun pair => ?_
  refine .look [] (by decide) (close [pair]) (.lookBranch [] (by decide) ?_ .refuse)
  refine accounts_call_bind accounts .argSep (by decide) fun _ => ?_
  refine .look [] (by decide) (close [pair]) (.lookBranch [] (by decide) ?_ .refuse)
  exact accounts_call_bind accounts .argItem (by decide) fun pairs => .done _ (by decide)

theorem accounts_argExpr :
    (argExpr fun r => call r (h r)).Accounts closings [] [.ruleName] [] := by
  refine accounts_call_bind accounts .argKey (by decide) fun key => ?_
  refine accounts_call_bind accounts .argKvsep (by decide) fun _ => ?_
  exact accounts_call_bind accounts .argVal (by decide) fun value => .done _ (by decide)

theorem accounts_litVal : (litVal fun r => call r (h r)).Accounts closings [] [] [] := by
  refine .look [] (by decide) (accounts .litStr) ?_
  refine .lookBranch [] (by decide) (accounts .litNum) ?_
  refine .lookBranch [] (by decide) (accounts .litBool) ?_
  exact .lookBranch [] (by decide) (accounts .litNone) .refuse

theorem accounts_ruleSeq (n : Nat) (rules : List Definition) :
    (ruleSeq (fun r => call r (h r)) n rules).Accounts closings [] [.ruleName] [.textEnd] := by
  induction n generalizing rules with
  | zero => exact .abort _
  | succ n ih =>
    refine accounts_call_bind accounts .ruleDef (by decide) fun rule => ?_
    refine .expect (by decide) fun t ht => .ite (fun name => ?_) fun other => .done_of_mem _ ?_
    · subst name
      exact ih _
    · revert t
      decide

theorem accounts_ruleDef :
    (ruleDef fun r => call r (h r)).Accounts closings [] [.ruleName] exprEnd := by
  refine accounts_call_bind accounts .ruleName (by decide) fun name => ?_
  refine accounts_call_bind accounts .ruleColon (by decide) fun _ => ?_
  refine accounts_optionalArgs_bind accounts itemStart ?_ ?_ fun args => ?_
  · decide
  · decide
  exact accounts_call_bind accounts .orExpr (by decide) fun body => .done _ (by decide)

theorem accounts_alternatives (n : Nat) (items : List Expr) :
    (alternatives (fun r => call r (h r)) n items).Accounts closings [] seqEnd exprEnd := by
  induction n generalizing items with
  | zero => exact .abort _
  | succ n ih =>
    refine .expect (by decide) fun t ht => .ite (fun op => ?_) fun other => .done_of_mem _ ?_
    · subst op
      refine accounts_call_bind accounts .orExprOp (by decide) fun _ => ?_
      exact accounts_call_bind accounts .seqExpr (by decide) fun item => ih _
    · revert t
      decide

theorem accounts_orExpr (n : Nat) :
    (orExpr (fun r => call r (h r)) n).Accounts closings [] itemStart exprEnd :=
  accounts_call_bind accounts .seqExpr (by decide) fun item => accounts_alternatives accounts n [item]

theorem accounts_codeBlocks {follow next : List Token} (rest : List Token) (covers : next ⊆ follow)
    (rests : ∀ t ∈ follow, t ≠ .code → t ∈ rest) (n : Nat) (items : List Expr) :
    (codeBlocks (fun r => call r (h r)) follow n items).Accounts closings [] next rest := by
  induction n generalizing items with
  | zero => exact .abort _
  | succ n ih =>
    refine .expect (.inl covers) fun t ht => .ite (fun code => ?_) fun other => .done_of_mem _ ?_
    · subst code
      refine accounts_call_bind accounts .code (by decide) fun block => ?_
      exact (ih _).weaken (List.nil_subset _)
    · exact rests t ht other

theorem accounts_sequenceItems (n : Nat) (items : List Expr) :
    (sequenceItems (fun r => call r (h r)) n items).Accounts closings [] itemStart seqEnd := by
  induction n generalizing items with
  | zero => exact .abort _
  | succ n ih =>
    have before : ∀ t ∈ itemStart, t ≠ .code → t ∈ foundBefore .occExpr := by decide
    refine .bind _ (accounts_codeBlocks accounts _ (List.Subset.refl _) before n items) fun items => ?_
    refine accounts_call_bind accounts .occExpr (List.Subset.refl _) fun item => ?_
    refine .bind (foundBefore .occExpr ++ seqEnd)
      (accounts_codeBlocks accounts _ (by decide) (by decide) n _) fun items => ?_
    refine .expect (by decide) fun t ht => .ite (fun starts => ?_) fun other => .done_of_mem _ ?_
    · exact (ih _).weaken (List.cons_subset.2 ⟨starts, List.nil_subset _⟩)
    · revert t
      decide

theorem accounts_trailer :
    (trailer fun r => call r (h r)).Accounts closings []
      [.occ0mTrailer, .occ1mTrailer, .occ01Trailer] [] := by
  refine .look [.occ0mTrailer, .occ1mTrailer] (by decide) ?_
    (.lookBranch [.occ1mTrailer] (by decide) ?_ (.lookBranch [] (by decide) ?_ .refuse))
  · exact accounts_call_bind accounts .occ01Trailer (by decide) fun _ => .done _ (by decide)
  · exact accounts_call_bind accounts .occ0mTrailer (by decide) fun _ => .done _ (by decide)
  · exact accounts_call_bind accounts .occ1mTrailer (by decide) fun _ => .done _ (by decide)

theorem accounts_item :
    (item fun r => call r (h r)).Accounts closings [] (foundBefore .occExpr) (foundBehind .atom) :=
  .look (foundBefore .atom) (by decide) ((accounts .occ01Group).widen (List.nil_subset _))
    (.lookBranch [] (by decide) (accounts .atom) .refuse)

theorem accounts_occExpr :
    (occExpr fun r => call r (h r)).Accounts closings [] (foundBefore .occExpr) itemEnd := by
  refine .bind _ (accounts_item accounts) fun item => ?_
  refine .expect (by decide) fun t ht => .ite (fun trails => ?_) fun other => .done_of_mem _ ?_
  · refine .bind [] ((accounts_trailer accounts).weaken ?_) fun o => .done _ (List.nil_subset _)
    exact List.cons_subset.2 ⟨trails, List.nil_subset _⟩
  · revert t
    decide

theorem accounts_occ01Group :
    (occ01Group fun r => call r (h r)).Accounts closings [] [.sqrbrktBeg] [] := by
  refine accounts_call_bind accounts .sqrbrktBeg (by decide) fun _ => ?_
  refine accounts_call_bind accounts .orExpr (by decide) fun item => ?_
  exact accounts_call_bind accounts .sqrbrktEnd (by decide) fun _ => .done _ (by decide)

theorem accounts_atom :
    (atom fun r => call r (h r)).Accounts closings [] (foundBefore .atom) (foundBehind .atom) := by
  refine .look [.ruleRef, .brktBeg] (by decide) ?_
    (.lookBranch [.brktBeg] (by decide) ?_ (.lookBranch [] (by decide) ?_ .refuse))
  · refine accounts_call_bind accounts .regexStr (by decide) fun source => ?_
    refine accounts_optionalArgs_bind accounts (foundBehind .atom) ?_ ?_ fun args => ?_
    · decide
    · decide
    · exact .done _ (List.Subset.refl _)
  · exact (accounts .ruleRef).widen (List.nil_subset _)
  · exact (accounts .group).widen (List.nil_subset _)

theorem accounts_group : (group fun r => call r (h r)).Accounts closings [] [.brktBeg] [] := by
  refine accounts_call_bind accounts .brktBeg (by decide) fun _ => ?_
  refine accounts_call_bind accounts .orExpr (by decide) fun item => ?_
  exact accounts_call_bind accounts .brktEnd (by decide) fun _ => .done _ (by decide)

end

end Body

theorem accounts_lexical {r : Rule} {t : Token} {g : List Char → r.Output}
    (hr : r.lexical = some (t, g)) {h : (r : Rule) → Handler r.Output}
    (careful : ∀ r, (h r).Careful false) (n : Nat) :
    (call r (body (fun r => call r (h r)) n r)).Accounts closings [] r.foundBefore r.foundBehind := by
  obtain ⟨covers, behind⟩ := lexical_covers hr
  have hbody := careful_body careful n r
  obtain ⟨k, hk⟩ := exists_consume hr (fun r => call r (h r)) n
  rw [hk] at hbody ⊢
  rw [← behind]
  exact .call_consume r hbody covers

theorem accounts_body {h : (r : Rule) → Handler r.Output} (careful : ∀ r, (h r).Careful false)
    (accounts : ∀ r, (call r (h r)).Accounts closings [] r.foundBefore r.foundBehind) (n : Nat)
    (r : Rule) :
    (call r (body (fun r => call r (h r)) n r)).Accounts closings [] r.foundBefore r.foundBehind := by
  cases hr : r.lexical with
  | some tg => exact accounts_lexical hr careful n
  | none =>
    cases r with
    | all => exact .call _ (accounts_all accounts)
    | argsDef => exact .call _ (accounts_argsDef accounts)
    | argsGroup => exact .call _ (accounts_argsGroup accounts)
    | argItem => exact .call _ (accounts_argItem accounts)
    | argExpr => exact .call _ (accounts_argExpr accounts)
    | argVal => exact .call _ (accounts .litVal)
    | litVal => exact .call _ (accounts_litVal accounts)
    | ruleSeq => exact .call _ (accounts_ruleSeq accounts n [])
    | ruleDef => exact .call _ (accounts_ruleDef accounts)
    | orExpr => exact .call _ (accounts_orExpr accounts n)
    | seqExpr => exact .call _ (accounts_sequenceItems accounts n [])
    | code => exact .call_consume _ careful_code (.inl (by decide))
    | occExpr => exact .call _ (accounts_occExpr accounts)
    | occ01Group => exact .call _ (accounts_occ01Group accounts)
    | atom => exact .call _ (accounts_atom accounts)
    | group => exact .call _ (accounts_group accounts)
    | _ => cases hr

/-- Every rule accounts for what it looks for, however deep its calls may nest. -/
theorem accounts_handler (fuel : Nat) (r : Rule) :
    (call r (handler fuel r)).Accounts closings [] r.foundBefore r.foundBehind := by
  induction fuel generalizing r with
  | zero => exact .call _ (.abort _)
  | succ fuel ih => exact accounts_body (careful_handler fuel) ih fuel r

end Rule

end GrammarKit
