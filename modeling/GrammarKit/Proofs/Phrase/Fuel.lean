import GrammarKit.Proofs.Phrase.Exchange

/-!
The bound on the depth of calls is never reached. Every phrase takes a token at least, and between
two tokens the calls go down a fixed order of the rules; so ten times the characters left, and the
place of the rule in that order, bound the depth of what is still to be called.
-/

namespace GrammarKit

namespace Rule

/-- The place of a rule in the order in which rules are called at one place of a text. -/
@[simp] def rank : Rule → Nat
  | .all => 8
  | .ruleSeq => 7
  | .ruleDef => 6
  | .orExpr => 5
  | .seqExpr => 4
  | .occExpr => 3
  | .argsDef | .argItem | .argVal | .atom => 2
  | .argsGroup | .argExpr | .litVal | .occ01Group | .group => 1
  | _ => 0

def Fuelled (n : Nat) (call : (r : Rule) → Handler r.Output) : Prop :=
  ∀ (r : Rule) (x : List Char), Settled x → 10 * x.length + r.rank < n →
    (call r).read x ≠ .abort .exhausted

end Rule

namespace Phrase

variable {Legible : List Char → Prop} {x y : List Char} {e : Expr}

theorem Mark.length_lt {t : Token} (h : Mark t x y) (ht : t ≠ .textEnd) : y.length < x.length := by
  obtain ⟨lexeme, takes⟩ := h
  exact takes.length_lt ht

theorem Code.length_lt (h : Code Legible x e y) : y.length < x.length := by
  obtain ⟨takes, -⟩ := h
  exact takes.length_lt (by decide)

theorem Group.length_lt (h : Group Legible x e y) : y.length < x.length := by
  obtain ⟨opening, inner, close⟩ := h
  have := opening.length_lt (by decide)
  have := inner.moves.length_le
  have := close.length_lt (by decide)
  omega

theorem Occ01Group.length_lt (h : Occ01Group Legible x e y) : y.length < x.length := by
  obtain ⟨opening, inner, close⟩ := h
  have := opening.length_lt (by decide)
  have := inner.moves.length_le
  have := close.length_lt (by decide)
  omega

theorem Atom.length_lt (h : Atom Legible x e y) : y.length < x.length := by
  cases h with
  | pattern literal h =>
    obtain ⟨takes, -⟩ := literal
    have := takes.length_lt (by decide)
    have := h.moves.length_le
    omega
  | reference takes unquoted => exact takes.length_lt (by decide)
  | group h => exact h.length_lt

theorem Item.length_lt (h : Item Legible x e y) : y.length < x.length := by
  cases h with
  | brackets h => exact h.length_lt
  | atom h => exact h.length_lt

theorem OccExpr.length_lt (h : OccExpr Legible x e y) : y.length < x.length := by
  cases h with
  | plain item => exact item.length_lt
  | marked item o trailer =>
    have := item.length_lt
    have := trailer.length_lt (by cases o <;> decide)
    omega

theorem RuleDef.length_lt {d : Definition} (h : RuleDef Legible x d y) : y.length < x.length := by
  obtain ⟨⟨takes⟩, colon, args, expr⟩ := h
  have := takes.length_lt (by decide)
  have := colon.length_lt (by decide)
  have := args.moves.length_le
  have := expr.moves.length_le
  omega

theorem All.length_le {g : Grammar} (h : All Legible x g y) : y.length ≤ x.length := by
  obtain ⟨options, rules, lexeme, takes⟩ := h
  have := options.moves.length_le
  have := rules.moves.length_le
  have := takes.suffix.length_le
  omega

end Phrase

namespace Rule

theorem Found.length_le {Legible : List Char → Prop} {r : Rule} {x y : List Char} {a : r.Output}
    (h : Found Legible r x a y) : y.length ≤ x.length := by
  have phrase := h.phrase
  cases hr : r.lexical with
  | some lexical =>
    obtain ⟨lexeme, takes, -⟩ := (Phrase.of_lexical hr).1 phrase
    exact takes.suffix.length_le
  | none =>
    cases r <;> try (cases hr; done)
    case all => exact Phrase.All.length_le phrase
    case argVal | litVal => exact (Phrase.LitVal.moves phrase).length_le
    all_goals exact phrase.moves.length_le

theorem Found.lexical_lt {Legible : List Char → Prop} {r : Rule} {x y : List Char} {a : r.Output}
    (h : Found Legible r x a y) {t : Token} {g : List Char → r.Output}
    (hr : r.lexical = some (t, g)) (ht : t ≠ .textEnd) : y.length < x.length := by
  obtain ⟨lexeme, takes, -⟩ := (Phrase.of_lexical hr).1 h.phrase
  exact takes.length_lt ht

namespace Body

open Phrase Reading

variable {Legible : List Char → Prop} {call : (r : Rule) → Handler r.Output} {n : Nat}
  (sound : Sound Legible call) (fuelled : Fuelled n call) {x : List Char} (hx : Settled x)

include sound fuelled hx

omit sound in
theorem optionalArgs_fuelled {next : Token} (hn : 10 * x.length + 2 < n) :
    optionalArgs call next x ≠ .abort .exhausted := by
  rw [optionalArgs]
  split
  · rw [Ne, bind_eq_abort]
    rintro (h | ⟨_, _, -, ⟨⟩⟩)
    exact fuelled .argsDef x hx hn h
  · intro h
    cases h

theorem all_fuelled (hn : 10 * x.length + 8 ≤ n) : (all call).read x ≠ .abort .exhausted := by
  simp only [read_all, Ne, choose_eq_abort, bind_eq_abort]
  rintro ⟨next, -, h | ⟨options, y, hoptions, h⟩⟩
  · exact optionalArgs_fuelled fuelled hx (by omega) h
  obtain ⟨options, hy⟩ := optionalArgs_sound sound hx hoptions
  have := options.moves.length_le
  rcases h with h | ⟨rules, z, hrules, h⟩
  · exact fuelled .ruleSeq y hy (by simp only [rank]; omega) h
  have rules := sound .ruleSeq _ _ _ hy hrules
  have := rules.length_le
  rcases h with h | ⟨_, _, -, ⟨⟩⟩
  exact fuelled .textEnd z rules.settled (by simp only [rank]; omega) h

theorem argsDef_fuelled (hn : 10 * x.length + 2 ≤ n) :
    (argsDef call).read x ≠ .abort .exhausted := by
  simp only [read_argsDef, Ne, bind_eq_abort]
  rintro (h | ⟨_, y, hsign, h⟩)
  · exact fuelled .argsSign x hx (by simp only [rank]; omega) h
  have sign := sound .argsSign _ _ _ hx hsign
  have := sign.length_le
  rcases h with h | ⟨_, _, -, ⟨⟩⟩
  exact fuelled .argsGroup y sign.settled (by simp only [rank]; omega) h

theorem argsGroup_fuelled (hn : 10 * x.length + 1 ≤ n) :
    (argsGroup call).read x ≠ .abort .exhausted := by
  simp only [read_argsGroup, Ne, bind_eq_abort]
  rintro (h | ⟨_, y, hopening, h⟩)
  · exact fuelled .brktBeg x hx (by simp only [rank]; omega) h
  have opening := sound .brktBeg _ _ _ hx hopening
  have := opening.lexical_lt rfl (by decide)
  split at h
  · rcases bind_eq_abort.1 h with h | ⟨_, _, -, ⟨⟩⟩
    exact fuelled .brktEnd y opening.settled (by simp only [rank]; omega) h
  · split at h
    · exact fuelled .argItem y opening.settled (by simp only [rank]; omega) h
    · cases h

theorem argItem_fuelled (hn : 10 * x.length + 2 ≤ n) :
    (argItem call).read x ≠ .abort .exhausted := by
  simp only [read_argItem, Ne, bind_eq_abort]
  rintro (h | ⟨pair, y, hpair, h⟩)
  · exact fuelled .argExpr x hx (by simp only [rank]; omega) h
  have first := sound .argExpr _ _ _ hx hpair
  have := first.length_le
  split at h
  · rcases bind_eq_abort.1 h with h | ⟨_, _, -, ⟨⟩⟩
    exact fuelled .brktEnd y first.settled (by simp only [rank]; omega) h
  · split at h
    · rcases bind_eq_abort.1 h with h | ⟨_, z, hcomma, h⟩
      · exact fuelled .argSep y first.settled (by simp only [rank]; omega) h
      have comma := sound .argSep _ _ _ first.settled hcomma
      have := comma.lexical_lt rfl (by decide)
      split at h
      · rcases bind_eq_abort.1 h with h | ⟨_, _, -, ⟨⟩⟩
        exact fuelled .brktEnd z comma.settled (by simp only [rank]; omega) h
      · split at h
        · rcases bind_eq_abort.1 h with h | ⟨_, _, -, ⟨⟩⟩
          exact fuelled .argItem z comma.settled (by simp only [rank]; omega) h
        · cases h
    · cases h

theorem argExpr_fuelled (hn : 10 * x.length + 1 ≤ n) :
    (argExpr call).read x ≠ .abort .exhausted := by
  simp only [read_argExpr, Ne, bind_eq_abort]
  rintro (h | ⟨key, y, hkey, h⟩)
  · exact fuelled .argKey x hx (by simp only [rank]; omega) h
  have key := sound .argKey _ _ _ hx hkey
  have := key.lexical_lt rfl (by decide)
  rcases h with h | ⟨_, z, hsign, h⟩
  · exact fuelled .argKvsep y key.settled (by simp only [rank]; omega) h
  have sign := sound .argKvsep _ _ _ key.settled hsign
  have := sign.length_le
  rcases h with h | ⟨_, _, -, ⟨⟩⟩
  exact fuelled .argVal z sign.settled (by simp only [rank]; omega) h

omit sound in
theorem litVal_fuelled (hn : 10 * x.length + 1 ≤ n) :
    (litVal call).read x ≠ .abort .exhausted := by
  rw [read_litVal]
  have lexical : ∀ r : Rule, r.rank = 0 → (call r).read x ≠ .abort .exhausted :=
    fun r hr => fuelled r x hx (by omega)
  split
  · exact lexical .litStr rfl
  · split
    · exact lexical .litNum rfl
    · split
      · exact lexical .litBool rfl
      · split
        · exact lexical .litNone rfl
        · nofun

theorem ruleSeq_fuelled {m : Nat} {rules : List Definition} (hn : 10 * x.length + 7 ≤ n)
    (hm : x.length < m) : (ruleSeq call m rules).read x ≠ .abort .exhausted := by
  induction m generalizing x rules with
  | zero => omega
  | succ m ih =>
    simp only [read_ruleSeq, Ne, bind_eq_abort, choose_eq_abort]
    rintro (h | ⟨d, y, hd, next, -, h⟩)
    · exact fuelled .ruleDef x hx (by simp only [rank]; omega) h
    have first := sound .ruleDef _ _ _ hx hd
    have := RuleDef.length_lt first.phrase
    split at h
    · exact ih first.settled (by omega) (by omega) h
    · cases h

theorem ruleDef_fuelled (hn : 10 * x.length + 6 ≤ n) :
    (ruleDef call).read x ≠ .abort .exhausted := by
  simp only [read_ruleDef, Ne, bind_eq_abort, choose_eq_abort]
  rintro (h | ⟨name, y, hname, h⟩)
  · exact fuelled .ruleName x hx (by simp only [rank]; omega) h
  have name := sound .ruleName _ _ _ hx hname
  have := name.lexical_lt rfl (by decide)
  rcases h with h | ⟨_, z, hcolon, next, -, h⟩
  · exact fuelled .ruleColon y name.settled (by simp only [rank]; omega) h
  have colon := sound .ruleColon _ _ _ name.settled hcolon
  have := colon.length_le
  rcases h with h | ⟨args, w, hargs, h⟩
  · exact optionalArgs_fuelled fuelled colon.settled (by omega) h
  obtain ⟨args, hw⟩ := optionalArgs_sound sound colon.settled hargs
  have := args.moves.length_le
  rcases h with h | ⟨_, _, -, ⟨⟩⟩
  exact fuelled .orExpr w hw (by simp only [rank]; omega) h

theorem alternatives_fuelled {m : Nat} {items : List Expr} (hn : 10 * x.length + 5 ≤ n)
    (hm : x.length < m) : (alternatives call m items).read x ≠ .abort .exhausted := by
  induction m generalizing x items with
  | zero => omega
  | succ m ih =>
    simp only [read_alternatives, Ne, choose_eq_abort]
    rintro ⟨next, -, h⟩
    split at h
    · rcases bind_eq_abort.1 h with h | ⟨_, y, hbar, h⟩
      · exact fuelled .orExprOp x hx (by simp only [rank]; omega) h
      have bar := sound .orExprOp _ _ _ hx hbar
      have := bar.lexical_lt rfl (by decide)
      rcases bind_eq_abort.1 h with h | ⟨item, z, hitem, h⟩
      · exact fuelled .seqExpr y bar.settled (by simp only [rank]; omega) h
      have item := sound .seqExpr _ _ _ bar.settled hitem
      have := item.length_le
      exact ih item.settled (by omega) (by omega) h
    · cases h

theorem orExpr_fuelled {m : Nat} (hn : 10 * x.length + 5 ≤ n) (hm : x.length < m) :
    (orExpr call m).read x ≠ .abort .exhausted := by
  simp only [read_orExpr, Ne, bind_eq_abort]
  rintro (h | ⟨item, y, hitem, h⟩)
  · exact fuelled .seqExpr x hx (by simp only [rank]; omega) h
  have item := sound .seqExpr _ _ _ hx hitem
  have := item.length_le
  exact alternatives_fuelled sound fuelled item.settled (by omega) (by omega) h

theorem codeBlocks_fuelled {follow : List Token} {m : Nat} {items : List Expr}
    (hn : 10 * x.length + 1 ≤ n) (hm : x.length < m) :
    (codeBlocks call follow m items).read x ≠ .abort .exhausted := by
  induction m generalizing x items with
  | zero => omega
  | succ m ih =>
    simp only [read_codeBlocks, Ne, choose_eq_abort]
    rintro ⟨next, -, h⟩
    split at h
    · rcases bind_eq_abort.1 h with h | ⟨block, y, hblock, h⟩
      · exact fuelled .code x hx (by simp only [rank]; omega) h
      have block := sound .code _ _ _ hx hblock
      have := Code.length_lt block.phrase
      exact ih block.settled (by omega) (by omega) h
    · cases h

theorem sequenceItems_fuelled {m : Nat} {items : List Expr} (hn : 10 * x.length + 4 ≤ n)
    (hm : x.length + 1 < m) : (sequenceItems call m items).read x ≠ .abort .exhausted := by
  induction m generalizing x items with
  | zero => omega
  | succ m ih =>
    simp only [read_sequenceItems, Ne, bind_eq_abort, choose_eq_abort]
    rintro (h | ⟨_, y, hfront, h⟩)
    · exact codeBlocks_fuelled sound fuelled hx (by omega) (by omega) h
    obtain ⟨before, front, -, hy⟩ := codeBlocks_sound sound hx hfront
    have := front.moves.length_le
    rcases h with h | ⟨item, z, hitem, h⟩
    · exact fuelled .occExpr y hy (by simp only [rank]; omega) h
    have item := sound .occExpr _ _ _ hy hitem
    have := OccExpr.length_lt item.phrase
    rcases h with h | ⟨_, w, hback, next, -, h⟩
    · exact codeBlocks_fuelled sound fuelled item.settled (by omega) (by omega) h
    obtain ⟨after, back, -, hw⟩ := codeBlocks_sound sound item.settled hback
    have := back.moves.length_le
    split at h
    · exact ih hw (by omega) (by omega) h
    · cases h

omit sound in
theorem item_fuelled (hn : 10 * x.length + 3 ≤ n) : (item call).read x ≠ .abort .exhausted := by
  rw [read_item]
  split
  · exact fuelled .occ01Group x hx (by simp only [rank]; omega)
  · split
    · exact fuelled .atom x hx (by simp only [rank]; omega)
    · nofun

omit sound in
theorem trailer_fuelled (hn : 10 * x.length + 1 ≤ n) :
    (trailer call).read x ≠ .abort .exhausted := by
  rw [read_trailer]
  have lexical : ∀ r : Rule, r.rank = 0 → (call r).read x ≠ .abort .exhausted :=
    fun r hr => fuelled r x hx (by omega)
  have key : ∀ (r : Rule) (o : Occurrence), r.rank = 0 →
      ((call r).read x).bind (fun _ y => .yield o y) ≠ .abort .exhausted := by
    intro r o hr h
    rcases bind_eq_abort.1 h with h | ⟨_, _, -, ⟨⟩⟩
    exact fuelled r x hx (by omega) h
  split
  · exact key .occ01Trailer _ rfl
  · split
    · exact key .occ0mTrailer _ rfl
    · split
      · exact key .occ1mTrailer _ rfl
      · nofun

theorem occExpr_fuelled (hn : 10 * x.length + 3 ≤ n) :
    (occExpr call).read x ≠ .abort .exhausted := by
  simp only [read_occExpr, Ne, bind_eq_abort, choose_eq_abort]
  rintro (h | ⟨e, y, hitem, next, -, h⟩)
  · exact item_fuelled fuelled hx (by omega) h
  obtain ⟨item, hy⟩ := item_sound sound hx hitem
  have := item.length_lt
  split at h
  · rcases bind_eq_abort.1 h with h | ⟨_, _, -, ⟨⟩⟩
    exact trailer_fuelled fuelled hy (by omega) h
  · cases h

theorem enclosed_fuelled {r s : Rule} {t : Token} {α : Type} {f : Expr → α}
    {g : List Char → r.Output} (hr : r.lexical = some (t, g)) (ht : t ≠ .textEnd)
    (opens : r.rank = 0) (closes : s.rank = 0) (hn : 10 * x.length + 1 ≤ n) :
    (((call r).read x).bind fun _ y => ((call .orExpr).read y).bind fun e z =>
      ((call s).read z).bind fun _ w => .yield (f e) w) ≠ .abort .exhausted := by
  simp only [Ne, bind_eq_abort]
  rintro (h | ⟨_, y, hopening, h⟩)
  · exact fuelled r x hx (by omega) h
  have opening := sound r _ _ _ hx hopening
  have := opening.lexical_lt hr ht
  rcases h with h | ⟨e, z, hinner, h⟩
  · exact fuelled .orExpr y opening.settled (by simp only [rank]; omega) h
  have inner := sound .orExpr _ _ _ opening.settled hinner
  have := inner.length_le
  rcases h with h | ⟨_, _, -, ⟨⟩⟩
  exact fuelled s z inner.settled (by omega) h

theorem occ01Group_fuelled (hn : 10 * x.length + 1 ≤ n) :
    (occ01Group call).read x ≠ .abort .exhausted := by
  rw [read_occ01Group]
  exact enclosed_fuelled sound fuelled hx rfl (by decide) rfl rfl hn

theorem atom_fuelled (hn : 10 * x.length + 2 ≤ n) : (atom call).read x ≠ .abort .exhausted := by
  rw [read_atom]
  split
  · simp only [Ne, bind_eq_abort, choose_eq_abort]
    rintro (h | ⟨source, y, hsource, next, -, h⟩)
    · exact fuelled .regexStr x hx (by simp only [rank]; omega) h
    have source := sound .regexStr _ _ _ hx hsource
    have := source.lexical_lt rfl (by decide)
    rcases h with h | ⟨_, _, -, ⟨⟩⟩
    exact optionalArgs_fuelled fuelled source.settled (by omega) h
  · split
    · exact fuelled .ruleRef x hx (by simp only [rank]; omega)
    · split
      · exact fuelled .group x hx (by simp only [rank]; omega)
      · nofun

theorem group_fuelled (hn : 10 * x.length + 1 ≤ n) : (group call).read x ≠ .abort .exhausted := by
  rw [read_group]
  exact enclosed_fuelled sound fuelled hx rfl (by decide) rfl rfl hn

omit sound fuelled hx in
theorem code_fuelled : code.read x ≠ .abort .exhausted := by
  rw [read_code]
  split
  · split <;> nofun
  · nofun

end Body

open Body

theorem body_fuelled {Legible : List Char → Prop} {call : (r : Rule) → Handler r.Output} {n : Nat}
    (sound : Sound Legible call) (fuelled : Fuelled n call) {r : Rule} {x : List Char}
    (hx : Settled x) (hn : 10 * x.length + r.rank ≤ n) :
    (body call n r).read x ≠ .abort .exhausted := by
  cases hr : r.lexical with
  | some lexical =>
    obtain ⟨t, g⟩ := lexical
    rw [read_body_lexical hr]
    exact fun h => Reading.settled_taking_ne_abort (Reading.settled_eq_abort.2 h)
  | none =>
    cases r <;> (try (cases hr; done)) <;> simp only [rank] at hn
    case all => exact all_fuelled sound fuelled hx hn
    case argsDef => exact argsDef_fuelled sound fuelled hx hn
    case argsGroup => exact argsGroup_fuelled sound fuelled hx hn
    case argItem => exact argItem_fuelled sound fuelled hx hn
    case argExpr => exact argExpr_fuelled sound fuelled hx hn
    case argVal => exact fuelled .litVal x hx (by simp only [rank]; omega)
    case litVal => exact litVal_fuelled fuelled hx hn
    case ruleSeq => exact ruleSeq_fuelled sound fuelled hx hn (by omega)
    case ruleDef => exact ruleDef_fuelled sound fuelled hx hn
    case orExpr => exact orExpr_fuelled sound fuelled hx hn (by omega)
    case seqExpr => exact sequenceItems_fuelled sound fuelled hx hn (by omega)
    case code => exact code_fuelled
    case occExpr => exact occExpr_fuelled sound fuelled hx hn
    case occ01Group => exact occ01Group_fuelled sound fuelled hx hn
    case atom => exact atom_fuelled sound fuelled hx hn
    case group => exact group_fuelled sound fuelled hx hn

theorem calls_fuelled (n : Nat) : Fuelled n (calls n) := by
  induction n with
  | zero => exact fun r x _ hn => absurd hn (Nat.not_lt_zero _)
  | succ n ih =>
    intro r x hx hn h
    rw [read_calls_succ n r hx, Reading.settled_eq_abort] at h
    have sound : Sound (fun _ => True) (calls n) := calls_sound (fun _ _ _ => trivial) n
    exact body_fuelled sound ih hx (Nat.le_of_lt_succ hn) h

theorem rank_le (r : Rule) : r.rank ≤ 8 := by cases r <;> decide

end Rule

end GrammarKit
