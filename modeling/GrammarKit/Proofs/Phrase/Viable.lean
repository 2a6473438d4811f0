import GrammarKit.Proofs.Phrase.Exchange
import GrammarKit.Proofs.Rule.Careful

/-!
Where a handler refuses, everything in front of that place is the beginning of a phrase: whatever is
open there can be closed by some tame text. Tame completions suffice, since a handler looks for a
quoted literal or a block of code only where something else would do as well.
-/

namespace GrammarKit

namespace Phrase

/-- The text in front of `v` can be completed to a phrase, whatever tame text stands behind that. -/
def Viable (P : List Char → List Char → Prop) (x v : List Char) : Prop :=
  ∃ p, x = p ++ v ∧ ∃ w, Tame w ∧ ∀ k, Tame k →
    P (settle (p ++ '\n' :: (w ++ '\n' :: k))) (settle k)

def Sample (P : List Char → List Char → Prop) : Prop :=
  ∃ w, Tame w ∧ ∀ k, Tame k → P (settle (w ++ '\n' :: k)) (settle k)

section

variable {P Q : List Char → List Char → Prop} {x y v : List Char}

theorem Sample.mono (h : Sample P) (hPQ : ∀ {x y}, P x y → Q x y) : Sample Q := by
  obtain ⟨w, hw, hP⟩ := h
  exact ⟨w, hw, fun k hk => hPQ (hP k hk)⟩

theorem Sample.seq (h : Sample P) (k : Sample Q) : Sample (Then P Q) := by
  obtain ⟨u, hu, hP⟩ := h
  obtain ⟨w, hw, hQ⟩ := k
  refine ⟨u ++ '\n' :: w, tame_append.2 ⟨hu, hw.line_feed⟩, fun k hk => ?_⟩
  rw [List.append_assoc, List.cons_append]
  exact ⟨_, hP _ (tame_append.2 ⟨hw, hk.line_feed⟩), hQ k hk⟩

theorem Viable.mono (h : Viable P x v) (hPQ : ∀ {x y}, P x y → Q x y) : Viable Q x v := by
  obtain ⟨p, hx, w, hw, hP⟩ := h
  exact ⟨p, hx, w, hw, fun k hk => hPQ (hP k hk)⟩

theorem Sample.viable (h : Sample P) (v : List Char) : Viable P v v := by
  obtain ⟨w, hw, hP⟩ := h
  refine ⟨[], rfl, w, hw, fun k hk => ?_⟩
  rw [List.nil_append, settle_line_feed]
  exact hP k hk

theorem Moves.viable (h : Moves P x v) : Viable P x v := by
  obtain ⟨p, hx, hp⟩ := h [] v rfl
  refine ⟨p, hx, [], tame_nil, fun k hk => ?_⟩
  have := hp _ hk.line_feed
  rwa [List.nil_append, settle_line_feed, settle_line_feed] at this

theorem Viable.before (h : Viable P x v) (k : Sample Q) : Viable (Then P Q) x v := by
  obtain ⟨p, hx, u, hu, hP⟩ := h
  obtain ⟨w, hw, hQ⟩ := k
  refine ⟨p, hx, u ++ '\n' :: w, tame_append.2 ⟨hu, hw.line_feed⟩, fun k hk => ?_⟩
  rw [List.append_assoc, List.cons_append]
  exact ⟨_, hP _ (tame_append.2 ⟨hw, hk.line_feed⟩), hQ k hk⟩

theorem Moves.before (h : Moves P x y) (k : Viable Q y v) : Viable (Then P Q) x v := by
  obtain ⟨q, hy, w, hw, hQ⟩ := k
  obtain ⟨p, hx, hp⟩ := h q v hy
  exact ⟨p, hx, w, hw, fun k hk => ⟨_, hp _ (tame_append.2 ⟨hw, hk.line_feed⟩), hQ k hk⟩⟩

end

theorem sample_mark {t : Token} {c : Char} (ht : t.length? = Token.charLength? c)
    (tame : Tame [c]) (hc : c ≠ '#' ∧ isBlank c = false) : Sample (Mark t) := by
  refine ⟨[c], tame, fun k _ => ?_⟩
  have settled : settle (c :: '\n' :: k) = c :: '\n' :: k := settled_cons hc.1 hc.2 _
  rw [List.singleton_append, settled]
  refine ⟨_, 1, ?_, rfl, (settle_line_feed k).symm⟩
  rw [ht]
  simp [Token.charLength?]

theorem sample_name : Sample (Spans Name) := by
  refine ⟨['a'], by decide, fun k _ => ?_⟩
  have settled : settle ('a' :: '\n' :: k) = 'a' :: '\n' :: k :=
    settled_cons (by decide) (by decide) _
  rw [List.singleton_append, settled]
  exact ⟨_, .intro ⟨1, rfl, rfl, (settle_line_feed k).symm⟩⟩

theorem sample_litVal : Sample (Spans LitVal) := by
  refine ⟨['N', 'o', 'n', 'e'], by decide, fun k _ => ?_⟩
  have settled : settle (['N', 'o', 'n', 'e'] ++ '\n' :: k) = ['N', 'o', 'n', 'e'] ++ '\n' :: k :=
    settled_cons (by decide) (by decide) _
  rw [settled]
  exact ⟨_, .none ⟨_, 4, rfl, rfl, (settle_line_feed k).symm⟩⟩

variable {Legible : List Char → Prop}

theorem sample_atom : Sample (Spans (Atom Legible)) := by
  refine ⟨['a'], by decide, fun k _ => ?_⟩
  have settled : settle ('a' :: '\n' :: k) = 'a' :: '\n' :: k :=
    settled_cons (by decide) (by decide) _
  rw [List.singleton_append, settled]
  obtain ⟨lexeme, takes, -⟩ := Token.takes_ruleRef (x := 'a' :: '\n' :: k) (m := 1) rfl nofun
  have unquoted : Token.startsAt ('a' :: '\n' :: k) .regexStr = false := by
    rw [← Bool.not_eq_true]
    exact fun h => absurd (Token.head_of_startsAt_regexStr h) (by decide)
  rw [List.drop_succ_cons, List.drop_zero, settle_line_feed] at takes
  exact ⟨_, .reference takes unquoted⟩

theorem sample_brktEnd : Sample (Mark .brktEnd) := sample_mark rfl (by decide) (by decide)

theorem sample_argsGroup : Sample (Spans ArgsGroup) :=
  ((sample_mark rfl (by decide) (by decide)).seq sample_brktEnd).mono ArgsGroup.spans_empty

theorem sample_occExpr : Sample (Spans (OccExpr Legible)) :=
  sample_atom.mono (Spans.imp fun h => .plain (.atom h))

theorem sample_rounds : Sample (Spans (Rounds Legible)) :=
  sample_occExpr.mono Rounds.spans_one

theorem sample_seqExpr : Sample (Spans (SeqExpr Legible)) :=
  sample_rounds.mono (Spans.imp .intro)

theorem sample_orExpr : Sample (Spans (OrExpr Legible)) :=
  sample_seqExpr.mono (Spans.imp fun h => .intro (.last h))

theorem sample_body : Sample (Body Legible) :=
  sample_orExpr.mono fun h => ⟨_, ⟨_, .absent⟩, h⟩

theorem sample_ruleColon : Sample (Mark .ruleColon) := sample_mark rfl (by decide) (by decide)

theorem sample_ruleDef : Sample (Spans (RuleDef Legible)) :=
  ((sample_name.seq sample_ruleColon).seq sample_body).mono RuleDef.spans

theorem sample_ruleSeq : Sample (Spans (RuleSeq Legible)) :=
  sample_ruleDef.mono RuleSeq.spans_one

end Phrase

namespace Rule

open Phrase

/-- Rules whose phrases consist of others, apart from the whole. -/
def composite : Rule → Bool
  | .argsDef | .argsGroup | .argItem | .argExpr | .argVal | .litVal | .ruleSeq | .ruleDef
  | .orExpr | .seqExpr | .occExpr | .occ01Group | .atom | .group => true
  | _ => false

structure Refuses (Legible : List Char → Prop) (call : (r : Rule) → Handler r.Output) : Prop where
  lexical : ∀ {r : Rule} {t : Token} {g : List Char → r.Output} {x v : List Char},
    r.lexical = some (t, g) → Settled x → (call r).read x = .refuse v →
      Token.startsAt x t = false ∧ v = x
  code : ∀ {x v : List Char}, Settled x → (call .code).read x = .refuse v → v = x
  phrase : ∀ (r : Rule) {x v : List Char}, r.composite = true → Settled x →
    (call r).read x = .refuse v → Viable (Spans (Phrase.Of Legible r)) x v
  further : ∀ {x v : List Char}, Settled x → Token.startsAt x .ruleName →
    Token.startsAt x .ruleRef = false → (call .ruleDef).read x = .refuse v →
      Viable (FurtherDef Legible) x v

namespace Body

open Reading

variable {Legible : List Char → Prop} {call : (r : Rule) → Handler r.Output}
  (sound : Sound Legible call) (refuses : Refuses Legible call) {x v : List Char} (hx : Settled x)

include sound refuses hx

omit sound in
theorem optionalArgs_viable {next : Token} (h : optionalArgs call next x = .refuse v) :
    Viable (Spans (Optionally ArgsDef)) x v := by
  rw [optionalArgs] at h
  split at h
  · rcases bind_eq_refuse.1 h with h | ⟨_, _, -, ⟨⟩⟩
    exact (refuses.phrase .argsDef rfl hx h).mono (Spans.imp .present)
  · cases h

theorem argsDef_viable (h : (argsDef call).read x = .refuse v) : Viable (Spans ArgsDef) x v := by
  suffices Viable (Then (Mark .argsSign) (Spans ArgsGroup)) x v from
    this.mono ArgsDef.spans
  simp only [read_argsDef, bind_eq_refuse] at h
  rcases h with h | ⟨_, y, hsign, h⟩
  · obtain ⟨-, rfl⟩ := refuses.lexical rfl hx h
    exact ((sample_mark rfl (by decide) (by decide)).seq sample_argsGroup).viable _
  have sign := sound .argsSign _ _ _ hx hsign
  rcases h with h | ⟨_, _, -, ⟨⟩⟩
  exact (Mark.moves sign.phrase (by decide)).before
    (refuses.phrase .argsGroup rfl sign.settled h)

theorem argsGroup_viable (h : (argsGroup call).read x = .refuse v) :
    Viable (Spans ArgsGroup) x v := by
  simp only [read_argsGroup, bind_eq_refuse] at h
  rcases h with h | ⟨_, y, hopening, h⟩
  · obtain ⟨-, rfl⟩ := refuses.lexical rfl hx h
    exact sample_argsGroup.viable _
  have opening := sound .brktBeg _ _ _ hx hopening
  have moves := Mark.moves opening.phrase (by decide)
  have closing : Viable (Spans ArgsGroup) x y :=
    (moves.before (sample_brktEnd.viable y)).mono ArgsGroup.spans_empty
  split at h
  · rcases bind_eq_refuse.1 h with h | ⟨_, _, -, ⟨⟩⟩
    obtain ⟨-, rfl⟩ := refuses.lexical rfl opening.settled h
    exact closing
  · split at h
    · exact (moves.before (refuses.phrase .argItem rfl opening.settled h)).mono
        ArgsGroup.spans_items
    · cases h
      exact closing

theorem argItem_viable (h : (argItem call).read x = .refuse v) : Viable (Spans ArgItem) x v := by
  simp only [read_argItem, bind_eq_refuse] at h
  rcases h with h | ⟨pair, y, hpair, h⟩
  · exact ((refuses.phrase .argExpr rfl hx h).before sample_brktEnd).mono ArgItem.spans_last
  have first := sound .argExpr _ _ _ hx hpair
  have moves := ArgExpr.moves first.phrase
  have closing : Viable (Spans ArgItem) x y :=
    (moves.before (sample_brktEnd.viable y)).mono ArgItem.spans_last
  split at h
  · rcases bind_eq_refuse.1 h with h | ⟨_, _, -, ⟨⟩⟩
    obtain ⟨-, rfl⟩ := refuses.lexical rfl first.settled h
    exact closing
  · split at h
    · rcases bind_eq_refuse.1 h with h | ⟨_, z, hcomma, h⟩
      · obtain ⟨-, rfl⟩ := refuses.lexical rfl first.settled h
        exact closing
      have comma := sound .argSep _ _ _ first.settled hcomma
      have moves' := Mark.moves comma.phrase (by decide)
      have closing' : Viable (Spans ArgItem) x z :=
        (moves.before (moves'.before (sample_brktEnd.viable z))).mono ArgItem.spans_lastComma
      split at h
      · rcases bind_eq_refuse.1 h with h | ⟨_, _, -, ⟨⟩⟩
        obtain ⟨-, rfl⟩ := refuses.lexical rfl comma.settled h
        exact closing'
      · split at h
        · rcases bind_eq_refuse.1 h with h | ⟨_, _, -, ⟨⟩⟩
          have rest := refuses.phrase .argItem rfl comma.settled h
          exact (moves.before (moves'.before rest)).mono ArgItem.spans_more
        · cases h
          exact closing'
    · cases h
      exact closing

theorem argExpr_viable (h : (argExpr call).read x = .refuse v) : Viable (Spans ArgExpr) x v := by
  suffices Viable (Then (Spans Name) (Then (Mark .argKvsep) (Spans LitVal))) x v from
    this.mono ArgExpr.spans
  have sample_sign : Sample (Mark .argKvsep) := sample_mark rfl (by decide) (by decide)
  simp only [read_argExpr, bind_eq_refuse] at h
  rcases h with h | ⟨key, y, hkey, h⟩
  · obtain ⟨-, rfl⟩ := refuses.lexical rfl hx h
    exact (sample_name.seq (sample_sign.seq sample_litVal)).viable _
  have key := sound .argKey _ _ _ hx hkey
  refine (Name.moves key.phrase).before ?_
  rcases h with h | ⟨_, z, hsign, h⟩
  · obtain ⟨-, rfl⟩ := refuses.lexical rfl key.settled h
    exact (sample_sign.seq sample_litVal).viable _
  have sign := sound .argKvsep _ _ _ key.settled hsign
  refine (Mark.moves sign.phrase (by decide)).before ?_
  rcases h with h | ⟨_, _, -, ⟨⟩⟩
  exact refuses.phrase .argVal rfl sign.settled h

omit sound in
theorem litVal_viable (h : (litVal call).read x = .refuse v) : Viable (Spans LitVal) x v := by
  have here : v = x := by
    rw [read_litVal] at h
    split at h
    · exact (refuses.lexical rfl hx h).2
    · split at h
      · exact (refuses.lexical rfl hx h).2
      · split at h
        · exact (refuses.lexical rfl hx h).2
        · split at h
          · exact (refuses.lexical rfl hx h).2
          · cases h
            rfl
  rw [here]
  exact sample_litVal.viable x

theorem body_viable {next : Token} {name : String}
    (h : ((optionalArgs call next x).bind fun args w =>
      ((call .orExpr).read w).bind fun expr z => yield (⟨name, expr, args⟩ : Definition) z) =
        .refuse v) : Viable (Phrase.Body Legible) x v := by
  rcases bind_eq_refuse.1 h with h | ⟨args, w, hargs, h⟩
  · exact (optionalArgs_viable refuses hx h).before sample_orExpr
  obtain ⟨args, hw⟩ := optionalArgs_sound sound hx hargs
  rcases bind_eq_refuse.1 h with h | ⟨_, _, -, ⟨⟩⟩
  exact args.moves.before (refuses.phrase .orExpr rfl hw h)

theorem ruleDef_viable (h : (ruleDef call).read x = .refuse v) :
    Viable (Spans (RuleDef Legible)) x v := by
  suffices Viable (Then Head (Phrase.Body Legible)) x v from this.mono RuleDef.spans
  simp only [read_ruleDef] at h
  rcases bind_eq_refuse.1 h with h | ⟨name, y, hname, h⟩
  · obtain ⟨-, rfl⟩ := refuses.lexical rfl hx h
    exact ((sample_name.seq sample_ruleColon).seq sample_body).viable _
  have name := sound .ruleName _ _ _ hx hname
  rcases bind_eq_refuse.1 h with h | ⟨_, z, hcolon, h⟩
  · obtain ⟨-, rfl⟩ := refuses.lexical rfl name.settled h
    exact ((Name.moves name.phrase).before (sample_ruleColon.viable _)).before sample_body
  have colon := sound .ruleColon _ _ _ name.settled hcolon
  refine (head_moves name.phrase colon.phrase).before ?_
  rcases choose_eq_refuse.1 h with ⟨-, rfl⟩ | ⟨next, -, h⟩
  · exact sample_body.viable _
  · exact body_viable sound refuses colon.settled h

theorem ruleDef_further_viable (start : Token.startsAt x .ruleName)
    (unreferred : Token.startsAt x .ruleRef = false) (h : (ruleDef call).read x = .refuse v) :
    Viable (FurtherDef Legible) x v := by
  suffices Viable (Then FurtherHead (Phrase.Body Legible)) x v from
    this.mono FurtherDef.of_head
  simp only [read_ruleDef] at h
  rcases bind_eq_refuse.1 h with h | ⟨name, y, hname, h⟩
  · rw [(refuses.lexical rfl hx h).1] at start
    cases start
  have name := sound .ruleName _ _ _ hx hname
  rcases bind_eq_refuse.1 h with h | ⟨_, z, hcolon, h⟩
  · have missing := (refuses.lexical rfl name.settled h).1
    obtain ⟨m, -, -, colon⟩ := Name.colon name.phrase unreferred
    have : Token.charLength? ':' y = some 1 := if_pos colon
    rw [Token.startsAt, Token.length?, this] at missing
    cases missing
  have colon := sound .ruleColon _ _ _ name.settled hcolon
  refine (furtherHead_moves unreferred name.phrase colon.phrase).before ?_
  rcases choose_eq_refuse.1 h with ⟨-, rfl⟩ | ⟨next, -, h⟩
  · exact sample_body.viable _
  · exact body_viable sound refuses colon.settled h

theorem ruleSeq_further_viable {n : Nat} {rules : List Definition}
    (start : Token.startsAt x .ruleName) (unreferred : Token.startsAt x .ruleRef = false)
    (h : (ruleSeq call n rules).read x = .refuse v) : Viable (Spans (FurtherDefs Legible)) x v := by
  induction n generalizing x rules with
  | zero => cases h
  | succ n ih =>
    have one : ∀ {v}, Viable (FurtherDef Legible) x v → Viable (Spans (FurtherDefs Legible)) x v :=
      fun h => h.mono FurtherDefs.spans_one
    rw [read_ruleSeq] at h
    rcases bind_eq_refuse.1 h with h | ⟨d, y, hd, h⟩
    · exact one (refuses.further hx start unreferred h)
    have first := sound .ruleDef _ _ _ hx hd
    have moves := RuleDef.further_moves first.phrase unreferred
    rcases choose_eq_refuse.1 h with ⟨-, rfl⟩ | ⟨next, hnext, h⟩
    · exact one moves.viable
    split at h
    · rename_i hname
      subst hname
      have rest := ih first.settled (List.find?_some hnext) (first.closed rfl) h
      exact (moves.before rest).mono FurtherDefs.spans_more
    · cases h

theorem ruleSeq_viable {n : Nat} {rules : List Definition}
    (h : (ruleSeq call n rules).read x = .refuse v) : Viable (Spans (RuleSeq Legible)) x v := by
  cases n with
  | zero => cases h
  | succ n =>
    have one : ∀ {v}, Viable (Spans (RuleDef Legible)) x v → Viable (Spans (RuleSeq Legible)) x v :=
      fun h => h.mono RuleSeq.spans_one
    rw [read_ruleSeq] at h
    rcases bind_eq_refuse.1 h with h | ⟨d, y, hd, h⟩
    · exact one (refuses.phrase .ruleDef rfl hx h)
    have first := sound .ruleDef _ _ _ hx hd
    have moves := RuleDef.moves first.phrase
    rcases choose_eq_refuse.1 h with ⟨-, rfl⟩ | ⟨next, hnext, h⟩
    · exact one moves.viable
    split at h
    · rename_i hname
      subst hname
      have rest := ruleSeq_further_viable sound refuses first.settled (List.find?_some hnext)
        (first.closed rfl) h
      exact (moves.before rest).mono RuleSeq.spans
    · cases h

omit hx in
theorem alternatives_viable {n : Nat} {items : List Expr} {item : Expr} {w : List Char}
    (first : Found Legible .seqExpr w item x)
    (h : (alternatives call n items).read x = .refuse v) :
    Viable (Spans (Alternatives Legible)) w v := by
  have moves := SeqExpr.moves first.phrase
  have stop : Viable (Spans (Alternatives Legible)) w x :=
    moves.viable.mono (Spans.imp .last)
  induction n generalizing w x item items with
  | zero => cases h
  | succ n ih =>
    rw [read_alternatives] at h
    rcases choose_eq_refuse.1 h with ⟨-, rfl⟩ | ⟨next, -, h⟩
    · exact stop
    split at h
    · rcases bind_eq_refuse.1 h with h | ⟨_, y, hbar, h⟩
      · obtain ⟨-, rfl⟩ := refuses.lexical rfl first.settled h
        exact stop
      have bar := sound .orExprOp _ _ _ first.settled hbar
      suffices Viable (Spans (Alternatives Legible)) y v from
        (moves.before ((Mark.moves bar.phrase (by decide)).before this)).mono
          Alternatives.spans_more
      rcases bind_eq_refuse.1 h with h | ⟨item', z, hitem, h⟩
      · exact (refuses.phrase .seqExpr rfl bar.settled h).mono (Spans.imp .last)
      have second := sound .seqExpr _ _ _ bar.settled hitem
      have moves' := SeqExpr.moves second.phrase
      exact ih second h moves' (moves'.viable.mono (Spans.imp .last))
    · cases h

theorem orExpr_viable {n : Nat} (h : (orExpr call n).read x = .refuse v) :
    Viable (Spans (OrExpr Legible)) x v := by
  rw [read_orExpr] at h
  rcases bind_eq_refuse.1 h with h | ⟨item, y, hitem, h⟩
  · exact (refuses.phrase .seqExpr rfl hx h).mono (Spans.imp fun h => .intro (.last h))
  · exact (alternatives_viable sound refuses (sound .seqExpr _ _ _ hx hitem) h).mono
      (Spans.imp .intro)

theorem codeBlocks_viable {follow : List Token} {n : Nat} {items : List Expr}
    (h : (codeBlocks call follow n items).read x = .refuse v) :
    Viable (Spans (CodeBlocks Legible)) x v := by
  induction n generalizing x items with
  | zero => cases h
  | succ n ih =>
    have stop : Viable (Spans (CodeBlocks Legible)) x x :=
      (Moves.empty (fun _ => ⟨_, .none⟩) x).viable
    rw [read_codeBlocks] at h
    rcases choose_eq_refuse.1 h with ⟨-, rfl⟩ | ⟨next, -, h⟩
    · exact stop
    split at h
    · rcases bind_eq_refuse.1 h with h | ⟨block, y, hblock, h⟩
      · rw [refuses.code hx h]
        exact stop
      have first := sound .code _ _ _ hx hblock
      exact ((Code.moves first.phrase).before (ih first.settled h)).mono CodeBlocks.spans_more
    · cases h

theorem sequenceItems_viable {n : Nat} {items : List Expr}
    (h : (sequenceItems call n items).read x = .refuse v) :
    Viable (Spans (Rounds Legible)) x v := by
  induction n generalizing x items with
  | zero => cases h
  | succ n ih =>
    have none : Sample (Spans (CodeBlocks Legible)) := by
      refine ⟨[], tame_nil, fun k _ => ?_⟩
      rw [List.nil_append, settle_line_feed]
      exact ⟨_, .none⟩
    rw [read_sequenceItems] at h
    rcases bind_eq_refuse.1 h with h | ⟨_, y, hfront, h⟩
    · exact ((codeBlocks_viable sound refuses hx h).before (sample_occExpr.seq none)).mono
        Rounds.spans_last
    obtain ⟨before, front, -, hy⟩ := codeBlocks_sound sound hx hfront
    rcases bind_eq_refuse.1 h with h | ⟨item, z, hitem, h⟩
    · exact (front.moves.before ((refuses.phrase .occExpr rfl hy h).before none)).mono
        Rounds.spans_last
    have item := sound .occExpr _ _ _ hy hitem
    have moves := OccExpr.moves item.phrase
    rcases bind_eq_refuse.1 h with h | ⟨_, w, hback, h⟩
    · exact (front.moves.before
        (moves.before (codeBlocks_viable sound refuses item.settled h))).mono Rounds.spans_last
    obtain ⟨after, back, -, hw⟩ := codeBlocks_sound sound item.settled hback
    rcases choose_eq_refuse.1 h with ⟨-, rfl⟩ | ⟨next, -, h⟩
    · exact (front.moves.seq (moves.seq back.moves)).viable.mono Rounds.spans_last
    split at h
    · exact (front.moves.before (moves.before (back.moves.before (ih hw h)))).mono Rounds.spans_more
    · cases h

omit sound in
theorem item_viable (h : (item call).read x = .refuse v) : Viable (Spans (Item Legible)) x v := by
  rw [read_item] at h
  split at h
  · exact (refuses.phrase .occ01Group rfl hx h).mono (Spans.imp .brackets)
  · split at h
    · exact (refuses.phrase .atom rfl hx h).mono (Spans.imp .atom)
    · cases h
      exact (sample_atom.mono (Spans.imp .atom)).viable x

omit sound in
/-- A trailer is looked for before it is taken, so it is refused where it should stand. -/
theorem trailer_refuses (h : (trailer call).read x = .refuse v) : v = x := by
  have key : ∀ (r : Rule) (o : Occurrence), r.lexical.isSome →
      ((call r).read x).bind (fun _ y => .yield o y) = .refuse v → v = x := by
    intro r o hr h
    obtain ⟨⟨t, g⟩, hr⟩ := Option.isSome_iff_exists.1 hr
    rcases bind_eq_refuse.1 h with h | ⟨_, _, -, ⟨⟩⟩
    exact (refuses.lexical hr hx h).2
  rw [read_trailer] at h
  split at h
  · exact key .occ01Trailer _ rfl h
  · split at h
    · exact key .occ0mTrailer _ rfl h
    · split at h
      · exact key .occ1mTrailer _ rfl h
      · cases h
        rfl

theorem occExpr_viable (h : (occExpr call).read x = .refuse v) :
    Viable (Spans (OccExpr Legible)) x v := by
  have plain : ∀ {v}, Viable (Spans (Item Legible)) x v → Viable (Spans (OccExpr Legible)) x v :=
    fun h => h.mono (Spans.imp .plain)
  rw [read_occExpr] at h
  rcases bind_eq_refuse.1 h with h | ⟨e, y, hitem, h⟩
  · exact plain (item_viable refuses hx h)
  obtain ⟨item, hy⟩ := item_sound sound hx hitem
  rcases choose_eq_refuse.1 h with ⟨-, rfl⟩ | ⟨next, -, h⟩
  · exact plain item.moves.viable
  split at h
  · rcases bind_eq_refuse.1 h with h | ⟨_, _, -, ⟨⟩⟩
    rw [trailer_refuses refuses hy h]
    exact plain item.moves.viable
  · cases h

theorem enclosed_viable {r s : Rule} {t u : Token} {α : Type} {f : Expr → α}
    {g : List Char → r.Output} {g' : List Char → s.Output} (hr : r.lexical = some (t, g))
    (hs : s.lexical = some (u, g'))
    (ht : Sample (Mark t)) (hu : Sample (Mark u)) (htextEnd : t ≠ .textEnd)
    (h : (((call r).read x).bind fun _ y => ((call .orExpr).read y).bind fun e z =>
      ((call s).read z).bind fun _ w => yield (f e) w) = .refuse v) :
    Viable (Then (Mark t) (Then (Spans (OrExpr Legible)) (Mark u))) x v := by
  rcases bind_eq_refuse.1 h with h | ⟨_, y, hopening, h⟩
  · obtain ⟨-, rfl⟩ := refuses.lexical hr hx h
    exact (ht.seq (sample_orExpr.seq hu)).viable _
  have opening := sound r _ _ _ hx hopening
  obtain ⟨lexeme, takes, -⟩ := (of_lexical hr).1 opening.phrase
  refine (Mark.moves ⟨lexeme, takes⟩ htextEnd).before ?_
  rcases bind_eq_refuse.1 h with h | ⟨e, z, hinner, h⟩
  · exact (refuses.phrase .orExpr rfl opening.settled h).before hu
  have inner := sound .orExpr _ _ _ opening.settled hinner
  refine (OrExpr.moves inner.phrase).before ?_
  rcases bind_eq_refuse.1 h with h | ⟨_, _, -, ⟨⟩⟩
  obtain ⟨-, rfl⟩ := refuses.lexical hs inner.settled h
  exact hu.viable _

theorem occ01Group_viable (h : (occ01Group call).read x = .refuse v) :
    Viable (Spans (Occ01Group Legible)) x v := by
  rw [read_occ01Group] at h
  exact (enclosed_viable sound refuses hx rfl rfl (sample_mark rfl (by decide) (by decide))
    (sample_mark rfl (by decide) (by decide)) (by decide) h).mono Occ01Group.spans

theorem group_viable (h : (group call).read x = .refuse v) :
    Viable (Spans (Group Legible)) x v := by
  rw [read_group] at h
  exact (enclosed_viable sound refuses hx rfl rfl (sample_mark rfl (by decide) (by decide))
    sample_brktEnd (by decide) h).mono Group.spans

theorem atom_viable (h : (atom call).read x = .refuse v) : Viable (Spans (Atom Legible)) x v := by
  rw [read_atom] at h
  split at h
  · have pattern : ∀ {v}, Viable (Then (Spans RegexStr) (Spans (Optionally ArgsDef))) x v →
        Viable (Spans (Atom Legible)) x v :=
      fun h => h.mono Atom.spans_pattern
    rcases bind_eq_refuse.1 h with h | ⟨source, y, hsource, h⟩
    · obtain ⟨-, rfl⟩ := refuses.lexical rfl hx h
      exact sample_atom.viable _
    have source := sound .regexStr _ _ _ hx hsource
    have moves := RegexStr.moves source.phrase
    rcases choose_eq_refuse.1 h with ⟨-, rfl⟩ | ⟨next, -, h⟩
    · exact pattern (moves.seq (Moves.empty (fun _ => ⟨_, .absent⟩) _)).viable
    · rcases bind_eq_refuse.1 h with h | ⟨_, _, -, ⟨⟩⟩
      exact pattern (moves.before (optionalArgs_viable refuses source.settled h))
  · split at h
    · obtain ⟨-, rfl⟩ := refuses.lexical rfl hx h
      exact sample_atom.viable _
    · split at h
      · exact (refuses.phrase .group rfl hx h).mono (Spans.imp .group)
      · cases h
        exact sample_atom.viable x

omit sound refuses hx in
theorem code_refuses (h : code.read x = .refuse v) : v = x := by
  rw [read_code] at h
  split at h
  · split at h <;> cases h
  · cases h
    rfl

end Body

open Body Reading

variable {Legible : List Char → Prop}

theorem body_refuses {call : (r : Rule) → Handler r.Output} (sound : Sound Legible call)
    (refuses : Refuses Legible call) {n : Nat} {r : Rule} {x v : List Char}
    (hr : r.composite = true) (hx : Settled x) (h : (body call n r).read x = .refuse v) :
    Viable (Spans (Phrase.Of Legible r)) x v := by
  cases r <;> try (cases hr; done)
  case argsDef => exact argsDef_viable sound refuses hx h
  case argsGroup => exact argsGroup_viable sound refuses hx h
  case argItem => exact argItem_viable sound refuses hx h
  case argExpr => exact argExpr_viable sound refuses hx h
  case argVal => exact refuses.phrase .litVal rfl hx h
  case litVal => exact litVal_viable refuses hx h
  case ruleSeq => exact ruleSeq_viable sound refuses hx h
  case ruleDef => exact ruleDef_viable sound refuses hx h
  case orExpr => exact orExpr_viable sound refuses hx h
  case seqExpr =>
    exact (sequenceItems_viable sound refuses hx h).mono (Spans.imp .intro)
  case occExpr => exact occExpr_viable sound refuses hx h
  case occ01Group => exact occ01Group_viable sound refuses hx h
  case atom => exact atom_viable sound refuses hx h
  case group => exact group_viable sound refuses hx h

theorem read_calls_refuse {n : Nat} {r : Rule} {x v : List Char} (hx : Settled x)
    (h : (calls (n + 1) r).read x = .refuse v) : (body (calls n) n r).read x = .refuse v := by
  rw [read_calls_succ n r hx] at h
  obtain ⟨u, hu, huv⟩ := settled_eq_refuse.1 h
  have settled : Settled u := (careful_handler (n + 1) r).settled_of_refuse hx hu
  rwa [← huv, settled.eq]

theorem calls_refuses (legible : ∀ l text, Fenced.body? l = some text → Legible l) (n : Nat) :
    Refuses Legible (calls n) := by
  induction n with
  | zero =>
    have abort : ∀ {r : Rule} {x v : List Char}, (calls 0 r).read x ≠ .refuse v := by
      intro r x v h
      rw [calls, Handler.read_call] at h
      cases h
    exact ⟨fun _ _ h => absurd h abort, fun _ h => absurd h abort,
      fun _ _ _ _ _ h => absurd h abort, fun _ _ _ h => absurd h abort⟩
  | succ n ih =>
    have sound : Sound Legible (calls n) := calls_sound legible n
    constructor
    · intro r t g x v hr hx h
      rw [read_calls_succ n r hx, read_body_lexical hr] at h
      exact (settled_taking_eq_refuse hx).1 h
    · intro x v hx h
      exact code_refuses (read_calls_refuse hx h)
    · intro r x v hr hx h
      exact body_refuses sound ih hr hx (read_calls_refuse hx h)
    · intro x v hx start unreferred h
      exact ruleDef_further_viable sound ih hx start unreferred (read_calls_refuse hx h)

/-- Where the handler of a whole grammar refuses, some tame text completes what is in front. -/
theorem all_viable (legible : ∀ l text, Fenced.body? l = some text → Legible l) {n : Nat}
    {x v : List Char} (hx : Settled x) (h : (calls n .all).read x = .refuse v) :
    ∃ p, x = p ++ v ∧ ∃ w, Tame w ∧ ∃ g, All Legible (settle (p ++ '\n' :: w)) g [] := by
  cases n with
  | zero =>
    rw [calls, Handler.read_call] at h
    cases h
  | succ n =>
    have sound : Sound Legible (calls n) := calls_sound legible n
    have refuses := calls_refuses legible n
    -- The end of the text is no phrase that anything could stand behind, so it is added last.
    suffices Viable (Then (Spans (Optionally ArgsDef)) (Spans (RuleSeq Legible))) x v by
      obtain ⟨p, hx, w, hw, hP⟩ := this
      obtain ⟨y, ⟨options, hoptions⟩, rules, hrules⟩ := hP [] tame_nil
      exact ⟨p, hx, w ++ ['\n'], tame_append.2 ⟨hw, by decide⟩, _,
        .intro hoptions hrules ⟨[], 0, rfl, rfl, rfl⟩⟩
    have here : Sample (Then (Spans (Optionally ArgsDef)) (Spans (RuleSeq Legible))) :=
      sample_ruleSeq.mono fun h => ⟨_, ⟨_, .absent⟩, h⟩
    have h := read_calls_refuse hx h
    simp only [body, read_all] at h
    rcases choose_eq_refuse.1 h with ⟨-, rfl⟩ | ⟨next, -, h⟩
    · exact here.viable _
    rcases bind_eq_refuse.1 h with h | ⟨options, y, hoptions, h⟩
    · exact (optionalArgs_viable refuses hx h).before sample_ruleSeq
    obtain ⟨options, hy⟩ := optionalArgs_sound sound hx hoptions
    refine options.moves.before ?_
    rcases bind_eq_refuse.1 h with h | ⟨rules, z, hrules, h⟩
    · exact refuses.phrase .ruleSeq rfl hy h
    have rules := sound .ruleSeq _ _ _ hy hrules
    rcases bind_eq_refuse.1 h with h | ⟨_, _, -, ⟨⟩⟩
    obtain ⟨-, rfl⟩ := refuses.lexical rfl rules.settled h
    exact (RuleSeq.moves rules.phrase).viable

end Rule

end GrammarKit
