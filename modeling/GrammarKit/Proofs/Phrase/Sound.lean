import GrammarKit.Proofs.Phrase
import GrammarKit.Proofs.Rule.Reading
import GrammarKit.Proofs.Sorted

/-!
Whatever the handlers yield is a phrase of their rule. The proof goes body by body, each under the
assumption that the rules it calls yield phrases, and then by induction on the depth of calls.

An expression that ends is in addition not followed by a reference, since the handler would have
gone on with it. So a rule that follows begins with a name that is no reference.
-/

namespace GrammarKit

/-- The arguments that a list of pairs stands for. -/
theorem args_eq_ofList {args : Args} {pairs : List (String × Value)} :
    (∀ k, args.get? k = lastValue pairs k) ↔ args = SortedMap.ofList pairs := by
  have last : ∀ k, (SortedMap.ofList pairs).get? k = lastValue pairs k := by
    intro k
    rw [SortedMap.get?_ofList, SortedMap.find?, lastValue]
    congr 2
    funext e
    by_cases h : e.1 = k
    · simp [h]
    · simp [h, Ne.symm h]
  constructor
  · intro h
    exact SortedMap.ext_get? fun k => (h k).trans (last k).symm
  · rintro rfl
    exact last

namespace Phrase

theorem regexStr_iff {x y : List Char} {a : String} : RegexStr x a y ↔ ∃ lexeme,
    Token.regexStr.Takes x lexeme y ∧ a = String.ofList ((decodeQuoted lexeme).getD []) := by
  constructor
  · rintro ⟨takes, decoded⟩
    exact ⟨_, takes, by rw [decoded, Option.getD_some]⟩
  · rintro ⟨lexeme, takes, rfl⟩
    obtain ⟨n, hn, rfl, -⟩ := id takes
    obtain ⟨text, decoded⟩ := exists_decodeQuoted hn
    rw [decoded]
    exact .intro takes decoded

theorem litNum_iff {x y : List Char} {v : Value} : LitNum x v y ↔
    ∃ lexeme, Token.litNum.Takes x lexeme y ∧ v = (Value.ofNumber? lexeme).getD .none := by
  constructor
  · rintro ⟨takes, decoded⟩
    exact ⟨_, takes, by rw [decoded, Option.getD_some]⟩
  · rintro ⟨lexeme, takes, rfl⟩
    obtain ⟨n, hn, rfl, -⟩ := id takes
    obtain ⟨v, decoded⟩ := exists_ofNumber? hn
    rw [decoded]
    exact .intro takes decoded

theorem name_iff {x y : List Char} {a : String} : Name x a y ↔
    ∃ lexeme, Token.ruleName.Takes x lexeme y ∧ a = String.ofList lexeme := by
  constructor
  · rintro ⟨takes⟩
    exact ⟨_, takes, rfl⟩
  · rintro ⟨lexeme, takes, rfl⟩
    exact .intro takes

theorem litBool_iff {x y : List Char} {v : Value} : LitBool x v y ↔
    ∃ lexeme, Token.litBool.Takes x lexeme y ∧ v = .bool (lexeme == ['T', 'r', 'u', 'e']) := by
  constructor
  · rintro ⟨takes⟩
    exact ⟨_, takes, rfl⟩
  · rintro ⟨lexeme, takes, rfl⟩
    exact .intro takes

theorem mark_iff {t : Token} {x y : List Char} {a : Unit} :
    Mark t x y ↔ ∃ lexeme, t.Takes x lexeme y ∧ a = () := by
  simp [Mark]

theorem of_lexical {Legible : List Char → Prop} {r : Rule} {t : Token} {g : List Char → r.Output}
    (h : r.lexical = some (t, g)) {x : List Char} {a : r.Output} {y : List Char} :
    Of Legible r x a y ↔ ∃ lexeme, t.Takes x lexeme y ∧ a = g lexeme := by
  cases r <;> cases h
  case argKey | ruleName => exact name_iff
  case regexStr => exact regexStr_iff
  case litNum => exact litNum_iff
  case litBool => exact litBool_iff
  case litStr =>
    constructor
    · rintro ⟨text, literal, rfl⟩
      obtain ⟨lexeme, takes, rfl⟩ := regexStr_iff.1 literal
      exact ⟨lexeme, takes, rfl⟩
    · rintro ⟨lexeme, takes, rfl⟩
      exact ⟨_, regexStr_iff.2 ⟨lexeme, takes, rfl⟩, rfl⟩
  case litNone =>
    constructor
    · rintro ⟨⟨lexeme, takes⟩, rfl⟩
      exact ⟨lexeme, takes, rfl⟩
    · rintro ⟨lexeme, takes, rfl⟩
      exact ⟨⟨lexeme, takes⟩, rfl⟩
  case ruleRef => exact Iff.rfl
  all_goals exact mark_iff

end Phrase

namespace Rule

/-- Rules whose phrases no reference follows. -/
def closes : Rule → Bool
  | .orExpr | .seqExpr | .ruleDef => true
  | _ => false

theorem closes_of_lexical {r : Rule} {p : Token × (List Char → r.Output)} (h : r.lexical = some p) :
    r.closes = false := by
  cases r <;> first | rfl | cases h

structure Found (Legible : List Char → Prop) (r : Rule) (x : List Char) (a : r.Output)
    (y : List Char) : Prop where
  phrase : Phrase.Of Legible r x a y
  settled : Settled y
  closed : r.closes → Token.startsAt y .ruleRef = false

theorem Found.of_open {Legible : List Char → Prop} {r : Rule} (hr : r.closes = false)
    {x : List Char} {a : r.Output} {y : List Char} (phrase : Phrase.Of Legible r x a y)
    (settled : Settled y) : Found Legible r x a y := by
  refine ⟨phrase, settled, fun hc => ?_⟩
  rw [hr] at hc
  cases hc

def Sound (Legible : List Char → Prop) (call : (r : Rule) → Handler r.Output) : Prop :=
  ∀ (r : Rule) (x : List Char) (a : r.Output) (y : List Char), Settled x →
    (call r).read x = .yield a y → Found Legible r x a y

namespace Body

open Phrase Reading

variable {Legible : List Char → Prop} {call : (r : Rule) → Handler r.Output}
  (sound : Sound Legible call) {x : List Char} (hx : Settled x)

include sound hx

theorem optionalArgs_sound {next : Token} {args : Option Args} {y : List Char}
    (h : optionalArgs call next x = .yield args y) : Optionally ArgsDef x args y ∧ Settled y := by
  rw [optionalArgs] at h
  split at h
  · rw [bind_eq_yield] at h
    obtain ⟨a, y, ha, ⟨⟩⟩ := h
    have found := sound .argsDef x a y hx ha
    exact ⟨.present found.phrase, found.settled⟩
  · cases h
    exact ⟨.absent, hx⟩

theorem all_sound {g : Grammar} {y : List Char} (h : (all call).read x = .yield g y) :
    Found Legible .all x g y := by
  simp only [read_all, choose_eq_yield, bind_eq_yield] at h
  obtain ⟨next, -, options, x₁, hoptions, rules, x₂, hrules, _, x₃, hend, ⟨⟩⟩ := h
  obtain ⟨options, hx₁⟩ := optionalArgs_sound sound hx hoptions
  have rules := sound .ruleSeq _ _ _ hx₁ hrules
  have stop := sound .textEnd _ _ _ rules.settled hend
  exact .of_open rfl (.intro options rules.phrase stop.phrase) stop.settled

theorem argsDef_sound {args : Args} {y : List Char} (h : (argsDef call).read x = .yield args y) :
    Found Legible .argsDef x args y := by
  simp only [read_argsDef, bind_eq_yield] at h
  obtain ⟨_, x₁, hsign, pairs, x₂, hgroup, ⟨⟩⟩ := h
  have sign := sound .argsSign _ _ _ hx hsign
  have group := sound .argsGroup _ _ _ sign.settled hgroup
  exact .of_open rfl (.intro sign.phrase group.phrase (args_eq_ofList.2 rfl)) group.settled

theorem argsGroup_sound {pairs : List (String × Value)} {y : List Char}
    (h : (argsGroup call).read x = .yield pairs y) : Found Legible .argsGroup x pairs y := by
  simp only [read_argsGroup, bind_eq_yield] at h
  obtain ⟨_, x₁, hopening, h⟩ := h
  have opening := sound .brktBeg _ _ _ hx hopening
  split at h
  · obtain ⟨_, x₂, hclose, ⟨⟩⟩ := bind_eq_yield.1 h
    have close := sound .brktEnd _ _ _ opening.settled hclose
    exact .of_open rfl (.empty opening.phrase close.phrase) close.settled
  · split at h
    · have items := sound .argItem _ _ _ opening.settled h
      exact .of_open rfl (.items opening.phrase items.phrase) items.settled
    · cases h

theorem argItem_sound {pairs : List (String × Value)} {y : List Char}
    (h : (argItem call).read x = .yield pairs y) : Found Legible .argItem x pairs y := by
  simp only [read_argItem, bind_eq_yield] at h
  obtain ⟨pair, x₁, hpair, h⟩ := h
  have first := sound .argExpr _ _ _ hx hpair
  split at h
  · obtain ⟨_, x₂, hclose, ⟨⟩⟩ := bind_eq_yield.1 h
    have close := sound .brktEnd _ _ _ first.settled hclose
    exact .of_open rfl (.last first.phrase close.phrase) close.settled
  · split at h
    · obtain ⟨_, x₂, hcomma, h⟩ := bind_eq_yield.1 h
      have comma := sound .argSep _ _ _ first.settled hcomma
      split at h
      · obtain ⟨_, x₃, hclose, ⟨⟩⟩ := bind_eq_yield.1 h
        have close := sound .brktEnd _ _ _ comma.settled hclose
        exact .of_open rfl (.lastComma first.phrase comma.phrase close.phrase) close.settled
      · split at h
        · obtain ⟨pairs, x₃, hrest, ⟨⟩⟩ := bind_eq_yield.1 h
          have rest := sound .argItem _ _ _ comma.settled hrest
          exact .of_open rfl (.more first.phrase comma.phrase rest.phrase) rest.settled
        · cases h
    · cases h

theorem argExpr_sound {pair : String × Value} {y : List Char}
    (h : (argExpr call).read x = .yield pair y) : Found Legible .argExpr x pair y := by
  simp only [read_argExpr, bind_eq_yield] at h
  obtain ⟨key, x₁, hkey, _, x₂, hsign, v, x₃, hv, ⟨⟩⟩ := h
  have key := sound .argKey _ _ _ hx hkey
  have sign := sound .argKvsep _ _ _ key.settled hsign
  have value := sound .argVal _ _ _ sign.settled hv
  exact .of_open rfl (.intro key.phrase sign.phrase value.phrase) value.settled

theorem litVal_sound {v : Value} {y : List Char} (h : (litVal call).read x = .yield v y) :
    Found Legible .litVal x v y := by
  rw [read_litVal] at h
  split at h
  · have found := sound .litStr _ _ _ hx h
    obtain ⟨text, literal, rfl⟩ := found.phrase
    exact .of_open rfl (.str literal) found.settled
  · split at h
    · have found := sound .litNum _ _ _ hx h
      exact .of_open rfl (.num found.phrase) found.settled
    · split at h
      · have found := sound .litBool _ _ _ hx h
        exact .of_open rfl (.bool found.phrase) found.settled
      · split at h
        · have found := sound .litNone _ _ _ hx h
          obtain ⟨mark, rfl⟩ := found.phrase
          exact .of_open rfl (.none mark) found.settled
        · cases h

theorem ruleSeq_sound {n : Nat} {rules result : List Definition} {y : List Char}
    (h : (ruleSeq call n rules).read x = .yield result y) :
    ∃ d ds z, RuleDef Legible x d z ∧ FurtherDefs Legible z ds y ∧
      result = rules.reverse ++ d :: ds ∧ Settled y := by
  induction n generalizing x rules with
  | zero => cases h
  | succ n ih =>
    simp only [read_ruleSeq, bind_eq_yield, choose_eq_yield] at h
    obtain ⟨d, z, hd, next, -, h⟩ := h
    have first := sound .ruleDef _ _ _ hx hd
    split at h
    · obtain ⟨d', ds, w, second, further, hresult, hy⟩ := ih first.settled h
      refine ⟨d, d' :: ds, z, first.phrase, .more (first.closed rfl) second further, ?_, hy⟩
      rw [hresult, List.reverse_cons, List.append_assoc, List.singleton_append]
    · cases h
      exact ⟨d, [], y, first.phrase, .none, List.reverse_cons, first.settled⟩

theorem ruleDef_sound {d : Definition} {y : List Char} (h : (ruleDef call).read x = .yield d y) :
    Found Legible .ruleDef x d y := by
  simp only [read_ruleDef, bind_eq_yield, choose_eq_yield] at h
  obtain ⟨name, x₁, hname, _, x₂, hcolon, next, -, args, x₃, hargs, body, x₄, hbody, ⟨⟩⟩ := h
  have name := sound .ruleName _ _ _ hx hname
  have colon := sound .ruleColon _ _ _ name.settled hcolon
  obtain ⟨args, hx₃⟩ := optionalArgs_sound sound colon.settled hargs
  have body := sound .orExpr _ _ _ hx₃ hbody
  exact ⟨.intro name.phrase colon.phrase args body.phrase, body.settled, fun _ => body.closed rfl⟩

omit hx in
theorem alternatives_sound {n : Nat} {items : List Expr} {item e : Expr} {w y : List Char}
    (first : Found Legible .seqExpr w item x)
    (h : (alternatives call n (item :: items)).read x = .yield e y) :
    ∃ es, Alternatives Legible w (item :: es) y ∧ e = .ofChoice (items.reverse ++ item :: es) ∧
      Settled y ∧ Token.startsAt y .ruleRef = false := by
  induction n generalizing w x item items with
  | zero => cases h
  | succ n ih =>
    simp only [read_alternatives, choose_eq_yield] at h
    obtain ⟨next, -, h⟩ := h
    split at h
    · simp only [bind_eq_yield] at h
      obtain ⟨_, x₁, hbar, item', x₂, hitem, h⟩ := h
      have bar := sound .orExprOp _ _ _ first.settled hbar
      have second := sound .seqExpr _ _ _ bar.settled hitem
      obtain ⟨es, rest, he, hy⟩ := ih second h
      refine ⟨item' :: es, .more first.phrase bar.phrase rest, ?_, hy⟩
      rw [he, List.reverse_cons, List.append_assoc, List.singleton_append]
    · cases h
      exact ⟨[], .last first.phrase, by rw [List.reverse_cons], first.settled, first.closed rfl⟩

theorem orExpr_sound {n : Nat} {e : Expr} {y : List Char}
    (h : (orExpr call n).read x = .yield e y) : Found Legible .orExpr x e y := by
  simp only [read_orExpr, bind_eq_yield] at h
  obtain ⟨item, z, hitem, h⟩ := h
  obtain ⟨es, all, rfl, hy, closed⟩ :=
    alternatives_sound sound (sound .seqExpr _ _ _ hx hitem) h
  exact ⟨.intro all, hy, fun _ => closed⟩

theorem codeBlocks_sound {follow : List Token} {n : Nat} {items result : List Expr} {y : List Char}
    (h : (codeBlocks call follow n items).read x = .yield result y) :
    ∃ blocks, CodeBlocks Legible x blocks y ∧ result = blocks.reverse ++ items ∧ Settled y := by
  induction n generalizing x items with
  | zero => cases h
  | succ n ih =>
    simp only [read_codeBlocks, choose_eq_yield] at h
    obtain ⟨next, -, h⟩ := h
    split at h
    · simp only [bind_eq_yield] at h
      obtain ⟨block, x₁, hblock, h⟩ := h
      have first := sound .code _ _ _ hx hblock
      obtain ⟨blocks, rest, hresult, hy⟩ := ih first.settled h
      refine ⟨block :: blocks, .more first.phrase rest, ?_, hy⟩
      rw [hresult, List.reverse_cons, List.append_assoc, List.singleton_append]
    · cases h
      exact ⟨[], .none, rfl, hx⟩

theorem sequenceItems_sound {n : Nat} {items : List Expr} {e : Expr} {y : List Char}
    (h : (sequenceItems call n items).read x = .yield e y) :
    ∃ more, Rounds Legible x more y ∧ e = .ofSequence (items.reverse ++ more) ∧ Settled y ∧
      Token.startsAt y .ruleRef = false := by
  induction n generalizing x items with
  | zero => cases h
  | succ n ih =>
    simp only [read_sequenceItems, bind_eq_yield, choose_eq_yield] at h
    obtain ⟨_, x₁, hfront, item, x₂, hitem, _, x₃, hback, next, hnext, h⟩ := h
    obtain ⟨before, front, rfl, hx₁⟩ := codeBlocks_sound sound hx hfront
    have item := sound .occExpr _ _ _ hx₁ hitem
    obtain ⟨after, back, rfl, hx₃⟩ := codeBlocks_sound sound item.settled hback
    split at h
    · obtain ⟨more, rest, rfl, hy⟩ := ih hx₃ h
      refine ⟨_, .more front item.phrase back rest, ?_, hy⟩
      simp
    · rename_i hother
      cases h
      refine ⟨_, .last front item.phrase back, by simp, hx₃, ?_⟩
      -- A reference would have been found first.
      rw [← Bool.not_eq_true]
      intro hrefers
      rw [List.find?_cons_of_pos hrefers] at hnext
      cases hnext
      exact hother (by decide)

omit sound hx in
theorem code_sound (legible : ∀ l text, Fenced.body? l = some text → Legible l) {e : Expr}
    {y : List Char} (h : code.read x = .yield e y) : Phrase.Code Legible x e (settle y) := by
  rw [read_code] at h
  cases hn : Token.code.length? x with
  | none => simp [hn] at h
  | some n =>
    cases hbody : Fenced.body? (x.take n) with
    | none => simp [hn, hbody] at h
    | some text =>
      simp only [hn, hbody, yield.injEq] at h
      obtain ⟨rfl, rfl⟩ := h
      have : Phrase.Code Legible x (block (x.take n)) (settle (x.drop n)) :=
        .intro ⟨n, hn, rfl, rfl⟩ (legible _ _ hbody)
      rwa [block, hbody] at this

theorem item_sound {e : Expr} {y : List Char} (h : (item call).read x = .yield e y) :
    Item Legible x e y ∧ Settled y := by
  rw [read_item] at h
  split at h
  · have found := sound .occ01Group _ _ _ hx h
    exact ⟨.brackets found.phrase, found.settled⟩
  · split at h
    · have found := sound .atom _ _ _ hx h
      exact ⟨.atom found.phrase, found.settled⟩
    · cases h

theorem trailer_sound {o : Occurrence} {y : List Char} (h : (trailer call).read x = .yield o y) :
    Mark o.token x y ∧ Settled y := by
  rw [read_trailer] at h
  split at h
  · obtain ⟨_, _, hmark, ⟨⟩⟩ := bind_eq_yield.1 h
    have mark := sound .occ01Trailer _ _ _ hx hmark
    exact ⟨mark.phrase, mark.settled⟩
  · split at h
    · obtain ⟨_, _, hmark, ⟨⟩⟩ := bind_eq_yield.1 h
      have mark := sound .occ0mTrailer _ _ _ hx hmark
      exact ⟨mark.phrase, mark.settled⟩
    · split at h
      · obtain ⟨_, _, hmark, ⟨⟩⟩ := bind_eq_yield.1 h
        have mark := sound .occ1mTrailer _ _ _ hx hmark
        exact ⟨mark.phrase, mark.settled⟩
      · cases h

theorem occExpr_sound {e : Expr} {y : List Char} (h : (occExpr call).read x = .yield e y) :
    Found Legible .occExpr x e y := by
  simp only [read_occExpr, bind_eq_yield, choose_eq_yield] at h
  obtain ⟨e, x₁, hitem, next, -, h⟩ := h
  obtain ⟨item, hx₁⟩ := item_sound sound hx hitem
  split at h
  · obtain ⟨o, x₂, htrailer, ⟨⟩⟩ := bind_eq_yield.1 h
    obtain ⟨trailer, hx₂⟩ := trailer_sound sound hx₁ htrailer
    exact .of_open rfl (.marked item o trailer) hx₂
  · cases h
    exact .of_open rfl (.plain item) hx₁

theorem occ01Group_sound {e : Expr} {y : List Char} (h : (occ01Group call).read x = .yield e y) :
    Found Legible .occ01Group x e y := by
  simp only [read_occ01Group, bind_eq_yield] at h
  obtain ⟨_, x₁, hopening, e, x₂, hinner, _, x₃, hclose, ⟨⟩⟩ := h
  have opening := sound .sqrbrktBeg _ _ _ hx hopening
  have inner := sound .orExpr _ _ _ opening.settled hinner
  have close := sound .sqrbrktEnd _ _ _ inner.settled hclose
  exact .of_open rfl (.intro opening.phrase inner.phrase close.phrase) close.settled

theorem atom_sound {e : Expr} {y : List Char} (h : (atom call).read x = .yield e y) :
    Found Legible .atom x e y := by
  rw [read_atom] at h
  split at h
  · simp only [bind_eq_yield, choose_eq_yield] at h
    obtain ⟨source, x₁, hsource, next, -, args, x₂, hargs, ⟨⟩⟩ := h
    have source := sound .regexStr _ _ _ hx hsource
    obtain ⟨args, hx₂⟩ := optionalArgs_sound sound source.settled hargs
    exact .of_open rfl (.pattern source.phrase args) hx₂
  · rename_i hunquoted
    split at h
    · have found := sound .ruleRef _ _ _ hx h
      obtain ⟨lexeme, takes, rfl⟩ := found.phrase
      exact .of_open rfl (.reference takes (by simpa using hunquoted)) found.settled
    · split at h
      · have found := sound .group _ _ _ hx h
        exact .of_open rfl (.group found.phrase) found.settled
      · cases h

theorem group_sound {e : Expr} {y : List Char} (h : (group call).read x = .yield e y) :
    Found Legible .group x e y := by
  simp only [read_group, bind_eq_yield] at h
  obtain ⟨_, x₁, hopening, e, x₂, hinner, _, x₃, hclose, ⟨⟩⟩ := h
  have opening := sound .brktBeg _ _ _ hx hopening
  have inner := sound .orExpr _ _ _ opening.settled hinner
  have close := sound .brktEnd _ _ _ inner.settled hclose
  exact .of_open rfl (.intro opening.phrase inner.phrase close.phrase) close.settled

end Body

open Body

variable {Legible : List Char → Prop} (legible : ∀ l text, Fenced.body? l = some text → Legible l)

include legible

theorem body_sound {call : (r : Rule) → Handler r.Output} (sound : Sound Legible call) {n : Nat}
    {r : Rule} {x y : List Char} {a : r.Output} (hx : Settled x)
    (h : ((body call n r).read x).settled = .yield a y) : Found Legible r x a y := by
  cases hr : r.lexical with
  | some lexical =>
    obtain ⟨t, g⟩ := lexical
    rw [read_body_lexical hr, Reading.settled_taking_eq_yield] at h
    obtain ⟨lexeme, takes, rfl⟩ := h
    exact .of_open (closes_of_lexical hr) ((Phrase.of_lexical hr).2 ⟨lexeme, takes, rfl⟩)
      takes.settled_right
  | none =>
    obtain ⟨z, hz, hzy⟩ := Reading.settled_eq_yield.1 h
    have key : Found Legible r x a z → Found Legible r x a y := by
      intro found
      rwa [← hzy, found.settled.eq]
    cases r <;> try (cases hr; done)
    case all => exact key (all_sound sound hx hz)
    case argsDef => exact key (argsDef_sound sound hx hz)
    case argsGroup => exact key (argsGroup_sound sound hx hz)
    case argItem => exact key (argItem_sound sound hx hz)
    case argExpr => exact key (argExpr_sound sound hx hz)
    case argVal =>
      have found := sound .litVal _ _ _ hx hz
      exact key (.of_open rfl found.phrase found.settled)
    case litVal => exact key (litVal_sound sound hx hz)
    case ruleSeq =>
      obtain ⟨d, ds, w, first, rest, hds, settled⟩ := ruleSeq_sound sound hx hz
      rw [hds] at key ⊢
      exact key (.of_open rfl (.intro first rest) settled)
    case ruleDef => exact key (ruleDef_sound sound hx hz)
    case orExpr => exact key (orExpr_sound sound hx hz)
    case seqExpr =>
      obtain ⟨items, rounds, he, settled, closed⟩ := sequenceItems_sound sound hx hz
      rw [he] at key ⊢
      exact key ⟨.intro rounds, settled, fun _ => closed⟩
    case code =>
      rw [← hzy]
      exact .of_open rfl (code_sound legible hz) (settled_settle z)
    case occExpr => exact key (occExpr_sound sound hx hz)
    case occ01Group => exact key (occ01Group_sound sound hx hz)
    case atom => exact key (atom_sound sound hx hz)
    case group => exact key (group_sound sound hx hz)

omit legible in
def calls (n : Nat) (r : Rule) : Handler r.Output := Handler.call r (handler n r)

omit legible in
theorem read_calls_succ (n : Nat) (r : Rule) {x : List Char} (hx : Settled x) :
    (calls (n + 1) r).read x = ((body (calls n) n r).read x).settled := by
  rw [calls, Handler.read_call, hx.eq]
  rfl

theorem calls_sound (n : Nat) : Sound Legible (calls n) := by
  induction n with
  | zero =>
    intro r x a y hx h
    rw [calls, Handler.read_call] at h
    cases h
  | succ n ih =>
    intro r x a y hx h
    rw [read_calls_succ n r hx] at h
    exact body_sound legible ih hx h

end Rule

end GrammarKit
