import GrammarKit.Proofs.Handler.Reading
import GrammarKit.Proofs.Literal.Decoding
import GrammarKit.Proofs.Terminal
import GrammarKit.Rule.Handler

/-!
What the bodies of the rules read, as equations. Most rules take one token and yield what its lexeme
stands for; the others call rules in turn and choose between them by the next token. Whatever is
proved of the bodies further on starts from these equations.
-/

namespace GrammarKit

namespace Reading

variable {α : Type} {t : Token} {g : List Char → α} {x : List Char}

theorem settled_taking_eq_yield {a : α} {y : List Char} :
    (taking t g x).settled = yield a y ↔ ∃ lexeme, t.Takes x lexeme y ∧ a = g lexeme := by
  constructor
  · intro h
    cases hn : t.length? x with
    | none => simp [taking, hn, settled] at h
    | some n =>
      simp only [taking, hn, settled, yield.injEq] at h
      exact ⟨x.take n, ⟨n, hn, rfl, h.2.symm⟩, h.1.symm⟩
  · rintro ⟨_, ⟨n, hn, rfl, rfl⟩, rfl⟩
    simp only [taking, hn, settled]

theorem settled_taking_eq_refuse (hx : Settled x) {v : List Char} :
    (taking t g x).settled = refuse v ↔ Token.startsAt x t = false ∧ v = x := by
  rw [Token.startsAt, taking]
  cases t.length? x with
  | none => simp [settled, hx.eq, eq_comm]
  | some n => simp [settled]

theorem settled_taking_ne_abort {why : Abort} : (taking t g x).settled ≠ abort why := by
  rw [taking]
  split <;> simp [settled]

end Reading

namespace Rule

/-- Rules that take one token, with the token and what its lexeme stands for. -/
def lexical : (r : Rule) → Option (Token × (List Char → r.Output))
  | .textEnd => some (.textEnd, fun _ => ())
  | .argsSign => some (.argsSign, fun _ => ())
  | .brktBeg => some (.brktBeg, fun _ => ())
  | .brktEnd => some (.brktEnd, fun _ => ())
  | .argKey => some (.ruleName, String.ofList)
  | .argKvsep => some (.argKvsep, fun _ => ())
  | .litStr => some (.regexStr, fun l => .str (String.ofList ((decodeQuoted l).getD [])))
  | .litNum => some (.litNum, fun l => (Value.ofNumber? l).getD .none)
  | .litBool => some (.litBool, fun l => .bool (l == ['T', 'r', 'u', 'e']))
  | .litNone => some (.litNone, fun _ => .none)
  | .argSep => some (.argSep, fun _ => ())
  | .ruleName => some (.ruleName, String.ofList)
  | .ruleColon => some (.ruleColon, fun _ => ())
  | .orExprOp => some (.orExprOp, fun _ => ())
  | .sqrbrktBeg => some (.sqrbrktBeg, fun _ => ())
  | .sqrbrktEnd => some (.sqrbrktEnd, fun _ => ())
  | .occ01Trailer => some (.occ01Trailer, fun _ => ())
  | .occ0mTrailer => some (.occ0mTrailer, fun _ => ())
  | .occ1mTrailer => some (.occ1mTrailer, fun _ => ())
  | .regexStr => some (.regexStr, fun l => String.ofList ((decodeQuoted l).getD []))
  | .ruleRef => some (.ruleRef, fun l => .reference (String.ofList (trimEnd l)))
  | _ => none

namespace Body

open Handler

theorem read_mark (t : Token) (x : List Char) : (mark t).read x = .taking t (fun _ => ()) x :=
  read_lexeme_bind_done t _ x

theorem read_name (x : List Char) : name.read x = .taking .ruleName String.ofList x :=
  read_lexeme_bind_done .ruleName _ x

theorem read_regexStr (x : List Char) : regexStr.read x =
    .taking .regexStr (fun l => String.ofList ((decodeQuoted l).getD [])) x := by
  rw [regexStr, bind_eq, read_lexeme_bind, Reading.taking]
  cases hn : Token.regexStr.length? x with
  | none => rfl
  | some n =>
    obtain ⟨text, htext⟩ := exists_decodeQuoted hn
    simp [htext]

theorem read_litStr (x : List Char) : litStr.read x =
    .taking .regexStr (fun l => .str (String.ofList ((decodeQuoted l).getD []))) x := by
  rw [litStr, map_eq, read_bind, read_regexStr]
  simp only [Reading.taking]
  cases Token.regexStr.length? x <;> rfl

theorem read_litNum (x : List Char) : litNum.read x =
    .taking .litNum (fun l => (Value.ofNumber? l).getD .none) x := by
  rw [litNum, bind_eq, read_lexeme_bind, Reading.taking]
  cases hn : Token.litNum.length? x with
  | none => rfl
  | some n =>
    obtain ⟨v, hv⟩ := exists_ofNumber? hn
    simp [hv]

theorem read_litNone (x : List Char) : litNone.read x = .taking .litNone (fun _ => .none) x := by
  simp only [litNone, bind_eq, read_bind, read_mark, Reading.taking]
  cases Token.litNone.length? x <;> rfl

theorem read_code (x : List Char) : code.read x =
    match Token.code.length? x with
    | some n =>
      match Fenced.body? (x.take n) with
      | some text => .yield (.ofCode text) (x.drop n)
      | none => .abort .unevenFence
    | none => .refuse x := by
  rw [code, bind_eq, read_lexeme_bind]
  cases Token.code.length? x with
  | none => rfl
  | some n =>
    dsimp only
    cases Fenced.body? (x.take n) <;> rfl

end Body

theorem read_body_lexical {r : Rule} {t : Token} {g : List Char → r.Output}
    (h : r.lexical = some (t, g)) (call : (r : Rule) → Handler r.Output) (n : Nat) (x : List Char) :
    (body call n r).read x = .taking t g x := by
  cases r <;> cases h <;> first
    | exact Body.read_mark _ x
    | exact Body.read_name x
    | exact Body.read_regexStr x
    | exact Body.read_litStr x
    | exact Body.read_litNum x
    | exact Body.read_litNone x
    | exact Handler.read_lexeme_bind_done _ _ x

namespace Body

open Handler Reading

variable (call : (r : Rule) → Handler r.Output) (x : List Char)

def optionalArgs (next : Token) (x : List Char) : Reading (Option Args) :=
  if next = .argsSign then ((call .argsDef).read x).bind fun args y => yield (some args) y
  else yield none x

theorem read_all : (all call).read x =
    choose [.argsSign, .ruleName] x fun next =>
    (optionalArgs call next x).bind fun options y =>
    ((call .ruleSeq).read y).bind fun rules z =>
    ((call .textEnd).read z).bind fun _ w => yield ⟨options, rules⟩ w := by
  simp only [all, bind_eq, pure_eq, map_eq, read_expect_bind, Handler.bind_assoc, done_bind,
    read_ite, read_bind (call .argsDef), read_bind (call .ruleSeq), read_bind (call .textEnd),
    read_done, optionalArgs, Reading.ite_bind, Reading.bind_assoc, yield_bind]

theorem read_argsDef : (argsDef call).read x =
    ((call .argsSign).read x).bind fun _ y =>
    ((call .argsGroup).read y).bind fun pairs z => yield (SortedMap.ofList pairs) z := by
  simp only [argsDef, bind_eq, pure_eq, read_bind, read_done]

theorem read_argsGroup : (argsGroup call).read x =
    ((call .brktBeg).read x).bind fun _ y =>
    if Token.startsAt y .brktEnd then ((call .brktEnd).read y).bind fun _ z => yield [] z
    else if Token.startsAt y .ruleName then (call .argItem).read y
    else .refuse y := by
  simp only [argsGroup, bind_eq, pure_eq, read_bind (call .brktBeg), read_look_ite,
    read_lookBranch_ite, read_bind (call .brktEnd), read_done, read_refuse, List.any_cons,
    List.any_nil, Bool.or_false]

theorem read_argItem : (argItem call).read x =
    ((call .argExpr).read x).bind fun pair y =>
    if Token.startsAt y .brktEnd then ((call .brktEnd).read y).bind fun _ z => yield [pair] z
    else if Token.startsAt y .argSep then
      ((call .argSep).read y).bind fun _ z =>
      if Token.startsAt z .brktEnd then ((call .brktEnd).read z).bind fun _ w => yield [pair] w
      else if Token.startsAt z .ruleName then
        ((call .argItem).read z).bind fun pairs w => yield (pair :: pairs) w
      else .refuse z
    else .refuse y := by
  simp only [argItem, bind_eq, pure_eq, read_bind (call .argExpr), read_bind (call .argSep),
    read_bind (call .argItem), read_bind (call .brktEnd), read_look_ite, read_lookBranch_ite,
    read_done, read_refuse, List.any_cons, List.any_nil, Bool.or_false]

theorem read_argExpr : (argExpr call).read x =
    ((call .argKey).read x).bind fun key y =>
    ((call .argKvsep).read y).bind fun _ z =>
    ((call .argVal).read z).bind fun value w => yield (key, value) w := by
  simp only [argExpr, bind_eq, pure_eq, read_bind, read_done]

theorem read_litVal : (litVal call).read x =
    if Token.startsAt x .regexStr then (call .litStr).read x
    else if Token.startsAt x .litNum then (call .litNum).read x
    else if Token.startsAt x .litBool then (call .litBool).read x
    else if Token.startsAt x .litNone then (call .litNone).read x
    else .refuse x := by
  simp only [litVal, bind_eq, read_look_ite, read_lookBranch_ite, read_refuse, List.any_cons,
    List.any_nil, Bool.or_false]

theorem read_ruleSeq (n : Nat) (rules : List Definition) : (ruleSeq call (n + 1) rules).read x =
    ((call .ruleDef).read x).bind fun rule y =>
    choose [.ruleName, .textEnd] y fun next =>
    if next = .ruleName then (ruleSeq call n (rule :: rules)).read y
    else yield (rule :: rules).reverse y := by
  simp only [ruleSeq, bind_eq, pure_eq, read_bind (call .ruleDef), read_expect_bind, read_ite,
    read_done]

theorem read_ruleDef : (ruleDef call).read x =
    ((call .ruleName).read x).bind fun name y =>
    ((call .ruleColon).read y).bind fun _ z =>
    choose [.argsSign, .ruleRef, .regexStr, .code, .brktBeg, .sqrbrktBeg] z fun next =>
    (optionalArgs call next z).bind fun args w =>
    ((call .orExpr).read w).bind fun expr v => yield ⟨name, expr, args⟩ v := by
  simp only [ruleDef, bind_eq, pure_eq, map_eq, read_bind (call .ruleName),
    read_bind (call .ruleColon), read_expect_bind, Handler.bind_assoc, done_bind, read_ite,
    read_bind (call .argsDef), read_bind (call .orExpr), read_done, optionalArgs, Reading.ite_bind,
    Reading.bind_assoc, yield_bind]

theorem read_alternatives (n : Nat) (items : List Expr) : (alternatives call (n + 1) items).read x =
    choose [.orExprOp, .ruleName, .brktEnd, .sqrbrktEnd, .textEnd] x fun next =>
    if next = .orExprOp then
      ((call .orExprOp).read x).bind fun _ y =>
      ((call .seqExpr).read y).bind fun item z => (alternatives call n (item :: items)).read z
    else yield (.ofChoice items.reverse) x := by
  simp only [alternatives, bind_eq, pure_eq, read_expect_bind, read_ite, read_bind (call .orExprOp),
    read_bind (call .seqExpr), read_done]

theorem read_orExpr (n : Nat) : (orExpr call n).read x =
    ((call .seqExpr).read x).bind fun item y => (alternatives call n [item]).read y := by
  simp only [orExpr, bind_eq, read_bind]

theorem read_codeBlocks (follow : List Token) (n : Nat) (items : List Expr) :
    (codeBlocks call follow (n + 1) items).read x =
    choose follow x fun next =>
    if next = .code then
      ((call .code).read x).bind fun block y => (codeBlocks call follow n (block :: items)).read y
    else yield items x := by
  simp only [codeBlocks, bind_eq, pure_eq, read_expect_bind, read_ite, read_bind (call .code),
    read_done]

theorem read_sequenceItems (n : Nat) (items : List Expr) :
    (sequenceItems call (n + 1) items).read x =
    ((codeBlocks call itemStart n items).read x).bind fun items y =>
    ((call .occExpr).read y).bind fun item z =>
    ((codeBlocks call [.code, .ruleRef, .regexStr, .ruleName, .brktBeg, .brktEnd, .sqrbrktBeg,
      .sqrbrktEnd, .orExprOp, .textEnd] n (item :: items)).read z).bind fun items w =>
    choose [.ruleRef, .regexStr, .code, .brktBeg, .sqrbrktBeg, .ruleName, .brktEnd, .sqrbrktEnd,
      .orExprOp, .textEnd] w fun next =>
    if next ∈ itemStart then (sequenceItems call n items).read w
    else yield (.ofSequence items.reverse) w := by
  simp only [sequenceItems, bind_eq, pure_eq, read_bind (codeBlocks call _ _ _),
    read_bind (call .occExpr), read_expect_bind, read_ite, read_done]

theorem read_item : (item call).read x =
    if Token.startsAt x .sqrbrktBeg then (call .occ01Group).read x
    else if Token.startsAt x .ruleRef || Token.startsAt x .regexStr ||
        Token.startsAt x .brktBeg then
      (call .atom).read x
    else .refuse x := by
  simp only [item, bind_eq, read_look_ite, read_lookBranch_ite, read_refuse, List.any_cons,
    List.any_nil, Bool.or_false, Bool.or_assoc]

theorem read_trailer : (trailer call).read x =
    if Token.startsAt x .occ01Trailer then
      ((call .occ01Trailer).read x).bind fun _ y => yield .zeroOrOne y
    else if Token.startsAt x .occ0mTrailer then
      ((call .occ0mTrailer).read x).bind fun _ y => yield .zeroOrMore y
    else if Token.startsAt x .occ1mTrailer then
      ((call .occ1mTrailer).read x).bind fun _ y => yield .oneOrMore y
    else .refuse x := by
  simp only [trailer, bind_eq, pure_eq, read_look_ite, read_lookBranch_ite, read_refuse,
    read_bind (call .occ01Trailer), read_bind (call .occ0mTrailer), read_bind (call .occ1mTrailer),
    read_done, List.any_cons, List.any_nil, Bool.or_false]

theorem read_occExpr : (occExpr call).read x =
    ((item call).read x).bind fun e y =>
    choose [.occ0mTrailer, .occ1mTrailer, .occ01Trailer, .ruleRef, .regexStr, .ruleName, .code,
      .brktBeg, .brktEnd, .sqrbrktBeg, .sqrbrktEnd, .orExprOp, .textEnd] y fun next =>
    if next ∈ [Token.occ0mTrailer, .occ1mTrailer, .occ01Trailer] then
      ((trailer call).read y).bind fun occurrence z => yield (e.occur occurrence) z
    else yield e y := by
  simp only [occExpr, bind_eq, pure_eq, read_bind (item call), read_expect_bind, read_ite,
    read_bind (trailer call), read_done]

theorem read_occ01Group : (occ01Group call).read x =
    ((call .sqrbrktBeg).read x).bind fun _ y =>
    ((call .orExpr).read y).bind fun e z =>
    ((call .sqrbrktEnd).read z).bind fun _ w => yield (e.occur .zeroOrOne) w := by
  simp only [occ01Group, bind_eq, pure_eq, read_bind, read_done]

theorem read_atom : (atom call).read x =
    if Token.startsAt x .regexStr then
      ((call .regexStr).read x).bind fun source y =>
      choose [.argsSign, .ruleRef, .regexStr, .ruleName, .code, .brktBeg, .brktEnd, .occ0mTrailer,
        .occ1mTrailer, .occ01Trailer, .sqrbrktBeg, .sqrbrktEnd, .orExprOp, .textEnd] y fun next =>
      (optionalArgs call next y).bind fun args z => yield (.pattern ⟨source, args⟩) z
    else if Token.startsAt x .ruleRef then (call .ruleRef).read x
    else if Token.startsAt x .brktBeg then (call .group).read x
    else .refuse x := by
  simp only [atom, bind_eq, pure_eq, map_eq, read_look_ite, read_lookBranch_ite, read_refuse,
    read_bind (call .regexStr), read_expect_bind, Handler.bind_assoc, done_bind, read_ite,
    read_bind (call .argsDef), read_done, optionalArgs, Reading.ite_bind, Reading.bind_assoc,
    yield_bind, List.any_cons, List.any_nil, Bool.or_false]

theorem read_group : (group call).read x =
    ((call .brktBeg).read x).bind fun _ y =>
    ((call .orExpr).read y).bind fun e z =>
    ((call .brktEnd).read z).bind fun _ w => yield e w := by
  simp only [group, bind_eq, pure_eq, read_bind, read_done]

end Body

end Rule

end GrammarKit
