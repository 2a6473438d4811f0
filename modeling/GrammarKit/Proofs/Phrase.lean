import GrammarKit.Proofs.Terminal
import GrammarKit.Rule

/-!
Phrases of the grammar notation, apart from any way to find them:

```text
all         : [args_def] rule_seq end
args_def    : '@' args_group
args_group  : '(' (')' | arg_item)
arg_item    : arg_expr (')' | ',' (')' | arg_item))
arg_expr    : arg_key '=' arg_val
lit_val     : lit_str | lit_num | lit_bool | lit_none
rule_seq    : rule_def+
rule_def    : rule_name ':' [args_def] or_expr
or_expr     : seq_expr ('|' seq_expr)*
seq_expr    : (code* occ_expr code*)+
occ_expr    : (occ01_group | atom) ['?' | '*' | '+']
occ01_group : '[' or_expr ']'
atom        : regex_str [args_def] | rule_ref | group
group       : '(' or_expr ')'
```

A phrase stands at the start of a text, builds a value, and leaves the text behind it. Its terminals
follow one another with nothing but layout between them; alternatives, options and repetitions are
chosen freely. Two conditions settle what the terminals alone leave open: no reference is chosen
where a quoted literal stands, and every rule behind the first begins where no reference stands.
-/

namespace GrammarKit

def Occurrence.token : Occurrence → Token
  | zeroOrOne => .occ01Trailer
  | zeroOrMore => .occ0mTrailer
  | oneOrMore => .occ1mTrailer

def lastValue (pairs : List (String × Value)) (k : String) : Option Value :=
  (pairs.reverse.find? fun e => e.1 = k).map Prod.snd

namespace Phrase

def Mark (t : Token) (x y : List Char) : Prop := ∃ lexeme, t.Takes x lexeme y

inductive Optionally {α : Type} (P : List Char → α → List Char → Prop) :
    List Char → Option α → List Char → Prop
  | absent {x} : Optionally P x none x
  | present {x a y} (h : P x a y) : Optionally P x (some a) y

inductive Name : List Char → String → List Char → Prop
  | intro {x lexeme y} (h : Token.ruleName.Takes x lexeme y) : Name x (String.ofList lexeme) y

inductive RegexStr : List Char → String → List Char → Prop
  | intro {x lexeme y text} (h : Token.regexStr.Takes x lexeme y)
      (decoded : decodeQuoted lexeme = some text) : RegexStr x (String.ofList text) y

inductive LitNum : List Char → Value → List Char → Prop
  | intro {x lexeme y v} (h : Token.litNum.Takes x lexeme y)
      (decoded : Value.ofNumber? lexeme = some v) : LitNum x v y

inductive LitBool : List Char → Value → List Char → Prop
  | intro {x lexeme y} (h : Token.litBool.Takes x lexeme y) :
      LitBool x (.bool (lexeme == ['T', 'r', 'u', 'e'])) y

inductive LitVal : List Char → Value → List Char → Prop
  | str {x text y} (h : RegexStr x text y) : LitVal x (.str text) y
  | num {x v y} (h : LitNum x v y) : LitVal x v y
  | bool {x v y} (h : LitBool x v y) : LitVal x v y
  | none {x y} (h : Mark .litNone x y) : LitVal x .none y

inductive ArgExpr : List Char → String × Value → List Char → Prop
  | intro {w x y z k v} (key : Name w k x) (sign : Mark .argKvsep x y) (value : LitVal y v z) :
      ArgExpr w (k, v) z

inductive ArgItem : List Char → List (String × Value) → List Char → Prop
  | last {x y z pair} (h : ArgExpr x pair y) (close : Mark .brktEnd y z) : ArgItem x [pair] z
  | lastComma {w x y z pair} (h : ArgExpr w pair x) (comma : Mark .argSep x y)
      (close : Mark .brktEnd y z) : ArgItem w [pair] z
  | more {w x y z pair pairs} (h : ArgExpr w pair x) (comma : Mark .argSep x y)
      (rest : ArgItem y pairs z) : ArgItem w (pair :: pairs) z

inductive ArgsGroup : List Char → List (String × Value) → List Char → Prop
  | empty {x y z} (opening : Mark .brktBeg x y) (close : Mark .brktEnd y z) : ArgsGroup x [] z
  | items {x y z pairs} (opening : Mark .brktBeg x y) (items : ArgItem y pairs z) :
      ArgsGroup x pairs z

inductive ArgsDef : List Char → Args → List Char → Prop
  | intro {x y z pairs} {args : Args} (sign : Mark .argsSign x y) (group : ArgsGroup y pairs z)
      (values : ∀ k, args.get? k = lastValue pairs k) : ArgsDef x args z

def block (lexeme : List Char) : Expr := .ofCode ((Fenced.body? lexeme).getD [])

section

-- The lexemes that may be blocks of code.
variable (Legible : List Char → Prop)

inductive Code : List Char → Expr → List Char → Prop
  | intro {x lexeme y} (h : Token.code.Takes x lexeme y) (legible : Legible lexeme) :
      Code x (block lexeme) y

inductive CodeBlocks : List Char → List Expr → List Char → Prop
  | none {x} : CodeBlocks x [] x
  | more {x y z e es} (first : Code Legible x e y) (rest : CodeBlocks y es z) :
      CodeBlocks x (e :: es) z

mutual

inductive OrExpr : List Char → Expr → List Char → Prop
  | intro {x items y} (h : Alternatives x items y) : OrExpr x (.ofChoice items) y

inductive Alternatives : List Char → List Expr → List Char → Prop
  | last {x e y} (h : SeqExpr x e y) : Alternatives x [e] y
  | more {w x y z e es} (first : SeqExpr w e x) (bar : Mark .orExprOp x y)
      (rest : Alternatives y es z) : Alternatives w (e :: es) z

inductive SeqExpr : List Char → Expr → List Char → Prop
  | intro {x items y} (h : Rounds x items y) : SeqExpr x (.ofSequence items) y

inductive Rounds : List Char → List Expr → List Char → Prop
  | last {w x y z before e after} (front : CodeBlocks Legible w before x) (item : OccExpr x e y)
      (back : CodeBlocks Legible y after z) : Rounds w (before ++ e :: after) z
  | more {v w x y z before e after items} (front : CodeBlocks Legible v before w)
      (item : OccExpr w e x) (back : CodeBlocks Legible x after y) (rest : Rounds y items z) :
      Rounds v (before ++ e :: (after ++ items)) z

inductive OccExpr : List Char → Expr → List Char → Prop
  | plain {x e y} (item : Item x e y) : OccExpr x e y
  | marked {x y z e} (item : Item x e y) (o : Occurrence) (trailer : Mark o.token y z) :
      OccExpr x (e.occur o) z

/-- What an occurrence mark may stand behind. -/
inductive Item : List Char → Expr → List Char → Prop
  | brackets {x e y} (h : Occ01Group x e y) : Item x e y
  | atom {x e y} (h : Atom x e y) : Item x e y

inductive Occ01Group : List Char → Expr → List Char → Prop
  | intro {w x y z e} (opening : Mark .sqrbrktBeg w x) (inner : OrExpr x e y)
      (close : Mark .sqrbrktEnd y z) : Occ01Group w (e.occur .zeroOrOne) z

inductive Atom : List Char → Expr → List Char → Prop
  | pattern {x y z source args} (literal : RegexStr x source y)
      (h : Optionally ArgsDef y args z) : Atom x (.pattern ⟨source, args⟩) z
  | reference {x lexeme y} (h : Token.ruleRef.Takes x lexeme y)
      (unquoted : Token.startsAt x .regexStr = false) :
      Atom x (.reference (String.ofList (trimEnd lexeme))) y
  | group {x e y} (h : Group x e y) : Atom x e y

inductive Group : List Char → Expr → List Char → Prop
  | intro {w x y z e} (opening : Mark .brktBeg w x) (inner : OrExpr x e y)
      (close : Mark .brktEnd y z) : Group w e z

end

inductive RuleDef : List Char → Definition → List Char → Prop
  | intro {v w x y z name args body} (h : Name v name w) (colon : Mark .ruleColon w x)
      (h' : Optionally ArgsDef x args y) (expr : OrExpr Legible y body z) :
      RuleDef v ⟨name, body, args⟩ z

inductive FurtherDefs : List Char → List Definition → List Char → Prop
  | none {x} : FurtherDefs x [] x
  | more {x y z d ds} (unreferred : Token.startsAt x .ruleRef = false)
      (first : RuleDef Legible x d y) (rest : FurtherDefs y ds z) : FurtherDefs x (d :: ds) z

inductive RuleSeq : List Char → List Definition → List Char → Prop
  | intro {x y z d ds} (first : RuleDef Legible x d y) (rest : FurtherDefs Legible y ds z) :
      RuleSeq x (d :: ds) z

inductive All : List Char → Grammar → List Char → Prop
  | intro {w x y z options rules} (h : Optionally ArgsDef w options x)
      (seq : RuleSeq Legible x rules y) (stop : Mark .textEnd y z) : All w ⟨options, rules⟩ z

def Of : (r : Rule) → List Char → r.Output → List Char → Prop
  | .all => All Legible
  | .textEnd => fun x _ => Mark .textEnd x
  | .argsDef => ArgsDef
  | .argsSign => fun x _ => Mark .argsSign x
  | .argsGroup => ArgsGroup
  | .brktBeg => fun x _ => Mark .brktBeg x
  | .brktEnd => fun x _ => Mark .brktEnd x
  | .argItem => ArgItem
  | .argExpr => ArgExpr
  | .argKey => Name
  | .argKvsep => fun x _ => Mark .argKvsep x
  | .argVal => LitVal
  | .litVal => LitVal
  | .litStr => fun x v y => ∃ text, RegexStr x text y ∧ v = .str text
  | .litNum => LitNum
  | .litBool => LitBool
  | .litNone => fun x v y => Mark .litNone x y ∧ v = .none
  | .argSep => fun x _ => Mark .argSep x
  | .ruleSeq => RuleSeq Legible
  | .ruleDef => RuleDef Legible
  | .ruleName => Name
  | .ruleColon => fun x _ => Mark .ruleColon x
  | .orExpr => OrExpr Legible
  | .orExprOp => fun x _ => Mark .orExprOp x
  | .seqExpr => SeqExpr Legible
  | .code => Code Legible
  | .occExpr => OccExpr Legible
  | .occ01Group => Occ01Group Legible
  | .sqrbrktBeg => fun x _ => Mark .sqrbrktBeg x
  | .sqrbrktEnd => fun x _ => Mark .sqrbrktEnd x
  | .occ01Trailer => fun x _ => Mark .occ01Trailer x
  | .occ0mTrailer => fun x _ => Mark .occ0mTrailer x
  | .occ1mTrailer => fun x _ => Mark .occ1mTrailer x
  | .atom => Atom Legible
  | .regexStr => RegexStr
  | .ruleRef => fun x e y =>
      ∃ lexeme, Token.ruleRef.Takes x lexeme y ∧ e = .reference (String.ofList (trimEnd lexeme))
  | .group => Group Legible

end

end Phrase

/-- The whole text, behind the layout at its start, is a phrase of `all`. -/
def Derives (Legible : List Char → Prop) (text : String) (g : Grammar) : Prop :=
  ∃ y, Phrase.All Legible (settle text.toList) g y

end GrammarKit
