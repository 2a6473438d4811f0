import GrammarKit.Session.Handler

/-!
The handlers of the grammar notation:

```text
all         : [args_def] rule_seq end
args_def    : '@' args_group
args_group  : '(' (')' | arg_item)
arg_item    : arg_expr (')' | ',' (')' | arg_item))
arg_expr    : arg_key '=' arg_val
lit_val     : lit_str | lit_num | lit_bool | lit_none
rule_seq    : rule_def+
rule_def    : rule_name ':' [args_def] or_expr
or_expr     : seq_expr ('|' seq_expr)*
seq_expr    : (code* occ_expr code*)+
occ_expr    : (occ01_group | atom) ['?' | '*' | '+']
occ01_group : '[' or_expr ']'
atom        : regex_str [args_def] | rule_ref | group
group       : '(' or_expr ')'
```

A handler chooses by looking at the next token before it consumes anything, and it looks for every
token that may follow, so that a failure names all the alternatives. Handlers are given the means to
call other rules, and a bound on the rounds of their loops.
-/

namespace GrammarKit

namespace Rule

namespace Body

def itemStart : List Token := [.code, .ruleRef, .regexStr, .brktBeg, .sqrbrktBeg]

section

variable (call : (r : Rule) → Handler r.Output)

def mark (t : Token) : Handler Unit := do
  let _ ← Handler.lexeme t

def all : Handler Grammar := do
  let options ←
    if (← Handler.expect [.argsSign, .ruleName]) = .argsSign then some <$> call .argsDef
    else pure none
  let rules ← call .ruleSeq
  call .textEnd
  pure ⟨options, rules⟩

def argsDef : Handler Args := do
  call .argsSign
  let pairs ← call .argsGroup
  pure (SortedMap.ofList pairs)

def argsGroup : Handler (List (String × Value)) := do
  call .brktBeg
  if (← Handler.look [.brktEnd]).isSome then
    call .brktEnd
    pure []
  else if (← Handler.lookBranch [.ruleName]).isSome then
    call .argItem
  else
    Handler.refuse []

def argItem : Handler (List (String × Value)) := do
  let pair ← call .argExpr
  if (← Handler.look [.brktEnd]).isSome then
    call .brktEnd
    pure [pair]
  else if (← Handler.lookBranch [.argSep]).isSome then
    call .argSep
    if (← Handler.look [.brktEnd]).isSome then
      call .brktEnd
      pure [pair]
    else if (← Handler.lookBranch [.ruleName]).isSome then
      let pairs ← call .argItem
      pure (pair :: pairs)
    else
      Handler.refuse []
  else
    Handler.refuse []

def argExpr : Handler (String × Value) := do
  let key ← call .argKey
  call .argKvsep
  let value ← call .argVal
  pure (key, value)

def name : Handler String := String.ofList <$> Handler.lexeme .ruleName

def litVal : Handler Value := do
  if (← Handler.look [.regexStr]).isSome then call .litStr
  else if (← Handler.lookBranch [.litNum]).isSome then call .litNum
  else if (← Handler.lookBranch [.litBool]).isSome then call .litBool
  else if (← Handler.lookBranch [.litNone]).isSome then call .litNone
  else Handler.refuse []

def regexStr : Handler String := do
  let lexeme ← Handler.lexeme .regexStr
  match decodeQuoted lexeme with
  | some text => pure (String.ofList text)
  | none => Handler.refuse [.regexStr]

def litStr : Handler Value := Value.str <$> regexStr

def litNum : Handler Value := do
  let lexeme ← Handler.lexeme .litNum
  match Value.ofNumber? lexeme with
  | some v => pure v
  | none => Handler.refuse [.litNum]

def litBool : Handler Value := do
  let lexeme ← Handler.lexeme .litBool
  pure (.bool (lexeme == ['T', 'r', 'u', 'e']))

def litNone : Handler Value := do
  mark .litNone
  pure .none

/-- The rules read so far are `rules`, the last one first. -/
def ruleSeq : Nat → List Definition → Handler (List Definition)
  | 0, _ => Handler.abort .exhausted
  | n + 1, rules => do
    let rule ← call .ruleDef
    if (← Handler.expect [.ruleName, .textEnd]) = .ruleName then ruleSeq n (rule :: rules)
    else pure (rule :: rules).reverse

def ruleDef : Handler Definition := do
  let name ← call .ruleName
  call .ruleColon
  let args ←
    if (← Handler.expect [.argsSign, .ruleRef, .regexStr, .code, .brktBeg, .sqrbrktBeg])
        = .argsSign then some <$> call .argsDef
    else pure none
  let body ← call .orExpr
  pure ⟨name, body, args⟩

def alternatives : Nat → List Expr → Handler Expr
  | 0, _ => Handler.abort .exhausted
  | n + 1, items => do
    if (← Handler.expect [.orExprOp, .ruleName, .brktEnd, .sqrbrktEnd, .textEnd]) = .orExprOp then
      call .orExprOp
      let item ← call .seqExpr
      alternatives n (item :: items)
    else
      pure (Expr.ofChoice items.reverse)

def orExpr (n : Nat) : Handler Expr := do
  let item ← call .seqExpr
  alternatives call n [item]

/-- Blocks of code for as long as one stands next, in front of the items that there are already. -/
def codeBlocks (follow : List Token) : Nat → List Expr → Handler (List Expr)
  | 0, _ => Handler.abort .exhausted
  | n + 1, items => do
    if (← Handler.expect follow) = .code then
      let block ← call .code
      codeBlocks follow n (block :: items)
    else
      pure items

def sequenceItems : Nat → List Expr → Handler Expr
  | 0, _ => Handler.abort .exhausted
  | n + 1, items => do
    let items ← codeBlocks call itemStart n items
    let item ← call .occExpr
    let items ← codeBlocks call
      [.code, .ruleRef, .regexStr, .ruleName, .brktBeg, .brktEnd, .sqrbrktBeg, .sqrbrktEnd,
        .orExprOp, .textEnd] n (item :: items)
    let next ← Handler.expect
      [.ruleRef, .regexStr, .code, .brktBeg, .sqrbrktBeg, .ruleName, .brktEnd, .sqrbrktEnd,
        .orExprOp, .textEnd]
    if next ∈ itemStart then sequenceItems n items else pure (Expr.ofSequence items.reverse)

def code : Handler Expr := do
  let lexeme ← Handler.lexeme .code
  match Fenced.body? lexeme with
  | some text => pure (Expr.ofCode text)
  | none => Handler.abort .unevenFence

def trailer : Handler Occurrence := do
  if (← Handler.look [.occ01Trailer]).isSome then
    call .occ01Trailer
    pure .zeroOrOne
  else if (← Handler.lookBranch [.occ0mTrailer]).isSome then
    call .occ0mTrailer
    pure .zeroOrMore
  else if (← Handler.lookBranch [.occ1mTrailer]).isSome then
    call .occ1mTrailer
    pure .oneOrMore
  else
    Handler.refuse []

def item : Handler Expr := do
  if (← Handler.look [.sqrbrktBeg]).isSome then call .occ01Group
  else if (← Handler.lookBranch [.ruleRef, .regexStr, .brktBeg]).isSome then call .atom
  else Handler.refuse []

def occExpr : Handler Expr := do
  let item ← item call
  let next ← Handler.expect
    [.occ0mTrailer, .occ1mTrailer, .occ01Trailer, .ruleRef, .regexStr, .ruleName, .code, .brktBeg,
      .brktEnd, .sqrbrktBeg, .sqrbrktEnd, .orExprOp, .textEnd]
  if next ∈ [Token.occ0mTrailer, .occ1mTrailer, .occ01Trailer] then
    let occurrence ← trailer call
    pure (item.occur occurrence)
  else
    pure item

def occ01Group : Handler Expr := do
  call .sqrbrktBeg
  let item ← call .orExpr
  call .sqrbrktEnd
  pure (item.occur .zeroOrOne)

def atom : Handler Expr := do
  if (← Handler.look [.regexStr]).isSome then
    let source ← call .regexStr
    let next ← Handler.expect
      [.argsSign, .ruleRef, .regexStr, .ruleName, .code, .brktBeg, .brktEnd, .occ0mTrailer,
        .occ1mTrailer, .occ01Trailer, .sqrbrktBeg, .sqrbrktEnd, .orExprOp, .textEnd]
    let args ← if next = .argsSign then some <$> call .argsDef else pure none
    pure (.pattern ⟨source, args⟩)
  else if (← Handler.lookBranch [.ruleRef]).isSome then
    call .ruleRef
  else if (← Handler.lookBranch [.brktBeg]).isSome then
    call .group
  else
    Handler.refuse []

def ruleRef : Handler Expr := do
  let lexeme ← Handler.lexeme .ruleRef
  pure (.reference (String.ofList (trimEnd lexeme)))

def group : Handler Expr := do
  call .brktBeg
  let item ← call .orExpr
  call .brktEnd
  pure item

end

end Body

/-- What a rule does, given the means to call others and a bound on the rounds of its loops. -/
def body (call : (r : Rule) → Handler r.Output) (n : Nat) : (r : Rule) → Handler r.Output
  | .all => Body.all call
  | .textEnd => Body.mark .textEnd
  | .argsDef => Body.argsDef call
  | .argsSign => Body.mark .argsSign
  | .argsGroup => Body.argsGroup call
  | .brktBeg => Body.mark .brktBeg
  | .brktEnd => Body.mark .brktEnd
  | .argItem => Body.argItem call
  | .argExpr => Body.argExpr call
  | .argKey => Body.name
  | .argKvsep => Body.mark .argKvsep
  | .argVal => call .litVal
  | .litVal => Body.litVal call
  | .litStr => Body.litStr
  | .litNum => Body.litNum
  | .litBool => Body.litBool
  | .litNone => Body.litNone
  | .argSep => Body.mark .argSep
  | .ruleSeq => Body.ruleSeq call n []
  | .ruleDef => Body.ruleDef call
  | .ruleName => Body.name
  | .ruleColon => Body.mark .ruleColon
  | .orExpr => Body.orExpr call n
  | .orExprOp => Body.mark .orExprOp
  | .seqExpr => Body.sequenceItems call n []
  | .code => Body.code
  | .occExpr => Body.occExpr call
  | .occ01Group => Body.occ01Group call
  | .sqrbrktBeg => Body.mark .sqrbrktBeg
  | .sqrbrktEnd => Body.mark .sqrbrktEnd
  | .occ01Trailer => Body.mark .occ01Trailer
  | .occ0mTrailer => Body.mark .occ0mTrailer
  | .occ1mTrailer => Body.mark .occ1mTrailer
  | .atom => Body.atom call
  | .regexStr => Body.regexStr
  | .ruleRef => Body.ruleRef
  | .group => Body.group call

def handler : Nat → (r : Rule) → Handler r.Output
  | 0, _ => Handler.abort .exhausted
  | fuel + 1, r => body (fun callee => Handler.call callee (handler fuel callee)) fuel r

/-- Between two characters consumed lie five invocations at most, so this is deep enough. -/
def fuelFor (text : String) : Nat := 10 * (text.length + 2)

end Rule

namespace Session

def run (s : Session) (rule : Rule) : Result rule.Output :=
  s.invoke rule (rule.handler (Rule.fuelFor s.text)).exec

/-- Runs a rule of the registry, and goes back to where it began if it fails. The failure stays
noted. -/
def attempt (s : Session) (rule : Rule) : Except Abort (Option rule.Output × Session) :=
  let start := s.cursor
  match s.run rule with
  | .error why => .error why
  | .ok (.ok a, s) => .ok (some a, s)
  | .ok (.error _, s) => .ok (none, { s with cursor := start })

end Session

end GrammarKit
