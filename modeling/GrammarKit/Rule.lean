import GrammarKit.Grammar

/-!
The rules of the grammar notation, and what each of them yields.
-/

namespace GrammarKit

inductive Rule where
  | all
  | textEnd
  | argsDef
  | argsSign
  | argsGroup
  | brktBeg
  | brktEnd
  | argItem
  | argExpr
  | argKey
  | argKvsep
  | argVal
  | litVal
  | litStr
  | litNum
  | litBool
  | litNone
  | argSep
  | ruleSeq
  | ruleDef
  | ruleName
  | ruleColon
  | orExpr
  | orExprOp
  | seqExpr
  | code
  | occExpr
  | occ01Group
  | sqrbrktBeg
  | sqrbrktEnd
  | occ01Trailer
  | occ0mTrailer
  | occ1mTrailer
  | atom
  | regexStr
  | ruleRef
  | group
  deriving DecidableEq, Repr

namespace Rule

def registry : List Rule :=
  [all, textEnd, argsDef, argsSign, argsGroup, brktBeg, brktEnd, argItem, argExpr, argKey, argKvsep,
    argVal, litVal, litStr, litNum, litBool, litNone, argSep, ruleSeq, ruleDef, ruleName, ruleColon,
    orExpr, orExprOp, seqExpr, code, occExpr, occ01Group, sqrbrktBeg, sqrbrktEnd, occ01Trailer,
    occ0mTrailer, occ1mTrailer, atom, regexStr, ruleRef, group]

theorem mem_registry (r : Rule) : r ∈ registry := by cases r <;> decide

def name : Rule → String
  | all => "all"
  | textEnd => "end"
  | argsDef => "args_def"
  | argsSign => "args_sign"
  | argsGroup => "args_group"
  | brktBeg => "brkt_beg"
  | brktEnd => "brkt_end"
  | argItem => "arg_item"
  | argExpr => "arg_expr"
  | argKey => "arg_key"
  | argKvsep => "arg_kvsep"
  | argVal => "arg_val"
  | litVal => "lit_val"
  | litStr => "lit_str"
  | litNum => "lit_num"
  | litBool => "lit_bool"
  | litNone => "lit_none"
  | argSep => "arg_sep"
  | ruleSeq => "rule_seq"
  | ruleDef => "rule_def"
  | ruleName => "rule_name"
  | ruleColon => "rule_colon"
  | orExpr => "or_expr"
  | orExprOp => "or_expr_op"
  | seqExpr => "seq_expr"
  | code => "code"
  | occExpr => "occ_expr"
  | occ01Group => "occ01_group"
  | sqrbrktBeg => "sqrbrkt_beg"
  | sqrbrktEnd => "sqrbrkt_end"
  | occ01Trailer => "occ01_trailer"
  | occ0mTrailer => "occ0m_trailer"
  | occ1mTrailer => "occ1m_trailer"
  | atom => "atom"
  | regexStr => "regex_str"
  | ruleRef => "rule_ref"
  | group => "group"

structure Unknown where
  name : String
  deriving DecidableEq, Repr

namespace Unknown

def message (e : Unknown) : String := "unknown rule `" ++ e.name ++ "`"

def code : String := "topdown::config::unknown_rule"

def help : String := "root rules are named after the bootstrap grammar, e.g. `all` or `rule_def`"

end Unknown

def ofName? (name : String) : Option Rule := registry.find? fun r => r.name == name

def ofName (name : String) : Except Unknown Rule :=
  match ofName? name with
  | some r => .ok r
  | none => .error ⟨name⟩

def index (r : Rule) : Nat := registry.idxOf r

/-- What a rule yields; rules that only consume their token yield nothing. -/
@[reducible] def Output : Rule → Type
  | all => Grammar
  | argsDef => Args
  | argsGroup | argItem => List (String × Value)
  | argExpr => String × Value
  | argKey | ruleName | regexStr => String
  | argVal | litVal | litStr | litNum | litBool | litNone => Value
  | ruleSeq => List Definition
  | ruleDef => Definition
  | orExpr | seqExpr | code | occExpr | occ01Group | atom | ruleRef | group => Expr
  | textEnd | argsSign | brktBeg | brktEnd | argKvsep | argSep | ruleColon | orExprOp
  | sqrbrktBeg | sqrbrktEnd | occ01Trailer | occ0mTrailer | occ1mTrailer => Unit

end Rule

inductive Yield where
  | grammar (g : Grammar)
  | definitions (rules : List Definition)
  | ruleDef (rule : Definition)
  | expr (e : Expr)
  | args (args : Args)
  | argPairs (pairs : List (String × Value))
  | argPair (pair : String × Value)
  | value (v : Value)
  | text (s : String)
  | unit
  deriving DecidableEq

namespace Yield

def ofOutput : (r : Rule) → r.Output → Yield
  | .all => grammar
  | .argsDef => args
  | .argsGroup | .argItem => argPairs
  | .argExpr => argPair
  | .argKey | .ruleName | .regexStr => text
  | .argVal | .litVal | .litStr | .litNum | .litBool | .litNone => value
  | .ruleSeq => definitions
  | .ruleDef => ruleDef
  | .orExpr | .seqExpr | .code | .occExpr | .occ01Group | .atom | .ruleRef | .group => expr
  | .textEnd | .argsSign | .brktBeg | .brktEnd | .argKvsep | .argSep | .ruleColon | .orExprOp
  | .sqrbrktBeg | .sqrbrktEnd | .occ01Trailer | .occ0mTrailer | .occ1mTrailer => fun _ => unit

def grammar? : Yield → Option Grammar
  | grammar g => some g
  | _ => none

def expr? : Yield → Option Expr
  | expr e => some e
  | _ => none

end Yield

end GrammarKit
