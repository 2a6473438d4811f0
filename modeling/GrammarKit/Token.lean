/-!
The tokens of the grammar notation.

A token has a name and a pattern, the regular expression by which reports show it. Patterns that look
ahead or refer back are not what is matched: most tokens have a regular expression of their own for
that, and three are matched by hand. The lengths are computed in `GrammarKit.Token.Match`.
-/

namespace GrammarKit

inductive Token where
  | argKvsep
  | argSep
  | argsSign
  | brktBeg
  | brktEnd
  | code
  | textEnd
  | litBool
  | litNone
  | litNum
  | occ01Trailer
  | occ0mTrailer
  | occ1mTrailer
  | orExprOp
  | regexStr
  | ruleColon
  | ruleName
  | ruleRef
  | sqrbrktBeg
  | sqrbrktEnd
  deriving DecidableEq, Repr

inductive Matcher where
  | regex (source : String)
  | code
  | quoted
  | reference (name : String)
  deriving DecidableEq, Repr

namespace Token

def all : List Token :=
  [argKvsep, argSep, argsSign, brktBeg, brktEnd, code, textEnd, litBool, litNone, litNum,
    occ01Trailer, occ0mTrailer, occ1mTrailer, orExprOp, regexStr, ruleColon, ruleName, ruleRef,
    sqrbrktBeg, sqrbrktEnd]

def name : Token → String
  | argKvsep => "arg_kvsep"
  | argSep => "arg_sep"
  | argsSign => "args_sign"
  | brktBeg => "brkt_beg"
  | brktEnd => "brkt_end"
  | code => "code"
  | textEnd => "end"
  | litBool => "lit_bool"
  | litNone => "lit_none"
  | litNum => "lit_num"
  | occ01Trailer => "occ01_trailer"
  | occ0mTrailer => "occ0m_trailer"
  | occ1mTrailer => "occ1m_trailer"
  | orExprOp => "or_expr_op"
  | regexStr => "regex_str"
  | ruleColon => "rule_colon"
  | ruleName => "rule_name"
  | ruleRef => "rule_ref"
  | sqrbrktBeg => "sqrbrkt_beg"
  | sqrbrktEnd => "sqrbrkt_end"

def pattern : Token → String
  | argKvsep => "="
  | argSep => ","
  | argsSign => "@"
  | brktBeg => "\\("
  | brktEnd => "\\)"
  | code => "(`+)((?:.|\\n)*?)\\1"
  | textEnd => "$"
  | litBool => "(True|False)(?![a-zA-Z0-9_])"
  | litNone => "None(?![a-zA-Z0-9_])"
  | litNum => "([-+])?(?=\\d|[.]\\d)(\\d*)([.]\\d*)?(e[-+]?\\d+)?"
  | occ01Trailer => "\\?"
  | occ0mTrailer => "\\*"
  | occ1mTrailer => "\\+"
  | orExprOp => "\\|"
  | regexStr => "r?('''|\"\"\"|'|\")((?:[^\\\\]|\\\\.)*?)(\\1)"
  | ruleColon => ":"
  | ruleName => "[a-zA-Z_][a-zA-Z0-9_]*"
  | ruleRef => "([a-zA-Z_][a-zA-Z0-9_]*)(?![a-zA-Z0-9_])[\\s]*(?![:])"
  | sqrbrktBeg => "\\["
  | sqrbrktEnd => "\\]"

def nameSource : String := "[a-zA-Z_][a-zA-Z0-9_]*"

def matcher : Token → Matcher
  | argKvsep => .regex "="
  | argSep => .regex ","
  | argsSign => .regex "@"
  | brktBeg => .regex "\\("
  | brktEnd => .regex "\\)"
  | code => .code
  | textEnd => .regex "$"
  | litBool => .regex "(?:True|False)(?-u:\\b)"
  | litNone => .regex "None(?-u:\\b)"
  | litNum => .regex "(?i)[-+]?(?:[0-9]+(?:\\.[0-9]*)?|\\.[0-9]+)(?:e[-+]?[0-9]+)?"
  | occ01Trailer => .regex "\\?"
  | occ0mTrailer => .regex "\\*"
  | occ1mTrailer => .regex "\\+"
  | orExprOp => .regex "\\|"
  | regexStr => .quoted
  | ruleColon => .regex ":"
  | ruleName => .regex nameSource
  | ruleRef => .reference nameSource
  | sqrbrktBeg => .regex "\\["
  | sqrbrktEnd => .regex "\\]"

def ofName? (name : String) : Option Token := all.find? fun t => t.name == name

theorem mem_all (t : Token) : t ∈ all := by cases t <;> decide

end Token

end GrammarKit
