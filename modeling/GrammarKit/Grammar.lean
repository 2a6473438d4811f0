import GrammarKit.Expr.Print

/-!
Grammars: optional arguments for the whole, then rules in the order in which they are written.
-/

namespace GrammarKit

structure Definition where
  name : String
  body : Expr
  args : Option Args
  deriving DecidableEq

structure Grammar where
  options : Option Args
  rules : List Definition
  deriving DecidableEq

namespace Definition

def chars (r : Definition) : List Char :=
  r.name.toList ++ [':', ' '] ++
    (match r.args with
    | some args => argsChars args ++ [' ']
    | none => []) ++
    r.body.chars

def text (r : Definition) : String := String.ofList r.chars

end Definition

namespace Grammar

def ruleNames (g : Grammar) : List String := g.rules.map Definition.name

def rule? (g : Grammar) (name : String) : Option Definition := g.rules.find? fun r => r.name == name

def chars (g : Grammar) : List Char :=
  (match g.options with
  | some options => argsChars options ++ ['\n']
  | none => []) ++
    g.rules.flatMap fun r => r.chars ++ ['\n']

def text (g : Grammar) : String := String.ofList g.chars

end Grammar

end GrammarKit
