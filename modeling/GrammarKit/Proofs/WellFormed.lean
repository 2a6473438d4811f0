import GrammarKit.Grammar
import GrammarKit.Token.Match

/-!
Well-formed grammars: those whose text means what it says. There is at least one rule; names are
written in letters, digits and underscores; a choice or a sequence has several items, and blocks of
code stand only beside other items of a sequence; no occurrence stands directly inside another.
-/

namespace GrammarKit

def IsName (name : String) : Prop :=
  ∃ c cs, name.toList = c :: cs ∧ isNameStart c ∧ ∀ d ∈ cs, isNameChar d

/-- Every argument has a name, and none is the float that is not a number. -/
def Args.WellFormed (args : Args) : Prop :=
  ∀ e ∈ args.entries, IsName e.1 ∧ e.2 ≠ .float .nan

namespace Expr

def isCode : Expr → Bool
  | code _ => true
  | _ => false

/-- Expressions that may stand by themselves; a block of code may not. -/
inductive WellFormed : Expr → Prop
  | choice {items} (several : 2 ≤ items.length) (each : ∀ e ∈ items, WellFormed e) :
      WellFormed (.choice items)
  | sequence {items} (several : 2 ≤ items.length) (some : ∃ e ∈ items, e.isCode = false)
      (each : ∀ e ∈ items, e.isCode = false → WellFormed e)
      (trimmed : ∀ text, .code text ∈ items → trim text.toList = text.toList) :
      WellFormed (.sequence items)
  | wrap {o item} (single : item.occurrence? = none) (h : WellFormed item) :
      WellFormed (.wrap o item)
  | pattern {p : Pattern} (h : ∀ args ∈ p.args, args.WellFormed) : WellFormed (.pattern p)
  | reference {name} (h : IsName name) : WellFormed (.reference name)

end Expr

structure Definition.WellFormed (r : Definition) : Prop where
  name : IsName r.name
  args : ∀ args ∈ r.args, args.WellFormed
  body : r.body.WellFormed

structure Grammar.WellFormed (g : Grammar) : Prop where
  options : ∀ args ∈ g.options, args.WellFormed
  some : g.rules ≠ []
  rules : ∀ r ∈ g.rules, r.WellFormed

end GrammarKit
