import GrammarKit.Json.Reader
import GrammarKit.Rule

/-!
What to parse and how: the root rule, and whether to keep a debug trace.

Options are read from JSON text: an object in which either field may be missing and unknown ones are
passed over, or an array of the fields in order. A rule is its name, or an object with that name for
a null member.
-/

namespace GrammarKit

structure Options where
  rule : Rule
  debug : Bool
  deriving DecidableEq, Repr

namespace Options

def default : Options := ⟨.all, false⟩

open Json

def ruleName (cs : List Char) : Read Rule :=
  match stringBody .full cs with
  | .error p => .error p
  | .ok (name, cs) =>
    match Rule.ofName? name with
    | some rule => .ok (rule, cs)
    | none => .error .data

/-- What is wrong with a value of another kind than was asked for: it is malformed, or it is well
formed and of no use. Of arrays and objects only the bracket is looked at. -/
def otherKind : List Char → Problem
  | [] => .eof
  | '[' :: _ => .data
  | '\x7b' :: _ => .data
  | cs =>
    match value .full cs with
    | .ok _ => .data
    | .error p => p

def nullWord (cs : List Char) : Read Unit :=
  match skipSpace cs with
  | 'n' :: cs => word ['u', 'l', 'l'] cs
  | cs => .error (otherKind cs)

def ruleObject (cs : List Char) : Except Problem (Rule × List Char) :=
  match skipSpace cs with
  | '"' :: cs => do
    let (rule, cs) ← ruleName cs
    let (_, cs) ← colon cs
    let (_, cs) ← nullWord cs
    match skipSpace cs with
    | [] => .error .eof
    | '\x7d' :: cs => .ok (rule, cs)
    | _ => .error .malformed
  | [] => .error .eof
  | _ => .error .malformed

def readRule (cs : List Char) : Read Rule :=
  match skipSpace cs with
  | [] => .error .eof
  | '"' :: cs => ruleName cs
  | '\x7b' :: cs => ruleObject cs
  | _ => .error .malformed

def readDebug (cs : List Char) : Read Bool :=
  match skipSpace cs with
  | 't' :: cs => (word ['r', 'u', 'e'] cs).map fun (_, cs) => (true, cs)
  | 'f' :: cs => (word ['a', 'l', 's', 'e'] cs).map fun (_, cs) => (false, cs)
  | cs => .error (otherKind cs)

structure Fields where
  rule : Option Rule
  debug : Option Bool

def Fields.options (f : Fields) : Options :=
  ⟨f.rule.getD default.rule, f.debug.getD default.debug⟩

def readField (fields : Fields) (name : String) (cs : List Char) :
    Except Problem (Fields × List Char) :=
  if name = "rule" then
    if fields.rule.isSome then .error .data
    else do
      let (_, cs) ← colon cs
      let (rule, cs) ← readRule cs
      pure ({ fields with rule := some rule }, cs)
  else if name = "debug" then
    if fields.debug.isSome then .error .data
    else do
      let (_, cs) ← colon cs
      let (debug, cs) ← readDebug cs
      pure ({ fields with debug := some debug }, cs)
  else do
    let (_, cs) ← colon cs
    let (_, cs) ← value .skipped cs
    pure (fields, cs)

def readMembers : Nat → Bool → Fields → List Char → Read Fields
  | 0, _, _, _ => .error .malformed
  | steps + 1, isFirst, fields, cs =>
    match nextMember isFirst cs with
    | .error p => .error p
    | .ok (false, cs) => .ok (fields, cs)
    | .ok (true, cs) =>
      match stringBody .full cs with
      | .error p => .error p
      | .ok (name, cs) =>
        match readField fields name cs with
        | .error p => .error p
        | .ok (fields, cs) => readMembers steps false fields cs

def closeArray (cs : List Char) : Read Unit :=
  match skipSpace cs with
  | [] => .error .eof
  | ']' :: cs => .ok ((), cs)
  | _ => .error .malformed

/-- The items of an array: a rule and a debug flag, or the first of them, or none. -/
def readItems (cs : List Char) : Except Problem (Fields × List Char) := do
  let (more, cs) ← nextItem true cs
  if more then
    let (rule, cs) ← readRule cs
    let (more, cs) ← nextItem false cs
    if more then
      let (debug, cs) ← readDebug cs
      let (_, cs) ← closeArray cs
      pure (⟨some rule, some debug⟩, cs)
    else
      pure (⟨some rule, none⟩, cs)
  else
    pure (⟨none, none⟩, cs)

def readFields (cs : List Char) : Read Fields :=
  match skipSpace cs with
  | '[' :: cs => readItems cs
  | '\x7b' :: cs => readMembers (cs.length + 1) true ⟨none, none⟩ cs
  | cs => .error (otherKind cs)

def ofJsonText (json : String) : Except Problem Options := do
  let (fields, cs) ← readFields json.toList
  atEnd cs
  pure fields.options

end Options

end GrammarKit
