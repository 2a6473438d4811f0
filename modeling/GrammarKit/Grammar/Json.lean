import GrammarKit.Rule
import GrammarKit.Json.Codec

/-!
Grammars as JSON.

A record is an object of its fields. An alternative of a type is an object whose one member is named
for the alternative; an alternative without content is its name. Reading is lenient where nothing is
lost: unknown fields are passed over, fields that may be missing may also be null, and a record may
be the array of its fields in order. What becomes of the numbers of a tree in a text is up to the codec
that writes it.
-/

namespace GrammarKit

namespace Value

def tree : Value → Json
  | str text => .tagged "Str" (.string text)
  | int n => .tagged "Int" (.int n.toInt)
  | float x => .tagged "Float" (.float x)
  | bool b => .tagged "Bool" (.bool b)
  | none => .string "None"

def ofTagged? (tag : String) (content : Json) : Option Value :=
  match tag, content with
  | "Str", .string s => some (str s)
  | "Int", .int n =>
    if Int64.minValue.toInt ≤ n ∧ n ≤ Int64.maxValue.toInt then some (int (.ofInt n))
    else Option.none
  | "Float", .float x => some (float x)
  | "Float", .int n => some (float (.nearest ⟨n < 0, n.natAbs, 0⟩))
  | "Bool", .bool b => some (bool b)
  | "None", .null => some none
  | _, _ => Option.none

def ofJson? : Json → Option Value
  | .string "None" => some none
  | .object [(tag, content)] => ofTagged? tag content
  | _ => Option.none

end Value

namespace Args

def tree (args : Args) : Json := .object (args.entries.map fun e => (e.1, e.2.tree))

def ofJson? : Json → Option Args
  | .object members =>
    (members.mapM fun m => (Value.ofJson? m.2).map fun v => (m.1, v)).map SortedMap.ofList
  | _ => none

def ofOptional? : Option Json → Option (Option Args)
  | none => some none
  | some .null => some none
  | some j => (ofJson? j).map some

end Args

namespace Json

/-- The fields of a record, from an object or from an array of exactly as many items. -/
def fields? (names : List String) : Json → Option (List (Option Json))
  | object members => some (names.map (object members).get?)
  | array items => if items.length = names.length then some (items.map some) else none
  | _ => none

end Json

namespace Pattern

def tree (p : Pattern) : Json :=
  .object [("source", .string p.source), ("args", .ofOption Args.tree p.args)]

def ofJson? (j : Json) : Option Pattern :=
  match j.fields? ["source", "args"] with
  | some [some (.string source), args] => (Args.ofOptional? args).map (Pattern.mk source)
  | _ => none

end Pattern

namespace Expr

def wrapTag : Occurrence → String
  | .zeroOrOne => "Occ01"
  | .zeroOrMore => "Occ0m"
  | .oneOrMore => "Occ1m"

mutual

def tree : Expr → Json
  | choice items => .tagged "Or" (.array (itemTrees items))
  | sequence items => .tagged "Seq" (.array (itemTrees items))
  | wrap o item => .tagged (wrapTag o) item.tree
  | pattern p => .tagged "Pattern" p.tree
  | reference name => .tagged "RuleRef" (.string name)
  | code text => .tagged "Code" (.string text)

def itemTrees : List Expr → List Json
  | [] => []
  | item :: items => item.tree :: itemTrees items

end

def toJson (e : Expr) : Json := e.tree.written

mutual

def ofJson? : Json → Option Expr
  | .object [(tag, content)] =>
    match tag with
    | "Or" => (itemsOfJson? content).map choice
    | "Seq" => (itemsOfJson? content).map sequence
    | "Occ01" => (ofJson? content).map (wrap .zeroOrOne)
    | "Occ0m" => (ofJson? content).map (wrap .zeroOrMore)
    | "Occ1m" => (ofJson? content).map (wrap .oneOrMore)
    | "Pattern" => (Pattern.ofJson? content).map pattern
    | "RuleRef" =>
      match content with
      | .string name => some (reference name)
      | _ => none
    | "Code" =>
      match content with
      | .string text => some (code text)
      | _ => none
    | _ => none
  | _ => none

def itemsOfJson? : Json → Option (List Expr)
  | .array items => listOfJson? items
  | _ => none

def listOfJson? : List Json → Option (List Expr)
  | [] => some []
  | item :: items =>
    match ofJson? item, listOfJson? items with
    | some e, some es => some (e :: es)
    | _, _ => none

end

end Expr

namespace Definition

def tree (r : Definition) : Json :=
  .object [("name", .string r.name), ("body", r.body.tree), ("args", .ofOption Args.tree r.args)]

def ofJson? (j : Json) : Option Definition :=
  match j.fields? ["name", "body", "args"] with
  | some [some (.string name), some body, args] =>
    match Expr.ofJson? body, Args.ofOptional? args with
    | some body, some args => some ⟨name, body, args⟩
    | _, _ => none
  | _ => none

end Definition

namespace Grammar

def tree (g : Grammar) : Json :=
  .object [("options", .ofOption Args.tree g.options), ("rules", .array (g.rules.map Definition.tree))]

def ofJson? (j : Json) : Option Grammar :=
  match j.fields? ["options", "rules"] with
  | some [options, some (.array rules)] =>
    match Args.ofOptional? options, rules.mapM Definition.ofJson? with
    | some options, some rules => some ⟨options, rules⟩
    | _, _ => none
  | _ => none

def jsonText (g : Grammar) (codec : Json.Codec := .lines) : String := codec.text g.tree

def ofJsonText? (text : String) (codec : Json.Codec := .lines) : Option Grammar :=
  (codec.value? text).bind ofJson?

end Grammar

def pairTree (pair : String × Value) : Json := .array [.string pair.1, pair.2.tree]

namespace Yield

def tree : Yield → Json
  | grammar g => .tagged "Grammar" g.tree
  | definitions rules => .tagged "RuleDefs" (.array (rules.map Definition.tree))
  | ruleDef rule => .tagged "RuleDef" rule.tree
  | expr e => .tagged "Expr" e.tree
  | args a => .tagged "Args" (Args.tree a)
  | argPairs pairs => .tagged "ArgPairs" (.array (pairs.map pairTree))
  | argPair pair => .tagged "ArgPair" (pairTree pair)
  | value v => .tagged "Value" v.tree
  | text s => .tagged "Text" (.string s)
  | unit => .string "Unit"

def toJson (y : Yield) : Json := y.tree.written

end Yield

end GrammarKit
