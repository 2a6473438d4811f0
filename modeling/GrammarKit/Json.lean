import GrammarKit.Number.Layout

/-!
JSON values. Numbers are kept apart as whole numbers and floating point numbers, the way they are
written; the members of an object keep their order.
-/

namespace GrammarKit

inductive Json where
  | null
  | bool (b : Bool)
  | int (n : Int)
  | float (x : Binary64)
  | string (s : String)
  | array (items : List Json)
  | object (members : List (String × Json))

namespace Json

instance : Inhabited Json := ⟨null⟩

def tagged (tag : String) (value : Json) : Json := object [(tag, value)]

def ofOption {α : Type} (f : α → Json) : Option α → Json
  | some a => f a
  | none => null

def ofNat (n : Nat) : Json := int n

def ofChars (cs : List Char) : Json := string (String.ofList cs)

def ofStrings (items : List String) : Json := array (items.map string)

def get? : Json → String → Option Json
  | object members, name => (members.find? fun m => m.1 == name).map Prod.snd
  | _, _ => none

mutual

/-- What a text tells of a value: JSON has no word for a number that is not finite, so `null` stands in
its place. -/
def written : Json → Json
  | float x => if x.isFinite then float x else null
  | array items => array (writtenItems items)
  | object members => object (writtenMembers members)
  | atom => atom

def writtenItems : List Json → List Json
  | [] => []
  | item :: items => item.written :: writtenItems items

def writtenMembers : List (String × Json) → List (String × Json)
  | [] => []
  | (name, value) :: members => (name, value.written) :: writtenMembers members

end

theorem writtenItems_eq (items : List Json) : writtenItems items = items.map written := by
  induction items with
  | nil => rfl
  | cons item items ih => rw [writtenItems, ih, List.map_cons]

theorem writtenMembers_eq (members : List (String × Json)) :
    writtenMembers members = members.map fun m => (m.1, m.2.written) := by
  induction members with
  | nil => rfl
  | cons m members ih => rw [writtenMembers, ih, List.map_cons]

@[simp] theorem written_array (items : List Json) :
    (array items).written = array (items.map written) := by
  rw [written, writtenItems_eq]

@[simp] theorem written_object (members : List (String × Json)) :
    (object members).written = object (members.map fun m => (m.1, m.2.written)) := by
  rw [written, writtenMembers_eq]

end Json

end GrammarKit
