import GrammarKit.Json.Codec
import GrammarKit.Proofs.Json.Pretty

/-!
What is relied on of a codec for JSON, and that the one which spreads its texts over lines can be
relied on, as far as it reads the numbers in question back.
-/

namespace GrammarKit

namespace Json

/-- Values that a text can hold, if the numbers that are not whole are among these. -/
inductive Writable (numbers : List Binary64) : Json → Prop
  | null : Writable numbers null
  | bool (b : Bool) : Writable numbers (bool b)
  | int (n : Int64) : Writable numbers (int n.toInt)
  | float {x : Binary64} (mem : x ∈ numbers) (finite : x.isFinite = true) : Writable numbers (float x)
  | string (s : String) : Writable numbers (string s)
  | array {items : List Json} (h : ∀ j ∈ items, Writable numbers j) : Writable numbers (array items)
  | object {members : List (String × Json)} (names : (members.map Prod.fst).Nodup)
      (h : ∀ m ∈ members, Writable numbers m.2) : Writable numbers (object members)

/-- Strings, whole numbers of 64 bits and the finite ones among these numbers are written and read back
as they are, at any depth, and a number that is not finite is written as null. -/
structure Codec.Faithful (c : Codec) (numbers : List Binary64) : Prop where
  nulls : ∀ j, c.text j = c.text j.written
  reads : ∀ j, Writable numbers j → c.value? (c.text j) = some j

variable {numbers : List Binary64}

theorem Writable.tagged {tag : String} {content : Json} (h : Writable numbers content) :
    Writable numbers (tagged tag content) :=
  .object (by simp) (List.forall_mem_singleton.2 h)

/-! ### Texts spread over lines -/

mutual

theorem prettyOnto_written (out : List Char) (level : Nat) :
    ∀ j : Json, prettyOnto out level j.written = prettyOnto out level j
  | array (item :: items) => by
    rw [written, writtenItems, prettyOnto, prettyOnto]
    simp only [prettyOnto_written _ _ item, prettyItems_written _ _ items]
  | object ((name, value) :: members) => by
    rw [written, writtenMembers, prettyOnto, prettyOnto]
    simp only [prettyOnto_written _ _ value, prettyMembers_written _ _ members]
  | float x => by cases x <;> rfl
  | null | bool _ | int _ | string _ | array [] | object [] => rfl

theorem prettyItems_written (out : List Char) (level : Nat) :
    ∀ items : List Json, prettyItems out level (writtenItems items) = prettyItems out level items
  | [] => rfl
  | item :: items => by
    rw [writtenItems, prettyItems, prettyItems, prettyOnto_written _ _ item,
      prettyItems_written _ _ items]

theorem prettyMembers_written (out : List Char) (level : Nat) :
    ∀ members : List (String × Json),
      prettyMembers out level (writtenMembers members) = prettyMembers out level members
  | [] => rfl
  | (name, value) :: members => by
    rw [writtenMembers, prettyMembers, prettyMembers]
    simp only [prettyOnto_written _ _ value, prettyMembers_written _ _ members]

end

theorem isWord_toInt (n : Int64) : isWord n.toInt = true := by
  have low := Int64.le_toInt n
  have high := Int64.toInt_lt n
  have low' : Int64.minValue.toInt ≤ n.toInt := low
  simp only [isWord, Bool.and_eq_true, decide_eq_true_eq]
  exact ⟨low', by simp only [UInt64.size]; omega⟩

theorem Writable.readable (h : ∀ x ∈ numbers, x.isFinite → ReadsBack x) {j : Json}
    (hj : Writable numbers j) : Readable j := by
  induction hj with
  | null => exact .null
  | bool b => exact .bool b
  | int n => exact .int (isWord_toInt n)
  | float mem finite => exact .float (h _ mem finite)
  | string s => exact .string s
  | array _ ih => exact .array ih
  | object names _ ih => exact .object names ih

/-- Texts spread over lines are read back as far as the numbers are. -/
theorem Codec.faithful_lines (h : ∀ x ∈ numbers, x.isFinite → ReadsBack x) :
    Codec.lines.Faithful numbers where
  nulls j := by
    show j.pretty = j.written.pretty
    rw [pretty, pretty, prettyOnto_written]
  reads j hj := by
    show (ofText j.pretty).toOption = some j
    rw [ofText_pretty (hj.readable h)]
    rfl

end Json

end GrammarKit
