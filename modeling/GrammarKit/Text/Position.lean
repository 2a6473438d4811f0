import GrammarKit.Text.Bytes

/-!
Places in a text.

An offset counts UTF-8 bytes, because the text is addressed by bytes; rows and columns count from
zero, and a column counts characters. Only a line feed starts a new row.
-/

namespace GrammarKit

structure Position where
  offset : Nat
  row : Nat
  col : Nat
  deriving DecidableEq, Repr, Inhabited

namespace Position

def start : Position := ⟨0, 0, 0⟩

def next (p : Position) (c : Char) : Position :=
  if c = '\n' then ⟨p.offset + c.utf8Size, p.row + 1, 0⟩
  else ⟨p.offset + c.utf8Size, p.row, p.col + 1⟩

def after (p : Position) (read : List Char) : Position := read.foldl next p

@[simp] theorem after_nil (p : Position) : p.after [] = p := rfl

@[simp] theorem after_cons (p : Position) (c : Char) (cs : List Char) :
    p.after (c :: cs) = (p.next c).after cs := rfl

theorem after_append (p : Position) (a b : List Char) : p.after (a ++ b) = (p.after a).after b :=
  List.foldl_append

theorem after_offset (p : Position) (read : List Char) :
    (p.after read).offset = p.offset + byteLength read := by
  induction read generalizing p with
  | nil => rfl
  | cons c cs ih =>
    rw [after_cons, ih]
    unfold next
    split <;> simp [byteLength, Nat.add_assoc]

/-- Reports count rows, columns and bytes from one: `row.col (offset)`. -/
def text (p : Position) : String :=
  toString (p.row + 1) ++ "." ++ toString (p.col + 1) ++ " (" ++ toString (p.offset + 1) ++ ")"

end Position

end GrammarKit
