import GrammarKit.Text.Position

/-!
A cursor walks a text from its start. It keeps the characters still to be read, so that what can be
seen from a place is a plain list, and going back is keeping an earlier cursor.
-/

namespace GrammarKit

structure Cursor where
  text : String
  position : Position
  rest : List Char
  deriving DecidableEq, Repr

namespace Cursor

def ofText (text : String) : Cursor := ⟨text, .start, text.toList⟩

def atEnd (c : Cursor) : Bool := c.rest.isEmpty

def read (c : Cursor) (n : Nat) : Cursor :=
  ⟨c.text, c.position.after (c.rest.take n), c.rest.drop n⟩

@[simp] theorem read_zero (c : Cursor) : c.read 0 = c := by
  simp [read]

/-- The cursor stands where its own text says: what was read, followed by the rest, is the text. -/
def Coherent (c : Cursor) : Prop :=
  ∃ read, c.text.toList = read ++ c.rest ∧ c.position = Position.start.after read

theorem coherent_ofText (text : String) : (ofText text).Coherent := ⟨[], rfl, rfl⟩

theorem Coherent.read {c : Cursor} (h : c.Coherent) (n : Nat) : (c.read n).Coherent := by
  obtain ⟨seen, htext, hpos⟩ := h
  refine ⟨seen ++ c.rest.take n, ?_, ?_⟩
  · simp [Cursor.read, htext]
  · rw [Cursor.read, hpos, Position.after_append]

def advance (c : Cursor) (bytes : Nat) : Option (String × Cursor) :=
  (charsIn bytes c.rest).map fun n => (String.ofList (c.rest.take n), c.read n)

end Cursor

def lines (text : List Char) : List (List Char) := go text []
where
  go : List Char → List Char → List (List Char)
    | [], line => [line.reverse]
    | c :: cs, line => if c = '\n' then line.reverse :: go cs [] else go cs (c :: line)

/-- The line of a row, empty where the text has no such row. -/
def lineAt (text : String) (row : Nat) : List Char := (lines text.toList)[row]?.getD []

end GrammarKit
