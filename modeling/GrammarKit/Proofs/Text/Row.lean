import GrammarKit.Proofs.Text.Offset
import Mathlib.Data.List.DropRight

/-!
Rows and columns. A position is kept character by character while a text is read; rows are looked up
in the whole text. Both agree: the row of a position is the line that was begun last, and its column
cuts that line where reading has stopped.
-/

namespace GrammarKit

def lastLine (cs : List Char) : List Char := cs.rtakeWhile (· ≠ '\n')

def firstLine (cs : List Char) : List Char := cs.takeWhile (· ≠ '\n')

@[simp] theorem lastLine_nil : lastLine [] = [] := List.rtakeWhile_nil _

theorem lastLine_concat (cs : List Char) (c : Char) :
    lastLine (cs ++ [c]) = if c = '\n' then [] else lastLine cs ++ [c] := by
  by_cases hc : c = '\n' <;> simp [lastLine, hc]

theorem lastLine_of_notMem {cs : List Char} (h : '\n' ∉ cs) : lastLine cs = cs :=
  List.rtakeWhile_eq_self_iff.2 fun c hc => by
    have : c ≠ '\n' := ne_of_mem_of_not_mem hc h
    simpa using this

theorem lastLine_append_line_feed (a b : List Char) : lastLine (a ++ '\n' :: b) = lastLine b := by
  induction b using List.reverseRecOn with
  | nil => rw [lastLine_concat, if_pos rfl, lastLine_nil]
  | append_singleton b c ih =>
    rw [← List.cons_append, ← List.append_assoc, lastLine_concat, lastLine_concat, ih]

theorem notMem_lastLine (cs : List Char) : '\n' ∉ lastLine cs := fun feed => by
  simpa using List.mem_rtakeWhile_imp feed

theorem exists_lastLine {cs : List Char} (h : '\n' ∈ cs) :
    ∃ front, cs = front ++ '\n' :: lastLine cs := by
  induction cs using List.reverseRecOn with
  | nil => cases h
  | append_singleton cs c ih =>
    rw [lastLine_concat]
    split
    next hc =>
      subst hc
      exact ⟨cs, rfl⟩
    next hc =>
      have earlier : '\n' ∈ cs := by simpa [Ne.symm hc] using h
      obtain ⟨front, hfront⟩ := ih earlier
      refine ⟨front, ?_⟩
      rw [← List.cons_append, ← List.append_assoc, ← hfront]

/-- The position stands between these two parts of the text. -/
structure Position.Divides (p : Position) (text : String) (before after : List Char) : Prop where
  text : text.toList = before ++ after
  offset : p.offset = byteLength before
  row : p.row = before.count '\n'
  col : p.col = (lastLine before).length

/-- A line feed begins a column of its own; in front of any, the column goes on. -/
theorem Position.after_eq (p : Position) (read : List Char) :
    p.after read = ⟨p.offset + byteLength read, p.row + read.count '\n',
      if '\n' ∈ read then (lastLine read).length else p.col + read.length⟩ := by
  induction read using List.reverseRecOn with
  | nil => rfl
  | append_singleton read c ih =>
    rw [Position.after_append, ih, Position.after_cons, Position.after_nil, Position.next,
      lastLine_concat]
    split
    next hc =>
      subst hc
      simp [byteLength, Nat.add_assoc]
    next hc =>
      split
      next feed => simp [byteLength, hc, feed, Nat.add_assoc]
      next feed => simp [byteLength, hc, Ne.symm hc, feed, Nat.add_assoc]

theorem Position.start_after (read : List Char) :
    Position.start.after read =
      ⟨byteLength read, read.count '\n', (lastLine read).length⟩ := by
  rw [Position.after_eq, Position.start, Nat.zero_add, Nat.zero_add, Nat.zero_add]
  split
  next => rfl
  next none => rw [lastLine_of_notMem none]

theorem Position.start_divides (text : String) : Position.start.Divides text [] text.toList :=
  ⟨rfl, rfl, rfl, rfl⟩

/-- A cursor stands where what it has read meets the rest. -/
theorem Cursor.Coherent.divides {c : Cursor} (h : c.Coherent) :
    ∃ before, c.position.Divides c.text before c.rest := by
  obtain ⟨read, htext, hpos⟩ := h
  rw [Position.start_after] at hpos
  refine ⟨read, htext, ?_, ?_, ?_⟩
  · rw [hpos]
  · rw [hpos]
  · rw [hpos]

theorem lines_go_zero (after line : List Char) :
    (lines.go after line)[0]? = some (line.reverse ++ firstLine after) := by
  induction after generalizing line with
  | nil => simp [lines.go, firstLine]
  | cons c after ih =>
    rw [lines.go]
    split
    · rename_i hc
      subst hc
      simp [firstLine]
    · rename_i hc
      rw [ih]
      simp [firstLine, hc]

theorem lines_go_count {line : List Char} (h : '\n' ∉ line) (before after : List Char) :
    (lines.go (before ++ after) line)[before.count '\n']? =
      some (lastLine (line.reverse ++ before) ++ firstLine after) := by
  induction before generalizing line with
  | nil =>
    have whole : lastLine line.reverse = line.reverse :=
      lastLine_of_notMem (fun hm => h (List.mem_reverse.1 hm))
    rw [List.nil_append, List.count_nil, lines_go_zero, List.append_nil, whole]
  | cons c before ih =>
    rw [List.cons_append, lines.go]
    split
    · rename_i hc
      subst hc
      rw [List.count_cons_self, List.getElem?_cons_succ, ih (by simp), lastLine_append_line_feed]
      rfl
    · rename_i hc
      rw [List.count_cons_of_ne hc, ih (by simp [h, Ne.symm hc])]
      simp

namespace Position.Divides

variable {p : Position} {text : String} {before after : List Char}

/-- The row is there, and its line is cut at the column where the text is divided. -/
theorem line (h : p.Divides text before after) :
    (lines text.toList)[p.row]? = some (lastLine before ++ firstLine after) := by
  rw [h.text, h.row, lines, lines_go_count (by simp)]
  simp

theorem lineAt_eq (h : p.Divides text before after) :
    lineAt text p.row = lastLine before ++ firstLine after := by
  rw [lineAt, h.line]
  rfl

theorem take_lineAt (h : p.Divides text before after) :
    (lineAt text p.row).take p.col = lastLine before := by
  rw [h.lineAt_eq, h.col, List.take_left]

theorem drop_lineAt (h : p.Divides text before after) :
    (lineAt text p.row).drop p.col = firstLine after := by
  rw [h.lineAt_eq, h.col, List.drop_left]

theorem col_le (h : p.Divides text before after) : p.col ≤ (lineAt text p.row).length := by
  rw [h.lineAt_eq, h.col, List.length_append]
  exact Nat.le_add_right _ _

theorem charsIn_eq (h : p.Divides text before after) :
    charsIn p.offset text.toList = some before.length := by
  rw [h.offset, h.text, charsIn_append]

end Position.Divides

end GrammarKit
