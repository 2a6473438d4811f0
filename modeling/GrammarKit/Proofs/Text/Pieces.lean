import GrammarKit.Proofs.Text.Row

/-!
Reading a text in pieces. A position is kept character by character; it can also be had at once for a
whole run of them, from where the last line feed stands in it. Main statement: both ways agree, and
where reading ends does not depend on how the text is cut, neither for positions nor for a cursor.
-/

namespace GrammarKit

def lastLineFeed? : List Char → Option Nat
  | [] => none
  | c :: cs =>
    match lastLineFeed? cs with
    | some n => some (c.utf8Size + n)
    | none => if c = '\n' then some 0 else none

/-- The position behind a run of characters, by the bytes of the run and by what stands behind the
last line feed in it. There is none if that began inside a character. -/
def Position.afterRun? (p : Position) (read : List Char) : Option Position :=
  if read.isEmpty then some p
  else
    let offset := p.offset + byteLength read
    match lastLineFeed? read with
    | none => some ⟨offset, p.row, p.col + read.length⟩
    | some n => (charsIn (n + 1) read).map fun k =>
      ⟨offset, p.row + read.count '\n', (read.drop k).length⟩

def Cursor.advanceEach : Cursor → List Nat → Option (List String × Cursor)
  | c, [] => some ([], c)
  | c, n :: ns =>
    match c.advance n with
    | none => none
    | some (piece, c) => (c.advanceEach ns).map fun (pieces, c) => (piece :: pieces, c)

theorem lastLineFeed?_of_notMem {cs : List Char} (h : '\n' ∉ cs) : lastLineFeed? cs = none := by
  induction cs with
  | nil => rfl
  | cons c cs ih =>
    rw [List.mem_cons, not_or] at h
    rw [lastLineFeed?, ih h.2]
    exact if_neg (Ne.symm h.1)

theorem lastLineFeed?_append (front : List Char) {line : List Char} (h : '\n' ∉ line) :
    lastLineFeed? (front ++ '\n' :: line) = some (byteLength front) := by
  induction front with
  | nil =>
    rw [List.nil_append, lastLineFeed?, lastLineFeed?_of_notMem h]
    rfl
  | cons c front ih => rw [List.cons_append, lastLineFeed?, ih, byteLength]

/-- Behind a whole run the position is the same as behind its characters one by one. -/
theorem Position.afterRun?_eq (p : Position) (read : List Char) :
    p.afterRun? read = some (p.after read) := by
  unfold afterRun?
  split
  next none => rw [List.isEmpty_iff.1 none, after_nil]
  by_cases feed : '\n' ∈ read
  · obtain ⟨front, hfront⟩ := exists_lastLine feed
    have last : lastLineFeed? read = some (byteLength front) := by
      rw [hfront]
      exact lastLineFeed?_append front (notMem_lastLine read)
    -- The line feed is one byte long, so the next offset is that of the line behind it.
    have behind : charsIn (byteLength front + 1) read = some (front.length + 1) := by
      have cut := charsIn_append (front ++ ['\n']) (lastLine read)
      rwa [List.append_assoc, List.singleton_append, ← hfront, byteLength_append,
        List.length_append] at cut
    have line : read.drop (front.length + 1) = lastLine read := by
      have cut := @List.drop_left _ (front ++ ['\n']) (lastLine read)
      rwa [List.append_assoc, List.singleton_append, ← hfront, List.length_append] at cut
    dsimp only
    rw [last]
    dsimp only
    rw [behind, Option.map_some, line, after_eq, if_pos feed]
  · have last : lastLineFeed? read = none := lastLineFeed?_of_notMem feed
    dsimp only
    rw [last]
    dsimp only
    rw [after_eq, if_neg feed, List.count_eq_zero_of_not_mem feed, Nat.add_zero]

namespace Cursor

variable {c after : Cursor} {pieces : List String}

theorem advance_append {a b : String} :
    (∃ mid, c.advance a.utf8ByteSize = some (a, mid) ∧
        mid.advance b.utf8ByteSize = some (b, after)) ↔
      c.advance (a ++ b).utf8ByteSize = some (a ++ b, after) := by
  simp only [advance_eq_some, true_and, String.toList_append, List.length_append, ← read_read]
  constructor
  · rintro ⟨mid, ⟨⟨tail, htail⟩, rfl⟩, hb, rfl⟩
    rw [read, ← htail, List.drop_left] at hb
    rw [← htail, List.prefix_append_right_inj]
    exact ⟨hb, rfl⟩
  · rintro ⟨⟨tail, htail⟩, rfl⟩
    refine ⟨_, ⟨⟨b.toList ++ tail, ?_⟩, rfl⟩, ⟨tail, ?_⟩, rfl⟩
    · rw [← htail, List.append_assoc]
    · rw [read, ← htail, List.append_assoc, List.drop_left]

theorem advanceEach_cons {n : Nat} {ns : List Nat} :
    c.advanceEach (n :: ns) = some (pieces, after) ↔
      ∃ piece more mid, pieces = piece :: more ∧ c.advance n = some (piece, mid) ∧
        mid.advanceEach ns = some (more, after) := by
  rw [advanceEach]
  constructor
  · intro h
    split at h
    next => cases h
    next piece mid first =>
      obtain ⟨⟨more, last⟩, rest, heq⟩ := Option.map_eq_some_iff.1 h
      cases heq
      exact ⟨piece, more, mid, rfl, first, rest⟩
  · rintro ⟨piece, more, mid, rfl, first, rest⟩
    rw [first]
    exact Option.map_eq_some_iff.2 ⟨_, rest, rfl⟩

/-- Pieces are read one by one where their concatenation can be read at once. -/
theorem advanceEach_pieces :
    c.advanceEach (pieces.map String.utf8ByteSize) = some (pieces, after) ↔
      c.advance (String.join pieces).utf8ByteSize = some (String.join pieces, after) := by
  induction pieces generalizing c with
  | nil => simp [advanceEach, advance_eq_some, String.join_nil]
  | cons piece pieces ih =>
    rw [List.map_cons, advanceEach_cons, String.join_cons, ← advance_append]
    constructor
    · rintro ⟨_, _, mid, ⟨⟩, first, rest⟩
      exact ⟨mid, first, ih.1 rest⟩
    · rintro ⟨mid, first, rest⟩
      exact ⟨piece, pieces, mid, rfl, first, ih.2 rest⟩

theorem sizes_of_advanceEach {ns : List Nat} (h : c.advanceEach ns = some (pieces, after)) :
    pieces.map String.utf8ByteSize = ns := by
  induction ns generalizing c pieces with
  | nil =>
    cases h
    rfl
  | cons n ns ih =>
    obtain ⟨piece, more, mid, rfl, first, rest⟩ := advanceEach_cons.1 h
    rw [List.map_cons, ih rest, (advance_eq_some.1 first).2.1]

end Cursor

/-- Where reading ends does not depend on how the text is cut. Behind a run of characters the position
is the same whether they are taken at once or one by one, and behind one run and then another it is
the same as behind both. A cursor that is advanced over the pieces of the text in front of it ends
where it ends when advanced over the text at once; and wherever it can be advanced by some numbers of
bytes one after another, these are the sizes of such pieces. -/
theorem position_of_pieces (p : Position) (a b : List Char) (c : Cursor) (pieces : List String) :
    p.afterRun? a = some (p.after a) ∧ (p.after a).after b = p.after (a ++ b) ∧
    (∀ tail, c.rest = (String.join pieces).toList ++ tail → ∃ after,
      c.advanceEach (pieces.map String.utf8ByteSize) = some (pieces, after) ∧
        c.advance (String.join pieces).utf8ByteSize = some (String.join pieces, after) ∧
        after.rest = tail ∧ after.position = c.position.after (String.join pieces).toList) ∧
    ∀ ns after, c.advanceEach ns = some (pieces, after) →
      pieces.map String.utf8ByteSize = ns ∧
        c.advance (String.join pieces).utf8ByteSize = some (String.join pieces, after) := by
  refine ⟨p.afterRun?_eq a, (p.after_append a b).symm, fun tail h => ?_, fun ns after h => ?_⟩
  · have inside : (String.join pieces).toList <+: c.rest := ⟨tail, h.symm⟩
    have whole := Cursor.advance_eq_some.2 ⟨inside, rfl, rfl⟩
    refine ⟨_, Cursor.advanceEach_pieces.2 whole, whole, ?_, ?_⟩
    · rw [Cursor.read, h, List.drop_left]
    · rw [Cursor.read, h, List.take_left]
  · have sizes := Cursor.sizes_of_advanceEach h
    rw [← sizes, Cursor.advanceEach_pieces] at h
    exact ⟨sizes, h⟩

/-- The second piece has a character of two bytes and the line feed. -/
theorem position_of_pieces_second_row :
    (Cursor.ofText "aé\nb").rest = (String.join ["a", "é\n", "b"]).toList ++ [] ∧
      ∃ after, (Cursor.ofText "aé\nb").advanceEach [1, 3, 1] = some (["a", "é\n", "b"], after) ∧
        (Cursor.ofText "aé\nb").advance 5 = some ("aé\nb", after) ∧ after.position = ⟨5, 1, 1⟩ := by
  have text : (Cursor.ofText "aé\nb").rest = (String.join ["a", "é\n", "b"]).toList ++ [] := by
    decide
  have pieces := position_of_pieces .start [] [] (.ofText "aé\nb") ["a", "é\n", "b"]
  obtain ⟨after, each, -, -, position⟩ := pieces.2.2.1 [] text
  exact ⟨text, after, each, (pieces.2.2.2 [1, 3, 1] after each).2, position⟩

end GrammarKit
