import GrammarKit.Text.Cursor

/-!
Cursors and offsets. A cursor that a text was read with stands at the offset of what it has read, so
the text from that offset on is what is left.
-/

namespace GrammarKit

theorem charsIn_go_append (a b : List Char) (n : Nat) :
    charsIn.go (byteLength a) (a ++ b) n = some (n + a.length) := by
  induction a generalizing n with
  | nil =>
    cases b <;> rfl
  | cons c a ih =>
    obtain ⟨k, hk⟩ := Nat.exists_eq_succ_of_ne_zero (Nat.ne_of_gt c.utf8Size_pos)
    have size : byteLength (c :: a) = k + byteLength a + 1 := by
      rw [byteLength, hk]
      omega
    have le : c.utf8Size ≤ k + byteLength a + 1 := by omega
    have left : k + byteLength a + 1 - c.utf8Size = byteLength a := by omega
    rw [size, List.cons_append, charsIn.go, if_pos le, left, ih, List.length_cons]
    congr 1
    omega

theorem charsIn_go_eq_some {bytes m n : Nat} {cs : List Char}
    (h : charsIn.go bytes cs m = some n) :
    m ≤ n ∧ n ≤ m + cs.length ∧ byteLength (cs.take (n - m)) = bytes := by
  fun_induction charsIn.go bytes cs m with
  | case1 =>
    cases h
    rw [Nat.sub_self]
    exact ⟨Nat.le_refl _, Nat.le_add_right _ _, rfl⟩
  | case2 => cases h
  | case3 bytes c cs m le ih =>
    obtain ⟨le', short, len⟩ := ih h
    have one : n - m = n - (m + 1) + 1 := by omega
    rw [one, List.take_succ_cons, byteLength, len, List.length_cons]
    omega
  | case4 => cases h

theorem charsIn_append (a b : List Char) : charsIn (byteLength a) (a ++ b) = some a.length := by
  rw [charsIn, charsIn_go_append, Nat.zero_add]

theorem byteLength_take {bytes n : Nat} {cs : List Char} (h : charsIn bytes cs = some n) :
    byteLength (cs.take n) = bytes := (charsIn_go_eq_some h).2.2

theorem charsIn_le {bytes n : Nat} {cs : List Char} (h : charsIn bytes cs = some n) :
    n ≤ cs.length := by
  have le := (charsIn_go_eq_some h).2.1
  rwa [Nat.zero_add] at le

theorem utf8ByteSize_ofList (cs : List Char) : (String.ofList cs).utf8ByteSize = byteLength cs := by
  induction cs with
  | nil => rfl
  | cons c cs ih =>
    rw [String.ofList_cons, String.utf8ByteSize_append, String.utf8ByteSize_singleton, ih, byteLength]

theorem utf8ByteSize_eq (text : String) : text.utf8ByteSize = byteLength text.toList := by
  rw [← utf8ByteSize_ofList, String.ofList_toList]

def textFrom (text : String) (offset : Nat) : Option (List Char) :=
  (charsIn offset text.toList).map fun n => text.toList.drop n

theorem textFrom_of_append {text : String} {a b : List Char} (h : text.toList = a ++ b) :
    textFrom text (byteLength a) = some b := by
  rw [textFrom, h, charsIn_append]
  simp

namespace Cursor

theorem Coherent.exists_read {c : Cursor} (h : c.Coherent) :
    ∃ seen, c.text.toList = seen ++ c.rest ∧ c.position.offset = byteLength seen := by
  obtain ⟨seen, htext, hpos⟩ := h
  refine ⟨seen, htext, ?_⟩
  rw [hpos, Position.after_offset]
  exact Nat.zero_add _

theorem Coherent.textFrom {c : Cursor} (h : c.Coherent) :
    textFrom c.text c.position.offset = some c.rest := by
  obtain ⟨seen, htext, hoff⟩ := h.exists_read
  rw [hoff, textFrom_of_append htext]

theorem read_read (c : Cursor) (n m : Nat) : (c.read n).read m = c.read (n + m) := by
  simp only [read, List.drop_drop, List.take_add]
  rw [Position.after_append]

/-- Advancing by some bytes reads the text that they hold, if that is where they end. -/
theorem advance_eq_some {c after : Cursor} {bytes : Nat} {piece : String} :
    c.advance bytes = some (piece, after) ↔
      piece.toList <+: c.rest ∧ piece.utf8ByteSize = bytes ∧
        c.read piece.toList.length = after := by
  constructor
  · intro h
    obtain ⟨n, hn, heq⟩ := Option.map_eq_some_iff.1 h
    cases heq
    rw [String.toList_ofList, utf8ByteSize_ofList, List.length_take_of_le (charsIn_le hn)]
    exact ⟨List.take_prefix n c.rest, byteLength_take hn, rfl⟩
  · rintro ⟨⟨tail, htail⟩, rfl, rfl⟩
    rw [advance, utf8ByteSize_eq, ← htail, charsIn_append, Option.map_some, List.take_left,
      String.ofList_toList]

theorem offset_le_read (c : Cursor) (n : Nat) :
    c.position.offset ≤ (c.read n).position.offset := by
  rw [read, Position.after_offset]
  exact Nat.le_add_right _ _

end Cursor

end GrammarKit
