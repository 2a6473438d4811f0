/-!
Lengths in bytes.

Texts are lists of characters here, and are addressed from outside by the bytes of their UTF-8 form.
An address inside a character has no place in the list.
-/

namespace GrammarKit

def byteLength : List Char → Nat
  | [] => 0
  | c :: cs => c.utf8Size + byteLength cs

@[simp] theorem byteLength_append (a b : List Char) :
    byteLength (a ++ b) = byteLength a + byteLength b := by
  induction a with
  | nil => simp [byteLength]
  | cons c a ih => simp [byteLength, ih, Nat.add_assoc]

theorem byteLength_of_utf8Size {cs : List Char} (h : ∀ c ∈ cs, c.utf8Size = 1) :
    byteLength cs = cs.length := by
  induction cs with
  | nil => rfl
  | cons c cs ih =>
    rw [byteLength, h c (List.mem_cons_self ..), ih fun d hd => h d (List.mem_cons_of_mem _ hd),
      List.length_cons, Nat.add_comm]

/-- How many characters occupy exactly `bytes` bytes; none where the count of bytes ends inside a
character or behind the last one. -/
def charsIn (bytes : Nat) (cs : List Char) : Option Nat := go bytes cs 0
where
  go : Nat → List Char → Nat → Option Nat
    | 0, _, n => some n
    | _ + 1, [], _ => none
    | bytes + 1, c :: cs, n =>
      if c.utf8Size ≤ bytes + 1 then go (bytes + 1 - c.utf8Size) cs (n + 1) else none

end GrammarKit
