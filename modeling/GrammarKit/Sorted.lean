/-!
Finite maps and sets kept in the order of their keys.

A map is the list of its entries, keys increasing. So two maps with the same entries are equal, and
listing a map needs no sorting.
-/

namespace GrammarKit

structure SortedMap (κ ν : Type) [Ord κ] where
  entries : List (κ × ν)
  increasing : entries.Pairwise fun a b => compare a.1 b.1 = .lt

namespace SortedMap

variable {κ ν : Type} [Ord κ]

instance [DecidableEq κ] [DecidableEq ν] : DecidableEq (SortedMap κ ν) := fun a b =>
  if h : a.entries = b.entries then
    isTrue (by cases a; cases b; cases h; rfl)
  else isFalse fun e => h (e ▸ rfl)

instance [Repr κ] [Repr ν] : Repr (SortedMap κ ν) := ⟨fun m => reprPrec m.entries⟩

@[ext] theorem ext {a b : SortedMap κ ν} (h : a.entries = b.entries) : a = b := by
  cases a; cases b; cases h; rfl

def empty : SortedMap κ ν := ⟨[], .nil⟩

instance : Inhabited (SortedMap κ ν) := ⟨empty⟩

/-- Puts an entry in its place; an entry with the same key gives way. -/
def insertEntry (k : κ) (v : ν) : List (κ × ν) → List (κ × ν)
  | [] => [(k, v)]
  | e :: es =>
    match compare k e.1 with
    | .lt => (k, v) :: e :: es
    | .eq => (k, v) :: es
    | .gt => e :: insertEntry k v es

theorem mem_insertEntry {k : κ} {v : ν} {es : List (κ × ν)} {x : κ × ν}
    (h : x ∈ insertEntry k v es) : x = (k, v) ∨ x ∈ es := by
  induction es with
  | nil => simpa [insertEntry] using h
  | cons e es ih =>
    unfold insertEntry at h
    split at h <;> simp only [List.mem_cons] at h ⊢ <;> grind

theorem increasing_insertEntry [Std.TransOrd κ] (k : κ) (v : ν) {es : List (κ × ν)}
    (h : es.Pairwise fun a b => compare a.1 b.1 = .lt) :
    (insertEntry k v es).Pairwise fun a b => compare a.1 b.1 = .lt := by
  induction es with
  | nil => simp [insertEntry]
  | cons e es ih =>
    obtain ⟨above, rest⟩ := List.pairwise_cons.1 h
    unfold insertEntry
    split
    next hlt =>
      refine List.pairwise_cons.2 ⟨fun x hx => ?_, h⟩
      rcases List.mem_cons.1 hx with rfl | hx
      · exact hlt
      · exact Std.TransCmp.lt_trans hlt (above x hx)
    next heq =>
      exact List.pairwise_cons.2
        ⟨fun x hx => Std.TransCmp.lt_of_eq_of_lt heq (above x hx), rest⟩
    next hgt =>
      refine List.pairwise_cons.2 ⟨fun x hx => ?_, ih rest⟩
      rcases mem_insertEntry hx with rfl | hx
      · exact Std.OrientedCmp.lt_of_gt hgt
      · exact above x hx

def insert [Std.TransOrd κ] (m : SortedMap κ ν) (k : κ) (v : ν) : SortedMap κ ν :=
  ⟨insertEntry k v m.entries, increasing_insertEntry k v m.increasing⟩

def get? (m : SortedMap κ ν) (k : κ) : Option ν :=
  (m.entries.find? fun e => compare k e.1 == .eq).map Prod.snd

def ofList [Std.TransOrd κ] (entries : List (κ × ν)) : SortedMap κ ν :=
  entries.foldl (fun m e => m.insert e.1 e.2) empty

def keys (m : SortedMap κ ν) : List κ := m.entries.map Prod.fst

end SortedMap

abbrev SortedSet (α : Type) [Ord α] := SortedMap α Unit

namespace SortedSet

variable {α : Type} [Ord α]

def empty : SortedSet α := SortedMap.empty

def toList (s : SortedSet α) : List α := s.keys

def contains (s : SortedSet α) (a : α) : Bool := (s.get? a).isSome

def add [Std.TransOrd α] (s : SortedSet α) (a : α) : SortedSet α := s.insert a ()

def ofList [Std.TransOrd α] (items : List α) : SortedSet α := items.foldl add empty

def union [Std.TransOrd α] (s t : SortedSet α) : SortedSet α := t.toList.foldl add s

def subset (s t : SortedSet α) : Bool := s.toList.all t.contains

end SortedSet

end GrammarKit
