import GrammarKit.Sorted

/-!
Finite maps by what they look up: inserting changes the value of one key, and a map has no more to
it than the values of its keys. Finite sets by what they contain.
-/

namespace GrammarKit

namespace SortedMap

variable {κ ν : Type} [Ord κ]

theorem compare_self_ne_lt [Std.TransOrd κ] (k : κ) : compare k k ≠ .lt := by
  have self : compare k k = .eq := Std.ReflCmp.compare_self
  rw [self]
  decide

def find? (es : List (κ × ν)) (k : κ) : Option ν :=
  (es.find? fun e => compare k e.1 == .eq).map Prod.snd

theorem find?_cons (e : κ × ν) (es : List (κ × ν)) (k : κ) :
    find? (e :: es) k = if compare k e.1 = .eq then some e.2 else find? es k := by
  by_cases h : compare k e.1 = .eq <;> simp [find?, h]

theorem find?_insertEntry [Std.LawfulEqOrd κ] (es : List (κ × ν)) (k : κ) (v : ν) (j : κ) :
    find? (insertEntry k v es) j = if compare j k = .eq then some v else find? es j := by
  induction es with
  | nil => rw [insertEntry, find?_cons]
  | cons e es ih =>
    unfold insertEntry
    split
    next hlt => rw [find?_cons]
    next heq =>
      rw [find?_cons, find?_cons, ← Std.LawfulEqOrd.eq_of_compare heq]
      split <;> rfl
    next hgt =>
      rw [find?_cons, find?_cons, ih]
      by_cases hj : compare j k = .eq
      · have : compare j e.1 ≠ .eq := by
          rw [Std.LawfulEqOrd.eq_of_compare hj, hgt]
          decide
        rw [if_neg this, if_pos hj, if_pos hj]
      · rw [if_neg hj, if_neg hj]

theorem find?_eq_some [Std.TransOrd κ] [Std.LawfulEqOrd κ] {es : List (κ × ν)}
    (h : es.Pairwise fun a b => compare a.1 b.1 = .lt) {k : κ} {v : ν} :
    find? es k = some v ↔ (k, v) ∈ es := by
  induction es with
  | nil => simp [find?]
  | cons e es ih =>
    obtain ⟨above, rest⟩ := List.pairwise_cons.1 h
    rw [find?_cons, List.mem_cons]
    split
    next heq =>
      have hk := Std.LawfulEqOrd.eq_of_compare heq
      constructor
      · rintro ⟨⟩
        exact .inl (by rw [hk])
      · rintro (rfl | hmem)
        · rfl
        · exact absurd (hk ▸ above _ hmem) (compare_self_ne_lt _)
    next hne =>
      rw [ih rest]
      refine ⟨.inr, ?_⟩
      rintro (rfl | hmem)
      · exact absurd Std.ReflCmp.compare_self hne
      · exact hmem

/-- Entries in increasing order are known by their members. -/
theorem eq_of_mem_iff [Std.TransOrd κ] {es fs : List (κ × ν)}
    (he : es.Pairwise fun a b => compare a.1 b.1 = .lt)
    (hf : fs.Pairwise fun a b => compare a.1 b.1 = .lt) (h : ∀ e, e ∈ es ↔ e ∈ fs) : es = fs := by
  induction es generalizing fs with
  | nil =>
    cases fs with
    | nil => rfl
    | cons f fs => exact absurd ((h f).2 List.mem_cons_self) List.not_mem_nil
  | cons e es ih =>
    cases fs with
    | nil => exact absurd ((h e).1 List.mem_cons_self) List.not_mem_nil
    | cons f fs =>
      obtain ⟨abovee, he'⟩ := List.pairwise_cons.1 he
      obtain ⟨abovef, hf'⟩ := List.pairwise_cons.1 hf
      have head : e = f := by
        rcases List.mem_cons.1 ((h e).1 List.mem_cons_self) with rfl | hef
        · rfl
        · rcases List.mem_cons.1 ((h f).2 List.mem_cons_self) with rfl | hfe
          · rfl
          · exact absurd (Std.TransCmp.lt_trans (abovee f hfe) (abovef e hef))
              (compare_self_ne_lt _)
      subst head
      refine congrArg _ (ih he' hf' fun x => ⟨fun hx => ?_, fun hx => ?_⟩)
      · rcases List.mem_cons.1 ((h x).1 (List.mem_cons_of_mem _ hx)) with rfl | hx'
        · exact absurd (abovee x hx) (compare_self_ne_lt _)
        · exact hx'
      · rcases List.mem_cons.1 ((h x).2 (List.mem_cons_of_mem _ hx)) with rfl | hx'
        · exact absurd (abovef x hx) (compare_self_ne_lt _)
        · exact hx'

variable [Std.TransOrd κ] [Std.LawfulEqOrd κ]

theorem get?_insert (m : SortedMap κ ν) (k : κ) (v : ν) (j : κ) :
    (m.insert k v).get? j = if compare j k = .eq then some v else m.get? j :=
  find?_insertEntry m.entries k v j

theorem ext_get? {m m' : SortedMap κ ν} (h : ∀ k, m.get? k = m'.get? k) : m = m' := by
  apply SortedMap.ext
  refine eq_of_mem_iff m.increasing m'.increasing fun e => ?_
  rw [← find?_eq_some m.increasing, ← find?_eq_some m'.increasing]
  exact iff_of_eq (congrArg (· = some e.2) (h e.1))

/-- Of the entries with one key the last is looked up. -/
theorem get?_ofList (entries : List (κ × ν)) (k : κ) :
    (ofList entries).get? k = find? entries.reverse k := by
  have run : ∀ m : SortedMap κ ν,
      (entries.foldl (fun m e => m.insert e.1 e.2) m).get? k =
        (find? entries.reverse k).or (m.get? k) := by
    induction entries with
    | nil => exact fun m => rfl
    | cons e entries ih =>
      intro m
      rw [List.foldl_cons, ih, get?_insert, List.reverse_cons, find?, find?, List.find?_append]
      cases entries.reverse.find? fun e => compare k e.1 == .eq with
      | some e' => rfl
      | none =>
        by_cases hk : compare k e.1 = .eq <;> simp [hk]
  rw [ofList, run]
  exact Option.or_none

end SortedMap

namespace SortedSet

variable {α : Type} [Ord α]

@[simp] theorem contains_empty (a : α) : (empty : SortedSet α).contains a = false := rfl

variable [Std.TransOrd α] [Std.LawfulEqOrd α]

@[simp] theorem contains_add (s : SortedSet α) (a b : α) :
    (s.add a).contains b = true ↔ b = a ∨ s.contains b = true := by
  rw [contains, add, SortedMap.get?_insert]
  split
  next h => simp [Std.LawfulEqOrd.eq_of_compare h]
  next h =>
    have ne : b ≠ a := fun e => h (e ▸ Std.ReflCmp.compare_self)
    simp [ne, contains]

theorem contains_foldl (items : List α) (s : SortedSet α) (a : α) :
    (items.foldl add s).contains a = true ↔ a ∈ items ∨ s.contains a = true := by
  induction items generalizing s with
  | nil => simp
  | cons b items ih =>
    rw [List.foldl_cons, ih, contains_add, List.mem_cons, ← or_assoc, or_comm (a := a ∈ items)]

@[simp] theorem contains_ofList (items : List α) (a : α) :
    (ofList items).contains a = true ↔ a ∈ items := by
  rw [ofList, contains_foldl, contains_empty, Bool.false_eq_true, or_false]

@[simp] theorem mem_toList (s : SortedSet α) (a : α) : a ∈ s.toList ↔ s.contains a = true := by
  have found : s.contains a = true ↔ (a, ()) ∈ s.entries := by
    rw [← SortedMap.find?_eq_some s.increasing, contains, Option.isSome_iff_exists]
    exact ⟨fun ⟨_, h⟩ => h, fun h => ⟨(), h⟩⟩
  rw [found, toList, SortedMap.keys, List.mem_map]
  constructor
  · rintro ⟨⟨_, _⟩, h, rfl⟩
    exact h
  · exact fun h => ⟨_, h, rfl⟩

@[simp] theorem contains_union (s t : SortedSet α) (a : α) :
    (s.union t).contains a = true ↔ s.contains a = true ∨ t.contains a = true := by
  rw [union, contains_foldl, mem_toList, or_comm]

theorem subset_iff {s t : SortedSet α} :
    s.subset t = true ↔ ∀ a, s.contains a = true → t.contains a = true := by
  simp [subset, List.all_eq_true]

end SortedSet

end GrammarKit
