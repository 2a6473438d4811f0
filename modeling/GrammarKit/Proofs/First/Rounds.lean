import GrammarKit.Proofs.First.Expr
import Mathlib.Data.Finset.Prod

/-!
The rounds that find FIRST sets. A rule that is visited adds to its set what its body gives, and the
rules behind it use that at once. Whatever is added begins the rule, so there are finitely many
members to add; a round that adds nothing leaves a table to which no rule has anything to add.

Main statement: the rounds of a closed grammar end, each but the last having added a member, and leave
for every name exactly what begins the rules of that name.
-/

namespace GrammarKit

namespace Grammar

variable {g : Grammar} {table : FirstTable}

theorem has_insert {name name' : String} {s : FirstSet} {i : FirstItem} :
    FirstTable.Has (table.insert name s) name' i ↔
      if name' = name then s.has i = true else table.Has name' i := by
  rw [FirstTable.Has, SortedMap.get?_insert]
  split
  next h => simp [Std.LawfulEqOrd.eq_of_compare h]
  next h =>
    have ne : name' ≠ name := fun e => h (e ▸ Std.ReflCmp.compare_self)
    rw [if_neg ne, FirstTable.Has]

theorem has_improve {state : FirstTable × Bool} {r : Definition} {name : String} {i : FirstItem} :
    (improve state r).1.Has name i ↔
      state.1.Has name i ∨ name = r.name ∧ (r.body.first state.1).has i = true := by
  unfold improve
  dsimp only
  split
  next sub =>
    refine ⟨.inl, ?_⟩
    rintro (h | ⟨rfl, h⟩)
    · exact h
    · exact FirstSet.subset_iff.1 sub i h
  next =>
    rw [has_insert]
    split
    next h => simp [h, FirstTable.Has]
    next h => simp [h]

theorem improve_unchanged {state : FirstTable × Bool} {r : Definition}
    (h : (improve state r).2 = false) : improve state r = state ∧
      ∀ i, (r.body.first state.1).has i = true → state.1.Has r.name i := by
  unfold improve at h ⊢
  dsimp only at h ⊢
  split
  next sub => exact ⟨rfl, FirstSet.subset_iff.1 sub⟩
  next sub =>
    rw [if_neg sub] at h
    cases h

/-- Where something changed, a member was added. -/
theorem improve_changed {state : FirstTable × Bool} {r : Definition} (before : state.2 = false)
    (h : (improve state r).2 = true) :
    ∃ i, (improve state r).1.Has r.name i ∧ ¬state.1.Has r.name i := by
  have sub : ¬(r.body.first state.1).subset ((state.1.get? r.name).getD .empty) = true := by
    intro sub
    rw [improve, if_pos sub, before] at h
    cases h
  rw [FirstSet.subset_iff] at sub
  push Not at sub
  obtain ⟨i, hi, new⟩ := sub
  exact ⟨i, has_improve.2 (.inr ⟨rfl, hi⟩), new⟩

section

variable {rules : List Definition} {state : FirstTable × Bool}

theorem retains_foldl {name : String} {i : FirstItem} (h : state.1.Has name i) :
    (rules.foldl improve state).1.Has name i := by
  induction rules generalizing state with
  | nil => exact h
  | cons r rules ih => exact ih (has_improve.2 (.inl h))

theorem Sound.foldl (sound : g.Sound state.1) (known : ∀ r ∈ rules, r ∈ g.rules) :
    g.Sound (rules.foldl improve state).1 := by
  induction rules generalizing state with
  | nil => exact sound
  | cons r rules ih =>
    obtain ⟨mem, known⟩ := List.forall_mem_cons.1 known
    refine ih (fun name i hi => ?_) known
    rcases has_improve.1 hi with h | ⟨rfl, h⟩
    · exact sound name i h
    · have begins := sound.first h
      cases i with
      | nothing => exact .reference mem begins
      | terminal t => exact .reference mem begins

theorem foldl_unchanged (h : (rules.foldl improve state).2 = false) :
    rules.foldl improve state = state ∧
      ∀ r ∈ rules, ∀ i, (r.body.first state.1).has i = true → state.1.Has r.name i := by
  induction rules generalizing state with
  | nil => exact ⟨rfl, List.forall_mem_nil _⟩
  | cons r rules ih =>
    obtain ⟨same, rest⟩ := ih h
    rw [List.foldl_cons, same] at h
    obtain ⟨same', here⟩ := improve_unchanged h
    rw [same'] at same rest
    exact ⟨by rw [List.foldl_cons, same', same], List.forall_mem_cons.2 ⟨here, rest⟩⟩

theorem foldl_changed (before : state.2 = false) (h : (rules.foldl improve state).2 = true) :
    ∃ name i, (rules.foldl improve state).1.Has name i ∧ ¬state.1.Has name i := by
  induction rules generalizing state with
  | nil => exact absurd (before.symm.trans h) Bool.false_ne_true
  | cons r rules ih =>
    rw [List.foldl_cons] at h ⊢
    cases here : (improve state r).2 with
    | true =>
      obtain ⟨i, has, new⟩ := improve_changed before here
      exact ⟨r.name, i, retains_foldl has, new⟩
    | false =>
      -- The visit changed nothing, so the change is behind it.
      rw [(improve_unchanged here).1] at h ⊢
      exact ih before h

end

theorem Sound.round {next : FirstTable} {changed : Bool} (sound : g.Sound table)
    (h : g.round table = (next, changed)) : g.Sound next := by
  have step : g.Sound (g.round table).1 := Sound.foldl sound fun r mem => mem
  rwa [h] at step

/-- Rounds from a table on: `n` of them, each adding something but the last, which leaves `last`. -/
inductive Ends (g : Grammar) : Nat → FirstTable → FirstTable → Prop
  | last {table last} (h : g.round table = (last, false)) : Ends g 1 table last
  | more {n table next last} (h : g.round table = (next, true)) (rest : Ends g n next last) :
      Ends g (n + 1) table last

theorem rounds_eq {n : Nat} {last : FirstTable} (ends : g.Ends n table last) {bound : Nat}
    (enough : n ≤ bound) : g.rounds bound table = last := by
  induction ends generalizing bound with
  | last h =>
    obtain ⟨bound, rfl⟩ := Nat.exists_eq_add_one.2 enough
    rw [rounds, h]
  | more h rest ih =>
    obtain ⟨bound, rfl⟩ := Nat.exists_eq_add_one.2 (Nat.lt_of_lt_of_le (Nat.succ_pos _) enough)
    rw [rounds, h]
    exact ih (Nat.le_of_succ_le_succ enough)

theorem Ends.closed {n : Nat} {last : FirstTable} (ends : g.Ends n table last) :
    g.Closed last := by
  induction ends with
  | @last table last h =>
    obtain ⟨same, closed⟩ := foldl_unchanged (congrArg Prod.snd h)
    have : last = table := congrArg Prod.fst (h.symm.trans same)
    rw [this]
    exact closed
  | more h rest ih => exact ih

theorem Ends.sound {n : Nat} {last : FirstTable} (ends : g.Ends n table last)
    (sound : g.Sound table) : g.Sound last := by
  induction ends with
  | last h => exact sound.round h
  | more h rest ih => exact ih (sound.round h)

def members (g : Grammar) : Finset (String × FirstItem) :=
  g.ruleNames.toFinset ×ˢ insert .nothing (g.startingTerminals.image .terminal)

theorem card_members_le (g : Grammar) :
    g.members.card ≤ g.ruleNames.toFinset.card * (g.startingTerminals.card + 1) := by
  rw [members, Finset.card_product]
  refine Nat.mul_le_mul_left _ ((Finset.card_insert_le _ _).trans ?_)
  exact Nat.add_le_add_right Finset.card_image_le 1

theorem Begins.mem_members {name : String} {i : FirstItem} (h : g.Begins (.reference name) i) :
    (name, i) ∈ g.members := by
  rw [members, Finset.mem_product, List.mem_toFinset, Finset.mem_insert, Finset.mem_image]
  cases i with
  | nothing =>
    cases h with
    | reference mem h => exact ⟨List.mem_map_of_mem mem, .inl rfl⟩
  | terminal t =>
    refine ⟨?_, .inr ⟨t, ?_, rfl⟩⟩
    · cases h with
      | reference mem h => exact List.mem_map_of_mem mem
    · rcases StartsWith.mem h with ⟨p, hp, -⟩ | found
      · cases hp
      · exact found

def found (g : Grammar) (table : FirstTable) : Finset (String × FirstItem) :=
  g.members.filter fun m => table.Has m.1 m.2

/-- A round that changes something leaves fewer members to add. -/
theorem card_found_lt {next : FirstTable} (sound : g.Sound table)
    (h : g.round table = (next, true)) : (g.found table).card < (g.found next).card := by
  have after : (g.rules.foldl improve (table, false)).1 = next := congrArg Prod.fst h
  obtain ⟨name, i, has, new⟩ := foldl_changed rfl (congrArg Prod.snd h)
  have sound' : g.Sound next := sound.round h
  rw [after] at has
  apply Finset.card_lt_card
  refine Finset.ssubset_iff_of_subset ?_ |>.2 ⟨(name, i), ?_, ?_⟩
  · intro m hm
    obtain ⟨mem, hm⟩ := Finset.mem_filter.1 hm
    have kept : (g.rules.foldl improve (table, false)).1.Has m.1 m.2 := retains_foldl hm
    rw [after] at kept
    exact Finset.mem_filter.2 ⟨mem, kept⟩
  · exact Finset.mem_filter.2 ⟨Begins.mem_members (sound' name i has), has⟩
  · exact fun hm => new (Finset.mem_filter.1 hm).2

theorem exists_ends (sound : g.Sound table) :
    ∃ n last, g.Ends n table last ∧ n + (g.found table).card ≤ g.members.card + 1 := by
  have le : (g.found table).card ≤ g.members.card := Finset.card_filter_le _ _
  induction left : g.members.card - (g.found table).card using Nat.strong_induction_on
    generalizing table with
  | _ left ih =>
    cases h : g.round table with
    | mk next changed =>
      cases changed with
      | false => exact ⟨1, next, .last h, by omega⟩
      | true =>
        have lt := card_found_lt sound h
        have sound' := sound.round h
        have le' : (g.found next).card ≤ g.members.card := Finset.card_filter_le _ _
        obtain ⟨n, last, ends, bound⟩ := ih _ (by omega) sound' le' rfl
        exact ⟨n + 1, last, .more h ends, by omega⟩

def emptyTable (g : Grammar) : FirstTable :=
  SortedMap.ofList (g.rules.map fun r => (r.name, .empty))

theorem get?_emptyTable (g : Grammar) (name : String) :
    g.emptyTable.get? name = if name ∈ g.ruleNames then some .empty else none := by
  rw [emptyTable, SortedMap.get?_ofList, SortedMap.find?]
  have entry : ∀ e ∈ (g.rules.map fun r => (r.name, FirstSet.empty)).reverse,
      e.1 ∈ g.ruleNames ∧ e.2 = FirstSet.empty := by
    intro e he
    obtain ⟨r, mem, rfl⟩ := List.mem_map.1 (List.mem_reverse.1 he)
    exact ⟨List.mem_map_of_mem mem, rfl⟩
  split
  next mem =>
    obtain ⟨r, hr, rfl⟩ := List.mem_map.1 mem
    have some : ((g.rules.map fun r => (r.name, FirstSet.empty)).reverse.find? fun e =>
        compare r.name e.1 == .eq).isSome :=
      List.find?_isSome.2 ⟨(r.name, .empty), List.mem_reverse.2 (List.mem_map_of_mem hr), by simp⟩
    obtain ⟨e, he⟩ := Option.isSome_iff_exists.1 some
    rw [he, Option.map_some, (entry e (List.mem_of_find?_eq_some he)).2]
  next new =>
    rw [Option.map_eq_none_iff, List.find?_eq_none]
    intro e he same
    have : name = e.1 := Std.LawfulEqOrd.eq_of_compare (eq_of_beq same)
    exact new (this ▸ (entry e he).1)

theorem sound_emptyTable (g : Grammar) : g.Sound g.emptyTable := by
  intro name i h
  rw [FirstTable.Has, get?_emptyTable] at h
  split at h <;> simp at h

theorem isSome_get?_foldl {rules : List Definition} (state : FirstTable × Bool)
    (known : ∀ r ∈ rules, (state.1.get? r.name).isSome) (name : String) :
    ((rules.foldl improve state).1.get? name).isSome = (state.1.get? name).isSome := by
  have step : ∀ state : FirstTable × Bool, ∀ r, (state.1.get? r.name).isSome → ∀ name,
      ((improve state r).1.get? name).isSome = (state.1.get? name).isSome := by
    intro state r hr name
    unfold improve
    dsimp only
    split
    · rfl
    · rw [SortedMap.get?_insert]
      split
      next h => rw [Std.LawfulEqOrd.eq_of_compare h, hr]; rfl
      next => rfl
  induction rules generalizing state with
  | nil => rfl
  | cons r rules ih =>
    obtain ⟨hr, known⟩ := List.forall_mem_cons.1 known
    rw [List.foldl_cons, ih, step state r hr]
    intro r' mem
    rw [step state r hr]
    exact known r' mem

theorem Ends.isSome_get? {n : Nat} {last : FirstTable} (ends : g.Ends n table last)
    (known : ∀ r ∈ g.rules, (table.get? r.name).isSome) (name : String) :
    (last.get? name).isSome = (table.get? name).isSome := by
  induction ends with
  | @last table last h =>
    have kept := isSome_get?_foldl (table, false) known name
    rwa [show g.rules.foldl improve (table, false) = (last, false) from h] at kept
  | @more n table next last h rest ih =>
    have kept := isSome_get?_foldl (table, false) known
    rw [show g.rules.foldl improve (table, false) = (next, true) from h] at kept
    rw [ih fun r mem => ?_, kept]
    rw [kept]
    exact known r mem

theorem card_startingTerminals_le (g : Grammar) :
    g.startingTerminals.card ≤ g.terminals.toList.length := by
  refine (Finset.card_le_card fun t ht => ?_).trans (List.toFinset_card_le _)
  obtain ⟨r, hr, p, hp, -, rfl⟩ := mem_startingTerminals.1 ht
  simp only [List.mem_toFinset, terminals, SortedSet.mem_toList, SortedSet.contains_ofList,
    List.mem_flatMap]
  exact ⟨r, hr, by simpa [Expr.terminals] using ⟨p, hp, rfl⟩⟩

theorem members_le_roundBound (g : Grammar) : g.members.card + 1 ≤ g.roundBound := by
  have names : g.ruleNames.toFinset.card ≤ g.rules.length :=
    (List.toFinset_card_le _).trans (Nat.le_of_eq (List.length_map _))
  have terminals := card_startingTerminals_le g
  have product := Nat.mul_le_mul names (Nat.add_le_add_right terminals 1)
  exact Nat.add_le_add_right ((card_members_le g).trans product) 1

/-- The FIRST sets of a closed grammar are found, and have exactly what begins each rule. -/
theorem firstSets_exact {g : Grammar} (closed : g.checkClosed = .ok ()) :
    ∃ n table,
      n ≤ g.ruleNames.toFinset.card * (g.startingTerminals.card + 1) + 1 ∧
      g.Ends n g.emptyTable table ∧
      g.firstSets = .ok table ∧
      (∀ name, (table.get? name).isSome ↔ name ∈ g.ruleNames) ∧
      ∀ name set, table.get? name = some set →
        (set.nullable = true ↔ g.Nullable (.reference name)) ∧
        ∀ t, set.patterns.contains t = true ↔ g.StartsWith (.reference name) t := by
  obtain ⟨n, table, ends, bound⟩ := exists_ends g.sound_emptyTable
  have known : ∀ name, (g.emptyTable.get? name).isSome ↔ name ∈ g.ruleNames := by
    intro name
    rw [get?_emptyTable]
    split <;> simp_all
  have exact : ∀ name i, table.Has name i ↔ g.Begins (.reference name) i :=
    fun name i => ⟨ends.sound g.sound_emptyTable name i, ends.closed.begins⟩
  refine ⟨n, table, ?_, ends, ?_, fun name => ?_, fun name set hset => ⟨?_, fun t => ?_⟩⟩
  · exact (Nat.le_of_add_right_le bound).trans (Nat.add_le_add_right (card_members_le g) 1)
  · rw [firstSets, closed]
    have enough : n ≤ g.roundBound := by
      have := members_le_roundBound g
      omega
    exact congrArg Except.ok (rounds_eq ends enough)
  · rw [ends.isSome_get? (fun r mem => (known r.name).2 (List.mem_map_of_mem mem)), known]
  · have := exact name .nothing
    rwa [FirstTable.Has, hset] at this
  · have := exact name (.terminal t)
    rwa [FirstTable.Has, hset] at this

/-- A rule that begins with itself, and two rules of one name, the later of which refers back. -/
theorem firstSets_exact_recursive :
    let g : Grammar := ⟨none,
      [⟨"e", .choice [.sequence [.reference "e", .pattern ⟨"[+]", none⟩], .reference "n"], none⟩,
        ⟨"n", .wrap .zeroOrOne (.pattern ⟨"x", none⟩), none⟩, ⟨"n", .reference "e", none⟩]⟩
    g.checkClosed = .ok () ∧ ∃ n table,
      n ≤ g.ruleNames.toFinset.card * (g.startingTerminals.card + 1) + 1 ∧
      g.Ends n g.emptyTable table ∧
      g.firstSets = .ok table ∧
      (∀ name, (table.get? name).isSome ↔ name ∈ g.ruleNames) ∧
      ∀ name set, table.get? name = some set →
        (set.nullable = true ↔ g.Nullable (.reference name)) ∧
        ∀ t, set.patterns.contains t = true ↔ g.StartsWith (.reference name) t :=
  ⟨by rfl, firstSets_exact (by rfl)⟩

end Grammar

end GrammarKit
