import GrammarKit.Proofs.First.Rounds

/-!
The check that a grammar is closed. A name that a rule refers to is undefined if no rule has it,
wherever in the body the reference stands; the check reports the least such name of the first rule
with one. A grammar that passes has an entry for each name that is looked up while its FIRST sets are
found.

Main statement: what the check reports, and that FIRST sets are found, without a name that is missing,
unless the check reports something.
-/

namespace GrammarKit

inductive Expr.Refers : Expr → String → Prop
  | reference {name} : Refers (.reference name) name
  | wrap {o e name} (h : Refers e name) : Refers (.wrap o e) name
  | choice {items e name} (mem : e ∈ items) (h : Refers e name) : Refers (.choice items) name
  | sequence {items e name} (mem : e ∈ items) (h : Refers e name) : Refers (.sequence items) name

namespace Expr

theorem mem_itemReferences {items : List Expr} {name : String} :
    name ∈ itemReferences items ↔ ∃ e ∈ items, name ∈ e.references := by
  induction items with
  | nil => simp [itemReferences]
  | cons e items ih => simp [itemReferences, ih]

theorem mem_references {e : Expr} {name : String} : name ∈ e.references ↔ e.Refers name := by
  induction e using Expr.induct with
  | choice items ih =>
    rw [references, mem_itemReferences]
    constructor
    · rintro ⟨e, mem, h⟩
      exact .choice mem ((ih e mem).1 h)
    · rintro (_ | _ | ⟨mem, h⟩ | _)
      exact ⟨_, mem, (ih _ mem).2 h⟩
  | sequence items ih =>
    rw [references, mem_itemReferences]
    constructor
    · rintro ⟨e, mem, h⟩
      exact .sequence mem ((ih e mem).1 h)
    · rintro (_ | _ | _ | ⟨mem, h⟩)
      exact ⟨_, mem, (ih _ mem).2 h⟩
  | wrap o e ih =>
    rw [references, ih]
    exact ⟨.wrap, fun | .wrap h => h⟩
  | pattern p => exact ⟨nofun, nofun⟩
  | reference name' =>
    rw [references, List.mem_singleton]
    constructor
    · rintro rfl
      exact .reference
    · rintro ⟨⟩
      rfl
  | code text => exact ⟨nofun, nofun⟩

theorem mem_referencedRules {e : Expr} {name : String} :
    name ∈ e.referencedRules.toList ↔ e.Refers name := by
  rw [referencedRules, SortedSet.mem_toList, SortedSet.contains_ofList, mem_references]

end Expr

/-- The first name in a set that passes a test is the least one. -/
theorem SortedSet.find?_toList {s : SortedSet String} {p : String → Bool} {name : String} :
    s.toList.find? p = some name ↔
      (name ∈ s.toList ∧ p name = true) ∧ ∀ other ∈ s.toList, p other = true → name ≤ other := by
  have increasing : s.toList.Pairwise (· < ·) :=
    List.pairwise_map.2 (s.increasing.imp compareOfLessAndEq_eq_lt.1)
  generalize s.toList = names at increasing
  constructor
  · intro found
    obtain ⟨passes, before, after, rfl, fail⟩ := List.find?_eq_some_iff_append.1 found
    refine ⟨⟨by simp, passes⟩, fun other mem passes' => ?_⟩
    rcases List.mem_append.1 mem with mem | mem
    · have := fail other mem
      rw [passes'] at this
      cases this
    · rcases List.mem_cons.1 mem with rfl | mem
      · exact Std.le_refl _
      · have above := (List.pairwise_cons.1 (List.pairwise_append.1 increasing).2.1).1
        exact Std.le_of_lt (above other mem)
  · rintro ⟨⟨mem, passes⟩, least⟩
    cases found : names.find? p with
    | none => exact absurd passes (by simpa using List.find?_eq_none.1 found name mem)
    | some first =>
      obtain ⟨passes', before, after, rfl, fail⟩ := List.find?_eq_some_iff_append.1 found
      have le : name ≤ first := least first (by simp) passes'
      rcases List.mem_append.1 mem with mem | mem
      · have := fail name mem
        rw [passes] at this
        cases this
      · rcases List.mem_cons.1 mem with rfl | mem
        · rfl
        · have above := (List.pairwise_cons.1 (List.pairwise_append.1 increasing).2.1).1
          exact absurd (above name mem) (String.not_lt.2 le)

namespace Grammar

variable {g : Grammar} {r : Definition} {name : String}

def Undefined (g : Grammar) (e : Expr) (name : String) : Prop :=
  e.Refers name ∧ name ∉ g.ruleNames

/-- The rule lacks the name that is reported, which is the least that it lacks. -/
structure Lacks (g : Grammar) (r : Definition) (e : UndefinedRule) : Prop where
  referrer : e.referrer = r.name
  undefined : g.Undefined r.body e.name
  least : ∀ name, g.Undefined r.body name → e.name ≤ name

theorem isNone_rule? : (g.rule? name).isNone = true ↔ name ∉ g.ruleNames := by
  simp [rule?, ruleNames, List.mem_map]

theorem undefinedIn?_eq_some {e : UndefinedRule} : g.undefinedIn? r = some e ↔ g.Lacks r e := by
  simp only [undefinedIn?, Option.map_eq_some_iff, SortedSet.find?_toList, isNone_rule?,
    Expr.mem_referencedRules]
  constructor
  · rintro ⟨name, ⟨undefined, least⟩, rfl⟩
    exact ⟨rfl, undefined, fun other h => least other h.1 h.2⟩
  · intro h
    refine ⟨e.name, ⟨h.undefined, fun other refers new => h.least other ⟨refers, new⟩⟩, ?_⟩
    rw [← h.referrer]

theorem undefinedIn?_eq_none : g.undefinedIn? r = none ↔ ∀ name, ¬g.Undefined r.body name := by
  simp only [undefinedIn?, Option.map_eq_none_iff, List.find?_eq_none, isNone_rule?,
    Expr.mem_referencedRules, Undefined, not_and]

theorem checkClosed_eq_ok :
    g.checkClosed = .ok () ↔ ∀ r ∈ g.rules, ∀ name, r.body.Refers name → name ∈ g.ruleNames := by
  have all : g.checkClosed = .ok () ↔ g.rules.findSome? g.undefinedIn? = none := by
    rw [checkClosed]
    cases g.rules.findSome? g.undefinedIn? <;> simp
  simp only [all, List.findSome?_eq_none_iff, undefinedIn?_eq_none, Undefined, not_and, not_not]

theorem checkClosed_eq_error {e : UndefinedRule} : g.checkClosed = .error e ↔
    ∃ before r after, g.rules = before ++ r :: after ∧ g.Lacks r e ∧
      ∀ d ∈ before, ∀ name, ¬g.Undefined d.body name := by
  have first : g.checkClosed = .error e ↔ g.rules.findSome? g.undefinedIn? = some e := by
    rw [checkClosed]
    cases g.rules.findSome? g.undefinedIn? <;> simp
  simp only [first, List.findSome?_eq_some_iff, undefinedIn?_eq_some, undefinedIn?_eq_none]

theorem firstSets_eq_error {e : UndefinedRule} :
    g.firstSets = .error e ↔ g.checkClosed = .error e := by
  rw [firstSets]
  cases g.checkClosed <;> simp

inductive RoundBegins (g : Grammar) : FirstTable → Prop
  | first (closed : g.checkClosed = .ok ()) : RoundBegins g g.emptyTable
  | next {table next} (h : RoundBegins g table) (round : g.round table = (next, true)) :
      RoundBegins g next

/-- While the FIRST sets are found, the body of the rule is applied to the table. -/
def Applies (g : Grammar) (r : Definition) (table : FirstTable) : Prop :=
  ∃ begun before after, g.RoundBegins begun ∧ g.rules = before ++ r :: after ∧
    (before.foldl improve (begun, false)).1 = table

theorem RoundBegins.isSome_get? {table : FirstTable} (h : g.RoundBegins table) :
    ∀ r ∈ g.rules, (table.get? r.name).isSome := by
  induction h with
  | first closed =>
    intro r mem
    have defined : r.name ∈ g.ruleNames := List.mem_map_of_mem mem
    rw [get?_emptyTable, if_pos defined]
    rfl
  | @next table next h round ih =>
    intro r mem
    have kept := isSome_get?_foldl (table, false) ih r.name
    rw [show g.rules.foldl improve (table, false) = (next, true) from round] at kept
    rw [kept]
    exact ih r mem

theorem RoundBegins.closed {table : FirstTable} (h : g.RoundBegins table) :
    g.checkClosed = .ok () := by
  induction h with
  | first closed => exact closed
  | next h round ih => exact ih

theorem Applies.isSome_get? {table : FirstTable} (h : g.Applies r table)
    (refers : r.body.Refers name) : (table.get? name).isSome := by
  obtain ⟨begun, before, after, begins, split, rfl⟩ := h
  have defined : name ∈ g.ruleNames :=
    checkClosed_eq_ok.1 begins.closed r (split ▸ by simp) name refers
  obtain ⟨d, mem, rfl⟩ := List.mem_map.1 defined
  have known : ∀ d ∈ before, (begun.get? d.name).isSome :=
    fun d mem => begins.isSome_get? d (split ▸ List.mem_append_left _ mem)
  rw [isSome_get?_foldl (begun, false) known]
  exact begins.isSome_get? d mem

/-- The check passes exactly closed grammars, and of others it reports the first rule that refers to
an undefined name, with the least such name. FIRST sets are found of what passes, and no name that is
looked up for them is missing. -/
theorem checkClosed_exact (g : Grammar) :
    (g.checkClosed = .ok () ↔ ∀ r ∈ g.rules, ∀ name, r.body.Refers name → name ∈ g.ruleNames) ∧
      (∀ e, g.checkClosed = .error e ↔
        ∃ before r after, g.rules = before ++ r :: after ∧ g.Lacks r e ∧
          ∀ d ∈ before, ∀ name, ¬g.Undefined d.body name) ∧
      (∀ e, g.firstSets = .error e ↔ g.checkClosed = .error e) ∧
      ∀ r table name, g.Applies r table → r.body.Refers name → (table.get? name).isSome :=
  ⟨checkClosed_eq_ok, fun _ => checkClosed_eq_error, fun _ => firstSets_eq_error,
    fun _ _ _ applies refers => applies.isSome_get? refers⟩

/-- The least undefined name counts, not the first one. -/
example : checkClosed ⟨none, [⟨"a", .sequence [.reference "c", .reference "b"], none⟩]⟩ =
    .error ⟨"b", "a"⟩ := by rfl

end Grammar

end GrammarKit
