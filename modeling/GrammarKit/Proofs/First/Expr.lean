import GrammarKit.Proofs.First
import GrammarKit.Proofs.Sorted

/-!
The FIRST set of an expression, member by member. Computed from a table that has nothing but what
begins the rules, it has nothing but what begins the expression; computed from a table to which no
rule has anything to add, it has all of that.
-/

namespace GrammarKit

namespace FirstSet

variable {a b : FirstSet}

@[simp] theorem has_empty (i : FirstItem) : empty.has i = false := by
  cases i <;> rfl

@[simp] theorem has_union {i : FirstItem} :
    (a.union b).has i = true ↔ a.has i = true ∨ b.has i = true := by
  cases i <;> simp [has, union]

theorem has_followedBy_nothing :
    (a.followedBy b).has .nothing = true ↔ a.has .nothing = true ∧ b.has .nothing = true := by
  simp only [has, followedBy]
  split <;> simp_all

theorem has_followedBy_terminal {t : Terminal} : (a.followedBy b).has (.terminal t) = true ↔
    a.has (.terminal t) = true ∨ a.has .nothing = true ∧ b.has (.terminal t) = true := by
  simp only [has, followedBy]
  split <;> simp_all

theorem subset_iff : a.subset b = true ↔ ∀ i, a.has i = true → b.has i = true := by
  rw [subset, Bool.and_eq_true, SortedSet.subset_iff, Bool.or_eq_true, Bool.not_eq_true']
  constructor
  · rintro ⟨nothing, patterns⟩ i hi
    cases i with
    | nothing =>
      rcases nothing with not | h
      · exact absurd (not.symm.trans hi) Bool.false_ne_true
      · exact h
    | terminal t => exact patterns t hi
  · intro h
    refine ⟨?_, fun t => h (.terminal t)⟩
    cases ha : a.nullable with
    | false => exact .inl rfl
    | true => exact .inr (h .nothing ha)

end FirstSet

/-- What a table has for a name, where an unknown name has nothing. -/
def FirstTable.Has (table : FirstTable) (name : String) (i : FirstItem) : Prop :=
  ((table.get? name).getD .empty).has i = true

instance (table : FirstTable) (name : String) (i : FirstItem) : Decidable (table.Has name i) :=
  inferInstanceAs (Decidable (_ = true))

namespace Expr

variable {table : FirstTable}

/-- Induction over expressions, with the items of a composite at hand. -/
theorem induct {motive : Expr → Prop}
    (choice : ∀ items, (∀ e ∈ items, motive e) → motive (.choice items))
    (sequence : ∀ items, (∀ e ∈ items, motive e) → motive (.sequence items))
    (wrap : ∀ o e, motive e → motive (.wrap o e))
    (pattern : ∀ p, motive (.pattern p)) (reference : ∀ name, motive (.reference name))
    (code : ∀ text, motive (.code text)) : ∀ e, motive e
  | .choice items => choice items fun e _ =>
      induct choice sequence wrap pattern reference code e
  | .sequence items => sequence items fun e _ =>
      induct choice sequence wrap pattern reference code e
  | .wrap o e => wrap o e (induct choice sequence wrap pattern reference code e)
  | .pattern p => pattern p
  | .reference name => reference name
  | .code text => code text

theorem has_firstOfAny {items : List Expr} {i : FirstItem} :
    (firstOfAny table items).has i = true ↔ ∃ e ∈ items, (e.first table).has i = true := by
  induction items with
  | nil => simp [firstOfAny]
  | cons e items ih => simp [firstOfAny, ih]

theorem has_firstInTurn_nothing {items : List Expr} :
    (firstInTurn table items).has .nothing = true ↔
      ∀ e ∈ items, (e.first table).has .nothing = true := by
  induction items with
  | nil => simp [firstInTurn, FirstSet.nothing, FirstSet.has]
  | cons e items ih => rw [firstInTurn, FirstSet.has_followedBy_nothing, ih, List.forall_mem_cons]

theorem has_firstInTurn_terminal {items : List Expr} {t : Terminal} :
    (firstInTurn table items).has (.terminal t) = true ↔
      ∃ before e after, items = before ++ e :: after ∧
        (∀ d ∈ before, (d.first table).has .nothing = true) ∧
        (e.first table).has (.terminal t) = true := by
  induction items with
  | nil => simp [firstInTurn, FirstSet.nothing, FirstSet.has]
  | cons d items ih =>
    rw [firstInTurn, FirstSet.has_followedBy_terminal, ih]
    constructor
    · rintro (h | ⟨skipped, before, e, after, rfl, hbefore, h⟩)
      · exact ⟨[], d, items, rfl, List.forall_mem_nil _, h⟩
      · exact ⟨d :: before, e, after, rfl, List.forall_mem_cons.2 ⟨skipped, hbefore⟩, h⟩
    · rintro ⟨before, e, after, hitems, hbefore, h⟩
      cases before with
      | nil =>
        cases hitems
        exact .inl h
      | cons d' before =>
        cases hitems
        obtain ⟨skipped, hbefore⟩ := List.forall_mem_cons.1 hbefore
        exact .inr ⟨skipped, before, e, after, rfl, hbefore, h⟩

theorem has_wrap_nothing {o : Occurrence} {e : Expr} :
    ((wrap o e).first table).has .nothing = true ↔
      o.nullable = true ∨ (e.first table).has .nothing = true := by
  simp [first, FirstSet.has]

theorem has_wrap_terminal {o : Occurrence} {e : Expr} {t : Terminal} :
    ((wrap o e).first table).has (.terminal t) = (e.first table).has (.terminal t) := by
  simp [first, FirstSet.has]

theorem has_pattern_nothing {p : Pattern} :
    ((pattern p).first table).has .nothing = true ↔ p.source = "" := by
  simp only [first]
  split <;> simp_all [FirstSet.has, FirstSet.nothing]

theorem has_pattern_terminal {p : Pattern} {t : Terminal} :
    ((pattern p).first table).has (.terminal t) = true ↔
      p.source ≠ "" ∧ Terminal.ofPattern p = t := by
  simp only [first]
  split
  next empty => simp_all [FirstSet.has, FirstSet.nothing]
  next some =>
    rw [FirstSet.has, SortedSet.contains_add, eq_comm]
    simp_all

theorem has_reference {name : String} {i : FirstItem} :
    ((reference name).first table).has i = true ↔ table.Has name i := Iff.rfl

end Expr

namespace Grammar

variable {g : Grammar} {table : FirstTable}

def Sound (g : Grammar) (table : FirstTable) : Prop :=
  ∀ name i, table.Has name i → g.Begins (.reference name) i

def Closed (g : Grammar) (table : FirstTable) : Prop :=
  ∀ r ∈ g.rules, ∀ i, (r.body.first table).has i = true → table.Has r.name i

theorem Sound.first (sound : g.Sound table) {e : Expr} :
    ∀ {i}, (e.first table).has i = true → g.Begins e i := by
  induction e using Expr.induct with
  | choice items ih =>
    intro i hi
    obtain ⟨e, mem, he⟩ := Expr.has_firstOfAny.1 hi
    cases i with
    | nothing => exact .choice mem (ih e mem he)
    | terminal t => exact .choice mem (ih e mem he)
  | sequence items ih =>
    intro i hi
    cases i with
    | nothing =>
      have each := Expr.has_firstInTurn_nothing.1 hi
      exact .sequence fun e mem => ih e mem (each e mem)
    | terminal t =>
      obtain ⟨before, e, after, rfl, skipped, he⟩ := Expr.has_firstInTurn_terminal.1 hi
      exact .sequence (fun d mem => ih d (List.mem_append_left _ mem) (skipped d mem))
        (ih e (by simp) he)
  | wrap o e ih =>
    intro i hi
    cases i with
    | nothing =>
      rcases Expr.has_wrap_nothing.1 hi with optional | he
      · exact .optional optional
      · cases o with
        | oneOrMore => exact .repeated (ih he)
        | _ => exact .optional rfl
    | terminal t =>
      rw [Expr.has_wrap_terminal] at hi
      exact .wrap (ih hi)
  | pattern p =>
    intro i hi
    cases i with
    | nothing => exact .pattern (Expr.has_pattern_nothing.1 hi)
    | terminal t =>
      obtain ⟨some, rfl⟩ := Expr.has_pattern_terminal.1 hi
      exact .pattern some
  | reference name => exact fun hi => sound name _ (Expr.has_reference.1 hi)
  | code text =>
    intro i hi
    cases i with
    | nothing => exact .code
    | terminal t => cases hi

theorem Closed.nullable (closed : g.Closed table) {e : Expr} (h : g.Nullable e) :
    (e.first table).has .nothing = true := by
  induction h with
  | code => rfl
  | pattern empty => exact Expr.has_pattern_nothing.2 empty
  | optional h => exact Expr.has_wrap_nothing.2 (.inl h)
  | repeated h ih => exact Expr.has_wrap_nothing.2 (.inr ih)
  | choice mem h ih => exact Expr.has_firstOfAny.2 ⟨_, mem, ih⟩
  | sequence h ih => exact Expr.has_firstInTurn_nothing.2 ih
  | reference mem h ih => exact Expr.has_reference.2 (closed _ mem _ ih)

theorem Closed.startsWith (closed : g.Closed table) {e : Expr} {t : Terminal}
    (h : g.StartsWith e t) : (e.first table).has (.terminal t) = true := by
  induction h with
  | pattern some => exact Expr.has_pattern_terminal.2 ⟨some, rfl⟩
  | wrap h ih =>
    rw [Expr.has_wrap_terminal]
    exact ih
  | choice mem h ih => exact Expr.has_firstOfAny.2 ⟨_, mem, ih⟩
  | sequence skipped h ih =>
    exact Expr.has_firstInTurn_terminal.2
      ⟨_, _, _, rfl, fun d mem => closed.nullable (skipped d mem), ih⟩
  | reference mem h ih => exact Expr.has_reference.2 (closed _ mem _ ih)

/-- A closed table has all that begins an expression. -/
theorem Closed.begins (closed : g.Closed table) {e : Expr} {i : FirstItem} (h : g.Begins e i) :
    (e.first table).has i = true := by
  cases i with
  | nothing => exact closed.nullable h
  | terminal t => exact closed.startsWith h

end Grammar

end GrammarKit
