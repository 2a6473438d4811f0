import GrammarKit.Proofs.Session.Trace
import Mathlib.Data.List.Sort

/-!
The order in which invocations are recorded. While an invocation runs, all that is recorded descends
from it; so between an invocation and one that it made stand only descendants of the former, and the
descendants of an invocation come in a row behind it.

Main statement: the invocations in the order of their records are the tree in preorder.
-/

namespace GrammarKit

namespace InvocationTree

def route (t : InvocationTree) : Option InvocationId → List Rule
  | none => []
  | some id => t.chain id

def children (t : InvocationTree) (p : Option InvocationId) : List InvocationId :=
  (List.range t.size).filter fun id => (t.get? id).map Invocation.parent = some p

def subtree (t : InvocationTree) : Nat → InvocationId → List InvocationId
  | 0, _ => []
  | steps + 1, id => id :: (t.children (some id)).flatMap (t.subtree steps)

/-- Every invocation in front of those that it made, and they in the order of their records. A parent
is recorded before its children, so there are no more generations than invocations. -/
def preorder (t : InvocationTree) : List InvocationId := (t.children none).flatMap (t.subtree t.size)

/-- Parents come before their children, and between an invocation and one that it made, or behind the
one that is running, stand only its descendants. -/
structure Chronicle (t : InvocationTree) (running : Option InvocationId) : Prop where
  recorded : ∀ c ∈ running, c < t.size
  parents : ∀ id i, t.get? id = some i → ∀ p ∈ i.parent, p < id
  between : ∀ id i, t.get? id = some i → ∀ p ∈ i.parent, ∀ m, p ≤ m → m < id → t.Leads p m
  since : ∀ c ∈ running, ∀ m, c ≤ m → m < t.size → t.Leads c m

variable {t u : InvocationTree} {i : Invocation} {id a b m n : InvocationId}
  {running p : Option InvocationId}

theorem lt_size_of_get? (h : t.get? id = some i) : id < t.size := (Array.getElem?_eq_some_iff.1 h).1

theorem get?_of_lt_size (h : id < t.size) : ∃ i, t.get? id = some i :=
  ⟨t.records[id], Array.getElem?_eq_getElem h⟩

theorem get?_push (t : InvocationTree) (i : Invocation) (id : InvocationId) :
    (t.push i).get? id = if id = t.size then some i else t.get? id := Array.getElem?_push

theorem size_push (t : InvocationTree) (i : Invocation) : (t.push i).size = t.size + 1 :=
  Array.size_push i

theorem get?_push_of_get? (h : t.get? id = some i) (j : Invocation) :
    (t.push j).get? id = some i := by
  rw [get?_push, if_neg (Nat.ne_of_lt (lt_size_of_get? h)), h]

theorem mem_children : id ∈ t.children p ↔ ∃ i, t.get? id = some i ∧ i.parent = p := by
  unfold children
  rw [List.mem_filter, List.mem_range, decide_eq_true_eq, Option.map_eq_some_iff]
  exact ⟨And.right, fun h => ⟨lt_size_of_get? h.choose_spec.1, h⟩⟩

theorem mem_children_some : id ∈ t.children (some n) ↔ t.Makes n id := mem_children

theorem Leads.kept (h : t.Leads a m) (kept : ∀ id i, t.get? id = some i → u.get? id = some i) :
    u.Leads a m := by
  have makes : t.Makes ≤ u.Makes := fun _ _ ⟨i, held, made⟩ => ⟨i, kept _ i held, made⟩
  exact Relation.ReflTransGen.mono makes _ _ h

theorem lt_size_of_leads (h : t.Leads a m) (held : a < t.size) : m < t.size := by
  induction h with
  | refl => exact held
  | tail _ makes => exact lt_size_of_get? makes.choose_spec.1

theorem enough_below {a b size steps : Nat} (lt : a < b) (enough : size ≤ a + (steps + 1)) :
    size ≤ b + steps := by omega

section

variable (parents : ∀ id i, t.get? id = some i → ∀ p ∈ i.parent, p < id)

include parents

theorem le_of_leads (h : t.Leads a m) : a ≤ m := by
  induction h with
  | refl => exact Nat.le_refl _
  | tail _ makes ih =>
    obtain ⟨i, held, made⟩ := makes
    exact Nat.le_trans ih (Nat.le_of_lt (parents _ i held _ made))

/-- The rules on the way down to an invocation, from those on the way to the one that made it. -/
theorem chain_eq (held : t.get? id = some i) : t.chain id = t.route i.parent ++ [i.rule] := by
  have append (steps : Nat) (p : Option InvocationId) (rules : List Rule) :
      t.ancestry steps p rules = t.ancestry steps p [] ++ rules := by
    induction steps generalizing p rules with
    | zero => rfl
    | succ steps ih =>
      cases p with
      | none => rfl
      | some id =>
        simp only [ancestry]
        cases t.get? id with
        | none => rfl
        | some i =>
          dsimp only
          rw [ih, ih i.parent [i.rule], List.append_assoc]
          rfl
  have lt := lt_size_of_get? held
  obtain ⟨steps, hsteps⟩ := Nat.exists_eq_add_one_of_ne_zero (Nat.ne_zero_of_lt lt)
  rw [chain, hsteps, ancestry, held]
  dsimp only
  rw [append]
  congr 1
  cases hp : i.parent with
  | none => cases steps <;> rfl
  | some p =>
    have above := parents id i held p hp
    have recorded := Nat.lt_trans above lt
    rw [hsteps] at lt
    exact ancestry_copied (f := fun id => id) parents parents (fun id i hi => by simpa using hi)
      recorded recorded (Nat.lt_of_lt_of_le above (Nat.le_of_lt_succ lt)) []

theorem length_chain_lt (h : t.Leads a m) (ne : a ≠ m) : (t.chain a).length < (t.chain m).length := by
  induction h with
  | refl => exact absurd rfl ne
  | @tail b c above makes ih =>
    obtain ⟨i, held, made⟩ := makes
    rw [chain_eq parents held, made, route, List.length_append, List.length_singleton]
    by_cases same : a = b
    · rw [same]
      exact Nat.lt_succ_self _
    · exact Nat.lt_succ_of_lt (ih same)

theorem route_kept (parents' : ∀ id i, u.get? id = some i → ∀ p ∈ i.parent, p < id)
    (kept : ∀ id i, t.get? id = some i → u.get? id = some i) (held : ∀ c ∈ p, c < t.size) :
    u.route p = t.route p := by
  cases p with
  | none => rfl
  | some id =>
    exact chain_copied (f := fun id => id) parents parents'
      (fun id i hi => by simpa using kept id i hi) (held id rfl)

end

namespace Chronicle

theorem empty : InvocationTree.empty.Chronicle none where
  recorded := nofun
  parents := by simp [InvocationTree.empty, get?]
  between := by simp [InvocationTree.empty, get?]
  since := nofun

/-- A new invocation is made by the one that is running, and runs from then on. -/
theorem push (h : t.Chronicle running) (rule : Rule) (entry : Position) :
    (t.push ⟨rule, running, entry⟩).Chronicle (some t.size) where
  recorded := by
    rintro c ⟨⟩
    rw [size_push]
    exact Nat.lt_succ_self _
  parents := by
    intro id i hi p hp
    rw [get?_push] at hi
    split at hi
    · rename_i hid
      cases hi
      rw [hid]
      exact h.recorded p hp
    · exact h.parents id i hi p hp
  between := by
    intro id i hi p hp m le lt
    have kept := fun id i (hi : t.get? id = some i) =>
      get?_push_of_get? hi ⟨rule, running, entry⟩
    rw [get?_push] at hi
    split at hi
    · rename_i hid
      cases hi
      exact (h.since p hp m le (hid ▸ lt)).kept kept
    · exact (h.between id i hi p hp m le lt).kept kept
  since := by
    rintro c ⟨⟩ m le lt
    rw [size_push] at lt
    rw [Nat.le_antisymm le (Nat.le_of_lt_succ lt)]
    exact .refl

theorem parent (h : t.Chronicle (some id)) (held : t.get? id = some i) : t.Chronicle i.parent where
  recorded := fun p hp => Nat.lt_trans (h.parents id i held p hp) (h.recorded id rfl)
  parents := h.parents
  between := h.between
  since := by
    intro p hp m le lt
    by_cases before : m < id
    · exact h.between id i held p hp m le before
    · exact .head ⟨i, held, hp⟩ (h.since id rfl m (Nat.le_of_not_lt before) lt)

/-- Descendants come in a row. -/
theorem leads_of_le (h : t.Chronicle running) (leads : t.Leads a n) (le : a ≤ m) (le' : m ≤ n) :
    t.Leads a m := by
  induction leads with
  | refl => rw [Nat.le_antisymm le' le]; exact .refl
  | @tail b n above makes ih =>
    by_cases before : m ≤ b
    · exact ih before
    · rcases Nat.lt_or_eq_of_le le' with lt | rfl
      · obtain ⟨i, held, made⟩ := makes
        exact above.trans (h.between n i held b made m (Nat.le_of_not_le before) lt)
      · exact above.tail makes

theorem lt_of_siblings (h : t.Chronicle running) (ha : a ∈ t.children p) (hb : b ∈ t.children p)
    (lt : a < b) (leads : t.Leads a m) : m < b := by
  obtain ⟨i, held, made⟩ := mem_children.1 ha
  obtain ⟨j, held', made'⟩ := mem_children.1 hb
  by_contra le
  have inside : t.Leads a b := h.leads_of_le leads (Nat.le_of_lt lt) (Nat.le_of_not_lt le)
  rcases inside.cases_tail with same | ⟨c, above, makes⟩
  · exact absurd same (Nat.ne_of_gt lt)
  · -- The parent of both would be recorded behind one of them.
    obtain ⟨j', held'', made''⟩ := makes
    cases held'.symm.trans held''
    have parent : i.parent = some c := by rw [made, ← made', made'']
    exact absurd (h.parents a i held c parent) (Nat.not_lt.2 (le_of_leads h.parents above))

theorem mem_subtree (h : t.Chronicle running) {steps : Nat} (held : id < t.size)
    (enough : t.size ≤ id + steps) : m ∈ t.subtree steps id ↔ t.Leads id m := by
  induction steps generalizing id with
  | zero => exact absurd held (Nat.not_lt.2 enough)
  | succ steps ih =>
    have below : ∀ c ∈ t.children (some id), (m ∈ t.subtree steps c ↔ t.Leads c m) := by
      intro c hc
      obtain ⟨i, hi, made⟩ := mem_children.1 hc
      have lt := h.parents c i hi id made
      exact ih (lt_size_of_get? hi) (enough_below lt enough)
    rw [subtree, List.mem_cons, List.mem_flatMap]
    constructor
    · rintro (rfl | ⟨c, hc, hm⟩)
      · exact .refl
      · exact .head (mem_children_some.1 hc) ((below c hc).1 hm)
    · intro leads
      rcases leads.cases_head with same | ⟨c, makes, leads⟩
      · exact .inl same.symm
      · have hc := mem_children_some.2 makes
        exact .inr ⟨c, hc, (below c hc).2 leads⟩

/-- What descends from several children comes in the order of their records, if that is so for each
of them. -/
theorem sorted_children (h : t.Chronicle running) {f : InvocationId → List InvocationId}
    (mem : ∀ c ∈ t.children p, ∀ m, m ∈ f c ↔ t.Leads c m)
    (sorted : ∀ c ∈ t.children p, (f c).Pairwise (· < ·)) :
    ((t.children p).flatMap f).Pairwise (· < ·) := by
  rw [List.pairwise_flatMap]
  refine ⟨sorted, ?_⟩
  have ordered : (t.children p).Pairwise (· < ·) := List.pairwise_lt_range.filter _
  refine ordered.imp_of_mem fun {a b} ha hb lt x hx y hy => ?_
  exact Nat.lt_of_lt_of_le (h.lt_of_siblings ha hb lt ((mem a ha x).1 hx))
    (le_of_leads h.parents ((mem b hb y).1 hy))

theorem sorted_subtree (h : t.Chronicle running) {steps : Nat} (held : id < t.size)
    (enough : t.size ≤ id + steps) : (t.subtree steps id).Pairwise (· < ·) := by
  induction steps generalizing id with
  | zero => exact absurd held (Nat.not_lt.2 enough)
  | succ steps ih =>
    have room : ∀ c ∈ t.children (some id), c < t.size ∧ t.size ≤ c + steps := by
      intro c hc
      obtain ⟨i, hi, made⟩ := mem_children.1 hc
      have lt := h.parents c i hi id made
      exact ⟨lt_size_of_get? hi, enough_below lt enough⟩
    have mem : ∀ c ∈ t.children (some id), ∀ m, m ∈ t.subtree steps c ↔ t.Leads c m :=
      fun c hc m => h.mem_subtree (room c hc).1 (room c hc).2
    rw [subtree, List.pairwise_cons]
    refine ⟨fun m hm => ?_, h.sorted_children mem fun c hc => ih (room c hc).1 (room c hc).2⟩
    obtain ⟨c, hc, hm⟩ := List.mem_flatMap.1 hm
    obtain ⟨i, hi, made⟩ := mem_children.1 hc
    exact Nat.lt_of_lt_of_le (h.parents c i hi id made)
      (le_of_leads h.parents ((mem c hc m).1 hm))

theorem exists_root (h : t.Chronicle running) (held : m < t.size) :
    ∃ c ∈ t.children none, t.Leads c m := by
  induction m using Nat.strongRecOn with
  | ind m ih =>
    obtain ⟨i, hi⟩ := get?_of_lt_size held
    cases hp : i.parent with
    | none => exact ⟨m, mem_children.2 ⟨i, hi, hp⟩, .refl⟩
    | some p =>
      have lt := h.parents m i hi p hp
      obtain ⟨c, hc, leads⟩ := ih p lt (Nat.lt_trans lt held)
      exact ⟨c, hc, leads.tail ⟨i, hi, hp⟩⟩

/-- The records are the tree in preorder. -/
theorem preorder_eq (h : t.Chronicle running) : t.preorder = List.range t.size := by
  have room : ∀ c ∈ t.children none, c < t.size := by
    intro c hc
    obtain ⟨i, hi, -⟩ := mem_children.1 hc
    exact lt_size_of_get? hi
  have mem : ∀ c ∈ t.children none, ∀ m, m ∈ t.subtree t.size c ↔ t.Leads c m :=
    fun c hc m => h.mem_subtree (room c hc) (Nat.le_add_left ..)
  have sorted : t.preorder.Pairwise (· < ·) :=
    h.sorted_children mem fun c hc => h.sorted_subtree (room c hc) (Nat.le_add_left ..)
  refine List.Perm.eq_of_pairwise' sorted List.pairwise_lt_range ?_
  rw [List.perm_ext_iff_of_nodup sorted.nodup List.nodup_range]
  intro m
  rw [preorder, List.mem_flatMap, List.mem_range]
  constructor
  · rintro ⟨c, hc, hm⟩
    exact lt_size_of_leads ((mem c hc m).1 hm) (room c hc)
  · intro held
    obtain ⟨c, hc, leads⟩ := h.exists_root held
    exact ⟨c, hc, (mem c hc m).2 leads⟩

end Chronicle

end InvocationTree

end GrammarKit
