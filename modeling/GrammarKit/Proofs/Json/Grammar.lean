import GrammarKit.Grammar.Json
import GrammarKit.Proofs.First.Expr
import GrammarKit.Proofs.Json.Codec
import GrammarKit.Proofs.Phrase.WellFormed

/-!
Grammars written as JSON and read back. Strings, whole numbers, names of alternatives and missing
arguments all survive; a number that is not finite is written as null, and nothing that holds one is
read back.

Main statement: with any codec that can be relied on, a grammar that was parsed is read back as it is
if no number in it is infinite, and is not read back otherwise.
-/

namespace GrammarKit

/-! ### The floating point numbers of a grammar -/

def Value.floats : Value → List Binary64
  | .float x => [x]
  | _ => []

def Args.floats (args : Args) : List Binary64 := args.entries.flatMap fun e => e.2.floats

def Args.optionalFloats (args : Option Args) : List Binary64 := args.elim [] Args.floats

namespace Expr

mutual

def floats : Expr → List Binary64
  | choice items => itemFloats items
  | sequence items => itemFloats items
  | wrap _ item => item.floats
  | pattern p => Args.optionalFloats p.args
  | reference _ => []
  | code _ => []

def itemFloats : List Expr → List Binary64
  | [] => []
  | item :: items => item.floats ++ itemFloats items

end

theorem mem_itemFloats {items : List Expr} {x : Binary64} :
    x ∈ itemFloats items ↔ ∃ e ∈ items, x ∈ e.floats := by
  induction items with
  | nil => simp [itemFloats]
  | cons e items ih => simp [itemFloats, ih]

end Expr

def Definition.floats (r : Definition) : List Binary64 :=
  r.body.floats ++ Args.optionalFloats r.args

def Grammar.floats (g : Grammar) : List Binary64 :=
  Args.optionalFloats g.options ++ g.rules.flatMap Definition.floats

/-! ### What is read back from a value -/

def kept {α : Type} (xs : List Binary64) (a : α) : Option α :=
  if xs.all Binary64.isFinite then some a else none

section

variable {α β γ : Type} (xs ys : List Binary64)

@[simp] theorem kept_nil (a : α) : kept [] a = some a := rfl

@[simp] theorem map_kept (f : α → β) (a : α) : (kept xs a).map f = kept xs (f a) := by
  unfold kept
  split <;> rfl

/-- A whole that holds the numbers of two parts is read back if both parts are. -/
theorem kept_append (a : α) (b : β) (c : γ) :
    (kept xs a = some a ∧ kept ys b = some b ∧ kept (xs ++ ys) c = some c) ∨
      ((kept xs a = none ∨ kept xs a = some a ∧ kept ys b = none) ∧ kept (xs ++ ys) c = none) := by
  unfold kept
  rw [List.all_append]
  cases xs.all Binary64.isFinite <;> cases ys.all Binary64.isFinite <;> simp

/-- A list is read back if each of its items is. -/
theorem mapM_kept {read : β → Option α} {write : α → β} {floats : α → List Binary64} {items : List α}
    (h : ∀ a ∈ items, read (write a) = kept (floats a) a) :
    (items.map write).mapM read = kept (items.flatMap floats) items := by
  induction items with
  | nil => rfl
  | cons a items ih =>
    rw [List.map_cons, List.mapM_cons, h a (List.mem_cons_self ..),
      ih fun b hb => h b (List.mem_cons_of_mem _ hb), List.flatMap_cons]
    rcases kept_append (floats a) (items.flatMap floats) a items (a :: items) with
      ⟨head, tail, whole⟩ | ⟨head | ⟨head, tail⟩, whole⟩ <;> simp [*]

end

theorem Value.ofJson?_written (v : Value) : ofJson? v.tree.written = kept v.floats v := by
  cases v with
  | str text => rfl
  | int n =>
    have range : Int64.minValue.toInt ≤ n.toInt ∧ n.toInt ≤ Int64.maxValue.toInt :=
      ⟨Int64.le_toInt n, Int64.toInt_le n⟩
    refine (if_pos range).trans ?_
    rw [Int64.ofInt_toInt]
    rfl
  | float x => cases x <;> rfl
  | bool b => rfl
  | none => rfl

namespace Args

theorem ofList_entries (args : Args) : SortedMap.ofList args.entries = args := by
  have last {k : String} {v : Value} (h : SortedMap.find? args.entries.reverse k = some v) :
      args.get? k = some v := by
    obtain ⟨⟨k', v'⟩, found, rfl⟩ := Option.map_eq_some_iff.1 h
    obtain rfl : k = k' := by simpa using List.find?_some found
    exact (SortedMap.find?_eq_some args.increasing).2
      (List.mem_reverse.1 (List.mem_of_find?_eq_some found))
  refine SortedMap.ext_get? fun k => ?_
  rw [SortedMap.get?_ofList]
  cases h : SortedMap.find? args.entries.reverse k with
  | some v => exact (last h).symm
  | none =>
    have absent : ∀ e ∈ args.entries, ¬compare k e.1 = .eq := by
      simpa [SortedMap.find?] using h
    cases hv : args.get? k with
    | none => rfl
    | some v =>
      exact absurd Std.ReflCmp.compare_self
        (absent _ ((SortedMap.find?_eq_some args.increasing).1 hv))

theorem written_tree (args : Args) :
    args.tree.written = .object (args.entries.map fun e => (e.1, e.2.tree.written)) := by
  rw [tree, Json.written_object, List.map_map]
  rfl

theorem ofJson?_written (args : Args) : ofJson? args.tree.written = kept args.floats args := by
  have entries : (args.entries.map fun e => (e.1, e.2.tree.written)).mapM
      (fun m => (Value.ofJson? m.2).map fun v => (m.1, v)) = kept args.floats args.entries := by
    refine mapM_kept fun e _ => ?_
    rw [Value.ofJson?_written, map_kept]
  rw [written_tree, ofJson?, entries, map_kept, ofList_entries]

theorem ofOptional?_written (args : Option Args) :
    ofOptional? (some (Json.ofOption tree args).written) = kept (optionalFloats args) args := by
  cases args with
  | none => rfl
  | some args =>
    have read : ofOptional? (some (Json.ofOption tree (some args)).written) =
        (ofJson? args.tree.written).map some := by
      rw [Json.ofOption, written_tree]
      rfl
    rw [read, ofJson?_written, map_kept]
    rfl

end Args

theorem Pattern.ofJson?_written (p : Pattern) :
    ofJson? p.tree.written = kept (Args.optionalFloats p.args) p := by
  show (Args.ofOptional? (some (Json.ofOption Args.tree p.args).written)).map (Pattern.mk p.source) = _
  rw [Args.ofOptional?_written, map_kept]

namespace Expr

theorem itemTrees_eq (items : List Expr) : itemTrees items = items.map tree := by
  induction items with
  | nil => rfl
  | cons e items ih => rw [itemTrees, ih, List.map_cons]

theorem listOfJson?_written {items : List Expr}
    (h : ∀ e ∈ items, ofJson? e.tree.written = kept e.floats e) :
    listOfJson? (Json.writtenItems (itemTrees items)) = kept (itemFloats items) items := by
  induction items with
  | nil => rfl
  | cons e items ih =>
    rw [itemTrees, Json.writtenItems, listOfJson?, h e (List.mem_cons_self ..),
      ih fun d hd => h d (List.mem_cons_of_mem _ hd)]
    rcases kept_append e.floats (itemFloats items) e items (e :: items) with
      ⟨head, tail, whole⟩ | ⟨head | ⟨head, tail⟩, whole⟩ <;> simp [itemFloats, *]

theorem ofJson?_written (e : Expr) : ofJson? e.tree.written = kept e.floats e := by
  induction e using Expr.induct with
  | choice items ih =>
    show (listOfJson? (Json.writtenItems (itemTrees items))).map choice = _
    rw [listOfJson?_written ih, map_kept]
    rfl
  | sequence items ih =>
    show (listOfJson? (Json.writtenItems (itemTrees items))).map sequence = _
    rw [listOfJson?_written ih, map_kept]
    rfl
  | wrap o e ih =>
    have : ofJson? (wrap o e).tree.written = (ofJson? e.tree.written).map (wrap o) := by
      cases o <;> rfl
    rw [this, ih, map_kept]
    rfl
  | pattern p =>
    show (Pattern.ofJson? p.tree.written).map pattern = _
    rw [Pattern.ofJson?_written, map_kept]
    rfl
  | reference name => rfl
  | code text => rfl

end Expr

theorem Definition.ofJson?_written (r : Definition) :
    ofJson? r.tree.written = kept r.floats r := by
  have fields : r.tree.written.fields? ["name", "body", "args"] = some [some (.string r.name),
      some r.body.tree.written, some (Json.ofOption Args.tree r.args).written] := rfl
  rw [ofJson?, fields]
  dsimp only
  rw [Expr.ofJson?_written, Args.ofOptional?_written]
  rcases kept_append r.body.floats (Args.optionalFloats r.args) r.body r.args r with
    ⟨body, args, whole⟩ | ⟨body | ⟨body, args⟩, whole⟩ <;> simp [floats, *]

namespace Grammar

theorem ofJson?_written (g : Grammar) : ofJson? g.tree.written = kept g.floats g := by
  have fields : g.tree.written.fields? ["options", "rules"] =
      some [some (Json.ofOption Args.tree g.options).written,
        some (.array (g.rules.map fun r => r.tree.written))] := by
    rw [tree, Json.written_object, List.map_cons, List.map_cons, Json.written_array, List.map_map]
    rfl
  rw [ofJson?, fields]
  dsimp only
  rw [Args.ofOptional?_written, mapM_kept fun r _ => r.ofJson?_written]
  rcases kept_append (Args.optionalFloats g.options) (g.rules.flatMap Definition.floats) g.options
    g.rules g with ⟨options, rules, whole⟩ | ⟨options | ⟨options, rules⟩, whole⟩ <;> simp [floats, *]

end Grammar

/-! ### What is written of a grammar -/

section

variable {numbers : List Binary64}

theorem Value.writable {v : Value} (h : v.floats ⊆ numbers) : v.tree.written.Writable numbers := by
  cases v with
  | str text => exact .tagged (.string text)
  | int n => exact .tagged (.int n)
  | float x =>
    cases x with
    | finite negative significand exponent canonical =>
      exact .tagged (.float (h (List.mem_singleton_self _)) rfl)
    | infinite negative => exact .tagged .null
    | nan => exact .tagged .null
  | bool b => exact .tagged (.bool b)
  | none => exact .string _

namespace Args

theorem nodup_keys (args : Args) : (args.entries.map Prod.fst).Nodup := by
  refine List.pairwise_map.2 (args.increasing.imp fun {a b} lt same => ?_)
  rw [same] at lt
  exact SortedMap.compare_self_ne_lt _ lt

theorem writable {args : Args} (h : args.floats ⊆ numbers) : args.tree.written.Writable numbers := by
  rw [written_tree]
  refine .object (by simpa [Function.comp_def] using args.nodup_keys) fun m hm => ?_
  obtain ⟨e, he, rfl⟩ := List.mem_map.1 hm
  exact Value.writable fun x hx => h (List.mem_flatMap.2 ⟨e, he, hx⟩)

theorem writable_optional {args : Option Args} (h : optionalFloats args ⊆ numbers) :
    (Json.ofOption tree args).written.Writable numbers := by
  cases args with
  | none => exact .null
  | some args => exact writable h

end Args

theorem Pattern.writable {p : Pattern} (h : Args.optionalFloats p.args ⊆ numbers) :
    p.tree.written.Writable numbers := by
  rw [tree, Json.written_object]
  refine .object (by simp) (List.forall_mem_cons.2 ⟨.string _, List.forall_mem_singleton.2 ?_⟩)
  exact Args.writable_optional h

namespace Expr

theorem writable_items {items : List Expr}
    (h : ∀ e ∈ items, e.floats ⊆ numbers → e.tree.written.Writable numbers)
    (within : itemFloats items ⊆ numbers) :
    (Json.array (itemTrees items)).written.Writable numbers := by
  rw [Json.written_array, itemTrees_eq, List.map_map]
  refine .array fun j hj => ?_
  obtain ⟨e, he, rfl⟩ := List.mem_map.1 hj
  exact h e he fun x hx => within (mem_itemFloats.2 ⟨e, he, hx⟩)

theorem writable {e : Expr} : e.floats ⊆ numbers → e.tree.written.Writable numbers := by
  induction e using Expr.induct with
  | choice items ih => exact fun h => .tagged (writable_items ih h)
  | sequence items ih => exact fun h => .tagged (writable_items ih h)
  | wrap o e ih => exact fun h => .tagged (ih h)
  | pattern p => exact fun h => .tagged (Pattern.writable h)
  | reference name => exact fun _ => .tagged (.string name)
  | code text => exact fun _ => .tagged (.string text)

end Expr

theorem Definition.writable {r : Definition} (h : r.floats ⊆ numbers) :
    r.tree.written.Writable numbers := by
  rw [tree, Json.written_object]
  refine .object (by simp) (List.forall_mem_cons.2 ⟨.string _, List.forall_mem_cons.2 ⟨?_, ?_⟩⟩)
  · exact Expr.writable fun x hx => h (List.mem_append_left _ hx)
  · exact List.forall_mem_singleton.2
      (Args.writable_optional fun x hx => h (List.mem_append_right _ hx))

theorem Grammar.writable {g : Grammar} (h : g.floats ⊆ numbers) :
    g.tree.written.Writable numbers := by
  rw [tree, Json.written_object]
  refine .object (by simp) (List.forall_mem_cons.2 ⟨?_, List.forall_mem_singleton.2 ?_⟩)
  · exact Args.writable_optional fun x hx => h (List.mem_append_left _ hx)
  · show (Json.array (g.rules.map Definition.tree)).written.Writable numbers
    rw [Json.written_array, List.map_map]
    refine .array fun j hj => ?_
    obtain ⟨r, hr, rfl⟩ := List.mem_map.1 hj
    exact Definition.writable fun x hx =>
      h (List.mem_append_right _ (List.mem_flatMap.2 ⟨r, hr, hx⟩))

end

/-- A grammar is read back from its text if all its numbers are finite, and not otherwise. -/
theorem Grammar.ofJsonText?_jsonText {c : Json.Codec} {g : Grammar} (faithful : c.Faithful g.floats) :
    ofJsonText? (g.jsonText c) c = kept g.floats g := by
  rw [ofJsonText?, jsonText, faithful.nulls, faithful.reads _ (writable (List.Subset.refl _))]
  exact ofJson?_written g

/-! ### Grammars that were parsed -/

theorem Args.nan_notMem_floats {args : Args} (h : args.WellFormed) : .nan ∉ args.floats := by
  intro hx
  obtain ⟨⟨key, v⟩, he, hv⟩ := List.mem_flatMap.1 hx
  cases v with
  | float x => exact (h _ he).2 (congrArg Value.float (List.mem_singleton.1 hv).symm)
  | str | int | bool | none => cases hv

theorem Args.nan_notMem_optionalFloats {args : Option Args} (h : ∀ a ∈ args, a.WellFormed) :
    .nan ∉ optionalFloats args := by
  cases args with
  | none => exact List.not_mem_nil
  | some args => exact nan_notMem_floats (h args rfl)

theorem Expr.WellFormed.nan_notMem_floats {e : Expr} (h : e.WellFormed) : .nan ∉ e.floats := by
  induction h with
  | choice _ _ ih =>
    intro hx
    obtain ⟨e, he, hx⟩ := mem_itemFloats.1 hx
    exact ih e he hx
  | sequence _ _ _ _ ih =>
    intro hx
    obtain ⟨e, he, hx⟩ := mem_itemFloats.1 hx
    cases hcode : e.isCode with
    | false => exact ih e he hcode hx
    | true =>
      cases e with
      | code text => cases hx
      | _ => cases hcode
  | wrap _ _ ih => exact ih
  | pattern h => exact Args.nan_notMem_optionalFloats h
  | reference _ => exact List.not_mem_nil

theorem Definition.WellFormed.nan_notMem_floats {r : Definition} (h : r.WellFormed) :
    .nan ∉ r.floats := fun hx =>
  (List.mem_append.1 hx).elim h.body.nan_notMem_floats (Args.nan_notMem_optionalFloats h.args)

theorem Grammar.WellFormed.nan_notMem_floats {g : Grammar} (h : g.WellFormed) : .nan ∉ g.floats := by
  intro hx
  rcases List.mem_append.1 hx with hx | hx
  · exact Args.nan_notMem_optionalFloats h.options hx
  · obtain ⟨r, hr, hx⟩ := List.mem_flatMap.1 hx
    exact (h.rules r hr).nan_notMem_floats hx

/-- Numerals never say "not a number", so what is not finite in a parsed grammar is infinite. -/
theorem isFinite_iff_of_parse {text : String} {g : Grammar} (parsed : parseGrammar text = .ok (.ok g))
    {x : Binary64} (hx : x ∈ g.floats) : x.isFinite = true ↔ x.isInfinite = false := by
  obtain ⟨y, hread⟩ := parseGrammar_eq_ok.1 parsed
  have all : Phrase.All (fun _ => True) (settle text.toList) g y :=
    (Rule.calls_sound (fun _ _ _ => trivial) _ .all _ g y (settled_settle _) hread).phrase
  cases x with
  | finite => exact ⟨fun _ => rfl, fun _ => rfl⟩
  | infinite => exact ⟨nofun, nofun⟩
  | nan => exact absurd hx all.wellFormed.nan_notMem_floats

/-- What a text was parsed to is read back from its JSON text if no number in it is infinite, and
otherwise nothing is. -/
theorem reads_back_of_parse (c : Json.Codec) {text : String} {g : Grammar}
    (parsed : parseGrammar text = .ok (.ok g)) (faithful : c.Faithful g.floats) :
    Grammar.ofJsonText? (g.jsonText c) c =
      if g.floats.any Binary64.isInfinite then none else some g := by
  rw [Grammar.ofJsonText?_jsonText faithful, kept]
  have same : g.floats.all Binary64.isFinite = !g.floats.any Binary64.isInfinite := by
    rw [Bool.eq_iff_iff, List.all_eq_true, Bool.not_eq_true', List.any_eq_false]
    exact forall₂_congr fun x hx => by rw [isFinite_iff_of_parse parsed hx, Bool.not_eq_true]
  rw [same]
  cases g.floats.any Binary64.isInfinite <;> rfl

def numbered (x : Binary64) : Grammar :=
  ⟨none, [⟨"a", .pattern ⟨"x", some ⟨[("k", .float x)], List.pairwise_singleton ..⟩⟩, none⟩]⟩

/-- One and a half, in a text spread over lines. -/
theorem reads_back_of_parse_finite :
    let g := numbered (.nearest ⟨false, 15, -1⟩)
    parseGrammar "a: 'x' @(k=1.5)" = .ok (.ok g) ∧ Json.Codec.lines.Faithful g.floats ∧
      Grammar.ofJsonText? (g.jsonText .lines) .lines = some g := by
  intro g
  have parsed : parseGrammar "a: 'x' @(k=1.5)" = .ok (.ok g) := by decide +kernel
  have faithful : Json.Codec.lines.Faithful g.floats := Json.Codec.faithful_lines (by decide +kernel)
  have finite : g.floats.any Binary64.isInfinite = false := by decide +kernel
  have back := reads_back_of_parse .lines parsed faithful
  rw [finite] at back
  exact ⟨parsed, faithful, back⟩

/-- A number that is out of range is infinite, and no codec that can be relied on keeps the grammar
that holds it. -/
theorem overflow_not_read_back :
    let g := numbered (.infinite false)
    parseGrammar "a: 'x' @(k=1e400)" = .ok (.ok g) ∧ Json.Codec.lines.Faithful g.floats ∧
      ∀ c : Json.Codec, c.Faithful g.floats → Grammar.ofJsonText? (g.jsonText c) c = none := by
  intro g
  have parsed : parseGrammar "a: 'x' @(k=1e400)" = .ok (.ok g) := by decide +kernel
  have faithful : Json.Codec.lines.Faithful g.floats := Json.Codec.faithful_lines (by decide +kernel)
  exact ⟨parsed, faithful, fun c hc => Grammar.ofJsonText?_jsonText hc⟩

end GrammarKit
