import GrammarKit.Proofs.Json.Number
import GrammarKit.Proofs.Json.String

/-!
JSON text that is spread over lines. A value is read back from its text if the numbers in it are and
no object has two members of one name; what stands in the text between values is passed over.
-/

namespace GrammarKit

namespace Json

/-- Values that text can hold: numbers that are read back, and objects with distinct names. -/
inductive Readable : Json → Prop
  | null : Readable null
  | bool (b : Bool) : Readable (bool b)
  | int {n : Int} (word : isWord n = true) : Readable (int n)
  | float {x : Binary64} (h : ReadsBack x) : Readable (float x)
  | string (s : String) : Readable (string s)
  | array {items : List Json} (h : ∀ j ∈ items, Readable j) : Readable (array items)
  | object {members : List (String × Json)} (names : (members.map Prod.fst).Nodup)
      (h : ∀ m ∈ members, Readable m.2) : Readable (object members)

/-- The text is read as the value, with two steps for each of its characters. -/
structure Spells (text : List Char) (j : Json) : Prop where
  starts : ∃ c more, text = c :: more ∧ isSpace c = false ∧ c ≠ ']'
  reads : ∀ {rest steps}, Stops rest → 2 * text.length ≤ steps →
    valueFrom .full steps (text ++ rest) = .ok (j, rest)

theorem skipSpace_cons {c : Char} (hc : isSpace c = false) (cs : List Char) :
    skipSpace (c :: cs) = c :: cs := by
  rw [skipSpace, List.dropWhile_cons_of_neg (by simp [hc])]

theorem skipSpace_append {blank : List Char} (h : ∀ c ∈ blank, isSpace c = true) (cs : List Char) :
    skipSpace (blank ++ cs) = skipSpace cs := List.dropWhile_append_of_pos h

theorem Spells.skipSpace {text : List Char} {j : Json} (h : Spells text j) (rest : List Char) :
    skipSpace (text ++ rest) = text ++ rest := by
  obtain ⟨c, more, rfl, hc, -⟩ := h.starts
  exact skipSpace_cons hc _

/-! ### Values that hold no other -/

theorem Spells.of_step {c : Char} {more : List Char} {j : Json} (hc : isSpace c = false ∧ c ≠ ']')
    (h : ∀ {rest} steps, Stops rest →
      valueFrom .full (steps + 1) (c :: (more ++ rest)) = .ok (j, rest)) :
    Spells (c :: more) j where
  starts := ⟨c, more, rfl, hc⟩
  reads {_ steps} stops enough := by
    rw [List.length_cons] at enough
    obtain ⟨steps, rfl⟩ := Nat.exists_eq_add_one.2 (by omega : 0 < steps)
    exact h steps stops

theorem valueFrom_number {c : Char} (hc : c = '-' ∨ c.isDigit = true) (steps : Nat) (cs : List Char) :
    valueFrom .full (steps + 1) (c :: cs) = number .full (c :: cs) := by
  have space : isSpace c = false := by
    rcases hc with rfl | hc
    · decide
    · have (m : Char) (hm : m.isDigit = false) : (c == m) = false := by
        simpa using ne_of_isDigit hc hm
      simp [isSpace, this ' ' rfl, this '\n' rfl, this '\t' rfl, this '\r' rfl]
  have other (m : Char) (hm : m.isDigit = false) (hm' : m ≠ '-') : c ≠ m := by
    rcases hc with rfl | hc
    · exact hm'.symm
    · exact ne_of_isDigit hc hm
  rw [valueFrom, skipSpace_cons space]
  split
  next h => cases h
  next h => exact absurd (List.cons.inj h).1 (other _ rfl (by decide))
  next h => exact absurd (List.cons.inj h).1 (other _ rfl (by decide))
  next h => exact absurd (List.cons.inj h).1 (other _ rfl (by decide))
  next h => exact absurd (List.cons.inj h).1 (other _ rfl (by decide))
  next h => exact absurd (List.cons.inj h).1 (other _ rfl (by decide))
  next h => exact absurd (List.cons.inj h).1 (other _ rfl (by decide))
  next h =>
    cases h
    exact if_pos hc

theorem exists_of_number {cs : List Char} {j : Json} (h : number .full cs = .ok (j, [])) :
    ∃ c more, cs = c :: more ∧ (c = '-' ∨ c.isDigit = true) := by
  cases cs with
  | nil => cases h
  | cons c more =>
    refine ⟨c, more, rfl, ?_⟩
    by_cases sign : c = '-'
    · exact .inl sign
    · right
      simp only [number_eq, bind_eq_ok] at h
      obtain ⟨⟨whole, left⟩, hwhole, -⟩ := h
      rw [if_neg (by simpa using sign)] at hwhole
      by_contra digit
      have none : (c :: more).takeWhile Char.isDigit = [] := List.takeWhile_cons_of_neg digit
      have lacks : someDigits .full (c :: more) = .error (missingDigit .full (c :: more)) := by
        unfold someDigits
        dsimp only
        rw [none]
        rfl
      rw [wholeDigits, lacks] at hwhole
      cases hwhole

theorem spells_number {text : List Char} {j : Json} (h : number .full text = .ok (j, [])) :
    Spells text j := by
  obtain ⟨c, more, rfl, hc⟩ := exists_of_number h
  refine .of_step ?_ fun steps stops => ?_
  · rcases hc with rfl | hc
    · decide
    · have other (m : Char) (hm : m.isDigit = false) : c ≠ m := ne_of_isDigit hc hm
      refine ⟨?_, other ']' rfl⟩
      simp [isSpace, other ' ' rfl, other '\n' rfl, other '\t' rfl, other '\r' rfl]
  · rw [valueFrom_number hc]
    exact number_append stops h

theorem spells_string (s : String) : Spells (stringChars s) (.string s) := by
  show Spells ('"' :: (s.toList.flatMap escapeChar ++ ['"'])) _
  refine .of_step (by decide) fun {rest} steps _ => ?_
  rw [valueFrom, skipSpace_cons (by decide), List.append_assoc, List.singleton_append]
  exact congrArg (Except.map _) (stringBody_chars s rest)

/-- The text of a value that holds no other. -/
theorem spells_atom {j : Json} (h : Readable j) {text : List Char} (atom : atomChars? j = some text) :
    Spells text j := by
  cases h with
  | null =>
    cases atom
    exact .of_step (by decide) fun _ _ => rfl
  | bool b =>
    cases b with
    | false =>
      cases atom
      exact .of_step (by decide) fun _ _ => rfl
    | true =>
      cases atom
      exact .of_step (by decide) fun _ _ => rfl
  | int word =>
    cases atom
    exact spells_number (number_integerChars word)
  | float h =>
    cases atom
    exact spells_number h
  | string s =>
    cases atom
    exact spells_string s
  | @array items h =>
    cases items with
    | nil =>
      cases atom
      refine ⟨⟨'[', [']'], rfl, by decide, by decide⟩, fun {rest steps} _ enough => ?_⟩
      obtain ⟨steps, rfl⟩ := Nat.exists_eq_add_of_le' enough
      rfl
    | cons => cases atom
  | @object members names h =>
    cases members with
    | nil =>
      cases atom
      refine ⟨⟨'\x7b', ['\x7d'], rfl, by decide, by decide⟩, fun {rest steps} _ enough => ?_⟩
      obtain ⟨steps, rfl⟩ := Nat.exists_eq_add_of_le' enough
      rfl
    | cons => cases atom

/-! ### The text line by line -/

def newLine (level : Nat) : List Char := '\n' :: List.replicate (2 * level) ' '

theorem isSpace_newLine {level : Nat} : ∀ c ∈ newLine level, isSpace c = true := by
  intro c hc
  rcases List.mem_cons.1 hc with rfl | hc
  · rfl
  · rw [List.eq_of_mem_replicate hc]
    rfl

theorem lineOnto_eq (out : List Char) (level : Nat) :
    lineOnto out level = (newLine level).reverse ++ out := by
  simp [lineOnto, newLine]

mutual

theorem prettyOnto_eq (out : List Char) (level : Nat) :
    ∀ j, prettyOnto out level j = prettyOnto [] level j ++ out
  | array (item :: items) => by
    rw [prettyOnto, prettyItems_eq, prettyOnto_eq (lineOnto ('[' :: out) _)]
    rw [prettyOnto, prettyItems_eq (prettyOnto _ _ _), prettyOnto_eq (lineOnto ['['] _)]
    simp [lineOnto]
  | object ((name, value) :: members) => by
    rw [prettyOnto, prettyMembers_eq, prettyOnto_eq (_ :: _)]
    rw [prettyOnto, prettyMembers_eq (prettyOnto _ _ _), prettyOnto_eq (_ :: _ :: _)]
    simp [lineOnto]
  | null | bool _ | int _ | float _ | string _ | array [] | object [] => by simp [prettyOnto]

theorem prettyItems_eq (out : List Char) (level : Nat) :
    ∀ items, prettyItems out level items = prettyItems [] level items ++ out
  | [] => rfl
  | item :: items => by
    rw [prettyItems, prettyItems_eq, prettyOnto_eq (lineOnto (',' :: out) _)]
    rw [prettyItems, prettyItems_eq (prettyOnto _ _ _), prettyOnto_eq (lineOnto [','] _)]
    simp [lineOnto]

theorem prettyMembers_eq (out : List Char) (level : Nat) :
    ∀ members, prettyMembers out level members = prettyMembers [] level members ++ out
  | [] => rfl
  | (name, value) :: members => by
    rw [prettyMembers, prettyMembers_eq, prettyOnto_eq (_ :: _)]
    rw [prettyMembers, prettyMembers_eq (prettyOnto _ _ _), prettyOnto_eq (_ :: _ :: _)]
    simp [lineOnto]

end

def lines (level : Nat) (j : Json) : List Char := (prettyOnto [] level j).reverse

def itemLines (level : Nat) (items : List Json) : List Char := (prettyItems [] level items).reverse

def memberLines (level : Nat) (members : List (String × Json)) : List Char :=
  (prettyMembers [] level members).reverse

theorem toList_pretty (j : Json) : j.pretty.toList = lines 0 j := by
  rw [pretty, lines, String.toList_ofList]

section

variable (level : Nat)

theorem lines_of_atom {j : Json} {text : List Char} (atom : atomChars? j = some text) :
    lines level j = text := by
  have : prettyOnto [] level j = text.reverse := by
    unfold prettyOnto
    split
    · cases atom
    · cases atom
    · simp [atom]
  rw [lines, this, List.reverse_reverse]

theorem lines_array (item : Json) (items : List Json) :
    lines level (array (item :: items)) =
      '[' :: (newLine (level + 1) ++ (lines (level + 1) item ++
        (itemLines (level + 1) items ++ (newLine level ++ [']'])))) := by
  rw [lines, prettyOnto, prettyItems_eq, prettyOnto_eq]
  simp [lines, itemLines, lineOnto_eq]

theorem lines_object (name : String) (value : Json) (members : List (String × Json)) :
    lines level (object ((name, value) :: members)) =
      '\x7b' :: (newLine (level + 1) ++ (stringChars name ++ (':' :: ' ' :: (lines (level + 1) value ++
        (memberLines (level + 1) members ++ (newLine level ++ ['\x7d'])))))) := by
  rw [lines, prettyOnto, prettyMembers_eq, prettyOnto_eq]
  simp [lines, memberLines, lineOnto_eq]

@[simp] theorem itemLines_nil : itemLines level [] = [] := rfl

theorem itemLines_cons (item : Json) (items : List Json) :
    itemLines level (item :: items) =
      ',' :: (newLine level ++ (lines level item ++ itemLines level items)) := by
  rw [itemLines, prettyItems, prettyItems_eq, prettyOnto_eq]
  simp [lines, itemLines, lineOnto_eq]

@[simp] theorem memberLines_nil : memberLines level [] = [] := rfl

theorem memberLines_cons (name : String) (value : Json) (members : List (String × Json)) :
    memberLines level ((name, value) :: members) =
      ',' :: (newLine level ++
        (stringChars name ++ (':' :: ' ' :: (lines level value ++ memberLines level members)))) := by
  rw [memberLines, prettyMembers, prettyMembers_eq, prettyOnto_eq]
  simp [lines, memberLines, lineOnto_eq]

end

/-! ### Reading the lines -/

section

variable {level : Nat} {text : List Char} {j : Json}

theorem skipSpace_newLine (cs : List Char) : skipSpace (newLine level ++ cs) = skipSpace cs :=
  skipSpace_append isSpace_newLine cs

theorem valueFrom_blank (steps : Nat) (cs : List Char) :
    valueFrom .full steps (' ' :: cs) = valueFrom .full steps cs := by
  cases steps with
  | zero => rfl
  | succ steps =>
    have : skipSpace (' ' :: cs) = skipSpace cs := List.dropWhile_cons_of_pos rfl
    rw [valueFrom, valueFrom, this]

theorem stops_newLine (rest : List Char) : Stops (newLine level ++ rest) :=
  fun _ hc => .inr (Option.some.inj hc).symm

theorem stops_itemLines (items : List Json) {rest : List Char} (stops : Stops rest) :
    Stops (itemLines level items ++ rest) := by
  cases items with
  | nil => exact stops
  | cons item items =>
    rw [itemLines_cons]
    exact fun _ hc => .inl (Option.some.inj hc).symm

theorem stops_memberLines (members : List (String × Json)) {rest : List Char} (stops : Stops rest) :
    Stops (memberLines level members ++ rest) := by
  cases members with
  | nil => exact stops
  | cons member members =>
    rw [memberLines_cons]
    exact fun _ hc => .inl (Option.some.inj hc).symm

theorem nextItem_closing (isFirst : Bool) (rest : List Char) :
    nextItem isFirst (newLine level ++ ']' :: rest) = .ok (false, rest) := by
  rw [nextItem, skipSpace_newLine, skipSpace_cons (by decide)]
  rfl

theorem nextItem_first (h : Spells text j) (rest : List Char) :
    nextItem true (newLine level ++ (text ++ rest)) = .ok (true, text ++ rest) := by
  rw [nextItem, skipSpace_newLine, h.skipSpace]
  obtain ⟨c, more, rfl, -, open'⟩ := h.starts
  split
  next e => cases e
  next e => exact absurd (List.cons.inj e).1 open'
  next e => rw [if_pos rfl, e]

theorem nextItem_of_comma (cs : List Char) : nextItem false (',' :: cs) =
    match skipSpace cs with
    | ']' :: _ => .error .malformed
    | cs => .ok (true, cs) := rfl

theorem nextItem_comma (h : Spells text j) (rest : List Char) :
    nextItem false (',' :: (newLine level ++ (text ++ rest))) = .ok (true, text ++ rest) := by
  rw [nextItem_of_comma, skipSpace_newLine, h.skipSpace]
  obtain ⟨c, more, rfl, -, open'⟩ := h.starts
  split
  next e => exact absurd (List.cons.inj e).1 open'
  next => rfl

theorem nextMember_closing (isFirst : Bool) (rest : List Char) :
    nextMember isFirst (newLine level ++ '\x7d' :: rest) = .ok (false, rest) := by
  rw [nextMember, skipSpace_newLine, skipSpace_cons (by decide)]
  rfl

def nameChars (name : String) (rest : List Char) : List Char :=
  name.toList.flatMap escapeChar ++ '"' :: rest

theorem stringChars_append_eq (name : String) (rest : List Char) :
    stringChars name ++ rest = '"' :: nameChars name rest := by
  simp [stringChars, nameChars]

theorem nextMember_first (name : String) (rest : List Char) :
    nextMember true (newLine level ++ (stringChars name ++ rest)) =
      .ok (true, nameChars name rest) := by
  rw [nextMember, skipSpace_newLine, stringChars_append_eq, skipSpace_cons (by decide)]
  rfl

theorem nextMember_of_comma (cs : List Char) : nextMember false (',' :: cs) =
    match skipSpace cs with
    | [] => .error .eof
    | '"' :: cs => .ok (true, cs)
    | _ => .error .malformed := rfl

theorem nextMember_comma (name : String) (rest : List Char) :
    nextMember false (',' :: (newLine level ++ (stringChars name ++ rest))) =
      .ok (true, nameChars name rest) := by
  rw [nextMember_of_comma, skipSpace_newLine, stringChars_append_eq, skipSpace_cons (by decide)]
  rfl

theorem setMember_fresh {members : List (String × Json)} {name : String}
    (fresh : name ∉ members.map Prod.fst) (value : Json) :
    setMember members name value = members ++ [(name, value)] := by
  refine if_neg fun taken => ?_
  obtain ⟨m, hm, same⟩ := List.any_eq_true.1 taken
  exact fresh (List.mem_map.2 ⟨m, hm, eq_of_beq same⟩)

theorem colon_cons (cs : List Char) : colon (':' :: cs) = .ok ((), cs) := rfl

theorem itemsFrom_value {isFirst : Bool} {steps : Nat} {cs rest : List Char} {items : List Json}
    (next : nextItem isFirst cs = .ok (true, text ++ rest)) (h : Spells text j)
    (stops : Stops rest) (enough : 2 * text.length ≤ steps) :
    itemsFrom .full (steps + 1) isFirst cs items = itemsFrom .full steps false rest (j :: items) := by
  rw [itemsFrom, next]
  dsimp only
  rw [h.reads stops enough]

theorem membersFrom_value {isFirst : Bool} {steps : Nat} {cs rest : List Char} {name : String}
    {members : List (String × Json)}
    (next : nextMember isFirst cs = .ok (true, nameChars name (':' :: ' ' :: (text ++ rest))))
    (fresh : name ∉ members.map Prod.fst) (h : Spells text j) (stops : Stops rest)
    (enough : 2 * text.length ≤ steps) :
    membersFrom .full (steps + 1) isFirst cs members =
      membersFrom .full steps false rest (members ++ [(name, j)]) := by
  rw [membersFrom, next]
  dsimp only [nameChars]
  rw [stringBody_chars]
  dsimp only
  rw [colon_cons]
  dsimp only
  rw [valueFrom_blank, h.reads stops enough]
  dsimp only
  rw [setMember_fresh fresh]

theorem itemsFrom_closing (isFirst : Bool) (steps : Nat) (items : List Json) (rest : List Char) :
    itemsFrom .full (steps + 1) isFirst (newLine level ++ ']' :: rest) items =
      .ok (array items.reverse, rest) := by
  rw [itemsFrom, nextItem_closing]

theorem membersFrom_closing (isFirst : Bool) (steps : Nat) (members : List (String × Json))
    (rest : List Char) :
    membersFrom .full (steps + 1) isFirst (newLine level ++ '\x7d' :: rest) members =
      .ok (object members, rest) := by
  rw [membersFrom, nextMember_closing]

theorem itemsFrom_itemLines {outer : Nat} {items : List Json}
    (h : ∀ item ∈ items, Spells (lines level item) item) (rest : List Char) {steps : Nat}
    (enough : 2 * (itemLines level items).length < steps) (before : List Json) :
    itemsFrom .full steps false (itemLines level items ++ (newLine outer ++ ']' :: rest)) before =
      .ok (array (before.reverse ++ items), rest) := by
  induction items generalizing steps before with
  | nil =>
    obtain ⟨steps, rfl⟩ := Nat.exists_eq_add_one.2 (Nat.zero_lt_of_lt enough)
    rw [itemLines_nil, List.nil_append, itemsFrom_closing, List.append_nil]
  | cons item items ih =>
    obtain ⟨steps, rfl⟩ := Nat.exists_eq_add_one.2 (Nat.zero_lt_of_lt enough)
    have spells := h item (List.mem_cons_self ..)
    simp only [itemLines_cons, List.length_cons, List.length_append] at enough
    simp only [itemLines_cons, List.cons_append, List.append_assoc]
    rw [itemsFrom_value (nextItem_comma spells _) spells (stops_itemLines _ (stops_newLine _))
      (by omega), ih (fun i hi => h i (List.mem_cons_of_mem _ hi)) (by omega)]
    simp

theorem membersFrom_memberLines {outer : Nat} {members : List (String × Json)}
    (h : ∀ m ∈ members, Spells (lines level m.2) m.2) (rest : List Char) {steps : Nat}
    (enough : 2 * (memberLines level members).length < steps) {before : List (String × Json)}
    (names : ((before ++ members).map Prod.fst).Nodup) :
    membersFrom .full steps false (memberLines level members ++ (newLine outer ++ '\x7d' :: rest))
      before = .ok (object (before ++ members), rest) := by
  induction members generalizing steps before with
  | nil =>
    obtain ⟨steps, rfl⟩ := Nat.exists_eq_add_one.2 (Nat.zero_lt_of_lt enough)
    rw [memberLines_nil, List.nil_append, membersFrom_closing, List.append_nil]
  | cons member members ih =>
    obtain ⟨name, value⟩ := member
    obtain ⟨steps, rfl⟩ := Nat.exists_eq_add_one.2 (Nat.zero_lt_of_lt enough)
    have spells : Spells (lines level value) value := h (name, value) (List.mem_cons_self ..)
    have fresh : name ∉ before.map Prod.fst := by
      rw [List.map_append, List.nodup_append] at names
      intro taken
      exact names.2.2 name taken name (List.mem_cons_self ..) rfl
    simp only [memberLines_cons, List.length_cons, List.length_append] at enough
    simp only [memberLines_cons, List.cons_append, List.append_assoc]
    rw [membersFrom_value (nextMember_comma name _) fresh spells
      (stops_memberLines _ (stops_newLine _)) (by omega),
      ih (fun m hm => h m (List.mem_cons_of_mem _ hm)) (by omega) (by simpa using names)]
    simp

end

theorem Readable.spells_of_atom {j : Json} (h : Readable j) (atom : (atomChars? j).isSome)
    (level : Nat) : Spells (lines level j) j := by
  obtain ⟨text, ht⟩ := Option.isSome_iff_exists.1 atom
  rw [lines_of_atom level ht]
  exact spells_atom h ht

/-- The lines of a value are read as the value, whatever their indentation. -/
theorem Readable.spells {j : Json} (h : Readable j) : ∀ level, Spells (lines level j) j := by
  induction h with
  | null => exact Readable.null.spells_of_atom rfl
  | bool b =>
    refine (Readable.bool b).spells_of_atom ?_
    cases b <;> rfl
  | int word => exact (Readable.int word).spells_of_atom rfl
  | float h => exact (Readable.float h).spells_of_atom rfl
  | string s => exact (Readable.string s).spells_of_atom rfl
  | @array items h ih =>
    intro level
    cases items with
    | nil => exact (Readable.array h).spells_of_atom rfl level
    | cons item items =>
      have spells := ih item (List.mem_cons_self ..) (level + 1)
      rw [lines_array]
      refine ⟨⟨_, _, rfl, by decide, by decide⟩, fun {rest steps} stops enough => ?_⟩
      simp only [List.length_cons, List.length_append] at enough
      obtain ⟨steps, rfl⟩ := Nat.exists_eq_add_of_le' (by omega : 2 ≤ steps)
      rw [List.cons_append, valueFrom, skipSpace_cons (by decide)]
      simp only [List.append_assoc, List.cons_append, List.nil_append]
      rw [itemsFrom_value (nextItem_first spells _) spells (stops_itemLines _ (stops_newLine _))
        (by omega), itemsFrom_itemLines (fun i hi => ih i (List.mem_cons_of_mem _ hi) _) _ (by omega)]
      rfl
  | @object members names h ih =>
    intro level
    cases members with
    | nil => exact (Readable.object names h).spells_of_atom rfl level
    | cons member members =>
      obtain ⟨name, value⟩ := member
      have spells : Spells (lines (level + 1) value) value :=
        ih (name, value) (List.mem_cons_self ..) (level + 1)
      rw [lines_object]
      refine ⟨⟨_, _, rfl, by decide, by decide⟩, fun {rest steps} stops enough => ?_⟩
      simp only [List.length_cons, List.length_append] at enough
      obtain ⟨steps, rfl⟩ := Nat.exists_eq_add_of_le' (by omega : 2 ≤ steps)
      rw [List.cons_append, valueFrom, skipSpace_cons (by decide)]
      simp only [List.append_assoc, List.cons_append, List.nil_append]
      rw [membersFrom_value (nextMember_first name _) (by simp) spells
        (stops_memberLines _ (stops_newLine _)) (by omega),
        membersFrom_memberLines (fun m hm => ih m (List.mem_cons_of_mem _ hm) _) _ (by omega) names]
      rfl

/-- A value is read back from its text. -/
theorem ofText_pretty {j : Json} (h : Readable j) : ofText j.pretty = .ok j := by
  have reads : valueFrom .full (2 * (lines 0 j).length + 2) (lines 0 j ++ []) = .ok (j, []) :=
    (h.spells 0).reads nofun (by omega)
  rw [List.append_nil] at reads
  rw [ofText, value, toList_pretty, reads]
  rfl

end Json

end GrammarKit
