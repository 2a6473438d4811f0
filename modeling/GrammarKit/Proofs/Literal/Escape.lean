import GrammarKit.Proofs.Literal.Decoding
import Mathlib.Data.Nat.Digits.Defs

/-!
What a quoted literal stands for, apart from any way to compute it. A body is read from left to
right, and a backslash with what belongs to it stands for one character or for itself. Main
statement: a raw literal decodes to its body, and any other decodes as it should exactly if no plus
sign takes the place of a digit in an escape that names its character by number.
-/

namespace GrammarKit

def Naming (digits : List Char) (c : Char) : Prop :=
  ∃ values : List Nat, digits.map hexDigit? = values.map some ∧
    Nat.ofDigits 16 values.reverse = c.toNat

/-- `signed` says that a plus sign in front of the digits does no harm. -/
def Names (signed : Bool) (digits : List Char) (c : Char) : Prop :=
  Naming digits c ∨ signed = true ∧ ∃ ds, digits = '+' :: ds ∧ Naming ds c

/-- What stands behind a backslash, and the character that both stand for. -/
def letterEscapes : List (Char × Char) :=
  [('\\', '\\'), ('\'', '\''), ('"', '"'), ('n', '\n'), ('r', '\r'), ('t', '\t'), ('a', '\x07'),
    ('b', '\x08'), ('f', '\x0c'), ('v', '\x0b'), ('0', '\x00')]

def numberEscapes : List (Char × Nat) := [('x', 2), ('u', 4), ('U', 8)]

/-- Behind a backslash and `mark` stands `cs`. The escape stands for `text`, and what is left to read
is `rest`. -/
inductive Escape (signed : Bool) (mark : Char) : List Char → List Char → List Char → Prop
  | letter {c cs} (h : letterEscapes.lookup mark = some c) : Escape signed mark cs [c] cs
  | number {digits c rest} (h : numberEscapes.lookup mark = some digits.length)
      (names : Names signed digits c) : Escape signed mark (digits ++ rest) [c] rest
  | kept {cs} (letter : letterEscapes.lookup mark = none)
      (number : ∀ digits c, numberEscapes.lookup mark = some digits.length →
        Names signed digits c → ¬digits <+: cs) : Escape signed mark cs ['\\', mark] cs

inductive Decodes (signed : Bool) : List Char → List Char → Prop
  | nil : Decodes signed [] []
  | plain {c cs text} (h : c ≠ '\\') (behind : Decodes signed cs text) :
      Decodes signed (c :: cs) (c :: text)
  | escape {mark cs front rest text} (h : Escape signed mark cs front rest)
      (behind : Decodes signed rest text) : Decodes signed ('\\' :: mark :: cs) (front ++ text)

/-- Some escape in a body has a plus sign in the place of its first digit. -/
inductive Signed : List Char → Prop
  | here {mark digits c cs} (h : numberEscapes.lookup mark = some (digits.length + 1))
      (names : Naming digits c) : Signed ('\\' :: mark :: '+' :: (digits ++ cs))
  | plain {c cs} (h : c ≠ '\\') (behind : Signed cs) : Signed (c :: cs)
  | pair {mark cs} (behind : Signed cs) : Signed ('\\' :: mark :: cs)

/-! ### Numbers -/

section

variable {digits ds : List Char} {c c' : Char} {n : Nat} {signed : Bool}

theorem foldlM_hexDigit? (ds : List Char) (init : Nat) :
    ds.foldlM (fun n c => (hexDigit? c).map fun d => n * 16 + d) init = some n ↔
      ∃ values : List Nat, ds.map hexDigit? = values.map some ∧
        values.foldl (fun n v => n * 16 + v) init = n := by
  induction ds generalizing init with
  | nil =>
    constructor
    · rintro ⟨⟩
      exact ⟨[], rfl, rfl⟩
    · rintro ⟨values, each, rfl⟩
      cases values with
      | nil => rfl
      | cons v values => cases each
  | cons d ds ih =>
    rw [List.foldlM_cons, List.map_cons]
    cases hd : hexDigit? d with
    | none =>
      constructor
      · rintro ⟨⟩
      · rintro ⟨values, each, -⟩
        cases values <;> cases each
    | some v =>
      refine (ih (init * 16 + v)).trans ⟨?_, ?_⟩
      · rintro ⟨values, each, total⟩
        exact ⟨v :: values, by rw [each, List.map_cons], total⟩
      · rintro ⟨values, each, total⟩
        cases values with
        | nil => cases each
        | cons w values =>
          obtain ⟨head, tail⟩ := List.cons.inj each
          cases head
          exact ⟨values, tail, total⟩

theorem ofDigits_reverse (values : List Nat) :
    Nat.ofDigits 16 values.reverse = values.foldl (fun n v => n * 16 + v) 0 := by
  rw [Nat.ofDigits_eq_foldr, List.foldr_reverse]
  congr 1
  funext n v
  rw [Nat.cast_id, Nat.mul_comm, Nat.add_comm]

theorem scalar?_eq_some : scalar? n = some c ↔ c.toNat = n := by
  by_cases valid : n.isValidChar
  · rw [scalar?, dif_pos valid, Option.some_inj]
    constructor
    · rintro rfl
      rfl
    · rintro rfl
      exact Char.toNat_inj.1 rfl
  · rw [scalar?, dif_neg valid]
    constructor
    · rintro ⟨⟩
    · rintro rfl
      exact absurd c.valid valid

theorem hexValue?_bind_scalar? (ne : ds ≠ []) :
    (hexValue? ds).bind scalar? = some c ↔ Naming ds c := by
  have fold : hexValue? ds =
      ds.foldlM (fun n c => (hexDigit? c).map fun d => n * 16 + d) 0 := by
    cases ds with
    | nil => exact absurd rfl ne
    | cons d ds => rfl
  rw [fold, Option.bind_eq_some_iff]
  simp only [foldlM_hexDigit?, scalar?_eq_some, ← ofDigits_reverse]
  constructor
  · rintro ⟨n, ⟨values, each, rfl⟩, hc⟩
    exact ⟨values, each, hc.symm⟩
  · rintro ⟨values, each, hc⟩
    exact ⟨_, ⟨values, each, rfl⟩, hc.symm⟩

theorem Naming.digit (h : Naming ds c) {d : Char} (hd : d ∈ ds) : (hexDigit? d).isSome := by
  obtain ⟨values, each, -⟩ := h
  have mem := List.mem_map_of_mem (f := hexDigit?) hd
  rw [each] at mem
  obtain ⟨v, -, hv⟩ := List.mem_map.1 mem
  rw [← hv]
  rfl

theorem Naming.unique (h : Naming ds c) (h' : Naming ds c') : c = c' := by
  obtain ⟨values, each, hc⟩ := h
  obtain ⟨values', each', hc'⟩ := h'
  have same : values = values' :=
    (List.map_inj_right fun _ _ => Option.some.inj).1 (each.symm.trans each')
  subst same
  exact Char.toNat_inj.1 (hc.symm.trans hc')

theorem not_naming_plus : ¬Naming ('+' :: ds) c := by
  intro h
  have digit := h.digit List.mem_cons_self
  exact absurd digit (by decide)

/-- The digits of a number, after a plus sign if there is one. -/
theorem hexNumber?_bind_scalar? (ne : 2 ≤ digits.length) :
    (hexNumber? digits).bind scalar? = some c ↔ Names true digits c := by
  unfold hexNumber?
  split
  next ds =>
    have ne : ds ≠ [] := by
      rintro rfl
      exact absurd ne (by decide)
    rw [hexValue?_bind_scalar? ne]
    constructor
    · exact fun h => .inr ⟨rfl, ds, rfl, h⟩
    · rintro (h | ⟨-, _, ⟨⟩, h⟩)
      · exact absurd h not_naming_plus
      · exact h
  next plain =>
    have ne : digits ≠ [] := by
      rintro rfl
      exact absurd ne (by decide)
    rw [hexValue?_bind_scalar? ne]
    constructor
    · exact .inl
    · rintro (h | ⟨-, ds, hds, -⟩)
      · exact h
      · exact absurd hds (plain ds)

theorem Names.mono {a b : Bool} (le : a = true → b = true) (h : Names a digits c) :
    Names b digits c := h.imp_right fun ⟨ha, plus⟩ => ⟨le ha, plus⟩

theorem Names.ne_backslash (h : Names signed digits c) {d : Char} (hd : d ∈ digits) :
    d ≠ '\\' := by
  rintro rfl
  have none : ¬(hexDigit? '\\').isSome := by decide
  rcases h with h | ⟨-, ds, rfl, h⟩
  · exact none (h.digit hd)
  · exact none (h.digit (List.mem_of_ne_of_mem (by decide) hd))

theorem Names.unique (h : Names signed digits c) (h' : Names signed digits c') : c = c' := by
  rcases h with h | ⟨-, ds, rfl, h⟩
  · rcases h' with h' | ⟨-, ds, rfl, -⟩
    · exact h.unique h'
    · exact absurd h not_naming_plus
  · rcases h' with h' | ⟨-, ds', hds, h'⟩
    · exact absurd h' not_naming_plus
    · cases hds
      exact h.unique h'

theorem utf8Size_of_hexDigit? {d : Char} (h : (hexDigit? d).isSome) : d.utf8Size = 1 := by
  rw [Char.utf8Size_eq_one_iff]
  unfold hexDigit? at h
  split at h
  next digit =>
    rw [Char.isDigit, Bool.and_eq_true, decide_eq_true_eq, decide_eq_true_eq] at digit
    exact UInt32.le_trans digit.2 (by decide)
  next =>
    split at h
    next lower => exact UInt32.le_trans lower.2 (by decide)
    next =>
      split at h
      next upper => exact UInt32.le_trans upper.2 (by decide)
      next => cases h

theorem utf8Size_of_hexValue? (h : hexValue? ds = some n) : ∀ d ∈ ds, d.utf8Size = 1 := by
  cases ds with
  | nil => cases h
  | cons d ds =>
    obtain ⟨values, each, -⟩ := (foldlM_hexDigit? (d :: ds) 0).1 h
    intro e he
    obtain ⟨v, -, hv⟩ := List.mem_map.1 (each ▸ List.mem_map_of_mem he)
    exact utf8Size_of_hexDigit? (Option.isSome_of_eq_some hv.symm)

theorem byteLength_of_hexNumber? (h : hexNumber? digits = some n) :
    byteLength digits = digits.length := by
  unfold hexNumber? at h
  split at h
  next => exact byteLength_of_utf8Size (List.forall_mem_cons.2 ⟨rfl, utf8Size_of_hexValue? h⟩)
  next => exact byteLength_of_utf8Size (utf8Size_of_hexValue? h)

/-- It makes no difference whether the digits are counted in characters or in bytes. -/
theorem numbered?_eq (width : Nat) (cs : List Char) :
    numbered? width cs = if (cs.take width).length = width then
      (hexNumber? (cs.take width)).bind scalar? else none := by
  rw [numbered?]
  generalize cs.take width = digits
  cases h : hexNumber? digits with
  | none => rw [Option.bind_none, ite_self, ite_self]
  | some n => rw [byteLength_of_hexNumber? h]

theorem numberEscapes_cases {mark : Char} {width : Nat}
    (h : numberEscapes.lookup mark = some width) :
    mark = 'x' ∧ width = 2 ∨ mark = 'u' ∧ width = 4 ∨ mark = 'U' ∧ width = 8 := by
  simp only [numberEscapes, List.lookup_cons, List.lookup_nil] at h
  grind

theorem lookup_letterEscapes {mark : Char} {width : Nat}
    (h : numberEscapes.lookup mark = some width) : letterEscapes.lookup mark = none := by
  rcases numberEscapes_cases h with ⟨rfl, -⟩ | ⟨rfl, -⟩ | ⟨rfl, -⟩ <;> rfl

/-- The characters behind the mark of a numbered escape name one, or they do not. -/
theorem numberedEscape_escape {mark : Char} {width : Nat}
    (h : numberEscapes.lookup mark = some width) (cs : List Char) :
    Escape true mark cs (numberedEscape mark width cs).1
      (cs.drop (numberedEscape mark width cs).2) := by
  have wide : 2 ≤ width := by
    rcases numberEscapes_cases h with ⟨-, rfl⟩ | ⟨-, rfl⟩ | ⟨-, rfl⟩ <;> decide
  have named (digits : List Char) (c : Char) (len : digits.length = width) (rest : List Char) :
      numbered? width (digits ++ rest) = some c ↔ Names true digits c := by
    rw [numbered?_eq, List.take_left' len, if_pos len]
    exact hexNumber?_bind_scalar? (by omega)
  unfold numberedEscape
  cases hc : numbered? width cs with
  | some c =>
    have enough : (cs.take width).length = width := by
      by_contra short
      rw [numbered?_eq, if_neg short] at hc
      cases hc
    have names := (named _ c enough (cs.drop width)).1 (by rwa [List.take_append_drop])
    have escape : Escape true mark (cs.take width ++ cs.drop width) [c] (cs.drop width) :=
      .number (by rw [enough, h]) names
    rwa [List.take_append_drop] at escape
  | none =>
    refine .kept (lookup_letterEscapes h) fun digits c hw names => ?_
    rintro ⟨rest, rfl⟩
    have len : digits.length = width := (Option.some.inj (h.symm.trans hw)).symm
    rw [(named digits c len rest).2 names] at hc
    cases hc

theorem escape_escape {mark : Char} (h : mark ≠ '\n') (cs : List Char) :
    Escape true mark cs (escape mark cs).1 (cs.drop (escape mark cs).2) := by
  unfold escape
  split
  next => exact absurd rfl h
  iterate 11 exact .letter rfl
  iterate 3 exact numberedEscape_escape rfl cs
  next =>
    refine .kept ?_ fun digits c h => ?_
    · rw [List.lookup_eq_none_iff]
      simp_all [letterEscapes]
    · rcases numberEscapes_cases h with ⟨rfl, -⟩ | ⟨rfl, -⟩ | ⟨rfl, -⟩ <;> contradiction

end

/-! ### Bodies -/

/-- Every backslash takes a character behind it along, which is no line feed. -/
inductive Paired : List Char → Prop
  | nil : Paired []
  | plain {c cs} (h : c ≠ '\\') (behind : Paired cs) : Paired (c :: cs)
  | pair {mark cs} (h : mark ≠ '\n') (behind : Paired cs) : Paired ('\\' :: mark :: cs)

section

variable {c mark : Char} {cs ds front rest front' rest' text text' : List Char}

theorem paired_cons (h : c ≠ '\\') : Paired (c :: cs) ↔ Paired cs := by
  constructor
  · intro paired
    cases paired with
    | plain _ behind => exact behind
    | pair => exact absurd rfl h
  · exact .plain h

theorem paired_pair : Paired ('\\' :: mark :: cs) ↔ mark ≠ '\n' ∧ Paired cs := by
  constructor
  · intro paired
    cases paired with
    | plain h => exact absurd rfl h
    | pair h behind => exact ⟨h, behind⟩
  · exact fun ⟨h, behind⟩ => .pair h behind

theorem signed_cons (h : c ≠ '\\') : Signed (c :: cs) ↔ Signed cs := by
  constructor
  · intro signed
    cases signed with
    | plain _ behind => exact behind
    | _ => exact absurd rfl h
  · exact .plain h

/-- What does not see characters other than backslashes does not see a run of them. -/
theorem append_iff {P : List Char → Prop} (step : ∀ {c cs}, c ≠ '\\' → (P (c :: cs) ↔ P cs))
    (plain : ∀ d ∈ ds, d ≠ '\\') : P (ds ++ cs) ↔ P cs := by
  induction ds with
  | nil => rfl
  | cons d ds ih =>
    obtain ⟨hd, hds⟩ := List.forall_mem_cons.1 plain
    rw [List.cons_append, step hd, ih hds]

namespace Escape

variable {a b : Bool}

/-- Nothing but digits is read along with the mark. -/
theorem split (h : Escape a mark cs front rest) : ∃ ds, cs = ds ++ rest ∧ ∀ d ∈ ds, d ≠ '\\' := by
  cases h with
  | letter => exact ⟨[], rfl, List.forall_mem_nil _⟩
  | number _ names => exact ⟨_, rfl, fun d hd => names.ne_backslash hd⟩
  | kept => exact ⟨[], rfl, List.forall_mem_nil _⟩

theorem paired (h : Escape a mark cs front rest) : Paired cs ↔ Paired rest := by
  obtain ⟨ds, rfl, plain⟩ := h.split
  exact append_iff paired_cons plain

theorem signed (h : Escape a mark cs front rest) : Signed cs ↔ Signed rest := by
  obtain ⟨ds, rfl, plain⟩ := h.split
  exact append_iff signed_cons plain

/-- Where a plus sign does no harm, an escape ends as it does elsewhere, or else it has one. -/
theorem cases_of_le (le : a = true → b = true) (h : Escape a mark cs front rest)
    (h' : Escape b mark cs front' rest') :
    front = front' ∧ rest = rest' ∨
      (a = false ∧ b = true ∧ front = ['\\', mark] ∧ rest = cs) ∧
        ∃ ds c, numberEscapes.lookup mark = some (ds.length + 1) ∧ Naming ds c ∧
          cs = '+' :: (ds ++ rest') ∧ front' = [c] := by
  -- The mark decides between a letter and a number, and what names a character on the left does so
  -- on the right. What is kept on the left only is where they can part.
  cases h with
  | letter hc =>
    cases h' with
    | letter hc' => exact .inl ⟨by rw [Option.some.inj (hc.symm.trans hc')], rfl⟩
    | number hw =>
      rw [lookup_letterEscapes hw] at hc
      cases hc
    | kept none =>
      rw [none] at hc
      cases hc
  | @number digits c _ hw names =>
    generalize hcs : digits ++ rest = cs at h'
    cases h' with
    | letter hc =>
      rw [lookup_letterEscapes hw] at hc
      cases hc
    | number hw' names' =>
      have len := Option.some.inj (hw.symm.trans hw')
      obtain ⟨rfl, rfl⟩ := List.append_inj hcs len
      exact .inl ⟨by rw [(names.mono le).unique names'], rfl⟩
    | kept _ unnamed => exact absurd ⟨rest, hcs⟩ (unnamed digits c hw (names.mono le))
  | kept none unnamed =>
    cases h' with
    | letter hc =>
      rw [none] at hc
      cases hc
    | @number digits c rest' hw names =>
      have unnamed : ¬Names a digits c :=
        fun names => unnamed digits c hw names (List.prefix_append digits rest')
      rcases names with naming | ⟨hb, ds, rfl, naming⟩
      · exact absurd (.inl naming) unnamed
      · have ha : a = false := by
          rw [← Bool.not_eq_true]
          exact fun ha => unnamed (.inr ⟨ha, ds, rfl, naming⟩)
        exact .inr ⟨⟨ha, hb, rfl, rfl⟩, ds, c, hw, naming, rfl, rfl⟩
    | kept => exact .inl ⟨rfl, rfl⟩

theorem unique (h : Escape a mark cs front rest) (h' : Escape a mark cs front' rest') :
    front = front' ∧ rest = rest' := by
  rcases h.cases_of_le id h' with same | ⟨⟨ha, ha', -⟩, -⟩
  · exact same
  · rw [ha] at ha'
    cases ha'

theorem ne_of_plus {c : Char} (hw : numberEscapes.lookup mark = some (ds.length + 1))
    (naming : Naming ds c) (h : Escape false mark ('+' :: (ds ++ cs)) front rest)
    (h' : Escape true mark ('+' :: (ds ++ cs)) front' rest') : front ≠ front' := by
  have number : Escape true mark ('+' :: ds ++ cs) [c] cs := .number hw (.inr ⟨rfl, ds, rfl, naming⟩)
  have kept : Escape false mark ('+' :: (ds ++ cs)) ['\\', mark] ('+' :: (ds ++ cs)) := by
    refine .kept (lookup_letterEscapes hw) fun digits d hd names hp => ?_
    rcases names with naming | ⟨⟨⟩, -⟩
    have len := Option.some.inj (hw.symm.trans hd)
    cases digits with
    | nil => cases len
    | cons e digits =>
      cases (List.cons_prefix_cons.1 hp).1
      exact not_naming_plus naming
  obtain ⟨rfl, -⟩ := h.unique kept
  obtain ⟨rfl, -⟩ := h'.unique number
  exact fun same => absurd (congrArg List.length same) (Nat.succ_ne_self 1)

end Escape

namespace Decodes

variable {a : Bool}

theorem unique (h : Decodes a cs text) (h' : Decodes a cs text') : text = text' := by
  induction h generalizing text' with
  | nil =>
    cases h'
    rfl
  | plain hc _ ih =>
    cases h' with
    | plain _ behind => rw [ih behind]
    | escape => exact absurd rfl hc
  | escape h _ ih =>
    cases h' with
    | plain hc => exact absurd rfl hc
    | escape h' behind =>
      obtain ⟨rfl, rfl⟩ := h.unique h'
      rw [ih behind]

theorem append (plain : ∀ d ∈ ds, d ≠ '\\') (h : Decodes a cs text) :
    Decodes a (ds ++ cs) (ds ++ text) := by
  induction ds with
  | nil => exact h
  | cons d ds ih =>
    obtain ⟨hd, hds⟩ := List.forall_mem_cons.1 plain
    exact .plain hd (ih hds)

/-- An escape with a plus sign stands for one character, and for all of its own if the sign does
harm. -/
theorem length_le (h : Decodes false cs text) (h' : Decodes true cs text') :
    text'.length ≤ text.length ∧ (Signed cs → text'.length < text.length) := by
  induction h generalizing text' with
  | nil =>
    cases h'
    exact ⟨Nat.le_refl _, nofun⟩
  | plain hc _ ih =>
    cases h' with
    | plain _ behind =>
      obtain ⟨le, lt⟩ := ih behind
      exact ⟨Nat.succ_le_succ le, fun signed => Nat.succ_lt_succ (lt ((signed_cons hc).1 signed))⟩
    | escape => exact absurd rfl hc
  | @escape mark cs front rest text h behind ih =>
    cases h' with
    | plain hc => exact absurd rfl hc
    | @escape _ _ front' rest' text' h' behind' =>
      simp only [List.length_append]
      obtain ⟨rfl, rfl⟩ | ⟨⟨-, -, rfl, rfl⟩, ds, c, -, naming, rfl, rfl⟩ :=
        h.cases_of_le (fun _ => rfl) h'
      · obtain ⟨le, lt⟩ := ih behind'
        refine ⟨Nat.add_le_add_left le _, fun signed => Nat.add_lt_add_left (lt ?_) _⟩
        cases signed with
        | here hw naming => exact absurd rfl (h.ne_of_plus hw naming h')
        | plain hc => exact absurd rfl hc
        | pair signed => exact h.signed.1 signed
      · -- On the left the sign and the digits are still to be read, as plain characters. So read, they
        -- are in front of the text on the right as well, and the hypothesis compares the two.
        have names : Names true ('+' :: ds) c := .inr ⟨rfl, ds, rfl, naming⟩
        have le := (ih (behind'.append fun d hd => names.ne_backslash hd)).1
        simp only [List.length_append, List.length_cons, List.length_nil] at le ⊢
        omega

theorem strict (h : Decodes true cs text) (unsigned : ¬Signed cs) : Decodes false cs text := by
  induction h with
  | nil => exact .nil
  | plain hc _ ih => exact .plain hc (ih fun signed => unsigned (.plain hc signed))
  | escape h _ ih =>
    refine .escape ?_ (ih fun signed => unsigned (.pair (h.signed.2 signed)))
    cases h with
    | letter hc => exact .letter hc
    | number hw names =>
      rcases names with naming | ⟨-, ds, rfl, naming⟩
      · exact .number hw (.inl naming)
      · exact absurd (.here hw naming) unsigned
    | kept none unnamed =>
      exact .kept none fun digits c hw names => unnamed digits c hw (names.mono fun _ => rfl)

/-- The signs that do no harm are all that keeps a text from being the one that is meant. -/
theorem strict_iff (h : Decodes true cs text) :
    (∀ t, Decodes false cs t ↔ t = text) ↔ ¬Signed cs := by
  constructor
  · intro meant signed
    exact Nat.lt_irrefl _ ((length_le ((meant text).2 rfl) h).2 signed)
  · intro unsigned t
    constructor
    · exact fun ht => ht.unique (h.strict unsigned)
    · rintro rfl
      exact h.strict unsigned

end Decodes

theorem decodes_unescapeFrom (skip : Nat) (cs : List Char) (h : Paired (cs.drop skip)) :
    Decodes true (cs.drop skip) (unescapeFrom skip cs) := by
  induction skip, cs using unescapeFrom.induct with
  | case1 skip =>
    rw [List.drop_nil, unescapeFrom]
    exact .nil
  | case2 skip c cs ih => exact ih h
  | case3 mark cs ih =>
    obtain ⟨feed, behind⟩ := paired_pair.1 h
    have escapes := escape_escape feed cs
    rw [unescapeFrom, List.drop_zero]
    exact .escape escapes (ih (escapes.paired.1 behind))
  | case4 c cs lone ih =>
    have hc : c ≠ '\\' := by
      rintro rfl
      cases h with
      | plain hc => exact absurd rfl hc
      | pair => exact lone _ _ rfl rfl
    rw [unescapeFrom.eq_4 _ _ lone]
    exact .plain hc (ih ((paired_cons hc).1 h))

end

/-- What lies between two quotes is read in pairs, or else the quotes would not have been found. -/
theorem Quote.paired_take {quote : Quote} {cs : List Char} {n b : Nat}
    (h : bodyLength?.go quote cs n = some b) : Paired (cs.take (b - n)) := by
  induction cs, n using go_induct quote with
  | stuck cs n dead =>
    rw [dead] at h
    cases h
  | close cs n hp =>
    rw [go_of_closing hp] at h
    cases h
    rw [Nat.sub_self, List.take_zero]
    exact .nil
  | escape e cs n hp he ih =>
    rw [go_escape hp he] at h
    have le := (go_bounds h).1
    have two : b - n = b - (n + 2) + 2 := by omega
    rw [two]
    exact .pair he (ih h)
  | plain c cs n hp hc ih =>
    rw [go_plain hp hc] at h
    have le := (go_bounds h).1
    have one : b - n = b - (n + 1) + 1 := by omega
    rw [one]
    exact .plain hc (ih h)

theorem Quoted.paired_body {cs : List Char} {q : Quoted} (h : Quoted.match? cs = some q) :
    Paired (q.body cs) := by
  obtain ⟨quote, -, hq⟩ := List.exists_of_findSome?_eq_some h
  obtain ⟨hraw, rfl, -, hn⟩ := withQuote?_eq_some.1 hq
  have paired := Quote.paired_take hn
  rwa [Nat.sub_zero, List.drop_drop, ← hraw] at paired

theorem Quoted.body_take (q : Quoted) (cs : List Char) : q.body (cs.take q.length) = q.body cs := by
  rw [body, body, List.drop_take, List.take_take, length, Nat.min_eq_left (by omega)]

/-- What a literal at the start of a text stands for. A raw one stands for its body. Any other stands
for what it is meant to stand for, and for nothing else, exactly if no plus sign takes the place of
a digit. -/
theorem literal_decodes {cs : List Char} {q : Quoted} (h : Quoted.match? cs = some q) :
    (q.raw = true → decodeQuoted (cs.take q.length) = some (q.body cs)) ∧
      (q.raw = false → ∃ text, decodeQuoted (cs.take q.length) = some text ∧
        Decodes true (q.body cs) text ∧
        ((∀ t, Decodes false (q.body cs) t ↔ t = text) ↔ ¬Signed (q.body cs))) := by
  obtain ⟨lexeme, len⟩ := match?_lexeme h
  have decoded : decodeQuoted (cs.take q.length) =
      some (if q.raw then q.body cs else unescape (q.body cs)) := by
    simp only [decodeQuoted, lexeme, if_pos len.symm, Quoted.body_take]
  refine ⟨fun raw => ?_, fun cooked => ?_⟩
  · rw [decoded, raw, if_pos rfl]
  · have decodes : Decodes true (q.body cs) (unescape (q.body cs)) :=
      decodes_unescapeFrom 0 _ (Quoted.paired_body h)
    refine ⟨unescape (q.body cs), ?_, decodes, decodes.strict_iff⟩
    rw [decoded, cooked, if_neg Bool.false_ne_true]

theorem literal_decodes_pair :
    Quoted.match? ['\'', '\\', 'd', '\\', '\\', '\'', '.'] = some ⟨false, .single, 4⟩ ∧
      ∃ text, decodeQuoted ['\'', '\\', 'd', '\\', '\\', '\''] = some text ∧
        Decodes true ['\\', 'd', '\\', '\\'] text ∧
        ((∀ t, Decodes false ['\\', 'd', '\\', '\\'] t ↔ t = text) ↔
          ¬Signed ['\\', 'd', '\\', '\\']) :=
  have h : Quoted.match? ['\'', '\\', 'd', '\\', '\\', '\'', '.'] = some ⟨false, .single, 4⟩ := by
    decide
  ⟨h, (literal_decodes h).2 rfl⟩

/-- Two characters behind a mark that are no two digits leave the escape as it is written. With a
plus sign for the first they name a character all the same. -/
theorem decodeQuoted_plus :
    (∀ t, Decodes false ['\\', 'x', '+', '1'] t ↔ t = ['\\', 'x', '+', '1']) ∧
      decodeQuoted ['\'', '\\', 'x', '+', '1', '\''] = some ['\x01'] := by
  refine ⟨fun t => ?_, by decide⟩
  have kept : Decodes false ['\\', 'x', '+', '1'] ['\\', 'x', '+', '1'] := by
    refine .escape (.kept rfl fun digits c hw names hp => ?_)
      (.plain (by decide) (.plain (by decide) .nil))
    rcases names with naming | ⟨⟨⟩, -⟩
    rw [hp.eq_of_length (Option.some.inj hw).symm] at naming
    exact not_naming_plus naming
  constructor
  · exact fun h => h.unique kept
  · rintro rfl
    exact kept

end GrammarKit
