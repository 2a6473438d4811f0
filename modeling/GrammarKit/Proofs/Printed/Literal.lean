import GrammarKit.Proofs.Number.Layout
import GrammarKit.Proofs.Phrase
import GrammarKit.Proofs.Printed.Quotation
import GrammarKit.Proofs.Sorted
import GrammarKit.Proofs.WellFormed

/-!
Literals and arguments as phrases. Main statement: a block of arguments, as it is printed, is the
phrase that builds these arguments, whatever stands behind it.
-/

namespace GrammarKit

namespace Token

variable {t : Token} {lexeme rest : List Char}

theorem takes_of_length? (h : t.length? (lexeme ++ rest) = some lexeme.length) :
    t.Takes (settle (lexeme ++ rest)) lexeme (settle rest) := by
  rw [settled_of_startsAt (startsAt_of_length? h)]
  exact ⟨lexeme.length, h, by rw [List.take_left], by rw [List.drop_left]⟩

theorem nameLength?_append {name : String} (h : IsName name)
    (stop : rest.head?.any isNameChar = false) :
    nameLength? (name.toList ++ rest) = some name.toList.length := by
  obtain ⟨c, cs, hname, hc, hcs⟩ := h
  rw [hname]
  exact nameLength?_eq_some.2 ⟨c, cs ++ rest, rfl, hc, by rw [takeWhile_run hcs stop]; rfl⟩

end Token

namespace Value

theorem ofNumber?_of_point {n : Numeral} (h : n.fraction.isSome ∨ n.exponent.isSome) :
    ofNumber? n.chars = some (.float (Binary64.nearest n.decimal)) := by
  have fractional : (n.chars.any fun c => c == '.' || c == 'e' || c == 'E') = true := by
    rw [Numeral.chars, List.any_append, List.any_append, List.any_append]
    rcases h with h | h
    · obtain ⟨digits, hf⟩ := Option.isSome_iff_exists.1 h
      simp [hf, Numeral.fractionChars]
    · obtain ⟨e, he⟩ := Option.isSome_iff_exists.1 h
      simp [he, Numeral.exponentChars]
  rw [ofNumber?, fractional, Binary64.ofChars?, n.ofChars?_chars]
  rfl

/-- The digits of an integer of 64 bits are no floating point number. -/
theorem ofNumber?_int (n : Int64) : ofNumber? (int n).chars = some (.int n) := by
  have whole : ((int n).chars.any fun c => c == '.' || c == 'e' || c == 'E') = false := by
    rw [chars, Numeral.integerChars_eq, List.any_append]
    have digits : ((Nat.toDigits 10 n.toInt.natAbs).any fun c => c == '.' || c == 'e' || c == 'E') =
        false := by
      rw [List.any_eq_false]
      intro c hc
      have digit := isDigit_toDigits _ c hc
      simp [ne_of_isDigit digit (show '.'.isDigit = false from rfl),
        ne_of_isDigit digit (show 'e'.isDigit = false from rfl),
        ne_of_isDigit digit (show 'E'.isDigit = false from rfl)]
    rw [digits]
    by_cases negative : n.toInt < 0
    · simp [negative, Numeral.signChars]
    · simp [negative, Numeral.signChars]
  have value : integer? (int n).chars = some n.toInt := by
    rw [chars, Numeral.integerChars_eq, integer?,
      Numeral.splitSign_digits (Numeral.head?_toDigits _)]
    dsimp only
    rw [natural?, if_pos (isNatural_toDigits _), digitsValue_toDigits]
    by_cases negative : n.toInt < 0
    · rw [decide_eq_true negative]
      exact congrArg some (show -(n.toInt.natAbs : Int) = n.toInt by omega)
    · rw [decide_eq_false negative]
      exact congrArg some (show (n.toInt.natAbs : Int) = n.toInt by omega)
  rw [ofNumber?, whole, if_neg Bool.false_ne_true, value]
  dsimp only
  rw [if_pos ⟨n.minValue_le_toInt, n.toInt_le⟩, Int64.ofInt_toInt]

/-- Every floating point number but the one that is none is written as a numeral that reads back. -/
theorem exists_numeral {x : Binary64} (hx : x ≠ .nan) :
    ∃ n : Numeral, n.chars = (float x).chars ∧ ofNumber? n.chars = some (.float x) := by
  cases x with
  | finite negative s e h =>
    obtain ⟨n, hchars, value, point⟩ := FloatLayout.exists_numeral h negative
    exact ⟨n, hchars, by rw [ofNumber?_of_point point, value]⟩
  | infinite negative =>
    have reach : (Binary64.reach : Int) ≤ 999 + (0 : Nat) := by decide
    have large : Binary64.nearest ⟨negative, 1, 999⟩ = .infinite negative :=
      Binary64.nearest_of_large (Nat.le_refl (10 ^ 0)) reach
    have digit : ∀ c ∈ ['1'], c.isDigit := List.forall_mem_singleton.2 rfl
    refine ⟨⟨negative, ['1'], Option.none, some 999, by simp, digit, by simp, by decide⟩, rfl, ?_⟩
    rw [ofNumber?_of_point (.inr rfl)]
    exact congrArg (fun x => some (float x)) large
  | nan => exact absurd rfl hx

end Value

namespace Phrase

variable {rest : List Char}

def Ends (marks rest : List Char) : Prop := ∃ c ∈ marks, ∃ more, rest = c :: more

def argumentEnd : List Char := [',', ')']

theorem mark_of_length? {t : Token} {c : Char} (h : t.length? (c :: rest) = some 1) :
    Mark t (settle (c :: rest)) (settle rest) :=
  ⟨[c], @Token.takes_of_length? t [c] rest h⟩

theorem name_of_isName {name : String} (h : IsName name)
    (stop : rest.head?.any isNameChar = false) :
    Name (settle (name.toList ++ rest)) name (settle rest) := by
  have takes := Name.intro (Token.takes_of_length? (Token.nameLength?_append h stop))
  rwa [String.ofList_toList] at takes

theorem regexStr_quote (text : String) (stop : rest.head? ≠ some '\'') :
    RegexStr (settle (quote text.toList ++ rest)) text (settle rest) := by
  have length := @length?_quote text.toList rest fun _ => stop
  have literal := RegexStr.intro (Token.takes_of_length? length) (decodeQuoted_quote _)
  rwa [String.ofList_toList] at literal

theorem Ends.head_ne {marks : List Char} (h : Ends marks rest) {d : Char} (hd : d ∉ marks) :
    rest.head? ≠ some d := by
  obtain ⟨c, hc, more, rfl⟩ := h
  rintro ⟨⟩
  exact hd hc

theorem Ends.closing (h : Ends argumentEnd rest) : Closing rest := by
  obtain ⟨c, hc, more, rfl⟩ := h
  simp only [argumentEnd, List.mem_cons, List.not_mem_nil, or_false] at hc
  rcases hc with rfl | rfl
  · exact closing_cons.2 (by decide)
  · exact closing_cons.2 (by decide)

theorem litNum_chars (n : Numeral) {v : Value} (h : Ends argumentEnd rest)
    (value : Value.ofNumber? n.chars = some v) :
    LitNum (settle (n.chars ++ rest)) v (settle rest) := by
  have alone := n.numberLength?_chars
  rw [← List.append_nil n.chars, List.length_append, List.length_nil, Nat.add_zero] at alone
  have length := Token.numberLength?_exchange alone (Nat.le_refl _) h.closing
  exact .intro (Token.takes_of_length? length) value

theorem litNum_integer (n : Int64) (h : Ends argumentEnd rest) :
    LitNum (settle ((Value.int n).chars ++ rest)) (.int n) (settle rest) := by
  have numeral : (Value.int n).chars = Numeral.chars ⟨n.toInt < 0, Nat.toDigits 10 n.toInt.natAbs,
      none, none, Nat.toDigits_ne_nil, isDigit_toDigits _, by simp, by decide⟩ := by
    rw [Value.chars, Numeral.integerChars_eq]
    simp [Numeral.chars, Numeral.fractionChars, Numeral.exponentChars]
  have value := Value.ofNumber?_int n
  rw [numeral] at value ⊢
  exact litNum_chars _ h value

theorem litNum_float {x : Binary64} (hx : x ≠ .nan) (h : Ends argumentEnd rest) :
    LitNum (settle ((Value.float x).chars ++ rest)) (.float x) (settle rest) := by
  obtain ⟨n, hchars, value⟩ := Value.exists_numeral hx
  rw [← hchars]
  exact litNum_chars n h value

theorem wordLength?_append (word : List Char) (h : Ends argumentEnd rest) :
    Token.wordLength? word (word ++ rest) = some word.length := by
  refine Token.wordLength?_eq_some.2 ⟨rfl, rest, rfl, ?_⟩
  obtain ⟨c, hc, more, rfl⟩ := h
  exact (closing_cons.1 (Ends.closing ⟨c, hc, more, rfl⟩)).1

/-- What is printed for a value is the literal of that value. -/
theorem litVal_chars {v : Value} (hv : v ≠ .float .nan) (h : Ends argumentEnd rest) :
    LitVal (settle (v.chars ++ rest)) v (settle rest) := by
  cases v with
  | str text => exact .str (regexStr_quote text (h.head_ne (by decide)))
  | int n => exact .num (litNum_integer n h)
  | float x => exact .num (litNum_float (fun nan => hv (congrArg Value.float nan)) h)
  | bool b =>
    cases b with
    | true =>
      have length : Token.litBool.length? (['T', 'r', 'u', 'e'] ++ rest) = some 4 :=
        Option.or_eq_some_iff.2 (.inl (wordLength?_append _ h))
      exact .bool (.intro (Token.takes_of_length? length))
    | false =>
      have length : Token.litBool.length? (['F', 'a', 'l', 's', 'e'] ++ rest) = some 5 :=
        Option.or_eq_some_iff.2 (.inr ⟨rfl, wordLength?_append _ h⟩)
      exact .bool (.intro (Token.takes_of_length? length))
  | none =>
    have length : Token.litNone.length? (['N', 'o', 'n', 'e'] ++ rest) = some 4 :=
      wordLength?_append _ h
    exact .none ⟨_, Token.takes_of_length? length⟩

theorem argExpr_chars {e : String × Value} (hname : IsName e.1) (hvalue : e.2 ≠ .float .nan)
    (h : Ends argumentEnd rest) :
    ArgExpr (settle (e.1.toList ++ '=' :: e.2.chars ++ rest)) e (settle rest) := by
  rw [List.append_assoc, List.cons_append]
  exact .intro (name_of_isName hname rfl) (mark_of_length? rfl) (litVal_chars hvalue h)

theorem joinWith_cons_cons (sep piece next : List Char) (pieces : List (List Char)) :
    joinWith sep (piece :: next :: pieces) = piece ++ sep ++ joinWith sep (next :: pieces) := rfl

theorem argItem_chars {entries : List (String × Value)} (some : entries ≠ [])
    (hnames : ∀ e ∈ entries, IsName e.1 ∧ e.2 ≠ .float .nan) (rest : List Char) :
    ArgItem (settle (joinWith [',', ' '] (entries.map fun e => e.1.toList ++ '=' :: e.2.chars) ++
      ')' :: rest)) entries (settle rest) := by
  induction entries with
  | nil => exact absurd rfl some
  | cons e entries ih =>
    obtain ⟨⟨hname, hvalue⟩, hnames⟩ := List.forall_mem_cons.1 hnames
    cases entries with
    | nil =>
      have close : Ends argumentEnd (')' :: rest) := ⟨')', by decide, rest, rfl⟩
      exact .last (argExpr_chars hname hvalue close) (mark_of_length? rfl)
    | cons e' entries =>
      have items := ih (List.cons_ne_nil _ _) hnames
      rw [List.map_cons, List.map_cons, joinWith_cons_cons, List.append_assoc, List.append_assoc]
      rw [List.map_cons] at items
      refine .more (argExpr_chars hname hvalue ⟨',', by decide, _, rfl⟩) (mark_of_length? rfl) ?_
      rw [← settle_cons_of_blank (by decide : isBlank ' ')] at items
      exact items

/-- Of a map's own entries every one is the last of its name. -/
theorem get?_eq_lastValue (args : Args) (k : String) : args.get? k = lastValue args.entries k := by
  have found : ∀ v, (k, v) ∈ args.entries ↔ args.get? k = some v :=
    fun v => (SortedMap.find?_eq_some args.increasing).symm
  have last : ∀ e, (args.entries.reverse.find? fun e => e.1 = k) = some e →
      e ∈ args.entries ∧ e.1 = k := by
    intro e he
    exact ⟨List.mem_reverse.1 (List.mem_of_find?_eq_some he), by simpa using List.find?_some he⟩
  unfold lastValue
  cases he : args.entries.reverse.find? fun e => e.1 = k with
  | none =>
    rw [Option.map_none, Option.eq_none_iff_forall_ne_some]
    intro v hv
    have absent := List.find?_eq_none.1 he (k, v) (List.mem_reverse.2 ((found v).2 hv))
    exact absent (decide_eq_true rfl)
  | some e =>
    obtain ⟨mem, rfl⟩ := last e he
    exact (found e.2).1 mem

theorem argsChars_append (args : Args) (rest : List Char) : argsChars args ++ rest =
    '@' :: '(' :: (joinWith [',', ' '] (args.entries.map fun e => e.1.toList ++ '=' :: e.2.chars) ++
      ')' :: rest) := by
  simp [argsChars]

/-- A block of arguments is the phrase that builds them. -/
theorem argsDef_chars {args : Args} (h : args.WellFormed) (rest : List Char) :
    ArgsDef (settle (argsChars args ++ rest)) args (settle rest) := by
  rw [argsChars_append]
  refine .intro (mark_of_length? rfl) ?_ (get?_eq_lastValue args)
  by_cases some : args.entries = []
  · rw [some]
    exact .empty (mark_of_length? rfl) (mark_of_length? rfl)
  · exact .items (mark_of_length? rfl) (argItem_chars some h rest)

end Phrase

end GrammarKit
