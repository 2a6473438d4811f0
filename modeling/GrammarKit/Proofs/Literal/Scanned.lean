import GrammarKit.Proofs.Number.Numeral
import GrammarKit.Proofs.Rule.Congruence
import GrammarKit.Proofs.Session.Operation
import Mathlib.Data.Nat.Digits.Defs

/-!
Literals in a parse. What is consumed as a literal has a value, so a rule that reads one fails only
where there is none to consume. Main statement: a quoted literal decodes; a number is an integer with
the value of its digits exactly if it has neither point nor exponent and fits, and a floating point
number else; and what rules do with a literal without a value makes no difference to any parse.
-/

namespace GrammarKit

def wholeValue (lexeme : List Char) : Int :=
  let size : Nat := Nat.ofDigits 10
    ((lexeme.filter Char.isDigit).reverse.map fun c => c.toNat - '0'.toNat)
  if lexeme.head? = some '-' then -(size : Int) else size

def signs : List (List Char) := [[], ['+'], ['-']]

theorem mem_signs {sign : List Char} :
    sign ∈ signs ↔ sign = [] ∨ sign = ['+'] ∨ sign = ['-'] := by
  simp [signs]

/-! ### Numbers -/

theorem digitsValue_eq_ofDigits (digits : List Char) :
    digitsValue digits = Nat.ofDigits 10 (digits.reverse.map fun c => c.toNat - '0'.toNat) := by
  rw [Nat.ofDigits_eq_foldr, List.foldr_map, List.foldr_reverse, digitsValue, Nat.ofDigitChars]
  congr 1
  funext n c
  rw [Nat.cast_id, Nat.add_comm]

section

variable {cs sign digits : List Char}

theorem fractionLength_eq_zero (point : '.' ∉ cs) : Token.fractionLength cs = 0 := by
  cases cs with
  | nil => rfl
  | cons c cs =>
    rw [Token.fractionLength, if_neg]
    rintro rfl
    exact point List.mem_cons_self

theorem exponentLength_eq_zero (exponent : 'e' ∉ cs ∧ 'E' ∉ cs) :
    Token.exponentLength cs = 0 := by
  cases cs with
  | nil => rfl
  | cons c cs =>
    rw [Token.exponentLength, if_neg]
    rintro (rfl | rfl)
    · exact exponent.1 List.mem_cons_self
    · exact exponent.2 List.mem_cons_self

theorem take_signLength_mem_signs (cs : List Char) : cs.take (Token.signLength cs) ∈ signs := by
  cases cs with
  | nil => exact mem_signs.2 (.inl rfl)
  | cons c cs =>
    rw [mem_signs, Token.signLength]
    split
    next sign =>
      rcases sign with rfl | rfl
      · exact .inr (.inl rfl)
      · exact .inr (.inr rfl)
    next => exact .inl rfl

theorem exists_sign_digits (h : Token.numberLength? cs = some cs.length) (point : '.' ∉ cs)
    (exponent : 'e' ∉ cs ∧ 'E' ∉ cs) :
    ∃ sign digits, cs = sign ++ digits ∧ sign ∈ signs ∧ isNatural digits = true := by
  refine ⟨cs.take (Token.signLength cs), cs.drop (Token.signLength cs),
    (List.take_append_drop _ cs).symm, take_signLength_mem_signs cs, ?_⟩
  obtain ⟨total, some⟩ := Token.numberLength?_eq_some.1 h
  rw [fractionLength_eq_zero fun mem => point (List.mem_of_mem_drop mem)] at total some
  rw [exponentLength_eq_zero ⟨fun mem => exponent.1 (List.mem_of_mem_drop mem),
    fun mem => exponent.2 (List.mem_of_mem_drop mem)⟩] at total
  have tail := List.length_drop (i := Token.signLength cs) (l := cs)
  generalize cs.drop (Token.signLength cs) = digits at *
  have run : digits.takeWhile Char.isDigit = digits :=
    (List.takeWhile_prefix _).eq_of_length (by rw [← Token.digitsLength]; omega)
  have all := List.all_takeWhile (p := Char.isDigit) (l := digits)
  rw [run] at all
  rw [isNatural, all, Bool.and_true, Bool.not_eq_true', List.isEmpty_eq_false_iff]
  rintro rfl
  exact some ⟨rfl, Nat.zero_le 1⟩

theorem splitSign_signed (sign_mem : sign ∈ signs) (nonempty : digits ≠ [])
    (all : ∀ c ∈ digits, c.isDigit = true) :
    splitSign (sign ++ digits) = (decide ((sign ++ digits).head? = some '-'), digits) := by
  rcases mem_signs.1 sign_mem with rfl | rfl | rfl
  · obtain ⟨c, digits, rfl⟩ := List.exists_cons_of_ne_nil nonempty
    have digit := all c List.mem_cons_self
    have unsigned : c ≠ '-' := ne_of_isDigit digit rfl
    have split : splitSign (c :: digits) = (false, c :: digits) :=
      @Numeral.splitSign_digits false (c :: digits) digit
    simpa [unsigned] using split
  · rfl
  · rfl

theorem integer?_signed (sign_mem : sign ∈ signs) (natural : isNatural digits = true) :
    integer? (sign ++ digits) = some (wholeValue (sign ++ digits)) := by
  have value : natural? digits = some (digitsValue digits) := if_pos natural
  simp only [isNatural, Bool.and_eq_true, Bool.not_eq_true', List.isEmpty_eq_false_iff,
    List.all_eq_true] at natural
  obtain ⟨nonempty, all⟩ := natural
  have unsigned : sign.filter Char.isDigit = [] := by
    rcases mem_signs.1 sign_mem with rfl | rfl | rfl
    · rfl
    · rfl
    · rfl
  rw [integer?, splitSign_signed sign_mem nonempty all, wholeValue, List.filter_append, unsigned,
    List.nil_append, List.filter_eq_self.2 all, ← digitsValue_eq_ofDigits]
  simp [value]

/-- What a number stands for. -/
theorem ofNumber?_eq (h : Token.numberLength? cs = some cs.length) :
    Value.ofNumber? cs =
      if ('.' ∉ cs ∧ 'e' ∉ cs ∧ 'E' ∉ cs) ∧
          Int64.minValue.toInt ≤ wholeValue cs ∧ wholeValue cs ≤ Int64.maxValue.toInt then
        some (.int (.ofInt (wholeValue cs)))
      else (Binary64.ofChars? cs).map .float := by
  have marks : (cs.any fun c => c == '.' || c == 'e' || c == 'E') = false ↔
      '.' ∉ cs ∧ 'e' ∉ cs ∧ 'E' ∉ cs := by
    rw [List.any_eq_false]
    constructor
    · intro none
      exact ⟨fun mem => none _ mem rfl, fun mem => none _ mem rfl, fun mem => none _ mem rfl⟩
    · rintro ⟨point, exponent, capital⟩ c mem
      simp only [Bool.or_eq_true, beq_iff_eq]
      rintro ((rfl | rfl) | rfl)
      · exact point mem
      · exact exponent mem
      · exact capital mem
  by_cases whole : '.' ∉ cs ∧ 'e' ∉ cs ∧ 'E' ∉ cs
  · obtain ⟨sign, digits, rfl, sign_mem, natural⟩ := exists_sign_digits h whole.1 whole.2
    rw [Value.ofNumber?, marks.2 whole]
    simp only [Bool.false_eq_true, if_false, integer?_signed sign_mem natural]
    simp only [whole, not_false_eq_true, and_self, true_and]
  · rw [Value.ofNumber?, Bool.of_not_eq_false (mt marks.1 whole)]
    simp [whole]

/-- A number has a value, and which kind of value it is shows in how it is written. -/
theorem exists_number_value (h : Token.numberLength? cs = some cs.length) :
    ∃ v, Value.ofNumber? cs = some v ∧
      ((∃ i, v = .int i) ↔ ('.' ∉ cs ∧ 'e' ∉ cs ∧ 'E' ∉ cs) ∧
        Int64.minValue.toInt ≤ wholeValue cs ∧ wholeValue cs ≤ Int64.maxValue.toInt) ∧
      (∀ i, v = .int i → i.toInt = wholeValue cs) ∧
      ((∃ i, v = .int i) ∨ ∃ x, v = .float x ∧ Binary64.ofChars? cs = some x) := by
  obtain ⟨d, hd⟩ := Decimal.exists_ofChars? h
  have float : Binary64.ofChars? cs = some (Binary64.nearest d) := by
    rw [Binary64.ofChars?, hd]
  rw [ofNumber?_eq h, float]
  split
  next fits =>
    refine ⟨_, rfl, ⟨fun _ => fits, fun _ => ⟨_, rfl⟩⟩, ?_, .inl ⟨_, rfl⟩⟩
    rintro i ⟨⟩
    exact Int64.toInt_ofInt_of_le fits.2.1 (Int.lt_of_le_of_lt fits.2.2 (by decide))
  next unfit =>
    refine ⟨_, rfl, ⟨?_, fun fits => absurd fits unfit⟩, ?_, .inr ⟨_, rfl, rfl⟩⟩
    · rintro ⟨i, ⟨⟩⟩
    · rintro i ⟨⟩

end

/-! ### Rules that read a literal -/

theorem Session.exists_length?_of_consume (s : Session) {t : Token} {lexeme : List Char}
    {u : Session} (h : s.consume t = (.ok lexeme, u)) :
    ∃ n, t.length? s.cursor.rest = some n ∧ lexeme = s.cursor.rest.take n := by
  cases hn : t.length? s.cursor.rest with
  | none =>
    rw [s.consume_of_miss hn] at h
    cases h
  | some n =>
    rw [s.consume_of_hit hn] at h
    cases h
    exact ⟨n, rfl, rfl⟩

namespace Rule

open Handler

/-- Consumes a token and yields what its text stands for. Where it stands for nothing, `otherwise`
takes over. -/
def decoded {α : Type} (t : Token) (decode? : List Char → Option α) (otherwise : Handler α) :
    Handler α := do
  let lexeme ← Handler.lexeme t
  match decode? lexeme with
  | some a => pure a
  | none => otherwise

/-- What a rule does if `otherwise` takes over where a literal has no value. -/
def bodyOr (otherwise : (r : Rule) → Handler r.Output) (call : (r : Rule) → Handler r.Output)
    (n : Nat) : (r : Rule) → Handler r.Output
  | .litStr =>
    decoded .regexStr (fun lexeme => (decodeQuoted lexeme).map fun text => .str (.ofList text))
      (otherwise .litStr)
  | .litNum => decoded .litNum Value.ofNumber? (otherwise .litNum)
  | .regexStr =>
    decoded .regexStr (fun lexeme => (decodeQuoted lexeme).map .ofList) (otherwise .regexStr)
  | r => body call n r

def handlerOr (otherwise : (r : Rule) → Handler r.Output) : Nat → (r : Rule) → Handler r.Output
  | 0, _ => Handler.abort .exhausted
  | fuel + 1, r =>
    bodyOr otherwise (fun callee => Handler.call callee (handlerOr otherwise fuel callee)) fuel r

def refusal : (r : Rule) → Handler r.Output
  | .litNum => Handler.refuse [.litNum]
  | _ => Handler.refuse [.regexStr]

theorem litStr_eq : Body.litStr = decoded .regexStr
    (fun lexeme => (decodeQuoted lexeme).map fun text => .str (.ofList text))
    (refusal .litStr) := by
  simp only [decoded, Body.litStr, Body.regexStr, bind_eq, map_eq, bind_assoc]
  congr 1
  funext lexeme
  cases decodeQuoted lexeme <;> rfl

theorem litNum_eq : Body.litNum = decoded .litNum Value.ofNumber? (refusal .litNum) := by
  simp only [decoded, Body.litNum, bind_eq]
  congr 1
  funext lexeme
  cases Value.ofNumber? lexeme <;> rfl

theorem regexStr_eq : Body.regexStr = decoded .regexStr
    (fun lexeme => (decodeQuoted lexeme).map .ofList) (refusal .regexStr) := by
  simp only [decoded, Body.regexStr, bind_eq]
  congr 1
  funext lexeme
  cases decodeQuoted lexeme <;> rfl

theorem bodyOr_refusal (call : (r : Rule) → Handler r.Output) (n : Nat) (r : Rule) :
    bodyOr refusal call n r = body call n r := by
  cases r with
  | litStr => exact litStr_eq.symm
  | litNum => exact litNum_eq.symm
  | regexStr => exact regexStr_eq.symm
  | _ => rfl

theorem handlerOr_refusal (fuel : Nat) (r : Rule) :
    handlerOr refusal fuel r = r.handler fuel := by
  induction fuel generalizing r with
  | zero => rfl
  | succ fuel ih => simp only [handlerOr, handler, bodyOr_refusal, ih]

section

variable {α : Type} {t : Token} {decode? : List Char → Option α} {s : Session}

theorem exec_decoded {lexeme : List Char} {u : Session} {a : α}
    (scanned : s.consume t = (.ok lexeme, u)) (value : decode? lexeme = some a)
    (otherwise : Handler α) : (decoded t decode? otherwise).exec s = .ok (.ok a, u) := by
  simp only [decoded, bind_eq, Handler.lexeme, Handler.bind, exec, scanned, Handler.ofExcept, value]
  rfl

/-- What would be done without a value is never done if every text of the token has one. -/
theorem exec_decoded_congr
    (decodes : ∀ cs n, t.length? cs = some n → ∃ a, decode? (cs.take n) = some a)
    (otherwise otherwise' : Handler α) :
    (decoded t decode? otherwise).exec = (decoded t decode? otherwise').exec := by
  funext s
  cases hn : t.length? s.cursor.rest with
  | none =>
    simp only [decoded, bind_eq, Handler.lexeme, Handler.bind, exec, s.consume_of_miss hn]
    rfl
  | some n =>
    obtain ⟨a, value⟩ := decodes s.cursor.rest n hn
    rw [exec_decoded (s.consume_of_hit hn) value, exec_decoded (s.consume_of_hit hn) value]

end

theorem exec_bodyOr (otherwise call : (r : Rule) → Handler r.Output) (n : Nat) (r : Rule) :
    (bodyOr otherwise call n r).exec = (body call n r).exec := by
  have quoted (α : Type) (f : List Char → α) :
      ∀ cs n, Token.regexStr.length? cs = some n →
        ∃ a, (decodeQuoted (cs.take n)).map f = some a := by
    intro cs n hn
    obtain ⟨text, value⟩ := exists_decodeQuoted hn
    exact ⟨f text, by rw [value, Option.map_some]⟩
  rw [← bodyOr_refusal]
  cases r with
  | litStr => exact exec_decoded_congr (quoted _ _) _ _
  | litNum => exact exec_decoded_congr (fun _ _ => exists_ofNumber?) _ _
  | regexStr => exact exec_decoded_congr (quoted _ _) _ _
  | _ => rfl

theorem exec_handlerOr (otherwise : (r : Rule) → Handler r.Output) (fuel : Nat) (r : Rule) :
    (handlerOr otherwise fuel r).exec = (r.handler fuel).exec := by
  induction fuel generalizing r with
  | zero => rfl
  | succ fuel ih =>
    rw [handlerOr, handler, exec_bodyOr]
    refine exec_body_congr (fun callee => ?_) fuel r
    funext s
    rw [exec_call, exec_call, ih]

end Rule

/-- What is scanned as a literal has a value, and rules that read a literal yield it. A number that
is written without point and exponent and fits is an integer, and no other is. In no parse it matters
what would be done with a literal without a value. -/
theorem scanned_literals_decode (s : Session) :
    (∀ lexeme t, s.consume .regexStr = (.ok lexeme, t) → ∃ text,
      decodeQuoted lexeme = some text ∧
        Rule.Body.regexStr.exec s = .ok (.ok (String.ofList text), t) ∧
        Rule.Body.litStr.exec s = .ok (.ok (.str (String.ofList text)), t)) ∧
    (∀ lexeme t, s.consume .litNum = (.ok lexeme, t) → ∃ v,
      Value.ofNumber? lexeme = some v ∧ Rule.Body.litNum.exec s = .ok (.ok v, t) ∧
        ((∃ i, v = .int i) ↔ ('.' ∉ lexeme ∧ 'e' ∉ lexeme ∧ 'E' ∉ lexeme) ∧
          Int64.minValue.toInt ≤ wholeValue lexeme ∧ wholeValue lexeme ≤ Int64.maxValue.toInt) ∧
        (∀ i, v = .int i → i.toInt = wholeValue lexeme) ∧
        ((∃ i, v = .int i) ∨ ∃ x, v = .float x ∧ Binary64.ofChars? lexeme = some x)) ∧
    ∀ fuel r, Rule.handlerOr Rule.refusal fuel r = r.handler fuel ∧
      ∀ otherwise, (Rule.handlerOr otherwise fuel r).exec s = (r.handler fuel).exec s := by
  refine ⟨?_, ?_, ?_⟩
  · intro lexeme t scanned
    obtain ⟨n, hn, rfl⟩ := s.exists_length?_of_consume scanned
    obtain ⟨text, value⟩ := exists_decodeQuoted hn
    refine ⟨text, value, ?_, ?_⟩
    · rw [Rule.regexStr_eq]
      exact Rule.exec_decoded scanned (by rw [value, Option.map_some]) _
    · rw [Rule.litStr_eq]
      exact Rule.exec_decoded scanned (by rw [value, Option.map_some]) _
  · intro lexeme t scanned
    obtain ⟨n, hn, rfl⟩ := s.exists_length?_of_consume scanned
    obtain ⟨v, value, kind⟩ := exists_number_value (numberLength?_lexeme hn)
    refine ⟨v, value, ?_, kind⟩
    rw [Rule.litNum_eq]
    exact Rule.exec_decoded scanned value _
  · intro fuel r
    refine ⟨Rule.handlerOr_refusal fuel r, fun otherwise => ?_⟩
    rw [Rule.exec_handlerOr]

theorem scanned_literals_decode_both :
    (∃ t, (Session.ofText "'a'" false).consume .regexStr = (.ok ['\'', 'a', '\''], t) ∧
      Rule.Body.litStr.exec (Session.ofText "'a'" false) = .ok (.ok (.str "a"), t)) ∧
    ∃ t, (Session.ofText "-7" false).consume .litNum = (.ok ['-', '7'], t) ∧
      Rule.Body.litNum.exec (Session.ofText "-7" false) = .ok (.ok (.int (-7)), t) := by
  refine ⟨⟨_, rfl, ?_⟩, ⟨_, rfl, ?_⟩⟩
  · obtain ⟨text, value, -, read⟩ :=
      (scanned_literals_decode (.ofText "'a'" false)).1 ['\'', 'a', '\''] _ rfl
    cases value
    exact read
  · obtain ⟨v, value, read, -⟩ :=
      (scanned_literals_decode (.ofText "-7" false)).2.1 ['-', '7'] _ rfl
    cases value
    exact read

end GrammarKit
