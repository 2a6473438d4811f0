import GrammarKit.Proofs.Printed.Quotation
import GrammarKit.Proofs.Token.Extent

/-!
Where printed literals and blocks of code end. Main statements: whatever stands behind them, both are
taken whole and nothing more is, and what was printed is read.
-/

namespace GrammarKit

/-- What a text is quoted as is one literal, not raw and between single quotation marks, which takes
all that was written and decodes to the text. So it is whatever stands behind it, but for a quotation
mark behind an empty literal. -/
theorem quotation_delimited (text rest : String)
    (h : text = "" → rest.toList.head? ≠ some '\'') :
    (∃ q, Quoted.match? (quote text.toList ++ rest.toList) = some q ∧ q.raw = false ∧
      q.quote = .single ∧ q.length = (quote text.toList).length) ∧
    Token.regexStr.bytes? (quote text.toList ++ rest.toList) =
      some (byteLength (quote text.toList)) ∧
    decodeString (String.ofList (quote text.toList)) = some text := by
  have stop : text.toList = [] → rest.toList.head? ≠ some '\'' := fun empty =>
    h (String.toList_eq_nil_iff.1 empty)
  refine ⟨⟨_, match?_quote stop, rfl, rfl, (length_quote _).symm⟩, ?_, ?_⟩
  · exact Token.bytes?_eq_some.2 ⟨_, length?_quote stop, by rw [List.take_left]⟩
  · rw [decodeString, String.toList_ofList, decodeQuoted_quote, Option.map_some,
      String.ofList_toList]

/-- A text may begin with a quotation mark and end with a backslash, and more quotation marks may stand
behind it. -/
theorem quotation_delimited_marks :
    ("'\\" = "" → "'''".toList.head? ≠ some '\'') ∧
      Token.regexStr.bytes? "'\\'\\\\''''".toList = some 6 ∧
      decodeString "'\\'\\\\'" = some "'\\" := by
  have filled : "'\\" = "" → "'''".toList.head? ≠ some '\'' := by decide
  exact ⟨filled, (quotation_delimited "'\\" "'''" filled).2⟩

/-- The marks of an empty literal and one behind them open another literal, if that is closed. -/
example : Quoted.match? (quote [] ++ "''''".toList) = some ⟨false, .tripleSingle, 0⟩ := by decide

/-- A block of code takes all that was printed, whatever stands behind it, and is read as the code that
was printed exactly if that has no blank at either end. -/
theorem block_delimited (s : Session) (text rest : String)
    (h : s.cursor.rest = (Expr.code text).chars ++ rest.toList) :
    ∃ after, s.cursor.advance (Expr.code text).text.utf8ByteSize =
        some ((Expr.code text).text, after) ∧
      after.rest = rest.toList ∧
      (Rule.Body.code.exec s = .ok (.ok (.code text), { s with cursor := after }) ↔
        Trimmed text.toList) := by
  have chars : (Expr.code text).chars = fencedChars text.toList := by rw [Expr.chars]
  rw [chars] at h
  have found : Fenced.match? s.cursor.rest = some (.ofText text.toList) := by
    rw [h]
    exact match?_fencedChars _ _
  have lexeme : s.cursor.rest.take (Fenced.ofText text.toList).length = fencedChars text.toList := by
    rw [h, ← length_fencedChars, List.take_left]
  refine ⟨s.cursor.read (Fenced.ofText text.toList).length, ?_, ?_, ?_⟩
  · rw [Cursor.advance_eq_some, Expr.text, String.toList_ofList, chars, length_fencedChars]
    exact ⟨⟨_, h.symm⟩, rfl, rfl⟩
  · rw [Cursor.read, h, ← length_fencedChars, List.drop_left]
  · rw [exec_code found, lexeme, body?_fencedChars, ← trim_eq_self_iff, ← ofCode_spaced]
    simp

/-- The code is a backtick, and one more stands behind the block. -/
theorem block_delimited_backtick :
    (Session.ofText "`` ` ```" false).cursor.rest = (Expr.code "`").chars ++ "`".toList ∧
      ∃ after, (Cursor.ofText "`` ` ```").advance 7 = some ("`` ` ``", after) ∧
        after.rest = ['`'] ∧
        Rule.Body.code.exec (Session.ofText "`` ` ```" false) =
          .ok (.ok (.code "`"), { Session.ofText "`` ` ```" false with cursor := after }) := by
  have printed : (Session.ofText "`` ` ```" false).cursor.rest =
      (Expr.code "`").chars ++ "`".toList := by decide
  obtain ⟨after, taken, rest, read⟩ := block_delimited _ "`" "`" printed
  exact ⟨printed, after, taken, rest, read.2 (by decide)⟩

end GrammarKit
