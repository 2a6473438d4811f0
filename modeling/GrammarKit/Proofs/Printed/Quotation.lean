import GrammarKit.Literal.Escape
import GrammarKit.Proofs.Exchange.Quoted

/-!
Texts between quotation marks. Main statements: what a text is quoted as is one literal, whatever
stands behind it, unless it is empty and that is a quotation mark; and the literal decodes to the text.
-/

namespace GrammarKit

theorem quoteChar_cases (c : Char) :
    (∃ e, quoteChar c = ['\\', e] ∧ e ≠ '\n' ∧ ∀ rest, escape e rest = ([c], 0)) ∨
      (quoteChar c = [c] ∧ c ≠ '\\' ∧ c ≠ '\'') := by
  unfold quoteChar
  split
  · exact .inl ⟨_, rfl, by decide, fun _ => rfl⟩
  · exact .inl ⟨_, rfl, by decide, fun _ => rfl⟩
  · exact .inl ⟨_, rfl, by decide, fun _ => rfl⟩
  · exact .inl ⟨_, rfl, by decide, fun _ => rfl⟩
  · exact .inl ⟨_, rfl, by decide, fun _ => rfl⟩
  · rename_i backslash mark _ _ _
    exact .inr ⟨rfl, backslash, mark⟩

theorem unescape_quoted (text : List Char) : unescape (text.flatMap quoteChar) = text := by
  unfold unescape
  induction text with
  | nil => rfl
  | cons c text ih =>
    rw [List.flatMap_cons]
    rcases quoteChar_cases c with ⟨e, he, -, hescape⟩ | ⟨hc, backslash, -⟩
    · rw [he]
      show unescapeFrom 0 ('\\' :: e :: text.flatMap quoteChar) = c :: text
      rw [unescapeFrom, hescape]
      exact congrArg _ ih
    · rw [hc]
      show unescapeFrom 0 (c :: text.flatMap quoteChar) = c :: text
      rw [unescapeFrom, ih]
      intro mark cs heq
      exact absurd heq backslash

namespace Quote

theorem go_quoted (text rest : List Char) (n : Nat) :
    bodyLength?.go single (text.flatMap quoteChar ++ '\'' :: rest) n =
      some (n + (text.flatMap quoteChar).length) := by
  induction text generalizing n with
  | nil =>
    apply go_of_closing
    exact List.prefix_append ['\''] rest
  | cons c text ih =>
    rw [List.flatMap_cons, List.append_assoc, List.length_append, ← Nat.add_assoc]
    rcases quoteChar_cases c with ⟨e, he, feed, -⟩ | ⟨hc, backslash, mark⟩
    · rw [he, ← ih]
      apply go_escape _ feed
      rw [chars, List.cons_prefix_cons]
      rintro ⟨⟨⟩, -⟩
    · rw [hc, ← ih]
      apply go_plain _ backslash
      rw [chars, List.cons_prefix_cons]
      exact fun h => mark h.1.symm

end Quote

def Quoted.ofText (text : List Char) : Quoted := ⟨false, .single, (text.flatMap quoteChar).length⟩

theorem length_quote (text : List Char) : (quote text).length = (Quoted.ofText text).length := by
  simp only [quote, Quoted.length, Quoted.bodyStart, Quoted.ofText, Quote.chars, List.length_cons,
    List.length_append, List.length_nil, Bool.toNat_false]
  omega

theorem body_quote (text : List Char) :
    (Quoted.ofText text).body (quote text) = text.flatMap quoteChar := by
  show (text.flatMap quoteChar ++ ['\'']).take (text.flatMap quoteChar).length = _
  exact List.take_left

/-- A text that is quoted begins with no quotation mark but the one in front of it, unless it is
empty and one stands behind it. -/
theorem not_triple_prefix_quote {text rest : List Char}
    (h : text = [] → rest.head? ≠ some '\'') : ¬Quote.tripleSingle.chars <+: quote text ++ rest := by
  cases text with
  | nil =>
    rintro ⟨more, hmore⟩
    apply h rfl
    have heq : '\'' :: more = rest := (List.cons.inj (List.cons.inj hmore).2).2
    rw [← heq]
    rfl
  | cons c text =>
    rw [quote, List.flatMap_cons]
    rcases quoteChar_cases c with ⟨e, he, -, -⟩ | ⟨hc, -, mark⟩
    · rw [he]
      rintro ⟨more, hmore⟩
      cases hmore
    · rw [hc]
      rintro ⟨more, hmore⟩
      exact mark (List.cons.inj (List.cons.inj hmore).2).1.symm

/-- Whatever stands behind it, a quoted text is one literal; only behind an empty one no quotation mark
may stand. -/
theorem match?_quote {text rest : List Char} (h : text = [] → rest.head? ≠ some '\'') :
    Quoted.match? (quote text ++ rest) = some (Quoted.ofText text) := by
  have triple : Quoted.withQuote? false (quote text ++ rest) .tripleSingle = none :=
    if_neg fun hp => not_triple_prefix_quote h (List.isPrefixOf_iff_prefix.1 hp)
  have double : Quoted.withQuote? false (quote text ++ rest) .tripleDouble = none := rfl
  have single :
      Quoted.withQuote? false (quote text ++ rest) .single = some (Quoted.ofText text) := by
    refine Quoted.withQuote?_eq_some.2 ⟨rfl, rfl, List.prefix_append ['\''] _, ?_⟩
    show Quote.bodyLength?.go .single ((text.flatMap quoteChar ++ ['\'']) ++ rest) 0 = _
    rw [List.append_assoc, List.singleton_append, Quote.go_quoted, Nat.zero_add]
    rfl
  show Quote.all.findSome? (Quoted.withQuote? false (quote text ++ rest)) = _
  rw [Quote.all, List.findSome?_cons, triple, List.findSome?_cons, double, List.findSome?_cons,
    single]

theorem length?_quote {text rest : List Char} (h : text = [] → rest.head? ≠ some '\'') :
    Token.regexStr.length? (quote text ++ rest) = some (quote text).length := by
  rw [length_quote]
  exact Option.map_eq_some_iff.2 ⟨_, match?_quote h, rfl⟩

/-- A quoted text decodes to the text. -/
theorem decodeQuoted_quote (text : List Char) : decodeQuoted (quote text) = some text := by
  have found := @match?_quote text [] fun _ => by simp
  rw [List.append_nil] at found
  rw [decodeQuoted, found]
  dsimp only
  rw [if_pos (length_quote text).symm, body_quote, unescape_quoted]
  rfl

end GrammarKit
