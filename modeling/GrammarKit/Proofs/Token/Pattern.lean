import GrammarKit.Proofs.Token.Pattern.Delimited
import GrammarKit.Proofs.Token.Pattern.Number

/-!
Matching a token is what a backtracking engine makes of its pattern. Main statement: but for the end
of the text, which has an anchor for a pattern, every token is matched where the regular expression
that its pattern spells is, and with the same length.
-/

namespace GrammarKit

namespace Token

open Regex

variable {t : Token} {ignoreCase : Bool} {r : Regex} {f : List Char → List (List Char)}

/-- A token is matched up to where the first thread ends. -/
theorem length?_of_threads
    (h : ∀ cs, (r.threads ignoreCase (.start cs)).map Thread.rest = f cs)
    (first : ∀ cs, (f cs).head? = (t.length? cs).map cs.drop) (cs : List Char) :
    t.length? cs = r.matchLength? ignoreCase cs := by
  rw [matchLength?_eq (h cs), first cs, Option.map_map]
  cases hn : t.length? cs with
  | none => rfl
  | some n =>
    rw [Option.map_some, Function.comp_apply, List.length_drop, Nat.sub_sub_self (length?_le hn)]

theorem length?_of_ends (h : Ends ignoreCase r f)
    (first : ∀ cs, (f cs).head? = (t.length? cs).map cs.drop) (cs : List Char) :
    t.length? cs = r.matchLength? ignoreCase cs :=
  length?_of_threads (fun cs => h (.start cs)) first cs

theorem head?_one (mark : Char) (cs : List Char) :
    (one (· == mark) cs).head? = (charLength? mark cs).map cs.drop := by
  cases cs with
  | nil => rfl
  | cons c cs => by_cases hc : c = mark <;> simp [one, charLength?, hc]

/-- A token that is a single character. -/
theorem length?_of_mark {mark : Char} (h : ∀ cs, t.length? cs = charLength? mark cs)
    (cs : List Char) : t.length? cs = (sequence [literal mark]).matchLength? false cs := by
  refine length?_of_ends (takes_literal mark).last.ends (fun cs => ?_) cs
  rw [h, head?_one]

/-- Every token is matched as its pattern is, numbers without regard to case. -/
theorem length?_eq_matchLength? (ht : t ≠ .textEnd) :
    ∃ r, Regex.ofPattern? t.pattern = some r ∧
      ∀ cs, t.length? cs = r.matchLength? (t == .litNum) cs := by
  cases t with
  | textEnd => exact absurd rfl ht
  | code => exact ⟨Regex.code, rfl, length?_of_ends ends_code head?_codeEnds⟩
  | regexStr => exact ⟨quoted, rfl, length?_of_ends ends_quoted head?_quotedEnds⟩
  | ruleRef => exact ⟨reference, rfl, length?_of_ends ends_reference head?_referenceEnds⟩
  | ruleName => exact ⟨Regex.name, rfl, length?_of_ends takes_name.ends head?_nameEnds⟩
  | litNum => exact ⟨number, rfl, length?_of_ends ends_number head?_numberEnds⟩
  | litNone => exact ⟨noneLiteral, rfl, length?_of_ends ends_noneLiteral (head?_wordEnds _)⟩
  | litBool =>
    refine ⟨boolLiteral, rfl, length?_of_ends ends_boolLiteral fun cs => ?_⟩
    rw [List.head?_append, head?_wordEnds, head?_wordEnds, ← Option.map_or]
    rfl
  | _ => exact ⟨_, rfl, length?_of_mark fun _ => rfl⟩

/-- Triple quotes that nothing closes are an empty literal between single ones. -/
theorem length?_eq_matchLength?_quotes :
    Token.regexStr ≠ .textEnd ∧ ∃ r, Regex.ofPattern? regexStr.pattern = some r ∧
      r.matchLength? false ['\'', '\'', '\'', 'a'] = some 2 := by
  have ht : Token.regexStr ≠ .textEnd := by decide
  obtain ⟨r, hr, same⟩ := length?_eq_matchLength? ht
  exact ⟨ht, r, hr, (same _).symm⟩

end Token

end GrammarKit
