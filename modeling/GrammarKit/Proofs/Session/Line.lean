import GrammarKit.Session.Trace

/-!
The lines of the debug trace. A record is written on one line, whatever the source line in it holds,
so that the trace is read back line by line, and an exclamation mark behind the indentation tells the
records of invocations that failed.
-/

namespace GrammarKit

theorem digitChar_ne_line_feed (n : Nat) : Nat.digitChar n ≠ '\n' := by
  by_cases small : n < 16
  · decide +revert
  · simp (disch := omega) only [Nat.digitChar, if_neg]
    decide

theorem notMem_toDigits {base : Nat} (h : 1 < base) (n : Nat) : '\n' ∉ Nat.toDigits base n := by
  induction n using Nat.strongRecOn with
  | ind n ih =>
    rw [Nat.toDigits_eq_if h]
    split
    · rw [List.mem_singleton]
      exact (digitChar_ne_line_feed n).symm
    · rw [List.mem_append, List.mem_singleton, not_or]
      exact ⟨ih _ (Nat.div_lt_self (by omega) h), (digitChar_ne_line_feed _).symm⟩

theorem Position.notMem_text (p : Position) : '\n' ∉ p.text.toList := by
  simp [Position.text, @notMem_toDigits 10 (by decide)]

theorem notMem_escapeChar (c : Char) : '\n' ∉ escapeChar c := by
  have hex := @notMem_toDigits 16 (by decide) c.toNat
  unfold escapeChar
  split
  case h_7 quote backslash feed back tab nul =>
    have unlike : '\n' ≠ c := fun same => feed same.symm
    split <;> simp [hex, unlike]
  all_goals decide

theorem notMem_escaped (text : List Char) : '\n' ∉ escaped text := by
  simp [escaped, notMem_escapeChar]

theorem Rule.notMem_name (r : Rule) : '\n' ∉ r.name.toList := by
  cases r <;> decide

namespace TraceEntry

def flagged (line : List Char) : Bool := (line.dropWhile (· = ' ')).head? = some '!'

theorem exists_render (r : TraceEntry) (text : String) :
    ∃ place, r.render text = List.replicate (4 * r.depth) ' ' ++
      ((if r.succeeded then [] else ['!']) ++ (r.rule.name.toList ++ ':' :: place)) :=
  ⟨' ' :: (r.position.text.toList ++ ':' :: ' ' :: escaped (r.markedLine text)), by
    simp only [render, List.append_assoc, List.cons_append, List.nil_append]⟩

theorem notMem_render (r : TraceEntry) (text : String) : '\n' ∉ r.render text := by
  have mark : '\n' ∉ (if r.succeeded then [] else ['!']) := by
    split <;> decide
  simp [render, mark, r.rule.notMem_name, r.position.notMem_text, notMem_escaped]

theorem head?_name (r : Rule) (rest : List Char) :
    ∃ c, (r.name.toList ++ rest).head? = some c ∧ c ≠ ' ' ∧ c ≠ '!' := by
  cases r <;> exact ⟨_, rfl, by decide, by decide⟩

/-- The lines with an exclamation mark are those of records without a mark of success. -/
theorem flagged_render (r : TraceEntry) (text : String) :
    flagged (r.render text) = !r.succeeded := by
  obtain ⟨place, hr⟩ := r.exists_render text
  obtain ⟨c, hc, space, mark⟩ := head?_name r.rule (':' :: place)
  rw [flagged, hr, List.dropWhile_append, List.dropWhile_replicate]
  generalize r.rule.name.toList ++ ':' :: place = line at hc
  obtain ⟨rest, rfl⟩ : ∃ rest, line = c :: rest := by
    cases line with
    | nil => cases hc
    | cons d rest =>
      cases hc
      exact ⟨rest, rfl⟩
  cases r.succeeded <;> simp [space, mark]

end TraceEntry

end GrammarKit
