import GrammarKit.Proofs.Handler.Careful

/-!
What a handler consumes. Main statements: whatever is consumed lies in the text that was left to
read, and what a handler leaves is an end of that text.
-/

namespace GrammarKit

namespace Handler

/-- The tokens that are consumed while a handler is played on a session, each with the text that it
begins. -/
def consumed {α : Type} : Handler α → Session → List (Token × List Char)
  | done _, _ => []
  | reraise _, _ => []
  | abort _, _ => []
  | peek branch candidates k, s =>
    match s.peek branch candidates with
    | (t, s) => (k t).consumed s
  | consume t k, s =>
    match s.consume t with
    | (.ok lexeme, u) => (t, s.cursor.rest) :: (k (.ok lexeme)).consumed u
    | (.error e, u) => (k (.error e)).consumed u
  | fail tried k, s =>
    match s.fail tried with
    | (e, s) => (k e).consumed s
  | invoke rule body k, s =>
    match s.enter rule with
    | (frame, s) =>
      body.consumed s ++
        match body.exec s with
        | .error _ => []
        | .ok (r, s) => (k r).consumed (s.leave frame r)
  | attempt rule body k, s =>
    let start := s.cursor
    match s.enter rule with
    | (frame, s) =>
      body.consumed s ++
        match body.exec s with
        | .error _ => []
        | .ok (r, s) =>
          match r, s.leave frame r with
          | .ok b, s => (k (some b)).consumed s
          | .error _, s => (k none).consumed { s with cursor := start }

variable {α : Type} {h : Handler α} {x z : List Char}

theorem read_suffix {a : α} (hr : h.read x = .yield a z) : z <:+ x := by
  induction h generalizing x z with
  | done a =>
    cases hr
    exact List.suffix_refl x
  | reraise e => cases hr
  | abort why => cases hr
  | peek branch candidates k ih => exact ih _ hr
  | consume t k ih =>
    simp only [read] at hr
    split at hr
    · exact (ih _ hr).trans (List.drop_suffix _ x)
    · cases hr
  | fail tried k => cases hr
  | invoke rule body k ihb ihk =>
    simp only [read] at hr
    split at hr
    · rename_i b y hb
      obtain ⟨w, hw, rfl⟩ := Reading.settled_eq_yield.1 hb
      exact (ihk _ hr).trans (((settle_suffix w).trans (ihb hw)).trans (settle_suffix x))
    · cases hr
    · cases hr
  | attempt rule body k ihb ihk =>
    simp only [read] at hr
    split at hr
    · rename_i b y hb
      obtain ⟨w, hw, rfl⟩ := Reading.settled_eq_yield.1 hb
      exact (ihk _ hr).trans (((settle_suffix w).trans (ihb hw)).trans (settle_suffix x))
    · exact ihk _ hr
    · cases hr

/-- A body that ends well has read its text. -/
theorem Careful.read_of_exec {looked : Bool} (hh : h.Careful looked) {s u : Session} {a : α}
    (hr : h.exec s = .ok (.ok a, u)) : h.read s.cursor.rest = .yield a u.cursor.rest := by
  rw [← view_exec hh, hr]
  rfl

/-- A careful handler that consumes a token consumes nothing behind it. -/
theorem Careful.eq_of_consumed {looked : Bool} {t t' : Token}
    {k : Except FailureId (List Char) → Handler α} (hh : (consume t' k).Careful looked)
    {s : Session} {y : List Char} (hy : (t, y) ∈ (consume t' k).consumed s) :
    t = t' ∧ y = s.cursor.rest := by
  obtain ⟨herr, hok⟩ := hh
  cases hn : t'.length? s.cursor.rest with
  | none =>
    simp only [consumed, s.consume_of_miss hn, herr] at hy
    cases hy
  | some n =>
    simp only [consumed, s.consume_of_hit hn, List.mem_cons] at hy
    rcases hy with hy | hy
    · cases hy
      exact ⟨rfl, rfl⟩
    · rcases (hok _ n hn).cases with ⟨a, ha⟩ | ⟨why, hw⟩
      · rw [ha] at hy
        cases hy
      · rw [hw] at hy
        cases hy

/-- In a careful handler more is consumed behind an invocation only if its body has yielded
something. -/
theorem Careful.consumed_invoke {β : Type} {looked : Bool} {rule : Rule} {body : Handler β}
    {k : Except FailureId β → Handler α} (hh : (invoke rule body k).Careful looked) {s : Session}
    {taken : Token × List Char} (hy : taken ∈ (invoke rule body k).consumed s) :
    taken ∈ body.consumed (s.enter rule).2 ∨
      ∃ b u, body.exec (s.enter rule).2 = .ok (.ok b, u) ∧
        taken ∈ (k (.ok b)).consumed (u.leave (s.enter rule).1 (.ok b)) := by
  obtain ⟨-, herr, -⟩ := hh
  simp only [consumed, List.mem_append] at hy
  refine hy.imp_right fun hy => ?_
  split at hy
  · cases hy
  · rename_i r u hr
    cases r with
    | error e =>
      rw [herr] at hy
      cases hy
    | ok b => exact ⟨b, u, hr, hy⟩

theorem Careful.suffix_of_consumed {looked : Bool} (hh : h.Careful looked) {s : Session} {t : Token}
    {y : List Char} (hy : (t, y) ∈ h.consumed s) : y <:+ s.cursor.rest := by
  induction h generalizing s looked with
  | done a => cases hy
  | reraise e => exact hh.elim
  | abort why => cases hy
  | peek branch candidates k ih =>
    obtain ⟨-, -, hnone, hsome⟩ := hh
    simp only [consumed] at hy
    rw [← s.peek_cursor branch candidates]
    cases ht : (s.peek branch candidates).1 with
    | none => exact ih _ hnone (ht ▸ hy)
    | some t => exact ih _ (hsome t) (ht ▸ hy)
  | consume t' k ih =>
    obtain ⟨-, rfl⟩ := hh.eq_of_consumed hy
    exact List.suffix_refl _
  | fail tried k =>
    simp only [consumed, hh.1] at hy
    cases hy
  | invoke rule body k ihb ihk =>
    obtain hy | ⟨b, u, hr, hy⟩ := hh.consumed_invoke hy
    · exact (s.enter_rest rule ▸ ihb hh.1 hy).trans (settle_suffix _)
    · obtain ⟨hbody, -, hok⟩ := hh
      have later := ihk _ (hok b) hy
      have front := read_suffix (hbody.read_of_exec hr)
      rw [Session.leave_rest] at later
      rw [s.enter_rest] at front
      exact later.trans ((settle_suffix _).trans (front.trans (settle_suffix _)))
  | attempt rule body k => exact hh.elim

end Handler

end GrammarKit
