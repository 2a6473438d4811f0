import GrammarKit.Proofs.Handler.Careful

/-!
The ways in which a careful handler goes through: it looks around and raises failures, consumes a token
at most, at its very end, and runs the bodies of invocations. What a session keeps along every such
way it keeps whichever handler runs.
-/

namespace GrammarKit

namespace Handler

open Session

/-- What runs in `s` ends with `r` and leaves `u`. `looked` says that something was just looked for in
vain. -/
inductive Runs : {α : Type} → Bool → Session → Except FailureId α → Session → Prop
  | done {α looked} (s : Session) (a : α) : Runs looked s (.ok a) s
  | hit {α looked s u} {r : Except FailureId α} {branch candidates}
      (rest : Runs false (s.peek branch candidates).2 r u) : Runs looked s r u
  | miss {α looked s u} {r : Except FailureId α} {branch candidates} (nonempty : candidates ≠ [])
      (further : branch = true → looked = true)
      (none : candidates.find? (Token.startsAt s.cursor.rest) = none)
      (rest : Runs true (s.peek branch candidates).2 r u) : Runs looked s r u
  | read {α looked} (s : Session) (n : Nat) (a : α) :
      Runs looked s (.ok a) { s with cursor := s.cursor.read n }
  | unread {α looked s} {t : Token} (none : t.length? s.cursor.rest = none) :
      Runs looked s (.error (s.fail [t]).1 : Except FailureId α) (s.fail [t]).2
  | refuse {α} (s : Session) :
      Runs true s (.error (s.fail []).1 : Except FailureId α) (s.fail []).2
  | failed {α β looked s t e} {rule : Rule}
      (body : Runs false (s.enter rule).2 (.error e : Except FailureId β) t) :
      Runs looked s (.error e : Except FailureId α)
        (t.leave (s.enter rule).1 (.error e : Except FailureId β))
  | invoked {α β looked s t u} {r : Except FailureId α} {b : β} {rule : Rule}
      (body : Runs false (s.enter rule).2 (.ok b) t)
      (rest : Runs false (t.leave (s.enter rule).1 (.ok b)) r u) : Runs looked s r u

theorem Careful.runs {α : Type} {h : Handler α} {looked : Bool} (hh : h.Careful looked)
    {s u : Session} {r : Except FailureId α} (hr : h.exec s = .ok (r, u)) : Runs looked s r u := by
  induction h generalizing s u looked with
  | done a =>
    cases hr
    exact .done s a
  | reraise e => exact hh.elim
  | abort why => cases hr
  | peek branch candidates k ih =>
    obtain ⟨nonempty, further, hnone, hsome⟩ := hh
    have looks := s.peek_fst branch candidates
    simp only [exec] at hr
    cases ht : (s.peek branch candidates).1 with
    | none =>
      rw [ht] at hr looks
      exact .miss nonempty further looks.symm (ih none hnone hr)
    | some t =>
      rw [ht] at hr
      exact .hit (ih (some t) (hsome t) hr)
  | consume t k ih =>
    rcases hh.exec_consume hr with ⟨hn, rfl, rfl⟩ | ⟨n, a, -, rfl, rfl⟩
    · exact .unread hn
    · exact .read s n a
  | fail tried k ih =>
    obtain ⟨rfl, -, rfl, rfl⟩ := hh.exec_fail hr
    exact .refuse s
  | invoke rule body k ihb ihk =>
    obtain ⟨b, t, hb, rest⟩ := hh.exec_invoke hr
    obtain ⟨hbody, -, hok⟩ := hh
    have inner := ihb hbody hb
    rcases rest with ⟨e, rfl, rfl, rfl⟩ | ⟨b, rfl, hr⟩
    · exact .failed inner
    · exact .invoked inner (ihk (.ok b) (hok b) hr)
  | attempt rule body k => exact hh.elim

end Handler

end GrammarKit
