import GrammarKit.Proofs.Handler.Reading
import GrammarKit.Proofs.Session.Operation

/-!
Careful handlers. They pass on every failure they are handed, they consume a token only as the last
thing they do, and they refuse only where they have just looked in vain. Of such a handler the text
alone decides how it ends: executing it on a session agrees with reading.
-/

namespace GrammarKit

namespace Handler

variable {α β : Type}

def Ends {α : Type} : Handler α → Prop
  | done _ => True
  | abort _ => True
  | _ => False

/-- `looked` says that the tokens tried are known not to stand at the cursor, and that there are
some. -/
@[simp] def Careful {α : Type} : Handler α → Bool → Prop
  | done _, _ => True
  | reraise _, _ => False
  | abort _, _ => True
  | peek branch candidates k, looked =>
    candidates ≠ [] ∧ (branch = true → looked = true) ∧ (k none).Careful true ∧
      ∀ t, (k (some t)).Careful false
  | consume t k, _ =>
    (∀ e, k (.error e) = reraise e) ∧
      ∀ cs n, t.length? cs = some n → (k (.ok (cs.take n))).Ends
  | fail tried k, looked => (∀ e, k e = reraise e) ∧ tried = [] ∧ looked = true
  | invoke _ body k, _ =>
    body.Careful false ∧ (∀ e, k (.error e) = reraise e) ∧ ∀ b, (k (.ok b)).Careful false
  | attempt _ _ _, _ => False

theorem Ends.cases {h : Handler α} (hh : h.Ends) : (∃ a, h = done a) ∨ ∃ why, h = abort why := by
  cases h with
  | done a => exact .inl ⟨a, rfl⟩
  | abort why => exact .inr ⟨why, rfl⟩
  | _ => exact hh.elim

section Inversion

variable {looked : Bool} {s u : Session} {r : Except FailureId α}

/-- A careful handler ends with the token that it consumes, or without it. -/
theorem Careful.exec_consume {t : Token} {k : Except FailureId (List Char) → Handler α}
    (hh : (consume t k).Careful looked) (hr : (consume t k).exec s = .ok (r, u)) :
    (t.length? s.cursor.rest = none ∧ r = .error (s.fail [t]).1 ∧ u = (s.fail [t]).2) ∨
      ∃ n a, t.length? s.cursor.rest = some n ∧ r = .ok a ∧
        u = { s with cursor := s.cursor.read n } := by
  obtain ⟨herr, hok⟩ := hh
  cases hn : t.length? s.cursor.rest with
  | none =>
    simp only [exec, s.consume_of_miss hn, herr] at hr
    cases hr
    exact .inl ⟨rfl, rfl, rfl⟩
  | some n =>
    simp only [exec, s.consume_of_hit hn] at hr
    rcases (hok _ n hn).cases with ⟨a, ha⟩ | ⟨why, hw⟩
    · rw [ha] at hr
      cases hr
      exact .inr ⟨n, a, rfl, rfl, rfl⟩
    · rw [hw] at hr
      cases hr

theorem Careful.exec_fail {tried : List Token} {k : FailureId → Handler α}
    (hh : (fail tried k).Careful looked) (hr : (fail tried k).exec s = .ok (r, u)) :
    looked = true ∧ tried = [] ∧ r = .error (s.fail []).1 ∧ u = (s.fail []).2 := by
  obtain ⟨hk, rfl, rfl⟩ := hh
  simp only [exec, hk] at hr
  cases hr
  exact ⟨rfl, rfl, rfl, rfl⟩

theorem Careful.exec_invoke {rule : Rule} {body : Handler β} {k : Except FailureId β → Handler α}
    (hh : (invoke rule body k).Careful looked) (hr : (invoke rule body k).exec s = .ok (r, u)) :
    ∃ b t, body.exec (s.enter rule).2 = .ok (b, t) ∧
      ((∃ e, b = .error e ∧ r = .error e ∧ u = t.leave (s.enter rule).1 b) ∨
        ∃ a, b = .ok a ∧ (k (.ok a)).exec (t.leave (s.enter rule).1 b) = .ok (r, u)) := by
  obtain ⟨-, herr, -⟩ := hh
  obtain ⟨b, t, hb, hr⟩ := exec_invoke_eq_ok hr
  refine ⟨b, t, hb, ?_⟩
  cases b with
  | ok a => exact .inr ⟨a, rfl, hr⟩
  | error e =>
    rw [herr] at hr
    cases hr
    exact .inl ⟨e, rfl, rfl, rfl⟩

end Inversion

def view : Result α → Reading α
  | .ok (.ok a, s) => .yield a s.cursor.rest
  | .ok (.error _, s) => .refuse s.cursor.rest
  | .error why => .abort why

/-- Executing a careful handler does to the text what reading it does. -/
theorem view_exec {h : Handler α} {looked : Bool} (hh : h.Careful looked) (s : Session) :
    view (h.exec s) = h.read s.cursor.rest := by
  induction h generalizing s looked with
  | done a => rfl
  | reraise e => exact hh.elim
  | abort why => rfl
  | peek branch candidates k ih =>
    obtain ⟨-, -, hnone, hsome⟩ := hh
    simp only [exec, read]
    rw [← s.peek_fst branch candidates, ← s.peek_cursor branch candidates]
    cases ht : (s.peek branch candidates).1 with
    | none => exact ih none hnone _
    | some t => exact ih (some t) (hsome t) _
  | consume t k ih =>
    obtain ⟨herr, hok⟩ := hh
    cases hn : t.length? s.cursor.rest with
    | none => simp [exec, read, hn, s.consume_of_miss hn, herr, view]
    | some n =>
      simp only [exec, read, hn, s.consume_of_hit hn]
      rcases (hok _ n hn).cases with ⟨a, ha⟩ | ⟨why, hw⟩
      · rw [ha]
        rfl
      · rw [hw]
        rfl
  | fail tried k ih => simp [exec, read, hh.1, view]
  | invoke rule body k ihb ihk =>
    obtain ⟨hbody, herr, hok⟩ := hh
    have hb := ihb hbody (s.enter rule).2
    simp only [exec, read]
    rw [← s.enter_rest rule, ← hb]
    cases hr : body.exec (s.enter rule).2 with
    | error why => rfl
    | ok r =>
      obtain ⟨r, u⟩ := r
      cases r with
      | error e => simp [herr, exec, view, Reading.settled]
      | ok b =>
        have hk := ihk (.ok b) (hok b) (u.leave (s.enter rule).1 (.ok b))
        rw [Session.leave_rest] at hk
        exact hk
  | attempt rule body k => exact hh.elim

theorem Careful.settled_of_refuse {h : Handler α} {looked : Bool} (hh : h.Careful looked)
    {cs v : List Char} (hcs : Settled cs) (hr : h.read cs = .refuse v) : Settled v := by
  induction h generalizing cs looked with
  | done a => cases hr
  | reraise e => exact hh.elim
  | abort why => cases hr
  | peek branch candidates k ih =>
    obtain ⟨-, -, hnone, hsome⟩ := hh
    simp only [read] at hr
    cases ht : candidates.find? (Token.startsAt cs) with
    | none => exact ih none hnone hcs (by rwa [ht] at hr)
    | some t => exact ih (some t) (hsome t) hcs (by rwa [ht] at hr)
  | consume t k ih =>
    obtain ⟨-, hok⟩ := hh
    cases hn : t.length? cs with
    | none =>
      simp only [read, hn, Reading.refuse.injEq] at hr
      rwa [← hr]
    | some n =>
      simp only [read, hn] at hr
      rcases (hok _ n hn).cases with ⟨a, ha⟩ | ⟨why, hw⟩
      · rw [ha] at hr
        cases hr
      · rw [hw] at hr
        cases hr
  | fail tried k ih =>
    simp only [read, Reading.refuse.injEq] at hr
    rwa [← hr]
  | invoke rule body k ihb ihk =>
    obtain ⟨hbody, -, hok⟩ := hh
    cases hb : body.read (settle cs) with
    | yield b y =>
      simp only [read, hb, Reading.settled] at hr
      exact ihk (.ok b) (hok b) (settled_settle y) hr
    | refuse y =>
      simp only [read, hb, Reading.settled, Reading.refuse.injEq] at hr
      rw [← hr]
      exact settled_settle y
    | abort why => simp [read, hb, Reading.settled] at hr
  | attempt rule body k => exact hh.elim

end Handler

end GrammarKit
