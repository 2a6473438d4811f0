import GrammarKit.Proofs.Handler.Careful
import GrammarKit.Proofs.Session.Refusal

/-!
What has been looked for where a handler refuses. A failure names the tokens of the last looks alone,
though others may have been looked for at the same place before, and found. A survey follows a handler
like a reading does, and keeps account of whether a failure here and now would name all of them.

Main statements: surveying and reading come to the same, and a failure that is raised when a handler is
executed names the tokens that the survey ends with.
-/

namespace GrammarKit

structure Sight where
  tried : List Token
  /-- There were no others, and none of them was found. -/
  whole : Bool
  deriving DecidableEq

namespace Sight

def fresh : Sight := ⟨[], true⟩

def found : Sight := ⟨[], false⟩

/-- What is left of a sight when the candidates are not found either. -/
def miss (s : Sight) (branch : Bool) (candidates : List Token) : Sight where
  tried := if branch then s.tried ++ candidates else candidates
  whole := s.whole && (branch || s.tried.isEmpty)

def named (s : Sight) (tried : List Token) : Sight :=
  if tried.isEmpty then s else ⟨tried, s.whole && s.tried.isEmpty⟩

end Sight

inductive Survey (α : Type) where
  | yield (a : α) (sight : Sight) (rest : List Char)
  | refuse (sight : Sight) (rest : List Char)
  | abort (why : Abort)

namespace Survey

variable {α β : Type}

def reading : Survey α → Reading α
  | yield a _ cs => .yield a cs
  | refuse _ cs => .refuse cs
  | abort why => .abort why

def bind : Survey α → (α → Sight → List Char → Survey β) → Survey β
  | yield a s cs, f => f a s cs
  | refuse s cs, _ => refuse s cs
  | abort why, _ => abort why

def settled : Survey α → Survey α
  | yield a s cs => yield a s (settle cs)
  | refuse s cs => refuse s (settle cs)
  | abort why => abort why

theorem reading_settled (o : Survey α) : o.settled.reading = o.reading.settled := by
  cases o <;> rfl

theorem reading_eq_yield {o : Survey α} {a : α} {cs : List Char} :
    o.reading = .yield a cs ↔ ∃ s, o = yield a s cs := by
  cases o <;> simp [reading]

end Survey

namespace Handler

variable {α β : Type}

@[simp] def survey {α : Type} : Handler α → Sight → List Char → Survey α
  | done a, s, cs => .yield a s cs
  | reraise _, s, cs => .refuse s cs
  | abort why, _, _ => .abort why
  | peek branch candidates k, s, cs =>
    match candidates.find? (Token.startsAt cs) with
    | some t => (k (some t)).survey .found cs
    | none => (k none).survey (s.miss branch candidates) cs
  | consume t k, s, cs =>
    match t.length? cs with
    | some n => (k (.ok (cs.take n))).survey (if n = 0 then .found else .fresh) (cs.drop n)
    | none => .refuse (s.named [t]) cs
  | fail tried _, s, cs => .refuse (s.named tried) cs
  | invoke _ body k, s, cs =>
    match (body.survey s (settle cs)).settled with
    | .yield b s cs => (k (.ok b)).survey s cs
    | .refuse s cs => .refuse s cs
    | .abort why => .abort why
  | attempt _ body k, s, cs =>
    match (body.survey s (settle cs)).settled with
    | .yield b s cs => (k (some b)).survey s cs
    | .refuse _ _ => (k none).survey .found cs
    | .abort why => .abort why

/-- Surveying and reading come to the same. -/
theorem reading_survey (h : Handler α) (s : Sight) (cs : List Char) :
    (h.survey s cs).reading = h.read cs := by
  induction h generalizing s cs with
  | done a => rfl
  | reraise e => rfl
  | abort why => rfl
  | peek branch candidates k ih =>
    simp only [survey, read]
    cases candidates.find? (Token.startsAt cs) with
    | none => exact ih none _ cs
    | some t => exact ih (some t) _ cs
  | consume t k ih =>
    simp only [survey, read]
    cases t.length? cs with
    | none => rfl
    | some n => exact ih _ _ _
  | fail tried k => rfl
  | invoke rule body k ihb ihk =>
    simp only [survey, read, ← ihb s, ← Survey.reading_settled]
    cases (body.survey s (settle cs)).settled with
    | yield b s cs => exact ihk _ _ _
    | refuse s cs => rfl
    | abort why => rfl
  | attempt rule body k ihb ihk =>
    simp only [survey, read, ← ihb s, ← Survey.reading_settled]
    cases (body.survey s (settle cs)).settled with
    | yield b s cs => exact ihk _ _ _
    | refuse s cs => exact ihk _ _ _
    | abort why => rfl

/-- Where a survey fails, the reading does. -/
theorem read_of_survey {h : Handler α} {s last : Sight} {cs y : List Char}
    (hs : h.survey s cs = .refuse last y) : h.read cs = .refuse y := by
  rw [← reading_survey h s cs, hs]
  rfl

/-- A failure that is raised names what the survey ends with. -/
theorem Careful.survey_of_exec {h : Handler α} {looked : Bool} (hh : h.Careful looked) {s u : Session}
    {sight : Sight} (tried : looked = true → s.tried = some sight.tried) {e : FailureId}
    (hr : h.exec s = .ok (.error e, u)) :
    ∃ last, h.survey sight s.cursor.rest = .refuse last u.cursor.rest ∧
      ∃ f, u.failures[e]? = some f ∧ f.tried = last.tried := by
  induction h generalizing s u sight looked with
  | done a => cases hr
  | reraise e => exact hh.elim
  | abort why => cases hr
  | peek branch candidates k ih =>
    obtain ⟨-, further, hnone, hsome⟩ := hh
    have looks := s.peek_fst branch candidates
    simp only [exec] at hr
    simp only [survey, ← looks]
    rw [← s.peek_cursor branch candidates]
    cases ht : (s.peek branch candidates).1 with
    | none =>
      rw [ht] at hr looks
      refine ih none hnone (fun _ => ?_) hr
      rw [s.peek_tried_of_miss looks.symm]
      cases branch with
      | false => rfl
      | true => rw [tried (further rfl)]; rfl
    | some t =>
      rw [ht] at hr
      exact ih (some t) (hsome t) (absurd · Bool.false_ne_true) hr
  | consume t k ih =>
    rcases hh.exec_consume hr with ⟨hn, missed, rfl⟩ | ⟨n, a, -, read, -⟩
    · cases missed
      exact ⟨_, by rw [survey, hn]; rfl, _, Session.get?_fail s [t], rfl⟩
    · cases read
  | fail tried' k ih =>
    obtain ⟨rfl, rfl, failed, rfl⟩ := hh.exec_fail hr
    cases failed
    refine ⟨_, rfl, _, Session.get?_fail s [], ?_⟩
    show s.tried.getD [] = _
    rw [tried rfl]
    rfl
  | invoke rule body k ihb ihk =>
    obtain ⟨b, t, hb, rest⟩ := hh.exec_invoke hr
    obtain ⟨hbody, -, hok⟩ := hh
    simp only [survey]
    rcases rest with ⟨e', rfl, failed, rfl⟩ | ⟨b, rfl, hr⟩
    · cases failed
      obtain ⟨last, hlast, f, hf, named⟩ := ihb hbody (absurd · Bool.false_ne_true) hb
      rw [← s.enter_rest rule, hlast, Session.leave_rest]
      exact ⟨last, rfl, f, by rwa [Session.leave_failures], named⟩
    · have hview := view_exec hbody (s.enter rule).2
      rw [hb, ← reading_survey body sight] at hview
      obtain ⟨inner, hinner⟩ := Survey.reading_eq_yield.1 hview.symm
      rw [← s.enter_rest rule, hinner]
      simp only [Survey.settled]
      rw [← Session.leave_rest t (s.enter rule).1 (.ok b : Except FailureId _)]
      exact ihk (.ok b) (hok b) (absurd · Bool.false_ne_true) hr
  | attempt rule body k => exact hh.elim

end Handler

end GrammarKit
