import GrammarKit.Proofs.Handler.Reading
import GrammarKit.Proofs.Handler.Visits
import GrammarKit.Proofs.Terminal
import GrammarKit.Proofs.Text.Offset

/-!
What handlers spend. An invocation costs one, and a token that is consumed pays for six of them, which
is as many as a rule begins before it consumes its first token. So what is spent beyond six for each
byte read is at most what the rule may begin with, and a rule that yields something has moved on.

Main statements: a handler that keeps within its means on paper does so on every session, and the
invocations of it that yield something have moved on, apart from those at the end of the text.
-/

namespace GrammarKit

namespace Rule

/-- How many invocations a rule begins at most up to the first token that it consumes, its own among
them. For a whole grammar the one at the end of the text is counted as well. -/
def onset : Rule → Int
  | orExpr => 6
  | all | seqExpr => 5
  | occExpr => 4
  | atom | argItem | argVal | ruleSeq => 3
  | group | occ01Group | argsDef | argsGroup | argExpr | litVal | ruleDef => 2
  | _ => 1

/-- What a rule that yields something may spend beyond six for each byte read. The end of the text is
found without reading anything. -/
def yieldCost (r : Rule) : Int := if r = .textEnd then 1 else r.onset - 6

theorem yieldCost_nonpos {r : Rule} (h : r ≠ .textEnd) : r.yieldCost ≤ 0 := by
  rw [yieldCost, if_neg h]
  cases r <;> decide

theorem onset_le (r : Rule) : r.onset ≤ 6 := by
  cases r <;> decide

theorem yieldCost_le (r : Rule) : r.yieldCost ≤ 6 := by
  cases r <;> decide

end Rule

def Token.worth (t : Token) : Int := if t = .textEnd then 0 else 6

theorem length_le_byteLength (cs : List Char) : cs.length ≤ byteLength cs := by
  induction cs with
  | nil => exact Nat.le_refl _
  | cons c cs ih =>
    have := c.utf8Size_pos
    rw [List.length_cons, byteLength]
    omega

namespace Session

variable {s t u : Session}

/-- What has run in `s` and left `u` has moved on, and has made `cost` invocations at most beyond six
for each byte read. -/
structure Paid (s u : Session) (cost : Int) : Prop where
  size : s.invocations.size ≤ u.invocations.size
  offset : s.position.offset ≤ u.position.offset
  cost : (u.invocations.size : Int) - s.invocations.size ≤
    6 * ((u.position.offset : Int) - s.position.offset) + cost

namespace Paid

variable {cost cost' : Int}

theorem free (h : 0 ≤ cost) (invocations : u.invocations = s.invocations)
    (cursor : u.cursor = s.cursor) : Paid s u cost := by
  have offset : u.position = s.position := congrArg Cursor.position cursor
  constructor
  · rw [invocations]
  · rw [offset]
  · rw [invocations, offset]
    omega

theorem mono (h : Paid s u cost) (le : cost ≤ cost') : Paid s u cost' :=
  ⟨h.size, h.offset, Int.le_trans h.cost (Int.add_le_add_left le _)⟩

theorem trans (h : Paid s t cost) (k : Paid t u cost') : Paid s u (cost + cost') where
  size := Nat.le_trans h.size k.size
  offset := Nat.le_trans h.offset k.offset
  cost := by
    have := h.cost
    have := k.cost
    omega

theorem read {t : Token} {n : Nat} (h : t.length? s.cursor.rest = some n) :
    Paid s { s with cursor := s.cursor.read n } (-t.worth) := by
  have offset : (s.cursor.read n).position.offset =
      s.cursor.position.offset + byteLength (s.cursor.rest.take n) := by
    rw [Cursor.read, Position.after_offset]
  have bytes := length_le_byteLength (s.cursor.rest.take n)
  rw [List.length_take_of_le (Token.length?_le h)] at bytes
  constructor
  · exact Nat.le_refl _
  · exact Cursor.offset_le_read _ _
  · dsimp only [position]
    rw [offset, Token.worth]
    split
    · omega
    · have := Token.length?_pos ‹_› h
      omega

theorem invoke {α : Type} {rule : Rule} {result : Except FailureId α}
    (h : Paid (s.enter rule).2 t (cost - 1)) :
    Paid s (t.leave (s.enter rule).1 result) cost := by
  have begins : s.position.offset ≤ (s.enter rule).2.position.offset := Cursor.offset_le_read _ _
  have ends : t.position.offset ≤ (t.leave (s.enter rule).1 result).position.offset := by
    rw [position, position, leave_cursor]
    exact Cursor.offset_le_read _ _
  obtain ⟨size, offset, paid⟩ := h
  rw [enter_size] at size paid
  constructor
  · rw [leave_invocations]
    exact Nat.le_of_succ_le size
  · omega
  · rw [leave_invocations]
    omega

end Paid

end Session

namespace Handler

open Session

variable {α β : Type} {h : Handler α} {f : α → Handler β} {good bad : Int}

/-- The handler spends `good` at most where it yields something, and `bad` where it fails. -/
@[simp] def Spends {α : Type} : Handler α → Int → Int → Prop
  | done _, good, _ => 0 ≤ good
  | reraise _, _, bad => 0 ≤ bad
  | abort _, _, _ => True
  | peek _ _ k, good, bad => ∀ t, (k t).Spends good bad
  | consume t k, good, bad =>
    (∀ l, (k (.ok l)).Spends (good + t.worth) (bad + t.worth)) ∧
      ∀ e, (k (.error e)).Spends good bad
  | fail _ k, good, bad => ∀ e, (k e).Spends good bad
  | invoke rule body k, good, bad =>
    body.Spends (rule.yieldCost - 1) (rule.onset - 1) ∧
      (∀ b, (k (.ok b)).Spends (good - rule.yieldCost) (bad - rule.yieldCost)) ∧
      ∀ e, (k (.error e)).Spends (good - rule.onset) (bad - rule.onset)
  | attempt _ _ _, _, _ => False

theorem Spends.mono {good' bad' : Int} (hh : h.Spends good bad) (hgood : good ≤ good')
    (hbad : bad ≤ bad') : h.Spends good' bad' := by
  induction h generalizing good bad good' bad' with
  | done a => exact Int.le_trans hh hgood
  | reraise e => exact Int.le_trans hh hbad
  | abort why => trivial
  | peek branch candidates k ih => exact fun t => ih t (hh t) hgood hbad
  | consume t k ih =>
    refine ⟨fun l => ih _ (hh.1 l) ?_ ?_, fun e => ih _ (hh.2 e) hgood hbad⟩
    · exact Int.add_le_add_right hgood _
    · exact Int.add_le_add_right hbad _
  | fail tried k ih => exact fun e => ih e (hh e) hgood hbad
  | invoke rule body k _ ih =>
    obtain ⟨hbody, hok, herr⟩ := hh
    refine ⟨hbody, fun b => ih _ (hok b) ?_ ?_, fun e => ih _ (herr e) ?_ ?_⟩
    · exact Int.sub_le_sub_right hgood _
    · exact Int.sub_le_sub_right hbad _
    · exact Int.sub_le_sub_right hgood _
    · exact Int.sub_le_sub_right hbad _
  | attempt rule body k => exact hh.elim

def Frugal (h : Handler α) (rule : Rule) : Prop := h.Spends (rule.yieldCost - 1) (rule.onset - 1)

def budget (good bad : Int) : Except FailureId α → Int
  | .ok _ => good
  | .error _ => bad

theorem add_budget_sub (good bad cost : Int) (r : Except FailureId α) :
    cost + budget (good - cost) (bad - cost) r = budget good bad r := by
  have same (n : Int) : cost + (n - cost) = n := by omega
  cases r with
  | ok a => exact same good
  | error e => exact same bad

theorem Spends.paid (hh : h.Spends good bad) {s u : Session} {r : Except FailureId α}
    (hr : h.exec s = .ok (r, u)) : Paid s u (budget good bad r) := by
  induction h generalizing s u good bad with
  | done a =>
    cases hr
    exact .free hh rfl rfl
  | reraise e =>
    cases hr
    exact .free hh rfl rfl
  | abort why => cases hr
  | peek branch candidates k ih =>
    have looked : Paid s (s.peek branch candidates).2 0 := .free (Int.le_refl 0) (by simp) (by simp)
    rw [← Int.zero_add (budget good bad r)]
    exact looked.trans (ih _ (hh _) hr)
  | consume t k ih =>
    cases hn : t.length? s.cursor.rest with
    | none =>
      simp only [exec, s.consume_of_miss hn] at hr
      have failed : Paid s (s.fail [t]).2 0 := .free (Int.le_refl 0) rfl rfl
      rw [← Int.zero_add (budget good bad r)]
      exact failed.trans (ih _ (hh.2 _) hr)
    | some n =>
      simp only [exec, s.consume_of_hit hn] at hr
      have spent := hh.1 (s.cursor.rest.take n)
      rw [← Int.sub_neg, ← Int.sub_neg] at spent
      rw [← add_budget_sub good bad (-t.worth)]
      exact (Paid.read hn).trans (ih _ spent hr)
  | fail tried k ih =>
    have failed : Paid s (s.fail tried).2 0 := .free (Int.le_refl 0) rfl rfl
    rw [← Int.zero_add (budget good bad r)]
    exact failed.trans (ih _ (hh _) hr)
  | invoke rule body k ihb ih =>
    obtain ⟨hbody, hok, herr⟩ := hh
    obtain ⟨b, t, hb, hr⟩ := exec_invoke_eq_ok hr
    have inner := ihb hbody hb
    cases b with
    | ok b =>
      rw [← add_budget_sub good bad rule.yieldCost]
      exact (Paid.invoke inner).trans (ih _ (hok b) hr)
    | error e =>
      rw [← add_budget_sub good bad rule.onset]
      exact (Paid.invoke inner).trans (ih _ (herr e) hr)
  | attempt rule body k => exact hh.elim

/-- A body that yields something has moved on: otherwise it would have spent more than nothing. -/
theorem Frugal.offset_lt {rule : Rule} (hh : h.Frugal rule) (ne : rule ≠ .textEnd) {s t : Session}
    {a : α} (ha : h.exec s = .ok (.ok a, t)) : s.position.offset < t.position.offset := by
  obtain ⟨size, -, cost⟩ := Spends.paid hh ha
  have cheap := Rule.yieldCost_nonpos ne
  dsimp only [budget] at cost
  omega

/-- What yields something has moved on, apart from the end of the text. -/
theorem Spends.visits_advance (hh : h.Spends good bad) (s : Session) :
    ∀ v ∈ h.visits s, v.rule ≠ .textEnd → ∀ p ∈ v.left, v.entry.offset < p.offset := by
  induction h generalizing s good bad with
  | done a => exact nofun
  | reraise e => exact nofun
  | abort why => exact nofun
  | peek branch candidates k ih => exact ih _ (hh _) _
  | consume t k ih =>
    cases hn : t.length? s.cursor.rest with
    | none =>
      simp only [visits, s.consume_of_miss hn]
      exact ih _ (hh.2 _) _
    | some n =>
      simp only [visits, s.consume_of_hit hn]
      exact ih _ (hh.1 _) _
  | fail tried k ih => exact ih _ (hh _) _
  | invoke rule body k ihb ih =>
    obtain ⟨hbody, hok, herr⟩ := hh
    intro v hv ne p hp
    simp only [visits, List.cons_append, List.mem_cons, List.mem_append] at hv
    rcases hv with rfl | hv | hv
    · cases hb : body.exec (s.enter rule).2 with
      | error why => simp [hb, leftAt] at hp
      | ok result =>
        obtain ⟨r, t⟩ := result
        cases r with
        | error e => simp [hb, leftAt] at hp
        | ok b =>
          simp only [hb, leftAt, Option.mem_def, Option.some.injEq] at hp
          rw [← hp]
          exact Frugal.offset_lt hbody ne hb
    · exact ihb hbody _ v hv ne p hp
    · split at hv
      · cases hv
      · rename_i b t hb
        cases b with
        | ok b => exact ih _ (hok b) _ v hv ne p hp
        | error e => exact ih _ (herr e) _ v hv ne p hp
  | attempt rule body k => exact hh.elim

@[simp] theorem spends_refuse (tried : List Token) :
    (refuse tried : Handler α).Spends good bad ↔ 0 ≤ bad := by
  simp [refuse]

@[simp] theorem spends_ite (c : Prop) [Decidable c] (a b : Handler α) :
    (if c then a else b).Spends good bad ↔
      (c → a.Spends good bad) ∧ (¬c → b.Spends good bad) := by
  split <;> simp_all

@[simp] theorem spends_call_bind (rule : Rule) (body : Handler α) :
    ((call rule body).bind f).Spends good bad ↔
      body.Frugal rule ∧ rule.onset ≤ bad ∧
        ∀ a, (f a).Spends (good - rule.yieldCost) (bad - rule.yieldCost) := by
  simp [call, bind, ofExcept, Frugal, and_comm]

@[simp] theorem spends_call (rule : Rule) (body : Handler α) :
    (call rule body).Spends good bad ↔
      body.Frugal rule ∧ rule.onset ≤ bad ∧ (α → rule.yieldCost ≤ good) := by
  rw [← bind_done (call rule body), spends_call_bind]
  simp

@[simp] theorem spends_look_bind (candidates : List Token) (f : Option Token → Handler β) :
    ((look candidates).bind f).Spends good bad ↔ ∀ t, (f t).Spends good bad := Iff.rfl

@[simp] theorem spends_lookBranch_bind (candidates : List Token) (f : Option Token → Handler β) :
    ((lookBranch candidates).bind f).Spends good bad ↔ ∀ t, (f t).Spends good bad := Iff.rfl

@[simp] theorem spends_expect_bind (candidates : List Token) (f : Token → Handler β) :
    ((expect candidates).bind f).Spends good bad ↔ 0 ≤ bad ∧ ∀ t, (f t).Spends good bad := by
  constructor
  · intro spends
    exact ⟨(spends_refuse []).1 (spends none), fun t => spends (some t)⟩
  · rintro ⟨miss, hit⟩ (_ | t)
    · exact (spends_refuse []).2 miss
    · exact hit t

@[simp] theorem spends_lexeme_bind (t : Token) (f : List Char → Handler β) :
    ((lexeme t).bind f).Spends good bad ↔
      (∀ l, (f l).Spends (good + t.worth) (bad + t.worth)) ∧ 0 ≤ bad := by
  simp [lexeme, bind, ofExcept]

end Handler

end GrammarKit
