import GrammarKit.Proofs.Handler.Consumed
import GrammarKit.Proofs.Handler.Trimming
import GrammarKit.Proofs.Spacer
import GrammarKit.Proofs.Terminal

/-!
Ends of a text that may stand for one another. In front of either the same tokens stand, so what is
read up to there is the same; and if a token is consumed where they begin, and it leaves the same
behind it, then a handler comes to the same on both.
-/

namespace GrammarKit

/-- Each of the ends begins with a token, and no token in front of them tells them apart. -/
structure Interchangeable (y y' : List Char) : Prop where
  nonempty : y ≠ []
  settled : Settled y'
  startsAt : ∀ p, Token.startsAt (p ++ y) = Token.startsAt (p ++ y')
  length? : ∀ {p t n}, Token.length? t (p ++ y) = some n → n ≤ p.length →
    Token.length? t (p ++ y') = some n

def Bridges (t : Token) (y y' : List Char) : Prop :=
  ∃ lexeme lexeme' z, t.Takes y lexeme z ∧ t.Takes y' lexeme' z ∧
    trimEnd lexeme = trimEnd lexeme' ∧ (t ≠ .ruleRef → lexeme = lexeme')

namespace Handler

variable {α β : Type} {h : Handler α} {body : Handler β} {looked : Bool} {p q y y' : List Char}

theorem settled_read_interchange (ends : Interchangeable y y')
    (reads : ∀ {p q b}, body.read (p ++ y) = .yield b (q ++ y) →
      body.read (p ++ y') = .yield b (q ++ y')) {b : β} {w : List Char}
    (hb : body.read (settle (p ++ y)) = .yield b w) (hw : settle w = q ++ y) :
    (body.read (settle (p ++ y'))).settled = .yield b (q ++ y') := by
  have left : y <:+ w := List.IsSuffix.trans ⟨q, hw.symm⟩ (settle_suffix w)
  obtain ⟨front, hfront⟩ := left.trans (read_suffix hb)
  obtain ⟨behind, rfl⟩ := left
  rw [← hfront] at hb
  rw [settle_behind hfront.symm ends.nonempty ends.settled, reads hb, Reading.settled,
    settle_behind hw ends.nonempty ends.settled]

/-- A token that ends in front of the place is consumed as before. -/
theorem Careful.consume_interchange {t : Token} {k : Except FailureId (List Char) → Handler α}
    (hh : (consume t k).Careful looked) (ends : Interchangeable y y') {a : α}
    (hr : (consume t k).read (p ++ y) = .yield a (q ++ y)) :
    (consume t k).read (p ++ y') = .yield a (q ++ y') := by
  obtain ⟨-, hok⟩ := hh
  cases hn : t.length? (p ++ y) with
  | none =>
    simp only [read, hn] at hr
    cases hr
  | some n =>
    simp only [read, hn] at hr
    have inside : n ≤ p.length := by
      have left := (read_suffix hr).length_le
      have le := Token.length?_le hn
      rw [List.length_drop, List.length_append, List.length_append] at left
      rw [List.length_append] at le
      omega
    have last := hok _ n hn
    simp only [read, ends.length? hn inside]
    rw [List.take_append_of_le_length inside] at hr last ⊢
    rw [List.drop_append_of_le_length inside] at hr ⊢
    rcases last.cases with ⟨b, hb⟩ | ⟨why, hw⟩
    · rw [hb] at hr ⊢
      simpa using hr
    · rw [hw] at hr
      cases hr

/-- What ends in front of the place is read as before. -/
theorem Careful.read_interchange (hh : h.Careful looked) (ends : Interchangeable y y') {a : α}
    (hr : h.read (p ++ y) = .yield a (q ++ y)) : h.read (p ++ y') = .yield a (q ++ y') := by
  induction h generalizing p q looked with
  | done b =>
    simp only [read, Reading.yield.injEq, List.append_cancel_right_eq] at hr ⊢
    exact hr
  | reraise e => exact hh.elim
  | abort why => cases hr
  | peek branch candidates k ih =>
    obtain ⟨-, -, hnone, hsome⟩ := hh
    simp only [read] at hr ⊢
    rw [← ends.startsAt p]
    cases ht : candidates.find? (Token.startsAt (p ++ y)) with
    | none => exact ih none hnone (by rwa [ht] at hr)
    | some t => exact ih (some t) (hsome t) (by rwa [ht] at hr)
  | consume t k => exact hh.consume_interchange ends hr
  | fail tried k => cases hr
  | invoke rule body k ihb ihk =>
    obtain ⟨hbody, -, hok⟩ := hh
    simp only [read] at hr ⊢
    cases hb : body.read (settle (p ++ y)) with
    | yield b w =>
      rw [hb] at hr
      obtain ⟨front, hw⟩ := List.IsSuffix.trans ⟨q, rfl⟩ (read_suffix hr)
      rw [settled_read_interchange ends (ihb hbody) hb hw.symm]
      rw [Reading.settled, ← hw] at hr
      exact ihk (.ok b) (hok b) hr
    | refuse w =>
      rw [hb] at hr
      cases hr
    | abort why =>
      rw [hb] at hr
      cases hr
  | attempt rule body k => exact hh.elim

/-- A token that is consumed at the place comes to the same. -/
theorem Careful.settled_consume_eq {t : Token} {k : Except FailureId (List Char) → Handler α}
    (hh : (consume t k).Careful looked) (trims : (consume t k).Trims) (bridges : Bridges t y y') :
    ((consume t k).read y).settled = ((consume t k).read y').settled := by
  obtain ⟨-, hok⟩ := hh
  obtain ⟨lexeme, lexeme', z, takes, takes', trimmed, same⟩ := bridges
  obtain ⟨n, hn, rfl, rfl⟩ := takes
  obtain ⟨n', hn', rfl, hz⟩ := takes'
  simp only [read, hn, hn', ← trims.consume_eq trimmed same]
  rcases (hok _ n hn).cases with ⟨a, ha⟩ | ⟨why, hw⟩
  · rw [ha, read, read, Reading.settled, Reading.settled, hz]
  · rw [hw]
    rfl

/-- A handler that consumes a token at the place comes to the same. -/
theorem Careful.settled_read_eq (hh : h.Careful looked) (trims : h.Trims)
    (ends : Interchangeable y y') {t : Token} (bridges : Bridges t y y') {s : Session}
    (hrest : s.cursor.rest = p ++ y) (hy : (t, y) ∈ h.consumed s) :
    (h.read (p ++ y)).settled = (h.read (p ++ y')).settled := by
  induction h generalizing p s looked with
  | done a => cases hy
  | reraise e => exact hh.elim
  | abort why => cases hy
  | peek branch candidates k ih =>
    obtain ⟨-, -, hnone, hsome⟩ := hh
    have looks := s.peek_fst branch candidates
    simp only [consumed] at hy
    simp only [read]
    rw [← ends.startsAt p, ← hrest, ← looks, hrest]
    rw [← s.peek_cursor branch candidates] at hrest
    cases ht : (s.peek branch candidates).1 with
    | none => exact ih none hnone (trims _) hrest (ht ▸ hy)
    | some t => exact ih (some t) (hsome t) (trims _) hrest (ht ▸ hy)
  | consume t' k ih =>
    obtain ⟨rfl, place⟩ := hh.eq_of_consumed hy
    obtain rfl : p = [] := List.append_left_eq_self.1 (hrest.symm.trans place.symm)
    exact hh.settled_consume_eq trims bridges
  | fail tried k =>
    simp only [consumed, hh.1] at hy
    cases hy
  | invoke rule body k ihb ihk =>
    have taken := hh.consumed_invoke hy
    obtain ⟨hbody, -, hok⟩ := hh
    have entered := s.enter_rest rule
    rw [hrest] at entered
    simp only [read]
    obtain hy | ⟨b, u, hr, hy⟩ := taken
    · obtain ⟨front, hfront⟩ := hbody.suffix_of_consumed hy
      rw [entered] at hfront
      have same := ihb hbody trims.1 (entered.trans hfront.symm) hy
      rw [settle_behind hfront.symm ends.nonempty ends.settled, ← hfront, same]
    · have hb := hbody.read_of_exec hr
      rw [entered] at hb
      obtain ⟨front, hfront⟩ := (hok b).suffix_of_consumed hy
      rw [Session.leave_rest] at hfront
      rw [settled_read_interchange ends (fun hr => hbody.read_interchange ends hr) hb hfront.symm,
        hb, Reading.settled, ← hfront]
      exact ihk (.ok b) (hok b) (trims.2 _) (by rw [Session.leave_rest, hfront]) hy
  | attempt rule body k => exact hh.elim

end Handler

end GrammarKit
