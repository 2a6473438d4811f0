import GrammarKit.Proofs.Rule.Careful
import GrammarKit.Proofs.Session.Noted
import Mathlib.Data.List.Nodup

/-!
Failures that are noted twice. An invocation that fails compares its failure with the one noted last,
and every invocation that begins forgets which that was. So a body that keeps a failure for later, and
returns it when another invocation has begun, has it noted again.

Main statement: the failures noted go on without repetition exactly if all bodies return their failures
in time.
-/

namespace GrammarKit

namespace Session

variable {s t u : Session} {α : Type}

/-- A body that ends with a failure here ends with one that is not noted yet, or with the one noted
last where no invocation has begun since. -/
def Notable (s : Session) : Except FailureId α → Prop
  | .ok _ => True
  | .error e => e ∉ s.noted ∨ s.lastNoted = some e

theorem nodup_leave_iff (frame : Frame) (r : Except FailureId α) :
    (s.leave frame r).noted.toList.Nodup ↔ s.noted.toList.Nodup ∧ s.Notable r := by
  rw [leave_noted]
  cases r with
  | ok a => simp [Notable]
  | error e =>
    dsimp only [Notable]
    by_cases last : s.lastNoted = some e
    · simp [last]
    · rw [if_neg last, Array.toList_push, List.nodup_append_comm, List.singleton_append,
        List.nodup_cons, and_comm]
      simp [last]

end Session

namespace Handler

open Session

variable {α : Type} {s u : Session}

def Timely {α : Type} : Handler α → Session → Prop
  | done _, _ => True
  | reraise _, _ => True
  | abort _, _ => True
  | peek branch candidates k, s =>
    match s.peek branch candidates with
    | (t, s) => (k t).Timely s
  | consume t k, s =>
    match s.consume t with
    | (r, s) => (k r).Timely s
  | fail tried k, s =>
    match s.fail tried with
    | (e, s) => (k e).Timely s
  | invoke rule body k, s =>
    match s.enter rule with
    | (frame, s) =>
      body.Timely s ∧
        match body.exec s with
        | .error _ => True
        | .ok (r, s) => s.Notable r ∧ (k r).Timely (s.leave frame r)
  | attempt rule body k, s =>
    let start := s.cursor
    match s.enter rule with
    | (frame, s) =>
      body.Timely s ∧
        match body.exec s with
        | .error _ => True
        | .ok (r, s) =>
          s.Notable r ∧
            match r, s.leave frame r with
            | .ok b, s => (k (some b)).Timely s
            | .error _, s => (k none).Timely { s with cursor := start }

/-- Of the failures noted by a handler, one comes twice exactly if a body returned it too late. -/
theorem nodup_exec_iff {h : Handler α} {r : Except FailureId α} (hr : h.exec s = .ok (r, u)) :
    u.noted.toList.Nodup ↔ s.noted.toList.Nodup ∧ h.Timely s := by
  induction h generalizing s u with
  | done a =>
    cases hr
    simp [Timely]
  | reraise e =>
    cases hr
    simp [Timely]
  | abort why => cases hr
  | peek branch candidates k ih =>
    have rest := ih (s.peek branch candidates).1 (s := (s.peek branch candidates).2) hr
    rwa [peek_noted] at rest
  | consume t k ih =>
    have rest := ih (s.consume t).1 (s := (s.consume t).2) hr
    rwa [consume_noted] at rest
  | fail tried k ih => exact ih _ hr
  | invoke rule body k ihb ih =>
    obtain ⟨b, t, hb, hr⟩ := exec_invoke_eq_ok hr
    rw [ih _ hr, nodup_leave_iff, ihb hb, enter_noted]
    simp only [Timely, hb, and_assoc]
  | attempt rule body k ihb ih =>
    obtain ⟨b, t, hb, rest⟩ := exec_attempt_eq_ok hr
    have left := nodup_leave_iff (s := t) (s.enter rule).1 b
    rw [ihb hb, enter_noted, and_assoc] at left
    simp only [Timely, hb]
    -- The cursor is put back behind a failure, which concerns nothing that is noted.
    obtain ⟨a, rfl, hr⟩ | ⟨e, rfl, hr⟩ := rest
    · rw [ih _ hr, left, and_assoc, and_assoc]
    · rw [ih _ hr, ← and_assoc, ← and_assoc, and_assoc (b := Timely _ _), ← left]

/-- All bodies end only with a failure that they raised themselves, one of `own` in the outermost, or
with that of the call that they made last, which is `last` if nothing has begun since. -/
def Prompt {α : Type} : Handler α → List FailureId → Option FailureId → Prop
  | done _, _, _ => True
  | reraise e, own, last => e ∈ own ∨ last = some e
  | abort _, _, _ => True
  | peek _ _ k, own, last => ∀ t, (k t).Prompt own last
  | consume t k, own, last =>
    (∀ cs n, t.length? cs = some n → (k (.ok (cs.take n))).Prompt own last) ∧
      ∀ e, (k (.error e)).Prompt (e :: own) last
  | fail _ k, own, last => ∀ e, (k e).Prompt (e :: own) last
  | invoke _ body k, own, _ =>
    body.Prompt [] none ∧ (∀ b, (k (.ok b)).Prompt own none) ∧
      ∀ e, (k (.error e)).Prompt own (some e)
  | attempt _ body k, own, _ => body.Prompt [] none ∧ ∀ r, (k r).Prompt own none

theorem Ends.prompt {h : Handler α} (hh : h.Ends) (own : List FailureId) (last : Option FailureId) :
    h.Prompt own last := by
  obtain ⟨a, rfl⟩ | ⟨why, rfl⟩ := hh.cases
  all_goals trivial

/-- A careful handler passes on a failure as soon as it has it, so all rules are prompt. -/
theorem Careful.prompt {h : Handler α} {looked : Bool} (hh : h.Careful looked)
    (own : List FailureId) (last : Option FailureId) : h.Prompt own last := by
  induction h generalizing looked own last with
  | done a => trivial
  | reraise e => exact hh.elim
  | abort why => trivial
  | peek branch candidates k ih =>
    obtain ⟨-, -, miss, hit⟩ := hh
    rintro (_ | t)
    · exact ih _ miss own last
    · exact ih _ (hit t) own last
  | consume t k =>
    refine ⟨fun cs n hn => (hh.2 cs n hn).prompt own last, fun e => ?_⟩
    rw [hh.1 e]
    exact .inl (List.mem_cons_self ..)
  | fail tried k =>
    intro e
    rw [hh.1 e]
    exact .inl (List.mem_cons_self ..)
  | invoke rule body k ihb ih =>
    obtain ⟨hbody, passed, hk⟩ := hh
    refine ⟨ihb hbody [] none, fun b => ih _ (hk b) own none, fun e => ?_⟩
    rw [passed e]
    exact .inr rfl
  | attempt => exact hh.elim

theorem Prompt.call {body : Handler α} (hp : body.Prompt [] none) (rule : Rule)
    (own : List FailureId) (last : Option FailureId) : (call rule body).Prompt own last :=
  ⟨hp, fun _ => trivial, fun _ => .inr rfl⟩

end Handler

namespace Session

variable {s t u : Session} {own : List FailureId} {last : Option FailureId}

structure Abides (s : Session) (own : List FailureId) (last : Option FailureId) : Prop where
  noted : ∀ e ∈ s.noted, e < s.failures.size
  own : ∀ e ∈ own, e < s.failures.size ∧ e ∉ s.noted
  last : ∀ e, last = some e → e < s.failures.size ∧ s.lastNoted = some e

/-- What has run in `s` with these failures at hand has left `u`. It has noted only what was raised
since, and ends with one of those at hand or one raised since. -/
structure Follows {α : Type} (s u : Session) (own : List FailureId) (last : Option FailureId)
    (r : Except FailureId α) : Prop where
  failures : s.failures.size ≤ u.failures.size
  noted : ∀ e ∈ u.noted, e < u.failures.size ∧ (e ∈ s.noted ∨ s.failures.size ≤ e)
  notable : u.Notable r
  result : ∀ e, r = .error e →
    e < u.failures.size ∧ (e ∈ own ∨ last = some e ∨ s.failures.size ≤ e)

namespace Abides

theorem of_eq (h : Abides s own last) (failures : u.failures = s.failures)
    (noted : u.noted = s.noted) (lastNoted : u.lastNoted = s.lastNoted) : Abides u own last := by
  constructor
  · rw [noted, failures]
    exact h.noted
  · rw [noted, failures]
    exact h.own
  · rw [failures, lastNoted]
    exact h.last

theorem enter (h : Abides s own last) (rule : Rule) : Abides (s.enter rule).2 [] none where
  noted := h.noted
  own := nofun
  last := nofun

theorem fail (h : Abides s own last) (tried : List Token) :
    Abides (s.fail tried).2 ((s.fail tried).1 :: own) last where
  noted := by
    intro e he
    rw [fail_failures, Array.size_push]
    exact Nat.lt_succ_of_lt (h.noted e he)
  own := by
    rw [fail_failures, Array.size_push]
    refine List.forall_mem_cons.2 ⟨⟨Nat.lt_succ_self _, fun he => ?_⟩, fun e he => ?_⟩
    · exact Nat.lt_irrefl _ (h.noted _ he)
    · exact ⟨Nat.lt_succ_of_lt (h.own e he).1, (h.own e he).2⟩
  last := by
    intro e he
    rw [fail_failures, Array.size_push]
    exact ⟨Nat.lt_succ_of_lt (h.last e he).1, (h.last e he).2⟩

end Abides

namespace Follows

variable {α β : Type} {r : Except FailureId α} {b : Except FailureId β}

theorem of_eq (h : Follows t u own last r) (failures : t.failures = s.failures)
    (noted : t.noted = s.noted) : Follows s u own last r := by
  obtain ⟨le, since, notable, result⟩ := h
  rw [failures] at le since result
  rw [noted] at since
  exact ⟨le, since, notable, result⟩

theorem refl (h : Abides s own last) (notable : s.Notable r)
    (result : ∀ e, r = .error e → e ∈ own ∨ last = some e) : Follows s s own last r where
  failures := Nat.le_refl _
  noted := fun e he => ⟨h.noted e he, .inl he⟩
  notable := notable
  result := by
    intro e he
    rcases result e he with mem | same
    · exact ⟨(h.own e mem).1, .inl mem⟩
    · exact ⟨(h.last e same).1, .inr (.inl same)⟩

theorem of_fail {tried : List Token}
    (h : Follows (s.fail tried).2 u ((s.fail tried).1 :: own) last r) :
    Follows s u own last r := by
  obtain ⟨le, since, notable, result⟩ := h
  rw [fail_failures, Array.size_push] at le since result
  refine ⟨Nat.le_of_succ_le le, fun e he => ?_, notable, fun e he => ?_⟩
  · exact ⟨(since e he).1, (since e he).2.imp_right Nat.le_of_succ_le⟩
  · obtain ⟨held, mem | same | new⟩ := result e he
    · rcases List.mem_cons.1 mem with rfl | mem
      · exact ⟨held, .inr (.inr (Nat.le_refl _))⟩
      · exact ⟨held, .inl mem⟩
    · exact ⟨held, .inr (.inl same)⟩
    · exact ⟨held, .inr (.inr (Nat.le_of_succ_le new))⟩

variable {rule : Rule} {frame : Frame} {after : Option FailureId}

/-- What is noted when an invocation ends was noted before it or raised in it. -/
theorem noted_leave (h : Follows (s.enter rule).2 t [] none b) :
    ∀ e ∈ (t.leave frame b).noted, e < t.failures.size ∧ (e ∈ s.noted ∨ s.failures.size ≤ e) := by
  intro e he
  rcases mem_noted_leave he with before | ended
  · exact h.noted e before
  · obtain ⟨held, mem | same | new⟩ := h.result e ended
    · cases mem
    · cases same
    · exact ⟨held, .inr new⟩

/-- Behind an invocation its failure is at hand, in the place of the one that was noted last. -/
theorem abides_leave (h : Follows (s.enter rule).2 t [] none b) (hs : Abides s own last)
    (named : after = none ∨ ∃ e, after = some e ∧ b = .error e) :
    Abides (t.leave frame b) own after where
  noted := by
    intro e he
    rw [leave_failures]
    exact (h.noted_leave e he).1
  own := by
    intro e he
    obtain ⟨held, fresh⟩ := hs.own e he
    rw [leave_failures]
    refine ⟨Nat.lt_of_lt_of_le held h.failures, fun noted => ?_⟩
    rcases (h.noted_leave e noted).2 with before | since
    · exact fresh before
    · exact absurd held (Nat.not_lt.2 since)
  last := by
    intro e' he
    obtain rfl | ⟨e, rfl, rfl⟩ := named
    · cases he
    · cases he
      rw [leave_failures, leave_lastNoted]
      exact ⟨(h.result _ rfl).1, rfl⟩

theorem behind (h : Follows (s.enter rule).2 t [] none b)
    (named : after = none ∨ ∃ e, after = some e ∧ b = .error e)
    (k : Follows (t.leave frame b) u own after r) :
    Follows s u own last r := by
  obtain ⟨le, since, notable, result⟩ := k
  rw [leave_failures] at le since result
  have grown : s.failures.size ≤ t.failures.size := h.failures
  refine ⟨Nat.le_trans grown le, fun e he => ?_, notable, fun e he => ?_⟩
  · obtain ⟨held, before | new⟩ := since e he
    · exact ⟨held, (h.noted_leave e before).2⟩
    · exact ⟨held, .inr (Nat.le_trans grown new)⟩
  · obtain ⟨held, mem | same | new⟩ := result e he
    · exact ⟨held, .inl mem⟩
    · obtain rfl | ⟨e', rfl, rfl⟩ := named
      · cases same
      · cases same
        obtain ⟨-, mem | same | new⟩ := h.result _ rfl
        · cases mem
        · cases same
        · exact ⟨held, .inr (.inr new)⟩
    · exact ⟨held, .inr (.inr (Nat.le_trans grown new))⟩

end Follows

end Session

namespace Handler

open Session

variable {α : Type} {s : Session} {own : List FailureId} {last : Option FailureId}

/-- Failures that are returned promptly are returned in time. -/
theorem Prompt.timely_follows {h : Handler α} (hp : h.Prompt own last) (hs : Abides s own last) :
    h.Timely s ∧ ∀ r u, h.exec s = .ok (r, u) → Follows s u own last r := by
  induction h generalizing s own last with
  | done a =>
    refine ⟨trivial, ?_⟩
    rintro r u ⟨⟩
    exact .refl hs trivial nofun
  | reraise e =>
    refine ⟨trivial, ?_⟩
    rintro r u ⟨⟩
    refine .refl hs (hp.imp (fun mem => (hs.own e mem).2) fun same => (hs.last e same).2) ?_
    rintro e' ⟨⟩
    exact hp
  | abort why => exact ⟨trivial, nofun⟩
  | peek branch candidates k ih =>
    obtain ⟨timely, follows⟩ := ih (s.peek branch candidates).1 (hp _)
      (hs.of_eq (peek_failures ..) (peek_noted ..) (peek_lastNoted ..))
    exact ⟨timely, fun r u hr => (follows r u hr).of_eq (peek_failures ..) (peek_noted ..)⟩
  | consume t k ih =>
    cases hn : t.length? s.cursor.rest with
    | none =>
      obtain ⟨timely, follows⟩ := ih _ (hp.2 _) (hs.fail [t])
      simp only [Timely, exec, s.consume_of_miss hn]
      exact ⟨timely, fun r u hr => (follows r u hr).of_fail⟩
    | some n =>
      obtain ⟨timely, follows⟩ := ih _ (hp.1 _ n hn)
        (hs.of_eq (u := { s with cursor := s.cursor.read n }) rfl rfl rfl)
      simp only [Timely, exec, s.consume_of_hit hn]
      exact ⟨timely, fun r u hr => (follows r u hr).of_eq rfl rfl⟩
  | fail tried k ih =>
    obtain ⟨timely, follows⟩ := ih _ (hp _) (hs.fail tried)
    exact ⟨timely, fun r u hr => (follows r u hr).of_fail⟩
  | invoke rule body k ihb ih =>
    obtain ⟨hbody, hok, herr⟩ := hp
    obtain ⟨timely, follows⟩ := ihb hbody (hs.enter rule)
    simp only [Timely, exec]
    cases hb : body.exec (s.enter rule).2 with
    | error why => exact ⟨⟨timely, trivial⟩, fun r u hr => by cases hr⟩
    | ok result =>
      obtain ⟨b, t⟩ := result
      have inner := follows b t hb
      cases b with
      | ok b =>
        obtain ⟨rest, after⟩ := ih (.ok b) (hok b) (inner.abides_leave hs (.inl rfl))
        exact ⟨⟨timely, inner.notable, rest⟩, fun r u hr => inner.behind (.inl rfl) (after r u hr)⟩
      | error e =>
        obtain ⟨rest, after⟩ :=
          ih (.error e) (herr e) (inner.abides_leave hs (.inr ⟨e, rfl, rfl⟩))
        refine ⟨⟨timely, inner.notable, rest⟩, fun r u hr => ?_⟩
        exact inner.behind (.inr ⟨e, rfl, rfl⟩) (after r u hr)
  | attempt rule body k ihb ih =>
    obtain ⟨hbody, hk⟩ := hp
    obtain ⟨timely, follows⟩ := ihb hbody (hs.enter rule)
    simp only [Timely, exec]
    cases hb : body.exec (s.enter rule).2 with
    | error why => exact ⟨⟨timely, trivial⟩, fun r u hr => by cases hr⟩
    | ok result =>
      obtain ⟨b, t⟩ := result
      have inner := follows b t hb
      have left : Abides (t.leave (s.enter rule).1 b) own none := inner.abides_leave hs (.inl rfl)
      cases b with
      | ok b =>
        obtain ⟨rest, after⟩ := ih (some b) (hk _) left
        exact ⟨⟨timely, inner.notable, rest⟩, fun r u hr => inner.behind (.inl rfl) (after r u hr)⟩
      | error e =>
        obtain ⟨rest, after⟩ := ih none (hk _) (left.of_eq
          (u := { t.leave (s.enter rule).1 (.error e) with cursor := s.cursor }) rfl rfl rfl)
        refine ⟨⟨timely, inner.notable, rest⟩, fun r u hr => ?_⟩
        exact inner.behind (.inl rfl)
          ((after r u hr).of_eq (s := t.leave (s.enter rule).1 (.error e)) rfl rfl)

end Handler

namespace Session

/-- An invocation leaves the failures noted without repetition exactly if there was none before and
all bodies, its own among them, return their failures in time, as they do wherever each ends only with
a failure it has just raised or been handed. Then no report gives a reason twice. -/
theorem nodup_noted_iff_timely {α : Type} (s : Session) (rule : Rule) (body : Handler α) :
    match s.invoke rule body.exec with
    | .error _ => True
    | .ok (_, u) =>
      (u.noted.toList.Nodup ↔ s.noted.toList.Nodup ∧ (Handler.call rule body).Timely s) ∧
        ((∀ e ∈ s.noted, e < s.failures.size) → body.Prompt [] none →
          (Handler.call rule body).Timely s) ∧
        (u.noted.toList.Nodup → ∀ e, ∃ others : List FailureId, others.Nodup ∧ e ∉ others ∧
          (u.report e).reasons = others.map u.site) := by
  rw [← Handler.exec_call]
  cases hr : (Handler.call rule body).exec s with
  | error why => trivial
  | ok result =>
    obtain ⟨r, u⟩ := result
    refine ⟨Handler.nodup_exec_iff hr, fun noted prompt => ?_, fun nodup e => ?_⟩
    · have none_held : Abides s [] none := ⟨noted, nofun, nofun⟩
      exact ((prompt.call rule [] none).timely_follows none_held).1
    · exact ⟨u.noted.toList.filter (· ≠ e), nodup.filter _, by simp, rfl⟩

/-- An atom that is not there, behind a parenthesis that is not there either. -/
theorem nodup_noted_iff_timely_atom :
    let body := Rule.handler (Rule.fuelFor "|") .atom
    ∃ s u, (ofText "|" false).run .brktBeg = .ok (.error 0, s) ∧ s.noted = #[0] ∧
      s.invoke .atom body.exec = .ok (.error 1, u) ∧ u.noted = #[0, 1] ∧ u.noted.toList.Nodup ∧
      (Handler.call .atom body).Timely s := by
  intro body
  obtain ⟨s, u, hs, noted, held, hu, both⟩ : ∃ s u,
      (ofText "|" false).run .brktBeg = .ok (.error 0, s) ∧ s.noted = #[0] ∧ s.failures.size = 1 ∧
      s.invoke .atom body.exec = .ok (.error 1, u) ∧ u.noted = #[0, 1] :=
    ⟨_, _, rfl, rfl, rfl, rfl, rfl⟩
  have before : ∀ e ∈ s.noted, e < s.failures.size := by
    rw [noted, held]
    decide
  have timely := nodup_noted_iff_timely s .atom body
  rw [hu] at timely
  have prompt : body.Prompt [] none := (Rule.careful_handler _ .atom).prompt [] none
  refine ⟨s, u, hs, noted, hu, both, ?_, timely.2.1 before prompt⟩
  rw [both]
  decide

/-- A body keeps the failure of its first call and returns it behind a second one, which fails as well.
The first failure is then not the one noted last, so it is noted again, and a report on the other one
tells of it twice. -/
theorem noted_again_behind_other :
    let body : Handler Unit :=
      .invoke .brktBeg (Rule.handler (Rule.fuelFor "x") .brktBeg) fun first =>
        .invoke .argSep (Rule.handler (Rule.fuelFor "x") .argSep) fun _ => .ofExcept first
    ∃ u, (ofText "x" false).invoke .all body.exec = .ok (.error 0, u) ∧ u.noted = #[0, 1, 0] ∧
      ¬ u.noted.toList.Nodup ∧ (u.report 1).reasons = [u.site 0, u.site 0] :=
  ⟨_, rfl, rfl, by decide, rfl⟩

end Session

end GrammarKit
