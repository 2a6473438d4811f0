import GrammarKit.Proofs.Handler.Consumed
import GrammarKit.Proofs.Handler.Survey
import GrammarKit.Proofs.Handler.Trimming
import GrammarKit.Proofs.Token.Cut

/-!
Reading on behind a cut. A handler that gets as far as a cut in its text, and refuses there, is
followed on a text that goes on otherwise behind the cut. Up to the cut the same tokens are seen and
taken. At the cut the first text offers none of those that are looked for; if the other one offers
none of them either, then the handler refuses there as well.

Main statement: a handler whose failure names all that was looked for refuses wherever none of the
tokens that it names can be found.
-/

namespace GrammarKit

variable {v w : List Char} {P : Token → Prop}

/-- Tokens lead up to `v`. What has been looked for there has not been found, and has the property. -/
structure Leads (v : List Char) (P : Token → Prop) (sight : Sight) (cs : List Char) : Prop where
  tiled : Tiled cs v
  whole : cs = v → sight.whole = true
  tried : cs = v → ∀ t ∈ sight.tried, P t

namespace Leads

variable {sight : Sight} {cs : List Char}

theorem of_ne (tiled : Tiled cs v) (ne : cs ≠ v) : Leads v P sight cs :=
  ⟨tiled, fun h => absurd h ne, fun h => absurd h ne⟩

theorem ne_of_found (h : Leads v P .found cs) : cs ≠ v := fun hcs => Bool.false_ne_true (h.whole hcs)

theorem of_miss {branch : Bool} {candidates : List Token}
    (h : Leads v P (sight.miss branch candidates) cs) :
    Leads v P sight cs ∧ (cs = v → ∀ t ∈ candidates, P t) := by
  obtain ⟨tiled, whole, tried⟩ := h
  refine ⟨⟨tiled, fun hcs => ?_, fun hcs t ht => ?_⟩, fun hcs t ht => tried hcs t ?_⟩
  · exact (Bool.and_eq_true_iff.1 (whole hcs)).1
  · have rest := (Bool.and_eq_true_iff.1 (whole hcs)).2
    cases branch with
    | true => exact tried hcs t (List.mem_append_left _ ht)
    | false =>
      rw [Bool.false_or, List.isEmpty_iff] at rest
      rw [rest] at ht
      cases ht
  · cases branch with
    | true => exact List.mem_append_right _ ht
    | false => exact ht

theorem of_named {tokens : List Token} (h : Leads v P (sight.named tokens) cs) :
    Leads v P sight cs := by
  cases tokens with
  | nil => exact h
  | cons t tokens =>
    obtain ⟨tiled, whole, tried⟩ := h
    have both := fun hcs => Bool.and_eq_true_iff.1 (whole hcs)
    refine ⟨tiled, fun hcs => (both hcs).1, fun hcs t ht => ?_⟩
    rw [List.isEmpty_iff.1 (both hcs).2] at ht
    cases ht

theorem of_consume {t : Token} {n : Nat} (hn : t.length? cs = some n)
    (h : Leads v P (if n = 0 then .found else .fresh) (settle (cs.drop n))) :
    Tiled cs v ∧ cs ≠ v := by
  refine ⟨.head ⟨t, _, n, hn, rfl, rfl⟩ h.tiled, ?_⟩
  rintro rfl
  have le := Token.length?_le hn
  have left := h.tiled.suffix.length_le.trans (settle_suffix _).length_le
  rw [List.length_drop] at left
  by_cases zero : n = 0
  · subst zero
    have nil := Token.settled_of_startsAt (Token.startsAt_of_length? hn)
    exact h.ne_of_found nil
  · have none : cs.length = 0 := by omega
    omega

end Leads

namespace Survey

variable {α : Type}

def Leads (v : List Char) (P : Token → Prop) : Survey α → Prop
  | yield _ sight cs => GrammarKit.Leads v P sight (settle cs)
  | refuse sight cs => cs = v ∧ GrammarKit.Leads v P sight cs
  | abort _ => False

end Survey

/-- What is read of one text is read of another one that has `w` in place of `v`. -/
inductive Agrees {α : Type} (v w : List Char) : Survey α → Reading α → Prop
  | yield (a : α) (sight : Sight) {y y' p : List Char} (hy : settle y = p ++ v)
      (hy' : settle y' = p ++ w) (cut : Tiled (p ++ w) w) :
      Agrees v w (.yield a sight y) (.yield a y')
  | refuse (sight : Sight) : Agrees v w (.refuse sight v) (.refuse w)

namespace Handler

variable {α : Type} {h : Handler α} {looked : Bool} {sight last : Sight}

/-- A survey that gets to a place has been on the way there from the start. -/
theorem Careful.leads (hh : h.Careful looked) {cs : List Char} (hcs : Settled cs)
    (hl : (h.survey sight cs).Leads v P) : Leads v P sight cs := by
  induction h generalizing sight cs looked with
  | done a =>
    have : Leads v P sight (settle cs) := hl
    rwa [hcs.eq] at this
  | reraise e => exact hh.elim
  | abort why => exact hl.elim
  | peek branch candidates k ih =>
    obtain ⟨-, -, hnone, hsome⟩ := hh
    simp only [survey] at hl
    cases ht : candidates.find? (Token.startsAt cs) with
    | none =>
      rw [ht] at hl
      exact (ih none hnone hcs hl).of_miss.1
    | some t =>
      rw [ht] at hl
      have found := ih (some t) (hsome t) hcs hl
      exact .of_ne found.tiled found.ne_of_found
  | consume t k ih =>
    obtain ⟨-, hok⟩ := hh
    simp only [survey] at hl
    cases hn : t.length? cs with
    | none =>
      rw [hn] at hl
      exact hl.2.of_named
    | some n =>
      rw [hn] at hl
      rcases (hok _ n hn).cases with ⟨a, ha⟩ | ⟨why, hw⟩
      · simp only [ha] at hl
        obtain ⟨tiled, ne⟩ := Leads.of_consume hn hl
        exact .of_ne tiled ne
      · simp only [hw] at hl
        exact hl.elim
  | fail tried k => exact hl.2.of_named
  | invoke rule body k ihb ihk =>
    obtain ⟨hbody, -, hok⟩ := hh
    simp only [survey, hcs.eq] at hl
    cases hb : body.survey sight cs with
    | yield b inner y =>
      rw [hb] at hl
      apply ihb hbody hcs
      rw [hb]
      exact ihk (.ok b) (hok b) (settled_settle y) hl
    | refuse inner y =>
      rw [hb] at hl
      have settled := hbody.settled_of_refuse hcs (read_of_survey hb)
      apply ihb hbody hcs
      rw [hb]
      exact settled.eq ▸ hl
    | abort why =>
      rw [hb] at hl
      exact hl.elim
  | attempt rule body k => exact hh.elim

variable {p : List Char}

theorem find?_none {candidates : List Token} (lined : Lined p) (tiled : Tiled (p ++ v) v)
    (ht : candidates.find? (Token.startsAt (p ++ v)) = none)
    (miss : p ++ v = v → ∀ t ∈ candidates, Token.startsAt w t = false) :
    candidates.find? (Token.startsAt (p ++ w)) = none := by
  by_cases ne : p = []
  · subst ne
    rw [List.nil_append, List.find?_eq_none]
    exact fun t ht => by rw [miss rfl t ht]; exact Bool.false_ne_true
  · rwa [← tiled.startsAt_eq lined ne w]

theorem suffix_of_survey {a : α} {inner : Sight} {y q : List Char}
    (hr : h.survey sight (p ++ v) = .yield a inner y) (hy : settle y = q ++ v) : q <:+ p := by
  have read := reading_survey h sight (p ++ v)
  rw [hr] at read
  obtain ⟨front, hfront⟩ := (settle_suffix y).trans (read_suffix read.symm)
  rw [hy, ← List.append_assoc] at hfront
  exact ⟨front, List.append_cancel_right hfront⟩

section

variable (hv : Settled v) (hw : Settled w)

include hv hw

/-- A token that is consumed in front of the cut, or missed at it. -/
theorem Careful.consume_follows {t : Token} {k : Except FailureId (List Char) → Handler α}
    (hh : (consume t k).Careful looked) (trims : (consume t k).Trims) (lined : Lined p)
    (cut : Tiled (p ++ w) w)
    (hl : ((consume t k).survey sight (p ++ v)).Leads v fun t => Token.startsAt w t = false) :
    Agrees v w ((consume t k).survey sight (p ++ v)) ((consume t k).read (p ++ w)) := by
  obtain ⟨-, hok⟩ := hh
  simp only [survey, read] at hl ⊢
  cases hn : t.length? (p ++ v) with
  | none =>
    rw [hn] at hl
    obtain ⟨place, lead⟩ := hl
    obtain rfl : p = [] := List.append_left_eq_self.1 place
    have absent : Token.startsAt w t = false := lead.tried rfl t (List.mem_singleton_self t)
    rw [Token.startsAt, Option.isSome_eq_false_iff, Option.isNone_iff_eq_none] at absent
    simp only [List.nil_append, absent]
    exact .refuse _
  | some n =>
    rw [hn] at hl
    rcases (hok _ n hn).cases with ⟨a, ha⟩ | ⟨why, hw⟩
    · simp only [ha] at hl ⊢
      obtain ⟨tiled, far⟩ := Leads.of_consume hn hl
      have ne : p ≠ [] := fun nil => far (by rw [nil]; rfl)
      obtain ⟨q, _, hq, rest, ⟨m, hm, rfl, hz⟩, trimmed, same⟩ :=
        tiled.exists_takes cut lined ne hv hw ⟨n, hn, rfl, rfl⟩
      rw [hm]
      simp only [← trims.consume_eq trimmed same, ha]
      exact .yield a _ hq hz.symm rest
    · simp only [hw] at hl
      exact hl.elim

/-- What is read up to the cut is read whatever follows it, and the failure at the cut stays. -/
theorem Careful.follows (hh : h.Careful looked) (trims : h.Trims) (lined : Lined p)
    (settled : Settled (p ++ v)) (cut : Tiled (p ++ w) w)
    (hl : (h.survey sight (p ++ v)).Leads v fun t => Token.startsAt w t = false) :
    Agrees v w (h.survey sight (p ++ v)) (h.read (p ++ w)) := by
  have settled' : Settled (p ++ w) := by
    by_cases ne : p = []
    · rwa [ne]
    · exact settled.append ne w
  induction h generalizing sight p looked with
  | done a => exact .yield a sight settled settled' cut
  | reraise e => exact hh.elim
  | abort why => exact hl.elim
  | peek branch candidates k ih =>
    obtain ⟨-, -, hnone, hsome⟩ := hh
    simp only [survey, read] at hl ⊢
    cases ht : candidates.find? (Token.startsAt (p ++ v)) with
    | none =>
      rw [ht] at hl
      obtain ⟨lead, missed⟩ := (hnone.leads settled hl).of_miss
      rw [find?_none lined lead.tiled ht missed]
      exact ih none hnone (trims _) lined settled cut hl settled'
    | some t =>
      rw [ht] at hl
      have lead := (hsome t).leads settled hl
      have ne : p ≠ [] := fun nil => lead.ne_of_found (by rw [nil]; rfl)
      rw [lead.tiled.startsAt_eq lined ne w] at ht
      rw [ht]
      exact ih (some t) (hsome t) (trims _) lined settled cut hl settled'
  | consume t k => exact hh.consume_follows hv hw trims lined cut hl
  | fail tried k =>
    obtain ⟨place, -⟩ := hl
    obtain rfl : p = [] := List.append_left_eq_self.1 place
    exact .refuse _
  | invoke rule body k ihb ihk =>
    obtain ⟨hbody, -, hok⟩ := hh
    simp only [survey, read, settled.eq, settled'.eq] at hl ⊢
    cases hb : body.survey sight (p ++ v) with
    | yield b inner y =>
      rw [hb] at hl
      have lead : Leads v _ inner (settle y) := (hok b).leads (settled_settle y) hl
      have agrees := ihb hbody trims.1 lined settled cut (by rwa [hb]) settled'
      rw [hb] at agrees
      generalize body.read (p ++ w) = reading at agrees
      cases agrees with
      | @yield _ _ _ z q hy hz rest =>
        have lined' := lined.of_suffix (suffix_of_survey hb hy)
        have settled : Settled (q ++ v) := hy ▸ settled_settle y
        have settled' : Settled (q ++ w) := hz ▸ settled_settle z
        rw [Survey.settled, hy] at hl
        rw [Survey.settled, Reading.settled, hy, hz]
        exact ihk (.ok b) (hok b) (trims.2 _) lined' settled rest hl settled'
    | refuse inner y =>
      rw [hb] at hl
      have stays := (hbody.settled_of_refuse settled (read_of_survey hb)).eq
      have agrees := ihb hbody trims.1 lined settled cut (by rw [hb]; exact stays ▸ hl) settled'
      rw [hb] at agrees
      generalize body.read (p ++ w) = reading at agrees
      cases agrees with
      | refuse _ =>
        rw [Survey.settled, Reading.settled, hv.eq, hw.eq]
        exact .refuse _
    | abort why =>
      rw [hb] at hl
      exact hl.elim
  | attempt rule body k => exact hh.elim

/-- A failure that names all that was looked for at the cut stays, if none of it can be found behind
the cut either. -/
theorem Careful.refuses (hh : h.Careful looked) (trims : h.Trims) (lined : Lined p)
    (settled : Settled (p ++ v)) (cut : Tiled (p ++ w) w)
    (hr : h.survey sight (p ++ v) = .refuse last v) (whole : last.whole = true)
    (absent : ∀ t ∈ last.tried, Token.startsAt w t = false) : h.read (p ++ w) = .refuse w := by
  have lead : Leads v (fun t => Token.startsAt w t = false) last v :=
    ⟨.refl v, fun _ => whole, fun _ => absent⟩
  have agrees := hh.follows hv hw trims lined settled cut (by rw [hr]; exact ⟨rfl, lead⟩)
  rw [hr] at agrees
  generalize h.read (p ++ w) = reading at agrees
  cases agrees with
  | refuse _ => rfl

end

end Handler

end GrammarKit
