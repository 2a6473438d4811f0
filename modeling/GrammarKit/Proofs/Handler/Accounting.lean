import GrammarKit.Proofs.Handler.Survey
import GrammarKit.Proofs.Terminal

/-!
Handlers that account for what they look for. Where such a handler fails, the failure names all that
has been looked for there, or it is one of those that are exempt.

A handler may be entered where a token has been found already, which then stands in no failure. It
accounts for that token if it looks for it again: it finds it, and does not fail there. So the rules
below keep a list of tokens one of which stands next, unless all that has been looked for is known.
-/

namespace GrammarKit

variable {α β : Type} {exempt : List (List Token)} {tried next more : List Token}

namespace Sight

/-- Nothing but these tokens has been looked for, in vain, unless one of `next` stands next. -/
def Clear (tried next : List Token) (sight : Sight) (cs : List Char) : Prop :=
  sight = ⟨tried, true⟩ ∨ ∃ t ∈ next, Token.startsAt cs t

variable {sight : Sight} {cs : List Char}

theorem clear_nil : Clear tried [] sight cs ↔ sight = ⟨tried, true⟩ := by simp [Clear]

theorem clear_fresh (next : List Token) (cs : List Char) : Clear [] next .fresh cs := .inl rfl

theorem Clear.mono (h : Clear tried next sight cs) (sub : next ⊆ more) :
    Clear tried more sight cs := by
  rcases h with h | ⟨t, ht, stands⟩
  · exact .inl h
  · exact .inr ⟨t, sub ht, stands⟩

theorem Clear.miss {branch : Bool} {candidates : List Token} (h : Clear tried next sight cs)
    (first : branch = false → tried = [])
    (none : candidates.find? (Token.startsAt cs) = none)
    (rest : ∀ t ∈ next, t ∈ candidates ∨ t ∈ more) :
    Clear (tried ++ candidates) more (sight.miss branch candidates) cs := by
  rcases h with rfl | ⟨t, ht, stands⟩
  · refine .inl ?_
    cases branch with
    | true => rfl
    | false =>
      rw [first rfl]
      rfl
  · refine .inr ⟨t, (rest t ht).resolve_left fun mem => ?_, stands⟩
    exact List.find?_eq_none.1 none t mem stands

/-- Behind a token nothing has been looked for, but the end of the text stands where it stood. -/
theorem clear_consumed {t : Token} {n : Nat} (hn : t.length? cs = some n) :
    Clear [] (if t = .textEnd then [.textEnd] else []) (if n = 0 then found else fresh)
      (settle (cs.drop n)) := by
  by_cases ht : t = .textEnd
  · subst ht
    cases cs with
    | nil => exact .inr ⟨.textEnd, List.mem_singleton_self _, by rw [List.drop_nil]; rfl⟩
    | cons c cs => cases hn
  · rw [if_neg ht, if_neg (Nat.ne_of_gt (Token.length?_pos ht hn))]
    exact clear_fresh _ _

end Sight

namespace Survey

/-- A failure names all that was looked for, or is exempt. -/
def Accounts (exempt : List (List Token)) (next : List Token) : Survey α → Prop
  | yield _ sight cs => Settled cs ∧ sight.Clear [] next cs
  | refuse sight _ => sight.whole = true ∨ sight.tried ∈ exempt
  | abort _ => True

end Survey

namespace Handler

theorem survey_bind (h : Handler α) (f : α → Handler β) (sight : Sight) (cs : List Char) :
    (h.bind f).survey sight cs = (h.survey sight cs).bind fun a s cs => (f a).survey s cs := by
  induction h generalizing sight cs with
  | done a => rfl
  | reraise e => rfl
  | abort why => rfl
  | peek branch candidates k ih =>
    simp only [bind, survey]
    split
    · exact ih _ _ _ _
    · exact ih _ _ _ _
  | consume t k ih =>
    simp only [bind, survey]
    split
    · exact ih _ _ _ _
    · rfl
  | fail tried k => rfl
  | invoke rule body k _ ih =>
    simp only [bind, survey]
    split
    · exact ih _ _ _ _
    · rfl
    · rfl
  | attempt rule body k _ ih =>
    simp only [bind, survey]
    split
    · exact ih _ _ _ _
    · exact ih _ _ _ _
    · rfl

theorem survey_call (rule : Rule) (body : Handler α) (sight : Sight) (cs : List Char) :
    (call rule body).survey sight cs = (body.survey sight (settle cs)).settled := by
  simp only [call, survey]
  split <;> simp_all [ofExcept, survey]

/-- Entered where the tokens `tried` have been looked for in vain, or where one of `next` stands, the
handler accounts for what it looks for, and leaves nothing to account for unless one of `more`
stands next. -/
def Accounts (exempt : List (List Token)) (tried next more : List Token) (h : Handler α) : Prop :=
  ∀ sight cs, Settled cs → sight.Clear tried next cs → (h.survey sight cs).Accounts exempt more

variable {h : Handler α} {f : α → Handler β}

namespace Accounts

theorem weaken {wide : List Token} (hh : h.Accounts exempt tried wide more) (sub : next ⊆ wide) :
    h.Accounts exempt tried next more :=
  fun sight cs hcs clear => hh sight cs hcs (clear.mono sub)

theorem widen {wide : List Token} (hh : h.Accounts exempt tried next more) (sub : more ⊆ wide) :
    h.Accounts exempt tried next wide := by
  intro sight cs hcs clear
  have ends := hh sight cs hcs clear
  cases hs : h.survey sight cs with
  | yield a inner y =>
    rw [hs] at ends
    exact ⟨ends.1, ends.2.mono sub⟩
  | refuse inner y =>
    rw [hs] at ends
    exact ends
  | abort why => trivial

theorem done (a : α) (sub : next ⊆ more) : (done a).Accounts exempt [] next more :=
  fun _ _ hcs clear => ⟨hcs, clear.mono sub⟩

theorem done_of_mem (a : α) {t : Token} (ht : t ∈ more) : (Handler.done a).Accounts exempt [] [t] more :=
  done a (List.cons_subset.2 ⟨ht, List.nil_subset _⟩)

theorem abort (why : Abort) : (abort why : Handler α).Accounts exempt tried next more :=
  fun _ _ _ _ => trivial

/-- All that has been looked for is named. -/
theorem refuse : (refuse [] : Handler α).Accounts exempt tried [] more := by
  intro sight cs _ clear
  rw [Sight.clear_nil] at clear
  subst clear
  exact .inl rfl

theorem ite {c : Prop} [Decidable c] {a b : Handler α}
    (ha : c → a.Accounts exempt tried next more) (hb : ¬c → b.Accounts exempt tried next more) :
    (if c then a else b).Accounts exempt tried next more := by
  by_cases hc : c
  · rw [if_pos hc]
    exact ha hc
  · rw [if_neg hc]
    exact hb hc

theorem bind (mid : List Token) (hh : h.Accounts exempt tried next mid)
    (hf : ∀ a, (f a).Accounts exempt [] mid more) : (h.bind f).Accounts exempt tried next more := by
  intro sight cs hcs clear
  have first := hh sight cs hcs clear
  rw [survey_bind]
  cases hs : h.survey sight cs with
  | yield a inner y =>
    rw [hs] at first
    exact hf a inner y first.1 first.2
  | refuse inner y =>
    rw [hs] at first
    exact first
  | abort why => trivial

/-- If a look at a place fails, what it looked for is known not to stand there. -/
theorem peek {branch : Bool} (rest : List Token) {candidates : List Token}
    {k : Option Token → Handler β} (first : branch = false → tried = [])
    (rests : ∀ t ∈ next, t ∈ candidates ∨ t ∈ rest)
    (hit : ∀ t ∈ candidates, (k (some t)).Accounts exempt [] [t] more)
    (miss : (k none).Accounts exempt (tried ++ candidates) rest more) :
    (Handler.peek branch candidates k).Accounts exempt tried next more := by
  intro sight cs hcs clear
  simp only [survey]
  cases ht : candidates.find? (Token.startsAt cs) with
  | none => exact miss _ cs hcs (clear.miss first ht rests)
  | some t =>
    apply hit t (List.mem_of_find?_eq_some ht) _ cs hcs
    exact .inr ⟨t, List.mem_singleton_self t, List.find?_some ht⟩

theorem look (rest : List Token) {candidates : List Token} {a b : Handler β}
    (rests : ∀ t ∈ next, t ∈ candidates ∨ t ∈ rest)
    (hit : a.Accounts exempt [] candidates more) (miss : b.Accounts exempt candidates rest more) :
    ((look candidates).bind fun t => if t.isSome = true then a else b).Accounts exempt [] next
      more := by
  apply peek rest (fun _ => rfl) rests
  · intro t ht
    exact hit.weaken (List.cons_subset.2 ⟨ht, List.nil_subset _⟩)
  · exact miss

theorem lookBranch (rest : List Token) {candidates : List Token} {a b : Handler β}
    (rests : ∀ t ∈ next, t ∈ candidates ∨ t ∈ rest)
    (hit : a.Accounts exempt [] candidates more)
    (miss : b.Accounts exempt (tried ++ candidates) rest more) :
    ((lookBranch candidates).bind fun t => if t.isSome = true then a else b).Accounts exempt tried
      next more := by
  apply peek rest (fun h => absurd h.symm Bool.false_ne_true) rests
  · intro t ht
    exact hit.weaken (List.cons_subset.2 ⟨ht, List.nil_subset _⟩)
  · exact miss

theorem expect {candidates : List Token} {f : Token → Handler β}
    (covers : next ⊆ candidates ∨ candidates ∈ exempt)
    (hit : ∀ t ∈ candidates, (f t).Accounts exempt [] [t] more) :
    ((expect candidates).bind f).Accounts exempt [] next more := by
  intro sight cs hcs clear
  show (survey (.peek _ _ _) _ _).Accounts _ _
  simp only [survey]
  cases ht : candidates.find? (Token.startsAt cs) with
  | none =>
    rcases covers with sub | out
    · have all : Sight.Clear candidates [] (sight.miss false candidates) cs :=
        clear.miss (fun _ => rfl) ht fun t ht => .inl (sub ht)
      rw [Sight.clear_nil] at all
      rw [all]
      exact .inl rfl
    · exact .inr out
  | some t =>
    refine hit t (List.mem_of_find?_eq_some ht) _ cs hcs (.inr ⟨t, ?_, List.find?_some ht⟩)
    exact List.mem_singleton_self t

theorem call (rule : Rule) (hh : h.Accounts exempt tried next more) :
    (call rule h).Accounts exempt tried next more := by
  intro sight cs hcs clear
  have inside := hh sight cs hcs clear
  rw [survey_call, hcs.eq]
  cases hs : h.survey sight cs with
  | yield a inner y =>
    rw [hs] at inside
    obtain ⟨hy, clear⟩ := inside
    exact ⟨settled_settle y, hy.eq.symm ▸ clear⟩
  | refuse inner y =>
    rw [hs] at inside
    exact inside
  | abort why => trivial

/-- A rule that takes a token. Behind it nothing has been looked for, but for the end of the text,
which stands where it stood. -/
theorem call_consume (rule : Rule) {t : Token} {k : Except FailureId (List Char) → Handler α}
    (hh : (consume t k).Careful false) (covers : next ⊆ [t] ∨ [t] ∈ exempt) :
    (Handler.call rule (consume t k)).Accounts exempt [] next
      (if t = .textEnd then [.textEnd] else []) := by
  intro sight cs hcs clear
  obtain ⟨-, hok⟩ := hh
  rw [survey_call, hcs.eq]
  simp only [survey]
  cases hn : t.length? cs with
  | none =>
    rcases covers with sub | out
    · have absent : ¬Token.startsAt cs t := by simp [Token.startsAt, hn]
      rcases clear with rfl | ⟨u, hu, stands⟩
      · exact .inl rfl
      · rw [List.mem_singleton.1 (sub hu)] at stands
        exact absurd stands absent
    · exact .inr out
  | some n =>
    have behind := Sight.clear_consumed hn
    rcases (hok _ n hn).cases with ⟨a, ha⟩ | ⟨why, hw⟩
    · simp only [ha]
      exact ⟨settled_settle _, behind⟩
    · simp only [hw]
      trivial

end Accounts

end Handler

end GrammarKit
