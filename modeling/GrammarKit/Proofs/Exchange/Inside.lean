import GrammarKit.Proofs.Exchange.Fenced
import GrammarKit.Proofs.Exchange.Quoted

/-!
Literals and blocks of code that end inside a stretch of text. Whatever follows the stretch, there is
one; it may be another one, since longer quotes and fences are tried first, but not if it ends in the
stretch as well.
-/

namespace GrammarKit

variable {p v w : List Char}

namespace Quoted

/-- A literal that ends in the stretch. Whatever follows, there is one. -/
theorem exists_match?_of_length_le {q : Quoted} (h : match? (p ++ v) = some q)
    (hl : q.length ≤ p.length) (w : List Char) : (match? (p ++ w)).isSome := by
  obtain ⟨raw, s, -, len, tries⟩ := match?_append (ne_nil_of_length_le hl)
  rw [tries] at h
  obtain ⟨quote, mem, hq⟩ := List.exists_of_findSome?_eq_some h
  rw [length, bodyStart, (withQuote?_eq_some.1 hq).1] at hl
  rw [tries, List.isSome_findSome?, List.any_eq_true]
  exact ⟨quote, mem, by rw [withQuote?_exchange hq (by omega)]; rfl⟩

theorem findSome?_unique {f g : Quote → Option Quoted} {quotes : List Quote} {a b : Quoted}
    (ha : quotes.findSome? f = some a) (hb : quotes.findSome? g = some b)
    (there : ∀ quote, f quote = some a → g quote = some a)
    (back : ∀ quote, g quote = some b → f quote = some b) : a = b := by
  induction quotes with
  | nil => cases ha
  | cons quote quotes ih =>
    rw [List.findSome?_cons] at ha hb
    cases hf : f quote with
    | some a' =>
      rw [hf] at ha
      cases ha
      rw [there quote hf] at hb
      exact Option.some.inj hb
    | none =>
      rw [hf] at ha
      cases hg : g quote with
      | some b' =>
        rw [hg] at hb
        cases hb
        rw [back quote hg] at hf
        cases hf
      | none =>
        rw [hg] at hb
        exact ih ha hb

/-- Literals that end in the stretch do not depend on what follows. -/
theorem match?_unique {a b : Quoted} (ha : match? (p ++ v) = some a) (hal : a.length ≤ p.length)
    (hb : match? (p ++ w) = some b) (hbl : b.length ≤ p.length) : a = b := by
  obtain ⟨raw, s, -, len, tries⟩ := match?_append (ne_nil_of_length_le hal)
  rw [tries] at ha hb
  rw [length, bodyStart] at hal hbl
  refine findSome?_unique ha hb (fun quote hit => ?_) fun quote hit => ?_
  · rw [(withQuote?_eq_some.1 hit).1] at hal
    exact withQuote?_exchange hit (by omega)
  · rw [(withQuote?_eq_some.1 hit).1] at hbl
    exact withQuote?_exchange hit (by omega)

theorem match?_raw {m : Char} (hm : m ≠ 'r') (cs : List Char) :
    match? ('r' :: m :: cs) = (match? (m :: cs)).map fun q => { q with raw := true } := by
  have plain : ((m :: cs).head? == some 'r') = false := by simpa using hm
  have same : withQuote? true (m :: cs) =
      Option.map (fun q : Quoted => { q with raw := true }) ∘ withQuote? false (m :: cs) := by
    funext quote
    unfold withQuote?
    rw [Function.comp_apply]
    split
    · rw [Option.map_map]
      rfl
    · rfl
  unfold match?
  rw [plain]
  show Quote.all.findSome? (withQuote? true (m :: cs)) = _
  rw [same, ← List.map_findSome?]
  rfl

end Quoted

namespace Fenced

/-- Where some fence closes, the longest of them does. -/
theorem isSome_ofFence? {cs : List Char} {n fence : Nat} (pos : 0 < fence) (le : fence ≤ n)
    (found : (find? fence (cs.drop fence)).isSome) : (ofFence? cs n).isSome := by
  induction n with
  | zero => omega
  | succ n ih =>
    rw [ofFence?]
    by_cases last : fence = n + 1
    · subst last
      obtain ⟨body, hbody⟩ := Option.isSome_iff_exists.1 found
      rw [hbody]
      rfl
    · split
      · rfl
      · exact ih (by omega)

/-- A fence that closes in the stretch closes at the same place whatever follows. -/
theorem find?_exchange {fence body : Nat} (found : find? fence ((p ++ v).drop fence) = some body)
    (inside : fence + body + fence ≤ p.length) (w : List Char) :
    find? fence ((p ++ w).drop fence) = some body := by
  rw [List.drop_append_of_le_length (by omega)] at found ⊢
  apply go_exchange found (Nat.le_refl 0)
  rw [List.length_drop]
  omega

/-- A block that ends in the stretch. Whatever follows, there is one. -/
theorem exists_match?_of_length_le {f : Fenced} (h : match? (p ++ v) = some f)
    (hl : f.length ≤ p.length) (w : List Char) : (match? (p ++ w)).isSome := by
  obtain ⟨pos, le, found, -⟩ := ofFence?_eq_some.1 h
  have there := find?_exchange found hl w
  have hv := min_openingRun p v
  have hw := min_openingRun p w
  rw [length] at hl
  apply isSome_ofFence? pos (by omega)
  rw [there]
  rfl

/-- A fence that closes in the stretch is no longer than the longest one that closes. -/
theorem fence_le {a b : Fenced} (ha : match? (p ++ v) = some a) (hal : a.length ≤ p.length)
    (hb : match? (p ++ w) = some b) : a.fence ≤ b.fence := by
  obtain ⟨-, le, found, -⟩ := ofFence?_eq_some.1 ha
  obtain ⟨-, -, -, longer⟩ := ofFence?_eq_some.1 hb
  have there := find?_exchange found hal w
  have hv := min_openingRun p v
  have hw := min_openingRun p w
  rw [length] at hal
  apply Nat.le_of_not_lt
  intro short
  rw [longer a.fence short (by omega)] at there
  cases there

/-- Blocks that end in the stretch do not depend on what follows. -/
theorem match?_unique {a b : Fenced} (ha : match? (p ++ v) = some a) (hal : a.length ≤ p.length)
    (hb : match? (p ++ w) = some b) (hbl : b.length ≤ p.length) : a = b := by
  have fence : a.fence = b.fence := Nat.le_antisymm (fence_le ha hal hb) (fence_le hb hbl ha)
  have there := find?_exchange (ofFence?_eq_some.1 ha).2.2.1 hal w
  rw [fence, (ofFence?_eq_some.1 hb).2.2.1] at there
  cases a
  cases b
  cases fence
  cases there
  rfl

end Fenced

end GrammarKit
