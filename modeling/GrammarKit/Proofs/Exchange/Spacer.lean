import GrammarKit.Proofs.Exchange.Fenced
import GrammarKit.Proofs.Exchange.Quoted
import GrammarKit.Proofs.Spacer
import Mathlib.Data.List.Induction

/-!
Exchanging a stretch of layout behind literals and blocks of code. A quote or a fence that is tried
in vain may look for its end across the stretch; it finds one behind the new stretch if it found one
behind the old. What ends in front of the stretch stays as it is.
-/

namespace GrammarKit

variable {p s s' v w : List Char}

namespace Fenced

theorem isSome_go_spacer (hs : Spacer s) (v : List Char) {fence read run : Nat} :
    (find?.go fence (s ++ v) read run).isSome = (find?.go fence v 0 0).isSome := by
  obtain ⟨c, cs, rfl, -⟩ := hs.head
  obtain ⟨⟨-, -, hc, -⟩, plain⟩ := plain_cons.1 hs.plain
  rw [List.cons_append, find?.go, if_neg hc]
  clear hs hc
  induction cs generalizing read with
  | nil =>
    have add : find?.go fence v (0 + (read + 1)) 0 = _ := find?_go_add (Nat.le_refl 0) v (read + 1)
    rw [Nat.zero_add] at add
    rw [List.nil_append, add, Option.isSome_map]
  | cons d cs ih =>
    obtain ⟨⟨-, -, hd, -⟩, plain⟩ := plain_cons.1 plain
    rw [List.cons_append, find?.go, if_neg hd]
    exact ih plain

theorem isSome_go_exchange (hs : Spacer s) (hs' : Spacer s') (p v : List Char)
    (fence read run : Nat) :
    (find?.go fence (p ++ (s ++ v)) read run).isSome =
      (find?.go fence (p ++ (s' ++ v)) read run).isSome := by
  induction p generalizing read run with
  | nil => rw [List.nil_append, List.nil_append, isSome_go_spacer hs, isSome_go_spacer hs']
  | cons c p ih =>
    rw [List.cons_append, List.cons_append, find?.go, find?.go]
    split
    · split
      · rfl
      · exact ih _ _
    · exact ih _ _

theorem isSome_find?_exchange (hs : Spacer s) (hs' : Spacer s') (v : List Char) {n : Nat}
    (hn : n ≤ p.length) :
    (find? n ((p ++ (s ++ v)).drop n)).isSome = (find? n ((p ++ (s' ++ v)).drop n)).isSome := by
  rw [List.drop_append_of_le_length hn, List.drop_append_of_le_length hn]
  exact isSome_go_exchange hs hs' _ v n 0 0

theorem openingRun_spacer (hs : Spacer s) (p v : List Char) :
    openingRun (p ++ (s ++ v)) = openingRun p :=
  openingRun_append (fun _ hc => (hs.head_plain hc).2.2.1) p

theorem isSome_match?_exchange (hs : Spacer s) (hs' : Spacer s') (p v : List Char) :
    (match? (p ++ (s ++ v))).isSome = (match? (p ++ (s' ++ v))).isSome := by
  unfold match?
  rw [openingRun_spacer hs, openingRun_spacer hs']
  have le := openingRun_le p
  generalize openingRun p = n at le
  induction n with
  | zero => rfl
  | succ n ih =>
    have same := isSome_find?_exchange hs hs' v le
    rw [ofFence?, ofFence?]
    cases h : find? (n + 1) ((p ++ (s ++ v)).drop (n + 1)) <;>
      cases h' : find? (n + 1) ((p ++ (s' ++ v)).drop (n + 1)) <;> rw [h, h'] at same
    · exact ih (Nat.le_of_succ_le le)
    · cases same
    · cases same
    · rfl

/-- A block that ends in front of the stretch. -/
theorem match?_spacer (hs : Spacer s) (hs' : Spacer s') {f : Fenced}
    (h : match? (p ++ (s ++ v)) = some f) (hl : f.length ≤ p.length) :
    match? (p ++ (s' ++ v)) = some f := by
  unfold match? at h ⊢
  rw [openingRun_spacer hs] at h
  rw [openingRun_spacer hs']
  rw [length] at hl
  obtain ⟨pos, le, found, longer⟩ := ofFence?_eq_some.1 h
  refine ofFence?_eq_some.2 ⟨pos, le, ?_, fun j hj hle => ?_⟩
  · rw [List.drop_append_of_le_length (by omega)] at found ⊢
    exact go_exchange found (Nat.le_refl 0) (by rw [List.length_drop]; omega)
  · have same := isSome_find?_exchange hs hs' v (hle.trans (openingRun_le p))
    rw [longer j hj hle] at same
    exact Option.isNone_iff_eq_none.1 (by simpa using same.symm)

end Fenced

namespace Quote

variable {quote : Quote}

theorem prefix_spacer_iff (hs : Spacer s) (p v : List Char) :
    quote.chars <+: p ++ (s ++ v) ↔ quote.chars <+: p :=
  ⟨fun h => prefix_of_head h fun _ hc => ⟨(hs.head_plain hc).1, (hs.head_plain hc).2.1⟩,
    fun h => h.trans (List.prefix_append p _)⟩

theorem isSome_go_spacer (hs : Spacer s) (v : List Char) (n : Nat) :
    (bodyLength?.go quote (s ++ v) n).isSome = (bodyLength?.go quote v 0).isSome := by
  have plain := hs.plain
  clear hs
  induction s generalizing n with
  | nil =>
    have add := go_add quote v 0 n
    rw [Nat.zero_add] at add
    rw [List.nil_append, add, Option.isSome_map]
  | cons c s ih =>
    obtain ⟨⟨single, double, -, escape⟩, plain⟩ := plain_cons.1 plain
    have open' : ¬quote.chars <+: c :: (s ++ v) := by
      intro hp
      have none := (prefix_of_head (p := []) hp (by rintro _ ⟨⟩; exact ⟨single, double⟩)).length_le
      exact absurd quote.length_pos (Nat.not_lt.2 none)
    rw [List.cons_append, go_plain open' escape]
    exact ih (n + 1) plain

theorem isSome_go_exchange (hs : Spacer s) (hs' : Spacer s') (hp : Finished p) (v : List Char)
    (n : Nat) : (bodyLength?.go quote (p ++ (s ++ v)) n).isSome =
      (bodyLength?.go quote (p ++ (s' ++ v)) n).isSome := by
  have closed {q : List Char} (h : quote.chars <+: q) (n : Nat) :
      (bodyLength?.go quote (q ++ (s ++ v)) n).isSome =
        (bodyLength?.go quote (q ++ (s' ++ v)) n).isSome := by
    rw [go_of_closing ((prefix_spacer_iff hs q v).2 h),
      go_of_closing ((prefix_spacer_iff hs' q v).2 h)]
  have past {c : Char} {q : List Char} (h : ¬quote.chars <+: c :: q) (hc : c ≠ '\\') {n : Nat}
      (same : (bodyLength?.go quote (q ++ (s ++ v)) (n + 1)).isSome =
        (bodyLength?.go quote (q ++ (s' ++ v)) (n + 1)).isSome) :
      (bodyLength?.go quote (c :: q ++ (s ++ v)) n).isSome =
        (bodyLength?.go quote (c :: q ++ (s' ++ v)) n).isSome := by
    have open' := mt (prefix_spacer_iff hs (c :: q) v).1 h
    have open'' := mt (prefix_spacer_iff hs' (c :: q) v).1 h
    rw [List.cons_append] at open' open'' ⊢
    rw [List.cons_append, go_plain open' hc, go_plain open'' hc, same]
  induction p using List.twoStepInduction generalizing n with
  | nil => rw [List.nil_append, List.nil_append, isSome_go_spacer hs, isSome_go_spacer hs']
  | singleton c =>
    by_cases h : quote.chars <+: [c]
    · exact closed h n
    · refine past h (hp c rfl).2 ?_
      rw [List.nil_append, List.nil_append, isSome_go_spacer hs, isSome_go_spacer hs']
  | cons_cons c d p ih ih' =>
    by_cases h : quote.chars <+: c :: d :: p
    · exact closed h n
    · by_cases hc : c = '\\'
      · subst hc
        have open' := mt (prefix_spacer_iff hs _ v).1 h
        have open'' := mt (prefix_spacer_iff hs' _ v).1 h
        rw [List.cons_append, List.cons_append] at open' open'' ⊢
        rw [List.cons_append, List.cons_append]
        by_cases hd : d = '\n'
        · rw [List.isPrefixOf_iff_prefix.symm] at open' open''
          rw [bodyLength?.go, bodyLength?.go, if_neg open', if_neg open'', if_pos rfl, if_pos rfl,
            if_pos hd, if_pos hd]
        · rw [go_escape open' hd, go_escape open'' hd]
          exact ih (hp.drop 2) (n + 2)
      · exact past h hc (ih' d (hp.drop 1) (n + 1))

end Quote

namespace Quoted

variable {q : Quoted}

theorem isSome_withQuote?_exchange (hs : Spacer s) (hs' : Spacer s') (hp : Finished p)
    (v : List Char) (raw : Bool) (quote : Quote) : (withQuote? raw (p ++ (s ++ v)) quote).isSome =
      (withQuote? raw (p ++ (s' ++ v)) quote).isSome := by
  unfold withQuote?
  simp only [List.isPrefixOf_iff_prefix, Quote.prefix_spacer_iff hs, Quote.prefix_spacer_iff hs']
  split
  · rename_i h
    rw [List.drop_append_of_le_length h.length_le, List.drop_append_of_le_length h.length_le,
      Option.isSome_map, Option.isSome_map]
    exact Quote.isSome_go_exchange hs hs' (hp.drop _) v 0
  · rfl

theorem isSome_match?_exchange (hs : Spacer s) (hs' : Spacer s') (hp : Finished p) (ne : p ≠ [])
    (v : List Char) : (match? (p ++ (s ++ v))).isSome = (match? (p ++ (s' ++ v))).isSome := by
  obtain ⟨raw, q, suffix, -, tries⟩ := match?_append ne
  rw [tries, tries, List.isSome_findSome?, List.isSome_findSome?]
  congr 1
  funext quote
  exact isSome_withQuote?_exchange hs hs' (hp.of_suffix suffix) v raw quote

/-- A literal that ends in front of the stretch. -/
theorem match?_spacer (hs : Spacer s) (hs' : Spacer s') (hp : Finished p)
    (h : match? (p ++ (s ++ v)) = some q) (hl : q.length ≤ p.length) :
    match? (p ++ (s' ++ v)) = some q := by
  obtain ⟨raw, r, suffix, len, tries⟩ := match?_append (ne_nil_of_length_le hl)
  rw [tries] at h ⊢
  obtain ⟨quote, -, hq⟩ := List.exists_of_findSome?_eq_some h
  rw [length, bodyStart, (withQuote?_eq_some.1 hq).1] at hl
  refine findSome?_exchange h (fun quote miss => ?_) fun quote hit =>
    withQuote?_exchange hit (by omega)
  have same := isSome_withQuote?_exchange hs hs' (hp.of_suffix suffix) v raw quote
  rw [miss] at same
  exact Option.not_isSome_iff_eq_none.1 (by simp [← same])

end Quoted

end GrammarKit
