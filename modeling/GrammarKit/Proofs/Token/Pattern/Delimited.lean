import GrammarKit.Proofs.Token.Pattern.Word
import GrammarKit.Proofs.Terminal

/-!
The patterns of code blocks and quoted literals: a delimiter that a group takes, a body that takes as
little as it can, and the delimiter again. Of all ways to open it the first is tried that can be
closed, at the nearest place where the body may end.
-/

namespace GrammarKit

namespace Regex

variable {r s : Regex} {e f : List Char → List (List Char)} {text : List Char}

def between (cs rest : List Char) : List Char := cs.take (cs.length - rest.length)

/-- The expression reads the text of the first group, whatever else the groups hold. -/
def Closes (text : List Char) (r : Regex) : Prop :=
  ∀ t : Thread, t.groups.lookup 1 = some text →
    (r.threads false t).map Thread.rest =
      if text.isPrefixOf t.rest then [t.rest.drop text.length] else []

theorem closes_back (text : List Char) : Closes text (sequence [.back 1]) := by
  intro t ht
  rw [threads_sequence_singleton, Regex.threads, ht]
  show (if text.isPrefixOf t.rest then _ else _ : List Thread).map _ = _
  split <;> rfl

theorem Closes.group (h : Closes text r) (n : Nat) : Closes text (sequence [.group n r]) := by
  intro t ht
  rw [threads_sequence_singleton, Regex.threads, List.map_map, ← h t ht]
  rfl

theorem Closes.body (hs : Closes text s) (hr : Takes false r f) {t : Thread}
    (ht : t.groups.lookup 1 = some text) :
    ((Regex.seq (.group 2 r) s).threads false t).map Thread.rest =
      ((f t.rest).filter text.isPrefixOf).map (List.drop text.length) := by
  rw [Regex.threads, hr.threads_group, List.flatMap_map, List.map_flatMap]
  induction f t.rest with
  | nil => rfl
  | cons x xs ih =>
    rw [List.flatMap_cons, ih, hs ⟨t.text, x, (2, _) :: t.groups⟩ ht, List.filter_cons]
    split <;> simp

def delimitedEnds (e f : List Char → List (List Char)) (cs : List Char) : List (List Char) :=
  (e cs).flatMap fun rest =>
    ((f rest).filter (between cs rest).isPrefixOf).map (List.drop (between cs rest).length)

theorem ends_delimited (hs : ∀ text, Closes text s) {o : Regex} (ho : Takes false o e)
    (hr : Takes false r f) :
    Ends false (.seq (.group 1 o) (.seq (.group 2 r) s)) (delimitedEnds e f) := by
  intro t
  rw [Regex.threads, ho.threads_group, List.flatMap_map, List.map_flatMap]
  exact List.flatMap_congr fun rest _ => (hs _).body hr rfl

theorem head?_delimitedEnds (cs : List Char) : (delimitedEnds e f cs).head? =
    (e cs).findSome? fun rest =>
      ((f rest).find? (between cs rest).isPrefixOf).map (List.drop (between cs rest).length) := by
  rw [delimitedEnds, List.head?_flatMap]
  congr 1
  funext rest
  rw [List.head?_map, List.head?_filter]

def code : Regex :=
  .seq (.group 1 (sequence [.repeated .oneOrMore true (literal fenceMark)]))
    (.seq (.group 2 (sequence [.repeated .zeroOrMore false
      (.alt (sequence [dot]) (sequence [literal '\n']))])) (sequence [.back 1]))

theorem takes_dot : Takes false dot (one (· != '\n')) := takes_except '\n'

theorem takes_any : Takes false (.alt (sequence [dot]) (sequence [literal '\n']))
    (one fun _ => true) := by
  intro t
  refine (takes_dot.last.alt (takes_literal '\n').last t).trans ?_
  congr 1
  cases t.rest with
  | nil => rfl
  | cons c cs => by_cases h : c = '\n' <;> simp [one, h]

def fenceEnds (cs : List Char) : List (List Char) :=
  (one (· == fenceMark) cs).flatMap (backwards (· == fenceMark))

theorem ends_code : Ends false code (delimitedEnds fenceEnds List.tails) := by
  have tails : Takes false (.repeated .zeroOrMore false
      (.alt (sequence [dot]) (sequence [literal '\n']))) List.tails :=
    funext repeatedly_any ▸ takes_any.zeroOrMore false
  exact ends_delimited closes_back (takes_literal fenceMark).someRun.last tails.last

end Regex

namespace Fenced

theorem not_prefix_run {fence run : Nat} (h : run < fence) {c : Char} (hc : c ≠ fenceMark)
    (cs : List Char) :
    ¬List.replicate fence fenceMark <+: List.replicate run fenceMark ++ c :: cs := by
  induction run generalizing fence with
  | zero =>
    obtain ⟨fence, rfl⟩ := Nat.exists_eq_add_one_of_ne_zero (Nat.ne_zero_of_lt h)
    simp [List.replicate_succ, Ne.symm hc]
  | succ run ih =>
    obtain ⟨fence, rfl⟩ := Nat.exists_eq_add_one_of_ne_zero (Nat.ne_zero_of_lt h)
    rw [List.replicate_succ, List.replicate_succ, List.cons_append, List.cons_prefix_cons]
    exact fun both => ih (Nat.lt_of_succ_lt_succ h) both.2

theorem find?_tails_behind {fence run : Nat} (h : run < fence) {c : Char} (hc : c ≠ fenceMark)
    (cs : List Char) :
    (List.replicate run fenceMark ++ c :: cs).tails.find?
        (List.replicate fence fenceMark).isPrefixOf =
      cs.tails.find? (List.replicate fence fenceMark).isPrefixOf := by
  have miss := not_prefix_run h hc cs
  rw [← List.isPrefixOf_iff_prefix] at miss
  induction run with
  | zero =>
    rw [List.replicate_zero, List.nil_append] at miss ⊢
    rw [List.tails_cons, List.find?_cons_of_neg miss]
  | succ run ih =>
    rw [List.replicate_succ, List.cons_append] at miss ⊢
    rw [List.tails_cons, List.find?_cons_of_neg miss]
    have h' := Nat.lt_of_succ_lt h
    exact ih h' (by simpa [← List.isPrefixOf_iff_prefix] using not_prefix_run h' hc cs)

theorem find?_tails_of_pos {p : List Char → Bool} {cs : List Char} (h : p cs) :
    cs.tails.find? p = some cs := by
  cases cs <;> simp [h]

/-- The search for a fence, with the marks in front that may belong to it. -/
theorem find?_tails_go {fence run : Nat} (h : run < fence) (cs : List Char) :
    (List.replicate run fenceMark ++ cs).tails.find?
        (List.replicate fence fenceMark).isPrefixOf =
      (find?.go fence cs run run).map (List.replicate run fenceMark ++ cs).drop := by
  induction cs generalizing run with
  | nil =>
    rw [List.append_nil, find?.go, Option.map_none, List.find?_eq_none]
    intro x hx closing
    have fits := (List.isPrefixOf_iff_prefix.1 closing).length_le
    have inside := ((List.mem_tails _ _).1 hx).length_le
    rw [List.length_replicate] at fits inside
    omega
  | cons c cs ih =>
    rw [find?.go]
    by_cases hc : c = fenceMark
    · have joined : List.replicate run fenceMark ++ c :: cs =
          List.replicate (run + 1) fenceMark ++ cs := by
        rw [hc, List.replicate_succ', List.append_assoc, List.singleton_append]
      rw [if_pos hc, joined]
      split
      · rename_i hf
        have opens := List.isPrefixOf_iff_prefix.2
          (List.prefix_append (List.replicate fence fenceMark) cs)
        rw [hf, find?_tails_of_pos opens, Nat.sub_self]
        rfl
      · exact ih (by omega)
    · rw [find?_tails_behind h hc, if_neg hc, ← Nat.zero_add (run + 1),
        find?_go_add (Nat.le_refl 0), Option.map_map]
      have pos : 0 < fence := Nat.zero_lt_of_lt h
      have fresh : cs.tails.find? _ = (find?.go fence cs 0 0).map cs.drop := ih pos
      rw [fresh]
      congr 1
      funext b
      have front : (List.replicate run fenceMark ++ [c]).length = run + 1 := by simp
      rw [Function.comp_apply, List.append_cons, Nat.add_comm b, ← List.drop_drop,
        List.drop_left' front]

theorem find?_tails {fence : Nat} (h : 0 < fence) (cs : List Char) :
    cs.tails.find? (List.replicate fence fenceMark).isPrefixOf =
      (find? fence cs).map cs.drop := find?_tails_go h cs

theorem between_drop {cs : List Char} {n : Nat} (h : n ≤ openingRun cs) :
    Regex.between cs (cs.drop n) = List.replicate n fenceMark := by
  have le := Nat.le_trans h (openingRun_le cs)
  rw [Regex.between, List.length_drop, Nat.sub_sub_self le, take_openingRun h]

/-- The block with the longest fence is found first. -/
theorem findSome?_fences {cs : List Char} {n : Nat} (h : n ≤ openingRun cs) :
    ((List.range n).reverse.map fun n => cs.drop (n + 1)).findSome? (fun rest =>
        (rest.tails.find? (Regex.between cs rest).isPrefixOf).map
          (List.drop (Regex.between cs rest).length)) =
      (ofFence? cs n).map fun f => cs.drop f.length := by
  induction n with
  | zero => rfl
  | succ n ih =>
    rw [List.range_succ, List.reverse_append, List.map_append, List.findSome?_append,
      ih (Nat.le_of_succ_le h), ofFence?, List.reverse_singleton, List.map_singleton,
      List.findSome?_singleton, between_drop h, find?_tails (Nat.succ_pos n), List.length_replicate]
    cases find? (n + 1) (cs.drop (n + 1)) with
    | none => rfl
    | some body =>
      simp only [Option.map_some, Option.some_or, List.drop_drop, length]

end Fenced

namespace Regex

theorem head?_codeEnds (cs : List Char) : (delimitedEnds fenceEnds List.tails cs).head? =
    (Token.code.length? cs).map cs.drop := by
  rw [head?_delimitedEnds, fenceEnds, flatMap_one_backwards]
  refine (Fenced.findSome?_fences (Nat.le_refl (Fenced.openingRun cs))).trans ?_
  rw [Token.length?, Option.map_map]
  rfl

/-- A character that no backslash stands in front of, or one that it takes with it. -/
def quotedChar : Regex :=
  .alt (sequence [.set true [.range '\\' '\\']]) (sequence [literal '\\', dot])

def quotes : Regex :=
  .alt (spelled Quote.tripleSingle.chars .empty)
    (.alt (spelled Quote.tripleDouble.chars .empty)
      (.alt (spelled Quote.single.chars .empty) (spelled Quote.double.chars .empty)))

def quoted : Regex :=
  .seq (.repeated .zeroOrOne true (literal 'r'))
    (.seq (.group 1 quotes)
      (.seq (.group 2 (sequence [.repeated .zeroOrMore false quotedChar]))
        (sequence [.group 3 (sequence [.back 1])])))

def quotedCharEnds (cs : List Char) : List (List Char) :=
  one (· != '\\') cs ++ (one (· == '\\') cs).flatMap (one (· != '\n'))

def quotedBody : List Char → List (List Char) := repeatedly false List.length quotedCharEnds

def quoteEnds (cs : List Char) : List (List Char) :=
  Quote.all.flatMap fun quote =>
    if quote.chars.isPrefixOf cs then [cs.drop quote.chars.length] else []

theorem takes_quotedChar : Takes false quotedChar quotedCharEnds :=
  (takes_except '\\').last.alt ((takes_literal '\\').seq takes_dot.last)

theorem takes_quotes : Takes false quotes quoteEnds := by
  intro t
  refine ((takes_spelled Quote.tripleSingle.chars).alt
    ((takes_spelled Quote.tripleDouble.chars).alt
      ((takes_spelled Quote.single.chars).alt (takes_spelled Quote.double.chars))) t).trans ?_
  simp only [quoteEnds, Quote.all, List.flatMap_cons, List.flatMap_nil, List.append_nil]

theorem ends_quoted : Ends false quoted fun cs =>
    (prefer true (one (· == 'r') cs) cs).flatMap (delimitedEnds quoteEnds quotedBody) :=
  ((takes_literal 'r').zeroOrOne true).ends.seq
    (ends_delimited (fun text => (closes_back text).group 3) takes_quotes
      (takes_quotedChar.zeroOrMore false).last)

theorem quotedBody_eq (cs : List Char) :
    quotedBody cs = cs :: ((quotedCharEnds cs).filter fun rest => rest.length < cs.length).flatMap
      quotedBody := repeatedly_eq cs

theorem quotedBody_escape {e : Char} (he : e ≠ '\n') (cs : List Char) :
    quotedBody ('\\' :: e :: cs) = ('\\' :: e :: cs) :: quotedBody cs := by
  have step : quotedCharEnds ('\\' :: e :: cs) = [cs] := by simp [quotedCharEnds, one, he]
  rw [quotedBody_eq, step, List.filter_cons_of_pos (by grind)]
  simp

theorem quotedBody_plain {c : Char} (hc : c ≠ '\\') (cs : List Char) :
    quotedBody (c :: cs) = (c :: cs) :: quotedBody cs := by
  have step : quotedCharEnds (c :: cs) = [cs] := by simp [quotedCharEnds, one, hc]
  rw [quotedBody_eq, step, List.filter_cons_of_pos (by simp)]
  simp

end Regex

namespace Quote

variable (quote : Quote)

/-- A body ends at the nearest place where a quote stands, of those that no backslash hides. -/
theorem find?_quotedBody (cs : List Char) :
    (Regex.quotedBody cs).find? quote.chars.isPrefixOf = (quote.bodyLength? cs).map cs.drop := by
  have key (n : Nat) : (Regex.quotedBody cs).find? quote.chars.isPrefixOf =
      (bodyLength?.go quote cs 0).map cs.drop := by
    induction cs, n using bodyLength?.go.induct quote with
    | case1 n => cases quote <;> rfl
    | case2 c cs n hp =>
      rw [Regex.quotedBody_eq, List.find?_cons_of_pos hp,
        go_of_closing (List.isPrefixOf_iff_prefix.1 hp)]
      rfl
    | case3 n hp =>
      rw [Regex.quotedBody_eq, List.find?_cons_of_neg hp, bodyLength?.go, if_neg hp, if_pos rfl]
      rfl
    | case4 n cs hp =>
      rw [Regex.quotedBody_eq, List.find?_cons_of_neg hp, bodyLength?.go, if_neg hp, if_pos rfl,
        if_pos rfl]
      rfl
    | case5 n e cs he hp ih =>
      rw [Regex.quotedBody_escape he, List.find?_cons_of_neg hp, ih]
      rw [List.isPrefixOf_iff_prefix] at hp
      rw [go_escape hp he, go_add, Option.map_map]
      rfl
    | case6 c cs n hp hc ih =>
      rw [Regex.quotedBody_plain hc, List.find?_cons_of_neg hp, ih]
      rw [List.isPrefixOf_iff_prefix] at hp
      rw [go_plain hp hc, go_add, Option.map_map]
      rfl
  exact key 0

end Quote

namespace Regex

theorem between_of_prefix {text cs : List Char} (h : text <+: cs) :
    between cs (cs.drop text.length) = text := by
  rw [between, List.length_drop, Nat.sub_sub_self h.length_le]
  exact (List.prefix_iff_eq_take.1 h).symm

/-- A literal whose `r`, if there is one, has been read. -/
theorem head?_delimitedEnds_quote (raw : Bool) (cs : List Char) :
    (delimitedEnds quoteEnds quotedBody cs).head? =
      (Quote.all.findSome? (Quoted.withQuote? raw cs)).map fun q =>
        cs.drop (q.length - raw.toNat) := by
  rw [delimitedEnds, quoteEnds, List.flatMap_assoc, List.head?_flatMap, List.map_findSome?]
  congr 1
  funext quote
  rw [Function.comp_apply, Quoted.withQuote?]
  split
  · rename_i hp
    rw [List.flatMap_singleton, between_of_prefix (List.isPrefixOf_iff_prefix.1 hp),
      List.head?_map, List.head?_filter, quote.find?_quotedBody, Option.map_map, Option.map_map]
    congr 1
    funext body
    simp only [Function.comp_apply, List.drop_drop, Quoted.length, Quoted.bodyStart, Nat.add_assoc,
      Nat.add_sub_cancel_left]
  · rfl

theorem head?_quotedEnds (cs : List Char) :
    ((prefer true (one (· == 'r') cs) cs).flatMap (delimitedEnds quoteEnds quotedBody)).head? =
      (Token.regexStr.length? cs).map cs.drop := by
  rw [Token.length?, Option.map_map, Quoted.match?]
  by_cases raw : cs.head? = some 'r'
  · obtain ⟨rest, rfl⟩ := List.head?_eq_some_iff.1 raw
    have none : delimitedEnds quoteEnds quotedBody ('r' :: rest) = [] := rfl
    have both : prefer true (one (· == 'r') ('r' :: rest)) ('r' :: rest) = [rest, 'r' :: rest] :=
      rfl
    rw [both, List.flatMap_cons, List.flatMap_singleton, none, List.append_nil,
      head?_delimitedEnds_quote true]
    congr 1
    funext q
    have pos : 0 < q.length := Nat.lt_of_lt_of_le q.quote.length_pos (Nat.le_add_left _ _)
    rw [Function.comp_apply, ← Nat.succ_pred_eq_of_pos pos]
    rfl
  · have plain : prefer true (one (· == 'r') cs) cs = [cs] := by
      cases cs with
      | nil => rfl
      | cons c cs => simpa [prefer, one] using raw
    have unread : (cs.head? == some 'r') = false := by simpa using raw
    rw [plain, List.flatMap_singleton, head?_delimitedEnds_quote false, unread]
    rfl

end Regex

end GrammarKit
