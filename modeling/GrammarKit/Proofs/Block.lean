import GrammarKit.Proofs.Parse
import GrammarKit.Proofs.Printed.Fence
import GrammarKit.Proofs.Rule.Halting
import GrammarKit.Proofs.Text.Blank
import GrammarKit.Proofs.Token.Pattern.Delimited

/-!
Blocks of code. A block is recognized with one fence and cut with another: recognizing it settles on
the longest fence that closes, and cutting it takes the whole run of backticks at its start. Main
statement: a block is read as the text between the fences that were recognized exactly if the two
agree, and where they agree no parse breaks off.
-/

namespace GrammarKit

namespace Fenced

variable {cs front text : List Char} {f : Fenced} {n : Nat}

def between (f : Fenced) (cs : List Char) : List Char := (cs.drop f.fence).take f.bodyLength

theorem lexeme_eq (h : match? cs = some f) : cs.take f.length =
    List.replicate f.fence fenceMark ++ f.between cs ++ List.replicate f.fence fenceMark := by
  obtain ⟨pos, le, found, -⟩ := ofFence?_eq_some.1 h
  have closing : List.replicate f.fence fenceMark <+: (cs.drop f.fence).drop f.bodyLength := by
    have tails := find?_tails pos (cs.drop f.fence)
    rw [found] at tails
    exact List.isPrefixOf_iff_prefix.1 (List.find?_some tails)
  rw [length, List.take_add, List.take_add, take_openingRun le, between, ← List.drop_drop,
    List.prefix_iff_eq_take.1 closing, List.length_replicate]

theorem eq_fence_of_sublist (h : List.Sublist cs (List.replicate n fenceMark)) :
    cs = List.replicate (byteLength cs) fenceMark := by
  obtain ⟨m, -, rfl⟩ := List.sublist_replicate_iff.1 h
  rw [byteLength_fence]

theorem le_count_of_suffix (h : text <:+ front ++ List.replicate n fenceMark)
    (enough : n ≤ byteLength text) : n ≤ text.count fenceMark := by
  rcases List.suffix_or_suffix_of_suffix (List.suffix_append front _) h with long | short
  · have le := long.sublist.count_le fenceMark
    rwa [List.count_replicate_self] at le
  · rwa [eq_fence_of_sublist short.sublist, List.count_replicate_self]

/-- As many bytes at the start as the opening run has begin with the run. -/
theorem take_eq_fence (h : text <+: cs) (enough : openingRun cs ≤ byteLength text) :
    text.take (openingRun cs) = List.replicate (openingRun cs) fenceMark := by
  have opening := take_openingRun (Nat.le_refl (openingRun cs))
  rcases List.prefix_or_prefix_of_prefix (List.take_prefix (openingRun cs) cs) h with long | short
  · rw [opening, List.prefix_iff_eq_take, List.length_replicate] at long
    exact long.symm
  · rw [opening] at short
    rw [eq_fence_of_sublist short.sublist, List.take_replicate, Nat.min_eq_left enough]

/-- Where a whole run of backticks is cut off at either end, no more of them are left than were in
front of the closing fence, less that run. -/
theorem count_body? (h : body? (front ++ List.replicate n fenceMark) = some text)
    (le : n ≤ openingRun (front ++ List.replicate n fenceMark)) :
    text.count fenceMark + openingRun (front ++ List.replicate n fenceMark) ≤
      front.count fenceMark := by
  have closing (l : List Char) (hl : l <:+ front ++ List.replicate n fenceMark) :=
    le_count_of_suffix hl
  have total : (front ++ List.replicate n fenceMark).count fenceMark =
      front.count fenceMark + n := by
    rw [List.count_append, List.count_replicate_self]
  rw [body?] at h
  generalize front ++ List.replicate n fenceMark = lexeme at *
  split at h
  · cases h
  rename_i enough
  obtain ⟨k, hk, rfl⟩ := Option.map_eq_some_iff.1 h
  have kept := byteLength_take hk
  have bytes := congrArg byteLength (List.take_append_drop k lexeme)
  rw [byteLength_append] at bytes
  have lost := closing _ (List.drop_suffix k lexeme) (by omega)
  have first := take_eq_fence (List.take_prefix k lexeme) (by omega)
  have marks := congrArg (List.count fenceMark) (List.take_append_drop k lexeme)
  have front := congrArg (List.count fenceMark)
    (List.take_append_drop (openingRun lexeme) (lexeme.take k))
  rw [List.count_append] at marks
  rw [List.count_append, first, List.count_replicate_self] at front
  omega

/-- A block is cut at the fences that it was recognized with exactly if no backtick is left over. -/
theorem trim_body?_eq (h : match? cs = some f) :
    (body? (cs.take f.length)).map trim = some (trim (f.between cs)) ↔
      f.fence = openingRun cs := by
  obtain ⟨pos, le, -⟩ := ofFence?_eq_some.1 h
  have part := min_openingRun (cs.take f.length) (cs.drop f.length)
  rw [List.take_append_drop, lexeme_eq h] at part
  have len : (List.replicate f.fence fenceMark ++ f.between cs ++
      List.replicate f.fence fenceMark).length = f.length := by
    rw [← lexeme_eq h]
    exact List.length_take_of_le (Token.length_le_of_match?_fenced h)
  rw [len] at part
  have long : f.fence + f.fence ≤ f.length := by
    rw [length]
    omega
  rw [lexeme_eq h]
  constructor
  · intro same
    obtain ⟨text, cut, trimmed⟩ := Option.map_eq_some_iff.1 same
    have counts := congrArg (List.count fenceMark) trimmed
    rw [count_trim (by decide), count_trim (by decide)] at counts
    have kept := count_body? cut (by omega)
    rw [List.count_append, List.count_replicate_self] at kept
    omega
  · intro even
    rw [body?_of_openingRun (by omega), Option.map_some]

end Fenced

/-- What the rule does where a block stands at the cursor. -/
theorem exec_code {s : Session} {f : Fenced} (h : Fenced.match? s.cursor.rest = some f) :
    Rule.Body.code.exec s =
      match Fenced.body? (s.cursor.rest.take f.length) with
      | some text => .ok (.ok (.ofCode text), { s with cursor := s.cursor.read f.length })
      | none => .error .unevenFence := by
  have hit : Token.code.length? s.cursor.rest = some f.length :=
    Option.map_eq_some_iff.2 ⟨f, h, rfl⟩
  simp only [Rule.Body.code, Handler.bind_eq, Handler.lexeme, Handler.bind, Handler.exec,
    s.consume_of_hit hit, Handler.ofExcept]
  cases Fenced.body? (s.cursor.rest.take f.length) <;> rfl

theorem ofCode_inj {text text' : List Char} :
    Expr.ofCode text = Expr.ofCode text' ↔ trim text = trim text' := by
  rw [Expr.ofCode, Expr.ofCode, Expr.code.injEq, String.ofList_inj]

theorem exec_code_between {s : Session} {f : Fenced} (h : Fenced.match? s.cursor.rest = some f) :
    Rule.Body.code.exec s =
        .ok (.ok (.ofCode (f.between s.cursor.rest)), { s with cursor := s.cursor.read f.length }) ↔
      f.fence = Fenced.openingRun s.cursor.rest := by
  rw [exec_code h, ← Fenced.trim_body?_eq h]
  cases Fenced.body? (s.cursor.rest.take f.length) with
  | none => simp
  | some text => simp [ofCode_inj]

/-- A rule that breaks off has met a block that is not cut at the fences it was recognized with. -/
theorem exists_uneven_of_run {s : Session} (hs : s.Reachable) {r : Rule} {why : Abort}
    (h : s.run r = .error why) : why = .unevenFence ∧ ∃ cs f, cs <:+ s.cursor.rest ∧
      Fenced.match? cs = some f ∧ f.fence < Fenced.openingRun cs := by
  cases why with
  | exhausted => exact absurd h (Session.run_ne_exhausted hs r)
  | unevenFence =>
    refine ⟨rfl, ?_⟩
    rw [Session.run_eq_exec] at h
    have halts : (Rule.calls (Rule.fuelFor s.text) r).Halts := by
      rw [Rule.calls, Handler.halts_call]
      exact Rule.halts_handler _ r
    obtain ⟨cs, mem, n, hn, uncut⟩ := (halts.exec_eq_unevenFence s).1 h
    obtain ⟨f, hf, rfl⟩ := Option.map_eq_some_iff.1 hn
    refine ⟨cs, f, (Rule.careful_calls _ r).suffix_of_consumed mem, hf, ?_⟩
    refine Nat.lt_of_le_of_ne (Fenced.ofFence?_eq_some.1 hf).2.1 fun even => ?_
    rw [← Fenced.trim_body?_eq hf, uncut] at even
    cases even

/-- Somewhere in the text a block begins with more backticks than it is recognized with. -/
def Fenced.UnevenIn (text : String) : Prop :=
  ∃ cs f, cs <:+ text.toList ∧ match? cs = some f ∧ f.fence < openingRun cs

theorem Session.Reachable.unevenIn_of_run {s : Session} (hs : s.Reachable) {r : Rule} {why : Abort}
    (h : s.run r = .error why) : why = .unevenFence ∧ Fenced.UnevenIn s.text := by
  obtain ⟨uneven, cs, f, behind, found, lt⟩ := exists_uneven_of_run hs h
  obtain ⟨seen, htext, -⟩ := hs.coherent.exists_read
  have ahead : s.cursor.rest <:+ s.text.toList := ⟨seen, htext.symm⟩
  exact ⟨uneven, cs, f, behind.trans ahead, found, lt⟩

/-- A block of code is read as the text between the fences that it was recognized with exactly if
its opening fence is the whole run of backticks there, and a parse breaks off only in a text that
has a block of which this is not so. -/
theorem code_reads_between (s : Session) (text : String) (options : Options) :
    (∀ f, Fenced.match? s.cursor.rest = some f →
      (Rule.Body.code.exec s =
          .ok (.ok (.ofCode (f.between s.cursor.rest)),
            { s with cursor := s.cursor.read f.length }) ↔
        f.fence = Fenced.openingRun s.cursor.rest)) ∧
      ∀ why, parseWith text options = .error why → ∃ cs f, cs <:+ text.toList ∧
        Fenced.match? cs = some f ∧ f.fence < Fenced.openingRun cs := by
  refine ⟨fun f h => exec_code_between h, fun why h => ?_⟩
  unfold parseWith at h
  split at h
  next why' hrun => exact (exists_uneven_of_run (.start text options.debug) hrun).2
  · cases h
  · cases h

theorem code_reads_between_even :
    Rule.Body.code.exec (Session.ofText "``x``" false) =
      .ok (.ok (.code "x"),
        { Session.ofText "``x``" false with cursor := (Cursor.ofText "``x``").read 5 }) :=
  ((code_reads_between (.ofText "``x``" false) "``x``" ⟨.code, false⟩).1 ⟨2, 1⟩ (by decide)).2
    (by decide)

/-- Two backticks are a block without text, and three in front of two are one of a backtick and what
stands behind it. -/
theorem code_uneven :
    (Fenced.match? ['`', '`'] = some ⟨1, 0⟩ ∧
      parseWith "``" ⟨.code, false⟩ = .error .unevenFence) ∧
    Fenced.match? ['`', '`', '`', 'x', '`', '`'] = some ⟨2, 2⟩ ∧
      (⟨2, 2⟩ : Fenced).between ['`', '`', '`', 'x', '`', '`'] = ['`', 'x'] ∧
      ∃ s, Rule.Body.code.exec (Session.ofText "```x``" false) = .ok (.ok (.code ""), s) := by
  refine ⟨⟨by decide, ?_⟩, by decide, by decide, ?_⟩
  · rfl
  · exact ⟨_, rfl⟩

end GrammarKit
