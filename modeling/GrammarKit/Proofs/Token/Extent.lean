import GrammarKit.Proofs.Block
import GrammarKit.Proofs.Literal.Escape
import GrammarKit.Proofs.Session.Linear
import GrammarKit.Proofs.Token.Spacer

/-!
How far matches reach, in bytes. Matches are found by characters, and a text is cut by bytes. Main
statement: what a token takes can be cut off, and on its own it is the same token with the same
length; fences and quotes lie inside what they delimit and do not overlap; and layout is skipped as a
whole.
-/

namespace GrammarKit

namespace Token

def bytes? (t : Token) (cs : List Char) : Option Nat :=
  (t.length? cs).map fun n => byteLength (cs.take n)

end Token

def layoutBytes (cs : List Char) : Nat := byteLength (cs.take (layoutLength cs))

/-- The text between two offsets. There is none between offsets in the wrong order, or if one of them
lies inside a character or behind the end. -/
def slice? (cs : List Char) (start stop : Nat) : Option (List Char) :=
  if start ≤ stop then
    match charsIn start cs, charsIn stop cs with
    | some n, some m => some ((cs.take m).drop n)
    | _, _ => none
  else none

/-! ### Offsets -/

theorem byteLength_eq_zero {cs : List Char} : byteLength cs = 0 ↔ cs = [] := by
  cases cs with
  | nil => exact ⟨fun _ => rfl, fun _ => rfl⟩
  | cons c cs =>
    have pos := c.utf8Size_pos
    refine ⟨fun none => ?_, fun none => by cases none⟩
    rw [byteLength] at none
    omega

theorem slice?_append (a b c : List Char) :
    slice? (a ++ b ++ c) (byteLength a) (byteLength (a ++ b)) = some b := by
  have ordered : byteLength a ≤ byteLength (a ++ b) := by
    rw [byteLength_append]
    exact Nat.le_add_right _ _
  have start : charsIn (byteLength a) (a ++ b ++ c) = some a.length := by
    rw [List.append_assoc, charsIn_append]
  rw [slice?, if_pos ordered, start, charsIn_append]
  dsimp only
  rw [List.take_left, List.drop_left]

theorem isValid_byteLength_take (text : String) (n : Nat) :
    (String.Pos.Raw.mk (byteLength (text.toList.take n))).IsValid text :=
  String.Pos.Raw.isValid_iff_exists_take_toList.2 ⟨n, (utf8ByteSize_ofList _).symm⟩

theorem Cursor.advance_byteLength {c : Cursor} {n : Nat} (le : n ≤ c.rest.length) :
    c.advance (byteLength (c.rest.take n)) = some (String.ofList (c.rest.take n), c.read n) := by
  rw [advance_eq_some, String.toList_ofList, utf8ByteSize_ofList, List.length_take_of_le le]
  exact ⟨List.take_prefix n c.rest, rfl, rfl⟩

/-! ### Tokens on their own -/

namespace Token

variable {t : Token} {cs : List Char} {n : Nat}

/-- A reference keeps the blanks that it has taken, and no colon follows any more. -/
theorem referenceLength?_lexeme (h : referenceLength? cs = some n) :
    referenceLength? (cs.take n) = some n := by
  obtain ⟨m, hm, -, le, gap⟩ := referenceLength?_bounds h
  have len : (cs.take n).length = n := List.length_take_of_le (length?_le (t := .ruleRef) h)
  have name : nameLength? (cs.take n) = some m := by
    rw [← List.take_append_drop n cs] at hm
    rw [← List.append_nil (cs.take n)]
    exact nameLength?_exchange hm (len.symm ▸ le) closing_nil
  have blanks : ((cs.take n).drop m).takeWhile isBlank = (cs.take n).drop m := by
    have inside : (cs.drop m).take (n - m) <+: (cs.drop m).takeWhile isBlank :=
      List.prefix_of_prefix_length_le (List.take_prefix _ _) (List.takeWhile_prefix _)
        ((List.length_take_le _ _).trans gap)
    rw [List.drop_take]
    refine List.takeWhile_eq_self_iff.2 fun c hc => ?_
    exact List.all_eq_true.1 List.all_takeWhile c (inside.subset hc)
  refine referenceLength?_eq_some.2 ⟨m, name, ?_⟩
  dsimp only
  rw [blanks, List.drop_length, List.length_drop, len, if_neg (by simp)]
  omega

theorem length?_take_self (h : t.length? cs = some n) : t.length? (cs.take n) = some n := by
  by_cases ht : t = .textEnd
  · subst ht
    simp only [length?] at h ⊢
    split at h
    next empty =>
      rw [List.isEmpty_iff.1 empty, List.take_nil]
      exact h
    next => cases h
  by_cases href : t = .ruleRef
  · subst href
    exact referenceLength?_lexeme h
  · exact length?_lexeme ht href h

theorem bytes?_eq_some {bytes : Nat} : t.bytes? cs = some bytes ↔
    ∃ k, t.length? cs = some k ∧ byteLength (cs.take k) = bytes := Option.map_eq_some_iff

theorem bytes?_take_self (h : t.length? cs = some n) :
    t.bytes? (cs.take n) = some (byteLength (cs.take n)) :=
  bytes?_eq_some.2 ⟨n, length?_take_self h, by rw [List.take_take, Nat.min_self]⟩

theorem byteLength_take_ne_zero (ht : t ≠ .textEnd) (h : t.length? cs = some n) :
    byteLength (cs.take n) ≠ 0 := by
  intro none
  have len := List.length_take_of_le (length?_le h)
  rw [byteLength_eq_zero.1 none] at len
  have pos := length?_pos ht h
  rw [← len] at pos
  exact Nat.lt_irrefl 0 pos

/-! A reference is counted without looking at the characters that it takes: what is left behind the
blanks is taken off the text behind the name, and from that a last blank if a colon follows. -/

theorem utf8Size_of_isNameChar {c : Char} (h : isNameChar c) : c.utf8Size = 1 := by
  have code := (isNameChar_iff c).1 h
  rw [Char.utf8Size_eq_one_iff, UInt32.le_iff_toNat_le]
  change c.toNat ≤ 127
  omega

theorem byteLength_name {m : Nat} (h : nameLength? cs = some m) : byteLength (cs.take m) = m := by
  rw [byteLength_of_utf8Size fun c hc => utf8Size_of_isNameChar (isNameChar_of_mem_take h hc),
    List.length_take_of_le (nameLength?_le h)]

def lastBytes (gap : List Char) : Nat := (gap.getLast?.map Char.utf8Size).getD 0

theorem byteLength_dropLast (gap : List Char) :
    byteLength (gap.take (gap.length - 1)) = byteLength gap - lastBytes gap := by
  rcases List.eq_nil_or_concat gap with rfl | ⟨front, c, rfl⟩
  · rfl
  · rw [lastBytes, List.concat_eq_append, List.getLast?_concat, List.length_append,
      List.length_singleton, Nat.add_sub_cancel, List.take_left, byteLength_append]
    simp [byteLength]

theorem bytes?_ruleRef (cs : List Char) : Token.ruleRef.bytes? cs =
    (nameLength? cs).bind fun m =>
      let tail := cs.drop m
      let gap := tail.takeWhile isBlank
      if tail.head? = some ':' then none
      else if (tail.dropWhile isBlank).head? = some ':' then
        some (m + (byteLength gap - lastBytes gap))
      else some (m + byteLength gap) := by
  rw [bytes?, length?, referenceLength?, blankedLength?]
  cases hm : nameLength? cs with
  | none => rfl
  | some m =>
    have bytes (k : Nat) : byteLength (cs.take (m + k)) = m + byteLength ((cs.drop m).take k) := by
      rw [List.take_add, byteLength_append, byteLength_name hm]
    dsimp only [Option.bind_some]
    generalize cs.drop m = tail at bytes
    rw [← dropWhile_eq_drop]
    have run := List.takeWhile_append_dropWhile (p := isBlank) (l := tail)
    have blank := List.all_takeWhile (p := isBlank) (l := tail)
    generalize tail.takeWhile isBlank = gap at run blank ⊢
    generalize tail.dropWhile isBlank = rest at run ⊢
    subst run
    cases gap with
    | nil =>
      rw [List.nil_append]
      split
      next => rfl
      next => rw [Option.map_some, bytes]; rfl
    | cons c gap =>
      have other : (c :: gap ++ rest).head? ≠ some ':' := by
        rw [List.all_cons, Bool.and_eq_true] at blank
        rw [List.cons_append, List.head?_cons, Ne, Option.some.injEq]
        exact ne_of_isBlank blank.1 (by decide)
      have some : (c :: gap).length ≠ 0 := Nat.succ_ne_zero _
      rw [if_neg other, if_neg some]
      split
      next =>
        rw [Option.map_some, bytes, List.take_append_of_le_length (Nat.sub_le _ _),
          byteLength_dropLast]
      next => rw [Option.map_some, bytes, List.take_left]

end Token

/-! ### Delimiters -/

theorem Fenced.byteLength_lexeme {cs : List Char} {f : Fenced} (h : match? cs = some f) :
    byteLength (cs.take f.length) = f.fence + byteLength (f.between cs) + f.fence := by
  rw [lexeme_eq h, byteLength_append, byteLength_append, byteLength_fence]

theorem Quote.closing_prefix {quote : Quote} {cs : List Char} {n b : Nat}
    (h : bodyLength?.go quote cs n = some b) : quote.chars <+: cs.drop (b - n) := by
  induction cs, n using go_induct quote with
  | stuck cs n dead =>
    rw [dead] at h
    cases h
  | close cs n hp =>
    rw [go_of_closing hp] at h
    cases h
    rwa [Nat.sub_self]
  | escape e cs n hp he ih =>
    rw [go_escape hp he] at h
    have le := (go_bounds h).1
    have two : b - n = b - (n + 2) + 2 := by omega
    rw [two]
    exact ih h
  | plain c cs n hp hc ih =>
    rw [go_plain hp hc] at h
    have le := (go_bounds h).1
    have one : b - n = b - (n + 1) + 1 := by omega
    rw [one]
    exact ih h

namespace Quoted

variable {cs : List Char} {q : Quoted}

def mark (q : Quoted) : List Char := if q.raw then ['r'] else []

theorem byteLength_mark (q : Quoted) : byteLength q.mark = q.raw.toNat := by
  rw [mark]
  cases q.raw <;> rfl

theorem lexeme_eq (h : match? cs = some q) :
    cs.take q.length = q.mark ++ q.quote.chars ++ q.body cs ++ q.quote.chars := by
  obtain ⟨raw, -, opening, hn⟩ := withQuote?_eq_some.1 (Token.withQuote?_of_match? h)
  have closing := Quote.closing_prefix hn
  rw [Nat.sub_zero, List.drop_drop, List.drop_drop, ← raw, ← Nat.add_assoc] at closing
  rw [← raw] at opening
  have front : cs.take q.raw.toNat = q.mark := by
    rw [mark]
    cases hraw : q.raw with
    | false => rfl
    | true =>
      rw [hraw] at raw
      obtain ⟨rest, rfl⟩ := List.head?_eq_some_iff.1 (beq_iff_eq.1 raw.symm)
      rfl
  rw [length, bodyStart, List.take_add, List.take_add, List.take_add, front,
    ← List.prefix_iff_eq_take.1 opening, body, bodyStart, ← List.prefix_iff_eq_take.1 closing]

end Quoted

/-! ### Layout -/

theorem head_settle {cs : List Char} {c : Char} (h : (settle cs).head? = some c) :
    isBlank c = false ∧ c ≠ '#' := by
  obtain ⟨rest, hrest⟩ := List.head?_eq_some_iff.1 h
  have settled := settled_settle cs
  rw [hrest] at settled
  exact settled.head.symm

theorem Session.skipLayout_skipLayout (s : Session) : s.skipLayout.skipLayout = s.skipLayout := by
  have none : layoutLength s.skipLayout.cursor.rest = 0 := (settled_settle _).layoutLength
  rw [skipLayout, none, Cursor.read_zero]

/-! ### What is taken from a text -/

section

variable {text : String}

theorem advance_ofText {n : Nat} (le : n ≤ text.toList.length) :
    (Cursor.ofText text).advance (byteLength (text.toList.take n)) =
      some (String.ofList (text.toList.take n), (Cursor.ofText text).read n) :=
  Cursor.advance_byteLength (c := .ofText text) le

theorem Token.bytes?_extent {t : Token} {n : Nat} (h : t.bytes? text.toList = some n) :
    n ≤ text.utf8ByteSize ∧ (String.Pos.Raw.mk n).IsValid text ∧ (n = 0 → t = .textEnd) ∧
      ∃ lexeme after, (Cursor.ofText text).advance n = some (lexeme, after) ∧
        t.bytes? lexeme.toList = some n := by
  obtain ⟨k, hk, rfl⟩ := bytes?_eq_some.1 h
  have valid := isValid_byteLength_take text k
  refine ⟨valid.le_utf8ByteSize, valid, ?_, _, _, advance_ofText (length?_le hk), ?_⟩
  · intro none
    by_contra ht
    exact byteLength_take_ne_zero ht hk none
  · rw [String.toList_ofList]
    exact bytes?_take_self hk

theorem Fenced.exists_bytes? {f : Fenced} (h : match? text.toList = some f) :
    ∃ n, Token.code.bytes? text.toList = some n ∧ 1 ≤ f.fence ∧ 2 * f.fence ≤ n ∧
      n = f.fence + byteLength (f.between text.toList) + f.fence := by
  have hn : Token.code.length? text.toList = some f.length :=
    Option.map_eq_some_iff.2 ⟨f, h, rfl⟩
  have size := byteLength_lexeme h
  refine ⟨_, Token.bytes?_eq_some.2 ⟨_, hn, rfl⟩, (ofFence?_eq_some.1 h).1, ?_, size⟩
  omega

/-- The body begins in front of where it ends. -/
theorem Quoted.exists_bytes? {q : Quoted} (h : match? text.toList = some q) :
    ∃ n lexeme after, Token.regexStr.bytes? text.toList = some n ∧
      (Cursor.ofText text).advance n = some (lexeme, after) ∧
      q.raw.toNat + 2 * byteLength q.quote.chars ≤ n ∧
      lexeme.toList = q.mark ++ q.quote.chars ++ q.body lexeme.toList ++ q.quote.chars ∧
      slice? lexeme.toList (q.raw.toNat + byteLength q.quote.chars)
        (n - byteLength q.quote.chars) = some (q.body lexeme.toList) := by
  have hn : Token.regexStr.length? text.toList = some q.length :=
    Option.map_eq_some_iff.2 ⟨q, h, rfl⟩
  have lexeme := lexeme_eq h
  have size := congrArg byteLength lexeme
  simp only [byteLength_append, byteLength_mark] at size
  refine ⟨_, _, _, Token.bytes?_eq_some.2 ⟨_, hn, rfl⟩, advance_ofText (Token.length?_le hn), ?_⟩
  rw [String.toList_ofList, body_take]
  refine ⟨by omega, lexeme, ?_⟩
  have start : q.raw.toNat + byteLength q.quote.chars = byteLength (q.mark ++ q.quote.chars) := by
    rw [byteLength_append, byteLength_mark]
  have stop : byteLength (text.toList.take q.length) - byteLength q.quote.chars =
      byteLength (q.mark ++ q.quote.chars ++ q.body text.toList) := by
    rw [byteLength_append, byteLength_append, byteLength_mark]
    omega
  rw [start, stop, lexeme, slice?_append]

theorem layoutBytes_extent (text : String) :
    (String.Pos.Raw.mk (layoutBytes text.toList)).IsValid text ∧
      ∃ layout after, (Cursor.ofText text).advance (layoutBytes text.toList) = some (layout, after) ∧
        (∀ c, after.rest.head? = some c → isBlank c = false ∧ c ≠ '#') ∧
        layoutBytes after.rest = 0 := by
  refine ⟨isValid_byteLength_take text _, _, _, advance_ofText (layoutLength_le _), ?_, ?_⟩
  · intro c hc
    exact head_settle hc
  · have none : layoutLength (settle text.toList) = 0 := (settled_settle _).layoutLength
    exact byteLength_eq_zero.2 (congrArg (List.take · _) none)

end

/-- What a token takes ends between two characters of the text, is something unless the token is the
end of the text, and cut off it is as long again. The delimiters of a block of code or of a quoted
literal fit into it side by side. Behind the layout stands none. -/
theorem match_extents (text : String) :
    (∀ t n, Token.bytes? t text.toList = some n →
      n ≤ text.utf8ByteSize ∧ (String.Pos.Raw.mk n).IsValid text ∧ (n = 0 → t = .textEnd) ∧
        ∃ lexeme after, (Cursor.ofText text).advance n = some (lexeme, after) ∧
          t.bytes? lexeme.toList = some n) ∧
    (∀ f, Fenced.match? text.toList = some f → ∃ n, Token.code.bytes? text.toList = some n ∧
      1 ≤ f.fence ∧ 2 * f.fence ≤ n ∧
        n = f.fence + byteLength (f.between text.toList) + f.fence) ∧
    (∀ q, Quoted.match? text.toList = some q → ∃ n lexeme after,
      Token.regexStr.bytes? text.toList = some n ∧
        (Cursor.ofText text).advance n = some (lexeme, after) ∧
        q.raw.toNat + 2 * byteLength q.quote.chars ≤ n ∧
        lexeme.toList = q.mark ++ q.quote.chars ++ q.body lexeme.toList ++ q.quote.chars ∧
        slice? lexeme.toList (q.raw.toNat + byteLength q.quote.chars)
          (n - byteLength q.quote.chars) = some (q.body lexeme.toList)) ∧
    ((String.Pos.Raw.mk (layoutBytes text.toList)).IsValid text ∧
      ∃ layout after, (Cursor.ofText text).advance (layoutBytes text.toList) = some (layout, after) ∧
        (∀ c, after.rest.head? = some c → isBlank c = false ∧ c ≠ '#') ∧
        layoutBytes after.rest = 0) ∧
    ∀ s : Session, s.skipLayout.skipLayout = s.skipLayout := by
  refine ⟨?_, ?_, ?_, layoutBytes_extent text, Session.skipLayout_skipLayout⟩
  · intro t n h
    exact Token.bytes?_extent h
  · intro f h
    exact Fenced.exists_bytes? h
  · intro q h
    exact Quoted.exists_bytes? h

/-- A reference leaves the last of the blanks in front of a colon, however many bytes each has. -/
theorem match_extents_wide :
    Token.ruleRef.bytes? "a\u3000\u00a0:".toList = some 4 ∧
      (String.Pos.Raw.mk 4).IsValid "a\u3000\u00a0:" ∧
      (∃ n, Token.code.bytes? "``é`".toList = some n ∧ 2 * 1 ≤ n) ∧
      ∃ n, Token.regexStr.bytes? "r'é'".toList = some n ∧
        true.toNat + 2 * byteLength ['\''] ≤ n := by
  have taken : Token.ruleRef.bytes? "a\u3000\u00a0:".toList = some 4 := by decide
  have block : Fenced.match? "``é`".toList = some ⟨1, 0⟩ := by decide
  have quoted : Quoted.match? "r'é'".toList = some ⟨true, .single, 1⟩ := by decide
  refine ⟨taken, ((match_extents _).1 .ruleRef 4 taken).2.1, ?_, ?_⟩
  · obtain ⟨n, hn, -, le, -⟩ := (match_extents _).2.1 _ block
    exact ⟨n, hn, le⟩
  · obtain ⟨n, -, -, hn, -, le, -⟩ := (match_extents _).2.2.1 _ quoted
    exact ⟨n, hn, le⟩

end GrammarKit
