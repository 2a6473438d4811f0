import GrammarKit.Proofs.Layout
import GrammarKit.Token.Match

/-!
What the first character says about a token. Two tokens that stand at one place have the same lead,
so most tokens exclude all others; only names, references, words and quoted literals can meet, and
numbers with plus signs.
-/

namespace GrammarKit

inductive Lead where
  | word
  | number
  | mark (c : Char)
  | absent
  deriving DecidableEq, Repr

def Lead.ofChar (c : Char) : Lead :=
  if isNameStart c ∨ c = '\'' ∨ c = '"' then .word
  else if c.isDigit ∨ c = '+' ∨ c = '-' ∨ c = '.' then .number
  else .mark c

theorem isBlank_iff (c : Char) : isBlank c = true ↔
    (0x09 ≤ c.toNat ∧ c.toNat ≤ 0x0D) ∨ c.toNat = 0x20 ∨ c.toNat = 0x85 ∨ c.toNat = 0xA0 ∨
      c.toNat = 0x1680 ∨ (0x2000 ≤ c.toNat ∧ c.toNat ≤ 0x200A) ∨ c.toNat = 0x2028 ∨
      c.toNat = 0x2029 ∨ c.toNat = 0x202F ∨ c.toNat = 0x205F ∨ c.toNat = 0x3000 := by
  simp only [isBlank, blankRanges, List.any_cons, List.any_nil, Bool.or_false, Bool.or_eq_true,
    Bool.and_eq_true, decide_eq_true_eq]
  omega

theorem isDigit_iff (c : Char) : c.isDigit = true ↔ 0x30 ≤ c.toNat ∧ c.toNat ≤ 0x39 := by
  show (decide (c.val ≥ 48) && decide (c.val ≤ 57)) = true ↔ _
  simp [UInt32.le_iff_toNat_le]

theorem isAlpha_iff (c : Char) : c.isAlpha = true ↔
    (0x41 ≤ c.toNat ∧ c.toNat ≤ 0x5A) ∨ (0x61 ≤ c.toNat ∧ c.toNat ≤ 0x7A) := by
  show (decide (c.val ≥ 65 ∧ c.val ≤ 90) ||
    (decide (c.val ≥ 97) && decide (c.val ≤ 122))) = true ↔ _
  simp [UInt32.le_iff_toNat_le]

theorem isNameStart_iff (c : Char) : isNameStart c = true ↔
    (0x41 ≤ c.toNat ∧ c.toNat ≤ 0x5A) ∨ c.toNat = 0x5F ∨ (0x61 ≤ c.toNat ∧ c.toNat ≤ 0x7A) := by
  rw [isNameStart, Bool.or_eq_true, isAlpha_iff, beq_iff_eq, ← Char.toNat_inj]
  show _ ∨ c.toNat = 0x5F ↔ _
  omega

theorem isNameChar_iff (c : Char) : isNameChar c = true ↔
    (0x30 ≤ c.toNat ∧ c.toNat ≤ 0x39) ∨ (0x41 ≤ c.toNat ∧ c.toNat ≤ 0x5A) ∨ c.toNat = 0x5F ∨
      (0x61 ≤ c.toNat ∧ c.toNat ≤ 0x7A) := by
  rw [isNameChar, Bool.or_eq_true, beq_iff_eq, ← Char.toNat_inj]
  show (c.isAlpha || c.isDigit) = true ∨ c.toNat = 0x5F ↔ _
  rw [Bool.or_eq_true, isAlpha_iff, isDigit_iff]
  omega

theorem isNameChar_of_isNameStart {c : Char} (h : isNameStart c) : isNameChar c := by
  rw [isNameStart_iff] at h
  rw [isNameChar_iff]
  omega

theorem isBlank_of_isNameChar {c : Char} (h : isNameChar c) : isBlank c = false := by
  rw [isNameChar_iff] at h
  rw [← Bool.not_eq_true, isBlank_iff]
  omega

theorem mark_of_isBlank {c : Char} (h : isBlank c) : Lead.ofChar c = .mark c := by
  have hw : ¬(isNameStart c ∨ c = '\'' ∨ c = '"') := by
    rw [isBlank_iff] at h
    rw [isNameStart_iff]
    rintro (hc | rfl | rfl)
    · omega
    · revert h
      decide
    · revert h
      decide
  have hn : ¬(c.isDigit ∨ c = '+' ∨ c = '-' ∨ c = '.') := by
    rw [isBlank_iff] at h
    rw [isDigit_iff]
    rintro (hc | rfl | rfl | rfl)
    · omega
    all_goals
      revert h
      decide
  rw [Lead.ofChar, if_neg hw, if_neg hn]

theorem number_of_isDigit {c : Char} (h : c.isDigit) : Lead.number = Lead.ofChar c := by
  have hw : ¬(isNameStart c ∨ c = '\'' ∨ c = '"') := by
    rw [isDigit_iff] at h
    rw [isNameStart_iff]
    rintro (hc | rfl | rfl)
    · omega
    · revert h
      decide
    · revert h
      decide
  simp only [Lead.ofChar, if_neg hw, h, true_or, if_true]

namespace Quote

theorem chars_eq (quote : Quote) : ∃ m rest, (m = '\'' ∨ m = '"') ∧ quote.chars = m :: rest ∧
    ∀ c ∈ rest, c = m := by
  cases quote
  · exact ⟨'\'', ['\'', '\''], by simp, rfl, by simp⟩
  · exact ⟨'"', ['"', '"'], by simp, rfl, by simp⟩
  · exact ⟨'\'', [], by simp, rfl, by simp⟩
  · exact ⟨'"', [], by simp, rfl, by simp⟩

end Quote

namespace Token

def lead : Token → Lead
  | argKvsep => .mark '='
  | argSep => .mark ','
  | argsSign => .mark '@'
  | brktBeg => .mark '('
  | brktEnd => .mark ')'
  | code => .mark '`'
  | textEnd => .absent
  | litBool | litNone | regexStr | ruleName | ruleRef => .word
  | litNum | occ1mTrailer => .number
  | occ01Trailer => .mark '?'
  | occ0mTrailer => .mark '*'
  | orExprOp => .mark '|'
  | ruleColon => .mark ':'
  | sqrbrktBeg => .mark '['
  | sqrbrktEnd => .mark ']'

theorem charLength?_eq_some {mark : Char} {cs : List Char} {n : Nat} :
    charLength? mark cs = some n ↔ n = 1 ∧ ∃ rest, cs = mark :: rest := by
  cases cs <;> simp [charLength?, eq_comm, and_comm]

theorem wordLength?_eq_some {word cs : List Char} {n : Nat} :
    wordLength? word cs = some n ↔
      n = word.length ∧ ∃ rest, cs = word ++ rest ∧ rest.head?.any isNameChar = false := by
  unfold wordLength?
  constructor
  · intro h
    split at h
    · rename_i hc
      simp only [Bool.and_eq_true, List.isPrefixOf_iff_prefix, Bool.not_eq_true'] at hc
      obtain ⟨⟨rest, rfl⟩, hrest⟩ := hc
      rw [List.drop_left] at hrest
      exact ⟨(Option.some.inj h).symm, rest, rfl, hrest⟩
    · exact absurd h (by simp)
  · rintro ⟨rfl, rest, rfl, hrest⟩
    simp [hrest]

theorem nameLength?_eq_some {cs : List Char} {n : Nat} :
    nameLength? cs = some n ↔
      ∃ c rest, cs = c :: rest ∧ isNameStart c ∧ n = (rest.takeWhile isNameChar).length + 1 := by
  cases cs with
  | nil => simp [nameLength?]
  | cons c rest =>
    rw [nameLength?]
    split
    · rename_i hc
      constructor
      · intro h
        exact ⟨c, rest, rfl, hc, (Option.some.inj h).symm⟩
      · rintro ⟨_, _, ⟨⟩, _, rfl⟩
        rfl
    · rename_i hc
      constructor
      · intro h
        cases h
      · rintro ⟨_, _, ⟨⟩, h, _⟩
        exact absurd h hc

theorem referenceLength?_eq_some {cs : List Char} {n : Nat} :
    referenceLength? cs = some n ↔
      ∃ m, nameLength? cs = some m ∧
        let tail := cs.drop m
        let gap := (tail.takeWhile isBlank).length
        if (tail.drop gap).head? = some ':' then gap ≠ 0 ∧ n = m + (gap - 1) else n = m + gap := by
  unfold referenceLength? blankedLength?
  cases nameLength? cs with
  | none => simp
  | some m =>
    simp only [Option.some.injEq, exists_eq_left']
    split
    · split
      · rename_i h
        simp [h]
      · rename_i h
        simp [h, eq_comm (b := n)]
    · rw [Option.some.injEq, eq_comm]

theorem numberLength?_eq_some {cs : List Char} {n : Nat} :
    numberLength? cs = some n ↔
      let sign := signLength cs
      let whole := digitsLength (cs.drop sign)
      let fraction := fractionLength (cs.drop (sign + whole))
      let plain := sign + whole + fraction
      n = plain + exponentLength (cs.drop plain) ∧ ¬(whole = 0 ∧ fraction ≤ 1) := by
  unfold numberLength?
  simp only
  split
  · rename_i h
    exact ⟨fun e => absurd e (by simp), fun e => absurd h e.2⟩
  · rename_i h
    rw [Option.some.injEq]
    exact ⟨fun e => ⟨e.symm, h⟩, fun e => e.1.symm⟩

theorem openingRun_of_match? {cs : List Char} {f : Fenced} (h : Fenced.match? cs = some f) :
    0 < f.fence ∧ f.fence ≤ Fenced.openingRun cs := by
  unfold Fenced.match? at h
  generalize Fenced.openingRun cs = run at h ⊢
  induction run with
  | zero => cases h
  | succ run ih =>
    rw [Fenced.ofFence?] at h
    split at h
    · cases h
      simp
    · obtain ⟨pos, le⟩ := ih h
      exact ⟨pos, by omega⟩

theorem withQuote?_of_match? {cs : List Char} {q : Quoted} (h : Quoted.match? cs = some q) :
    Quoted.withQuote? (cs.head? == some 'r') (cs.drop (cs.head? == some 'r').toNat) q.quote =
      some q := by
  obtain ⟨quote, _, hq⟩ := List.exists_of_findSome?_eq_some h
  have hquote : q.quote = quote := by
    unfold Quoted.withQuote? at hq
    split at hq
    · obtain ⟨n, _, rfl⟩ := Option.map_eq_some_iff.1 hq
      rfl
    · cases hq
  rw [hquote]
  exact hq

theorem quote_prefix_of_withQuote? {raw : Bool} {cs : List Char} {quote : Quote} {q : Quoted}
    (h : Quoted.withQuote? raw cs quote = some q) : quote.chars <+: cs := by
  unfold Quoted.withQuote? at h
  split at h
  · rename_i hp
    exact List.isPrefixOf_iff_prefix.1 hp
  · cases h

theorem head_of_wordLength? {m c : Char} {word cs : List Char} {n : Nat}
    (h : wordLength? (m :: word) (c :: cs) = some n) : c = m := by
  obtain ⟨-, rest, hr, -⟩ := wordLength?_eq_some.1 h
  exact (List.cons.inj hr).1

theorem head_of_match?_fenced {c : Char} {cs : List Char} {f : Fenced}
    (h : Fenced.match? (c :: cs) = some f) : c = fenceMark := by
  obtain ⟨pos, le⟩ := openingRun_of_match? h
  by_cases hc : c = fenceMark
  · exact hc
  · rw [Fenced.openingRun, List.takeWhile_cons_of_neg (by simpa using hc), List.length_nil] at le
    omega

theorem head_of_match?_quoted {c : Char} {cs : List Char}
    (h : (Quoted.match? (c :: cs)).isSome) : (c = '\'' ∨ c = '"') ∨
      c = 'r' ∧ ∃ m rest, (m = '\'' ∨ m = '"') ∧ cs = m :: rest := by
  obtain ⟨q, hq⟩ := Option.isSome_iff_exists.1 h
  obtain ⟨rest, hrest⟩ := quote_prefix_of_withQuote? (withQuote?_of_match? hq)
  obtain ⟨m, more, hm, hchars, -⟩ := q.quote.chars_eq
  rw [hchars] at hrest
  by_cases hr : c = 'r'
  · subst hr
    exact .inr ⟨rfl, m, more ++ rest, hm, hrest.symm⟩
  · have plain : ((c :: cs).head? == some 'r') = false := by simpa using hr
    rw [plain] at hrest
    cases hrest
    exact .inl hm

theorem lead_of_nameLength? {c : Char} {cs : List Char} {n : Nat}
    (h : nameLength? (c :: cs) = some n) : Lead.word = Lead.ofChar c := by
  obtain ⟨_, _, ⟨⟩, hc, -⟩ := nameLength?_eq_some.1 h
  simp [Lead.ofChar, hc]

theorem lead_of_numberLength? {c : Char} {cs : List Char} {n : Nat}
    (h : numberLength? (c :: cs) = some n) : Lead.number = Lead.ofChar c := by
  obtain ⟨-, some⟩ := numberLength?_eq_some.1 h
  by_cases hs : c = '+' ∨ c = '-'
  · rcases hs with rfl | rfl <;> decide
  by_cases hd : c.isDigit
  · exact number_of_isDigit hd
  by_cases hp : c = '.'
  · subst hp
    decide
  -- Without any of them there would be no digit at all.
  have sign : signLength (c :: cs) = 0 := if_neg hs
  have whole : digitsLength (c :: cs) = 0 := by
    rw [digitsLength, List.takeWhile_cons_of_neg hd, List.length_nil]
  have fraction : fractionLength (c :: cs) = 0 := if_neg hp
  simp [sign, whole, fraction] at some

/-- The lead of a token is the kind of the character at which it stands. -/
theorem lead_eq_of_length? {t : Token} {c : Char} {cs : List Char} {n : Nat}
    (h : t.length? (c :: cs) = some n) : t.lead = Lead.ofChar c := by
  have mark : ∀ m, charLength? m (c :: cs) = some n → c = m := by
    intro m hm
    obtain ⟨-, rest, hr⟩ := charLength?_eq_some.1 hm
    exact (List.cons.inj hr).1
  cases t with
  | code =>
    obtain ⟨f, hf, -⟩ := Option.map_eq_some_iff.1 h
    rw [head_of_match?_fenced hf]
    decide
  | textEnd => cases h
  | litBool =>
    rcases Option.or_eq_some_iff.1 h with h | ⟨-, h⟩
    · rw [head_of_wordLength? h]
      decide
    · rw [head_of_wordLength? h]
      decide
  | litNone =>
    rw [head_of_wordLength? h]
    decide
  | litNum => exact lead_of_numberLength? h
  | regexStr =>
    obtain ⟨q, hq, -⟩ := Option.map_eq_some_iff.1 h
    rcases head_of_match?_quoted (by rw [hq]; rfl) with (rfl | rfl) | ⟨rfl, -⟩ <;> decide
  | ruleName => exact lead_of_nameLength? h
  | ruleRef =>
    obtain ⟨m, hm, -⟩ := referenceLength?_eq_some.1 h
    exact lead_of_nameLength? hm
  | _ =>
    rw [mark _ h]
    decide

theorem length?_nil {t : Token} {n : Nat} (h : t.length? [] = some n) : t = .textEnd := by
  cases t <;> first | rfl | cases h

theorem exists_length?_of_startsAt {t : Token} {cs : List Char} (h : startsAt cs t) :
    ∃ n, t.length? cs = some n := Option.isSome_iff_exists.1 h

theorem startsAt_of_length? {t : Token} {cs : List Char} {n : Nat} (h : t.length? cs = some n) :
    startsAt cs t := Option.isSome_iff_exists.2 ⟨n, h⟩

/-- Tokens that stand at one place have one lead. -/
theorem lead_unique {t u : Token} {cs : List Char} (ht : startsAt cs t) (hu : startsAt cs u) :
    t.lead = u.lead := by
  obtain ⟨n, hn⟩ := exists_length?_of_startsAt ht
  obtain ⟨m, hm⟩ := exists_length?_of_startsAt hu
  cases cs with
  | nil => rw [length?_nil hn, length?_nil hm]
  | cons c cs => rw [lead_eq_of_length? hn, lead_eq_of_length? hm]

/-- No token begins with layout. -/
theorem settled_of_startsAt {t : Token} {cs : List Char} (h : startsAt cs t) : Settled cs := by
  obtain ⟨n, hn⟩ := exists_length?_of_startsAt h
  cases cs with
  | nil => exact settled_nil
  | cons c cs =>
    have lead := lead_eq_of_length? hn
    apply settled_cons
    · rintro rfl
      cases t <;> revert lead <;> decide
    · rw [← Bool.not_eq_true]
      intro hc
      rw [mark_of_isBlank hc] at lead
      have marks : ∀ m, t.lead = .mark m → isBlank m = false := by
        cases t <;> rintro m ⟨⟩ <;> decide
      rw [marks c lead] at hc
      cases hc

end Token

end GrammarKit
