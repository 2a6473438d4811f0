import GrammarKit.Expr.Print
import GrammarKit.Proofs.Exchange.Fenced
import GrammarKit.Proofs.Text.Blank
import GrammarKit.Proofs.Text.Offset

/-!
Texts between fences. Main statements: what a text is fenced as is one block, whatever stands behind
it, and the text of the block is the one that was fenced, with a blank on either side; so it is the
same code if it was trimmed.
-/

namespace GrammarKit

theorem le_longestRun_go (cs : List Char) (run longest : Nat) :
    run ≤ longestRun.go cs run longest ∧ longest ≤ longestRun.go cs run longest := by
  induction cs generalizing run longest with
  | nil => exact ⟨Nat.le_max_left .., Nat.le_max_right ..⟩
  | cons c cs ih =>
    rw [longestRun.go]
    split
    · obtain ⟨hrun, hlongest⟩ := ih (run + 1) longest
      exact ⟨by omega, hlongest⟩
    · obtain ⟨-, hlongest⟩ := ih 0 (max run longest)
      exact ⟨by omega, by omega⟩

namespace Fenced

variable {fence : Nat}

theorem go_fence (k : Nat) (rest : List Char) (read run : Nat) (hk : 0 < k)
    (h : run + k = fence) :
    find?.go fence (List.replicate k fenceMark ++ rest) read run = some (read + k - fence) := by
  induction k generalizing read run with
  | zero => omega
  | succ k ih =>
    rw [List.replicate_succ, List.cons_append, find?.go, if_pos rfl]
    by_cases last : k = 0
    · subst last
      rw [if_pos h]
    · rw [if_neg (by omega), ih (read + 1) (run + 1) (by omega) (by omega)]
      congr 1
      omega

/-- No run of backticks in a text is as long as a fence around it. -/
theorem go_fenced (text rest : List Char) (read run longest : Nat)
    (h : longestRun.go text run longest < fence) :
    find?.go fence (text ++ ' ' :: (List.replicate fence fenceMark ++ rest)) read run =
      some (read + text.length + 1) := by
  induction text generalizing read run longest with
  | nil =>
    rw [List.nil_append, find?.go, if_neg (by decide), go_fence fence rest (read + 1) 0 (by omega)
      (Nat.zero_add fence)]
    congr 1
    simp
  | cons c text ih =>
    rw [longestRun.go] at h
    rw [List.cons_append, find?.go, List.length_cons]
    split
    · rename_i hc
      rw [if_pos hc] at h
      have run_lt := (le_longestRun_go text (run + 1) longest).1
      rw [if_neg (by omega), ih (read + 1) (run + 1) longest h]
      congr 1
      omega
    · rename_i hc
      rw [if_neg hc] at h
      rw [ih (read + 1) 0 (max run longest) h]
      congr 1
      omega

theorem openingRun_fence (rest : List Char) :
    openingRun (List.replicate fence fenceMark ++ ' ' :: rest) = fence := by
  have marks : ∀ c ∈ List.replicate fence fenceMark, (c == fenceMark) = true := by
    intro c hc
    rw [List.eq_of_mem_replicate hc]
    rfl
  rw [openingRun, List.takeWhile_append_of_pos marks, List.takeWhile_cons_of_neg (by decide),
    List.append_nil, List.length_replicate]

theorem byteLength_fence (n : Nat) : byteLength (List.replicate n fenceMark) = n := by
  rw [byteLength_of_utf8Size, List.length_replicate]
  intro c hc
  rw [List.eq_of_mem_replicate hc]
  rfl

/-- Between fences of which the first is a whole run, the text is all that stands there. -/
theorem body?_of_openingRun {text : List Char}
    (h : openingRun (List.replicate fence fenceMark ++ text ++ List.replicate fence fenceMark) =
      fence) :
    body? (List.replicate fence fenceMark ++ text ++ List.replicate fence fenceMark) =
      some text := by
  have len := byteLength_fence fence
  have count := @List.length_replicate _ fence fenceMark
  rw [body?, h]
  generalize List.replicate fence fenceMark = marks at len count
  have bytes : byteLength (marks ++ text ++ marks) = byteLength (marks ++ text) + fence := by
    rw [byteLength_append, len]
  have front : charsIn (byteLength (marks ++ text)) (marks ++ text ++ marks) =
      some (marks ++ text).length := charsIn_append _ _
  have enough : fence ≤ byteLength (marks ++ text) := by
    rw [byteLength_append, len]
    exact Nat.le_add_right _ _
  rw [bytes, if_neg (by omega), Nat.add_sub_cancel, front, Option.map_some, List.take_left,
    List.drop_left' count]

def ofText (text : List Char) : Fenced := ⟨longestRun text + 1, text.length + 2⟩

end Fenced

section

variable (text : List Char)

theorem fencedChars_append (rest : List Char) :
    fencedChars text ++ rest = List.replicate (longestRun text + 1) fenceMark ++
      ' ' :: (text ++ ' ' :: (List.replicate (longestRun text + 1) fenceMark ++ rest)) := by
  simp [fencedChars]

theorem length_fencedChars : (fencedChars text).length = (Fenced.ofText text).length := by
  simp only [fencedChars, Fenced.length, Fenced.ofText, List.length_append, List.length_cons,
    List.length_replicate]
  omega

/-- Whatever stands behind it, a fenced text is one block. -/
theorem match?_fencedChars (rest : List Char) :
    Fenced.match? (fencedChars text ++ rest) = some (Fenced.ofText text) := by
  have drop : (fencedChars text ++ rest).drop (longestRun text + 1) =
      ' ' :: (text ++ ' ' :: (List.replicate (longestRun text + 1) fenceMark ++ rest)) := by
    rw [fencedChars_append]
    exact List.drop_left' List.length_replicate
  have found := Fenced.go_fenced text rest 1 0 0 (Nat.lt_succ_self (longestRun text))
  have opening : Fenced.openingRun (fencedChars text ++ rest) = longestRun text + 1 := by
    rw [fencedChars_append, Fenced.openingRun_fence]
  rw [Fenced.match?, opening]
  refine Fenced.ofFence?_eq_some.2 ⟨Nat.succ_pos _, Nat.le_refl _, ?_, fun j hj hle => ?_⟩
  · show Fenced.find?.go (longestRun text + 1)
      ((fencedChars text ++ rest).drop (longestRun text + 1)) 0 0 = _
    rw [drop, Fenced.find?.go, if_neg (by decide), found, Nat.add_comm 1]
    rfl
  · exact absurd hj (Nat.not_lt_of_le hle)

theorem length?_fencedChars (rest : List Char) :
    Token.code.length? (fencedChars text ++ rest) = some (fencedChars text).length := by
  rw [length_fencedChars]
  exact Option.map_eq_some_iff.2 ⟨_, match?_fencedChars text rest, rfl⟩

/-- The text of a block is what stands between its fences. -/
theorem body?_fencedChars : Fenced.body? (fencedChars text) = some (' ' :: text ++ [' ']) := by
  have whole : fencedChars text = List.replicate (longestRun text + 1) fenceMark ++
      (' ' :: text ++ [' ']) ++ List.replicate (longestRun text + 1) fenceMark := by
    simp [fencedChars]
  rw [whole]
  refine Fenced.body?_of_openingRun ?_
  rw [List.append_assoc, List.cons_append, List.cons_append, Fenced.openingRun_fence]

end

/-- Blanks around code are no part of it. -/
theorem ofCode_spaced {text : String} :
    Expr.ofCode (' ' :: text.toList ++ [' ']) = .code text ↔ trim text.toList = text.toList := by
  rw [Expr.ofCode, trim_blanks, Expr.code.injEq, ← String.toList_inj, String.toList_ofList]

end GrammarKit
