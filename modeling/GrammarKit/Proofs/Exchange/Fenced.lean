import GrammarKit.Proofs.Exchange.Plain

/-!
Exchanging what follows a block of code. Longer fences are tried before shorter ones, and one that
was tried in vain may have looked for its end far behind the block; a tame text does not offer it
one.
-/

namespace GrammarKit

namespace Fenced

variable {p v w : List Char} {fence read run b : Nat} {f : Fenced}

theorem go_bounds {cs : List Char} (h : find?.go fence cs read run = some b) (hr : run ≤ read) :
    read < b + fence ∧ b + fence ≤ read + cs.length := by
  induction cs generalizing read run with
  | nil => cases h
  | cons c cs ih =>
    rw [find?.go] at h
    rw [List.length_cons]
    split at h
    · split at h
      · cases h
        omega
      · have := ih h (by omega)
        omega
    · have := ih h (by omega)
      omega

theorem find?_go_add (h : run ≤ read) (cs : List Char) (n : Nat) :
    find?.go fence cs (read + n) run = (find?.go fence cs read run).map (· + n) := by
  induction cs generalizing read run with
  | nil => rfl
  | cons c cs ih =>
    rw [find?.go, find?.go]
    split
    · split
      · rw [Option.map_some]
        congr 1
        omega
      · rw [Nat.add_right_comm, ih (Nat.succ_le_succ h)]
    · rw [Nat.add_right_comm, ih (Nat.zero_le _)]

theorem go_exchange (h : find?.go fence (p ++ v) read run = some b) (hr : run ≤ read)
    (hb : b + fence ≤ read + p.length) : find?.go fence (p ++ w) read run = some b := by
  induction p generalizing read run with
  | nil =>
    have := (go_bounds h hr).1
    rw [List.length_nil] at hb
    omega
  | cons c p ih =>
    rw [List.cons_append, find?.go] at h ⊢
    rw [List.length_cons] at hb
    split
    · rename_i hc
      rw [if_pos hc] at h
      split
      · rename_i hf
        rwa [if_pos hf] at h
      · rename_i hf
        rw [if_neg hf] at h
        exact ih h (by omega) (by omega)
    · rename_i hc
      rw [if_neg hc] at h
      exact ih h (by omega) (by omega)

theorem go_tame (hw : Tame w) (read run : Nat) : find?.go fence w read run = none := by
  induction w generalizing read run with
  | nil => rfl
  | cons c w ih =>
    obtain ⟨⟨-, -, hc⟩, hw⟩ := tame_cons.1 hw
    rw [find?.go, if_neg hc, ih hw]

theorem go_le_of_tame (h : find?.go fence (p ++ w) read run = some b) (hr : run ≤ read)
    (hw : Tame w) : b + fence ≤ read + p.length := by
  induction p generalizing read run with
  | nil =>
    rw [List.nil_append, go_tame hw] at h
    cases h
  | cons c p ih =>
    rw [List.cons_append, find?.go] at h
    rw [List.length_cons]
    split at h
    · split at h
      · cases h
        omega
      · have := ih h (by omega)
        omega
    · have := ih h (by omega)
      omega

theorem ofFence?_eq_some {cs : List Char} {n : Nat} : ofFence? cs n = some f ↔
    0 < f.fence ∧ f.fence ≤ n ∧ find? f.fence (cs.drop f.fence) = some f.bodyLength ∧
      ∀ j, f.fence < j → j ≤ n → find? j (cs.drop j) = none := by
  induction n with
  | zero =>
    constructor
    · intro h
      cases h
    · rintro ⟨pos, le, -⟩
      omega
  | succ n ih =>
    rw [ofFence?]
    cases hf : find? (n + 1) (cs.drop (n + 1)) with
    | some body =>
      constructor
      · intro h
        cases h
        exact ⟨by simp, Nat.le_refl _, hf, fun j hj hn => by simp at hj; omega⟩
      · rintro ⟨pos, le, found, longer⟩
        have : f.fence = n + 1 := by
          by_cases hlt : f.fence < n + 1
          · rw [longer (n + 1) hlt (Nat.le_refl _)] at hf
            cases hf
          · omega
        rw [this, hf] at found
        cases f
        simp_all
    | none =>
      rw [ih]
      constructor
      · rintro ⟨pos, le, found, longer⟩
        refine ⟨pos, by omega, found, fun j hj hn => ?_⟩
        by_cases hlast : j = n + 1
        · rw [hlast, hf]
        · exact longer j hj (by omega)
      · rintro ⟨pos, le, found, longer⟩
        have : f.fence ≠ n + 1 := by
          intro hlast
          rw [hlast, hf] at found
          cases found
        exact ⟨pos, by omega, found, fun j hj hn => longer j hj (by omega)⟩

theorem openingRun_le (cs : List Char) : openingRun cs ≤ cs.length :=
  (List.takeWhile_sublist _).length_le

theorem take_openingRun {cs : List Char} {n : Nat} (h : n ≤ openingRun cs) :
    cs.take n = List.replicate n fenceMark := by
  have le := Nat.le_trans h (openingRun_le cs)
  rw [List.eq_replicate_iff]
  refine ⟨List.length_take_of_le le, fun c hc => ?_⟩
  have run : cs.take n <+: cs.takeWhile (· == fenceMark) :=
    List.prefix_of_prefix_length_le (List.take_prefix _ _) (List.takeWhile_prefix _)
      (by rwa [List.length_take_of_le le])
  exact eq_of_beq (List.all_eq_true.1 List.all_takeWhile c (run.subset hc))

theorem min_openingRun (p v : List Char) :
    min (openingRun (p ++ v)) p.length = openingRun p := by
  have le := openingRun_le p
  unfold openingRun at *
  rw [List.takeWhile_append]
  split
  · rename_i h
    rw [List.length_append]
    omega
  · omega

theorem openingRun_append (hw : ∀ c, w.head? = some c → c ≠ fenceMark) (p : List Char) :
    openingRun (p ++ w) = openingRun p := by
  have none : openingRun w = 0 := by
    cases w with
    | nil => rfl
    | cons c w =>
      have hc : (c == fenceMark) = false := by simpa using hw c rfl
      simp [openingRun, hc]
  unfold openingRun at *
  rw [List.takeWhile_append]
  split
  · rename_i h
    rw [List.length_append, none, h, Nat.add_zero]
  · rfl

theorem openingRun_append_of_tame (hw : Tame w) : openingRun (p ++ w) = openingRun p :=
  openingRun_append (fun c hc => (hw c (List.mem_of_mem_head? hc)).2.2) p

theorem length_le_of_tame (h : match? (p ++ w) = some f) (hw : Tame w) : f.length ≤ p.length := by
  obtain ⟨-, le, found, -⟩ := ofFence?_eq_some.1 h
  have run := openingRun_le p
  rw [openingRun_append_of_tame hw] at le
  rw [List.drop_append_of_le_length (by omega)] at found
  have closed := go_le_of_tame found (Nat.le_refl 0) hw
  rw [List.length_drop] at closed
  rw [length]
  omega

/-- A block that ends in the stretch. Fences that were tried before and did not close do not close
now. -/
theorem match?_exchange (h : match? (p ++ v) = some f) (hl : f.length ≤ p.length) (hw : Tame w) :
    match? (p ++ w) = some f := by
  unfold match? at h ⊢
  rw [length] at hl
  obtain ⟨pos, le, found, longer⟩ := ofFence?_eq_some.1 h
  rw [List.drop_append_of_le_length (by omega)] at found
  refine ofFence?_eq_some.2 ⟨pos, ?_, ?_, fun j hj hle => ?_⟩
  · rw [openingRun_append_of_tame hw]
    have := min_openingRun p v
    omega
  · rw [List.drop_append_of_le_length (by omega)]
    exact go_exchange found (Nat.le_refl 0) (by rw [List.length_drop]; omega)
  · rw [openingRun_append_of_tame hw] at hle
    have hv := min_openingRun p v
    have hj' : j ≤ p.length := by omega
    rw [List.drop_append_of_le_length hj']
    cases hnew : find? j (p.drop j ++ w) with
    | none => rfl
    | some b =>
      have old : find? j (p.drop j ++ v) = some b :=
        go_exchange hnew (Nat.le_refl 0) (go_le_of_tame hnew (Nat.le_refl 0) hw)
      rw [← List.drop_append_of_le_length hj', longer j hj (by omega)] at old
      cases old

end Fenced

end GrammarKit
