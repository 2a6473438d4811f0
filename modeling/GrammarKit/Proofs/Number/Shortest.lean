import GrammarKit.Number.Shortest
import GrammarKit.Proofs.Number.Rounding

/-!
Shortest decimals read back. What the search finds does by its own test, and where it finds nothing
the exact decimal is taken.
-/

namespace GrammarKit

namespace Binary64

variable {negative : Bool}

theorem nearest_of_search {tie : Tie} {x : Binary64} {units : Nat} {leading : Int}
    {grids digits : Nat} {d : Nat × Int} (h : search tie x units leading grids digits = some d) :
    nearest ⟨false, d.1, d.2⟩ = x := by
  induction grids generalizing digits with
  | zero => cases h
  | succ grids ih =>
    rw [search] at h
    split at h
    · rename_i c hc
      cases h
      simpa using List.find?_some hc
    · exact ih h

theorem nearest_dropZeros (steps : Nat) (d : Nat × Int) :
    nearest ⟨negative, (dropZeros steps d).1, (dropZeros steps d).2⟩ =
      nearest ⟨negative, d.1, d.2⟩ := by
  induction steps generalizing d with
  | zero => rfl
  | succ steps ih =>
    obtain ⟨c, e⟩ := d
    rw [dropZeros]
    split
    · rename_i h
      rw [ih, ← nearest_mul_ten, Nat.div_mul_cancel (Nat.dvd_of_mod_eq_zero h.2)]
    · rfl

theorem nearest_places (c k : Nat) :
    nearest ⟨negative, c, -(k : Int)⟩ = ofRatio negative c (Nat.pow 10 k) := by
  rw [nearest_eq_ofRatio]
  cases k with
  | zero =>
    show ofRatio negative (c * 1) 1 = ofRatio negative c 1
    rw [Nat.mul_one]
  | succ k => rfl

theorem five_pow_mul_unitsInOne {k : Nat} (hk : k = 1074) :
    Nat.pow 5 k * unitsInOne = Nat.pow 10 k := by
  rw [unitsInOne_eq hk]
  exact (Nat.mul_pow 5 2 k).symm

theorem nearest_units {s e k : Nat} (h : Canonical s e) (hk : k = 1074) :
    nearest ⟨negative, s * Nat.pow 2 e * Nat.pow 5 k, -(k : Int)⟩ = .finite negative s e h := by
  have pos : 0 < Nat.pow 10 k := Nat.pow_pos (by decide)
  have scaled := @ofUnits_mul negative (Nat.pow 10 k) pos (s * 2 ^ e) 1
  rw [Nat.one_mul, ofUnits_units h] at scaled
  rw [nearest_places, ofRatio, Nat.mul_assoc, five_pow_mul_unitsInOne hk]
  exact scaled

/-- The shortest decimal of a number reads back as that number. -/
theorem nearest_shortest (tie : Tie) {s e : Nat} (h : Canonical s e) (negative : Bool) :
    nearest ⟨negative, (shortest tie s e).1, (shortest tie s e).2⟩ = .finite negative s e h := by
  unfold shortest
  dsimp only
  rw [nearest_dropZeros, show (-1074 : Int) = -(1074 : Nat) from rfl]
  generalize hk : 1074 = k
  generalize hd : search tie _ _ _ 17 1 = found
  cases found with
  | none => exact nearest_units h hk.symm
  | some d =>
    have found := nearest_of_search hd
    rw [ofParts_of_canonical h, nearest_eq_ofRatio] at found
    rw [nearest_eq_ofRatio]
    exact ofRatio_negative found negative

end Binary64

end GrammarKit
