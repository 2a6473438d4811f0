import GrammarKit.Proofs.Regex
import Mathlib.Data.List.Infix

/-!
Where the matches of a regular expression end, as lists of what is left to read. Only references back
to a group make them hang on more than the text, so most expressions can be computed with such lists
alone. Repetitions of one character give the places along a run, from its far end if they are greedy.
-/

namespace GrammarKit

namespace Regex

variable {ignoreCase : Bool} {r s : Regex} {f g : List Char → List (List Char)}

/-- The regular expression takes a thread to where `f` says, and leaves the groups alone. -/
def Takes (ignoreCase : Bool) (r : Regex) (f : List Char → List (List Char)) : Prop :=
  ∀ t, r.threads ignoreCase t = (f t.rest).map t.moveTo

/-- The regular expression takes a thread to where `f` says, whatever is in the groups. -/
def Ends (ignoreCase : Bool) (r : Regex) (f : List Char → List (List Char)) : Prop :=
  ∀ t, (r.threads ignoreCase t).map Thread.rest = f t.rest

theorem matchLength?_eq {cs : List Char} {ends : List (List Char)}
    (h : (r.threads ignoreCase (.start cs)).map Thread.rest = ends) :
    r.matchLength? ignoreCase cs = ends.head?.map fun rest => cs.length - rest.length := by
  rw [← h, List.head?_map, Option.map_map]
  rfl

def one (p : Char → Bool) : List Char → List (List Char)
  | [] => []
  | c :: cs => if p c then [cs] else []

namespace Takes

theorem ends (h : Takes ignoreCase r f) : Ends ignoreCase r f := by
  intro t
  rw [h t, List.map_map]
  exact List.map_id _

theorem set (negated : Bool) (items : List CharItem) :
    Takes ignoreCase (.set negated items) (one (hasChar ignoreCase negated items)) := by
  intro t
  rw [threads]
  cases t.rest with
  | nil => rfl
  | cons c cs =>
    dsimp only [one]
    split <;> rfl

theorem seq (hr : Takes ignoreCase r f) (hs : Takes ignoreCase s g) :
    Takes ignoreCase (.seq r s) fun cs => (f cs).flatMap g := by
  intro t
  rw [threads, hr t, List.flatMap_map, List.map_flatMap]
  exact List.flatMap_congr fun cs _ => hs (t.moveTo cs)

theorem alt (hr : Takes ignoreCase r f) (hs : Takes ignoreCase s g) :
    Takes ignoreCase (.alt r s) fun cs => f cs ++ g cs := by
  intro t
  rw [threads, hr t, hs t, List.map_append]

theorem zeroOrOne (hr : Takes ignoreCase r f) (greedy : Bool) :
    Takes ignoreCase (.repeated .zeroOrOne greedy r) fun cs => prefer greedy (f cs) cs := by
  intro t
  rw [threads, map_prefer, hr t]
  rfl

theorem zeroOrMore (hr : Takes ignoreCase r f) (greedy : Bool) :
    Takes ignoreCase (.repeated .zeroOrMore greedy r) (repeatedly greedy List.length f) := by
  intro t
  have same (cs : List Char) : (f cs).map t.moveTo = r.threads ignoreCase (t.moveTo cs) :=
    (hr (t.moveTo cs)).symm
  exact (map_repeatedly same (fun _ => rfl) t.rest).symm

theorem oneOrMore (hr : Takes ignoreCase r f) (greedy : Bool) :
    Takes ignoreCase (.repeated .oneOrMore greedy r)
      fun cs => (f cs).flatMap (repeatedly greedy List.length f) := by
  intro t
  rw [threads, hr t, List.flatMap_map, List.map_flatMap]
  exact List.flatMap_congr fun cs _ => hr.zeroOrMore greedy (t.moveTo cs)

theorem textEnd :
    Takes ignoreCase .textEnd fun cs => if cs.isEmpty then [cs] else [] := by
  intro t
  rw [threads]
  dsimp only
  split <;> rfl

theorem threads_group (hr : Takes ignoreCase r f) (n : Nat) (t : Thread) :
    (Regex.group n r).threads ignoreCase t =
      (f t.rest).map fun cs =>
        ⟨t.text, cs, (n, t.rest.take (t.rest.length - cs.length)) :: t.groups⟩ := by
  rw [threads, hr t, List.map_map]
  rfl

end Takes

namespace Ends

theorem seq (hr : Ends ignoreCase r f) (hs : Ends ignoreCase s g) :
    Ends ignoreCase (.seq r s) fun cs => (f cs).flatMap g := by
  intro t
  dsimp only
  rw [threads, List.map_flatMap, ← hr t, List.flatMap_map]
  exact List.flatMap_congr fun u _ => hs u

theorem alt (hr : Ends ignoreCase r f) (hs : Ends ignoreCase s g) :
    Ends ignoreCase (.alt r s) fun cs => f cs ++ g cs := by
  intro t
  rw [threads, List.map_append, hr t, hs t]

theorem group (hr : Ends ignoreCase r f) (n : Nat) : Ends ignoreCase (.group n r) f := by
  intro t
  rw [threads, List.map_map, ← hr t]
  rfl

theorem zeroOrOne (hr : Ends ignoreCase r f) (greedy : Bool) :
    Ends ignoreCase (.repeated .zeroOrOne greedy r) fun cs => prefer greedy (f cs) cs := by
  intro t
  rw [threads, map_prefer, hr t]

theorem look (hr : Ends ignoreCase r f) (negated : Bool) :
    Ends ignoreCase (.look negated r) fun cs => if (f cs).isEmpty = negated then [cs] else [] := by
  intro t
  dsimp only
  rw [threads, ← hr t]
  cases r.threads ignoreCase t with
  | nil => cases negated <;> rfl
  | cons u us => cases negated <;> rfl

end Ends

/-- The places up to the end of a run of characters with a property, the farthest first. -/
def backwards (p : Char → Bool) : List Char → List (List Char)
  | [] => [[]]
  | c :: cs => if p c then backwards p cs ++ [c :: cs] else [c :: cs]

theorem repeatedly_one (p : Char → Bool) (cs : List Char) :
    repeatedly true List.length (one p) cs = backwards p cs := by
  induction cs with
  | nil => rfl
  | cons c cs ih =>
    rw [repeatedly_eq, backwards, one]
    split
    · simp [prefer, ih]
    · rfl

theorem Takes.run {p : Char → Bool} (h : Takes ignoreCase r (one p)) :
    Takes ignoreCase (.repeated .zeroOrMore true r) (backwards p) :=
  funext (repeatedly_one p) ▸ h.zeroOrMore true

theorem Takes.someRun {p : Char → Bool} (h : Takes ignoreCase r (one p)) :
    Takes ignoreCase (.repeated .oneOrMore true r) fun cs => (one p cs).flatMap (backwards p) :=
  funext (repeatedly_one p) ▸ h.oneOrMore true

/-- A repetition of any character that is not greedy comes to every place, the nearest first. -/
theorem repeatedly_any (cs : List Char) :
    repeatedly false List.length (one fun _ => true) cs = cs.tails := by
  induction cs with
  | nil => rfl
  | cons c cs ih =>
    rw [repeatedly_eq, one, List.tails_cons]
    simp [prefer, ih]

section

variable {p : Char → Bool} {c : Char} {cs : List Char}

theorem backwards_of_neg (h : p c = false) : backwards p (c :: cs) = [c :: cs] := by
  rw [backwards, if_neg (by simp [h])]

theorem backwards_of_pos (h : p c = true) :
    backwards p (c :: cs) = backwards p cs ++ [c :: cs] := by
  rw [backwards, if_pos h]

theorem backwards_eq (p : Char → Bool) (cs : List Char) : backwards p cs =
    (List.range ((cs.takeWhile p).length + 1)).reverse.map cs.drop := by
  induction cs with
  | nil => rfl
  | cons c cs ih =>
    cases hc : p c with
    | false => rw [backwards_of_neg hc, List.takeWhile_cons_of_neg (by simp [hc])]; rfl
    | true =>
      rw [backwards_of_pos hc, ih, List.takeWhile_cons_of_pos hc, List.length_cons,
        List.range_succ_eq_map (n := (cs.takeWhile p).length + 1), List.reverse_cons,
        List.map_append, ← List.map_reverse, List.map_map]
      rfl

theorem flatMap_one_backwards (p : Char → Bool) (cs : List Char) :
    (one p cs).flatMap (backwards p) =
      (List.range (cs.takeWhile p).length).reverse.map fun n => cs.drop (n + 1) := by
  cases cs with
  | nil => rfl
  | cons c cs =>
    by_cases hc : p c
    · rw [one, if_pos hc, List.takeWhile_cons_of_pos hc, List.flatMap_singleton, backwards_eq]
      rfl
    · rw [one, if_neg hc, List.takeWhile_cons_of_neg hc]
      rfl

theorem head?_backwards (p : Char → Bool) (cs : List Char) :
    (backwards p cs).head? = some (cs.dropWhile p) := by
  induction cs with
  | nil => rfl
  | cons c cs ih =>
    cases hc : p c with
    | false => rw [backwards_of_neg hc, List.dropWhile_cons_of_neg (by simp [hc])]; rfl
    | true => rw [backwards_of_pos hc, List.head?_append, ih, List.dropWhile_cons_of_pos hc]; rfl

/-- What fails in front of every character of the run is left with the end of the run. -/
theorem flatMap_backwards (h : ∀ c cs, p c → g (c :: cs) = []) (cs : List Char) :
    (backwards p cs).flatMap g = g (cs.dropWhile p) := by
  induction cs with
  | nil => simp [backwards]
  | cons c cs ih =>
    cases hc : p c with
    | false => rw [backwards_of_neg hc, List.dropWhile_cons_of_neg (by simp [hc])]; simp
    | true =>
      rw [backwards_of_pos hc, List.flatMap_append, ih, List.dropWhile_cons_of_pos hc]
      simp [h c cs hc]

end

end Regex

end GrammarKit
