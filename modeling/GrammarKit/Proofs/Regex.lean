import GrammarKit.Expr
import GrammarKit.Token.Match
import Mathlib.Data.List.Basic

/-!
Regular expressions as a backtracking engine runs them.

A thread is a way to match so far: what is still to be read of the text, and what the groups have
taken. A
regular expression takes a thread to all the threads that can follow it, in the order in which an
engine comes to them that tries the leftmost alternative first and backtracks when what follows
fails. The match is the first of the threads.
-/

namespace GrammarKit

namespace Regex

inductive CharItem where
  | range (first last : Char)
  | digit
  | blank
  deriving DecidableEq, Repr

namespace CharItem

def has (c : Char) : CharItem → Bool
  | range first last => first.toNat ≤ c.toNat && c.toNat ≤ last.toNat
  | digit => c.isDigit
  | blank => isBlank c

def hasFolded (ignoreCase : Bool) (c : Char) (item : CharItem) : Bool :=
  item.has c || ignoreCase && (item.has c.toLower || item.has c.toUpper)

end CharItem

end Regex

inductive Regex where
  | empty
  | set (negated : Bool) (items : List Regex.CharItem)
  | seq (r s : Regex)
  | alt (r s : Regex)
  | repeated (occurrence : Occurrence) (greedy : Bool) (r : Regex)
  | group (n : Nat) (r : Regex)
  | back (n : Nat)
  /-- Looks ahead, and takes nothing. -/
  | look (negated : Bool) (r : Regex)
  /-- Between an ASCII word character and none. -/
  | boundary
  | textEnd
  deriving DecidableEq, Repr

namespace Regex

structure Thread where
  text : List Char
  rest : List Char
  /-- What groups took, the latest first. -/
  groups : List (Nat × List Char)
  deriving DecidableEq, Repr

namespace Thread

def start (cs : List Char) : Thread := ⟨cs, cs, []⟩

def moveTo (t : Thread) (rest : List Char) : Thread := { t with rest := rest }

def textTo (t u : Thread) : List Char := t.rest.take (t.rest.length - u.rest.length)

def last? (t : Thread) : Option Char := (t.text.take (t.text.length - t.rest.length)).getLast?

end Thread

def hasChar (ignoreCase negated : Bool) (items : List CharItem) (c : Char) : Bool :=
  items.any (CharItem.hasFolded ignoreCase c) != negated

def sameText (ignoreCase : Bool) (text cs : List Char) : Bool :=
  if ignoreCase then (text.map Char.toLower).isPrefixOf (cs.map Char.toLower)
  else text.isPrefixOf cs

section

variable {σ : Type}

/-- To take more comes first if that is greedy. -/
def prefer (greedy : Bool) (further : List σ) (s : σ) : List σ :=
  if greedy then further ++ [s] else s :: further

def rounds (greedy : Bool) (left : σ → Nat) (once : σ → List σ) : Nat → σ → List σ
  | 0, s => [s]
  | n + 1, s =>
    let taken := (once s).filter fun s' => left s' < left s
    prefer greedy (taken.flatMap (rounds greedy left once n)) s

/-- Repeats `once` for as long as it takes something. -/
def repeatedly (greedy : Bool) (left : σ → Nat) (once : σ → List σ) (s : σ) : List σ :=
  rounds greedy left once (left s) s

end

def Thread.left (t : Thread) : Nat := t.rest.length

/-- The threads that follow one, in order. -/
@[simp] def threads (ignoreCase : Bool) : Regex → Thread → List Thread
  | empty, t => [t]
  | set negated items, t =>
    match t.rest with
    | [] => []
    | c :: cs => if hasChar ignoreCase negated items c then [t.moveTo cs] else []
  | seq r s, t => (r.threads ignoreCase t).flatMap (s.threads ignoreCase)
  | alt r s, t => r.threads ignoreCase t ++ s.threads ignoreCase t
  | repeated .zeroOrOne greedy r, t => prefer greedy (r.threads ignoreCase t) t
  | repeated .zeroOrMore greedy r, t => repeatedly greedy Thread.left (r.threads ignoreCase) t
  | repeated .oneOrMore greedy r, t =>
    (r.threads ignoreCase t).flatMap (repeatedly greedy Thread.left (r.threads ignoreCase))
  | group n r, t =>
    (r.threads ignoreCase t).map fun u => { u with groups := (n, t.textTo u) :: u.groups }
  | back n, t =>
    match t.groups.lookup n with
    | none => []
    | some text =>
      if sameText ignoreCase text t.rest then [t.moveTo (t.rest.drop text.length)] else []
  | look negated r, t =>
    match (r.threads ignoreCase t).head? with
    | none => if negated then [t] else []
    | some u => if negated then [] else [u.moveTo t.rest]
  | boundary, t => if t.last?.any isNameChar != t.rest.head?.any isNameChar then [t] else []
  | textEnd, t => if t.rest.isEmpty then [t] else []

/-- The length of the match at the start of a text. -/
def matchLength? (ignoreCase : Bool) (r : Regex) (cs : List Char) : Option Nat :=
  (r.threads ignoreCase (.start cs)).head?.map fun t => cs.length - t.rest.length

section

variable {σ τ : Type} {greedy : Bool} {left : σ → Nat} {once : σ → List σ}

theorem rounds_of_nothing_left {s : σ} (h : left s = 0) (n : Nat) :
    rounds greedy left once n s = [s] := by
  cases n with
  | zero => rfl
  | succ n =>
    have none : (once s).filter (fun s' => left s' < left s) = [] :=
      List.filter_eq_nil_iff.2 fun s' _ => by simp [h]
    rw [rounds, none]
    cases greedy <;> rfl

/-- Every round takes something, so there are no more rounds than there is left. -/
theorem rounds_of_le {m n : Nat} {s : σ} (hm : left s ≤ m) (hn : left s ≤ n) :
    rounds greedy left once m s = rounds greedy left once n s := by
  induction m generalizing n s with
  | zero =>
    have done : left s = 0 := Nat.le_zero.1 hm
    rw [rounds_of_nothing_left done, rounds_of_nothing_left done]
  | succ m ih =>
    cases n with
    | zero =>
      have done : left s = 0 := Nat.le_zero.1 hn
      rw [rounds_of_nothing_left done, rounds_of_nothing_left done]
    | succ n =>
      rw [rounds, rounds]
      congr 1
      refine List.flatMap_congr fun s' hs' => ih ?_ ?_
      · have := of_decide_eq_true (List.mem_filter.1 hs').2
        omega
      · have := of_decide_eq_true (List.mem_filter.1 hs').2
        omega

/-- Repeating, without a bound: one round, and whatever may follow it. -/
theorem repeatedly_eq (s : σ) : repeatedly greedy left once s =
    prefer greedy
      (((once s).filter fun s' => left s' < left s).flatMap (repeatedly greedy left once)) s := by
  unfold repeatedly
  rw [rounds_of_le (Nat.le_refl _) (Nat.le_succ _), rounds]
  congr 1
  refine List.flatMap_congr fun s' hs' => rounds_of_le ?_ (Nat.le_refl _)
  exact Nat.le_of_lt (of_decide_eq_true (List.mem_filter.1 hs').2)

theorem map_prefer (f : σ → τ) (further : List σ) (s : σ) :
    (prefer greedy further s).map f = prefer greedy (further.map f) (f s) := by
  cases greedy <;> simp [prefer]

theorem map_rounds {f : σ → τ} {once' : τ → List τ} {left' : τ → Nat}
    (same : ∀ s, (once s).map f = once' (f s)) (size : ∀ s, left' (f s) = left s) (n : Nat)
    (s : σ) : (rounds greedy left once n s).map f = rounds greedy left' once' n (f s) := by
  induction n generalizing s with
  | zero => rfl
  | succ n ih =>
    rw [rounds, rounds, map_prefer, List.map_flatMap, ← same, List.filter_map, List.flatMap_map]
    simp only [ih, Function.comp_def, size]

theorem map_repeatedly {f : σ → τ} {once' : τ → List τ} {left' : τ → Nat}
    (same : ∀ s, (once s).map f = once' (f s)) (size : ∀ s, left' (f s) = left s) (s : σ) :
    (repeatedly greedy left once s).map f = repeatedly greedy left' once' (f s) := by
  rw [repeatedly, repeatedly, map_rounds same size, size]

end

end Regex

end GrammarKit
