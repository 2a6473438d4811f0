import GrammarKit.Proofs.Handler.Interchange
import GrammarKit.Proofs.Parse
import GrammarKit.Proofs.Rule.Trimming
import GrammarKit.Proofs.Token.Spacer

/-!
Layout between tokens does not matter. Main statement: a stretch of layout that the parse of a text
skips may be exchanged for any other, as long as neither holds anything that a literal could take
for its own, and the text is parsed to the same grammar as before.
-/

namespace GrammarKit

open Rule

variable {l s s' v : List Char}

theorem Spacer.interchangeable (hs : Spacer s) (hs' : Spacer s') (hl : Finished l) (ne : l ≠ [])
    (settled : Settled (l ++ (s ++ v))) :
    Interchangeable (l ++ (s ++ v)) (l ++ (s' ++ v)) where
  nonempty := List.append_ne_nil_of_left_ne_nil ne _
  settled := settled.append ne _
  startsAt := by
    intro p
    funext t
    rw [← List.append_assoc p, ← List.append_assoc p]
    exact Token.startsAt_spacer hs hs' ((finished_append ne).2 hl)
      (List.append_ne_nil_of_right_ne_nil p ne) v t
  length? := by
    intro p t n hn inside
    rw [← List.append_assoc p] at hn ⊢
    have short : n < (p ++ l).length := by
      have := List.length_pos_iff.2 ne
      rw [List.length_append]
      omega
    exact Token.length?_spacer_of_lt hs hs' ((finished_append ne).2 hl)
      (List.append_ne_nil_of_right_ne_nil p ne) hn short

theorem Spacer.bridges (hs : Spacer s) (hs' : Spacer s')
    (behind : settle (s ++ v) = settle (s' ++ v)) (hl : Finished l) (ne : l ≠ []) {t : Token}
    {n : Nat} (hn : t.length? (l ++ (s ++ v)) = some n)
    (name : trimEnd ((l ++ (s ++ v)).take n) = l) : Bridges t (l ++ (s ++ v)) (l ++ (s' ++ v)) := by
  have takes : t.Takes (l ++ (s ++ v)) _ _ := ⟨n, hn, rfl, rfl⟩
  obtain ⟨hz, lexeme', takes', name', same⟩ := takes.spacer hs hs' hl ne name
  rw [← behind, ← hz] at takes'
  exact ⟨_, lexeme', _, takes, takes', name.trans name'.symm, fun href => (same href).symm⟩

/-- A handler that consumes a token right in front of a stretch comes to the same whatever stretch
that is. -/
theorem Handler.Careful.settled_read_spacer {α : Type} {h : Handler α} {looked : Bool}
    (hh : h.Careful looked) (trims : h.Trims) (hs : Spacer s) (hs' : Spacer s')
    (behind : settle (s ++ v) = settle (s' ++ v)) {session : Session} {p y : List Char} {t : Token}
    {n : Nat} (hrest : session.cursor.rest = p ++ y) (hy : (t, y) ∈ h.consumed session)
    (hn : t.length? y = some n) (parts : y = trimEnd (y.take n) ++ (s ++ v)) :
    (h.read (p ++ y)).settled =
      (h.read (p ++ (trimEnd (y.take n) ++ (s' ++ v)))).settled := by
  have some : y ≠ [] := by
    rw [parts]
    exact List.append_ne_nil_of_right_ne_nil _ (List.append_ne_nil_of_left_ne_nil hs.ne_nil v)
  have ht : t ≠ .textEnd := by
    rintro rfl
    simp [Token.length?, some] at hn
  have finished := Token.finished_trimEnd_lexeme ht hn
  have settled := Token.settled_of_startsAt (Token.startsAt_of_length? hn)
  have ne : trimEnd (y.take n) ≠ [] := by
    intro nil
    rw [nil, List.nil_append] at parts
    rw [parts] at settled
    exact hs.not_settled v settled
  generalize hl : trimEnd (y.take n) = l at *
  subst parts
  exact hh.settled_read_eq trims (hs.interchangeable hs' finished ne settled)
    (hs.bridges hs' behind finished ne hn hl) hrest hy

namespace Session

def consumed (s : Session) (r : Rule) : List (Token × List Char) :=
  (Rule.calls (Rule.fuelFor s.text) r).consumed s

end Session

/-- In the text `u ++ s ++ v` the parse of a grammar skips `s` at one go. It is all the layout in
front of the first token, or all the layout between a token that is consumed and what stands behind
it, with the blanks that a reference takes along. -/
structure Skips (u s v : String) : Prop where
  stops : settle (s ++ v).toList = v.toList
  begins : u = "" ∨ ∃ t y n w,
    (t, y) ∈ (Session.ofText (u ++ s ++ v) false).consumed .all ∧ t.length? y = some n ∧
      u.toList = w ++ trimEnd (y.take n) ∧ y = trimEnd (y.take n) ++ (s ++ v).toList

/-- Whatever stretch it is that the parse of a text skips, it reads the same. -/
theorem Skips.read_eq {u s s' v : String} (skips : Skips u s v) (hs : Spacer s.toList)
    (hs' : Spacer s'.toList) (behind : settle (s' ++ v).toList = v.toList) :
    (calls (fuelFor (u ++ s ++ v)) .all).read (settle (u ++ s' ++ v).toList) =
      readAll (u ++ s ++ v) := by
  have same := skips.stops.trans behind.symm
  rw [readAll]
  rcases skips.begins with rfl | ⟨t, y, n, w, hy, hn, hu, parts⟩
  · rw [String.empty_append, String.empty_append, same]
  · have trims : (calls (fuelFor (u ++ s ++ v)) .all).Trims := by
      rw [calls, Handler.trims_call]
      exact trims_handler _ .all
    rw [String.toList_append] at parts same
    rw [String.toList_append] at same
    have text : (u ++ s ++ v).toList = w ++ y := by
      rw [parts]
      simp [hu]
    have text' : (u ++ s' ++ v).toList = w ++ (trimEnd (y.take n) ++ (s'.toList ++ v.toList)) := by
      simp [hu]
    rw [← settled_read_calls, ← settled_read_calls, text, text']
    exact ((careful_calls _ .all).settled_read_spacer trims hs hs' same text hy hn parts).symm

/-- A stretch of layout that is skipped may be exchanged for another. -/
theorem parseGrammar_relayout {u s s' v : String} (skips : Skips u s v) (ne : s ≠ "")
    (plain : Plain s.toList) (layout : Layout s'.toList) (ne' : s' ≠ "") (plain' : Plain s'.toList)
    (g : Grammar) :
    parseGrammar (u ++ s ++ v) = .ok (.ok g) ↔ parseGrammar (u ++ s' ++ v) = .ok (.ok g) := by
  have stops := skips.stops
  have hs : Spacer s.toList := by
    rw [String.toList_append] at stops
    exact .of_settle stops (by simpa using ne) plain
  have behind : settle (s' ++ v).toList = v.toList := by
    rw [String.toList_append, layout.settle_append, ← stops, settle_settle]
  have same := skips.read_eq hs (layout.spacer (by simpa using ne') plain') behind
  have enough := readAll_ne_exhausted (u ++ s ++ v)
  rw [← same] at enough
  rw [parseGrammar_eq_ok, parseGrammar_eq_ok_of_fuel enough, same]

/-- The stretch stands between two references, of which the first takes the blank along. -/
theorem parseGrammar_relayout_reference :
    let g : Grammar := ⟨none, [⟨"a", .sequence [.reference "b", .reference "c"], none⟩]⟩
    Skips "a:b" " " "c" ∧ parseGrammar "a:b c" = .ok (.ok g) ∧
      parseGrammar "a:b#\nc" = .ok (.ok g) := by
  intro g
  have old : "a:b" ++ " " ++ "c" = "a:b c" := by decide
  have new : "a:b" ++ "#\n" ++ "c" = "a:b#\nc" := by decide
  have consumed : (.ruleRef, ['b', ' ', 'c']) ∈ (Session.ofText "a:b c" false).consumed .all := by
    decide +kernel
  have skips : Skips "a:b" " " "c" :=
    ⟨rfl, .inr ⟨.ruleRef, ['b', ' ', 'c'], 2, ['a', ':'], old ▸ consumed, rfl, rfl, rfl⟩⟩
  have layout : Layout "#\n".toList := .comment [] List.not_mem_nil .nil
  have relaid := parseGrammar_relayout skips (by decide) (by decide) layout (by decide)
    (by decide) g
  rw [old, new] at relaid
  exact ⟨skips, rfl, relaid.1 rfl⟩

end GrammarKit
