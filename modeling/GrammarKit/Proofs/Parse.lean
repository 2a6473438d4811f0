import GrammarKit.Parse
import GrammarKit.Proofs.Phrase.Complete
import GrammarKit.Proofs.Phrase.Fuel
import GrammarKit.Proofs.Session.Refusal

/-!
Parsing a whole grammar. Main statement: a text that no code block stops is parsed to a grammar
exactly if it derives that grammar, whatever choices the derivation makes.
-/

namespace GrammarKit

theorem Rule.careful_calls (n : Nat) (r : Rule) : (Rule.calls n r).Careful false := by
  rw [Rule.calls, Handler.careful_call]
  exact Rule.careful_handler n r

theorem Rule.settled_read_calls (n : Nat) (r : Rule) (x : List Char) :
    ((Rule.calls n r).read x).settled = (Rule.calls n r).read (settle x) := by
  rw [Rule.calls, Handler.read_call, Handler.read_call, settle_settle]
  cases Handler.read _ (settle x) <;> simp [Reading.settled]

namespace Session

theorem run_eq_exec (s : Session) (r : Rule) :
    s.run r = (Rule.calls (Rule.fuelFor s.text) r).exec s := (Handler.exec_call ..).symm

/-- Running a rule does to the text what reading it does. -/
theorem view_run (s : Session) (r : Rule) :
    Handler.view (s.run r) = (Rule.calls (Rule.fuelFor s.text) r).read s.cursor.rest := by
  rw [← Handler.view_exec (Rule.careful_calls _ r), run_eq_exec]

theorem view_run_settle (s : Session) (r : Rule) :
    Handler.view (s.run r) = (Rule.calls (Rule.fuelFor s.text) r).read (settle s.cursor.rest) := by
  rw [view_run, Rule.calls, Handler.read_call, Handler.read_call, settle_settle]

/-- There are enough steps for every session. -/
theorem run_ne_exhausted {s : Session} (hs : s.Reachable) (r : Rule) :
    s.run r ≠ .error .exhausted := by
  intro h
  have hview := s.view_run_settle r
  rw [h] at hview
  refine Rule.calls_fuelled _ r _ (settled_settle _) ?_ hview.symm
  obtain ⟨seen, htext, -⟩ := hs.coherent
  have long := congrArg List.length htext
  have short := (settle_suffix s.cursor.rest).length_le
  have rank := r.rank_le
  rw [List.length_append, String.length_toList] at long
  rw [Rule.fuelFor, show s.text = s.cursor.text from rfl]
  omega

end Session

def readAll (text : String) : Reading Grammar :=
  (Rule.calls (Rule.fuelFor text) .all).read (settle text.toList)

theorem view_run_all (text : String) :
    Handler.view ((Session.ofText text false).run .all) = readAll text :=
  Session.view_run_settle _ .all

theorem readAll_ne_exhausted (text : String) : readAll text ≠ .abort .exhausted := by
  intro h
  rw [← view_run_all] at h
  cases hrun : (Session.ofText text false).run .all with
  | error why =>
    rw [hrun] at h
    cases h
    exact Session.run_ne_exhausted (.start text false) .all hrun
  | ok result =>
    obtain ⟨result, s⟩ := result
    rw [hrun] at h
    cases result <;> cases h

/-- Parsing a grammar comes to what is read. -/
theorem parseGrammar_of_readAll (text : String) :
    match readAll text with
    | .yield g _ => parseGrammar text = .ok (.ok g)
    | .refuse _ => ∃ report, parseGrammar text = .ok (.error report)
    | .abort why => parseGrammar text = .error why := by
  rw [← view_run_all]
  unfold parseGrammar
  cases (Session.ofText text false).run .all with
  | error why => rfl
  | ok result =>
    obtain ⟨result, s⟩ := result
    cases result with
    | error e => exact ⟨_, rfl⟩
    | ok g => rfl

theorem parseGrammar_eq_ok {text : String} {g : Grammar} :
    parseGrammar text = .ok (.ok g) ↔ ∃ y, readAll text = .yield g y := by
  have h := parseGrammar_of_readAll text
  cases hread : readAll text with
  | yield g' y =>
    rw [hread] at h
    simp [h]
  | refuse v =>
    rw [hread] at h
    obtain ⟨report, h⟩ := h
    simp [h]
  | abort why =>
    rw [hread] at h
    simp [h]

theorem parseGrammar_eq_error {text : String} {why : Abort} :
    parseGrammar text = .error why ↔ readAll text = .abort why := by
  have h := parseGrammar_of_readAll text
  cases hread : readAll text with
  | yield g' y =>
    rw [hread] at h
    simp [h]
  | refuse v =>
    rw [hread] at h
    obtain ⟨report, h⟩ := h
    simp [h]
  | abort why' =>
    rw [hread] at h
    simp [h]

theorem parseGrammar_ne_exhausted (text : String) : parseGrammar text ≠ .error .exhausted :=
  fun h => readAll_ne_exhausted text (parseGrammar_eq_error.1 h)

/-- A derivation whose blocks of code are all closed evenly is found. -/
theorem parseGrammar_of_derives {text : String} {g : Grammar}
    (h : Derives (fun l => (Fenced.body? l).isSome) text g) : parseGrammar text = .ok (.ok g) := by
  obtain ⟨y, phrase⟩ := h
  have gives : Reading.Gives False (readAll text) g y :=
    Rule.calls_complete (fun l hl => .inl hl) _ .all _ g y phrase trivial
  rcases gives with hyield | hexhausted | ⟨⟨⟩, -⟩
  · exact parseGrammar_eq_ok.2 ⟨y, hyield⟩
  · exact absurd hexhausted (readAll_ne_exhausted text)

/-- With any fuel that is enough, what is read is what is parsed. -/
theorem parseGrammar_eq_ok_of_fuel {text : String} {g : Grammar} {fuel : Nat}
    (enough : (Rule.calls fuel .all).read (settle text.toList) ≠ .abort .exhausted) :
    parseGrammar text = .ok (.ok g) ↔
      ∃ y, (Rule.calls fuel .all).read (settle text.toList) = .yield g y := by
  have legible : ∀ l text, Fenced.body? l = some text → (Fenced.body? l).isSome := by
    intro l text hl
    rw [hl]
    rfl
  constructor
  · intro h
    obtain ⟨y, hread⟩ := parseGrammar_eq_ok.1 h
    have found := Rule.calls_sound legible _ .all _ g y (settled_settle _) hread
    have gives : Reading.Gives False _ g y :=
      Rule.calls_complete (fun l hl => .inl hl) fuel .all _ g y found.phrase trivial
    rcases gives with hyield | hexhausted | ⟨⟨⟩, -⟩
    · exact ⟨y, hyield⟩
    · exact absurd hexhausted enough
  · rintro ⟨y, hread⟩
    have found := Rule.calls_sound legible _ .all _ g y (settled_settle _) hread
    exact parseGrammar_of_derives ⟨y, found.phrase⟩

/-- What is parsed is derived, and what is derived is parsed unless a block of code stops it. -/
theorem parseGrammar_ok_iff_derives {text : String} {g : Grammar}
    (even : parseGrammar text ≠ .error .unevenFence) :
    parseGrammar text = .ok (.ok g) ↔ Derives (fun _ => True) text g := by
  constructor
  · intro h
    obtain ⟨y, hread⟩ := parseGrammar_eq_ok.1 h
    have found := Rule.calls_sound (fun _ _ _ => trivial) _ .all _ g y (settled_settle _) hread
    exact ⟨y, found.phrase⟩
  · rintro ⟨y, phrase⟩
    have gives : Reading.Gives True (readAll text) g y :=
      Rule.calls_complete (fun _ _ => .inr trivial) _ .all _ g y phrase trivial
    rcases gives with hyield | hexhausted | ⟨-, huneven⟩
    · exact parseGrammar_eq_ok.2 ⟨y, hyield⟩
    · exact absurd hexhausted (readAll_ne_exhausted text)
    · exact absurd (parseGrammar_eq_error.2 huneven) even

/-- A block of code that is closed evenly stands in front of a reference. -/
theorem derives_reference :
    let g : Grammar := ⟨none, [⟨"a", .sequence [.code "x", .reference "b"], none⟩]⟩
    parseGrammar "a: ``x`` b" ≠ .error .unevenFence ∧
      parseGrammar "a: ``x`` b" = .ok (.ok g) ∧ Derives (fun _ => True) "a: ``x`` b" g := by
  intro g
  have goes : parseGrammar "a: ``x`` b" = .ok (.ok g) := rfl
  have even : parseGrammar "a: ``x`` b" ≠ .error .unevenFence := by
    rw [goes]
    nofun
  exact ⟨even, goes, (parseGrammar_ok_iff_derives even).1 goes⟩

end GrammarKit
