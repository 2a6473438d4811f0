import GrammarKit.Proofs.Parse
import GrammarKit.Proofs.Phrase.Viable

/-!
Failures are reported no later than at the first token that does not fit. Main statement: the text
in front of a reported position is the beginning of some text that is parsed.
-/

namespace GrammarKit

/-- A failed parse, with the text in front of the position that it reports. -/
theorem parseGrammar_refuses {text : String} {report : Report}
    (h : parseGrammar text = .ok (.error report)) :
    ∃ seen v, text.toList = seen ++ v ∧ byteLength seen = report.primary.position.offset ∧
      readAll text = .refuse v := by
  have hview := view_run_all text
  unfold parseGrammar at h
  cases hrun : (Session.ofText text false).run .all with
  | error why =>
    rw [hrun] at h
    cases h
  | ok result =>
    obtain ⟨result, u⟩ := result
    rw [hrun] at h hview
    cases result with
    | ok g => cases h
    | error e =>
      cases h
      obtain ⟨f, hf, hexplains, -⟩ := Session.run_explains hrun
      have reach := Session.Reachable.start text false
      obtain ⟨n, hn⟩ := (Session.run_grows hrun).cursor
      have same : u.cursor.text = text := by rw [hn]; rfl
      obtain ⟨seen, htext, hoffset⟩ := (reach.run .all _ hrun).coherent.exists_read
      rw [same] at htext
      refine ⟨seen, u.cursor.rest, htext, ?_, hview.symm⟩
      have position : (u.report e).primary.position = f.position := by
        rw [Session.report, Report.ofText, Session.site, Session.failure, hf]
        rfl
      rw [position, hexplains.position, ← hoffset]
      rfl

/-- What stands in front of a reported position can be gone on with. -/
theorem parseGrammar_error_viable {text : String} {report : Report}
    (h : parseGrammar text = .ok (.error report)) :
    ∃ before after, text = before ++ after ∧
      byteLength before.toList = report.primary.position.offset ∧
      ∃ w g, parseGrammar (before ++ w) = .ok (.ok g) := by
  obtain ⟨seen, v, htext, hoffset, hread⟩ := parseGrammar_refuses h
  have legible : ∀ l text, Fenced.body? l = some text → (Fenced.body? l).isSome := by
    intro l text hl
    rw [hl]
    rfl
  obtain ⟨p, hp, w, -, g, derived⟩ := Rule.all_viable legible (settled_settle _) hread
  refine ⟨String.ofList seen, String.ofList v, ?_, ?_, String.ofList ('\n' :: w), g, ?_⟩
  · rw [← String.ofList_append, ← htext, String.ofList_toList]
  · rw [String.toList_ofList, hoffset]
  · apply parseGrammar_of_derives
    refine ⟨[], ?_⟩
    rw [htext] at hp
    rw [← String.ofList_append, String.toList_ofList, settle_exchange hp]
    exact derived

/-- A reference without a rule. -/
theorem parseGrammar_error_viable_name :
    ∃ report, parseGrammar "a" = .ok (.error report) ∧
      ∃ before after, "a" = before ++ after ∧
        byteLength before.toList = report.primary.position.offset ∧
        ∃ w g, parseGrammar (before ++ w) = .ok (.ok g) :=
  ⟨_, rfl, parseGrammar_error_viable rfl⟩

end GrammarKit
