import GrammarKit.Proofs.Handler.Lockstep
import GrammarKit.Proofs.Prefix
import GrammarKit.Proofs.Rule.Accounting
import GrammarKit.Proofs.Rule.Trimming

/-!
How a failed text could have gone on. What stands at the place of a failure may be replaced by a text
with which the whole is parsed. Main statement: behind a line feed such a text begins with one of the
tokens that the failure names, unless a literal in front of the place reaches into it. There are three
exceptions: where a bracket has to be closed or a further rule has to begin, the failure names nothing
else, though the expression in front of it could have gone on.
-/

namespace GrammarKit

open Rule

/-- A text that begins with no blank and no comment is settled. -/
theorem settled_of_head {cs : List Char}
    (h : ∀ c, cs.head? = some c → isBlank c = false ∧ c ≠ '#') : Settled cs := by
  cases cs with
  | nil => exact settled_nil
  | cons c cs => exact settled_cons (h c rfl).2 (h c rfl).1 cs

theorem Rule.survey_calls (n : Nat) (r : Rule) (sight : Sight) (x : List Char) :
    (calls n r).survey sight x = (calls n r).survey sight (settle x) := by
  rw [calls, Handler.survey_call, Handler.survey_call, settle_settle]

/-- A report names what the survey of the text ends with. -/
theorem parseGrammar_names {text : String} {report : Report}
    (h : parseGrammar text = .ok (.error report)) : ∃ last v,
      (calls (fuelFor text) .all).survey .fresh (settle text.toList) = .refuse last v ∧
        report.primary.patterns = last.tried := by
  unfold parseGrammar at h
  cases hrun : (Session.ofText text false).run .all with
  | error why =>
    rw [hrun] at h
    cases h
  | ok result =>
    obtain ⟨result, u⟩ := result
    rw [hrun] at h
    cases result with
    | ok g => cases h
    | error e =>
      cases h
      rw [Session.run_eq_exec] at hrun
      obtain ⟨last, hlast, f, hf, tried⟩ :
          ∃ last, (calls (fuelFor text) .all).survey .fresh text.toList =
            .refuse last u.cursor.rest ∧ ∃ f, u.failures[e]? = some f ∧ f.tried = last.tried :=
        (careful_calls _ .all).survey_of_exec (absurd · Bool.false_ne_true) hrun
      refine ⟨last, _, (survey_calls ..).symm.trans hlast, ?_⟩
      rw [← tried, Session.report, Report.ofText, Session.site, Session.failure, hf]
      rfl

/-- A failed parse, with the text behind the position that it reports and what has been looked for
there. -/
theorem parseGrammar_refuses_at {u v : String} {report : Report}
    (h : parseGrammar (u ++ v) = .ok (.error report))
    (place : byteLength u.toList = report.primary.position.offset) : ∃ last,
      (calls (fuelFor (u ++ v)) .all).survey .fresh (settle (u ++ v).toList) =
        .refuse last v.toList ∧ report.primary.patterns = last.tried := by
  obtain ⟨seen, rest, htext, hoffset, hread⟩ := parseGrammar_refuses h
  obtain ⟨last, rest', hsurvey, hnames⟩ := parseGrammar_names h
  cases (Handler.read_of_survey hsurvey).symm.trans hread
  rw [String.toList_append] at htext
  have long := charsIn_append u.toList v.toList
  rw [htext, place, ← hoffset, charsIn_append] at long
  obtain ⟨-, rfl⟩ := List.append_inj htext (Option.some.inj long).symm
  exact ⟨last, hsurvey, hnames⟩

/-- A failure that names all that has been looked for stays, whatever the text goes on with, as long
as it is none of that. -/
theorem Rule.read_refuses {fuel : Nat} {r : Rule} {u v w : List Char} {last : Sight}
    (hr : (calls fuel r).survey .fresh (settle (u ++ v)) = .refuse last v) (line : Lined u)
    (start : Settled w) (cut : Tiled (settle (u ++ w)) w) (whole : last.whole = true)
    (absent : ∀ t ∈ last.tried, Token.startsAt w t = false) :
    (calls fuel r).read (settle (u ++ w)) = .refuse w := by
  have careful := careful_calls fuel r
  have trims : (calls fuel r).Trims := by
    rw [calls, Handler.trims_call]
    exact trims_handler fuel r
  have settled := settled_settle (u ++ v)
  have stop : Settled v := careful.settled_of_refuse settled (Handler.read_of_survey hr)
  have lead : Leads v (fun _ => True) .fresh (settle (u ++ v)) := by
    apply careful.leads settled
    rw [hr]
    exact ⟨rfl, .refl v, fun _ => whole, fun _ _ _ => trivial⟩
  obtain ⟨q, hq⟩ := lead.tiled.suffix
  have line' : Lined q := by
    apply line.of_suffix
    obtain ⟨front, hfront⟩ := settle_suffix (u ++ v)
    rw [← hq, ← List.append_assoc] at hfront
    exact ⟨front, List.append_cancel_right hfront⟩
  rw [← hq] at hr settled
  rw [line.settle_append stop start hq.symm] at cut ⊢
  exact careful.refuses stop start trims line' settled cut hr whole absent

/-- A failure behind a line feed, or at the start, names a token that stands at the start of whatever
text the parse could have gone on with there, but for the failures in `closings`. The tokens in front
of the place have to end there in the new text as well. -/
theorem parseGrammar_error_complete {u v w : String} {report : Report} {g : Grammar}
    (fails : parseGrammar (u ++ v) = .ok (.error report))
    (place : byteLength u.toList = report.primary.position.offset) (line : Lined u.toList)
    (start : ∀ c, w.toList.head? = some c → isBlank c = false ∧ c ≠ '#')
    (cut : Tiled (settle (u ++ w).toList) w.toList)
    (goes : parseGrammar (u ++ w) = .ok (.ok g)) :
    report.primary.patterns ∈ closings ∨
      ∃ t ∈ report.primary.patterns, Token.startsAt w.toList t := by
  obtain ⟨last, hsurvey, names⟩ := parseGrammar_refuses_at fails place
  rw [names]
  have accounts : ((calls (fuelFor (u ++ v)) .all).survey .fresh (settle (u ++ v).toList)).Accounts
      closings _ :=
    accounts_handler _ .all .fresh _ (settled_settle _) (Sight.clear_fresh _ _)
  rw [hsurvey] at accounts
  rcases accounts with whole | closing
  · refine .inr ?_
    by_contra absent
    rw [String.toList_append] at hsurvey cut
    have refused := read_refuses hsurvey line (settled_of_head start) cut whole fun t ht => by
      rw [← Bool.not_eq_true]
      exact fun stands => absent ⟨t, ht, stands⟩
    rw [← String.toList_append] at refused
    have enough : (calls (fuelFor (u ++ v)) .all).read (settle (u ++ w).toList) ≠
        .abort .exhausted := by
      rw [refused]
      intro h
      cases h
    obtain ⟨y, hy⟩ := (parseGrammar_eq_ok_of_fuel enough).1 goes
    rw [refused] at hy
    cases hy
  · exact .inl closing

/-- An alternative is missing. -/
theorem parseGrammar_error_complete_choice : ∃ report g,
    parseGrammar ("a: b |\n" ++ "") = .ok (.error report) ∧
      byteLength "a: b |\n".toList = report.primary.position.offset ∧ Lined "a: b |\n".toList ∧
      (∀ c, "c".toList.head? = some c → isBlank c = false ∧ c ≠ '#') ∧
      Tiled (settle ("a: b |\n" ++ "c").toList) "c".toList ∧
      parseGrammar ("a: b |\n" ++ "c") = .ok (.ok g) ∧ report.primary.patterns ∉ closings ∧
      (report.primary.patterns ∈ closings ∨
        ∃ t ∈ report.primary.patterns, Token.startsAt "c".toList t) := by
  have cut : Tiled (settle ("a: b |\n" ++ "c").toList) "c".toList :=
    .head ⟨.ruleName, _, 1, rfl, rfl, rfl⟩ <| .head ⟨.ruleColon, _, 1, rfl, rfl, rfl⟩ <|
      .head ⟨.ruleRef, _, 2, rfl, rfl, rfl⟩ <| .head ⟨.orExprOp, _, 1, rfl, rfl, rfl⟩ <| .refl _
  have start : ∀ c, "c".toList.head? = some c → isBlank c = false ∧ c ≠ '#' := by
    rintro _ ⟨⟩
    decide
  have line : Lined "a: b |\n".toList := by decide
  exact ⟨_, _, rfl, rfl, line, start, cut, rfl, by decide,
    @parseGrammar_error_complete "a: b |\n" "" "c" _ _ rfl rfl line start cut rfl⟩

/-- Each of the exceptions is one: in place of the closing bracket or the further rule, the text could
have gone on with another item. -/
theorem closings_incomplete : ∀ names ∈ closings, ∃ u v w report g,
    parseGrammar (u ++ v) = .ok (.error report) ∧ report.primary.patterns = names ∧
      byteLength u.toList = report.primary.position.offset ∧ Lined u.toList ∧
      (∀ c, w.toList.head? = some c → isBlank c = false ∧ c ≠ '#') ∧
      Tiled (settle (u ++ w).toList) w.toList ∧ parseGrammar (u ++ w) = .ok (.ok g) ∧
      ∀ t ∈ names, Token.startsAt w.toList t = false := by
  have group : Tiled (settle ("a: (b\n" ++ "c)").toList) "c)".toList :=
    .head ⟨.ruleName, _, 1, rfl, rfl, rfl⟩ <| .head ⟨.ruleColon, _, 1, rfl, rfl, rfl⟩ <|
      .head ⟨.brktBeg, _, 1, rfl, rfl, rfl⟩ <| .head ⟨.ruleRef, _, 2, rfl, rfl, rfl⟩ <| .refl _
  have option : Tiled (settle ("a: [b\n" ++ "c]").toList) "c]".toList :=
    .head ⟨.ruleName, _, 1, rfl, rfl, rfl⟩ <| .head ⟨.ruleColon, _, 1, rfl, rfl, rfl⟩ <|
      .head ⟨.sqrbrktBeg, _, 1, rfl, rfl, rfl⟩ <| .head ⟨.ruleRef, _, 2, rfl, rfl, rfl⟩ <| .refl _
  have sequence : Tiled (settle ("a: b\n" ++ "(c)").toList) "(c)".toList :=
    .head ⟨.ruleName, _, 1, rfl, rfl, rfl⟩ <| .head ⟨.ruleColon, _, 1, rfl, rfl, rfl⟩ <|
      .head ⟨.ruleRef, _, 2, rfl, rfl, rfl⟩ <| .refl _
  intro names mem
  simp only [closings, List.mem_cons, List.not_mem_nil, or_false] at mem
  rcases mem with rfl | rfl | rfl
  · refine ⟨"a: (b\n", "", "c)", _, _, rfl, rfl, rfl, by decide, ?_, group, rfl, by decide⟩
    rintro _ ⟨⟩
    decide
  · refine ⟨"a: [b\n", "", "c]", _, _, rfl, rfl, rfl, by decide, ?_, option, rfl, by decide⟩
    rintro _ ⟨⟩
    decide
  · refine ⟨"a: b\n", ")", "(c)", _, _, rfl, rfl, rfl, by decide, ?_, sequence, rfl, by decide⟩
    rintro _ ⟨⟩
    decide

/-- Nor can the condition on the tokens in front of the place be left out: a literal there may be read
on into the new text. -/
theorem reopened_literal_incomplete : ∃ u v w report g,
    parseGrammar (u ++ v) = .ok (.error report) ∧ report.primary.patterns ∉ closings ∧
      byteLength u.toList = report.primary.position.offset ∧ Lined u.toList ∧
      (∀ c, w.toList.head? = some c → isBlank c = false ∧ c ≠ '#') ∧
      parseGrammar (u ++ w) = .ok (.ok g) ∧
      ∀ t ∈ report.primary.patterns, Token.startsAt w.toList t = false := by
  have failed : parseGrammar ("a: '''b'\n" ++ "=") = .ok (.error (.ofText "a: '''b'\n="
      ⟨[.all, .ruleSeq, .ruleDef, .orExpr, .seqExpr, .occExpr, .atom], ⟨9, 1, 0⟩,
        [.argsSign, .ruleRef, .regexStr, .ruleName, .code, .brktBeg, .brktEnd, .occ0mTrailer,
          .occ1mTrailer, .occ01Trailer, .sqrbrktBeg, .sqrbrktEnd, .orExprOp, .textEnd]⟩ [])) := by
    decide +kernel
  have parsed : parseGrammar ("a: '''b'\n" ++ "%'''") =
      .ok (.ok ⟨none, [⟨"a", .pattern ⟨"b'\n%", none⟩, none⟩]⟩) := by
    decide +kernel
  refine ⟨_, _, _, _, _, failed, by decide, rfl, by decide, ?_, parsed, by decide +kernel⟩
  rintro _ ⟨⟩
  decide

/-- Behind `a: (b` and a line feed, nothing but the closing bracket is named, but an item may follow. -/
theorem not_all_alternatives_named : ¬ ∀ (u v w : String) (report : Report) (g : Grammar),
    parseGrammar (u ++ v) = .ok (.error report) →
    byteLength u.toList = report.primary.position.offset → Lined u.toList →
    (∀ c, w.toList.head? = some c → isBlank c = false ∧ c ≠ '#') →
    parseGrammar (u ++ w) = .ok (.ok g) →
    ∃ t ∈ report.primary.patterns, Token.startsAt w.toList t := by
  intro all
  have start : ∀ c, "c)".toList.head? = some c → isBlank c = false ∧ c ≠ '#' := by
    rintro _ ⟨⟩
    decide
  obtain ⟨t, ht, stands⟩ := all "a: (b\n" "" "c)" _ _ rfl rfl (by decide) start rfl
  have named : t ∈ [Token.brktEnd] := ht
  rw [List.mem_singleton.1 named] at stands
  cases stands

end GrammarKit
