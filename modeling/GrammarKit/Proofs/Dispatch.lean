import GrammarKit.Proofs.Block
import GrammarKit.Proofs.Session.Untraced

/-!
Ways into a parse. A rule is run by its own handler, or through the registry, whose handlers yield the
same for every rule; and a session keeps a debug trace or does not. Main statement: none of this makes
a difference to what a session gives, to what is left in it but for the trace, or to what a text is
parsed to.
-/

namespace GrammarKit

/-- The handler of a rule in the registry: it does not show in its type what the rule yields. -/
def Rule.erased (fuel : Nat) (r : Rule) : Handler Yield := Yield.ofOutput r <$> r.handler fuel

namespace Session

def dispatch (s : Session) (rule : Rule) : Result Yield :=
  s.invoke rule (rule.erased (Rule.fuelFor s.text)).exec

/-- What the registry yields is what the handler of the rule yields. -/
theorem dispatch_eq (s : Session) (rule : Rule) :
    s.dispatch rule = (s.run rule).map (Prod.map (Except.map (Yield.ofOutput rule)) id) := by
  have body (s' : Session) : (rule.erased (Rule.fuelFor s.text)).exec s' =
      ((rule.handler (Rule.fuelFor s.text)).exec s').map
        (Prod.map (Except.map (Yield.ofOutput rule)) id) := by
    rw [Rule.erased, Handler.map_eq, Handler.exec_bind]
    cases (rule.handler (Rule.fuelFor s.text)).exec s' with
    | error why => rfl
    | ok result =>
      obtain ⟨r, t⟩ := result
      cases r <;> rfl
  simp only [dispatch, run, invoke, body]
  cases (rule.handler (Rule.fuelFor s.text)).exec (s.enter rule).2 with
  | error why => rfl
  | ok result =>
    obtain ⟨r, t⟩ := result
    cases r <;> rfl

theorem record_lt_of_exec {α : Type} {s u : Session} {rule : Rule} {body : Handler α}
    {r : Except FailureId α} (hr : body.exec (s.enter rule).2 = .ok (r, u)) :
    ∀ i ∈ (s.enter rule).1.record, i < u.trace.size := by
  intro i hi
  have record : (s.enter rule).1.record = if s.debug then some s.trace.size else none := rfl
  rw [record] at hi
  split at hi
  next debug =>
    cases hi
    obtain ⟨-, marks⟩ := Handler.marks_exec hr debug
    rw [marks_enter debug] at marks
    have size := congrArg List.length marks
    simp only [Session.marks, List.length_append, List.length_map, Array.length_toList,
      List.length_singleton] at size
    omega
  next => cases hi

end Session

def parseDispatched (text : String) (options : Options) : Except Abort Outcome :=
  match (Session.ofText text options.debug).dispatch options.rule with
  | .error why => .error why
  | .ok (.ok y, s) => .ok ⟨s, .ok y⟩
  | .ok (.error e, s) => .ok ⟨s, .error (s.report e)⟩

theorem parseDispatched_eq (text : String) (options : Options) :
    parseDispatched text options = parseWith text options := by
  rw [parseDispatched, parseWith, Session.dispatch_eq]
  cases (Session.ofText text options.debug).run options.rule with
  | error why => rfl
  | ok result =>
    obtain ⟨r, s⟩ := result
    cases r <;> rfl

section

variable (text : String) (debug : Bool)

/-- Both ways to parse a grammar break off alike, or give the same. -/
theorem parse_cases :
    (∃ why, parseGrammar text = .error why ∧ parseWith text ⟨.all, debug⟩ = .error why) ∨
      ∃ y o, parseGrammar text = .ok y ∧ parseWith text ⟨.all, debug⟩ = .ok o ∧
        o.result = y.map Yield.grammar := by
  have plain : (Session.ofText text false).run .all =
      Session.untracedBehind ((Session.ofText text debug).run .all) :=
    Session.run_untraced (Session.ofText text debug) .all
  rw [parseWith, parseGrammar, plain]
  dsimp only
  cases (Session.ofText text debug).run .all with
  | error why => exact .inl ⟨why, rfl, rfl⟩
  | ok result =>
    obtain ⟨r, s⟩ := result
    cases r with
    | error e => exact .inr ⟨.error (s.report e), _, rfl, rfl, rfl⟩
    | ok g => exact .inr ⟨.ok g, _, rfl, rfl, rfl⟩

theorem parseGrammar_breaks {why : Abort} :
    parseGrammar text = .error why ↔ parseWith text ⟨.all, debug⟩ = .error why := by
  rcases parse_cases text debug with ⟨why', hg, ho⟩ | ⟨y, o, hg, ho, -⟩
  · rw [hg, ho, Except.error.injEq, Except.error.injEq]
  · rw [hg, ho]
    constructor
    · intro broken
      cases broken
    · intro broken
      cases broken

theorem parseGrammar_gives {y : Except Report Grammar} : parseGrammar text = .ok y ↔
    ∃ o, parseWith text ⟨.all, debug⟩ = .ok o ∧ o.result = y.map Yield.grammar := by
  rcases parse_cases text debug with ⟨why, hg, ho⟩ | ⟨y', o, hg, ho, result⟩
  · rw [hg, ho]
    constructor
    · intro given
      cases given
    · rintro ⟨o, given, -⟩
      cases given
  · rw [hg, ho]
    constructor
    · rintro ⟨⟩
      exact ⟨o, rfl, result⟩
    · rintro ⟨o', ⟨⟩, result'⟩
      have equal : y'.map Yield.grammar = y.map Yield.grammar := result.symm.trans result'
      cases y' <;> cases y <;> cases equal <;> rfl

end

theorem exists_uneven_of_parseGrammar {text : String} {why : Abort}
    (h : parseGrammar text = .error why) : ∃ cs f, cs <:+ text.toList ∧
      Fenced.match? cs = some f ∧ f.fence < Fenced.openingRun cs := by
  have broken : (Session.ofText text false).run .all = .error why := by
    unfold parseGrammar at h
    split at h
    next hrun =>
      cases h
      exact hrun
    next => cases h
    next => cases h
  exact (exists_uneven_of_run (.start text false) broken).2

/-- Steps give the same with and without a trace, and leave the same but for the trace, in which every
invocation finds its record again. A text is parsed alike with and without a trace, by the handlers
themselves and through the registry, and for a grammar alone or with the session behind it. -/
theorem ways_agree (text : String) :
    (∀ steps : List Step,
      match (Session.ofText text true).responses steps,
        (Session.ofText text false).responses steps with
      | .ok (given, s), .ok (given', s') => given = given' ∧ s.cursor = s'.cursor ∧
          s.invocations = s'.invocations ∧ s.failures = s'.failures ∧ s.noted = s'.noted
      | .error why, .error why' => why = why'
      | _, _ => False) ∧
    (∀ debug : Bool,
      (∀ rule, parseDispatched text ⟨rule, debug⟩ = parseWith text ⟨rule, debug⟩) ∧
      (∀ g, parseGrammar text = .ok (.ok g) ↔
        ∃ o, parseWith text ⟨.all, debug⟩ = .ok o ∧ o.result = .ok (.grammar g)) ∧
      (∀ report, parseGrammar text = .ok (.error report) ↔
        ∃ o, parseWith text ⟨.all, debug⟩ = .ok o ∧ o.result = .error report) ∧
      ∀ why, (parseGrammar text = .error why ↔ parseWith text ⟨.all, debug⟩ = .error why) ∧
        (parseGrammar text = .error why → ∃ cs f, cs <:+ text.toList ∧
          Fenced.match? cs = some f ∧ f.fence < Fenced.openingRun cs)) ∧
    ∀ (s u : Session) (rule : Rule) (α : Type) (body : Handler α) (r : Except FailureId α),
      body.exec (s.enter rule).2 = .ok (r, u) →
        ∀ i ∈ (s.enter rule).1.record, i < u.trace.size := by
  refine ⟨fun steps => ?_, fun debug => ⟨?_, ?_, ?_, ?_⟩, ?_⟩
  · have plain := (Session.ofText text true).responses_untraced steps
    rw [Session.untraced_ofText] at plain
    rw [plain]
    cases (Session.ofText text true).responses steps with
    | error why => rfl
    | ok result => exact ⟨rfl, rfl, rfl, rfl, rfl⟩
  · intro rule
    exact parseDispatched_eq text ⟨rule, debug⟩
  · intro g
    exact parseGrammar_gives text debug
  · intro report
    exact parseGrammar_gives text debug
  · intro why
    exact ⟨parseGrammar_breaks text debug, exists_uneven_of_parseGrammar⟩
  · intro s u rule α body r hr
    exact Session.record_lt_of_exec hr

/-- With a trace a name is read, and its record is there to be marked; and a grammar is parsed to the
same. -/
theorem ways_agree_traced :
    (∃ u, (Handler.lexeme .ruleName).exec ((Session.ofText "a" true).enter .ruleName).2 =
        .ok (.ok ['a'], u) ∧ 0 < u.trace.size) ∧
      ∃ o, parseWith "a: b" ⟨.all, true⟩ = .ok o ∧
        o.result = .ok (.grammar ⟨none, [⟨"a", .reference "b", none⟩]⟩) := by
  refine ⟨⟨_, rfl, ?_⟩, ?_⟩
  · exact (ways_agree "a").2.2 (.ofText "a" true) _ .ruleName _ (Handler.lexeme .ruleName) _ rfl
      0 rfl
  · exact (((ways_agree "a: b").2.1 true).2.1 ⟨none, [⟨"a", .reference "b", none⟩]⟩).1 rfl

/-- Two backticks are no grammar and leave no report either, whichever way they are parsed. -/
theorem parse_without_report :
    (∀ result, parseGrammar "a: ``" ≠ .ok result) ∧
      ∀ debug o, parseWith "a: ``" ⟨.all, debug⟩ ≠ .ok o := by
  have broken : parseGrammar "a: ``" = .error .unevenFence := by rfl
  refine ⟨fun result h => ?_, fun debug o h => ?_⟩
  · rw [broken] at h
    cases h
  · rw [(parseGrammar_breaks _ debug).1 broken] at h
    cases h

end GrammarKit
