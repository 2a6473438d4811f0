import GrammarKit.Options
import GrammarKit.Report
import GrammarKit.Rule.Handler
import GrammarKit.Session.Trace

/-!
Parsing a text in a session of its own.
-/

namespace GrammarKit

/-- All that a parse leaves: the session, and either what the rule yields or a report. -/
structure Outcome where
  session : Session
  result : Except Report Yield

namespace Outcome

def product? (o : Outcome) : Option Yield := o.result.toOption

def failure? (o : Outcome) : Option Report :=
  match o.result with
  | .ok _ => none
  | .error f => some f

def traceReport? (o : Outcome) : Option String :=
  if o.session.debug then some o.session.traceReport else none

end Outcome

def parseWith (text : String) (options : Options) : Except Abort Outcome :=
  match (Session.ofText text options.debug).run options.rule with
  | .error why => .error why
  | .ok (.ok output, s) => .ok ⟨s, .ok (.ofOutput options.rule output)⟩
  | .ok (.error e, s) => .ok ⟨s, .error (s.report e)⟩

def parse (text : String) : Except Abort Outcome := parseWith text .default

def parseRule (text : String) (rule : String) (debug : Bool) :
    Except Rule.Unknown (Except Abort Outcome) :=
  match Rule.ofName rule with
  | .error e => .error e
  | .ok rule => .ok (parseWith text ⟨rule, debug⟩)

def parseGrammar (text : String) : Except Abort (Except Report Grammar) :=
  match (Session.ofText text false).run .all with
  | .error why => .error why
  | .ok (.ok g, _) => .ok (.ok g)
  | .ok (.error e, s) => .ok (.error (s.report e))

end GrammarKit
