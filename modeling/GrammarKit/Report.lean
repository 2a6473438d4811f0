import GrammarKit.Session.Basic
import GrammarKit.Text.Width

/-!
Reports of failed parses.

A report holds the failure that ended a parse, the others noted on the way as possible reasons, and
the text that they point into. It reads as sections with an empty line between them: a title, where
the failure is, which patterns were tried there, and where the possible reasons are. How many columns
a piece of text takes is a parameter, so that a caret can be placed for any terminal.
-/

namespace GrammarKit

structure FailureSite where
  rules : List Rule
  position : Position
  patterns : List Token
  deriving DecidableEq, Repr

variable (width : List Char → Nat)

namespace FailureSite

def rule? (r : FailureSite) : Option Rule := r.rules.getLast?

def ruleName (r : FailureSite) : List Char :=
  match r.rule? with
  | some rule => rule.name.toList
  | none => []

def chain (r : FailureSite) : List Char :=
  joinWith [' '] (r.rules.map fun rule => rule.name.toList)

def message (r : FailureSite) : List Char :=
  "rule `".toList ++ r.ruleName ++ "` failed at ".toList ++ r.position.text.toList

def caret (r : FailureSite) (line : List Char) : List Char :=
  List.replicate (width (line.take r.position.col)) ' ' ++ ['^']

/-- The failing rule and its chain, and the source line between fences with the caret below it. -/
def location (r : FailureSite) (text : String) : List Char :=
  let line := lineAt text r.position.row
  "Rule `".toList ++ r.ruleName ++ "` failed at ".toList ++ r.position.text.toList ++
    " (ctx: ".toList ++ r.chain ++ "):\n```\n".toList ++ line ++ ['\n'] ++ r.caret width line ++
    "\n```".toList

def patternsSection (r : FailureSite) : List Char :=
  "Failed matching ".toList ++
    (if r.patterns.length > 1 then "one of the patterns".toList else "the pattern".toList) ++
    ":\n".toList ++ joinWith ['\n'] (r.patterns.map fun t => t.pattern.toList) ++ ['\n']

/-- The bytes of the character at the failure, none at the end of the text. A position outside the
text, or inside a character, marks nothing. -/
def span? (r : FailureSite) (text : String) : Option (Nat × Nat) :=
  (charsIn r.position.offset text.toList).map fun n =>
    (r.position.offset, byteLength ((text.toList.drop n).take 1))

end FailureSite

structure Report where
  sourceName : String
  text : String
  primary : FailureSite
  reasons : List FailureSite
  deriving DecidableEq, Repr

inductive SectionKind where
  | title
  | location
  | patterns
  | reasonsHeader
  deriving DecidableEq, Repr

namespace Report

def defaultSourceName : String := "grammar"

def ofText (text : String) (primary : FailureSite) (reasons : List FailureSite) : Report :=
  ⟨defaultSourceName, text, primary, reasons⟩

def withSourceName (f : Report) (name : String) : Report := { f with sourceName := name }

def message (f : Report) : String := String.ofList f.primary.message

def sections (f : Report) (title : String) : List (SectionKind × List Char) :=
  [(.title, title.toList), (.location, f.primary.location width f.text)] ++
    (if f.primary.patterns.isEmpty then [] else [(.patterns, f.primary.patternsSection)]) ++
    if f.reasons.isEmpty then []
    else (.reasonsHeader, "Possible reasons:".toList) ::
      f.reasons.map fun r => (.location, r.location width f.text)

/-- The report as text. If nothing else is asked for, columns are counted as most terminals do. -/
def render (f : Report) (title : String) (width : List Char → Nat := Width.columns) : String :=
  String.ofList (joinWith ['\n', '\n'] ((f.sections width title).map Prod.snd))

def code : String := "topdown::parse::failed"

def help? (f : Report) : Option String :=
  if f.primary.patterns.isEmpty then none
  else some (String.ofList ("expected one of: ".toList ++
    joinWith [',', ' '] (f.primary.patterns.map fun t => t.name.toList)))

structure Label where
  text : String
  offset : Nat
  length : Nat
  deriving DecidableEq, Repr

def label? (text : String) (lead : String) (r : FailureSite) : Option Label :=
  (r.span? text).map fun (offset, length) =>
    ⟨String.ofList (lead.toList ++ '`' :: r.ruleName ++ "` failed here".toList), offset, length⟩

/-- A label for the failure and each possible reason; none if one of them points outside the text. -/
def labels? (f : Report) : Option (List Label) :=
  match label? f.text "" f.primary, f.reasons.mapM (label? f.text "possible reason: ") with
  | some label, some labels => some (label :: labels)
  | _, _ => none

end Report

namespace Session

/-- A failure as it was raised; of one that was not raised nothing is known. -/
def failure (s : Session) (e : FailureId) : Failure := s.failures[e]?.getD ⟨none, .start, []⟩

def site (s : Session) (e : FailureId) : FailureSite :=
  let failure := s.failure e
  ⟨(failure.invocation.map s.invocations.chain).getD [], failure.position, failure.tried⟩

/-- A failure with every other one that was noted as a possible reason. -/
def report (s : Session) (e : FailureId) : Report :=
  .ofText s.text (s.site e) ((s.noted.toList.filter (· ≠ e)).map s.site)

end Session

end GrammarKit
