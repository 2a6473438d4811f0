import GrammarKit.Session.Basic
import GrammarKit.Text.Escaped

/-!
The debug trace as text: a line per invocation, indented by its depth, with a bar in the source line
where the invocation began and an exclamation mark in front of those that failed.
-/

namespace GrammarKit

namespace TraceEntry

def markedLine (r : TraceEntry) (text : String) : List Char :=
  let line := lineAt text r.position.row
  line.take r.position.col ++ '|' :: line.drop r.position.col

def render (r : TraceEntry) (text : String) : List Char :=
  List.replicate (4 * r.depth) ' ' ++ (if r.succeeded then [] else ['!']) ++ r.rule.name.toList ++
    [':', ' '] ++ r.position.text.toList ++ [':', ' '] ++ escaped (r.markedLine text)

end TraceEntry

def renderTrace (records : List TraceEntry) (text : String) : List Char :=
  joinWith ['\n'] (records.map fun r => r.render text)

namespace Session

def traceReport (s : Session) : String := String.ofList (renderTrace s.trace.toList s.text)

end Session

end GrammarKit
