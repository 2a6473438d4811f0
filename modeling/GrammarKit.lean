import GrammarKit.Grammar.First
import GrammarKit.Grammar.Json
import GrammarKit.Proofs.Alternatives
import GrammarKit.Proofs.Block
import GrammarKit.Proofs.Dispatch
import GrammarKit.Proofs.First.Closed
import GrammarKit.Proofs.Handler.Careful
import GrammarKit.Proofs.Json.Grammar
import GrammarKit.Proofs.Literal.Escape
import GrammarKit.Proofs.Literal.Scanned
import GrammarKit.Proofs.Occurrence.Analysis
import GrammarKit.Proofs.Occurrence.Collapse
import GrammarKit.Proofs.Occurrence.Language
import GrammarKit.Proofs.Phrase.WellFormed
import GrammarKit.Proofs.Prefix
import GrammarKit.Proofs.Printed.Delimited
import GrammarKit.Proofs.Relayout
import GrammarKit.Proofs.Report.Ink
import GrammarKit.Proofs.RoundTrip
import GrammarKit.Proofs.Rule.Careful
import GrammarKit.Proofs.Session.Linear
import GrammarKit.Proofs.Session.Outline
import GrammarKit.Proofs.Session.Position
import GrammarKit.Proofs.Session.Repetition
import GrammarKit.Proofs.Session.Trace
import GrammarKit.Proofs.Session.Transparency
import GrammarKit.Proofs.Text.Pieces
import GrammarKit.Proofs.Token.Extent
import GrammarKit.Proofs.Token.Matcher
import GrammarKit.Report.Ink
