import GrammarKit.Json.Printer
import GrammarKit.Json.Reader

/-!
Writing JSON values as texts and reading them. Grammars are written and read by whatever codec there
is; a program has one that spreads its texts over lines.
-/

namespace GrammarKit

namespace Json

structure Codec where
  text : Json → String
  value? : String → Option Json

def Codec.lines : Codec where
  text := pretty
  value? text := (ofText text).toOption

end Json

end GrammarKit
