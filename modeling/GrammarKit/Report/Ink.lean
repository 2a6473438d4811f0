import GrammarKit.Report

/-!
Reports with highlights: the title in bold red, the header of the possible reasons in bold yellow,
and the first line of every other section in bold.
-/

namespace GrammarKit

inductive Colour where
  | red
  | yellow
  deriving DecidableEq, Repr

inductive Ink where
  | text (cs : List Char)
  | bold (colour : Option Colour)
  | reset
  deriving DecidableEq, Repr

namespace Ink

def plain : Ink → List Char
  | text cs => cs
  | bold _ => []
  | reset => []

def csi (code : List Char) : List Char := '\x1b' :: '[' :: code ++ ['m']

/-- As control sequences. A style starts from a reset. -/
def ansi : Ink → List Char
  | text cs => cs
  | bold none => csi ['0'] ++ csi ['1']
  | bold (some .red) => csi ['0'] ++ csi ['1'] ++ csi ['3', '1']
  | bold (some .yellow) => csi ['0'] ++ csi ['1'] ++ csi ['3', '3']
  | reset => csi ['0']

def ofSection : SectionKind × List Char → List Ink
  | (.title, body) => [bold (some .red), text body, reset]
  | (.reasonsHeader, body) => [bold (some .yellow), text body, reset]
  | (_, body) =>
    let header := body.takeWhile (· ≠ '\n')
    let rest := (body.dropWhile (· ≠ '\n')).drop 1
    [bold none, text header, reset] ++ if rest.isEmpty then [] else [text ('\n' :: rest)]

def ofSections : List (SectionKind × List Char) → List Ink
  | [] => []
  | [last] => ofSection last
  | first :: sections => ofSection first ++ text ['\n', '\n'] :: ofSections sections

end Ink

namespace Report

def ink (f : Report) (title : String) (width : List Char → Nat := Width.columns) : List Ink :=
  Ink.ofSections (f.sections width title) ++ [.text ['\n'], .reset]

def coloured (f : Report) (title : String) (width : List Char → Nat := Width.columns) : String :=
  String.ofList ((f.ink title width).flatMap Ink.ansi)

end Report

end GrammarKit
