import GrammarKit.Text.Bytes

/-!
Code blocks between fences.

A fence is a run of backticks. The longest fence that the opening run allows is tried first; a block
closes at the first place behind its opening fence where the same number of backticks stands, so a
closing fence may be the start of a longer run.
-/

namespace GrammarKit

def fenceMark : Char := '`'

/-- A code block at the start of a text: the length of either fence, and of the text between. -/
structure Fenced where
  fence : Nat
  bodyLength : Nat
  deriving DecidableEq, Repr

namespace Fenced

def length (f : Fenced) : Nat := f.fence + f.bodyLength + f.fence

def openingRun (cs : List Char) : Nat := (cs.takeWhile (· == fenceMark)).length

def find? (fence : Nat) (cs : List Char) : Option Nat := go cs 0 0
where
  go : List Char → Nat → Nat → Option Nat
    | [], _, _ => none
    | c :: cs, read, run =>
      if c = fenceMark then
        if run + 1 = fence then some (read + 1 - fence) else go cs (read + 1) (run + 1)
      else go cs (read + 1) 0

/-- The block whose opening fence is the longest of at most `fence` backticks that closes. -/
def ofFence? (cs : List Char) : Nat → Option Fenced
  | 0 => none
  | fence + 1 =>
    match find? (fence + 1) (cs.drop (fence + 1)) with
    | some body => some ⟨fence + 1, body⟩
    | none => ofFence? cs fence

def match? (cs : List Char) : Option Fenced := ofFence? cs (openingRun cs)

/-- The text of a block, taking its fence to be the whole run of backticks at its start, and cutting
as many bytes off its end. There is none if those bytes reach into the run, or begin inside a
character. -/
def body? (lexeme : List Char) : Option (List Char) :=
  let fence := openingRun lexeme
  let bytes := byteLength lexeme
  if bytes < fence + fence then none
  else (charsIn (bytes - fence) lexeme).map fun n => (lexeme.take n).drop fence

end Fenced

end GrammarKit
