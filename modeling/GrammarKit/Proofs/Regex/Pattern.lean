import GrammarKit.Proofs.Regex

/-!
Reading a regular expression from its text. The text is cut into marks first, where an escape or a set
between square brackets is one mark. The marks are then read with a stack of the groups that are open.
-/

namespace GrammarKit

namespace Regex

def literal (c : Char) : Regex := .set false [.range c c]

def dot : Regex := .set true [.range '\n' '\n']

/-- What a backslash makes of the character behind it. Letters and digits without a meaning of their
own are refused. -/
def escapedItem? (c : Char) : Option CharItem :=
  if c = 'd' then some .digit
  else if c = 's' then some .blank
  else if c = 'n' then some (.range '\n' '\n')
  else if c.isAlphanum then none
  else some (.range c c)

/-- Outside of a set a digit stands for a group. -/
def escaped? (c : Char) : Option Regex :=
  if c.isDigit && c != '0' then some (.back (c.toNat - '0'.toNat))
  else (escapedItem? c).map fun item => .set false [item]

/-- Marks of what is not read: starts of lines, and counted repetitions. -/
def unread : List Char := ['^', '\x7b']

inductive Opening where
  | plain
  | numbered
  | ahead (negated : Bool)
  deriving DecidableEq, Repr

inductive Mark where
  | item (r : Regex)
  | repeated (occurrence : Occurrence) (greedy : Bool)
  | opening (o : Opening)
  | closing
  | bar
  deriving DecidableEq, Repr

mutual

def marks? : List Char → Option (List Mark)
  | [] => some []
  | '(' :: '?' :: ':' :: cs => (marks? cs).map (.opening .plain :: ·)
  | '(' :: '?' :: '=' :: cs => (marks? cs).map (.opening (.ahead false) :: ·)
  | '(' :: '?' :: '!' :: cs => (marks? cs).map (.opening (.ahead true) :: ·)
  | '(' :: '?' :: '-' :: 'u' :: ':' :: '\\' :: 'b' :: ')' :: cs =>
    (marks? cs).map (.item .boundary :: ·)
  | '(' :: cs => (marks? cs).map (.opening .numbered :: ·)
  | ')' :: cs => (marks? cs).map (.closing :: ·)
  | '|' :: cs => (marks? cs).map (.bar :: ·)
  | '.' :: cs => (marks? cs).map (.item dot :: ·)
  | '$' :: cs => (marks? cs).map (.item .textEnd :: ·)
  | '[' :: '^' :: cs => setMarks? true [] cs
  | '[' :: cs => setMarks? false [] cs
  | '\\' :: c :: cs =>
    (escaped? c).bind fun r => (marks? cs).map (.item r :: ·)
  | c :: cs =>
    match Occurrence.ofSuffix? c, cs with
    | some o, '?' :: cs => (marks? cs).map (.repeated o false :: ·)
    | some o, cs => (marks? cs).map (.repeated o true :: ·)
    | none, cs => if c ∈ unread then none else (marks? cs).map (.item (literal c) :: ·)

/-- The rest of a set with the items read so far, the last one first, and what follows it. -/
def setMarks? (negated : Bool) (items : List CharItem) : List Char → Option (List Mark)
  | [] => none
  | ']' :: cs => (marks? cs).map (.item (.set negated items.reverse) :: ·)
  | '\\' :: c :: cs => (escapedItem? c).bind fun item => setMarks? negated (item :: items) cs
  | c :: '-' :: ']' :: cs =>
    (marks? cs).map (.item (.set negated (.range '-' '-' :: .range c c :: items).reverse) :: ·)
  | first :: '-' :: last :: cs => setMarks? negated (.range first last :: items) cs
  | c :: cs => setMarks? negated (.range c c :: items) cs

end

structure Level where
  opening : Opening
  number : Nat
  /-- The alternatives that are complete, the last one first. -/
  choices : List Regex
  items : List Regex
  deriving DecidableEq, Repr

namespace Level

def add (l : Level) (r : Regex) : Level := { l with items := r :: l.items }

def sequence (l : Level) : Regex := l.items.foldl (fun r item => .seq item r) .empty

def nextChoice (l : Level) : Level := { l with choices := l.sequence :: l.choices, items := [] }

def repeatLast? (l : Level) (o : Occurrence) (greedy : Bool) : Option Level :=
  match l.items with
  | [] => none
  | r :: items => some { l with items := .repeated o greedy r :: items }

def regex (l : Level) : Regex :=
  let choice := l.choices.foldl (fun r choice => .alt choice r) l.sequence
  match l.opening with
  | .plain => choice
  | .numbered => .group l.number choice
  | .ahead negated => .look negated choice

end Level

/-- Reads marks inside a group, with the groups around it; groups are numbered as they are opened. -/
def read? : List Mark → (groups : Nat) → Level → List Level → Option Regex
  | [], _, l, [] => some l.regex
  | [], _, _, _ :: _ => none
  | .item r :: ms, groups, l, outer => read? ms groups (l.add r) outer
  | .repeated o greedy :: ms, groups, l, outer =>
    (l.repeatLast? o greedy).bind fun l => read? ms groups l outer
  | .opening o :: ms, groups, l, outer =>
    let groups := if o = .numbered then groups + 1 else groups
    read? ms groups ⟨o, groups, [], []⟩ (l :: outer)
  | .closing :: ms, groups, l, next :: outer => read? ms groups (next.add l.regex) outer
  | .closing :: _, _, _, [] => none
  | .bar :: ms, groups, l, outer => read? ms groups l.nextChoice outer

def ofChars? (cs : List Char) : Option Regex :=
  (marks? cs).bind fun ms => read? ms 0 ⟨.plain, 0, [], []⟩ []

def ofPattern? (pattern : String) : Option Regex := ofChars? pattern.toList

/-- The same with a flag in front, perhaps, by which it has no regard to case. -/
def ofSource? (source : String) : Option (Bool × Regex) :=
  match source.toList with
  | '(' :: '?' :: 'i' :: ')' :: cs => (ofChars? cs).map (true, ·)
  | cs => (ofChars? cs).map (false, ·)

end Regex

end GrammarKit
