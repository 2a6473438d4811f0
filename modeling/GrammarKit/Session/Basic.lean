import GrammarKit.Session.Invocation
import GrammarKit.Text.Cursor
import GrammarKit.Token.Match

/-!
Parsing sessions.

A session is all that one parse knows: the cursor, the invocations, the failures raised, which of
them ended invocations and in what order, a debug trace if it was asked for, and the tokens that the
last peeks tried. Its operations look at the next token, consume one, run a rule inside an invocation
of its own, or raise a failure that names what was tried.
-/

namespace GrammarKit

/-- A failure is known by its place among those raised. -/
abbrev FailureId := Nat

structure Failure where
  invocation : Option InvocationId
  position : Position
  tried : List Token
  deriving DecidableEq, Repr

structure TraceEntry where
  rule : Rule
  position : Position
  depth : Nat
  succeeded : Bool
  deriving DecidableEq, Repr

inductive Abort where
  /-- The closing fence of a code block is shorter than the run of backticks at its start, and what
  stands in front of it cannot be cut to make up for that. -/
  | unevenFence
  | exhausted
  deriving DecidableEq, Repr

structure Session where
  cursor : Cursor
  debug : Bool
  trace : Array TraceEntry
  invocations : InvocationTree
  current : Option InvocationId
  depth : Nat
  failures : Array Failure
  /-- The failures that ended invocations, in order. -/
  noted : Array FailureId
  /-- The failure noted last, unless an invocation has begun since. -/
  lastNoted : Option FailureId
  /-- What the peeks since the last hit tried. -/
  tried : Option (List Token)
  deriving DecidableEq, Repr

/-- An operation fails with a failure that it raised or was handed, and leaves the session behind. -/
abbrev Result (α : Type) := Except Abort (Except FailureId α × Session)

namespace Session

def ofText (text : String) (debug : Bool) : Session where
  cursor := .ofText text
  debug := debug
  trace := #[]
  invocations := .empty
  current := none
  depth := 0
  failures := #[]
  noted := #[]
  lastNoted := none
  tried := none

def text (s : Session) : String := s.cursor.text

def position (s : Session) : Position := s.cursor.position

/-- The first candidate that stands at the cursor. A hit forgets what was tried before. A miss adds
the candidates to what was tried if it looks at a further branch, and replaces it otherwise. -/
def peek (s : Session) (branch : Bool) (candidates : List Token) : Option Token × Session :=
  match candidates.find? (Token.startsAt s.cursor.rest) with
  | some t => (some t, { s with tried := none })
  | none =>
    let before := if branch then s.tried.getD [] else []
    (none, { s with tried := some (before ++ candidates) })

def raise (s : Session) (tried : List Token) : FailureId × Session :=
  (s.failures.size,
    { s with failures := s.failures.push ⟨s.current, s.cursor.position, tried⟩ })

/-- Raises a failure that names the given tokens, or without any what the last peeks tried. -/
def fail (s : Session) (tried : List Token) : FailureId × Session :=
  s.raise (if tried.isEmpty then s.tried.getD [] else tried)

def expect (s : Session) (candidates : List Token) : Except FailureId Token × Session :=
  match s.peek false candidates with
  | (some t, s) => (.ok t, s)
  | (none, s) =>
    match s.fail [] with
    | (e, s) => (.error e, s)

def consume (s : Session) (t : Token) : Except FailureId (List Char) × Session :=
  match t.length? s.cursor.rest with
  | some n => (.ok (s.cursor.rest.take n), { s with cursor := s.cursor.read n })
  | none =>
    match s.fail [t] with
    | (e, s) => (.error e, s)

def skipLayout (s : Session) : Session :=
  { s with cursor := s.cursor.read (layoutLength s.cursor.rest) }

structure Frame where
  parent : Option InvocationId
  depth : Nat
  record : Option Nat
  deriving DecidableEq, Repr

def enter (s : Session) (rule : Rule) : Frame × Session :=
  let frame : Frame := ⟨s.current, s.depth, if s.debug then some s.trace.size else none⟩
  let id := s.invocations.size
  let s := s.skipLayout
  let entry := s.cursor.position
  (frame,
    { s with
      current := some id
      depth := frame.depth + 1
      invocations := s.invocations.push ⟨rule, frame.parent, entry⟩
      lastNoted := none
      trace := if s.debug then s.trace.push ⟨rule, entry, frame.depth, false⟩ else s.trace })

def markSucceeded (s : Session) : Option Nat → Session
  | some i => { s with trace := s.trace.modify i fun r => { r with succeeded := true } }
  | none => s

/-- Notes a failure that ends an invocation, once for all invocations that it ends in a row. -/
def note (s : Session) (e : FailureId) : Session :=
  if s.lastNoted = some e then s
  else { s with lastNoted := some e, noted := s.noted.push e }

def leave {α : Type} (frame : Frame) (result : Except FailureId α) (s : Session) : Session :=
  let s :=
    match result with
    | .ok _ => s.markSucceeded frame.record
    | .error e => s.note e
  skipLayout { s with depth := frame.depth, current := frame.parent }

def invoke {α : Type} (s : Session) (rule : Rule) (body : Session → Result α) : Result α :=
  match s.enter rule with
  | (frame, s) =>
    match body s with
    | .error why => .error why
    | .ok (result, s) => .ok (result, s.leave frame result)

end Session

end GrammarKit
