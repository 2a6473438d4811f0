import GrammarKit.Proofs.Layout
import GrammarKit.Session.Handler

/-!
What a handler does to the text alone. Reading follows a handler without a session: it keeps the
characters still to be read and forgets invocations, failures and what was tried. A failure ends the
reading where it is met, so readings say something only about handlers that pass failures on.
-/

namespace GrammarKit

inductive Reading (α : Type) where
  | yield (a : α) (rest : List Char)
  | refuse (rest : List Char)
  | abort (why : Abort)

namespace Reading

variable {α β : Type}

def bind : Reading α → (α → List Char → Reading β) → Reading β
  | yield a cs, f => f a cs
  | refuse cs, _ => refuse cs
  | abort why, _ => abort why

def settled : Reading α → Reading α
  | yield a cs => yield a (settle cs)
  | refuse cs => refuse (settle cs)
  | abort why => abort why

theorem bind_eq_yield {o : Reading α} {f : α → List Char → Reading β} {b : β} {z : List Char} :
    o.bind f = yield b z ↔ ∃ a y, o = yield a y ∧ f a y = yield b z := by
  cases o <;> simp [bind, and_assoc]

theorem bind_eq_refuse {o : Reading α} {f : α → List Char → Reading β} {v : List Char} :
    o.bind f = refuse v ↔ o = refuse v ∨ ∃ a y, o = yield a y ∧ f a y = refuse v := by
  cases o <;> simp [bind, and_assoc]

theorem bind_eq_abort {o : Reading α} {f : α → List Char → Reading β} {why : Abort} :
    o.bind f = abort why ↔ o = abort why ∨ ∃ a y, o = yield a y ∧ f a y = abort why := by
  cases o <;> simp [bind, and_assoc]

theorem settled_eq_yield {o : Reading α} {a : α} {z : List Char} :
    o.settled = yield a z ↔ ∃ y, o = yield a y ∧ settle y = z := by
  cases o <;> simp [settled, and_assoc]

theorem settled_eq_refuse {o : Reading α} {v : List Char} :
    o.settled = refuse v ↔ ∃ y, o = refuse y ∧ settle y = v := by
  cases o <;> simp [settled]

theorem settled_eq_abort {o : Reading α} {why : Abort} :
    o.settled = abort why ↔ o = abort why := by
  cases o <;> simp [settled]

def choose (candidates : List Token) (cs : List Char) (f : Token → Reading α) : Reading α :=
  match candidates.find? (Token.startsAt cs) with
  | some t => f t
  | none => refuse cs

def taking (t : Token) (g : List Char → α) (cs : List Char) : Reading α :=
  match t.length? cs with
  | some n => yield (g (cs.take n)) (cs.drop n)
  | none => refuse cs

section

variable {candidates : List Token} {cs : List Char} {f : Token → Reading α}

theorem choose_of_find? {t : Token} (h : candidates.find? (Token.startsAt cs) = some t) :
    choose candidates cs f = f t := by
  rw [choose, h]

theorem choose_eq_yield {a : α} {y : List Char} :
    choose candidates cs f = yield a y ↔
      ∃ t, candidates.find? (Token.startsAt cs) = some t ∧ f t = yield a y := by
  rw [choose]
  cases candidates.find? (Token.startsAt cs) <;> simp

theorem choose_eq_refuse {v : List Char} :
    choose candidates cs f = refuse v ↔
      candidates.find? (Token.startsAt cs) = none ∧ v = cs ∨
        ∃ t, candidates.find? (Token.startsAt cs) = some t ∧ f t = refuse v := by
  rw [choose]
  cases candidates.find? (Token.startsAt cs) <;> simp [eq_comm]

theorem choose_eq_abort {why : Abort} :
    choose candidates cs f = abort why ↔
      ∃ t, candidates.find? (Token.startsAt cs) = some t ∧ f t = abort why := by
  rw [choose]
  cases candidates.find? (Token.startsAt cs) <;> simp

end

@[simp] theorem yield_bind (a : α) (cs : List Char) (f : α → List Char → Reading β) :
    (yield a cs).bind f = f a cs := rfl

@[simp] theorem refuse_bind (cs : List Char) (f : α → List Char → Reading β) :
    (refuse cs).bind f = refuse cs := rfl

theorem bind_assoc {γ : Type} (o : Reading α) (f : α → List Char → Reading β)
    (g : β → List Char → Reading γ) :
    (o.bind f).bind g = o.bind fun a cs => (f a cs).bind g := by
  cases o <;> rfl

theorem ite_bind (c : Prop) [Decidable c] (a b : Reading α) (f : α → List Char → Reading β) :
    (if c then a else b).bind f = if c then a.bind f else b.bind f := by
  split <;> rfl

end Reading

namespace Handler

variable {α β : Type}

@[simp] theorem map_eq (f : α → β) (h : Handler α) : f <$> h = h.bind fun a => done (f a) := rfl

@[simp] theorem done_bind (a : α) (f : α → Handler β) : (done a).bind f = f a := rfl

@[simp] theorem abort_bind (why : Abort) (f : α → Handler β) : (abort why).bind f = abort why := rfl

@[simp] theorem refuse_bind (tried : List Token) (f : α → Handler β) :
    (refuse tried : Handler α).bind f = refuse tried := rfl

@[simp] theorem ite_bind (c : Prop) [Decidable c] (a b : Handler α) (f : α → Handler β) :
    (if c then a else b).bind f = if c then a.bind f else b.bind f := by
  split <;> rfl

def read {α : Type} : Handler α → List Char → Reading α
  | done a, cs => .yield a cs
  | reraise _, cs => .refuse cs
  | abort why, _ => .abort why
  | peek _ candidates k, cs => (k (candidates.find? (Token.startsAt cs))).read cs
  | consume t k, cs =>
    match t.length? cs with
    | some n => (k (.ok (cs.take n))).read (cs.drop n)
    | none => .refuse cs
  | fail _ _, cs => .refuse cs
  | invoke _ body k, cs =>
    match (body.read (settle cs)).settled with
    | .yield b cs => (k (.ok b)).read cs
    | .refuse cs => .refuse cs
    | .abort why => .abort why
  | attempt _ body k, cs =>
    match (body.read (settle cs)).settled with
    | .yield b cs => (k (some b)).read cs
    | .refuse _ => (k none).read cs
    | .abort why => .abort why

@[simp] theorem read_done (a : α) (cs : List Char) : (done a).read cs = .yield a cs := rfl

@[simp] theorem read_abort (why : Abort) (cs : List Char) :
    (abort why : Handler α).read cs = .abort why := rfl

@[simp] theorem read_refuse (tried : List Token) (cs : List Char) :
    (refuse tried : Handler α).read cs = .refuse cs := rfl

@[simp] theorem read_look (candidates : List Token) (cs : List Char) :
    (look candidates).read cs = .yield (candidates.find? (Token.startsAt cs)) cs := rfl

@[simp] theorem read_lookBranch (candidates : List Token) (cs : List Char) :
    (lookBranch candidates).read cs = .yield (candidates.find? (Token.startsAt cs)) cs := rfl

theorem read_bind (h : Handler α) (f : α → Handler β) (cs : List Char) :
    (h.bind f).read cs = (h.read cs).bind fun a cs => (f a).read cs := by
  induction h generalizing cs with
  | done a => rfl
  | reraise e => rfl
  | abort why => rfl
  | peek branch candidates k ih => exact ih _ _ _
  | consume t k ih =>
    simp only [bind, read]
    split
    · exact ih _ _ _
    · rfl
  | fail tried k ih => rfl
  | invoke rule body k _ ih =>
    simp only [bind, read]
    split
    · exact ih _ _ _
    · rfl
    · rfl
  | attempt rule body k _ ih =>
    simp only [bind, read]
    split
    · exact ih _ _ _
    · exact ih _ _ _
    · rfl

theorem read_call (rule : Rule) (body : Handler α) (cs : List Char) :
    (call rule body).read cs = (body.read (settle cs)).settled := by
  simp only [call, read]
  split <;> simp_all [ofExcept]

theorem read_ite (c : Prop) [Decidable c] (a b : Handler α) (cs : List Char) :
    (if c then a else b).read cs = if c then a.read cs else b.read cs := by
  split <;> rfl

theorem read_look_ite (candidates : List Token) (a b : Handler α) (cs : List Char) :
    ((look candidates).bind fun t => if t.isSome = true then a else b).read cs =
      if candidates.any (Token.startsAt cs) then a.read cs else b.read cs := by
  rw [read_bind, read_look, Reading.bind, read_ite, List.isSome_find?]

theorem read_lookBranch_ite (candidates : List Token) (a b : Handler α) (cs : List Char) :
    ((lookBranch candidates).bind fun t => if t.isSome = true then a else b).read cs =
      if candidates.any (Token.startsAt cs) then a.read cs else b.read cs :=
  read_look_ite candidates a b cs

theorem read_expect_bind (candidates : List Token) (f : Token → Handler α) (cs : List Char) :
    ((expect candidates).bind f).read cs = .choose candidates cs fun t => (f t).read cs := by
  rw [read_bind]
  simp only [expect, read, Reading.choose]
  cases candidates.find? (Token.startsAt cs) <;> rfl

theorem read_lexeme_bind (t : Token) (f : List Char → Handler α) (cs : List Char) :
    ((lexeme t).bind f).read cs =
      match t.length? cs with
      | some n => (f (cs.take n)).read (cs.drop n)
      | none => .refuse cs := by
  rw [read_bind]
  simp only [lexeme, read, ofExcept]
  cases t.length? cs <;> rfl

theorem read_lexeme_bind_done (t : Token) (g : List Char → α) (cs : List Char) :
    ((lexeme t).bind fun l => done (g l)).read cs = .taking t g cs :=
  read_lexeme_bind t _ cs

end Handler

end GrammarKit
