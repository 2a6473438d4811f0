import GrammarKit.Proofs.Handler.Runs
import GrammarKit.Proofs.Text.Offset

/-!
What a session keeps while a careful handler runs: the cursor only moves on, invocations and
failures are only added, and no invocation that is added begins behind the cursor.
-/

namespace GrammarKit

namespace Session

/-- `u` follows `s` in a session in which nothing was taken back. -/
structure Grows (s u : Session) : Prop where
  cursor : ∃ n, u.cursor = s.cursor.read n
  current : u.current = s.current
  size : s.invocations.size ≤ u.invocations.size
  invocations : ∀ id, id < s.invocations.size → u.invocations.get? id = s.invocations.get? id
  entries : ∀ id i, s.invocations.size ≤ id → u.invocations.get? id = some i →
    i.entry.offset ≤ u.position.offset
  failures : ∀ (e : FailureId) f, s.failures[e]? = some f → u.failures[e]? = some f

namespace Grows

variable {s t u : Session}

theorem offset_le (h : Grows s u) : s.position.offset ≤ u.position.offset := by
  obtain ⟨n, hn⟩ := h.cursor
  rw [position, position, hn]
  exact Cursor.offset_le_read _ _

theorem text (h : Grows s u) : u.text = s.text := by
  obtain ⟨n, hn⟩ := h.cursor
  rw [Session.text, hn]
  rfl

theorem of_eq (cursor : ∃ n, u.cursor = s.cursor.read n) (current : u.current = s.current)
    (invocations : u.invocations = s.invocations)
    (failures : ∀ (e : FailureId) f, s.failures[e]? = some f → u.failures[e]? = some f) :
    Grows s u where
  cursor := cursor
  current := current
  size := Nat.le_of_eq (by rw [invocations])
  invocations := by simp [invocations]
  entries := by
    intro id i hid hi
    rw [invocations] at hi
    have := (Array.getElem?_eq_some_iff.1 hi).1
    exact absurd this (Nat.not_lt.2 hid)
  failures := failures

theorem refl (s : Session) : Grows s s :=
  of_eq ⟨0, (Cursor.read_zero _).symm⟩ rfl rfl fun _ _ h => h

theorem trans (h : Grows s t) (k : Grows t u) : Grows s u where
  cursor := by
    obtain ⟨n, hn⟩ := h.cursor
    obtain ⟨m, hm⟩ := k.cursor
    exact ⟨n + m, by rw [hm, hn, Cursor.read_read]⟩
  current := k.current.trans h.current
  size := Nat.le_trans h.size k.size
  invocations := fun id hid => by
    rw [k.invocations id (Nat.lt_of_lt_of_le hid h.size), h.invocations id hid]
  entries := by
    intro id i hid hi
    by_cases ht : id < t.invocations.size
    · rw [k.invocations id ht] at hi
      exact Nat.le_trans (h.entries id i hid hi) k.offset_le
    · exact k.entries id i (Nat.le_of_not_lt ht) hi
  failures := fun e f hf => k.failures e f (h.failures e f hf)

theorem peek (s : Session) (branch : Bool) (candidates : List Token) :
    Grows s (s.peek branch candidates).2 :=
  of_eq ⟨0, by simp⟩ (by simp) (by simp) (by simp)

theorem fail (s : Session) (tried : List Token) : Grows s (s.fail tried).2 := by
  refine of_eq ⟨0, by simp⟩ rfl rfl fun e f hf => ?_
  rw [fail_failures, Array.getElem?_push]
  have := (Array.getElem?_eq_some_iff.1 hf).1
  rw [if_neg (Nat.ne_of_lt this), hf]

theorem read (s : Session) (n : Nat) : Grows s { s with cursor := s.cursor.read n } :=
  of_eq ⟨n, rfl⟩ rfl rfl fun _ _ h => h

theorem size_lt {rule : Rule} (h : Grows (s.enter rule).2 t) :
    s.invocations.size < t.invocations.size := by
  have := h.size
  rwa [enter_size] at this

theorem invoke {α : Type} {rule : Rule} {result : Except FailureId α}
    (h : Grows (s.enter rule).2 t) : Grows s (t.leave (s.enter rule).1 result) where
  cursor := by
    obtain ⟨n, hn⟩ := h.cursor
    rw [enter_cursor, Cursor.read_read] at hn
    exact ⟨layoutLength s.cursor.rest + n + layoutLength t.cursor.rest, by
      rw [leave_cursor, hn, Cursor.read_read]⟩
  current := by simp
  size := by
    rw [leave_invocations]
    exact Nat.le_of_lt h.size_lt
  invocations := by
    intro id hid
    have grown := h.invocations id (by rw [enter_size]; exact Nat.lt_succ_of_lt hid)
    rw [leave_invocations, grown, get?_enter, if_neg (Nat.ne_of_lt hid)]
  entries := by
    intro id i hid hi
    rw [leave_invocations] at hi
    have ahead : t.position.offset ≤ (t.leave (s.enter rule).1 result).position.offset := by
      rw [position, position, leave_cursor]
      exact Cursor.offset_le_read _ _
    refine Nat.le_trans ?_ ahead
    by_cases hnew : (s.enter rule).2.invocations.size ≤ id
    · exact h.entries id i hnew hi
    · -- The invocation itself: its entry is where the body began.
      rw [h.invocations id (Nat.lt_of_not_le hnew)] at hi
      refine Nat.le_trans (Nat.le_of_eq ?_) h.offset_le
      rw [enter_size] at hnew
      rw [get?_enter, if_pos (by omega)] at hi
      cases hi
      rfl
  failures := by
    intro e f hf
    rw [leave_failures]
    exact h.failures e f hf

end Grows

end Session

namespace Handler

open Session

theorem Runs.grows {α : Type} {looked : Bool} {s u : Session} {r : Except FailureId α}
    (h : Runs looked s r u) : Grows s u := by
  induction h with
  | done s a => exact .refl s
  | hit rest ih => exact (Grows.peek _ _ _).trans ih
  | miss nonempty further none rest ih => exact (Grows.peek _ _ _).trans ih
  | read s n a => exact .read s n
  | unread none => exact .fail _ _
  | refuse s => exact .fail s []
  | failed body ih => exact .invoke ih
  | invoked body rest ihb ih => exact (Grows.invoke ihb).trans ih

end Handler

end GrammarKit
