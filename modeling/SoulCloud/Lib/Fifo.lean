import Mathlib.Data.List.Basic

/-!
# Bounded FIFO queues

A message queue of fixed capacity (FreeRTOS `xQueueCreate`). The bound is part
of the type, so `send` has to refuse an element when the queue is full, and a
caller that ignores the result loses that element.
-/

universe u

/-- A queue of at most `cap` elements, the oldest first. -/
structure Fifo (α : Type u) (cap : Nat) where
  items : List α
  bound : items.length ≤ cap

namespace Fifo

variable {α : Type u} {cap : Nat}

@[ext] theorem ext {q q' : Fifo α cap} (h : q.items = q'.items) : q = q' := by
  cases q
  cases q'
  cases h
  rfl

def empty (α : Type u) (cap : Nat) : Fifo α cap := ⟨[], Nat.zero_le _⟩

/-- Append an element; `none` when the queue is full. -/
def send (q : Fifo α cap) (x : α) : Option (Fifo α cap) :=
  if h : q.items.length < cap then
    some ⟨q.items ++ [x], by rw [List.length_append]; exact h⟩
  else none

/-- Remove the oldest element; `none` when the queue is empty. -/
def receive (q : Fifo α cap) : Option (α × Fifo α cap) :=
  match hq : q.items with
  | [] => none
  | x :: xs => some (x, ⟨xs, by
      have h := q.bound
      rw [hq, List.length_cons] at h
      exact Nat.le_of_succ_le h⟩)

/-- Append an element, dropping it when the queue is full. -/
def sendOrDrop (q : Fifo α cap) (x : α) : Fifo α cap := (q.send x).getD q

theorem send_of_lt {q : Fifo α cap} (x : α) (h : q.items.length < cap) :
    ∃ q', q.send x = some q' ∧ q'.items = q.items ++ [x] := by
  rw [send, dif_pos h]
  exact ⟨_, rfl, rfl⟩

theorem items_of_receive {q q' : Fifo α cap} {x : α} (h : q.receive = some (x, q')) :
    q.items = x :: q'.items := by
  unfold receive at h
  split at h
  · cases h
  · rename_i hq
    cases h
    exact hq

theorem receive_eq_none_iff {q : Fifo α cap} : q.receive = none ↔ q.items = [] := by
  unfold receive
  split
  · rename_i hq
    exact ⟨fun _ => hq, fun _ => rfl⟩
  · rename_i hq
    constructor
    · intro h
      cases h
    · intro h
      rw [h] at hq
      cases hq

/-- Filling an empty queue with at most `cap` elements keeps them all, in order. -/
theorem items_foldl_sendOrDrop :
    ∀ (xs : List α) (q : Fifo α cap), q.items.length + xs.length ≤ cap →
      (xs.foldl sendOrDrop q).items = q.items ++ xs
  | [], q, _ => (List.append_nil _).symm
  | x :: xs, q, h => by
    rw [List.length_cons] at h
    obtain ⟨q', hq', hitems⟩ := send_of_lt (q := q) x (by omega)
    have hs : q.sendOrDrop x = q' := by rw [sendOrDrop, hq']; rfl
    rw [List.foldl_cons, hs, items_foldl_sendOrDrop xs q', hitems, List.append_assoc]
    · rfl
    · rw [hitems, List.length_append]
      simp only [List.length_singleton]
      omega

end Fifo
