/-
The bounded first-in first-out queue: what a message queue is for.
-/
import Mathlib.Data.List.Basic

namespace InfoWorkshop

/-- At most `capacity` items, oldest first. -/
structure Fifo (α : Type*) where
  capacity : Nat
  items : List α
  bounded : items.length ≤ capacity

namespace Fifo

variable {α : Type*}

def empty (capacity : Nat) : Fifo α := ⟨capacity, [], Nat.zero_le _⟩

/-- The queue with `x` at its end, `none` when it is full. -/
def enqueue (f : Fifo α) (x : α) : Option (Fifo α) :=
  if h : f.items.length < f.capacity then
    some ⟨f.capacity, f.items ++ [x], by rw [List.length_append]; exact h⟩
  else none

/-- The oldest item and the queue without it, `none` when it is empty. -/
def dequeue (f : Fifo α) : Option (α × Fifo α) :=
  match h : f.items with
  | [] => none
  | x :: xs => some (x, ⟨f.capacity, xs, by have := f.bounded; simp [h] at this; omega⟩)

theorem enqueue_eq_none_iff (f : Fifo α) (x : α) : f.enqueue x = none ↔ f.items.length = f.capacity := by
  have := f.bounded
  unfold enqueue; split <;> simp <;> omega

theorem enqueue_some {f g : Fifo α} {x : α} (h : f.enqueue x = some g) :
    g.capacity = f.capacity ∧ g.items = f.items ++ [x] := by
  unfold enqueue at h
  split at h
  · cases h; exact ⟨rfl, rfl⟩
  · cases h

theorem dequeue_some {f g : Fifo α} {x : α} (h : f.dequeue = some (x, g)) :
    g.capacity = f.capacity ∧ f.items = x :: g.items := by
  unfold dequeue at h
  split at h
  · cases h
  · rename_i y ys hy
    cases h; exact ⟨rfl, hy⟩

end Fifo

end InfoWorkshop
