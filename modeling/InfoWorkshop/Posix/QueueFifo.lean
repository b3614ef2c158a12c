/-
The queue of `adapter/posix/queue.c` is a bounded FIFO: `Holds q xs` says that the slots
`tail, tail + 1, …` of `q` (modulo `size`) lead to copies of the messages `xs`, oldest first. Each
section keeps this relation and does to `xs` what `Fifo.enqueue` or `Fifo.dequeue` does, or nothing.
-/
import InfoWorkshop.Lib.Fifo
import InfoWorkshop.Lib.Ring
import InfoWorkshop.Posix.Queue
import Mathlib.Data.List.Forall2

namespace InfoWorkshop.Posix.Queue

open InfoWorkshop.Core InfoWorkshop.Memory InfoWorkshop.CondVar InfoWorkshop.Ring

variable {K : Type*}

/-- `q` holds exactly the messages `xs`, oldest first. -/
structure Holds (q : Queue K) (xs : List Bytes) : Prop where
  slotsLen : q.slots.length = q.size
  count : q.nElements = xs.length
  bounded : xs.length ≤ q.size
  tailLt : 0 < q.size → q.tail < q.size
  headEq : 0 < q.size → q.head = (q.tail + q.nElements) % q.size
  stored : ∃ ps : List Addr, window q.slots q.tail q.nElements = ps.map (fun p => some (some p)) ∧
    List.Forall₂ (fun p x => q.heap.read p = some x) ps xs
  width : ∀ x ∈ xs, x.length = q.elementSize

/-- The waiting threads are no part of the contents. -/
theorem Holds.withCond {q : Queue K} {xs : List Bytes} (h : q.Holds xs) (c : Waiters K Receiver) :
    ({ q with cond := c } : Queue K).Holds xs :=
  ⟨h.slotsLen, h.count, h.bounded, h.tailLt, h.headEq, h.stored, h.width⟩

theorem Holds.nElements_le {q : Queue K} {xs : List Bytes} (h : q.Holds xs) : q.nElements ≤ q.size := by
  rw [h.count]
  exact h.bounded

/-- Slot `tail + i` leads to the `i`-th message. -/
theorem Holds.slotBytes_eq {q : Queue K} {xs : List Bytes} (h : q.Holds xs) {i : Nat} (hi : i < xs.length) :
    q.slotBytes ((q.tail + i) % q.size) = some xs[i] := by
  obtain ⟨ps, hw, hps⟩ := h.stored
  have hlen : i < ps.length := by rw [hps.length_eq]; exact hi
  have hslot := (window_getElem? (h.count ▸ hi) : (window q.slots q.tail q.nElements)[i]? = _)
  rw [hw, h.slotsLen, List.getElem?_map, List.getElem?_eq_getElem hlen] at hslot
  simp only [Option.map_some, Option.some.injEq] at hslot
  unfold slotBytes
  rw [← hslot]
  exact (List.forall₂_iff_get.1 hps).2 i hlen hi

/-- The messages, oldest first. -/
def contents (q : Queue K) : List Bytes :=
  (List.range q.nElements).map fun i => (q.slotBytes ((q.tail + i) % q.size)).getD []

theorem Holds.contents_eq {q : Queue K} {xs : List Bytes} (h : q.Holds xs) : q.contents = xs := by
  apply List.ext_getElem
  · simp [contents, h.count]
  · intro i hi hi'
    simp [contents, h.slotBytes_eq hi']

theorem allocate_holds (queueSize elementSize : Nat) :
    (allocate queueSize elementSize : Queue K).Holds [] :=
  ⟨by simp [allocate], rfl, Nat.zero_le _, id, fun _ => by simp [allocate],
    ⟨[], by simp [allocate], .nil⟩, by simp⟩

/-! ## Sending -/

/-- `put` with the block it allocates. -/
theorem put_eq {q : Queue K} (he : 0 < q.elementSize) (message : Bytes) :
    q.put message =
      { q with
        slots := q.slots.set q.head (some (q.heap.alloc q.elementSize).1)
        heap := (q.heap.alloc q.elementSize).2.write (q.heap.alloc q.elementSize).1
          (memcpy (List.replicate q.elementSize 0) message q.elementSize)
        head := (q.head + 1) % q.size
        nElements := q.nElements + 1 } := by
  unfold put xmalloc
  rw [if_neg (by omega)]
  simp only [Heap.read_alloc_new, Option.getD_some]

/-- The bytes of a message do not change when a copy of another one is made. -/
theorem read_after_put {h : Heap} {p : Addr} {b : Bytes} (size : Nat) (c : Bytes) (hr : h.read p = some b) :
    ((h.alloc size).2.write (h.alloc size).1 c).read p = some b := by
  rw [Heap.read_write_ne (Heap.ne_alloc_of_read size hr)]
  exact Heap.read_alloc_of_read size hr

theorem put_holds {q : Queue K} {xs : List Bytes} (h : q.Holds xs) (hroom : xs.length < q.size)
    (he : 0 < q.elementSize) {message : Bytes} (hm : message.length = q.elementSize) :
    (q.put message).Holds (xs ++ [message]) := by
  have hsize : 0 < q.size := by omega
  have hn : q.nElements < q.slots.length := by rw [h.slotsLen, h.count]; exact hroom
  have hcopy : memcpy (List.replicate q.elementSize 0) message q.elementSize = message :=
    memcpy_all hm (by simp)
  rw [put_eq he, hcopy]
  refine ⟨by simpa using h.slotsLen, by simp [h.count], by simp; omega, h.tailLt, fun _ => ?_, ?_, ?_⟩
  · show (q.head + 1) % q.size = (q.tail + (q.nElements + 1)) % q.size
    rw [h.headEq hsize, Nat.mod_add_mod, Nat.add_assoc]
  · obtain ⟨ps, hw, hps⟩ := h.stored
    refine ⟨ps ++ [(q.heap.alloc q.elementSize).1], ?_, ?_⟩
    · show window (q.slots.set q.head _) q.tail (q.nElements + 1) = _
      rw [h.headEq hsize, ← h.slotsLen, window_push hn, hw]
      simp
    · refine List.rel_append (hps.imp fun p x hp => read_after_put _ _ hp) (.cons ?_ .nil)
      refine Heap.read_write_self ?_ message
      simp [Heap.alloc]
  · intro x hx
    rcases List.mem_append.1 hx with hx | hx
    · exact h.width x hx
    · rw [List.mem_singleton.1 hx]; exact hm

/-- A full queue rejects a message and stays as it is. -/
theorem send_full {q : Queue K} {xs : List Bytes} (h : q.Holds xs) (hfull : xs.length = q.size)
    (message : Bytes) (pick : Nat) : q.send message pick = (.errorResourceNotAvailable, q) := by
  rcases q.send_cases message pick with ⟨-, hs⟩ | ⟨hn, -⟩
  · exact hs
  · exact absurd (h.count.trans hfull) hn

/-- A queue with room appends a message. -/
theorem send_room {q : Queue K} {xs : List Bytes} (h : q.Holds xs) (hroom : xs.length < q.size)
    (message : Bytes) (pick : Nat) :
    q.send message pick = (.success,
      { q.put message with cond := if q.nElements = 0 then q.cond.signal pick else q.cond }) := by
  rcases q.send_cases message pick with ⟨hn, -⟩ | ⟨-, hs⟩
  · rw [h.count] at hn; omega
  · exact hs

/-! ## Receiving -/

/-- With nothing to take, `message` and the queue stay as they are. -/
theorem take_nil {q : Queue K} (h : q.Holds []) (message : Bytes) :
    q.take message = ((.errorTimeout, message), q) := by
  rcases q.take_cases message with ⟨-, ht⟩ | ⟨hn, -⟩
  · exact ht
  · exact absurd h.count hn

/-- The oldest message is copied out whole. -/
theorem take_cons {q : Queue K} {x : Bytes} {xs : List Bytes} (h : q.Holds (x :: xs)) {message : Bytes}
    (hm : message.length = q.elementSize) :
    q.take message = ((.success, x),
      { q with nElements := q.nElements - 1, tail := (q.tail + 1) % q.size }) := by
  have hsize : 0 < q.size := by have := h.bounded; simp at this; omega
  have hslot := h.slotBytes_eq (i := 0) (by simp)
  rw [Nat.add_zero, Nat.mod_eq_of_lt (h.tailLt hsize)] at hslot
  rcases q.take_cases message with ⟨hn, -⟩ | ⟨-, ht⟩
  · rw [h.count] at hn; simp at hn
  · rw [ht, hslot, Option.getD_some, List.getElem_cons_zero, memcpy_all (h.width x (by simp)) hm]

theorem take_cons_holds {q : Queue K} {x : Bytes} {xs : List Bytes} (h : q.Holds (x :: xs)) :
    ({ q with nElements := q.nElements - 1, tail := (q.tail + 1) % q.size } : Queue K).Holds xs := by
  have hsize : 0 < q.size := by have := h.bounded; simp at this; omega
  have hn : q.nElements = xs.length + 1 := by simp [h.count]
  obtain ⟨ps, hw, hps⟩ := h.stored
  cases hps with
  | cons hp hps =>
    rename_i p ps
    rw [hn, window_pop, List.map_cons, List.cons.injEq, h.slotsLen] at hw
    refine ⟨h.slotsLen, by simp [hn], by have := h.bounded; simp at this ⊢; omega,
      fun _ => Nat.mod_lt _ hsize, fun _ => ?_, ⟨ps, ?_, hps⟩, fun y hy => h.width y (by simp [hy])⟩
    · show q.head = ((q.tail + 1) % q.size + (q.nElements - 1)) % q.size
      rw [h.headEq hsize, hn, Nat.add_sub_cancel, succ_mod_add]
    · show window q.slots ((q.tail + 1) % q.size) (q.nElements - 1) = _
      rw [hn, Nat.add_sub_cancel]; exact hw.2

end InfoWorkshop.Posix.Queue
