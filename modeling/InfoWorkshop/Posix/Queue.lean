/-
`adapter/posix/queue.c`: the queue structure and the mutex-held sections of its functions. A section
runs from the moment the thread holds the mutex to the moment it gives it up, so it is one step for
every other thread. `K` names threads.
-/
import InfoWorkshop.Core.Defines
import InfoWorkshop.Lib.CondVar
import InfoWorkshop.Posix.Time

namespace InfoWorkshop.Posix

open InfoWorkshop.Core InfoWorkshop.Memory InfoWorkshop.CondVar

/-- What a thread keeps while it waits in `Queue_Receive`: the bytes `message` points to, its
arguments, the clock reading and the deadline it computed. -/
structure Receiver where
  message : Bytes
  timeoutMs : UInt64
  tv : Timeval
  tp : Timespec
  deriving DecidableEq, Repr

/-- `struct Queue`, with the addresses of the blocks `Queue_New` allocates, the pointers stored in
the `messages` array, and the heap as far as the functions of this queue use it. -/
structure Queue (K : Type*) where
  size : Nat
  elementSize : Nat
  head : Nat
  tail : Nat
  nElements : Nat
  self : Option Addr
  messages : Option Addr
  slots : List (Option Addr)
  cond : Waiters K Receiver
  heap : Heap
  deriving DecidableEq, Repr

namespace Queue

variable {K : Type*}

/-- `sizeof(Queue)` on x86-64. -/
def sizeofQueue : Nat := 136

/-- `sizeof(void *)`. -/
def sizeofPointer : Nat := 8

/-- Lines 29-32 of `Queue_New`: the structure and its array, zeroed, and their blocks. -/
def allocate (queueSize elementSize : Nat) : Queue K :=
  let (self, heap) := xcalloc .empty 1 sizeofQueue
  let (messages, heap) := xcalloc heap queueSize sizeofPointer
  { size := queueSize, elementSize, head := 0, tail := 0, nElements := 0, self, messages,
    slots := List.replicate queueSize none, cond := .empty, heap }

/-- `Queue_New`: `NULL` when the mutex or the condition variable cannot be initialised. -/
def new (queueSize elementSize : Nat) (mutexInit condInit : Bool) : Option (Queue K) :=
  if !mutexInit then none
  else if !condInit then none
  else some (allocate queueSize elementSize)

/-- The bytes that the pointer in slot `i` leads to. -/
def slotBytes (q : Queue K) (i : Nat) : Option Bytes := (q.slots[i]?.join).bind q.heap.read

/-- Lines 74-78: a copy of `message` in a new block, its address in slot `head`. The counters stay
within `size`, so their `size_t` arithmetic does not wrap. -/
def put (q : Queue K) (message : Bytes) : Queue K :=
  match xmalloc q.heap q.elementSize with
  | (none, heap) =>
    { q with slots := q.slots.set q.head none, heap, head := (q.head + 1) % q.size,
             nElements := q.nElements + 1 }
  | (some p, heap) =>
    { q with slots := q.slots.set q.head (some p),
             heap := heap.write p (memcpy ((heap.read p).getD []) message q.elementSize),
             head := (q.head + 1) % q.size,
             nElements := q.nElements + 1 }

/-- `Queue_Send` with the mutex held. `pick` chooses the thread a signal wakes. -/
def send (q : Queue K) (message : Bytes) (pick : Nat) : ErrorCode × Queue K :=
  if q.nElements = q.size then (.errorResourceNotAvailable, q)
  else
    let q := q.put message
    if q.nElements = 1 then (.success, { q with cond := q.cond.signal pick })
    else (.success, q)

/-- The deadline of `Queue_Receive`. -/
def deadline (tv : Timeval) (timeoutMs : UInt64) : Timespec :=
  Posix.deadline (fun nsec => nsec > oneSecInNs) tv timeoutMs

/-- Lines 136-145 of `Queue_Receive`: its result, what `message` holds then, and the queue. -/
def take (q : Queue K) (message : Bytes) : (ErrorCode × Bytes) × Queue K :=
  if q.nElements = 0 then ((.errorTimeout, message), q)
  else
    ((.success, memcpy message ((q.slotBytes q.tail).getD []) q.elementSize),
      { q with nElements := q.nElements - 1, tail := (q.tail + 1) % q.size })

/-- `Queue_Receive` from its start: it returns, or the thread `t` waits. -/
def receive (q : Queue K) (t : K) (message : Bytes) (timeoutMs : UInt64) (tv : Timeval) :
    Option (ErrorCode × Bytes) × Queue K :=
  if q.nElements = 0 then
    (none, { q with cond := q.cond.wait t ⟨message, timeoutMs, tv, deadline tv timeoutMs⟩ })
  else
    let (ret, q) := q.take message
    (some ret, q)

/-- `Queue_Receive` from the moment the waiting thread `t` holds the mutex again. -/
def resume [DecidableEq K] (q : Queue K) (t : K) : Option ((ErrorCode × Bytes) × Queue K) :=
  match q.cond.resume t with
  | none => none
  | some (r, res, cond) =>
    let q := { q with cond := cond }
    match res with
    | .ok => some (q.take r.message)
    | .timedOut => some ((.errorTimeout, r.message), q)
    | .failed _ => some ((.errorOs, r.message), q)

/-- `Queue_Delete`: the heap without the block of the queue. -/
def delete (q : Queue K) : Heap :=
  match q.self with
  | some p => q.heap.free p
  | none => q.heap

/-! ## What a section can do -/

@[simp] theorem put_cond (q : Queue K) (message : Bytes) : (q.put message).cond = q.cond := by
  unfold put; split <;> rfl

@[simp] theorem put_nElements (q : Queue K) (message : Bytes) :
    (q.put message).nElements = q.nElements + 1 := by
  unfold put; split <;> rfl

@[simp] theorem put_elementSize (q : Queue K) (message : Bytes) :
    (q.put message).elementSize = q.elementSize := by
  unfold put; split <;> rfl

/-- A full queue refuses the message; otherwise it is put, and an empty queue signals. -/
theorem send_cases (q : Queue K) (message : Bytes) (pick : Nat) :
    (q.nElements = q.size ∧ q.send message pick = (.errorResourceNotAvailable, q)) ∨
    (q.nElements ≠ q.size ∧ q.send message pick = (.success,
      { q.put message with cond := if q.nElements = 0 then q.cond.signal pick else q.cond })) := by
  unfold send
  by_cases hn : q.nElements = q.size
  · exact .inl ⟨hn, by rw [if_pos hn]⟩
  · refine .inr ⟨hn, ?_⟩
    rw [if_neg hn]
    by_cases h0 : q.nElements = 0
    · rw [if_pos (by simp [h0]), if_pos h0, put_cond]
    · rw [if_neg (by simpa using h0), if_neg h0, ← put_cond q message]

/-- An empty queue yields a time-out; otherwise the oldest message is copied out. -/
theorem take_cases (q : Queue K) (message : Bytes) :
    (q.nElements = 0 ∧ q.take message = ((.errorTimeout, message), q)) ∨
    (q.nElements ≠ 0 ∧ q.take message =
      ((.success, memcpy message ((q.slotBytes q.tail).getD []) q.elementSize),
        { q with nElements := q.nElements - 1, tail := (q.tail + 1) % q.size })) := by
  unfold take
  by_cases hn : q.nElements = 0
  · exact .inl ⟨hn, by rw [if_pos hn]⟩
  · exact .inr ⟨hn, by rw [if_neg hn]⟩

@[simp] theorem take_cond (q : Queue K) (message : Bytes) : (q.take message).2.cond = q.cond := by
  rcases q.take_cases message with ⟨-, ht⟩ | ⟨-, ht⟩ <;> rw [ht]

@[simp] theorem take_nElements (q : Queue K) (message : Bytes) :
    (q.take message).2.nElements = q.nElements - 1 := by
  rcases q.take_cases message with ⟨hn, ht⟩ | ⟨-, ht⟩ <;> rw [ht]
  show q.nElements = q.nElements - 1
  omega

theorem receive_wait {q : Queue K} (hn : q.nElements = 0) (t : K) (message : Bytes) (timeoutMs : UInt64)
    (tv : Timeval) :
    q.receive t message timeoutMs tv =
      (none, { q with cond := q.cond.wait t ⟨message, timeoutMs, tv, deadline tv timeoutMs⟩ }) := by
  unfold receive; rw [if_pos hn]

theorem receive_now {q : Queue K} (hn : q.nElements ≠ 0) (t : K) (message : Bytes) (timeoutMs : UInt64)
    (tv : Timeval) :
    q.receive t message timeoutMs tv = (some (q.take message).1, (q.take message).2) := by
  unfold receive; rw [if_neg hn]

/-- What a thread does when its wait is over: after a 0 it takes, after an error it leaves
everything alone. -/
theorem resume_cases [DecidableEq K] {q q' : Queue K} {t : K} {ret : ErrorCode × Bytes}
    (h : q.resume t = some (ret, q')) :
    ∃ r res c, q.cond.resume t = some (r, res, c) ∧
      ((res = .ok ∧ ret = (({ q with cond := c } : Queue K).take r.message).1 ∧
          q' = (({ q with cond := c } : Queue K).take r.message).2) ∨
        (res = .timedOut ∧ ret = (.errorTimeout, r.message) ∧ q' = { q with cond := c }) ∨
        ((∃ errno, res = .failed errno) ∧ ret = (.errorOs, r.message) ∧ q' = { q with cond := c })) := by
  unfold resume at h
  split at h
  · cases h
  · rename_i r res c hc
    refine ⟨r, res, c, hc, ?_⟩
    cases res with
    | ok =>
      simp only [Option.some.injEq] at h
      exact .inl ⟨rfl, by rw [h], by rw [h]⟩
    | timedOut => cases h; exact .inr (.inl ⟨rfl, rfl, rfl⟩)
    | failed errno => cases h; exact .inr (.inr ⟨⟨errno, rfl⟩, rfl, rfl⟩)

end Queue

end InfoWorkshop.Posix
