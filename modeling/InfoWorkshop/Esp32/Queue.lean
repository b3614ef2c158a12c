/-
`adapter/esp32/queue.c` over the queues of FreeRTOS, and its comparison with the POSIX adapter: both are the
bounded queue `Fifo`, each with its own codes for the calls that fail, and code that tells success from failure
only cannot tell them apart.
-/
import InfoWorkshop.Esp32.Ticks
import InfoWorkshop.Lib.Fifo
import InfoWorkshop.Posix.QueueFifo

namespace InfoWorkshop.Esp32

open InfoWorkshop.Core InfoWorkshop.Memory InfoWorkshop.CondVar InfoWorkshop.Answers

/-- The queues of FreeRTOS. `Q` is the kernel's object behind a handle, `true` is `pdTRUE`, a message that is
received is there or not. A receive ends with what is in the queue when it stops to wait. -/
structure RtosQueue (Q : Type*) where
  xQueueCreate : Nat → Nat → Option Q
  xQueueSend : Q → Bytes → UInt32 → Bool × Q
  xQueueSendFromISR : Q → Bytes → Bool × Q
  xQueueReceive : Q → UInt32 → Option Bytes × Q
  holds : Q → Fifo Bytes
  create_some : ∀ n m q, xQueueCreate n m = some q → 0 < n ∧ holds q = .empty n
  send_room : ∀ q x f, (holds q).enqueue x = some f → (xQueueSend q x 0).1 = true ∧ holds (xQueueSend q x 0).2 = f
  send_full : ∀ q x, (holds q).enqueue x = none →
    (xQueueSend q x 0).1 = false ∧ holds (xQueueSend q x 0).2 = holds q
  isr_room : ∀ q x f, (holds q).enqueue x = some f →
    (xQueueSendFromISR q x).1 = true ∧ holds (xQueueSendFromISR q x).2 = f
  isr_full : ∀ q x, (holds q).enqueue x = none →
    (xQueueSendFromISR q x).1 = false ∧ holds (xQueueSendFromISR q x).2 = holds q
  receive_some : ∀ q ticks x f, (holds q).dequeue = some (x, f) →
    (xQueueReceive q ticks).1 = some x ∧ holds (xQueueReceive q ticks).2 = f
  receive_none : ∀ q ticks, (holds q).dequeue = none →
    (xQueueReceive q ticks).1 = none ∧ holds (xQueueReceive q ticks).2 = holds q

namespace Queue

variable {Q K : Type*} [DecidableEq K] (rtos : RtosQueue Q)

/-- `Queue_New`. -/
def new (queueSize elementSize : Nat) : Option Q := rtos.xQueueCreate queueSize elementSize

/-- `Queue_Send` of a queue and a message that are not `NULL`. -/
def send (q : Q) (message : Bytes) : ErrorCode × Q :=
  let r := rtos.xQueueSend q message 0
  (if r.1 = true then .success else .failure, r.2)

/-! ## The calls of one thread -/

/-- A call of either adapter, with what the operating system chooses for the POSIX one: the clock reading and
the end of a wait. -/
inductive Call
  | send (message : Bytes) (pick : Nat)
  | receive (message : Bytes) (timeoutMs : UInt64) (tv : Posix.Timeval) (wake : WaitResult)
  deriving DecidableEq, Repr

/-- The bytes that the argument `message` points to. -/
def Call.message : Call → Bytes
  | .send message _ | .receive message _ _ _ => message

/-- The call over the POSIX adapter: what it returns, and what `message` points to afterwards. -/
def posixCall (t : K) (p : Posix.Queue K) : Call → (ErrorCode × Bytes) × Posix.Queue K
  | .send message pick =>
    let (error, p) := p.send message pick
    ((error, message), p)
  | .receive message timeoutMs tv wake =>
    match p.receive t message timeoutMs tv with
    | (some ret, p) => (ret, p)
    | (none, p) =>
      match ((p.cond.wake t wake).map fun cond => { p with cond }).bind (·.resume t) with
      | some ret => ret
      -- not reached: a wait that has ended is resumed
      | none => ((.failure, message), p)

/-- The call over the ESP32 adapter. -/
def esp32Call (e : Q) : Call → (ErrorCode × Bytes) × Q
  | .send message _ =>
    let (error, e) := send rtos e message
    ((error, message), e)
  | .receive message timeoutMs _ _ =>
    let (error, message, e) := receive rtos.xQueueReceive e message timeoutMs
    ((error, message), e)

/-- Whether a call has succeeded, and its message. -/
def outcome (ret : ErrorCode × Bytes) : Bool × Bytes := (ret.1 = .success, ret.2)

/-- The POSIX queue holds what the bounded queue does, and no thread waits in it. -/
structure Same (elementSize : Nat) (f : Fifo Bytes) (p : Posix.Queue K) : Prop where
  holds : p.Holds f.items
  size : p.size = f.capacity
  width : p.elementSize = elementSize
  nobody : p.cond = .empty

/-- Queues that are the bounded queue alone. -/
def fifoQueue : RtosQueue (Fifo Bytes) where
  xQueueCreate n _ := if 0 < n then some (.empty n) else none
  xQueueSend f x _ := match f.enqueue x with | some f => (true, f) | none => (false, f)
  xQueueSendFromISR f x := match f.enqueue x with | some f => (true, f) | none => (false, f)
  xQueueReceive f _ := match f.dequeue with | some (x, f) => (some x, f) | none => (none, f)
  holds f := f
  create_some := by
    intro n m q h
    split at h <;> cases h
    exact ⟨‹_›, rfl⟩
  send_room := by
    intro q x f h
    simp [h]
  send_full := by
    intro q x h
    simp [h]
  isr_room := by
    intro q x f h
    simp [h]
  isr_full := by
    intro q x h
    simp [h]
  receive_some := by
    intro q ticks x f h
    simp [h]
  receive_none := by
    intro q ticks h
    simp [h]

end Queue

/-! ## What goes through a queue -/

/-- A queue with the messages that it accepted and those that were received from it. -/
structure Mail (Q : Type*) where
  queue : Q
  sent : List Bytes
  received : List Bytes
  deriving DecidableEq, Repr

namespace Mail

variable {Q : Type*} (rtos : RtosQueue Q)

def new (queue : Q) : Mail Q := ⟨queue, [], []⟩

/-- The message is sent, with the result `r`. -/
def send (m : Mail Q) (message : Bytes) (r : Bool × Q) : Mail Q :=
  { m with queue := r.2, sent := if r.1 = true then m.sent ++ [message] else m.sent }

/-- `Queue_Receive`. -/
def receive (m : Mail Q) (message : Bytes) (timeoutMs : UInt64) : (ErrorCode × Bytes) × Mail Q :=
  let (error, message, queue) := Queue.receive rtos.xQueueReceive m.queue message timeoutMs
  ((error, message), { m with queue, received := if error = .success then m.received ++ [message] else m.received })

/-- The messages that were accepted are received in their order, or are still in the queue. -/
structure Accounts (m : Mail Q) (capacity : Nat) : Prop where
  capacity : (rtos.holds m.queue).capacity = capacity
  post : m.sent = m.received ++ (rtos.holds m.queue).items

variable {rtos}

theorem accounts_new {queue : Q} {queueSize elementSize : Nat} (h : Queue.new rtos queueSize elementSize = some queue) :
    (new queue).Accounts rtos queueSize := by
  obtain ⟨-, hempty⟩ := rtos.create_some _ _ _ h
  constructor
  · show (rtos.holds queue).capacity = queueSize
    rw [hempty]
    rfl
  · show [] = [] ++ (rtos.holds queue).items
    rw [hempty]
    rfl

/-- A queue is full when as many messages are waiting as it can hold. -/
theorem Accounts.enqueue_none_iff {m : Mail Q} {capacity : Nat} (h : m.Accounts rtos capacity) (x : Bytes) :
    (rtos.holds m.queue).enqueue x = none ↔ ¬ m.sent.length < m.received.length + capacity := by
  have hpost := congrArg List.length h.post
  have hbound := (rtos.holds m.queue).bounded
  rw [List.length_append] at hpost
  rw [Fifo.enqueue_eq_none_iff]
  rw [h.capacity] at hbound ⊢
  omega

/-- A message that is sent is accepted while there is room for it. -/
theorem Accounts.sends {m : Mail Q} {capacity : Nat} (h : m.Accounts rtos capacity) {x : Bytes} {r : Bool × Q}
    (hroom : ∀ f, (rtos.holds m.queue).enqueue x = some f → r.1 = true ∧ rtos.holds r.2 = f)
    (hfull : (rtos.holds m.queue).enqueue x = none → r.1 = false ∧ rtos.holds r.2 = rtos.holds m.queue) :
    (m.send x r).Accounts rtos capacity ∧ (r.1 = true ↔ m.sent.length < m.received.length + capacity) := by
  have hiff := h.enqueue_none_iff x
  rcases hq : (rtos.holds m.queue).enqueue x with _ | f
  · obtain ⟨hno, hsame⟩ := hfull hq
    refine ⟨⟨?_, ?_⟩, ?_⟩
    · show (rtos.holds r.2).capacity = capacity
      rw [hsame]
      exact h.capacity
    · show (if r.1 = true then m.sent ++ [x] else m.sent) = m.received ++ (rtos.holds r.2).items
      rw [hno, hsame]
      exact h.post
    · rw [hno]
      exact iff_of_false Bool.false_ne_true (hiff.1 hq)
  · obtain ⟨hyes, hnext⟩ := hroom f hq
    obtain ⟨hcap, hitems⟩ := Fifo.enqueue_some hq
    refine ⟨⟨?_, ?_⟩, ?_⟩
    · show (rtos.holds r.2).capacity = capacity
      rw [hnext, hcap]
      exact h.capacity
    · show (if r.1 = true then m.sent ++ [x] else m.sent) = m.received ++ (rtos.holds r.2).items
      rw [if_pos hyes, hnext, hitems, h.post, List.append_assoc]
    · refine iff_of_true hyes (Decidable.of_not_not fun hno => ?_)
      rw [hiff.2 hno] at hq
      cases hq

theorem Accounts.xQueueSend {m : Mail Q} {capacity : Nat} (h : m.Accounts rtos capacity) (x : Bytes) :
    (m.send x (rtos.xQueueSend m.queue x 0)).Accounts rtos capacity ∧
      ((rtos.xQueueSend m.queue x 0).1 = true ↔ m.sent.length < m.received.length + capacity) :=
  h.sends (fun f => rtos.send_room m.queue x f) (rtos.send_full m.queue x)

theorem Accounts.xQueueSendFromISR {m : Mail Q} {capacity : Nat} (h : m.Accounts rtos capacity) (x : Bytes) :
    (m.send x (rtos.xQueueSendFromISR m.queue x)).Accounts rtos capacity ∧
      ((rtos.xQueueSendFromISR m.queue x).1 = true ↔ m.sent.length < m.received.length + capacity) :=
  h.sends (fun f => rtos.isr_room m.queue x f) (rtos.isr_full m.queue x)

/-- A receive takes the oldest message that was not received yet, or leaves `message` as it is. -/
theorem Accounts.receive_cases {m : Mail Q} {capacity : Nat} (h : m.Accounts rtos capacity) (message : Bytes)
    (timeoutMs : UInt64) :
    ∃ ret m', m.receive rtos message timeoutMs = (ret, m') ∧ m'.Accounts rtos capacity ∧ m'.sent = m.sent ∧
      ((∃ x ∈ m.sent, ret = (.success, x) ∧ m'.received = m.received ++ [x]) ∨
        ret = (.failure, message) ∧ m'.received = m.received) := by
  rcases hq : (rtos.holds m.queue).dequeue with _ | ⟨x, f⟩
  · obtain ⟨hno, hsame⟩ := rtos.receive_none m.queue (Queue.receiveTicks timeoutMs) hq
    rcases hx : rtos.xQueueReceive m.queue (Queue.receiveTicks timeoutMs) with ⟨got, queue⟩
    rw [hx] at hno hsame
    cases hno
    have hreceive : m.receive rtos message timeoutMs = ((.failure, message), { m with queue }) := by
      simp [Mail.receive, Queue.receive, hx]
    refine ⟨_, _, hreceive, ⟨?_, ?_⟩, rfl, .inr ⟨rfl, rfl⟩⟩
    · exact (congrArg Fifo.capacity hsame).trans h.capacity
    · exact h.post.trans (congrArg (fun f => m.received ++ Fifo.items f) hsame.symm)
  · obtain ⟨hyes, hnext⟩ := rtos.receive_some m.queue (Queue.receiveTicks timeoutMs) x f hq
    obtain ⟨hcap, hitems⟩ := Fifo.dequeue_some hq
    rcases hx : rtos.xQueueReceive m.queue (Queue.receiveTicks timeoutMs) with ⟨got, queue⟩
    rw [hx] at hyes hnext
    cases hyes
    have hreceive : m.receive rtos message timeoutMs =
        ((.success, x), { m with queue, received := m.received ++ [x] }) := by
      simp [Mail.receive, Queue.receive, hx]
    have hpost := h.post
    rw [hitems] at hpost
    refine ⟨_, _, hreceive, ⟨?_, ?_⟩, rfl, .inl ⟨x, by rw [hpost]; simp, rfl, rfl⟩⟩
    · exact (congrArg Fifo.capacity hnext).trans (hcap.trans h.capacity)
    · show m.sent = (m.received ++ [x]) ++ (rtos.holds queue).items
      rw [show rtos.holds queue = f from hnext, List.append_assoc]
      exact hpost

end Mail

end InfoWorkshop.Esp32
