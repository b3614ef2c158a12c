/-
Any number of threads calling `Queue_Send` and `Queue_Receive` on one queue. A step is a mutex-held
section of one of the functions, the end of a wait without a signal, or a change of the clock; every
interleaving of the threads is a sequence of steps.
-/
import InfoWorkshop.Lib.Steps
import InfoWorkshop.Posix.QueueFifo

namespace InfoWorkshop.Posix.QueueThreads

open InfoWorkshop.Core InfoWorkshop.Memory InfoWorkshop.CondVar InfoWorkshop.Steps

variable {K : Type*}

/-- A call that has returned: what it sent, or what `message` held when it returned. -/
inductive Ret (K : Type*)
  | sent (t : K) (message : Bytes) (error : ErrorCode)
  | received (t : K) (message : Bytes) (error : ErrorCode)
  deriving DecidableEq, Repr

/-- The queue, the time of day, and the calls that have returned, oldest first. -/
structure State (K : Type*) where
  queue : Queue K
  now : Timeval
  log : List (Ret K)
  deriving DecidableEq, Repr

/-- The steps. A `wake` ends a wait spuriously, by time-out or with an error; the threads in the
`Unlocked` steps fail to lock the mutex. -/
inductive Act (K : Type*)
  | send (t : K) (message : Bytes) (pick : Nat)
  | sendUnlocked (t : K) (message : Bytes)
  | receive (t : K) (message : Bytes) (timeoutMs : UInt64)
  | receiveUnlocked (t : K) (message : Bytes)
  | wake (t : K) (r : WaitResult)
  | resume (t : K)
  | clock (tv : Timeval)
  deriving DecidableEq, Repr

/-- After a successful `Queue_New(queueSize, elementSize)`. -/
def init (queueSize elementSize : Nat) (now : Timeval) : State K :=
  ⟨Queue.allocate queueSize elementSize, now, []⟩

variable [DecidableEq K]

/-- One step. A thread inside a wait makes no other call, and `message` points to `elementSize`
bytes. -/
def step (s : State K) : Act K → Option (State K)
  | .send t message pick =>
    if s.queue.cond.waiting t = true ∨ message.length ≠ s.queue.elementSize then none
    else
      let (error, queue) := s.queue.send message pick
      some { s with queue, log := s.log ++ [.sent t message error] }
  | .sendUnlocked t message =>
    if s.queue.cond.waiting t = true ∨ message.length ≠ s.queue.elementSize then none
    else some { s with log := s.log ++ [.sent t message .failure] }
  | .receive t message timeoutMs =>
    if s.queue.cond.waiting t = true ∨ message.length ≠ s.queue.elementSize then none
    else
      match s.queue.receive t message timeoutMs s.now with
      | (none, queue) => some { s with queue }
      | (some (error, message), queue) =>
        some { s with queue, log := s.log ++ [.received t message error] }
  | .receiveUnlocked t message =>
    if s.queue.cond.waiting t = true ∨ message.length ≠ s.queue.elementSize then none
    else some { s with log := s.log ++ [.received t message .failure] }
  | .wake t r =>
    match s.queue.cond.wake t r with
    | none => none
    | some cond => some { s with queue := { s.queue with cond } }
  | .resume t =>
    match s.queue.resume t with
    | none => none
    | some ((error, message), queue) =>
      some { s with queue, log := s.log ++ [.received t message error] }
  | .clock tv => some { s with now := tv }

/-! ## What a step can do -/

theorem step_send {s s' : State K} {t : K} {m : Bytes} {pick : Nat} (h : step s (.send t m pick) = some s') :
    s.queue.cond.waiting t = false ∧ m.length = s.queue.elementSize ∧
      s' = { s with queue := (s.queue.send m pick).2, log := s.log ++ [.sent t m (s.queue.send m pick).1] } := by
  simp only [step] at h
  split at h
  · cases h
  · rename_i hg
    push Not at hg
    cases h
    exact ⟨by simpa using hg.1, hg.2, rfl⟩

theorem step_sendUnlocked {s s' : State K} {t : K} {m : Bytes} (h : step s (.sendUnlocked t m) = some s') :
    s' = { s with log := s.log ++ [.sent t m .failure] } := by
  simp only [step] at h
  split at h <;> cases h
  rfl

theorem step_receiveUnlocked {s s' : State K} {t : K} {m : Bytes}
    (h : step s (.receiveUnlocked t m) = some s') :
    s' = { s with log := s.log ++ [.received t m .failure] } := by
  simp only [step] at h
  split at h <;> cases h
  rfl

/-- A receiver waits on an empty queue and takes a message from any other. -/
theorem step_receive {s s' : State K} {t : K} {m : Bytes} {timeoutMs : UInt64}
    (h : step s (.receive t m timeoutMs) = some s') :
    s.queue.cond.waiting t = false ∧ m.length = s.queue.elementSize ∧
      ((s.queue.nElements = 0 ∧ s' = { s with queue := { s.queue with
          cond := s.queue.cond.wait t ⟨m, timeoutMs, s.now, Queue.deadline s.now timeoutMs⟩ } }) ∨
        (s.queue.nElements ≠ 0 ∧ s' = { s with
          queue := (s.queue.take m).2
          log := s.log ++ [.received t (s.queue.take m).1.2 (s.queue.take m).1.1] })) := by
  simp only [step] at h
  split at h
  · cases h
  · rename_i hg
    push Not at hg
    refine ⟨by simpa using hg.1, hg.2, ?_⟩
    by_cases hn : s.queue.nElements = 0
    · rw [Queue.receive_wait hn] at h
      cases h
      exact .inl ⟨hn, rfl⟩
    · rw [Queue.receive_now hn] at h
      cases h
      exact .inr ⟨hn, rfl⟩

theorem step_wake {s s' : State K} {t : K} {r : WaitResult} (h : step s (.wake t r) = some s') :
    ∃ cond, s.queue.cond.wake t r = some cond ∧ s' = { s with queue := { s.queue with cond } } := by
  simp only [step] at h
  split at h
  · cases h
  · rename_i cond hcond
    cases h
    exact ⟨cond, hcond, rfl⟩

theorem step_resume {s s' : State K} {t : K} (h : step s (.resume t) = some s') :
    ∃ ret queue, s.queue.resume t = some (ret, queue) ∧
      s' = { s with queue, log := s.log ++ [.received t ret.2 ret.1] } := by
  simp only [step] at h
  split at h
  · cases h
  · rename_i e m queue hr
    cases h
    exact ⟨(e, m), queue, hr, rfl⟩

/-! ## What the calls mean for a bounded FIFO -/

/-- The messages of the successful `Queue_Send` calls, in the order of their sections. -/
def accepted : List (Ret K) → List Bytes :=
  List.filterMap fun
    | .sent _ m .success => some m
    | _ => none

/-- The messages of the successful `Queue_Receive` calls, in the order of their final sections. -/
def received : List (Ret K) → List Bytes :=
  List.filterMap fun
    | .received _ m .success => some m
    | _ => none

/-- The specification: what a returned call does to a bounded FIFO, `none` where a bounded FIFO does
not return that result. A successful call enqueues or dequeues its message, the result "not available"
is that of a full queue, and every other result leaves the queue alone. -/
def Ret.onFifo (f : Fifo Bytes) : Ret K → Option (Fifo Bytes)
  | .sent _ m .success => f.enqueue m
  | .sent _ m .errorResourceNotAvailable => if (f.enqueue m).isNone then some f else none
  | .sent _ _ _ => some f
  | .received _ m .success =>
    match f.dequeue with
    | some (x, g) => if x = m then some g else none
    | none => none
  | .received _ _ _ => some f

omit [DecidableEq K] in
theorem onFifo_received {f g : Fifo Bytes} {t : K} {m : Bytes}
    (h : (Ret.received t m .success).onFifo f = some g) : f.dequeue = some (m, g) := by
  simp only [Ret.onFifo] at h
  split at h
  · rename_i x g' hd
    split at h
    · rename_i hx; cases h; rw [hd, hx]
    · cases h
  · cases h

omit [DecidableEq K] in
theorem accepted_append (l r : List (Ret K)) : accepted (l ++ r) = accepted l ++ accepted r :=
  List.filterMap_append

omit [DecidableEq K] in
theorem received_append (l r : List (Ret K)) : received (l ++ r) = received l ++ received r :=
  List.filterMap_append

omit [DecidableEq K] in
/-- A call the specification allows keeps "accepted = received, then held", and the capacity. -/
theorem onFifo_conserves {f g : Fifo Bytes} {r : Ret K} {pre : List (Ret K)}
    (h : r.onFifo f = some g) (hf : accepted pre = received pre ++ f.items) :
    g.capacity = f.capacity ∧ accepted (pre ++ [r]) = received (pre ++ [r]) ++ g.items := by
  rw [accepted_append, received_append, hf]
  have hsame : accepted [r] = [] → received [r] = [] → f.capacity = f.capacity ∧
      received pre ++ f.items ++ accepted [r] = received pre ++ received [r] ++ f.items := by
    intro ha hr
    rw [ha, hr, List.append_nil, List.append_nil]
    exact ⟨rfl, rfl⟩
  cases r with
  | sent t m e =>
    cases e with
    | success =>
      obtain ⟨hc, hi⟩ := Fifo.enqueue_some h
      refine ⟨hc, ?_⟩
      rw [hi, ← List.append_assoc]
      simp [accepted, received]
    | errorResourceNotAvailable =>
      simp only [Ret.onFifo] at h
      split at h
      · cases h; exact hsame rfl rfl
      · cases h
    | _ => cases h; exact hsame rfl rfl
  | received t m e =>
    cases e with
    | success =>
      obtain ⟨hc, hi⟩ := Fifo.dequeue_some (onFifo_received h)
      refine ⟨hc, ?_⟩
      rw [hi]
      simp [accepted, received]
    | _ => cases h; exact hsame rfl rfl

/-! ## Every step refines the specification -/

/-- The queue holds the items of `f`, and whoever waits has `elementSize` bytes to receive into. -/
structure Inv (s : State K) (f : Fifo Bytes) : Prop where
  holds : s.queue.Holds f.items
  capacity : s.queue.size = f.capacity
  element : 0 < s.queue.elementSize
  waiters : s.queue.cond.All fun r => r.message.length = s.queue.elementSize

omit [DecidableEq K] in
theorem init_inv (queueSize elementSize : Nat) (now : Timeval) (he : 1 ≤ elementSize) :
    Inv (init queueSize elementSize now : State K) (.empty queueSize) :=
  ⟨Queue.allocate_holds queueSize elementSize, rfl, he, .empty⟩

omit [DecidableEq K] in
/-- A section that takes a message: the call returns what the specification returns. -/
theorem take_refines {q : Queue K} {f : Fifo Bytes} (h : q.Holds f.items) (hc : q.size = f.capacity)
    {message : Bytes} (hm : message.length = q.elementSize) (t : K) :
    ∃ g, (q.take message).2.Holds g.items ∧ (q.take message).2.size = g.capacity ∧
      (q.take message).2.elementSize = q.elementSize ∧ (q.take message).2.cond = q.cond ∧
      (Ret.received t (q.take message).1.2 (q.take message).1.1).onFifo f = some g := by
  obtain ⟨capacity, items, hb⟩ := f
  cases items with
  | nil =>
    rw [Queue.take_nil h]
    exact ⟨⟨capacity, [], hb⟩, h, hc, rfl, rfl, rfl⟩
  | cons x xs =>
    rw [Queue.take_cons h hm]
    refine ⟨⟨capacity, xs, by simp at hb ⊢; omega⟩, Queue.take_cons_holds h, hc, rfl, rfl, ?_⟩
    simp [Ret.onFifo, Fifo.dequeue]

omit [DecidableEq K] in
theorem send_refines {q : Queue K} {f : Fifo Bytes} (h : q.Holds f.items) (hc : q.size = f.capacity)
    (he : 0 < q.elementSize) {message : Bytes} (hm : message.length = q.elementSize) (pick : Nat) (t : K) :
    ∃ g, (q.send message pick).2.Holds g.items ∧ (q.send message pick).2.size = g.capacity ∧
      (q.send message pick).2.elementSize = q.elementSize ∧
      ((q.send message pick).2.cond = q.cond ∨ (q.send message pick).2.cond = q.cond.signal pick) ∧
      (Ret.sent t message (q.send message pick).1).onFifo f = some g := by
  by_cases hfull : f.items.length = q.size
  · rw [Queue.send_full h hfull]
    refine ⟨f, h, hc, rfl, .inl rfl, ?_⟩
    simp [Ret.onFifo, (f.enqueue_eq_none_iff message).2 (hfull.trans hc)]
  · have hroom : f.items.length < q.size := by have := h.bounded; omega
    have hroom' : f.items.length < f.capacity := hc ▸ hroom
    rw [Queue.send_room h hroom]
    refine ⟨⟨f.capacity, f.items ++ [message], by simp; omega⟩,
      (Queue.put_holds h hroom he hm).withCond _, ?_, ?_, ?_, ?_⟩
    · rw [Queue.put_eq he]; exact hc
    · rw [Queue.put_eq he]
    · show (if q.nElements = 0 then _ else _) = _ ∨ _
      split
      · exact .inr rfl
      · exact .inl rfl
    · simp [Ret.onFifo, Fifo.enqueue, hroom']

/-- One step: the queue follows the specification on the call that returns, if one does. -/
theorem step_refines {s s' : State K} {a : Act K} {f : Fifo Bytes} (hI : Inv s f) (h : step s a = some s') :
    ∃ g, Inv s' g ∧ ((s'.log = s.log ∧ g = f) ∨ ∃ r, s'.log = s.log ++ [r] ∧ r.onFifo f = some g) := by
  obtain ⟨hq, hc, he, hw⟩ := hI
  cases a with
  | send t message pick =>
    obtain ⟨-, hm, rfl⟩ := step_send h
    obtain ⟨g, hg1, hg2, hg3, hg4, hg5⟩ := send_refines hq hc he hm pick t
    refine ⟨g, ⟨hg1, hg2, lt_of_lt_of_eq he hg3.symm, ?_⟩, .inr ⟨_, rfl, hg5⟩⟩
    show (s.queue.send message pick).2.cond.All fun r => r.message.length = (s.queue.send message pick).2.elementSize
    rw [hg3]
    rcases hg4 with hg4 | hg4
    · rw [hg4]; exact hw
    · rw [hg4]; exact hw.signal pick
  | sendUnlocked t message =>
    obtain rfl := step_sendUnlocked h
    exact ⟨f, ⟨hq, hc, he, hw⟩, .inr ⟨_, rfl, rfl⟩⟩
  | receive t message timeoutMs =>
    obtain ⟨-, hm, ⟨-, rfl⟩ | ⟨-, rfl⟩⟩ := step_receive h
    · exact ⟨f, ⟨hq.withCond _, hc, he, hw.wait hm⟩, .inl ⟨rfl, rfl⟩⟩
    · obtain ⟨g, hg1, hg2, hg3, hg4, hg5⟩ := take_refines hq hc hm t
      exact ⟨g, ⟨hg1, hg2, lt_of_lt_of_eq he hg3.symm, by rw [hg3, hg4]; exact hw⟩, .inr ⟨_, rfl, hg5⟩⟩
  | receiveUnlocked t message =>
    obtain rfl := step_receiveUnlocked h
    exact ⟨f, ⟨hq, hc, he, hw⟩, .inr ⟨_, rfl, rfl⟩⟩
  | wake t r =>
    obtain ⟨cond, hcond, rfl⟩ := step_wake h
    exact ⟨f, ⟨hq.withCond _, hc, he, hw.wake hcond⟩, .inl ⟨rfl, rfl⟩⟩
  | resume t =>
    obtain ⟨⟨e, m⟩, q, hr, rfl⟩ := step_resume h
    obtain ⟨r, res, cond, hcond, hr⟩ := Queue.resume_cases hr
    obtain ⟨hm, hw'⟩ := hw.resume hcond
    have hq' := hq.withCond cond
    rcases hr with ⟨-, he', rfl⟩ | ⟨-, he', rfl⟩ | ⟨-, he', rfl⟩
    · obtain ⟨g, hg1, hg2, hg3, hg4, hg5⟩ := take_refines hq' hc hm t
      rw [← he'] at hg5
      exact ⟨g, ⟨hg1, hg2, lt_of_lt_of_eq he hg3.symm, by rw [hg3, hg4]; exact hw'⟩, .inr ⟨_, rfl, hg5⟩⟩
    · cases he'; exact ⟨f, ⟨hq', hc, he, hw'⟩, .inr ⟨_, rfl, rfl⟩⟩
    · cases he'; exact ⟨f, ⟨hq', hc, he, hw'⟩, .inr ⟨_, rfl, rfl⟩⟩
  | clock tv => cases h; exact ⟨f, ⟨hq, hc, he, hw⟩, .inl ⟨rfl, rfl⟩⟩

/-! ## Every run refines the specification -/

omit [DecidableEq K] in
theorem log_conserves {f g : Fifo Bytes} {pre log : List (Ret K)}
    (h : exec Ret.onFifo f log = some g) (hf : accepted pre = received pre ++ f.items) :
    g.capacity = f.capacity ∧ accepted (pre ++ log) = received (pre ++ log) ++ g.items := by
  induction log generalizing f pre with
  | nil => cases h; exact ⟨rfl, by simpa using hf⟩
  | cons r log ih =>
    obtain ⟨f', hr, hlog⟩ := exec_cons_some h
    obtain ⟨hc, hf'⟩ := onFifo_conserves hr hf
    obtain ⟨hc', hg⟩ := ih hlog hf'
    exact ⟨hc'.trans hc, by simpa using hg⟩

/-- After a run, the calls that have returned are a run of the specification, to the FIFO that the
queue now holds. -/
theorem exec_refines {queueSize elementSize : Nat} {now : Timeval} {acts : List (Act K)} {s : State K}
    (he : 1 ≤ elementSize) (h : exec step (init queueSize elementSize now) acts = some s) :
    ∃ f, Inv s f ∧ exec Ret.onFifo (.empty queueSize) s.log = some f := by
  refine exec_invariant (I := fun s => ∃ f, Inv s f ∧ exec Ret.onFifo (.empty queueSize) s.log = some f)
    ?_ h ⟨_, init_inv queueSize elementSize now he, rfl⟩
  rintro s a t ⟨f, hI, hf⟩ hs
  obtain ⟨g, hI', ⟨hlog, rfl⟩ | ⟨r, hlog, hr⟩⟩ := step_refines hI hs
  · exact ⟨g, hI', hlog ▸ hf⟩
  · exact ⟨g, hI', by rw [hlog]; exact exec_snoc hf hr⟩

/-! ## Calls that fail -/

/-- The bytes `message` pointed to when the call was made that takes the step. -/
def messageOf (s : State K) : Act K → Option Bytes
  | .send _ m _ => some m
  | .sendUnlocked _ m => some m
  | .receive _ m _ => some m
  | .receiveUnlocked _ m => some m
  | .resume t => (s.queue.cond.resume t).map fun x => x.1.message
  | _ => none

/-- A step of which some call returns with an error leaves the slots, the counters and the heap
alone, and the bytes of its `message`; a failed `Queue_Send` leaves the waiting threads alone too. -/
theorem failed_unchanged {s s' : State K} {a : Act K} {r : Ret K} (h : step s a = some s')
    (hr : s'.log = s.log ++ [r]) :
    (∀ t m e, r = .sent t m e → e ≠ .success → s'.queue = s.queue ∧ messageOf s a = some m) ∧
    (∀ t m e, r = .received t m e → e ≠ .success →
      s'.queue = { s.queue with cond := s'.queue.cond } ∧ messageOf s a = some m) := by
  have hlast : ∀ {x : Ret K}, s'.log = s.log ++ [x] → r = x := by
    intro x hx; rw [hx] at hr; simpa using hr.symm
  cases a with
  | send t message pick =>
    obtain ⟨-, -, rfl⟩ := step_send h
    obtain rfl := hlast rfl
    refine ⟨fun t' m e hm he => ?_, fun t' m e hm => by cases hm⟩
    cases hm
    rcases s.queue.send_cases message pick with ⟨-, hs⟩ | ⟨-, hs⟩
    · rw [hs]; exact ⟨rfl, rfl⟩
    · rw [hs] at he; exact absurd rfl he
  | sendUnlocked t message =>
    obtain rfl := step_sendUnlocked h
    obtain rfl := hlast rfl
    exact ⟨fun t' m e hm _ => by cases hm; exact ⟨rfl, rfl⟩, fun t' m e hm => by cases hm⟩
  | receive t message timeoutMs =>
    obtain ⟨-, -, ⟨hn, rfl⟩ | ⟨hn, rfl⟩⟩ := step_receive h
    · simp at hr
    · obtain rfl := hlast rfl
      refine ⟨fun t' m e hm => (by cases hm), fun t' m e hm he => ?_⟩
      cases hm
      rcases s.queue.take_cases message with ⟨h0, -⟩ | ⟨-, ht⟩
      · exact absurd h0 hn
      · rw [ht] at he; exact absurd rfl he
  | receiveUnlocked t message =>
    obtain rfl := step_receiveUnlocked h
    obtain rfl := hlast rfl
    exact ⟨fun t' m e hm => (by cases hm), fun t' m e hm _ => by cases hm; exact ⟨rfl, rfl⟩⟩
  | wake t res =>
    obtain ⟨cond, -, rfl⟩ := step_wake h
    simp at hr
  | resume t =>
    obtain ⟨⟨e', m'⟩, q, hres, rfl⟩ := step_resume h
    obtain rfl := hlast rfl
    refine ⟨fun t' m e hm => (by cases hm), fun t' m e hm he => ?_⟩
    cases hm
    obtain ⟨x, res, cond, hcond, hx⟩ := Queue.resume_cases hres
    simp only [messageOf, hcond, Option.map_some]
    rcases hx with ⟨-, he', rfl⟩ | ⟨-, he', rfl⟩ | ⟨-, he', rfl⟩
    · rcases ({ s.queue with cond } : Queue K).take_cases x.message with ⟨-, ht⟩ | ⟨-, ht⟩
      · rw [ht] at he' ⊢; cases he'; exact ⟨rfl, rfl⟩
      · rw [ht] at he'; cases he'; exact absurd rfl he
    · cases he'; exact ⟨rfl, rfl⟩
    · cases he'; exact ⟨rfl, rfl⟩
  | clock tv => cases h; simp at hr

/-! ## The guarantees of the queue -/

/-- What the threads can rely on in a state, `f` being the bounded FIFO the queue stands for. -/
structure Guarantees (queueSize : Nat) (s : State K) (f : Fifo Bytes) : Prop where
  size : s.queue.size = queueSize
  capacity : f.capacity = queueSize
  /-- The calls that have returned are those of a bounded FIFO, which now holds `f.items`. -/
  spec : exec Ret.onFifo (.empty queueSize) s.log = some f
  bounded : s.queue.nElements ≤ s.queue.size
  head : 0 < s.queue.size → s.queue.head = (s.queue.tail + s.queue.nElements) % s.queue.size
  count : s.queue.nElements = f.items.length
  slots : ∀ i (hi : i < f.items.length),
    s.queue.slotBytes ((s.queue.tail + i) % s.queue.size) = some f.items[i]
  inOrder : received s.log <+: accepted s.log
  conserved : accepted s.log = received s.log ++ f.items
  /-- The next `Queue_Send` is refused exactly when the queue is full. -/
  refused : ∀ t m pick s', step s (.send t m pick) = some s' →
    (s'.log = s.log ++ [.sent t m .errorResourceNotAvailable] ↔ f.items.length = queueSize)
  failedSend : ∀ a s' t m e, step s a = some s' → s'.log = s.log ++ [.sent t m e] → e ≠ .success →
    s'.queue = s.queue ∧ messageOf s a = some m
  failedReceive : ∀ a s' t m e, step s a = some s' → s'.log = s.log ++ [.received t m e] → e ≠ .success →
    s'.queue = { s.queue with cond := s'.queue.cond } ∧ messageOf s a = some m
  /-- A `Queue_Receive` that finds a message takes the oldest one, after a wait too. -/
  taken : ∀ t m timeoutMs s' x xs, f.items = x :: xs → step s (.receive t m timeoutMs) = some s' →
    s'.log = s.log ++ [.received t x .success] ∧ s'.queue.contents = xs
  takenLater : ∀ t r cond s' x xs, f.items = x :: xs → s.queue.cond.resume t = some (r, .ok, cond) →
    step s (.resume t) = some s' → s'.log = s.log ++ [.received t x .success] ∧ s'.queue.contents = xs

omit [DecidableEq K] in
theorem take_oldest {q : Queue K} {x : Bytes} {xs : List Bytes} (h : q.Holds (x :: xs)) {message : Bytes}
    (hm : message.length = q.elementSize) :
    (q.take message).1 = (.success, x) ∧ (q.take message).2.contents = xs := by
  rw [Queue.take_cons h hm]
  exact ⟨rfl, (Queue.take_cons_holds h).contents_eq⟩

theorem receive_taken {s s' : State K} {f : Fifo Bytes} (hI : Inv s f) {t : K} {m x : Bytes} {xs : List Bytes}
    {timeoutMs : UInt64} (hitems : f.items = x :: xs) (h : step s (.receive t m timeoutMs) = some s') :
    s'.log = s.log ++ [.received t x .success] ∧ s'.queue.contents = xs := by
  have hholds : s.queue.Holds (x :: xs) := hitems ▸ hI.holds
  obtain ⟨-, hm, ⟨hempty, -⟩ | ⟨-, rfl⟩⟩ := step_receive h
  · rw [hholds.count] at hempty
    cases hempty
  · obtain ⟨hret, hrest⟩ := take_oldest hholds hm
    exact ⟨by rw [hret], hrest⟩

theorem resume_taken {s s' : State K} {f : Fifo Bytes} (hI : Inv s f) {t : K} {x : Bytes} {xs : List Bytes}
    {r : Receiver} {cond : Waiters K Receiver} (hitems : f.items = x :: xs)
    (hresume : s.queue.cond.resume t = some (r, .ok, cond)) (h : step s (.resume t) = some s') :
    s'.log = s.log ++ [.received t x .success] ∧ s'.queue.contents = xs := by
  have hholds : s.queue.Holds (x :: xs) := hitems ▸ hI.holds
  obtain ⟨hret, hrest⟩ := take_oldest (hholds.withCond cond) (hI.waiters.resume hresume).1
  obtain ⟨ret, queue, hqueue, rfl⟩ := step_resume h
  simp only [Queue.resume, hresume, Option.some.injEq] at hqueue
  rw [hqueue] at hret hrest
  exact ⟨by rw [show ret = _ from hret], hrest⟩

theorem refused_iff {s s' : State K} {f : Fifo Bytes} (hI : Inv s f) {t : K} {m : Bytes} {pick : Nat}
    (h : step s (.send t m pick) = some s') :
    s'.log = s.log ++ [.sent t m .errorResourceNotAvailable] ↔ f.items.length = f.capacity := by
  obtain ⟨-, -, rfl⟩ := step_send h
  rw [← hI.capacity]
  by_cases hfull : f.items.length = s.queue.size
  · rw [Queue.send_full hI.holds hfull]; simp [hfull]
  · have hroom : f.items.length < s.queue.size := by have := hI.holds.bounded; omega
    rw [Queue.send_room hI.holds hroom]; simp [hfull]

/-- The POSIX queue refines a bounded FIFO under every interleaving. -/
theorem queue_refines_fifo (queueSize elementSize : Nat) (now : Timeval) (he : 1 ≤ elementSize)
    (acts : List (Act K)) (s : State K) (h : exec step (init queueSize elementSize now) acts = some s) :
    ∃ f, Guarantees queueSize s f := by
  obtain ⟨f, hI, hspec⟩ := exec_refines he h
  obtain ⟨hcap, hcons⟩ := log_conserves hspec (show accepted [] = received [] ++ _ from rfl)
  have hsize : s.queue.size = queueSize := hI.capacity.trans hcap
  refine ⟨f, hsize, hcap, hspec, ?_, hI.holds.headEq, hI.holds.count, fun i hi => hI.holds.slotBytes_eq hi,
    ?_, hcons, fun t m pick s' hs => ?_, fun a s' t m e hs hr hne => ?_, fun a s' t m e hs hr hne => ?_,
    fun t m timeoutMs s' x xs hitems hs => receive_taken hI hitems hs,
    fun t r cond s' x xs hitems hresume hs => resume_taken hI hitems hresume hs⟩
  · exact hI.holds.nElements_le
  · rw [List.nil_append] at hcons
    exact ⟨f.items, hcons.symm⟩
  · rw [refused_iff hI hs, hcap]; exact Iff.rfl
  · exact (failed_unchanged hs hr).1 t m e rfl hne
  · exact (failed_unchanged hs hr).2 t m e rfl hne

/-- Two receivers wait on a queue of one slot, a send wakes the second, a further send is refused,
and the woken one takes the message. -/
def refusedRun : List (Act Nat) :=
  [.receive 0 [0] 5, .receive 1 [0] 5, .send 2 [7] 1, .send 2 [8] 0, .resume 1]

theorem queue_refines_fifo_refusedRun :
    ∃ s, exec step (init 1 1 ⟨0, 0, by decide⟩) refusedRun = some s ∧ ∃ f, Guarantees 1 s f := by
  obtain ⟨s, hs⟩ := Option.isSome_iff_exists.1
    (show (exec step (init 1 1 ⟨0, 0, by decide⟩) refusedRun).isSome = true by decide)
  exact ⟨s, hs, queue_refines_fifo 1 1 _ (by decide) refusedRun s hs⟩

end InfoWorkshop.Posix.QueueThreads
