/-
The heap blocks of a queue. `Queue_New` allocates two and `Queue_Send` one for every message it stores;
`Queue_Receive` frees none and `Queue_Delete` only the block of the structure.
-/
import InfoWorkshop.Posix.QueueThreads

namespace InfoWorkshop.Posix.Queue

open InfoWorkshop.Core InfoWorkshop.Memory InfoWorkshop.CondVar InfoWorkshop.Ring

variable {K : Type*}

/-- The pointers in the occupied slots, oldest first. -/
def occupied (q : Queue K) : List (Option Addr) := (window q.slots q.tail q.nElements).map Option.join

/-- The live blocks that `Queue_Send` allocated: all but the two of `Queue_New`. -/
def sentBlocks (q : Queue K) : List Addr := q.heap.live.filter fun p => some p ≠ q.self ∧ some p ≠ q.messages

/-- The blocks that `Queue_Send` allocated and that are not freed are those the occupied slots lead to. -/
def Owns (q : Queue K) : Prop := q.occupied.Perm (q.sentBlocks.map some)

instance (q : Queue K) : Decidable q.Owns := inferInstanceAs (Decidable (List.Perm _ _))

theorem length_occupied (q : Queue K) : q.occupied.length = q.nElements := by simp [occupied, window]

/-- A queue that owns its messages has one block a message. -/
theorem Owns.length_sentBlocks {q : Queue K} (h : q.Owns) : q.sentBlocks.length = q.nElements := by
  have hlen := h.length_eq
  rw [length_occupied, List.length_map] at hlen
  exact hlen.symm

/-! ## The blocks of `Queue_New` -/

/-- The two blocks of `Queue_New` are live; without slots the second is missing, and nothing else is ever
allocated. -/
structure Allocated (q : Queue K) : Prop where
  self : q.self = some 0
  messages : q.messages = if q.size = 0 then none else some 1
  selfLive : 0 ∈ q.heap.live
  messagesLive : q.size ≠ 0 → 1 ∈ q.heap.live
  alone : q.size = 0 → q.heap.live = [0]

/-- The counters, the slots and the waiting threads are no part of it. -/
theorem Allocated.of_eq {q r : Queue K} (h : q.Allocated) (hsize : r.size = q.size) (hself : r.self = q.self)
    (hmessages : r.messages = q.messages) (hheap : r.heap = q.heap) : r.Allocated := by
  refine ⟨hself.trans h.self, ?_, ?_, ?_, ?_⟩
  · rw [hmessages, hsize]; exact h.messages
  · rw [hheap]; exact h.selfLive
  · rw [hheap, hsize]; exact h.messagesLive
  · rw [hheap, hsize]; exact h.alone

theorem allocate_zero (elementSize : Nat) :
    (allocate 0 elementSize : Queue K).messages = none ∧ (allocate 0 elementSize : Queue K).heap.live = [0] := by
  simp [allocate, xcalloc, Heap.alloc, Heap.empty]
  exact Heap.live_snoc [] _

theorem allocate_pos {queueSize : Nat} (h : queueSize ≠ 0) (elementSize : Nat) :
    (allocate queueSize elementSize : Queue K).messages = some 1 ∧
      (allocate queueSize elementSize : Queue K).heap.live = [0, 1] := by
  simp [allocate, xcalloc, Heap.alloc, Heap.empty, sizeofQueue, sizeofPointer, h]
  exact Heap.live_snoc [_] _

theorem allocate_allocated (queueSize elementSize : Nat) : (allocate queueSize elementSize : Queue K).Allocated := by
  by_cases h : queueSize = 0
  · subst h
    obtain ⟨hm, hl⟩ := allocate_zero (K := K) elementSize
    exact ⟨rfl, hm, by simp [hl], fun h0 => absurd rfl h0, fun _ => hl⟩
  · obtain ⟨hm, hl⟩ := allocate_pos (K := K) h elementSize
    exact ⟨rfl, by rw [hm]; exact (if_neg h).symm, by simp [hl], fun _ => by simp [hl], fun h0 => absurd h0 h⟩

theorem allocate_owns (queueSize elementSize : Nat) : (allocate queueSize elementSize : Queue K).Owns := by
  have hsent : (allocate queueSize elementSize : Queue K).sentBlocks = [] := by
    have hself : (allocate queueSize elementSize : Queue K).self = some 0 := rfl
    unfold sentBlocks
    by_cases h : queueSize = 0
    · subst h
      obtain ⟨hm, hl⟩ := allocate_zero (K := K) elementSize
      simp [hl, hself]
    · obtain ⟨hm, hl⟩ := allocate_pos (K := K) h elementSize
      simp [hl, hm, hself]
  unfold Owns
  rw [hsent]
  exact .nil

/-- `Queue_Delete` leaves nothing behind exactly when there are no slots. -/
theorem Allocated.delete_live {q : Queue K} (h : q.Allocated) : q.delete.live = [] ↔ q.size = 0 := by
  have hdel : q.delete = q.heap.free 0 := by unfold delete; rw [h.self]
  rw [hdel]
  constructor
  · intro hnil
    by_contra hsize
    have hmem : 1 ∈ (q.heap.free 0).live := Heap.mem_live_free.2 ⟨h.messagesLive hsize, by decide⟩
    simp [hnil] at hmem
  · intro hsize
    refine List.eq_nil_iff_forall_not_mem.2 fun p hp => ?_
    obtain ⟨hp, hne⟩ := Heap.mem_live_free.1 hp
    simp [h.alone hsize] at hp
    exact hne hp

/-! ## Storing and taking a message -/

/-- A message stored: its block joins the live ones. -/
theorem put_live {q : Queue K} (he : 0 < q.elementSize) (message : Bytes) :
    (q.put message).heap.live = q.heap.live ++ [q.heap.blocks.length] := by
  rw [put_eq he]
  exact Heap.live_alloc_write q.heap q.elementSize _

theorem Allocated.put {q : Queue K} (h : q.Allocated) (he : 0 < q.elementSize) (hsize : q.size ≠ 0)
    (message : Bytes) : (q.put message).Allocated := by
  have hlive := put_live he message
  have hs : (q.put message).size = q.size := by rw [put_eq he]
  refine ⟨by rw [put_eq he]; exact h.self, ?_, ?_, fun _ => ?_, fun h0 => absurd (hs.symm.trans h0) hsize⟩
  · rw [hs, put_eq he]
    exact h.messages
  · rw [hlive]
    exact List.mem_append_left _ h.selfLive
  · rw [hlive]
    exact List.mem_append_left _ (h.messagesLive hsize)

/-- The block of a new message is none of `Queue_New`'s. -/
theorem Allocated.fresh {q : Queue K} (h : q.Allocated) :
    some q.heap.blocks.length ≠ q.self ∧ some q.heap.blocks.length ≠ q.messages := by
  have hlt : ∀ p ∈ q.heap.live, p < q.heap.blocks.length := fun p hp => by
    obtain ⟨b, hb⟩ := Heap.mem_live.1 hp
    exact Heap.read_lt hb
  rw [h.self, h.messages]
  constructor
  · exact fun heq => Nat.ne_of_gt (hlt 0 h.selfLive) (Option.some.inj heq)
  · split
    · simp
    · rename_i hsize
      exact fun heq => Nat.ne_of_gt (hlt 1 (h.messagesLive hsize)) (Option.some.inj heq)

theorem Allocated.put_sentBlocks {q : Queue K} (h : q.Allocated) (he : 0 < q.elementSize) (message : Bytes) :
    (q.put message).sentBlocks = q.sentBlocks ++ [q.heap.blocks.length] := by
  have hself : (q.put message).self = q.self := by rw [put_eq he]
  have hmessages : (q.put message).messages = q.messages := by rw [put_eq he]
  unfold sentBlocks
  rw [put_live he, hself, hmessages, List.filter_append]
  simp [h.fresh]

theorem put_occupied {q : Queue K} {xs : List Bytes} (h : q.Holds xs) (hroom : q.nElements ≠ q.size)
    (he : 0 < q.elementSize) (message : Bytes) :
    (q.put message).occupied = q.occupied ++ [some q.heap.blocks.length] := by
  have hlt : q.nElements < q.size := lt_of_le_of_ne h.nElements_le hroom
  have hhead : q.head = (q.tail + q.nElements) % q.slots.length := by rw [h.slotsLen]; exact h.headEq (by omega)
  rw [put_eq he]
  show (window (q.slots.set q.head _) q.tail (q.nElements + 1)).map Option.join = _
  rw [hhead, window_push (by rw [h.slotsLen]; exact hlt), List.map_append]
  rfl

/-- A queue that owns its messages owns one more after storing it. -/
theorem Owns.put {q : Queue K} {xs : List Bytes} (h : q.Owns) (hq : q.Holds xs) (ha : q.Allocated)
    (hroom : q.nElements ≠ q.size) (he : 0 < q.elementSize) (message : Bytes) : (q.put message).Owns := by
  unfold Owns
  rw [put_occupied hq hroom he, ha.put_sentBlocks he, List.map_append]
  exact h.append_right _

/-- Taking a message leaves its block behind. -/
theorem Owns.not_taken {q : Queue K} (h : q.Owns) (hn : q.nElements ≠ 0) (c : Waiters K Receiver) :
    ¬ ({ q with nElements := q.nElements - 1, tail := (q.tail + 1) % q.size, cond := c } : Queue K).Owns := by
  intro ht
  have hbefore := h.length_sentBlocks
  have hafter : q.sentBlocks.length = q.nElements - 1 := ht.length_sentBlocks
  omega

end InfoWorkshop.Posix.Queue

namespace InfoWorkshop.Posix.QueueThreads

open InfoWorkshop.Core InfoWorkshop.Memory InfoWorkshop.CondVar InfoWorkshop.Steps

variable {K : Type*} [DecidableEq K]

/-- No message is taken: a `Queue_Receive` that starts, or whose wait returned 0, finds the queue empty. -/
def NoMessageTaken (s : State K) : Act K → Prop
  | .receive _ _ _ => s.queue.nElements = 0
  | .resume t => (∃ w c, s.queue.cond.resume t = some (w, .ok, c)) → s.queue.nElements = 0
  | _ => True

/-- What a step does to the blocks: nothing, or it stores a message, or it takes one. -/
theorem step_blocks {s s' : State K} {a : Act K} (h : step s a = some s') :
    (NoMessageTaken s a ∧ ∃ c, s'.queue = { s.queue with cond := c }) ∨
    (NoMessageTaken s a ∧ s.queue.nElements ≠ s.queue.size ∧
      ∃ m c, s'.queue = { s.queue.put m with cond := c }) ∨
    (¬ NoMessageTaken s a ∧ s.queue.nElements ≠ 0 ∧ ∃ c, s'.queue = { s.queue with
      nElements := s.queue.nElements - 1, tail := (s.queue.tail + 1) % s.queue.size, cond := c }) := by
  cases a with
  | send t m pick =>
    obtain ⟨-, -, rfl⟩ := step_send h
    rcases s.queue.send_cases m pick with ⟨-, hq⟩ | ⟨hn, hq⟩
    · exact .inl ⟨trivial, s.queue.cond, by rw [hq]⟩
    · exact .inr (.inl ⟨trivial, hn, m, _, by rw [hq]⟩)
  | sendUnlocked t m =>
    obtain rfl := step_sendUnlocked h
    exact .inl ⟨trivial, s.queue.cond, rfl⟩
  | receive t m timeoutMs =>
    obtain ⟨-, -, ⟨hn, rfl⟩ | ⟨hn, rfl⟩⟩ := step_receive h
    · exact .inl ⟨hn, _, rfl⟩
    · rcases s.queue.take_cases m with ⟨h0, -⟩ | ⟨-, ht⟩
      · exact absurd h0 hn
      · exact .inr (.inr ⟨hn, hn, s.queue.cond, by rw [ht]⟩)
  | receiveUnlocked t m =>
    obtain rfl := step_receiveUnlocked h
    exact .inl ⟨trivial, s.queue.cond, rfl⟩
  | wake t r =>
    obtain ⟨c, -, rfl⟩ := step_wake h
    exact .inl ⟨trivial, c, rfl⟩
  | resume t =>
    obtain ⟨ret, q, hr, rfl⟩ := step_resume h
    obtain ⟨w, res, c, hc, ⟨rfl, -, rfl⟩ | ⟨rfl, -, rfl⟩ | ⟨⟨errno, rfl⟩, -, rfl⟩⟩ := Queue.resume_cases hr
    · rcases ({ s.queue with cond := c } : Queue K).take_cases w.message with ⟨h0, ht⟩ | ⟨hn, ht⟩
      · exact .inl ⟨fun _ => h0, c, by rw [ht]⟩
      · exact .inr (.inr ⟨fun hno => hn (hno ⟨w, c, hc⟩), hn, c, by rw [ht]⟩)
    · exact .inl ⟨fun ⟨_, _, hok⟩ => by simp [hc] at hok, c, rfl⟩
    · exact .inl ⟨fun ⟨_, _, hok⟩ => by simp [hc] at hok, c, rfl⟩
  | clock tv =>
    cases h
    exact .inl ⟨trivial, s.queue.cond, rfl⟩

/-- The invariant of the heap: the queue holds the items of a bounded FIFO, and the blocks of `Queue_New` are
where they were. -/
structure HeapInv (queueSize : Nat) (s : State K) : Prop where
  holds : ∃ f, Inv s f
  allocated : s.queue.Allocated
  size : s.queue.size = queueSize

theorem step_heapInv {queueSize : Nat} {s s' : State K} {a : Act K} (hs : HeapInv queueSize s)
    (h : step s a = some s') : HeapInv queueSize s' := by
  obtain ⟨⟨f, hI⟩, ha, hsize⟩ := hs
  obtain ⟨g, hg, -⟩ := step_refines hI h
  refine ⟨⟨g, hg⟩, ?_, ?_⟩
  · rcases step_blocks h with ⟨-, c, hq⟩ | ⟨-, hn, m, c, hq⟩ | ⟨-, -, c, hq⟩
    · rw [hq]
      exact ha.of_eq rfl rfl rfl rfl
    · have hpos : s.queue.size ≠ 0 := by
        have hle := hI.holds.nElements_le
        omega
      rw [hq]
      exact (ha.put hI.element hpos m).of_eq rfl rfl rfl rfl
    · rw [hq]
      exact ha.of_eq rfl rfl rfl rfl
  · rcases step_blocks h with ⟨-, c, hq⟩ | ⟨-, hn, m, c, hq⟩ | ⟨-, -, c, hq⟩
    · rw [hq]; exact hsize
    · rw [hq, Queue.put_eq hI.element]; exact hsize
    · rw [hq]; exact hsize

theorem step_owns_iff {queueSize : Nat} {s s' : State K} {a : Act K} (hs : HeapInv queueSize s)
    (ho : s.queue.Owns) (h : step s a = some s') : s'.queue.Owns ↔ NoMessageTaken s a := by
  obtain ⟨⟨f, hI⟩, ha, hsize⟩ := hs
  rcases step_blocks h with ⟨hno, c, hq⟩ | ⟨hno, hn, m, c, hq⟩ | ⟨hno, hn, c, hq⟩
  · rw [hq]
    exact ⟨fun _ => hno, fun _ => ho⟩
  · rw [hq]
    exact ⟨fun _ => hno, fun _ => ho.put hI.holds ha hn hI.element m⟩
  · rw [hq]
    exact ⟨fun ht => absurd ht (ho.not_taken hn c), fun hm => absurd hm hno⟩

/-! ## Every run -/

/-- With no slots no message is ever taken. -/
theorem noMessageTaken_of_no_slots {s : State K} (hs : HeapInv 0 s) (a : Act K) : NoMessageTaken s a := by
  obtain ⟨f, hI⟩ := hs.holds
  have hn : s.queue.nElements = 0 := by
    have hle := hI.holds.nElements_le
    have hsize := hs.size
    omega
  cases a with
  | receive t m timeoutMs => exact hn
  | resume t => exact fun _ => hn
  | _ => trivial

/-- The queue owns its messages in every state of a run exactly when no message is taken in it, and
`Queue_Delete` frees all its blocks exactly when it has no slots. -/
theorem owns_iff_noMessageTaken (queueSize elementSize : Nat) (now : Timeval) (he : 1 ≤ elementSize)
    (acts : List (Act K)) (s : State K) (h : exec step (init queueSize elementSize now) acts = some s) :
    (Always step (fun s => s.queue.Owns) (init queueSize elementSize now) acts ↔
      Meets step NoMessageTaken (init queueSize elementSize now) acts) ∧
    (s.queue.delete.live = [] ↔ queueSize = 0) ∧
    (Always step (fun s => s.queue.Owns) (init queueSize elementSize now) acts ∧ s.queue.delete.live = [] ↔
      queueSize = 0) := by
  have hinit : HeapInv queueSize (init queueSize elementSize now : State K) :=
    ⟨⟨_, init_inv queueSize elementSize now he⟩, Queue.allocate_allocated queueSize elementSize, rfl⟩
  have howns : Always step (fun s => s.queue.Owns) (init queueSize elementSize now) acts ↔
      Meets step NoMessageTaken (init queueSize elementSize now) acts :=
    always_iff_meets_of (fun _ _ _ hs _ ht => step_heapInv hs ht) (fun _ _ _ hs ho _ ht => step_owns_iff hs ho ht)
      hinit (Queue.allocate_owns queueSize elementSize) (meets_true _ _)
  have hlast : HeapInv queueSize s := exec_invariant (fun _ _ _ hs ht => step_heapInv hs ht) h hinit
  have hdelete : s.queue.delete.live = [] ↔ queueSize = 0 := by rw [hlast.allocated.delete_live, hlast.size]
  refine ⟨howns, hdelete, fun hboth => hdelete.1 hboth.2, fun h0 => ⟨howns.2 ?_, hdelete.2 h0⟩⟩
  subst h0
  exact (meets_congr (fun _ _ _ hs ht => step_heapInv hs ht)
    (fun s a _ hs _ => iff_of_true trivial (noMessageTaken_of_no_slots hs a)) hinit acts).1 (meets_true _ _)

/-- A message is sent to a queue of two slots and received, and another one is sent. -/
def leakRun : List (Act Nat) := [.send 0 [7] 0, .receive 1 [0] 5, .send 0 [8] 0]

theorem owns_iff_noMessageTaken_leakRun :
    ∃ s, exec step (init 2 1 ⟨0, 0, by decide⟩) leakRun = some s ∧
      (Always step (fun s => s.queue.Owns) (init 2 1 ⟨0, 0, by decide⟩) leakRun ↔
        Meets step NoMessageTaken (init 2 1 ⟨0, 0, by decide⟩) leakRun) ∧
      (s.queue.delete.live = [] ↔ 2 = 0) := by
  obtain ⟨s, hs⟩ := Option.isSome_iff_exists.1
    (show (exec step (init 2 1 ⟨0, 0, by decide⟩) leakRun).isSome = true by decide)
  obtain ⟨howns, hdelete, -⟩ := owns_iff_noMessageTaken 2 1 _ (by decide) leakRun s hs
  exact ⟨s, hs, howns, hdelete⟩

/-- Two sent blocks are live while the queue holds one message, and after the deletion three blocks are. -/
theorem received_block_stays :
    ∃ s, exec step (init 2 1 ⟨0, 0, by decide⟩) leakRun = some s ∧ ¬ s.queue.Owns ∧
      s.queue.nElements = 1 ∧ s.queue.sentBlocks = [2, 3] ∧ s.queue.delete.live = [1, 2, 3] :=
  ⟨_, rfl, by decide, by decide, by decide, by decide⟩

end InfoWorkshop.Posix.QueueThreads
