/-
What the steps do to the queues of a service: the number of messages in them follows the events accepted, a thread
inside a wait stays there until it goes on itself, and only the death of a task loses a mutex.
-/
import InfoWorkshop.Lib.Potential
import InfoWorkshop.Service.Delivery

namespace InfoWorkshop.Service.World

open InfoWorkshop.Core InfoWorkshop.Memory InfoWorkshop.Posix InfoWorkshop.CondVar InfoWorkshop.Steps

/-- No mutex of a queue is locked for good. -/
def NoneLost (w : World) : Prop := ∀ (q : Nat) (o : QueueObject), w.queues[q]? = some o → o.mutexLost = false

/-- Thread `t` is inside a wait in queue `q`. -/
def WaitsIn (w : World) (t : Thread) (q : Nat) : Prop := ∃ o, w.queues[q]? = some o ∧ t ∈ o.queue.cond.threads

/-- The messages in the queues, the deleted ones included. -/
def messages (w : World) : Nat := (w.queues.map fun o => o.queue.nElements).sum

/-- How many events `Service_Notify` has accepted. -/
def accepted (w : World) : Nat := (acceptedEvents w.log).length

/-- The thread whose step it is. -/
def thread : Act → Option Thread
  | .caller c _ => some (.call c)
  | .task i _ => some (.task i)
  | _ => none

theorem accepted_mono {w w' : World} (h : w.log <+: w'.log) : w.accepted ≤ w'.accepted := by
  obtain ⟨es, hes⟩ := h
  rw [accepted, accepted, ← hes, acceptedEvents_append, List.length_append]
  exact Nat.le_add_right _ _

/-! ## The sections of a queue -/

section Sections

variable {queue queue' : Queue Thread} {t u : Thread} {message : Bytes}

theorem mem_threads_send (h : u ∈ queue.cond.threads) (message : Bytes) (pick : Nat) :
    u ∈ (queue.send message pick).2.cond.threads := by
  rcases queue.send_cases message pick with ⟨-, hsend⟩ | ⟨-, hsend⟩
  · rw [hsend]; exact h
  · rw [hsend]
    dsimp only
    split
    · exact Waiters.mem_threads_signal h pick
    · exact h

theorem mem_threads_receive (h : u ∈ queue.cond.threads) (t : Thread) (message : Bytes) (timeoutMs : UInt64)
    (tv : Timeval) : u ∈ (queue.receive t message timeoutMs tv).2.cond.threads := by
  by_cases hn : queue.nElements = 0
  · rw [Queue.receive_wait hn]; exact Waiters.mem_threads_wait h _
  · rw [Queue.receive_now hn, Queue.take_cond]; exact h

theorem nElements_receive (queue : Queue Thread) (t : Thread) (message : Bytes) (timeoutMs : UInt64) (tv : Timeval) :
    (queue.receive t message timeoutMs tv).2.nElements ≤ queue.nElements := by
  by_cases hn : queue.nElements = 0
  · rw [Queue.receive_wait hn]
  · rw [Queue.receive_now hn, Queue.take_nElements]; exact Nat.sub_le _ _

/-- A thread that begins to wait is inside its wait. -/
theorem self_mem_threads_receive {timeoutMs : UInt64} {tv : Timeval}
    (h : queue.receive t message timeoutMs tv = (none, queue')) : t ∈ queue'.cond.threads := by
  by_cases hn : queue.nElements = 0
  · rw [Queue.receive_wait hn] at h
    cases h
    exact Waiters.self_mem_threads_wait _ _ _
  · rw [Queue.receive_now hn] at h
    cases h

theorem resume_leaves {ret : ErrorCode × Bytes} (h : queue.resume t = some (ret, queue')) :
    (∀ u, t ≠ u → u ∈ queue.cond.threads → u ∈ queue'.cond.threads) ∧ queue'.nElements ≤ queue.nElements := by
  obtain ⟨r, res, cond, hcond, hcases⟩ := Queue.resume_cases h
  have hleft : ∀ u, t ≠ u → u ∈ queue.cond.threads → u ∈ cond.threads := fun u hne hu =>
    Waiters.mem_threads_resume hu (Ne.symm hne) hcond
  rcases hcases with ⟨-, -, rfl⟩ | ⟨-, -, rfl⟩ | ⟨-, -, rfl⟩
  · rw [Queue.take_cond, Queue.take_nElements]
    exact ⟨hleft, Nat.sub_le _ _⟩
  · exact ⟨hleft, Nat.le_refl _⟩
  · exact ⟨hleft, Nat.le_refl _⟩

theorem resume_isSome (queue : Queue Thread) (t : Thread) :
    (queue.resume t).isSome = (queue.cond.resume t).isSome := by
  unfold Queue.resume
  rcases queue.cond.resume t with _ | ⟨r, res, cond⟩
  · rfl
  · cases res <;> rfl

end Sections

/-! ## What a step can do to the queues -/

/-- What step `a` can do to the queues: nothing, a new one, or a change of one. -/
inductive QueueStep (w : World) (a : Act) (w' : World) : Prop
  | same : w'.queues = w.queues → QueueStep w a w'
  | new (queue : Queue Thread) : queue.nElements = 0 → w'.queues = w.queues ++ [⟨queue, false, false⟩] →
    QueueStep w a w'
  | change (q : Nat) (o : QueueObject) (g : QueueObject → QueueObject) : w.queues[q]? = some o →
    w'.queues = w.queues.modify q g →
    (∀ t, thread a ≠ some t → t ∈ o.queue.cond.threads → t ∈ (g o).queue.cond.threads) →
    ((∀ i, a ≠ .die i) → (g o).mutexLost = o.mutexLost) →
    (g o).queue.nElements + w.accepted ≤ o.queue.nElements + w'.accepted → QueueStep w a w'

/-- A section on the queue. -/
theorem QueueStep.section {w w' : World} {a : Act} {q : Nat} {o : QueueObject} {queue : Queue Thread}
    (ho : w.queues[q]? = some o) (hqueues : w'.queues = (w.setQueue q queue).queues)
    (hwaits : ∀ t, thread a ≠ some t → t ∈ o.queue.cond.threads → t ∈ queue.cond.threads)
    (hcount : queue.nElements + w.accepted ≤ o.queue.nElements + w'.accepted) : w.QueueStep a w' :=
  .change q o (fun o => { o with queue }) ho hqueues hwaits (fun _ => rfl) hcount

/-- A section on a queue: the program ends, or the section is made on a queue that is there. -/
theorem onQueue_cases {w w' : World} {h : Option Nat} {body : Nat → Queue Thread → Option World}
    (hs : w.onQueue h body = some w') : (w'.fault ≠ none ∧ w'.queues = w.queues) ∨
      ∃ q o, h = some q ∧ w.queues[q]? = some o ∧ body q o.queue = some w' := by
  unfold onQueue at hs
  split at hs
  · cases hs; exact .inl ⟨by simp [crash], rfl⟩
  · rename_i q
    split at hs
    · cases hs
    · rename_i o ho
      split at hs
      · cases hs; exact .inl ⟨by simp [crash], rfl⟩
      · split at hs
        · cases hs
        · exact .inr ⟨q, o, rfl, ho, hs⟩

theorem serviceStart_queues {w w' : World} {c : Nat} {ch : Choice} {pc : StartPc}
    (hs : w.serviceStart c ch pc = some w') : w.QueueStep (.caller c ch) w' := by
  cases pc with
  | check | checkQueue | createTask | checkTask =>
    simp only [serviceStart] at hs
    split at hs <;> cases hs <;> exact .same rfl
  | newQueue =>
    simp only [serviceStart] at hs
    split at hs
    · cases hs; exact .same rfl
    · rename_i queue hnew
      cases hs
      refine .new queue ?_ rfl
      unfold Queue.new at hnew
      split at hnew <;> cases hnew
      rfl
  | _ => cases hs; exact .same rfl

theorem drained_queues (w : World) (c : Nat) (error : ErrorCode) (ret : ErrorCode × Bytes) :
    (w.drained c error ret).queues = w.queues := by
  unfold drained
  split <;> rfl

theorem serviceNotify_queues {w w' : World} {c : Nat} {ch : Choice} {pc : NotifyPc}
    (hs : w.serviceNotify c ch pc = some w') : w.QueueStep (.caller c ch) w' := by
  have hmono := accepted_mono (serviceNotify_log hs)
  cases pc with
  | check | reboot =>
    simp only [serviceNotify] at hs
    split at hs <;> cases hs <;> exact .same rfl
  | load | drainLoad => cases hs; exact .same rfl
  | send e h =>
    simp only [serviceNotify] at hs
    rcases onQueue_cases hs with ⟨-, hsame⟩ | ⟨q, o, rfl, ho, hbody⟩
    · exact .same hsame
    · have hwaits : ∀ t, thread (.caller c ch) ≠ some t → t ∈ o.queue.cond.threads →
          t ∈ (o.queue.send e.toBytes ch.pick).2.cond.threads := fun t _ ht => mem_threads_send ht _ _
      rcases o.queue.send_cases e.toBytes ch.pick with ⟨-, hsend⟩ | ⟨-, hsend⟩
      · rw [hsend] at hbody hwaits
        cases hbody
        exact .section ho rfl hwaits (Nat.add_le_add_left hmono _)
      · rw [hsend] at hbody hwaits
        cases hbody
        refine .section ho rfl hwaits ?_
        show (o.queue.put e.toBytes).nElements + w.accepted ≤ o.queue.nElements +
          (acceptedEvents (w.log ++ [.accepted e])).length
        rw [Queue.put_nElements, acceptedEvents_append, List.length_append]
        exact Nat.le_of_eq (Nat.add_right_comm _ _ _)
  | drainReceive b error h =>
    simp only [serviceNotify] at hs
    rcases onQueue_cases hs with ⟨-, hsame⟩ | ⟨q, o, rfl, ho, hbody⟩
    · exact .same hsame
    · have hwaits : ∀ t, thread (.caller c ch) ≠ some t → t ∈ o.queue.cond.threads →
          t ∈ (o.queue.receive (.call c) b 10 ch.tv).2.cond.threads := fun t _ ht => mem_threads_receive ht _ _ _ _
      have hcount := Nat.add_le_add (nElements_receive o.queue (.call c) b 10 ch.tv) hmono
      split at hbody
      · rename_i queue hreceive
        cases hbody
        rw [hreceive] at hwaits hcount
        exact .section ho rfl hwaits hcount
      · rename_i ret queue hreceive
        cases hbody
        rw [hreceive] at hwaits hcount
        exact .section ho (drained_queues _ _ _ _) hwaits hcount
  | drainWait error h =>
    simp only [serviceNotify] at hs
    rcases onQueue_cases hs with ⟨-, hsame⟩ | ⟨q, o, rfl, ho, hbody⟩
    · exact .same hsame
    · split at hbody
      · cases hbody
      · rename_i ret queue hresume
        cases hbody
        obtain ⟨hleft, hle⟩ := resume_leaves hresume
        refine .section ho (drained_queues _ _ _ _) (fun t ht => hleft t fun heq => ht (congrArg some heq)) ?_
        exact Nat.add_le_add hle hmono

theorem serviceMain_queues {w w' : World} {i : Nat} {self : TaskObject} {ch : Choice}
    (hs : w.serviceMain i self ch = some w') : w.QueueStep (.task i ch) w' := by
  have hmono := accepted_mono (serviceMain_log hs)
  unfold serviceMain at hs
  cases hpc : self.pc with
  | entry | body | loopTest | hand | teardown =>
    simp only [hpc] at hs
    split at hs <;> cases hs <;> exact .same rfl
  | receive h =>
    simp only [hpc] at hs
    rcases onQueue_cases hs with ⟨-, hsame⟩ | ⟨q, o, rfl, ho, hbody⟩
    · exact .same hsame
    · have hwaits : ∀ t, thread (.task i ch) ≠ some t → t ∈ o.queue.cond.threads →
          t ∈ (o.queue.receive (.task i) timeoutEvent.toBytes w.service.timeoutMs ch.tv).2.cond.threads :=
        fun t _ ht => mem_threads_receive ht _ _ _ _
      have hcount := Nat.add_le_add
        (nElements_receive o.queue (.task i) timeoutEvent.toBytes w.service.timeoutMs ch.tv) hmono
      split at hbody
      · rename_i queue hreceive
        cases hbody
        rw [hreceive] at hwaits hcount
        exact .section ho rfl hwaits hcount
      · rename_i ret queue hreceive
        cases hbody
        rw [hreceive] at hwaits hcount
        exact .section ho rfl hwaits hcount
  | wait h =>
    simp only [hpc] at hs
    rcases onQueue_cases hs with ⟨-, hsame⟩ | ⟨q, o, rfl, ho, hbody⟩
    · exact .same hsame
    · split at hbody
      · cases hbody
      · rename_i ret queue hresume
        cases hbody
        obtain ⟨hleft, hle⟩ := resume_leaves hresume
        refine .section ho rfl (fun t ht => hleft t fun heq => ht (congrArg some heq)) ?_
        exact Nat.add_le_add hle hmono
  | give =>
    simp only [hpc] at hs
    split at hs
    · cases hs; exact .same rfl
    · split at hs <;> cases hs <;> exact .same rfl
  | deleteTask =>
    simp only [hpc, taskDelete] at hs
    split at hs
    · cases hs; exact .same rfl
    · split at hs
      · cases hs
      · split at hs <;> cases hs <;> exact .same rfl
  | deleteQueue =>
    simp only [hpc, queueDelete] at hs
    split at hs
    · cases hs; exact .same rfl
    · rename_i q _
      split at hs
      · cases hs
      · rename_i o ho
        split at hs <;> cases hs
        · exact .same rfl
        · exact .change q o (fun o => { o with deleted := true, queue := { o.queue with heap := o.queue.delete } }) ho
            rfl (fun _ _ => id) (fun _ => rfl) (Nat.add_le_add_left hmono _)
  | ended => simp only [hpc] at hs; cases hs
  | _ => simp only [hpc] at hs; cases hs; exact .same rfl

theorem die_queues {w w' : World} {i : Nat} {self : TaskObject} (hs : w.die i self = some w') :
    w.QueueStep (.die i) w' := by
  unfold die at hs
  split at hs
  · split at hs
    · rename_i q _
      cases hs
      rcases hq : w.queues[q]? with _ | o
      · refine .same ?_
        exact List.modify_eq_self (List.getElem?_eq_none_iff.1 hq)
      · exact .change q o (fun o => { o with mutexLost := true }) hq rfl (fun _ _ => id) (fun hne => absurd rfl (hne i))
          (Nat.le_refl _)
    · cases hs; exact .same rfl
  · cases hs

theorem advance_queues {w w' : World} {a : Act} (hs : w.Advance a w') : w.QueueStep a w' := by
  cases hs with
  | start _ hs => exact serviceStart_queues hs
  | @stop _ _ pc _ _ hs =>
    cases pc with
    | check =>
      simp only [serviceStop] at hs
      split at hs <;> cases hs <;> exact .same rfl
    | setStopped => cases hs; exact .same rfl
  | notify _ hs => exact serviceNotify_queues hs
  | task _ hs => exact serviceMain_queues hs
  | die _ hs => exact die_queues hs
  | wake ho hwake =>
    exact .section ho rfl (fun t _ ht => Waiters.mem_threads_wake ht hwake) (Nat.le_refl _)
  | call | take | wakeTaker | retake => exact .same rfl

/-! ## What follows from it -/

theorem getElem?_setQueue {w : World} {q : Nat} {o : QueueObject} (ho : w.queues[q]? = some o) (queue : Queue Thread) :
    (w.setQueue q queue).queues[q]? = some { o with queue } := by
  rw [setQueue, List.getElem?_modify, ho]
  simp

theorem waitsIn_setQueue {w : World} {t : Thread} {q : Nat} {o : QueueObject} {queue : Queue Thread}
    (ho : w.queues[q]? = some o) (hmem : t ∈ queue.cond.threads) : (w.setQueue q queue).WaitsIn t q :=
  ⟨{ o with queue }, getElem?_setQueue ho queue, hmem⟩

/-- A thread inside a wait stays there until it goes on itself. -/
theorem WaitsIn.step {w w' : World} {a : Act} {t : Thread} {q : Nat} (h : w.WaitsIn t q) (hs : w.QueueStep a w')
    (ht : thread a ≠ some t) : w'.WaitsIn t q := by
  obtain ⟨x, hx, hmem⟩ := h
  cases hs with
  | same hqueues => exact ⟨x, by rw [hqueues, hx], hmem⟩
  | new queue _ hqueues =>
    refine ⟨x, ?_, hmem⟩
    rw [hqueues, List.getElem?_append_left (List.getElem?_eq_some_iff.1 hx).1, hx]
  | change r o g ho hqueues hwaits _ _ =>
    by_cases hrq : r = q
    · subst hrq
      rw [ho] at hx
      cases hx
      refine ⟨g x, ?_, hwaits t ht hmem⟩
      rw [hqueues, List.getElem?_modify, ho]
      simp
    · refine ⟨x, ?_, hmem⟩
      rw [hqueues, List.getElem?_modify, hx]
      simp [hrq]

/-- Only the death of a task loses a mutex. -/
theorem NoneLost.step {w w' : World} {a : Act} (h : w.NoneLost) (hs : w.QueueStep a w') (ha : ∀ i, a ≠ .die i) :
    w'.NoneLost := by
  intro q x hx
  cases hs with
  | same hqueues => exact h q x (hqueues ▸ hx)
  | new queue _ hqueues =>
    rw [hqueues] at hx
    rcases List.mem_append.1 (List.mem_of_getElem? hx) with hold | hnew
    · obtain ⟨r, hr⟩ := List.getElem?_of_mem hold
      exact h r x hr
    · rw [List.mem_singleton.1 hnew]
  | change r o g ho hqueues _ hlost _ =>
    rw [hqueues, List.getElem?_modify] at hx
    by_cases hrq : r = q
    · subst hrq
      rw [ho] at hx
      obtain rfl : g o = x := by simpa using hx
      rw [hlost ha]
      exact h r o ho
    · exact h q x (by simpa [hrq] using hx)

theorem QueueStep.length_le {w w' : World} {a : Act} (hs : w.QueueStep a w') : w.queues.length ≤ w'.queues.length := by
  cases hs with
  | same hqueues => rw [hqueues]
  | new queue _ hqueues => rw [hqueues, List.length_append]; exact Nat.le_add_right _ _
  | change q o g ho hqueues => rw [hqueues, List.length_modify]

/-- The queues get no more messages than events are accepted. -/
theorem QueueStep.messages_le {w w' : World} {a : Act} (hs : w.QueueStep a w') (hmono : w.accepted ≤ w'.accepted) :
    w'.messages + w.accepted ≤ w.messages + w'.accepted := by
  cases hs with
  | same hqueues => rw [messages, messages, hqueues]; exact Nat.add_le_add_left hmono _
  | new queue hempty hqueues =>
    rw [messages, messages, hqueues, List.map_append, List.sum_append]
    simp only [List.map_cons, List.map_nil, List.sum_cons, List.sum_nil, hempty]
    omega
  | change q o g ho hqueues _ _ hcount =>
    have hsum := sum_map_modify ho (fun o => o.queue.nElements) g
    rw [messages, messages, hqueues]
    omega

/-! ## A thread can go on -/

theorem onQueue_isSome {w : World} {h : Option Nat} {body : Nat → Queue Thread → Option World}
    (hlost : w.NoneLost) (hlength : ∀ q, h = some q → q < w.queues.length)
    (hbody : ∀ q o, h = some q → w.queues[q]? = some o → (body q o.queue).isSome = true) :
    (w.onQueue h body).isSome = true := by
  unfold onQueue
  split
  · rfl
  · rename_i q
    obtain ⟨o, ho⟩ : ∃ o, w.queues[q]? = some o := ⟨_, List.getElem?_eq_getElem (hlength q rfl)⟩
    simp only [ho, hlost q o ho, Bool.false_eq_true, if_false]
    split
    · rfl
    · exact hbody q o rfl ho

/-- A thread inside a wait can resume, at once or when the time of its wait is over. -/
theorem WaitsIn.wake {w : World} {t : Thread} {q : Nat} (h : w.WaitsIn t q) (hfault : w.fault = none) :
    ∃ o, w.queues[q]? = some o ∧ ((o.queue.cond.resume t).isSome = true ∨
      ∃ cond, w.step (.wake q t .timedOut) = some (w.setQueue q { o.queue with cond }) ∧
        (cond.resume t).isSome = true) := by
  obtain ⟨o, ho, hmem⟩ := h
  refine ⟨o, ho, ?_⟩
  rcases Waiters.resume_or_wake hmem .timedOut with hsome | ⟨cond, hwake, hsome⟩
  · exact .inl hsome
  · exact .inr ⟨cond, by simp only [World.step, hfault, advance, ho, hwake], hsome⟩

end InfoWorkshop.Service.World
