/-
The calls of the interface come to their ends: a call makes only as many steps as the accepted events allow, and it
never waits for good.
-/
import InfoWorkshop.Service.Stopping

namespace InfoWorkshop.Service

open InfoWorkshop.Core InfoWorkshop.Memory InfoWorkshop.Posix InfoWorkshop.CondVar InfoWorkshop.Steps

/-! ## The steps left -/

def StartPc.left : StartPc → Nat
  | .check => 10
  | .setRunning => 9
  | .setDefaults => 8
  | .newQueue => 7
  | .storeQueue _ => 6
  | .checkQueue _ => 5
  | .createTask _ => 4
  | .register _ => 3
  | .storeTask _ => 2
  | .checkTask _ => 1

def StopPc.left : StopPc → Nat
  | .check => 2
  | .setStopped => 1

/-- In the draining loop these are the steps of a round that finds no event. -/
def NotifyPc.left : NotifyPc → Nat
  | .check _ => 7
  | .load _ => 6
  | .send _ _ => 5
  | .drainLoad _ _ => 4
  | .drainReceive _ _ _ => 3
  | .drainWait _ _ => 2
  | .reboot _ => 1

/-- The steps that a call has left, if its draining loop finds no event. -/
def Call.left : Call → Nat
  | .start pc => pc.left
  | .stop pc => pc.left
  | .notify pc => pc.left
  | .returned => 0

/-- The handle with which a `Service_Notify` goes to its queue. -/
def Call.handle : Call → Option Nat
  | .notify (.send _ h) | .notify (.drainReceive _ _ h) | .notify (.drainWait _ h) => h
  | _ => none

/-- In the wait of the draining loop. -/
def Call.waiting : Call → Bool
  | .notify (.drainWait _ _) => true
  | _ => false

theorem left_le (k : Call) : k.left ≤ 10 := by
  cases k with
  | start pc => cases pc <;> simp [Call.left, StartPc.left]
  | stop pc => cases pc <;> simp [Call.left, StopPc.left]
  | notify pc => cases pc <;> simp [Call.left, NotifyPc.left]
  | returned => exact Nat.zero_le _

theorem returned_of_left {k : Call} (h : k.left = 0) : k = .returned := by
  cases k with
  | start pc => cases pc <;> cases h
  | stop pc => cases pc <;> cases h
  | notify pc => cases pc <;> cases h
  | returned => rfl

theorem Call.noHandle {k : Call} {P : Nat → Prop} (hk : k.handle = none) (q : Nat) (h : k.handle = some q) :
    P q := by
  rw [hk] at h
  cases h

theorem Call.noWait {k : Call} {P : Nat → Prop} (hk : k.waiting = false) (q : Nat) (h : k.waiting = true) :
    P q := by
  rw [hk] at h
  cases h

namespace World

open Call

/-- The same for call `c`, made or yet to be made. -/
def callLeft (w : World) (c : Nat) : Nat := (w.calls[c]?).elim 10 Call.left

theorem callLeft_eq {w : World} {c : Nat} {k : Call} (hc : w.calls[c]? = some k) : w.callLeft c = k.left := by
  rw [callLeft, hc]
  rfl

/-- The steps that call `c` has left: a round of its draining loop has three at most, and takes a message. -/
def callSteps (w : World) (c : Nat) : Nat :=
  if w.fault = none ∧ w.callLeft c ≠ 0 then w.callLeft c + 3 * w.messages else 0

theorem callSteps_le (w : World) (c : Nat) : w.callSteps c ≤ w.callLeft c + 3 * w.messages := by
  unfold callSteps
  split
  · exact Nat.le_refl _
  · exact Nat.zero_le _

/-! ## What a step of a call does -/

/-- What a step of call `c`, which is at `k`, comes to when the call goes on to `k'`. -/
structure Goes (w : World) (c : Nat) (k : Call) (w' : World) (k' : Call) : Prop where
  calls : w'.calls = w.calls.set c k'
  left : k'.left + 3 * w'.messages + 1 ≤ k.left + 3 * w.messages
  handle : ∀ q, k'.handle = some q → k.handle = some q ∨ w.service.queue = some q
  waits : ∀ q, k'.waiting = true → k'.handle = some q → w'.WaitsIn (.call c) q

theorem messages_setQueue {w : World} {q : Nat} {o : QueueObject} (ho : w.queues[q]? = some o) (queue : Queue Thread) :
    (w.setQueue q queue).messages + o.queue.nElements = w.messages + queue.nElements :=
  sum_map_modify ho (fun o => o.queue.nElements) fun o => { o with queue }

/-- The call leaves the queues alone. -/
theorem goes_plain {w v : World} {c : Nat} {k k' : Call} (hcalls : v.calls = w.calls) (hqueues : v.queues = w.queues)
    (hleft : k'.left + 1 ≤ k.left) (hhandle : ∀ q, k'.handle = some q → k.handle = some q ∨ w.service.queue = some q)
    (hwaiting : k'.waiting = false) : w.Goes c k (v.goto c k') k' := by
  refine ⟨by rw [← hcalls]; rfl, ?_, hhandle, fun q hw => ?_⟩
  · have hmessages : (v.goto c k').messages = w.messages := by rw [messages, messages, ← hqueues]; rfl
    omega
  · rw [hwaiting] at hw
    cases hw

/-- A step of `Service_Start` uses up one of the steps left, or ends the program. -/
theorem serviceStart_nears {w w' : World} {c : Nat} {ch : Choice} {pc : StartPc}
    (hs : w.serviceStart c ch pc = some w') : w'.fault ≠ none ∨
      ∃ k, w'.calls = w.calls.set c k ∧ k.left < pc.left ∧ k.handle = none ∧ k.waiting = false := by
  cases pc with
  | check =>
    simp only [serviceStart] at hs
    split at hs <;> cases hs <;> exact .inr ⟨_, rfl, by decide, rfl, rfl⟩
  | createTask queue =>
    simp only [serviceStart] at hs
    split at hs <;> cases hs
    · exact .inr ⟨_, rfl, Nat.le_refl 4, rfl, rfl⟩
    · exact .inr ⟨_, rfl, Nat.le_succ 3, rfl, rfl⟩
  | newQueue =>
    simp only [serviceStart] at hs
    split at hs <;> cases hs <;> exact .inr ⟨_, rfl, Nat.le_refl 7, rfl, rfl⟩
  | checkQueue queue =>
    simp only [serviceStart] at hs
    split at hs <;> cases hs
    · exact .inl (by simp [crash])
    · exact .inr ⟨_, rfl, Nat.le_refl 5, rfl, rfl⟩
  | checkTask task =>
    simp only [serviceStart] at hs
    split at hs <;> cases hs
    · exact .inl (by simp [crash])
    · exact .inr ⟨_, rfl, Nat.le_refl 1, rfl, rfl⟩
  | _ => cases hs; exact .inr ⟨_, rfl, Nat.le_refl _, rfl, rfl⟩

/-- The queue that it creates is empty. -/
theorem serviceStart_messages {w w' : World} {c : Nat} {ch : Choice} {pc : StartPc}
    (hs : w.serviceStart c ch pc = some w') : w'.messages = w.messages := by
  cases pc with
  | newQueue =>
    simp only [serviceStart] at hs
    split at hs
    · cases hs
      rfl
    · rename_i queue hnew
      cases hs
      simp only [Queue.new] at hnew
      split at hnew <;> cases hnew
      simp [messages, goto, Queue.allocate]
  | check | checkQueue | createTask | checkTask =>
    simp only [serviceStart] at hs
    split at hs <;> cases hs <;> rfl
  | _ => cases hs; rfl

theorem serviceStart_goes {w w' : World} {c : Nat} {ch : Choice} {pc : StartPc}
    (hs : w.serviceStart c ch pc = some w') : w'.fault ≠ none ∨ ∃ k, w.Goes c (.start pc) w' k := by
  rcases serviceStart_nears hs with hfault | ⟨k, hcalls, hleft, hhandle, hwaiting⟩
  · exact .inl hfault
  · refine .inr ⟨k, hcalls, ?_, noHandle hhandle, noWait hwaiting⟩
    rw [serviceStart_messages hs]
    show k.left + _ + 1 ≤ pc.left + _
    omega

theorem serviceStop_goes {w w' : World} {c : Nat} {pc : StopPc} (hs : w.serviceStop c pc = some w') :
    ∃ k, w.Goes c (.stop pc) w' k := by
  cases pc with
  | check =>
    simp only [serviceStop] at hs
    split at hs <;> cases hs <;> exact ⟨_, goes_plain rfl rfl (by decide) (noHandle rfl) rfl⟩
  | setStopped =>
    cases hs
    exact ⟨_, goes_plain (v := emit { w with service := { w.service with state := .stopped } } .stopped) rfl rfl
      (Nat.le_refl 1) (noHandle rfl) rfl⟩

/-- What a `Queue_Receive` that returns has done to the number of messages. -/
def Counts (queue queue' : Queue Thread) (ret : ErrorCode × Bytes) : Prop :=
  (ret.1 = .success → queue'.nElements + 1 = queue.nElements) ∧ queue'.nElements ≤ queue.nElements

theorem take_counts (queue : Queue Thread) (message : Bytes) :
    Counts queue (queue.take message).2 (queue.take message).1 := by
  refine ⟨fun hret => ?_, ?_⟩
  · rcases queue.take_cases message with ⟨-, htake⟩ | ⟨hn, htake⟩
    · rw [htake] at hret
      cases hret
    · rw [htake]
      exact Nat.sub_add_cancel (Nat.pos_of_ne_zero hn)
  · rw [Queue.take_nElements]
    exact Nat.sub_le _ _

theorem receive_counts {queue queue' : Queue Thread} {t : Thread} {message : Bytes} {timeoutMs : UInt64} {tv : Timeval}
    {ret : ErrorCode × Bytes} (h : queue.receive t message timeoutMs tv = (some ret, queue')) :
    Counts queue queue' ret := by
  by_cases hn : queue.nElements = 0
  · rw [Queue.receive_wait hn] at h
    cases h
  · rw [Queue.receive_now hn] at h
    cases h
    exact take_counts queue message

theorem resume_counts {queue queue' : Queue Thread} {t : Thread} {ret : ErrorCode × Bytes}
    (h : queue.resume t = some (ret, queue')) : Counts queue queue' ret := by
  obtain ⟨r, res, cond, -, ⟨-, rfl, rfl⟩ | ⟨-, rfl, rfl⟩ | ⟨-, rfl, rfl⟩⟩ := Queue.resume_cases h
  · exact take_counts { queue with cond } r.message
  · exact ⟨nofun, Nat.le_refl _⟩
  · exact ⟨nofun, Nat.le_refl _⟩

/-- The round ends with an event taken out, or is the last one. -/
theorem drained_goes {w : World} {c q : Nat} {o : QueueObject} {queue : Queue Thread} {k : Call}
    {error : ErrorCode} {ret : ErrorCode × Bytes} (ho : w.queues[q]? = some o) (hcounts : Counts o.queue queue ret)
    (hleft : 2 ≤ k.left) : ∃ k', w.Goes c k ((w.setQueue q queue).drained c error ret) k' := by
  have hsum := messages_setQueue ho queue
  obtain ⟨htaken, hle⟩ := hcounts
  unfold drained
  split
  · rename_i hret
    have htaken := htaken hret
    refine ⟨_, rfl, ?_, noHandle rfl, noWait rfl⟩
    show 4 + 3 * (w.setQueue q queue).messages + 1 ≤ _
    omega
  · refine ⟨_, rfl, ?_, noHandle rfl, noWait rfl⟩
    show 1 + 3 * (w.setQueue q queue).messages + 1 ≤ _
    omega

theorem nElements_send (queue : Queue Thread) (message : Bytes) (pick : Nat) : (queue.send message pick).2.nElements =
    if (queue.send message pick).1 = .success then queue.nElements + 1 else queue.nElements := by
  rcases queue.send_cases message pick with ⟨-, hsend⟩ | ⟨-, hsend⟩
  · rw [hsend]
    rfl
  · rw [hsend]
    exact Queue.put_nElements queue message

theorem serviceNotify_goes {w w' : World} {c : Nat} {ch : Choice} {pc : NotifyPc}
    (hs : w.serviceNotify c ch pc = some w') : w'.fault ≠ none ∨ ∃ k, w.Goes c (.notify pc) w' k := by
  cases pc with
  | check e =>
    simp only [serviceNotify] at hs
    split at hs <;> cases hs
    · exact .inr ⟨_, goes_plain rfl rfl (Nat.le_refl 7) (noHandle rfl) rfl⟩
    · exact .inr ⟨_, goes_plain rfl rfl (show 1 ≤ 7 by decide) (noHandle rfl) rfl⟩
  | load e => cases hs; exact .inr ⟨_, goes_plain rfl rfl (Nat.le_refl 6) (fun _ => .inr) rfl⟩
  | drainLoad b error => cases hs; exact .inr ⟨_, goes_plain rfl rfl (Nat.le_refl 4) (fun _ => .inr) rfl⟩
  | reboot error =>
    simp only [serviceNotify] at hs
    split at hs <;> cases hs
    · exact .inl (by simp [crash])
    · exact .inr ⟨_, goes_plain rfl rfl (Nat.le_refl 1) (noHandle rfl) rfl⟩
  | send e h =>
    simp only [serviceNotify] at hs
    rcases onQueue_cases hs with ⟨hfault, -⟩ | ⟨q, o, rfl, ho, hbody⟩
    · exact .inl hfault
    · have hsum := messages_setQueue ho (o.queue.send e.toBytes ch.pick).2
      have hcount := nElements_send o.queue e.toBytes ch.pick
      split at hbody
      · rename_i hret
        cases hbody
        rw [if_neg hret] at hcount
        refine .inr ⟨_, rfl, ?_, noHandle rfl, noWait rfl⟩
        show 4 + 3 * (w.setQueue q _).messages + 1 ≤ 5 + _
        omega
      · rename_i hret
        cases hbody
        rw [if_pos (not_not.1 hret)] at hcount
        refine .inr ⟨.returned, rfl, ?_, noHandle rfl, noWait rfl⟩
        show 0 + 3 * (w.setQueue q _).messages + 1 ≤ 5 + _
        omega
  | drainReceive b error h =>
    simp only [serviceNotify] at hs
    rcases onQueue_cases hs with ⟨hfault, -⟩ | ⟨q, o, rfl, ho, hbody⟩
    · exact .inl hfault
    · split at hbody
      · rename_i queue hreceive
        cases hbody
        have hsum := messages_setQueue ho queue
        have hle := nElements_receive o.queue (.call c) b 10 ch.tv
        rw [hreceive] at hle
        refine .inr ⟨.notify (.drainWait error (some q)), rfl, ?_, fun _ => .inl, fun r _ hr => ?_⟩
        · show 2 + 3 * (w.setQueue q queue).messages + 1 ≤ 3 + _
          dsimp only at hle
          omega
        · obtain rfl : q = r := Option.some.inj hr
          exact waitsIn_setQueue ho (self_mem_threads_receive hreceive)
      · rename_i ret queue hreceive
        cases hbody
        exact .inr (drained_goes ho (receive_counts hreceive) (show 2 ≤ 3 by decide))
  | drainWait error h =>
    simp only [serviceNotify] at hs
    rcases onQueue_cases hs with ⟨hfault, -⟩ | ⟨q, o, rfl, ho, hbody⟩
    · exact .inl hfault
    · split at hbody
      · cases hbody
      · rename_i ret queue hresume
        cases hbody
        exact .inr (drained_goes ho (resume_counts hresume) (Nat.le_refl 2))

theorem caller_goes {w w' : World} {c : Nat} {ch : Choice} (hs : w.Advance (.caller c ch) w') :
    ∃ k, w.calls[c]? = some k ∧ (w'.fault ≠ none ∨ ∃ k', w.Goes c k w' k') := by
  cases hs with
  | start hc hs => exact ⟨_, hc, serviceStart_goes hs⟩
  | stop hc hs => exact ⟨_, hc, .inr (serviceStop_goes hs)⟩
  | notify hc hs => exact ⟨_, hc, serviceNotify_goes hs⟩

/-! ## Any step -/

/-- A step of call `c`. -/
def ofCall (c : Nat) : Act → Bool
  | .caller d _ => d == c
  | _ => false

/-- A call is where it was unless the step is its own, or it has just been made. -/
theorem other_call {w w' : World} {a : Act} {c : Nat} (hs : w.Advance a w') (ha : ofCall c a = false) :
    w'.calls[c]? = w.calls[c]? ∨ (w.calls[c]? = none ∧ ∃ api : Api, w'.calls[c]? = some api.enter) := by
  cases a with
  | caller d ch =>
    left
    have hdc : d ≠ c := by simpa [ofCall] using ha
    rcases (caller_callStep hs).calls with ⟨hcalls, -⟩ | ⟨k, -, hcalls⟩
    · rw [hcalls]
    · rw [hcalls, List.getElem?_set_ne hdc]
  | task i ch => exact .inl (by rw [(task_taskStep hs).calls])
  | die i => exact .inl (by rw [(die_advance_taskStep hs).calls])
  | call api =>
    cases hs
    rcases Nat.lt_or_ge c w.calls.length with hlt | hge
    · exact .inl (List.getElem?_append_left hlt)
    · rcases Nat.eq_or_lt_of_le hge with rfl | hgt
      · exact .inr ⟨List.getElem?_eq_none (Nat.le_refl _), api, by simp⟩
      · refine .inl ?_
        rw [List.getElem?_eq_none hge, List.getElem?_eq_none]
        rw [List.length_append]
        exact hgt
  | wake | take | wakeTaker | retake => cases hs; exact .inl rfl

theorem calls_length_le {w w' : World} {a : Act} (hs : w.Advance a w') : w.calls.length ≤ w'.calls.length := by
  cases a with
  | caller d ch =>
    rcases (caller_callStep hs).calls with ⟨hcalls, -⟩ | ⟨k, -, hcalls⟩
    · rw [hcalls]
    · rw [hcalls, List.length_set]
  | task i ch => rw [(task_taskStep hs).calls]
  | die i => rw [(die_advance_taskStep hs).calls]
  | call api =>
    cases hs
    rw [List.length_append]
    exact Nat.le_add_right _ _
  | wake | take | wakeTaker | retake => cases hs; exact Nat.le_refl _

theorem other_callLeft {w w' : World} {a : Act} {c : Nat} (hs : w.Advance a w') (ha : ofCall c a = false) :
    w'.callLeft c ≤ w.callLeft c ∧ (w.callLeft c = 0 → w'.callLeft c = 0) := by
  rcases other_call hs ha with hsame | ⟨hnone, api, hnew⟩
  · rw [callLeft, callLeft, hsame]
    exact ⟨Nat.le_refl _, id⟩
  · have hten : w.callLeft c = 10 := by rw [callLeft, hnone]; rfl
    rw [hten, callLeft_eq hnew]
    exact ⟨left_le api.enter, nofun⟩

/-- A step costs call `c` one of the steps it has left when it is its own; any other brings it no more than the
rounds for the events that it accepts. -/
theorem callSteps_step {w w' : World} {a : Act} {c : Nat} (hs : w.step a = some w') :
    (ofCall c a = true → w'.callSteps c < w.callSteps c) ∧
      (ofCall c a = false → w'.callSteps c + 3 * w.accepted ≤ w.callSteps c + 3 * w'.accepted) := by
  obtain ⟨hfault, hadv⟩ := step_advance hs
  have hmono := accepted_mono (step_log hs)
  constructor
  · intro ha
    cases a with
    | caller d ch =>
      obtain rfl : d = c := by simpa [ofCall] using ha
      obtain ⟨k, hk, hgoes⟩ := caller_goes hadv
      have hpos : k.left ≠ 0 := by
        intro hzero
        rw [returned_of_left hzero] at hk
        cases hadv with
        | start hc | stop hc | notify hc => rw [hk] at hc; cases hc
      have hnow : w.callSteps d = k.left + 3 * w.messages := by
        rw [callSteps, callLeft_eq hk, if_pos ⟨hfault, hpos⟩]
      rcases hgoes with hcrash | ⟨k', hgoes⟩
      · rw [callSteps, if_neg fun h => hcrash h.1, hnow]
        omega
      · have hk' : w'.calls[d]? = some k' := by
          rw [hgoes.calls, List.getElem?_set_self (List.getElem?_eq_some_iff.1 hk).1]
        have hle := callSteps_le w' d
        rw [callLeft_eq hk'] at hle
        have hleft := hgoes.left
        omega
    | _ => cases ha
  · intro ha
    obtain ⟨hle, hzero⟩ := other_callLeft hadv ha
    have hmessages := (advance_queues hadv).messages_le hmono
    by_cases hdone : w.callLeft c = 0
    · rw [callSteps, if_neg fun h => h.2 (hzero hdone)]
      omega
    · have hnow : w.callSteps c = w.callLeft c + 3 * w.messages := if_pos ⟨hfault, hdone⟩
      have hnext := callSteps_le w' c
      omega

/-! ## A call can always go on -/

/-- What a `Service_Notify` relies on: its handle is that of a queue, and in the wait of its draining loop it is inside
the wait of that queue. -/
structure CallsReady (w : World) : Prop where
  handle : ∀ (c : Nat) (k : Call) (q : Nat), w.calls[c]? = some k → k.handle = some q → q < w.queues.length
  waits : ∀ (c : Nat) (k : Call) (q : Nat), w.calls[c]? = some k → k.waiting = true → k.handle = some q →
    w.WaitsIn (.call c) q

theorem callsReady_init (service : Service) : (init service).CallsReady := ⟨nofun, nofun⟩

theorem CallsReady.step {w w' : World} {a : Act} (h : w.CallsReady) (hhandles : w.life.Handles)
    (hs : w.step a = some w') (hfault : w'.fault = none) : w'.CallsReady := by
  have hadv := (step_advance hs).2
  have hqueues := advance_queues hadv
  have hlength := hqueues.length_le
  -- what a call has when the step is not its own
  have hother : ∀ (c : Nat) (k : Call) (q : Nat), ofCall c a = false → w'.calls[c]? = some k → k.handle = some q →
      q < w'.queues.length ∧ (k.waiting = true → w'.WaitsIn (.call c) q) := by
    intro c k q ha hk hq
    rcases other_call hadv ha with hsame | ⟨-, api, hnew⟩
    · rw [hsame] at hk
      refine ⟨Nat.lt_of_lt_of_le (h.handle c k q hk hq) hlength, fun hw => ?_⟩
      refine (h.waits c k q hk hw hq).step hqueues ?_
      intro hself
      cases a with
      | caller d ch =>
        cases hself
        simp [ofCall] at ha
      | _ => cases hself
    · rw [hk] at hnew
      cases hnew
      cases api <;> cases hq
  have hown : ∀ (c : Nat) (k : Call) (q : Nat), ofCall c a = true → w'.calls[c]? = some k → k.handle = some q →
      q < w'.queues.length ∧ (k.waiting = true → w'.WaitsIn (.call c) q) := by
    intro c k q ha hk hq
    cases a with
    | caller d ch =>
      obtain rfl : d = c := by simpa [ofCall] using ha
      obtain ⟨k₀, hk₀, hcrash | ⟨k', hgoes⟩⟩ := caller_goes hadv
      · exact absurd hfault hcrash
      · rw [hgoes.calls, List.getElem?_set_self (List.getElem?_eq_some_iff.1 hk₀).1] at hk
        cases hk
        refine ⟨Nat.lt_of_lt_of_le ?_ hlength, fun hw => hgoes.waits q hw hq⟩
        rcases hgoes.handle q hq with hold | hservice
        · exact h.handle d k₀ q hk₀ hold
        · exact hhandles.queue q hservice
    | _ => cases ha
  constructor
  · intro c k q hk hq
    rcases hc : ofCall c a with _ | _
    · exact (hother c k q hc hk hq).1
    · exact (hown c k q hc hk hq).1
  · intro c k q hk hw hq
    rcases hc : ofCall c a with _ | _
    · exact (hother c k q hc hk hq).2 hw
    · exact (hown c k q hc hk hq).2 hw

theorem serviceStart_isSome (w : World) (c : Nat) (ch : Choice) (pc : StartPc) :
    (w.serviceStart c ch pc).isSome = true := by
  cases pc with
  | check | newQueue | checkQueue | createTask | checkTask =>
    simp only [serviceStart]
    split <;> rfl
  | _ => rfl

/-- A call that has not returned has a step, in a wait once that wait has ended. -/
theorem CallsReady.caller_step {w : World} {c : Nat} {k : Call} (h : w.CallsReady) (hlost : w.NoneLost)
    (hfault : w.fault = none) (hc : w.calls[c]? = some k) (hk : k ≠ .returned) (ch : Choice)
    (hwait : ∀ q o, k.waiting = true → k.handle = some q → w.queues[q]? = some o →
      (o.queue.cond.resume (.call c)).isSome = true) :
    ∃ w', w.step (.caller c ch) = some w' := by
  refine Option.isSome_iff_exists.1 ?_
  simp only [World.step, hfault, advance, hc]
  have hlength := h.handle c k
  cases k with
  | start pc => exact serviceStart_isSome w c ch pc
  | stop pc =>
    cases pc with
    | check =>
      simp only [serviceStop]
      split <;> rfl
    | setStopped => rfl
  | notify pc =>
    cases pc with
    | check | reboot =>
      simp only [serviceNotify]
      split <;> rfl
    | load | drainLoad => rfl
    | send e x =>
      simp only [serviceNotify]
      refine onQueue_isSome hlost (fun q hq => hlength q hc hq) fun q o _ _ => ?_
      split <;> rfl
    | drainReceive b error x =>
      simp only [serviceNotify]
      refine onQueue_isSome hlost (fun q hq => hlength q hc hq) fun q o _ _ => ?_
      split <;> rfl
    | drainWait error x =>
      simp only [serviceNotify]
      refine onQueue_isSome hlost (fun q hq => hlength q hc hq) fun q o hx ho => ?_
      have hresume := hwait q o rfl hx ho
      rw [← resume_isSome] at hresume
      obtain ⟨⟨ret, queue⟩, hret⟩ := Option.isSome_iff_exists.1 hresume
      rw [hret]
      rfl
  | returned => exact absurd rfl hk

/-- A step of the call itself, or the end of its wait by its timeout. -/
def byCall (c : Nat) : Act → Bool
  | .caller d _ => d == c
  | .wake _ (.call d) .timedOut => d == c
  | _ => false

/-- What a run of a call by itself keeps. -/
structure Calling (w : World) (c : Nat) : Prop where
  made : c < w.calls.length
  handles : w.life.Handles
  ready : w.fault = none → w.CallsReady ∧ w.NoneLost

theorem Calling.step {w w' : World} {a : Act} {c : Nat} (h : w.Calling c) (hs : w.step a = some w')
    (ha : ∀ i, a ≠ .die i) : w'.Calling c where
  made := Nat.lt_of_lt_of_le h.made (calls_length_le (step_advance hs).2)
  handles := preserved (I := Life.Handles) h.handles hs fun _ _ hstep => h.handles.step hstep
  ready hfault := by
    obtain ⟨hready, hlost⟩ := h.ready (step_advance hs).1
    exact ⟨hready.step h.handles hs hfault, hlost.step (advance_queues (step_advance hs).2) ha⟩

/-- A call that has not returned takes a step, after the timeout of its wait if it has to. -/
theorem Calling.goes_on {w : World} {c : Nat} (h : w.Calling c) (hpos : 0 < w.callSteps c) :
    ∃ as w', as.length ≤ 2 ∧ (∀ a ∈ as, World.byCall c a = true) ∧ exec World.step w as = some w' ∧
      w'.Calling c ∧ w'.callSteps c < w.callSteps c := by
  obtain ⟨hfault, hleft⟩ : w.fault = none ∧ w.callLeft c ≠ 0 := by
    by_contra hdone
    rw [callSteps, if_neg hdone] at hpos
    exact Nat.lt_irrefl 0 hpos
  obtain ⟨hready, hlost⟩ := h.ready hfault
  obtain ⟨k, hc⟩ : ∃ k, w.calls[c]? = some k := ⟨_, List.getElem?_eq_getElem h.made⟩
  have hk : k ≠ .returned := by
    rintro rfl
    exact hleft (callLeft_eq hc)
  by_cases hstuck : ∃ q o, k.waiting = true ∧ k.handle = some q ∧ w.queues[q]? = some o ∧
      o.queue.cond.resume (.call c) = none
  · obtain ⟨q, o, hwaiting, hq, ho, hnone⟩ := hstuck
    obtain ⟨x, hx, hsome | ⟨cond, hwake, hsome⟩⟩ := (hready.waits c k q hc hwaiting hq).wake hfault
    · rw [ho] at hx
      cases hx
      rw [hnone] at hsome
      cases hsome
    · have hu := h.step hwake nofun
      obtain ⟨v, hv⟩ := (hu.ready hfault).1.caller_step (hu.ready hfault).2 hfault hc hk plain fun r y _ hr hy => by
        rw [hq] at hr
        cases hr
        rw [getElem?_setQueue hx] at hy
        cases hy
        exact hsome
      refine ⟨[.wake q (.call c) .timedOut, .caller c plain], v, Nat.le_refl 2, ?_, by simp only [exec, hwake, hv],
        hu.step hv nofun, ?_⟩
      · exact List.forall_mem_cons.2 ⟨by simp [World.byCall], List.forall_mem_singleton.2 (by simp [World.byCall])⟩
      · have hstays := (@callSteps_step _ _ _ c hwake).2 rfl
        have hfalls := (@callSteps_step _ _ _ c hv).1 (by simp [ofCall])
        have hsame : accepted (w.setQueue q { x.queue with cond }) = w.accepted := rfl
        omega
  · obtain ⟨v, hv⟩ := hready.caller_step hlost hfault hc hk plain fun q o hwaiting hq ho =>
      Option.isSome_iff_ne_none.2 fun hnone => hstuck ⟨q, o, hwaiting, hq, ho, hnone⟩
    refine ⟨[.caller c plain], v, Nat.le_succ 1, ?_, by simp only [exec, hv], h.step hv nofun, ?_⟩
    · exact List.forall_mem_singleton.2 (by simp [World.byCall])
    · exact (callSteps_step hv).1 (by simp [ofCall])

/-! ## Whole runs -/

/-- The program has ended, or call `c` has returned or was not made yet. -/
def Returned (w : World) (c : Nat) : Prop := w.fault ≠ none ∨ ∀ k, w.calls[c]? = some k → k = .returned

theorem returned_of_callSteps {w : World} {c : Nat} (h : w.callSteps c = 0) : w.Returned c := by
  by_cases hfault : w.fault = none
  · refine .inr fun k hk => returned_of_left ?_
    by_contra hleft
    rw [callSteps, callLeft_eq hk, if_pos ⟨hfault, hleft⟩] at h
    omega
  · exact .inl hfault

/-- The steps that a call has made and those that it has left. -/
theorem exec_callSteps {service : Service} {acts : List Act} {w : World} (hw : exec step (init service) acts = some w)
    (c : Nat) : acts.countP (ofCall c) + w.callSteps c ≤ 10 + 3 * w.accepted := by
  have hpays : ∀ (u : World) (a : Act) (v : World), True → step u a = some v →
      (if ofCall c a = true then 1 else 0) + v.callSteps c + 3 * u.accepted ≤ u.callSteps c + 3 * v.accepted := by
    intro u a v _ hs
    obtain ⟨hown, hother⟩ := @callSteps_step u v a c hs
    have hmono := accepted_mono (step_log hs)
    by_cases ha : ofCall c a = true
    · have hfalls := hown ha
      rw [if_pos ha]
      omega
    · have hbrings := hother (Bool.eq_false_iff.2 ha)
      rw [if_neg ha]
      omega
  have hpay := exec_balance (fun _ _ _ _ _ => trivial) hpays hw trivial
  rw [sum_map_countP] at hpay
  have hstart := callSteps_le (init service) c
  have hten : (init service).callLeft c + 3 * (init service).messages = 10 := rfl
  have hnone : (init service).accepted = 0 := rfl
  omega

theorem noneLost_of_count {service : Service} {acts : List Act} {w : World} (hone : acts.count (.call .start) ≤ 1)
    (hw : exec step (init service) acts = some w) : w.NoneLost :=
  (exec_meets_invariant (I := fun u => u.Single ∧ u.NoneLost)
    (fun _ _ _ hu hfirst hs => ⟨single_step hu.1 hfirst hs, hu.1.noneLost_step hu.2 hs⟩) hw
    (startFirst_of_count service acts hone) ⟨single_init service, nofun⟩).2

/-- No call of the interface goes on for ever and none gets stuck. In every run a call makes ten steps at most and
three more for each event that is accepted. As long as no mutex is lost, which takes a second `Service_Start`, a call
can go on to its return, or to the end of the program, without any other thread: by its own steps and the ends of its
waits by their timeouts, each of which takes one step more. -/
theorem calls_return (service : Service) {acts : List Act} {w : World} (hw : exec step (init service) acts = some w)
    (c : Nat) : acts.countP (ofCall c) ≤ 10 + 3 * w.accepted ∧
      (acts.count (.call .start) ≤ 1 → w.NoneLost) ∧
      (w.NoneLost → ∃ own w', own.length ≤ 2 * (10 + 3 * w.accepted) ∧ (∀ a ∈ own, byCall c a = true) ∧
        exec step w own = some w' ∧ w'.Returned c) := by
  have hpay := exec_callSteps hw c
  refine ⟨by omega, fun hone => noneLost_of_count hone hw, fun hlost => ?_⟩
  have hready : w.life.Handles ∧ (w.fault = none → w.CallsReady) := exec_invariant
    (I := fun u => u.life.Handles ∧ (u.fault = none → u.CallsReady))
    (fun u a v hu hs => ⟨preserved (I := Life.Handles) hu.1 hs fun _ _ hstep => hu.1.step hstep,
      (hu.2 (step_advance hs).1).step hu.1 hs⟩) hw ⟨handles_init service, fun _ => callsReady_init service⟩
  by_cases hmade : c < w.calls.length
  · have hcalling : w.Calling c := ⟨hmade, hready.1, fun hfault => ⟨hready.2 hfault, hlost⟩⟩
    obtain ⟨own, w', hlen, hown, hw', -, hzero⟩ :=
      exec_usesUp_within (I := (Calling · c)) (φ := (callSteps · c)) (fun u hu hpos => hu.goes_on hpos) hcalling
    exact ⟨own, w', by omega, hown, hw', returned_of_callSteps hzero⟩
  · refine ⟨[], w, Nat.zero_le _, nofun, rfl, .inr fun k hk => ?_⟩
    rw [List.getElem?_eq_none (Nat.le_of_not_lt hmade)] at hk
    cases hk

/-- A `Service_Notify` has made its check when the others stop. -/
def halfNotify : List Act := startCall 0 ++ [Act.call (.notify 1 2), .caller 1 plain]

theorem calls_return_halfNotify : ∃ w own w', exec step (init handlerService) halfNotify = some w ∧
    own.length ≤ 2 * (10 + 3 * w.accepted) ∧ exec step w own = some w' ∧ w'.Returned 1 := by
  obtain ⟨w, hw⟩ := Option.isSome_iff_exists.1
    (show (exec step (init handlerService) halfNotify).isSome = true by decide)
  obtain ⟨-, hone, hends⟩ := calls_return handlerService hw 1
  obtain ⟨own, w', hlen, -, hw', hreturned⟩ := hends (hone (by decide))
  exact ⟨w, own, w', hw, hlen, hw', hreturned⟩

end World

end InfoWorkshop.Service
