/-
The overflow path of `Service_Notify`: what its draining loop takes out of the queue, against what the
task handles while the loop runs.
-/
import InfoWorkshop.Service.Delivery
import InfoWorkshop.Service.Single

namespace InfoWorkshop.Service.World

open InfoWorkshop.Core InfoWorkshop.Memory InfoWorkshop.Posix InfoWorkshop.CondVar InfoWorkshop.Steps

/-! ## Handled and drained -/

/-- The events removed by a draining loop, in order. -/
def drainedEvents (log : List Event) : List ServiceEvent :=
  log.filterMap fun
    | .drained e => some e
    | _ => none

/-- The accepted events are, in order: those handled and the one in hand, those drained, and the rest.
So no event is handled that was accepted after a drained one. -/
def FailStop (w : World) : Prop :=
  handledEvents w.log ++ w.inHand ++ drainedEvents w.log <+: acceptedEvents w.log

instance (w : World) : Decidable w.FailStop := inferInstanceAs (Decidable (_ <+: _))

/-- The step is one of a task in its `Queue_Receive` that finds a message: it has just locked the
mutex, or a signal has ended its wait. -/
def takesMessage (w : World) : Act → Bool
  | .task i _ =>
    match w.tasks[i]?.map TaskObject.pc with
    | some (.receive (some q)) => w.queues[q]?.any fun o => o.queue.nElements ≠ 0
    | some (.wait (some q)) =>
      w.queues[q]?.any fun o =>
        o.queue.nElements ≠ 0 && (o.queue.cond.resume (.task i)).any fun x => x.2.1 = .ok
    | _ => false
  | _ => false

/-- Once a draining loop has removed an event, no task takes one. -/
def NoTakeAfterDrain (w : World) (a : Act) : Prop := drainedEvents w.log ≠ [] → w.takesMessage a = false

instance (w : World) (a : Act) : Decidable (w.NoTakeAfterDrain a) := inferInstanceAs (Decidable (_ → _))

@[simp] theorem drainedEvents_append (l m : List Event) :
    drainedEvents (l ++ m) = drainedEvents l ++ drainedEvents m := List.filterMap_append

/-! ## The books -/

/-- The bytes are as long as an event. -/
def Wide (b : Bytes) : Prop := b.length = sizeofServiceEvent

/-- A draining loop keeps an event's worth of bytes. -/
def CallWide : Call → Prop
  | .notify (.drainLoad b _) | .notify (.drainReceive b _ _) => Wide b
  | _ => True

/-- There is no queue and no event, or one queue that holds the events `rest` until it is deleted. -/
def Keeping (rest : List ServiceEvent) : List QueueObject → Prop
  | [] => rest = []
  | [o] => o.deleted = false → HoldsWith Wide o.queue rest
  | _ => False

/-- The accepted events are those handled, the one in hand, those drained and `rest`, in order. -/
def Balanced (w : World) (rest : List ServiceEvent) : Prop :=
  acceptedEvents w.log = handledEvents w.log ++ w.inHand ++ drainedEvents w.log ++ rest

structure Accounts (w : World) : Prop where
  handler : w.service.handler = true
  calls : ∀ k ∈ w.calls, CallWide k
  books : ∃ rest, Keeping rest w.queues ∧ w.Balanced rest

theorem Accounts.failStop {w : World} (h : w.Accounts) : w.FailStop := by
  obtain ⟨rest, -, hbalance⟩ := h.books
  exact ⟨rest, hbalance.symm⟩

theorem accounts_init (service : Service) (hhandler : service.handler = true) : (init service).Accounts :=
  ⟨hhandler, fun _ h => (by cases h), [], rfl, rfl⟩

/-- An event of no one's accepting, handling or draining. -/
def Event.silent : Event → Bool
  | .accepted _ | .handled _ _ | .drained _ => false
  | _ => true

theorem Accounts.emit {w : World} (h : w.Accounts) {e : Event} (he : Event.silent e = true) :
    (w.emit e).Accounts := by
  obtain ⟨rest, hkeep, hbalance⟩ := h.books
  unfold Balanced at hbalance
  refine ⟨h.handler, h.calls, rest, hkeep, ?_⟩
  have ha : acceptedEvents [e] = [] := by cases e <;> first | rfl | cases he
  have hh : handledEvents [e] = [] := by cases e <;> first | rfl | cases he
  have hd : drainedEvents [e] = [] := by cases e <;> first | rfl | cases he
  show acceptedEvents (w.log ++ [e]) =
    handledEvents (w.log ++ [e]) ++ w.inHand ++ drainedEvents (w.log ++ [e]) ++ rest
  rw [acceptedEvents_append, handledEvents_append, drainedEvents_append, ha, hh, hd]
  simpa using hbalance

theorem Accounts.crash {w : World} (h : w.Accounts) (f : Fault) : (w.crash f).Accounts :=
  ⟨h.handler, h.calls, h.books⟩

/-- A call moves on. -/
theorem Accounts.goto {w : World} (h : w.Accounts) {c : Nat} {k : Call} (hk : CallWide k) :
    (w.goto c k).Accounts := by
  refine ⟨h.handler, fun k' hk' => ?_, h.books⟩
  rcases List.mem_or_eq_of_mem_set hk' with hmem | rfl
  · exact h.calls k' hmem
  · exact hk

/-- What the books do not show changes. -/
theorem Accounts.congr {w v : World} (h : w.Accounts) (hhandler : v.service.handler = w.service.handler)
    (hcalls : v.calls = w.calls) (hqueues : v.queues = w.queues) (hhand : v.inHand = w.inHand)
    (hlog : v.log = w.log) : v.Accounts := by
  obtain ⟨rest, hkeep, hbalance⟩ := h.books
  refine ⟨hhandler.trans h.handler, hcalls ▸ h.calls, rest, hqueues ▸ hkeep, ?_⟩
  unfold Balanced
  rw [hlog, hhand]
  exact hbalance

/-- The queue changes, and the log tells how. -/
theorem Accounts.setQueue {w v : World} (h : w.Accounts) {o : QueueObject} {queue : Queue Thread}
    {ys : List ServiceEvent} {l : List Event} (hqueues : w.queues = [o]) (hys : HoldsWith Wide queue ys)
    (hv : v.queues = (w.setQueue 0 queue).queues) (hservice : v.service = w.service) (hcalls : v.calls = w.calls)
    (htasks : v.tasks = w.tasks) (hlog : v.log = w.log ++ l)
    (hbalance : acceptedEvents w.log ++ acceptedEvents l =
      handledEvents w.log ++ handledEvents l ++ w.inHand ++ (drainedEvents w.log ++ drainedEvents l) ++ ys) :
    v.Accounts := by
  refine ⟨hservice ▸ h.handler, hcalls ▸ h.calls, ys, ?_, ?_⟩
  · rw [hv, World.setQueue, hqueues]
    exact fun _ => hys
  · unfold Balanced inHand
    rw [hlog, htasks, acceptedEvents_append, handledEvents_append, drainedEvents_append]
    exact hbalance

/-- A section of a queue function that runs is on the one queue, which is not deleted. -/
theorem Accounts.onQueue {w w' : World} {h : Option Nat} {body : Nat → Queue Thread → Option World}
    (hw : w.Accounts) (hsingle : w.Single) (hs : w.onQueue h body = some w') :
    (∃ f, w' = w.crash f) ∨
    ∃ o rest, h = some 0 ∧ w.queues = [o] ∧ HoldsWith Wide o.queue rest ∧ w.Balanced rest ∧
      body 0 o.queue = some w' := by
  unfold World.onQueue at hs
  split at hs
  · cases hs; exact .inl ⟨_, rfl⟩
  · rename_i q
    split at hs
    · cases hs
    · rename_i o ho
      split at hs
      · cases hs; exact .inl ⟨_, rfl⟩
      · rename_i hdel
        split at hs
        · cases hs
        · obtain ⟨rfl, hqueues⟩ := hsingle.queue_eq ho
          obtain ⟨rest, hkeep, hbalance⟩ := hw.books
          rw [hqueues] at hkeep
          exact .inr ⟨o, rest, rfl, hqueues, hkeep (Bool.eq_false_iff.2 hdel), hbalance, hs⟩

/-! ## The steps of the calls -/

theorem serviceStart_accounts {w w' : World} {c : Nat} {ch : Choice} {pc : StartPc} (h : w.Accounts)
    (hsingle : w'.Single) (hs : w.serviceStart c ch pc = some w') : w'.Accounts := by
  cases pc with
  | check | checkQueue =>
    simp only [serviceStart] at hs
    split at hs <;> cases hs
    all_goals first | exact h.goto trivial | exact h.crash _
  | setRunning | setDefaults | storeQueue | storeTask =>
    cases hs
    refine Accounts.goto (h.congr ?_ ?_ ?_ ?_ ?_) trivial <;> rfl
  | newQueue =>
    simp only [serviceStart, Queue.new] at hs
    cases hok : ch.ok with
    | false => simp only [hok] at hs; cases hs; exact h.goto trivial
    | true =>
      simp only [hok] at hs
      cases hs
      -- the new queue is the only one
      have hlen := hsingle.queues_le
      simp only [World.goto, List.length_append, List.length_cons, List.length_nil] at hlen
      have hnil : w.queues = [] := List.length_eq_zero_iff.1 (by omega)
      obtain ⟨rest, hkeep, hbalance⟩ := h.books
      rw [hnil] at hkeep
      obtain rfl : rest = [] := hkeep
      have hv : ({ w with queues := w.queues ++
          [⟨.allocate SERVICE_QUEUE_SIZE sizeofServiceEvent, false, false⟩] } : World).Accounts := by
        refine ⟨h.handler, h.calls, [], ?_, hbalance⟩
        show Keeping [] (w.queues ++ [_])
        rw [hnil]
        exact fun _ => holdsWith_allocate
      exact hv.goto trivial
  | createTask q =>
    simp only [serviceStart] at hs
    split at hs <;> cases hs
    · obtain ⟨rest, hkeep, hbalance⟩ := h.books
      have hv : ({ w with tasks := w.tasks ++ [⟨.entry, q, false, false⟩] } : World).Accounts := by
        refine ⟨h.handler, h.calls, rest, hkeep, ?_⟩
        unfold Balanced inHand at *
        rw [List.map_append, List.flatMap_append]
        simpa [TaskPc.inHand] using hbalance
      exact hv.goto trivial
    · exact h.goto trivial
  | register t =>
    cases hs
    have hv : ({ w with tasks := w.tasks.modify t fun t => { t with registered := ch.ok } } : World).Accounts :=
      h.congr rfl rfl rfl (congrArg (List.flatMap TaskPc.inHand) (Table.map_modify_same t fun _ => rfl)) rfl
    exact hv.goto trivial
  | checkTask t =>
    simp only [serviceStart] at hs
    split at hs <;> cases hs
    · exact h.crash _
    · exact (h.emit rfl).goto trivial

theorem serviceStop_accounts {w w' : World} {c : Nat} {pc : StopPc} (h : w.Accounts)
    (hs : w.serviceStop c pc = some w') : w'.Accounts := by
  cases pc with
  | check =>
    simp only [serviceStop] at hs
    split at hs <;> cases hs <;> exact h.goto trivial
  | setStopped =>
    cases hs
    refine (Accounts.emit (h.congr ?_ ?_ ?_ ?_ ?_) rfl).goto trivial <;> rfl

/-- The draining loop has received `ret`. -/
theorem Accounts.drained {w : World} (h : w.Accounts) {o : QueueObject} {q : Queue Thread} {b : Bytes}
    {rest : List ServiceEvent} {ret : ErrorCode × Bytes} (hqueues : w.queues = [o]) (hbalance : w.Balanced rest)
    (hrec : ReceivedWith Wide b rest ret q) (c : Nat) (error : ErrorCode) :
    ((w.setQueue 0 q).drained c error ret).Accounts := by
  obtain ⟨ys, hrest, hys⟩ := hrec.moved
  unfold Balanced at hbalance
  unfold World.drained
  by_cases hret : ret.1 = .success
  · rw [if_pos hret]
    refine Accounts.goto (h.setQueue (v := (w.setQueue 0 q).emit _) hqueues hys rfl rfl rfl rfl rfl ?_) hrec.width
    rw [hbalance, hrest]
    simp [acceptedEvents, handledEvents, drainedEvents, taken, hret]
  · rw [if_neg hret]
    refine Accounts.goto (h.setQueue (v := w.setQueue 0 q) (l := []) hqueues hys rfl rfl rfl rfl
      (List.append_nil _).symm ?_) trivial
    rw [hbalance, hrest]
    simp [acceptedEvents, handledEvents, drainedEvents, taken, hret]

theorem serviceNotify_accounts {w w' : World} {c : Nat} {ch : Choice} {pc : NotifyPc} (h : w.Accounts)
    (hsingle : w.Single) (hc : w.calls[c]? = some (.notify pc)) (hs : w.serviceNotify c ch pc = some w') :
    w'.Accounts := by
  have hwide := h.calls _ (List.mem_of_getElem? hc)
  cases pc with
  | check e | reboot e =>
    simp only [serviceNotify] at hs
    split at hs <;> cases hs
    all_goals first | exact h.goto trivial | exact h.crash _
  | load e => cases hs; exact h.goto trivial
  | drainLoad b error => cases hs; exact h.goto hwide
  | send e q =>
    simp only [serviceNotify] at hs
    rcases h.onQueue hsingle hs with ⟨f, rfl⟩ | ⟨o, rest, -, hqueues, hx, hbalance, hs⟩
    · exact h.crash f
    · unfold Balanced at hbalance
      rcases hx.send e ch.pick with hfull | ⟨hok, hx'⟩
      · -- a full queue stays as it is
        simp only [hfull] at hs
        cases hs
        refine Accounts.goto (h.setQueue (v := (w.setQueue 0 o.queue).emit .overflow) hqueues hx rfl rfl rfl rfl rfl ?_)
          e.toBytes_length
        rw [hbalance]
        simp [acceptedEvents, handledEvents, drainedEvents]
      · simp only [hok, ne_eq, not_true_eq_false, if_false] at hs
        cases hs
        refine Accounts.goto (h.setQueue (v := (w.setQueue 0 _).emit (.accepted e)) hqueues hx' rfl rfl rfl rfl rfl ?_)
          trivial
        rw [hbalance]
        simp [acceptedEvents, handledEvents, drainedEvents]
  | drainReceive b error q =>
    simp only [serviceNotify] at hs
    rcases h.onQueue hsingle hs with ⟨f, rfl⟩ | ⟨o, rest, -, hqueues, hx, hbalance, hs⟩
    · exact h.crash f
    · rcases hx.receive (.call c) hwide hwide 10 ch.tv with ⟨q', hr, hx'⟩ | ⟨ret, q', -, hr, hrec⟩
      · simp only [hr] at hs
        cases hs
        refine Accounts.goto (h.setQueue (v := w.setQueue 0 q') (l := []) hqueues hx' rfl rfl rfl rfl
          (List.append_nil _).symm ?_) trivial
        unfold Balanced at hbalance
        rw [hbalance]
        simp [acceptedEvents, handledEvents, drainedEvents]
      · simp only [hr] at hs
        cases hs
        exact h.drained hqueues hbalance hrec c error
  | drainWait error q =>
    simp only [serviceNotify] at hs
    rcases h.onQueue hsingle hs with ⟨f, rfl⟩ | ⟨o, rest, -, hqueues, hx, hbalance, hs⟩
    · exact h.crash f
    · split at hs
      · cases hs
      · rename_i ret q' hr
        cases hs
        obtain ⟨b, -, hrec⟩ := hx.resume (fun _ hb => hb) hr
        exact h.drained hqueues hbalance hrec c error

/-! ## The steps of the task -/

theorem inHand_gotoTask {v : World} {pc pc' : TaskPc} (hv : v.tasks.map TaskObject.pc = [pc]) :
    (v.gotoTask 0 pc').inHand = TaskPc.inHand pc' := by
  show List.flatMap TaskPc.inHand ((v.tasks.modify 0 _).map TaskObject.pc) = _
  rw [map_pc_gotoTask, hv]
  exact List.append_nil _

/-- The task moves on, with nothing in hand before and after. -/
theorem Accounts.gotoTask {v : World} (h : v.Accounts) {pc pc' : TaskPc} (hv : v.tasks.map TaskObject.pc = [pc])
    (hold : TaskPc.inHand pc = []) (hnew : TaskPc.inHand pc' = []) : (v.gotoTask 0 pc').Accounts := by
  refine h.congr (v := v.gotoTask 0 pc') rfl rfl rfl ?_ rfl
  rw [inHand_gotoTask hv, hnew, inHand, hv]
  exact ((List.append_nil _).trans hold).symm

/-- The task has received `ret`: an event only while nothing has been drained. -/
theorem Accounts.received {w : World} (h : w.Accounts) {o : QueueObject} {q : Queue Thread} {b : Bytes}
    {rest : List ServiceEvent} {ret : ErrorCode × Bytes} {pc : TaskPc} (hqueues : w.queues = [o])
    (hpcs : w.tasks.map TaskObject.pc = [pc]) (hold : TaskPc.inHand pc = []) (hbalance : w.Balanced rest)
    (hrec : ReceivedWith Wide b rest ret q) (hdrained : ret.1 = .success → drainedEvents w.log = []) :
    ((w.setQueue 0 q).gotoTask 0 (.hand ret.1 ret.2)).Accounts := by
  obtain ⟨ys, hrest, hys⟩ := hrec.moved
  refine ⟨h.handler, h.calls, ys, ?_, ?_⟩
  · show Keeping ys (w.queues.modify 0 _)
    rw [hqueues]
    exact fun _ => hys
  · have hhand : w.inHand = [] := by rw [inHand, hpcs]; exact (List.append_nil _).trans hold
    unfold Balanced at hbalance ⊢
    rw [hhand, hrest, List.append_nil] at hbalance
    rw [inHand_gotoTask (v := w.setQueue 0 q) hpcs]
    show acceptedEvents w.log = handledEvents w.log ++ taken ret.1 ret.2 ++ drainedEvents w.log ++ ys
    rw [hbalance]
    by_cases hret : ret.1 = .success
    · simp [hdrained hret]
    · simp [taken, hret]

theorem serviceMain_accounts {w w' : World} {i : Nat} {t : TaskObject} {ch : Choice} (h : w.Accounts)
    (hsingle : w.Single) (hcond : w.NoTakeAfterDrain (.task i ch)) (ht : w.tasks[i]? = some t)
    (hs : w.serviceMain i t ch = some w') : w'.Accounts := by
  obtain ⟨rfl, htasks⟩ := hsingle.task_eq ht
  have hpcs : w.tasks.map TaskObject.pc = [t.pc] := by rw [htasks]; rfl
  unfold serviceMain at hs
  cases hpc : t.pc with
  | entry | body | teardown =>
    simp only [hpc] at hs hpcs
    split at hs <;> cases hs
    · exact (h.emit (e := _) rfl).gotoTask hpcs rfl rfl
    · exact h.gotoTask hpcs rfl rfl
  | loopTest =>
    simp only [hpc] at hs hpcs
    split at hs <;> cases hs <;> exact h.gotoTask hpcs rfl rfl
  | inSetup | inMain | load | inHandler | inTeardown =>
    simp only [hpc] at hs hpcs
    cases hs
    exact h.gotoTask hpcs rfl rfl
  | receive q =>
    simp only [hpc] at hs hpcs
    rcases h.onQueue hsingle hs with ⟨f, rfl⟩ | ⟨o, rest, rfl, hqueues, hx, hbalance, hs⟩
    · exact h.crash f
    · rcases hx.receive (.task 0) timeoutEvent.toBytes_length
        timeoutEvent.toBytes_length w.service.timeoutMs ch.tv with ⟨q', hr, hx'⟩ | ⟨ret, q', hn, hr, hrec⟩
      · simp only [hr] at hs
        cases hs
        refine Accounts.gotoTask (h.setQueue (v := w.setQueue 0 q') (l := []) hqueues hx' rfl rfl rfl rfl
          (List.append_nil _).symm ?_) hpcs rfl rfl
        unfold Balanced at hbalance
        rw [hbalance]
        simp [acceptedEvents, handledEvents, drainedEvents]
      · simp only [hr] at hs
        cases hs
        refine h.received hqueues hpcs rfl hbalance hrec fun _ => ?_
        -- the step takes a message
        by_contra hne
        have hfalse := hcond hne
        simp [takesMessage, htasks, hpc, hqueues, hn] at hfalse
  | wait q =>
    simp only [hpc] at hs hpcs
    rcases h.onQueue hsingle hs with ⟨f, rfl⟩ | ⟨o, rest, rfl, hqueues, hx, hbalance, hs⟩
    · exact h.crash f
    · split at hs
      · cases hs
      · rename_i ret q' hr
        cases hs
        obtain ⟨b, -, hrec⟩ := hx.resume (fun _ hb => hb) hr
        refine h.received hqueues hpcs rfl hbalance hrec fun hret => ?_
        obtain ⟨hn, hok⟩ := resume_success hr hret
        by_contra hne
        have hfalse := hcond hne
        simp [takesMessage, htasks, hpc, hqueues, hn] at hfalse
        simp [hfalse] at hok
  | hand error b =>
    simp only [hpc, h.handler, if_true] at hs hpcs
    cases hs
    obtain ⟨rest, hkeep, hbalance⟩ := h.books
    refine ⟨h.handler, h.calls, rest, hkeep, ?_⟩
    have hhand : w.inHand = taken error b := by rw [inHand, hpcs]; exact List.append_nil _
    have hlog : handledEvents [.handled error (.ofBytes b)] = taken error b := List.append_nil _
    unfold Balanced at hbalance ⊢
    rw [inHand_gotoTask (v := w.emit _) hpcs]
    show acceptedEvents (w.log ++ [_]) = handledEvents (w.log ++ [_]) ++ _ ++ drainedEvents (w.log ++ [_]) ++ rest
    rw [acceptedEvents_append, handledEvents_append, drainedEvents_append, hlog, hbalance, hhand]
    simp [acceptedEvents, drainedEvents, TaskPc.inHand]
  | give =>
    simp only [hpc] at hs hpcs
    split at hs
    · cases hs; exact h.crash _
    · have hsem : ∀ s, (w.setSemaphore s).Accounts := fun s => ⟨h.handler, h.calls, h.books⟩
      split at hs <;> cases hs
      · exact (hsem _).crash _
      · exact ((hsem _).emit (e := .given) rfl).gotoTask hpcs rfl rfl
  | deleteTask =>
    simp only [hpc, taskDelete] at hs hpcs
    split at hs
    · cases hs; exact h.gotoTask hpcs rfl rfl
    · rename_i j _
      split at hs
      · cases hs
      · split at hs <;> cases hs
        · exact h.crash _
        · have hsame : (w.tasks.modify j fun t => { t with registered := false, deleted := true }).map TaskObject.pc =
              w.tasks.map TaskObject.pc := Table.map_modify_same j fun _ => rfl
          have hv : ({ w with tasks := w.tasks.modify j fun t =>
              { t with registered := false, deleted := true } } : World).Accounts :=
            h.congr rfl rfl rfl (congrArg (List.flatMap TaskPc.inHand) hsame) rfl
          exact hv.gotoTask (hsame.trans hpcs) rfl rfl
  | deleteQueue =>
    simp only [hpc, queueDelete] at hs hpcs
    split at hs
    · cases hs; exact h.gotoTask hpcs rfl rfl
    · split at hs
      · cases hs
      · rename_i q _ o ho
        obtain ⟨rfl, hqueues⟩ := hsingle.queue_eq ho
        split at hs <;> cases hs
        · exact h.crash _
        · -- of a deleted queue nothing is said
          obtain ⟨rest, -, hbalance⟩ := h.books
          have hv : ({ w with queues := w.queues.modify 0 fun o =>
              { o with deleted := true, queue := { o.queue with heap := o.queue.delete } } } : World).Accounts := by
            refine ⟨h.handler, h.calls, rest, ?_, hbalance⟩
            show Keeping rest (w.queues.modify 0 _)
            rw [hqueues]
            rintro ⟨⟩
          exact hv.gotoTask hpcs rfl rfl
  | clearQueue =>
    simp only [hpc] at hs hpcs
    cases hs
    have hv : ({ w with service := { w.service with queue := none } } : World).Accounts :=
      ⟨h.handler, h.calls, h.books⟩
    exact hv.gotoTask hpcs rfl rfl
  | asleep => simp only [hpc] at hs; cases hs; exact h
  | ended => simp only [hpc] at hs; cases hs

/-- A task that dies has nothing in hand. -/
theorem die_accounts {w w' : World} {i : Nat} {t : TaskObject} (h : w.Accounts) (hsingle : w.Single)
    (ht : w.tasks[i]? = some t) (hs : w.die i t = some w') : w'.Accounts := by
  obtain ⟨rfl, htasks⟩ := hsingle.task_eq ht
  have hpcs : w.tasks.map TaskObject.pc = [t.pc] := by rw [htasks]; rfl
  unfold die at hs
  split at hs
  · rename_i hdie
    have hhand : TaskPc.inHand t.pc = [] := by
      cases hpc : t.pc with
      | hand error b => rw [hpc] at hdie; cases hdie.2
      | _ => rfl
    split at hs <;> cases hs
    · rename_i q hpc
      -- the mutex of the queue is lost, its events are not
      obtain ⟨rest, hkeep, hbalance⟩ := h.books
      have hv : ({ w with queues := w.queues.modify q fun o => { o with mutexLost := true } } : World).Accounts := by
        refine ⟨h.handler, h.calls, rest, ?_, hbalance⟩
        rcases hq : w.queues with _ | ⟨o, _ | ⟨o', l⟩⟩
        · rw [hq] at hkeep
          rw [List.modify_nil]
          exact hkeep
        · rw [hq] at hkeep
          cases q with
          | zero => exact hkeep
          | succ q => rw [List.modify_succ_cons, List.modify_nil]; exact hkeep
        · rw [hq] at hkeep; cases hkeep
      exact hv.gotoTask hpcs hhand rfl
    · exact h.gotoTask hpcs hhand rfl
  · cases hs

/-! ## Runs -/

theorem wake_accounts {w : World} (h : w.Accounts) (hsingle : w.Single) {q : Nat} {o : QueueObject} {t : Thread}
    {r : WaitResult} {cond : Waiters Thread Receiver} (ho : w.queues[q]? = some o)
    (hc : o.queue.cond.wake t r = some cond) : (w.setQueue q { o.queue with cond }).Accounts := by
  obtain ⟨rfl, hqueues⟩ := hsingle.queue_eq ho
  obtain ⟨rest, hkeep, hbalance⟩ := h.books
  refine ⟨h.handler, h.calls, rest, ?_, hbalance⟩
  rw [hqueues] at hkeep
  show Keeping rest (w.queues.modify 0 _)
  rw [hqueues]
  intro hdel
  have hx := hkeep hdel
  exact hx.withCond (hx.waits.wake hc)

theorem step_accounts {w w' : World} {a : Act} (h : w.Accounts) (hsingle : w.Single) (hsingle' : w'.Single)
    (hcond : w.NoTakeAfterDrain a) (hs : w.step a = some w') : w'.Accounts := by
  cases (step_advance hs).2 with
  | call api =>
    refine ⟨h.handler, fun k hk => ?_, h.books⟩
    rcases List.mem_append.1 hk with hk | hk
    · exact h.calls k hk
    · rw [List.mem_singleton.1 hk]
      cases api <;> trivial
  | start _ hs => exact serviceStart_accounts h hsingle' hs
  | stop _ hs => exact serviceStop_accounts h hs
  | notify hcall hs => exact serviceNotify_accounts h hsingle hcall hs
  | task ht hs => exact serviceMain_accounts h hsingle hcond ht hs
  | wake ho hwake => exact wake_accounts h hsingle ho hwake
  | die ht hs => exact die_accounts h hsingle ht hs
  | take | wakeTaker | retake => exact ⟨h.handler, h.calls, h.books⟩

/-- While no task takes a message after a draining loop has removed one, a queue overflow is fail-stop:
in every state of every run with one `Service_Start`, however many calls of `Service_Notify` and
`Service_Stop` there are. -/
theorem overflow_fail_stop (service : Service) (hhandler : service.handler = true) (acts : List Act)
    (hone : acts.count (.call .start) ≤ 1) (hcond : Meets step NoTakeAfterDrain (init service) acts) :
    Always step FailStop (init service) acts := by
  have hmeets := meets_and.2 ⟨startFirst_of_count service acts hone, hcond⟩
  refine always_of_meets (I := fun w => w.Single ∧ w.Accounts) (fun w hw => hw.2.failStop) ?_
    ⟨single_init service, accounts_init service hhandler⟩ hmeets
  rintro w a w' ⟨hsingle, hbooks⟩ ⟨hfirst, htake⟩ hs
  have hsingle' := single_step hsingle hfirst hs
  exact ⟨hsingle', step_accounts hbooks hsingle hsingle' htake hs⟩

/-- A call of `Service_Notify` that finds room, as call `c`. -/
def notifyCall (c : Nat) (event payload : UInt32) : List Act :=
  .call (.notify event payload) :: List.replicate 3 (.caller c plain)

/-- The service is started and gets more events than its queue holds, up to the first that its last
`Service_Notify` removes. -/
def overflowRun : List Act :=
  startCall 0 ++ ((List.range 21).flatMap fun n => notifyCall (n + 1) (UInt32.ofNat n) 0) ++
    List.replicate 2 (Act.caller 21 plain)

theorem overflow_fail_stop_overflowRun :
    (exec step (init handlerService) overflowRun).map (fun w => drainedEvents w.log) = some [⟨0, 0⟩] ∧
      Always step FailStop (init handlerService) overflowRun :=
  ⟨by decide +kernel, overflow_fail_stop handlerService rfl overflowRun (by decide +kernel) (by decide +kernel)⟩

/-- After the draining loop has removed the oldest event, the task handles the next one. -/
def skipRun : List Act := overflowRun ++ List.replicate 6 (Act.task 0 plain)

theorem overflow_skips_event :
    ¬ ∀ acts : List Act, acts.count (.call .start) ≤ 1 → Always step FailStop (init handlerService) acts := by
  intro h
  obtain ⟨w, hw⟩ := Option.isSome_iff_exists.1
    (show (exec step (init handlerService) skipRun).isSome = true by decide +kernel)
  have hdata : (exec step (init handlerService) skipRun).map (fun w =>
      (w.fault, drainedEvents w.log, handledEvents w.log, (acceptedEvents w.log).head?)) =
        some (none, [⟨0, 0⟩], [⟨1, 0⟩], some ⟨0, 0⟩) := by decide +kernel
  rw [hw, Option.map_some, Option.some.injEq] at hdata
  simp only [Prod.mk.injEq] at hdata
  obtain ⟨-, -, hhandled, hfirst⟩ := hdata
  -- the first event handled is not the first accepted
  obtain ⟨rest, hprefix⟩ := always_last (h skipRun (by decide +kernel)) hw
  rw [hhandled] at hprefix
  have hhead := congrArg List.head? hprefix
  rw [hfirst] at hhead
  cases hhead

end InfoWorkshop.Service.World
