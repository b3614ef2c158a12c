/-
`core/service.c` over the ESP32 adapters. FreeRTOS is no part of the repository: the environment decides
whether a queue, a task, room or a message can be had; of `vTaskDelete` it is used that it ends the task it
is given, the calling one for `NULL`, and does not come back to a caller that it has ended.
-/
import InfoWorkshop.Lib.Steps
import InfoWorkshop.Lib.Table
import InfoWorkshop.Service.World

namespace InfoWorkshop.Esp32.ServiceTasks

open InfoWorkshop.Core InfoWorkshop.Memory InfoWorkshop.Posix InfoWorkshop.Service InfoWorkshop.Steps
  InfoWorkshop.Table

/-- A FreeRTOS task that runs `Service_Main`, with the queue which its `Service_Start` created; it is
`ended` once it has been deleted. -/
structure Task where
  pc : TaskPc
  queue : Option Nat
  deriving DecidableEq, Repr

/-- The service, the queues created for it (`true` once passed to `vQueueDelete`), its tasks and the calls. -/
structure Device where
  service : Service
  queues : List Bool
  tasks : List Task
  calls : List Call
  fault : Option Fault
  deriving DecidableEq, Repr

/-- What FreeRTOS does in a step: whether the call succeeds, and the bytes it receives. -/
structure Choice where
  ok : Bool
  received : Bytes
  deriving DecidableEq, Repr

inductive Act
  | call (api : Api)
  | caller (c : Nat) (ch : Choice)
  | task (i : Nat) (ch : Choice)
  deriving DecidableEq, Repr

namespace Device

def init (service : Service) : Device :=
  { service := { service with queue := none, task := none, state := .stopped }
    queues := [], tasks := [], calls := [], fault := none }

def goto (d : Device) (c : Nat) (call : Call) : Device := { d with calls := d.calls.set c call }

def gotoTask (d : Device) (i : Nat) (pc : TaskPc) : Device :=
  { d with tasks := d.tasks.modify i fun t => { t with pc } }

def crash (d : Device) (f : Fault) : Device := { d with fault := some f }

/-- A queue function on the handle `h`: `NULL` fails the assertion, a deleted queue is freed memory. -/
def onQueue (d : Device) (h : Option Nat) (next : Device) : Option Device :=
  match h with
  | none => some (d.crash .assertion)
  | some q =>
    match d.queues[q]? with
    | none => none
    | some deleted => if deleted then some (d.crash .undefined) else some next

/-! ## The calls -/

/-- `Service_Start`. There is no table of tasks to register in. -/
def serviceStart (d : Device) (c : Nat) (ch : Choice) : StartPc → Option Device
  | .check =>
    if d.service.state ≠ .stopped then some (d.goto c .returned)
    else some (d.goto c (.start .setRunning))
  | .setRunning =>
    some ({ d with service := { d.service with state := .running } }.goto c (.start .setDefaults))
  | .setDefaults =>
    let taskStackSize := if d.service.taskStackSize = 0 then 4096 else d.service.taskStackSize
    let taskPriority := if d.service.taskPriority = 0 then 1 else d.service.taskPriority
    some ({ d with service := { d.service with taskStackSize, taskPriority } }.goto c (.start .newQueue))
  | .newQueue =>
    if ch.ok then
      some ({ d with queues := d.queues ++ [false] }.goto c (.start (.storeQueue (some d.queues.length))))
    else some (d.goto c (.start (.storeQueue none)))
  | .storeQueue queue =>
    some ({ d with service := { d.service with queue } }.goto c (.start (.checkQueue queue)))
  | .checkQueue queue =>
    if d.service.queue = none then some (d.crash .reboot)
    else some (d.goto c (.start (.createTask queue)))
  | .createTask queue =>
    if ch.ok then
      some ({ d with tasks := d.tasks ++ [(⟨.entry, queue⟩ : Task)] }.goto c
        (.start (.storeTask (some d.tasks.length))))
    else some (d.goto c (.start (.storeTask none)))
  | .register _ => none
  | .storeTask task =>
    some ({ d with service := { d.service with task } }.goto c (.start (.checkTask task)))
  | .checkTask _ =>
    if d.service.task = none then some (d.crash .reboot) else some (d.goto c .returned)

/-- `Service_Stop`. -/
def serviceStop (d : Device) (c : Nat) : StopPc → Option Device
  | .check =>
    if d.service.state = .stopped then some (d.goto c .returned)
    else some (d.goto c (.stop .setStopped))
  | .setStopped => some ({ d with service := { d.service with state := .stopped } }.goto c .returned)

/-- `Service_Notify`. `Queue_Send` and `Queue_Receive` are one step each, and fail with `FAILURE`. -/
def serviceNotify (d : Device) (c : Nat) (ch : Choice) : NotifyPc → Option Device
  | .check event =>
    if d.service.state ≠ .stopped then some (d.goto c (.notify (.load event)))
    else some (d.goto c .returned)
  | .load event => some (d.goto c (.notify (.send event d.service.queue)))
  | .send event h =>
    d.onQueue h (if ch.ok then d.goto c .returned else d.goto c (.notify (.drainLoad event.toBytes .failure)))
  | .drainLoad event error => some (d.goto c (.notify (.drainReceive event error d.service.queue)))
  | .drainReceive _ error h =>
    d.onQueue h (if ch.ok then d.goto c (.notify (.drainLoad ch.received error))
      else d.goto c (.notify (.reboot error)))
  | .drainWait _ _ => none
  | .reboot error =>
    if error ≠ .success then some (d.crash .reboot) else some (d.goto c .returned)

/-! ## The task -/

/-- `Task_Delete(service->task)` called by task `i`. -/
def taskDelete (d : Device) (i : Nat) : Option Device :=
  match d.service.task with
  | none => some (d.gotoTask i .ended)
  | some j =>
    if j = i then some (d.gotoTask i .ended)
    else
      match d.tasks[j]? with
      | none => none
      | some t =>
        if t.pc = .ended then some (d.crash .undefined)
        else some ((d.gotoTask j .ended).gotoTask i .deleteQueue)

/-- `Queue_Delete(service->queue)` called by task `i`. -/
def queueDelete (d : Device) (i : Nat) : Option Device :=
  match d.service.queue with
  | none => some (d.gotoTask i .clearQueue)
  | some q =>
    match d.queues[q]? with
    | none => none
    | some deleted =>
      if deleted then some (d.crash .undefined)
      else some ({ d with queues := d.queues.set q true }.gotoTask i .clearQueue)

/-- `Service_Main`, as task `i`. -/
def serviceMain (d : Device) (i : Nat) (self : Task) (ch : Choice) : Option Device :=
  match self.pc with
  | .entry => if d.service.setupHook then some (d.gotoTask i .inSetup) else some (d.gotoTask i .body)
  | .inSetup => some (d.gotoTask i .body)
  | .body => if d.service.main then some (d.gotoTask i .inMain) else some (d.gotoTask i .loopTest)
  | .inMain => some (d.gotoTask i .teardown)
  | .loopTest =>
    if d.service.state = .running then some (d.gotoTask i .load) else some (d.gotoTask i .teardown)
  | .load => some (d.gotoTask i (.receive d.service.queue))
  | .receive h =>
    d.onQueue h (if ch.ok then d.gotoTask i (.hand .success ch.received)
      else d.gotoTask i (.hand .failure timeoutEvent.toBytes))
  | .wait _ => none
  | .hand _ _ => if d.service.handler then some (d.gotoTask i .inHandler) else some (d.gotoTask i .loopTest)
  | .inHandler => some (d.gotoTask i .loopTest)
  | .teardown =>
    if d.service.teardownHook then some (d.gotoTask i .inTeardown) else some (d.gotoTask i .give)
  | .inTeardown => some (d.gotoTask i .give)
  | .give =>
    match d.service.terminationSemaphore with
    | none => some (d.crash .assertion)
    | some _ => if ch.ok then some (d.gotoTask i .deleteTask) else some (d.crash .reboot)
  | .deleteTask => d.taskDelete i
  | .deleteQueue => d.queueDelete i
  | .clearQueue => some ({ d with service := { d.service with queue := none } }.gotoTask i .asleep)
  | .asleep => some d
  | .ended => none

/-! ## Steps -/

def advance (d : Device) : Act → Option Device
  | .call api => some { d with calls := d.calls ++ [api.enter] }
  | .caller c ch =>
    match d.calls[c]? with
    | some (.start pc) => d.serviceStart c ch pc
    | some (.stop pc) => d.serviceStop c pc
    | some (.notify pc) => d.serviceNotify c ch pc
    | _ => none
  | .task i ch =>
    match d.tasks[i]? with
    | some self => d.serviceMain i self ch
    | none => none

/-- One step. After a fault there is none. -/
def step (d : Device) (a : Act) : Option Device :=
  match d.fault with
  | none => d.advance a
  | some _ => none

/-! ## What a step does -/

/-- A call of `Service_Start` that may still create a task. -/
def mayCreate : Call → Bool
  | .start (.register _) | .start (.storeTask _) | .start (.checkTask _) => false
  | .start _ => true
  | _ => false

/-- What a step of call `c` does to the calls, the tasks, the queues and the handle of the task. -/
structure CallStep (d : Device) (c : Nat) (d' : Device) : Prop where
  calls : d'.calls = d.calls ∨ ∃ k, d'.calls = d.calls.set c k ∧
    (mayCreate k = true → ∃ k₀, d.calls[c]? = some k₀ ∧ mayCreate k₀ = true) ∧
    ∀ j, k = .start (.storeTask (some j)) → j < d'.tasks.length
  tasks : d'.tasks = d.tasks ∨ ∃ q n, d.calls[c]? = some (.start (.createTask q)) ∧
    d'.tasks = d.tasks ++ [⟨.entry, q⟩] ∧ d'.calls = d.calls.set c (.start (.storeTask n))
  queues : ∀ b ∈ d'.queues, b ∈ d.queues ∨ b = false
  handle : d'.service.task = d.service.task ∨ d.calls[c]? = some (.start (.storeTask d'.service.task))

theorem CallStep.crash (d : Device) (c : Nat) (f : Fault) : d.CallStep c (d.crash f) :=
  ⟨.inl rfl, .inl rfl, fun _ => .inl, .inl rfl⟩

/-- The call goes on, and nothing is created. -/
theorem CallStep.goto {d v : Device} {c : Nat} {k : Call}
    (hk : mayCreate k = true → ∃ k₀, d.calls[c]? = some k₀ ∧ mayCreate k₀ = true)
    (hstore : ∀ j, k ≠ .start (.storeTask (some j))) (hcalls : v.calls = d.calls) (htasks : v.tasks = d.tasks)
    (hqueues : ∀ b ∈ v.queues, b ∈ d.queues ∨ b = false)
    (hhandle : v.service.task = d.service.task ∨ d.calls[c]? = some (.start (.storeTask v.service.task))) :
    d.CallStep c (v.goto c k) :=
  ⟨.inr ⟨k, by rw [← hcalls]; rfl, hk, fun j hj => absurd hj (hstore j)⟩, .inl htasks, hqueues, hhandle⟩

theorem onQueue_callStep {d d' next : Device} {c : Nat} {h : Option Nat} (hs : d.onQueue h next = some d')
    (hnext : d.CallStep c next) : d.CallStep c d' := by
  unfold onQueue at hs
  split at hs
  · cases hs; exact .crash d c _
  · split at hs
    · cases hs
    · split at hs <;> cases hs
      · exact .crash d c _
      · exact hnext

theorem serviceStart_callStep {d d' : Device} {c : Nat} {ch : Choice} {pc : StartPc}
    (h : d.calls[c]? = some (.start pc)) (hs : d.serviceStart c ch pc = some d') : d.CallStep c d' := by
  cases pc with
  | check =>
    simp only [serviceStart] at hs
    split at hs <;> cases hs
    · exact .goto (by rintro ⟨⟩) (by rintro j ⟨⟩) rfl rfl (fun _ => .inl) (.inl rfl)
    · exact .goto (fun _ => ⟨_, h, rfl⟩) (by rintro j ⟨⟩) rfl rfl (fun _ => .inl) (.inl rfl)
  | setRunning | setDefaults | storeQueue =>
    cases hs
    exact .goto (fun _ => ⟨_, h, rfl⟩) (by rintro j ⟨⟩) rfl rfl (fun _ => .inl) (.inl rfl)
  | newQueue =>
    simp only [serviceStart] at hs
    split at hs <;> cases hs
    · refine .goto (fun _ => ⟨_, h, rfl⟩) (by rintro j ⟨⟩) rfl rfl (fun b hb => ?_) (.inl rfl)
      rcases List.mem_append.1 hb with hb | hb
      · exact .inl hb
      · exact .inr (List.mem_singleton.1 hb)
    · exact .goto (fun _ => ⟨_, h, rfl⟩) (by rintro j ⟨⟩) rfl rfl (fun _ => .inl) (.inl rfl)
  | checkQueue q =>
    simp only [serviceStart] at hs
    split at hs <;> cases hs
    · exact .crash d c _
    · exact .goto (fun _ => ⟨_, h, rfl⟩) (by rintro j ⟨⟩) rfl rfl (fun _ => .inl) (.inl rfl)
  | createTask q =>
    simp only [serviceStart] at hs
    split at hs <;> cases hs
    · refine ⟨.inr ⟨_, rfl, by rintro ⟨⟩, ?_⟩, .inr ⟨q, _, h, rfl, rfl⟩, fun _ => .inl, .inl rfl⟩
      rintro j hj
      cases hj
      show d.tasks.length < (d.tasks ++ [_]).length
      simp
    · exact .goto (by rintro ⟨⟩) (by rintro j ⟨⟩) rfl rfl (fun _ => .inl) (.inl rfl)
  | register t => cases hs
  | storeTask t =>
    cases hs
    exact .goto (by rintro ⟨⟩) (by rintro j ⟨⟩) rfl rfl (fun _ => .inl) (.inr h)
  | checkTask t =>
    simp only [serviceStart] at hs
    split at hs <;> cases hs
    · exact .crash d c _
    · exact .goto (by rintro ⟨⟩) (by rintro j ⟨⟩) rfl rfl (fun _ => .inl) (.inl rfl)

theorem serviceStop_callStep {d d' : Device} {c : Nat} {pc : StopPc} (hs : d.serviceStop c pc = some d') :
    d.CallStep c d' := by
  cases pc with
  | check =>
    simp only [serviceStop] at hs
    split at hs <;> cases hs <;>
      exact .goto (by rintro ⟨⟩) (by rintro j ⟨⟩) rfl rfl (fun _ => .inl) (.inl rfl)
  | setStopped =>
    cases hs
    exact .goto (by rintro ⟨⟩) (by rintro j ⟨⟩) rfl rfl (fun _ => .inl) (.inl rfl)

theorem serviceNotify_callStep {d d' : Device} {c : Nat} {ch : Choice} {pc : NotifyPc}
    (hs : d.serviceNotify c ch pc = some d') : d.CallStep c d' := by
  have hquiet : ∀ k : Call, mayCreate k = false → (∀ j, k ≠ .start (.storeTask (some j))) →
      d.CallStep c (d.goto c k) := fun k hk hstore =>
    .goto (fun hk' => by rw [hk] at hk'; cases hk') hstore rfl rfl (fun _ => .inl) (.inl rfl)
  cases pc with
  | check e =>
    simp only [serviceNotify] at hs
    split at hs <;> cases hs <;> exact hquiet _ rfl (by rintro j ⟨⟩)
  | load | drainLoad => cases hs; exact hquiet _ rfl (by rintro j ⟨⟩)
  | send e q | drainReceive e error q =>
    refine onQueue_callStep hs ?_
    split <;> exact hquiet _ rfl (by rintro j ⟨⟩)
  | drainWait error q => cases hs
  | reboot error =>
    simp only [serviceNotify] at hs
    split at hs <;> cases hs
    · exact .crash d c _
    · exact hquiet _ rfl (by rintro j ⟨⟩)

theorem caller_callStep {d d' : Device} {c : Nat} {ch : Choice} (hs : d.advance (.caller c ch) = some d') :
    d.CallStep c d' := by
  simp only [advance] at hs
  split at hs
  · exact serviceStart_callStep ‹_› hs
  · exact serviceStop_callStep hs
  · exact serviceNotify_callStep hs
  · cases hs

/-- What a step of task `i` at `pc` does: it gets past `Task_Delete` only when the handle is another
task's, and deletes a queue only past it. -/
structure TaskStep (d : Device) (i : Nat) (pc : TaskPc) (d' : Device) : Prop where
  calls : d'.calls = d.calls
  handle : d'.service.task = d.service.task
  tasks : d'.tasks.length = d.tasks.length
  passed : ∀ (j : Nat) (t : Task), d'.tasks[j]? = some t → t.pc = .deleteQueue →
    (∃ u, d.tasks[j]? = some u ∧ u.pc = .deleteQueue) ∨ ∃ k, d.service.task = some k ∧ k ≠ i
  queues : d'.queues = d.queues ∨ pc = .deleteQueue

theorem TaskStep.crash (d : Device) (i : Nat) (pc : TaskPc) (f : Fault) : d.TaskStep i pc (d.crash f) :=
  ⟨rfl, rfl, rfl, fun _ t ht hpc => .inl ⟨t, ht, hpc⟩, .inl rfl⟩

theorem gotoTask_getElem? {d : Device} {i j : Nat} {pc : TaskPc} {t : Task}
    (ht : (d.gotoTask i pc).tasks[j]? = some t) (hpc : t.pc ≠ pc) : d.tasks[j]? = some t := by
  unfold gotoTask at ht
  rw [List.getElem?_modify] at ht
  obtain ⟨u, hu, heq⟩ := Option.map_eq_some_iff.1 ht
  split at heq
  · subst heq
    exact absurd rfl hpc
  · exact hu.trans (congrArg some heq)

/-- The task goes to a point other than `Queue_Delete`. -/
theorem TaskStep.goto {d v : Device} {i : Nat} {pc pc' : TaskPc} (hpc : pc' ≠ .deleteQueue)
    (hcalls : v.calls = d.calls) (hhandle : v.service.task = d.service.task) (htasks : v.tasks = d.tasks)
    (hqueues : v.queues = d.queues ∨ pc = .deleteQueue) : d.TaskStep i pc (v.gotoTask i pc') := by
  refine ⟨hcalls, hhandle, ?_, fun j t ht heq => .inl ⟨t, ?_, heq⟩, hqueues⟩
  · rw [gotoTask, List.length_modify, htasks]
  · rw [← htasks]
    exact gotoTask_getElem? ht (by rw [heq]; exact hpc.symm)

theorem onQueue_taskStep {d d' next : Device} {i : Nat} {pc : TaskPc} {h : Option Nat}
    (hs : d.onQueue h next = some d') (hnext : d.TaskStep i pc next) : d.TaskStep i pc d' := by
  unfold onQueue at hs
  split at hs
  · cases hs; exact .crash d i pc _
  · split at hs
    · cases hs
    · split at hs <;> cases hs
      · exact .crash d i pc _
      · exact hnext

theorem taskDelete_taskStep {d d' : Device} {i : Nat} {pc : TaskPc} (hs : d.taskDelete i = some d') :
    d.TaskStep i pc d' := by
  unfold taskDelete at hs
  split at hs
  · cases hs; exact .goto (by simp) rfl rfl rfl (.inl rfl)
  · rename_i j htask
    split at hs
    · cases hs; exact .goto (by simp) rfl rfl rfl (.inl rfl)
    · rename_i hother
      split at hs
      · cases hs
      · split at hs <;> cases hs
        · exact .crash d i pc _
        · refine ⟨rfl, rfl, ?_, fun _ _ _ _ => .inr ⟨j, htask, hother⟩, .inl rfl⟩
          simp [gotoTask]

theorem serviceMain_taskStep {d d' : Device} {i : Nat} {self : Task} {ch : Choice}
    (hs : d.serviceMain i self ch = some d') : d.TaskStep i self.pc d' := by
  unfold serviceMain at hs
  cases hpc : self.pc with
  | entry | body | loopTest | hand | teardown =>
    simp only [hpc] at hs
    split at hs <;> cases hs <;> exact .goto (by simp) rfl rfl rfl (.inl rfl)
  | inSetup | inMain | load | inHandler | inTeardown | clearQueue =>
    simp only [hpc] at hs
    cases hs
    exact .goto (by simp) rfl rfl rfl (.inl rfl)
  | receive q =>
    simp only [hpc] at hs
    refine onQueue_taskStep hs ?_
    split <;> exact .goto (by simp) rfl rfl rfl (.inl rfl)
  | give =>
    simp only [hpc] at hs
    split at hs
    · cases hs; exact .crash d i _ _
    · split at hs <;> cases hs
      · exact .goto (by simp) rfl rfl rfl (.inl rfl)
      · exact .crash d i _ _
  | deleteTask => simp only [hpc] at hs; exact taskDelete_taskStep hs
  | deleteQueue =>
    simp only [hpc, queueDelete] at hs
    split at hs
    · cases hs; exact .goto (by simp) rfl rfl rfl (.inl rfl)
    · split at hs
      · cases hs
      · split at hs <;> cases hs
        · exact .crash d i _ _
        · exact .goto (by simp) rfl rfl rfl (.inr rfl)
  | asleep =>
    simp only [hpc] at hs
    cases hs
    exact ⟨rfl, rfl, rfl, fun _ t ht h => .inl ⟨t, ht, h⟩, .inl rfl⟩
  | wait | ended => simp only [hpc] at hs; cases hs

theorem step_advance {d d' : Device} {a : Act} (hs : d.step a = some d') : d.advance a = some d' := by
  unfold step at hs
  split at hs
  · exact hs
  · cases hs

/-! ## One `Service_Start` -/

/-- The tasks created, those that calls may still create, and the calls of `Service_Start` to come. -/
def creations (d : Device) (acts : List Act) : Nat :=
  d.tasks.length + d.calls.countP mayCreate + acts.count (.call .start)

theorem creations_step {d d' : Device} {a : Act} (hs : d.step a = some d') (acts : List Act) :
    creations d' acts ≤ creations d (a :: acts) := by
  have hs := step_advance hs
  unfold creations
  have hcount : acts.count (.call .start) ≤ (a :: acts).count (.call .start) := List.count_le_count_cons
  cases a with
  | call api =>
    cases hs
    rw [List.countP_append, List.count_cons]
    cases api <;> simp [Api.enter, mayCreate]
    omega
  | caller c ch =>
    have hstep := caller_callStep hs
    rcases hstep.tasks with htasks | ⟨q, n, hc, htasks, hcalls⟩
    · rw [htasks]
      rcases hstep.calls with hcalls | ⟨k, hcalls, hk, -⟩
      · rw [hcalls]; omega
      · rw [hcalls]
        have hle := countP_set_le (l := d.calls) (c := c) hk
        omega
    · -- the call that creates the task can create no other
      have hlt := countP_set_lt (l := d.calls) (c := c) (p := mayCreate) (a := .start (.storeTask n)) rfl hc rfl
      rw [htasks, hcalls, List.length_append, List.length_singleton]
      omega
  | task i ch =>
    simp only [advance] at hs
    split at hs
    · have hstep := serviceMain_taskStep hs
      rw [hstep.calls, hstep.tasks]
      omega
    · cases hs

/-- While the service has had one task at most, nobody has got past `Task_Delete`. -/
structure Alone (d : Device) : Prop where
  handle : ∀ j, d.service.task = some j → j < d.tasks.length
  stores : ∀ c j : Nat, d.calls[c]? = some (.start (.storeTask (some j))) → j < d.tasks.length
  passed : ∀ (i : Nat) (t : Task), d.tasks[i]? = some t → t.pc ≠ .deleteQueue
  queues : ∀ b ∈ d.queues, b = false

theorem alone_init (service : Service) : (init service).Alone :=
  ⟨fun _ h => (by cases h), fun _ _ h => (by cases h), fun _ _ h => (by cases h), fun _ h => (by cases h)⟩

theorem Alone.step {d d' : Device} {a : Act} (h : d.Alone) (hone : d.tasks.length ≤ 1) (hs : d.step a = some d') :
    d'.Alone := by
  have hs := step_advance hs
  cases a with
  | call api =>
    cases hs
    refine ⟨h.handle, fun c j hc => ?_, h.passed, h.queues⟩
    rcases Nat.lt_or_ge c d.calls.length with hlt | hge
    · exact h.stores c j (List.getElem?_append_left hlt ▸ hc)
    · have hmem := List.mem_of_getElem? (List.getElem?_append_right hge ▸ hc :
        [api.enter][c - d.calls.length]? = _)
      cases api <;> simp [Api.enter] at hmem
  | caller c ch =>
    have hstep := caller_callStep hs
    have hle : d.tasks.length ≤ d'.tasks.length := by
      rcases hstep.tasks with htasks | ⟨q, n, -, htasks, -⟩
      · exact Nat.le_of_eq (congrArg _ htasks.symm)
      · rw [htasks, List.length_append]
        exact Nat.le_add_right _ _
    refine ⟨fun j hj => ?_, fun c' j hc' => ?_, fun i t ht => ?_, fun b hb => ?_⟩
    · rcases hstep.handle with hhandle | hstore
      · exact Nat.lt_of_lt_of_le (h.handle j (hhandle ▸ hj)) hle
      · exact Nat.lt_of_lt_of_le (h.stores c j (hj ▸ hstore)) hle
    · rcases hstep.calls with hcalls | ⟨k, hcalls, -, hstore⟩
      · exact Nat.lt_of_lt_of_le (h.stores c' j (hcalls ▸ hc')) hle
      · rw [hcalls, List.getElem?_set] at hc'
        split at hc'
        · split at hc' <;> cases hc'
          exact hstore j rfl
        · exact Nat.lt_of_lt_of_le (h.stores c' j hc') hle
    · rcases hstep.tasks with htasks | ⟨q, n, -, htasks, -⟩
      · exact h.passed i t (htasks ▸ ht)
      · have hmem := List.mem_of_getElem? (htasks ▸ ht)
        rcases List.mem_append.1 hmem with hmem | hmem
        · obtain ⟨j, hj⟩ := List.mem_iff_getElem?.1 hmem
          exact h.passed j t hj
        · rw [List.mem_singleton.1 hmem]
          simp
    · rcases hstep.queues b hb with hb | hb
      · exact h.queues b hb
      · exact hb
  | task i ch =>
    simp only [advance] at hs
    split at hs
    · rename_i self ht
      have hstep := serviceMain_taskStep hs
      have hi : i < d.tasks.length := (List.getElem?_eq_some_iff.1 ht).1
      refine ⟨fun j hj => ?_, fun c j hc => ?_, fun j t ht' hpc => ?_, fun b hb => ?_⟩
      · rw [hstep.tasks]
        exact h.handle j (hstep.handle ▸ hj)
      · rw [hstep.tasks]
        exact h.stores c j (hstep.calls ▸ hc)
      · rcases hstep.passed j t ht' hpc with ⟨u, hu, hupc⟩ | ⟨k, hk, hne⟩
        · exact h.passed j u hu hupc
        · -- the handle can only be that of the one task
          have hlt := h.handle k hk
          omega
      · rcases hstep.queues with hqueues | hpc
        · exact h.queues b (hqueues ▸ hb)
        · exact absurd hpc (h.passed i self ht)
    · cases hs

/-- With one `Service_Start` at most no queue is ever deleted. -/
theorem queues_kept (service : Service) (acts : List Act) (hone : acts.count (.call .start) ≤ 1) {d : Device}
    (h : exec step (init service) acts = some d) : ∀ b ∈ d.queues, b = false := by
  have hinv := exec_rest_invariant (I := fun d acts => d.Alone ∧ creations d acts ≤ 1) (fun d a acts d' hI hs => ?_)
    ⟨alone_init service, ?_⟩ h
  · exact hinv.1.queues
  · obtain ⟨halone, hle⟩ := hI
    refine ⟨halone.step ?_ hs, Nat.le_trans (creations_step hs acts) hle⟩
    unfold creations at hle
    omega
  · simpa [creations, init] using hone

/-- The queue `h` has been passed to `Queue_Delete`. -/
def queueDeleted (d : Device) (h : Option Nat) : Bool := (h.bind (d.queues[·]?)).any id

theorem queueDeleted_eq_false (service : Service) (acts : List Act) (hone : acts.count (.call .start) ≤ 1)
    {d : Device} (hd : exec step (init service) acts = some d) (h : Option Nat) : d.queueDeleted h = false := by
  unfold queueDeleted
  rcases hq : h.bind (d.queues[·]?) with _ | b
  · rfl
  · obtain ⟨q, -, hb⟩ := Option.bind_eq_some_iff.1 hq
    exact queues_kept service acts hone hd b (List.mem_of_getElem? hb)

end Device

end InfoWorkshop.Esp32.ServiceTasks
