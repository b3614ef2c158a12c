/-
`core/service.c` over the POSIX adapters: one service, any number of threads calling
`Service_Start`, `Service_Stop` and `Service_Notify` on it, and the tasks that run `Service_Main`.
A step is one access to the shared service, one mutex-held section of a queue or of the semaphore,
or the begin or the end of a hook.
-/
import InfoWorkshop.Core.Service
import InfoWorkshop.Posix.Queue

namespace InfoWorkshop.Service

open InfoWorkshop.Core InfoWorkshop.Memory InfoWorkshop.Posix InfoWorkshop.CondVar

/-- The threads that wait in the queues of the service: its tasks and the calls. -/
inductive Thread
  | task (i : Nat)
  | call (c : Nat)
  deriving DecidableEq, Repr

/-- A queue created by `Service_Start`. `mutexLost` when a cancelled thread has died inside
`pthread_cond_timedwait`, which leaves the mutex locked for good. -/
structure QueueObject where
  queue : Queue Thread
  deleted : Bool
  mutexLost : Bool
  deriving DecidableEq, Repr

/-- Where a task is in `Service_Main`. -/
inductive TaskPc
  | entry
  | inSetup
  | body
  | inMain
  | loopTest
  | load
  | receive (queue : Option Nat)
  | wait (queue : Option Nat)
  | hand (error : ErrorCode) (event : Bytes)
  | inHandler
  | teardown
  | inTeardown
  | give
  | deleteTask
  | deleteQueue
  | clearQueue
  | asleep
  | ended
  deriving DecidableEq, Repr

/-- A task created by `Service_Start`, with the queue which that call created. It is `registered`
while it has a slot in `TASKS`; `deleted` when `Task_Delete` has freed it and cancelled its thread. -/
structure TaskObject where
  pc : TaskPc
  queue : Option Nat
  registered : Bool
  deleted : Bool
  deriving DecidableEq, Repr

/-- Where a call of `Service_Start` is. The argument of `storeTask` is what `Task_Create` returns. -/
inductive StartPc
  | check
  | setRunning
  | setDefaults
  | newQueue
  | storeQueue (queue : Option Nat)
  | checkQueue (queue : Option Nat)
  | createTask (queue : Option Nat)
  | register (task : Nat)
  | storeTask (task : Option Nat)
  | checkTask (task : Option Nat)
  deriving DecidableEq, Repr

inductive StopPc
  | check
  | setStopped
  deriving DecidableEq, Repr

/-- Where a call of `Service_Notify` is. After an error it holds the bytes of `serviceEvent`, which
the draining loop overwrites, and the error of `Queue_Send`. -/
inductive NotifyPc
  | check (event : ServiceEvent)
  | load (event : ServiceEvent)
  | send (event : ServiceEvent) (queue : Option Nat)
  | drainLoad (event : Bytes) (error : ErrorCode)
  | drainReceive (event : Bytes) (error : ErrorCode) (queue : Option Nat)
  | drainWait (error : ErrorCode) (queue : Option Nat)
  | reboot (error : ErrorCode)
  deriving DecidableEq, Repr

inductive Call
  | start (pc : StartPc)
  | stop (pc : StopPc)
  | notify (pc : NotifyPc)
  | returned
  deriving DecidableEq, Repr

/-- What ends the program: a failed `assert`, `abort()` through a `REBOOT` macro, or a use of freed
memory, after which nothing is known. -/
inductive Fault
  | assertion
  | reboot
  | undefined
  deriving DecidableEq, Repr

/-- What has happened. `handled` carries the result of the `Queue_Receive` before the handler. -/
inductive Event
  | started
  | stopped
  | accepted (event : ServiceEvent)
  | overflow
  | drained (event : ServiceEvent)
  | setup
  | main
  | handled (error : ErrorCode) (event : ServiceEvent)
  | teardown
  | given
  deriving DecidableEq, Repr

structure World where
  service : Service
  queues : List QueueObject
  tasks : List TaskObject
  calls : List Call
  fault : Option Fault
  log : List Event
  deriving DecidableEq, Repr

/-- A service as `SERVICE_DEFINE` declares it: no queue, no task, stopped. -/
def World.init (service : Service) : World :=
  { service := { service with queue := none, task := none, state := .stopped }
    queues := [], tasks := [], calls := [], fault := none, log := [] }

/-- What the environment decides in a step: the thread that a signal wakes, the clock reading,
whether a resource can be had. -/
structure Choice where
  pick : Nat
  tv : Timeval
  ok : Bool
  deriving DecidableEq, Repr

/-- The calls of the interface. -/
inductive Api
  | start
  | stop
  | notify (event payload : UInt32)
  deriving DecidableEq, Repr

/-- The first step of a call. -/
def Api.enter : Api → Call
  | .start => .start .check
  | .stop => .stop .check
  | .notify event payload => .notify (.check ⟨event, payload⟩)

/-- The steps: a new call, a step of a call or of a task, the end of a wait in a queue, the death of
a cancelled task, and the steps of threads that take the termination semaphore. -/
inductive Act
  | call (api : Api)
  | caller (c : Nat) (ch : Choice)
  | task (i : Nat) (ch : Choice)
  | wake (q : Nat) (t : Thread) (r : WaitResult)
  | die (i : Nat)
  | take (t : Nat) (timeoutMs : UInt64) (tv now : Timeval)
  | wakeTaker (t : Nat) (r : WaitResult)
  | retake (t : Nat) (now : Timeval)
  deriving DecidableEq, Repr

namespace World

/-! ## Small updates -/

def goto (w : World) (c : Nat) (call : Call) : World := { w with calls := w.calls.set c call }

def gotoTask (w : World) (i : Nat) (pc : TaskPc) : World :=
  { w with tasks := w.tasks.modify i fun t => { t with pc } }

def emit (w : World) (e : Event) : World := { w with log := w.log ++ [e] }

def crash (w : World) (f : Fault) : World := { w with fault := some f }

def setQueue (w : World) (q : Nat) (queue : Queue Thread) : World :=
  { w with queues := w.queues.modify q fun o => { o with queue } }

def setSemaphore (w : World) (sem : Semaphore Nat) : World :=
  { w with service := { w.service with terminationSemaphore := some sem } }

/-- A section of a queue function on the handle `h`: `NULL` fails the assertion, a deleted queue is
freed memory, and behind a lost mutex the thread stays blocked. -/
def onQueue (w : World) (h : Option Nat) (body : Nat → Queue Thread → Option World) : Option World :=
  match h with
  | none => some (w.crash .assertion)
  | some q =>
    match w.queues[q]? with
    | none => none
    | some o =>
      if o.deleted then some (w.crash .undefined)
      else if o.mutexLost then none
      else body q o.queue

/-! ## The calls -/

/-- `Service_Start`. -/
def serviceStart (w : World) (c : Nat) (ch : Choice) : StartPc → Option World
  | .check =>
    if w.service.state ≠ .stopped then some (w.goto c .returned)
    else some (w.goto c (.start .setRunning))
  | .setRunning =>
    some ({ w with service := { w.service with state := .running } }.goto c (.start .setDefaults))
  | .setDefaults =>
    let taskStackSize := if w.service.taskStackSize = 0 then 4096 else w.service.taskStackSize
    let taskPriority := if w.service.taskPriority = 0 then 1 else w.service.taskPriority
    some ({ w with service := { w.service with taskStackSize, taskPriority } }.goto c (.start .newQueue))
  | .newQueue =>
    match Queue.new SERVICE_QUEUE_SIZE sizeofServiceEvent ch.ok ch.ok with
    | none => some (w.goto c (.start (.storeQueue none)))
    | some queue =>
      some ({ w with queues := w.queues ++ [(⟨queue, false, false⟩ : QueueObject)] }.goto c
        (.start (.storeQueue (some w.queues.length))))
  | .storeQueue queue =>
    some ({ w with service := { w.service with queue } }.goto c (.start (.checkQueue queue)))
  | .checkQueue queue =>
    -- the macro reads the field again, which need not hold what this call has stored
    if w.service.queue = none then some (w.crash .reboot)
    else some (w.goto c (.start (.createTask queue)))
  | .createTask queue =>
    if ch.ok then
      some ({ w with tasks := w.tasks ++ [(⟨.entry, queue, false, false⟩ : TaskObject)] }.goto c
        (.start (.register w.tasks.length)))
    else some (w.goto c (.start (.storeTask none)))
  | .register task =>
    -- `TASKS` is shared with the other tasks of the program and may be full
    some ({ w with tasks := w.tasks.modify task fun t => { t with registered := ch.ok } }.goto c
      (.start (.storeTask (some task))))
  | .storeTask task =>
    some ({ w with service := { w.service with task } }.goto c (.start (.checkTask task)))
  | .checkTask _ =>
    if w.service.task = none then some (w.crash .reboot)
    else some ((w.emit .started).goto c .returned)

/-- `Service_Stop`. -/
def serviceStop (w : World) (c : Nat) : StopPc → Option World
  | .check =>
    if w.service.state = .stopped then some (w.goto c .returned)
    else some (w.goto c (.stop .setStopped))
  | .setStopped =>
    some (({ w with service := { w.service with state := .stopped } }.emit .stopped).goto c .returned)

/-- What the draining loop of `Service_Notify` does with the result of its `Queue_Receive`. -/
def drained (w : World) (c : Nat) (error : ErrorCode) (ret : ErrorCode × Bytes) : World :=
  if ret.1 = .success then
    (w.emit (.drained (.ofBytes ret.2))).goto c (.notify (.drainLoad ret.2 error))
  else w.goto c (.notify (.reboot error))

/-- `Service_Notify`. -/
def serviceNotify (w : World) (c : Nat) (ch : Choice) : NotifyPc → Option World
  | .check event =>
    if w.service.state ≠ .stopped then some (w.goto c (.notify (.load event)))
    else some (w.goto c .returned)
  | .load event => some (w.goto c (.notify (.send event w.service.queue)))
  | .send event h =>
    w.onQueue h fun q queue =>
      let (error, queue) := queue.send event.toBytes ch.pick
      let w := w.setQueue q queue
      if error ≠ .success then
        some ((w.emit .overflow).goto c (.notify (.drainLoad event.toBytes error)))
      else some ((w.emit (.accepted event)).goto c .returned)
  | .drainLoad event error => some (w.goto c (.notify (.drainReceive event error w.service.queue)))
  | .drainReceive event error h =>
    w.onQueue h fun q queue =>
      match queue.receive (.call c) event 10 ch.tv with
      | (none, queue) => some ((w.setQueue q queue).goto c (.notify (.drainWait error h)))
      | (some ret, queue) => some ((w.setQueue q queue).drained c error ret)
  | .drainWait error h =>
    w.onQueue h fun q queue =>
      match queue.resume (.call c) with
      | none => none
      | some (ret, queue) => some ((w.setQueue q queue).drained c error ret)
  | .reboot error =>
    if error ≠ .success then some (w.crash .reboot) else some (w.goto c .returned)

/-! ## The task -/

/-- The task that `Task_Delete(service->task)`, called by task `i`, deletes: with a `NULL` handle the
calling one, if `Task_GetSelf` finds it. -/
def deleteTarget (w : World) (i : Nat) (self : TaskObject) : Option Nat :=
  match w.service.task with
  | some j => some j
  | none => if self.registered then some i else none

/-- `Task_Delete(service->task)` called by task `i`. -/
def taskDelete (w : World) (i : Nat) (self : TaskObject) : Option World :=
  match w.deleteTarget i self with
  | none => some (w.gotoTask i .deleteQueue)
  | some j =>
    match w.tasks[j]? with
    | none => none
    | some t =>
      if t.deleted then some (w.crash .undefined)
      else
        some ({ w with tasks := w.tasks.modify j fun t => { t with registered := false, deleted := true } }.gotoTask
          i .deleteQueue)

/-- `Queue_Delete(service->queue)` called by task `i`. -/
def queueDelete (w : World) (i : Nat) : Option World :=
  match w.service.queue with
  | none => some (w.gotoTask i .clearQueue)
  | some q =>
    match w.queues[q]? with
    | none => none
    | some o =>
      if o.deleted then some (w.crash .undefined)
      else
        some ({ w with queues := w.queues.modify q fun o =>
          { o with deleted := true, queue := { o.queue with heap := o.queue.delete } } }.gotoTask
            i .clearQueue)

/-- `Service_Main`, as task `i`. -/
def serviceMain (w : World) (i : Nat) (self : TaskObject) (ch : Choice) : Option World :=
  match self.pc with
  | .entry =>
    if w.service.setupHook then some ((w.emit .setup).gotoTask i .inSetup) else some (w.gotoTask i .body)
  | .inSetup => some (w.gotoTask i .body)
  | .body =>
    if w.service.main then some ((w.emit .main).gotoTask i .inMain) else some (w.gotoTask i .loopTest)
  | .inMain => some (w.gotoTask i .teardown)
  | .loopTest =>
    if w.service.state = .running then some (w.gotoTask i .load) else some (w.gotoTask i .teardown)
  | .load => some (w.gotoTask i (.receive w.service.queue))
  | .receive h =>
    w.onQueue h fun q queue =>
      match queue.receive (.task i) timeoutEvent.toBytes w.service.timeoutMs ch.tv with
      | (none, queue) => some ((w.setQueue q queue).gotoTask i (.wait h))
      | (some ret, queue) => some ((w.setQueue q queue).gotoTask i (.hand ret.1 ret.2))
  | .wait h =>
    w.onQueue h fun q queue =>
      match queue.resume (.task i) with
      | none => none
      | some (ret, queue) => some ((w.setQueue q queue).gotoTask i (.hand ret.1 ret.2))
  | .hand error event =>
    if w.service.handler then some ((w.emit (.handled error (.ofBytes event))).gotoTask i .inHandler)
    else some (w.gotoTask i .loopTest)
  | .inHandler => some (w.gotoTask i .loopTest)
  | .teardown =>
    if w.service.teardownHook then some ((w.emit .teardown).gotoTask i .inTeardown)
    else some (w.gotoTask i .give)
  | .inTeardown => some (w.gotoTask i .give)
  | .give =>
    match w.service.terminationSemaphore with
    | none => some (w.crash .assertion)
    | some sem =>
      let (error, sem) := sem.give ch.pick
      let w := w.setSemaphore sem
      if error ≠ .success then some (w.crash .reboot)
      else some ((w.emit .given).gotoTask i .deleteTask)
  | .deleteTask => w.taskDelete i self
  | .deleteQueue => w.queueDelete i
  | .clearQueue => some ({ w with service := { w.service with queue := none } }.gotoTask i .asleep)
  | .asleep => some w
  | .ended => none

/-- Where a cancelled task can die: where it writes to the log, in a hook, in
`pthread_cond_timedwait`, asleep. -/
def cancelPoint : TaskPc → Bool
  | .entry | .inSetup | .inMain | .wait _ | .inHandler | .teardown | .inTeardown | .deleteTask
  | .asleep => true
  | _ => false

/-- The death of the cancelled task `i`. A thread cancelled in `pthread_cond_timedwait` dies with the
mutex locked. -/
def die (w : World) (i : Nat) (self : TaskObject) : Option World :=
  if self.deleted = true ∧ cancelPoint self.pc = true then
    match self.pc with
    | .wait (some q) =>
      some ({ w with queues := w.queues.modify q fun o => { o with mutexLost := true } }.gotoTask i .ended)
    | _ => some (w.gotoTask i .ended)
  else none

/-! ## Steps -/

/-- One step of a program that has not ended. -/
def advance (w : World) : Act → Option World
  | .call api => some { w with calls := w.calls ++ [api.enter] }
  | .caller c ch =>
    match w.calls[c]? with
    | some (.start pc) => w.serviceStart c ch pc
    | some (.stop pc) => w.serviceStop c pc
    | some (.notify pc) => w.serviceNotify c ch pc
    | _ => none
  | .task i ch =>
    match w.tasks[i]? with
    | some self => w.serviceMain i self ch
    | none => none
  | .wake q t r =>
    match w.queues[q]? with
    | some o =>
      match o.queue.cond.wake t r with
      | some cond => some (w.setQueue q { o.queue with cond })
      | none => none
    | none => none
  | .die i =>
    match w.tasks[i]? with
    | some self => w.die i self
    | none => none
  | .take t timeoutMs tv now =>
    match w.service.terminationSemaphore with
    | some sem => some (w.setSemaphore (sem.take t timeoutMs tv now).2)
    | none => none
  | .wakeTaker t r =>
    match w.service.terminationSemaphore with
    | some sem =>
      match sem.cond.wake t r with
      | some cond => some (w.setSemaphore { sem with cond })
      | none => none
    | none => none
  | .retake t now =>
    match w.service.terminationSemaphore with
    | some sem =>
      match sem.resume t now with
      | some (_, sem) => some (w.setSemaphore sem)
      | none => none
    | none => none

/-- One step. After a fault there is none. -/
def step (w : World) (a : Act) : Option World :=
  match w.fault with
  | none => w.advance a
  | some _ => none

/-! ## What a step can do -/

/-- The steps, each with what it finds and what it does. -/
inductive Advance (w : World) : Act → World → Prop
  | call (api : Api) : Advance w (.call api) { w with calls := w.calls ++ [api.enter] }
  | start {c : Nat} {ch : Choice} {pc : StartPc} {w' : World} : w.calls[c]? = some (.start pc) →
      w.serviceStart c ch pc = some w' → Advance w (.caller c ch) w'
  | stop {c : Nat} {ch : Choice} {pc : StopPc} {w' : World} : w.calls[c]? = some (.stop pc) →
      w.serviceStop c pc = some w' → Advance w (.caller c ch) w'
  | notify {c : Nat} {ch : Choice} {pc : NotifyPc} {w' : World} : w.calls[c]? = some (.notify pc) →
      w.serviceNotify c ch pc = some w' → Advance w (.caller c ch) w'
  | task {i : Nat} {ch : Choice} {self : TaskObject} {w' : World} : w.tasks[i]? = some self →
      w.serviceMain i self ch = some w' → Advance w (.task i ch) w'
  | wake {q : Nat} {t : Thread} {r : WaitResult} {o : QueueObject} {cond : Waiters Thread Receiver} :
      w.queues[q]? = some o → o.queue.cond.wake t r = some cond →
      Advance w (.wake q t r) (w.setQueue q { o.queue with cond })
  | die {i : Nat} {self : TaskObject} {w' : World} : w.tasks[i]? = some self → w.die i self = some w' →
      Advance w (.die i) w'
  | take {t : Nat} {timeoutMs : UInt64} {tv now : Timeval} {sem : Semaphore Nat} :
      w.service.terminationSemaphore = some sem →
      Advance w (.take t timeoutMs tv now) (w.setSemaphore (sem.take t timeoutMs tv now).2)
  | wakeTaker {t : Nat} {r : WaitResult} {sem : Semaphore Nat} {cond : Waiters Nat Taker} :
      w.service.terminationSemaphore = some sem → sem.cond.wake t r = some cond →
      Advance w (.wakeTaker t r) (w.setSemaphore { sem with cond })
  | retake {t : Nat} {now : Timeval} {sem sem' : Semaphore Nat} {ret : Option ErrorCode} :
      w.service.terminationSemaphore = some sem → sem.resume t now = some (ret, sem') →
      Advance w (.retake t now) (w.setSemaphore sem')

theorem advance_cases {w w' : World} {a : Act} (hs : w.advance a = some w') : w.Advance a w' := by
  cases a with
  | call api => cases hs; exact .call api
  | caller c ch =>
    simp only [advance] at hs
    split at hs
    · exact .start ‹_› hs
    · exact .stop ‹_› hs
    · exact .notify ‹_› hs
    · cases hs
  | task i ch =>
    simp only [advance] at hs
    split at hs
    · exact .task ‹_› hs
    · cases hs
  | wake q t r =>
    simp only [advance] at hs
    split at hs
    · split at hs <;> cases hs
      exact .wake ‹_› ‹_›
    · cases hs
  | die i =>
    simp only [advance] at hs
    split at hs
    · exact .die ‹_› hs
    · cases hs
  | take t timeoutMs tv now =>
    simp only [advance] at hs
    split at hs <;> cases hs
    exact .take ‹_›
  | wakeTaker t r =>
    simp only [advance] at hs
    split at hs
    · split at hs <;> cases hs
      exact .wakeTaker ‹_› ‹_›
    · cases hs
  | retake t now =>
    simp only [advance] at hs
    split at hs
    · split at hs <;> cases hs
      exact .retake ‹_› ‹_›
    · cases hs

theorem step_advance {w w' : World} {a : Act} (hs : w.step a = some w') : w.fault = none ∧ w.Advance a w' := by
  unfold step at hs
  split at hs
  · exact ⟨‹_›, advance_cases hs⟩
  · cases hs

/-! ## The log only grows -/

theorem log_emit (w : World) (e : Event) : w.log <+: (w.emit e).log := List.prefix_append _ _

theorem onQueue_log {w w' : World} {h : Option Nat} {body : Nat → Queue Thread → Option World}
    (hs : w.onQueue h body = some w') (hbody : ∀ q queue, body q queue = some w' → w.log <+: w'.log) :
    w.log <+: w'.log := by
  unfold onQueue at hs
  split at hs
  · cases hs; exact List.prefix_rfl
  · split at hs
    · cases hs
    · split at hs
      · cases hs; exact List.prefix_rfl
      · split at hs
        · cases hs
        · exact hbody _ _ hs

theorem serviceStart_log {w w' : World} {c : Nat} {ch : Choice} {pc : StartPc}
    (hs : w.serviceStart c ch pc = some w') : w.log <+: w'.log := by
  cases pc with
  | check | checkQueue | createTask | newQueue =>
    simp only [serviceStart] at hs
    split at hs <;> cases hs <;> exact List.prefix_rfl
  | checkTask t =>
    simp only [serviceStart] at hs
    split at hs <;> cases hs
    · exact List.prefix_rfl
    · exact log_emit w _
  | _ => cases hs; exact List.prefix_rfl

theorem serviceStop_log {w w' : World} {c : Nat} {pc : StopPc} (hs : w.serviceStop c pc = some w') :
    w.log <+: w'.log := by
  cases pc with
  | check =>
    simp only [serviceStop] at hs
    split at hs <;> cases hs <;> exact List.prefix_rfl
  | setStopped => cases hs; exact log_emit w _

theorem drained_log (w : World) (c : Nat) (error : ErrorCode) (ret : ErrorCode × Bytes) :
    w.log <+: (w.drained c error ret).log := by
  unfold drained
  split
  · exact log_emit w _
  · exact List.prefix_rfl

theorem serviceNotify_log {w w' : World} {c : Nat} {ch : Choice} {pc : NotifyPc}
    (hs : w.serviceNotify c ch pc = some w') : w.log <+: w'.log := by
  cases pc with
  | check | reboot =>
    simp only [serviceNotify] at hs
    split at hs <;> cases hs <;> exact List.prefix_rfl
  | load | drainLoad => cases hs; exact List.prefix_rfl
  | send e q =>
    simp only [serviceNotify] at hs
    refine onQueue_log hs fun i queue hbody => ?_
    split at hbody <;> cases hbody <;> exact log_emit w _
  | drainReceive b error q =>
    simp only [serviceNotify] at hs
    refine onQueue_log hs fun i queue hbody => ?_
    split at hbody <;> cases hbody
    · exact List.prefix_rfl
    · exact drained_log (w.setQueue i _) c error _
  | drainWait error q =>
    simp only [serviceNotify] at hs
    refine onQueue_log hs fun i queue hbody => ?_
    split at hbody <;> cases hbody
    exact drained_log (w.setQueue i _) c error _

theorem taskDelete_log {w w' : World} {i : Nat} {self : TaskObject} (hs : w.taskDelete i self = some w') :
    w.log <+: w'.log := by
  unfold taskDelete at hs
  split at hs
  · cases hs; exact List.prefix_rfl
  · split at hs
    · cases hs
    · split at hs <;> cases hs <;> exact List.prefix_rfl

theorem queueDelete_log {w w' : World} {i : Nat} (hs : w.queueDelete i = some w') : w.log <+: w'.log := by
  unfold queueDelete at hs
  split at hs
  · cases hs; exact List.prefix_rfl
  · split at hs
    · cases hs
    · split at hs <;> cases hs <;> exact List.prefix_rfl

theorem serviceMain_log {w w' : World} {i : Nat} {self : TaskObject} {ch : Choice}
    (hs : w.serviceMain i self ch = some w') : w.log <+: w'.log := by
  unfold serviceMain at hs
  cases hpc : self.pc with
  | entry | body | hand | teardown =>
    simp only [hpc] at hs
    split at hs <;> cases hs
    · exact log_emit w _
    · exact List.prefix_rfl
  | loopTest =>
    simp only [hpc] at hs
    split at hs <;> cases hs <;> exact List.prefix_rfl
  | receive q =>
    simp only [hpc] at hs
    refine onQueue_log hs fun i queue hbody => ?_
    split at hbody <;> cases hbody <;> exact List.prefix_rfl
  | wait q =>
    simp only [hpc] at hs
    refine onQueue_log hs fun i queue hbody => ?_
    split at hbody <;> cases hbody
    exact List.prefix_rfl
  | give =>
    simp only [hpc] at hs
    split at hs
    · cases hs; exact List.prefix_rfl
    · split at hs <;> cases hs
      · exact List.prefix_rfl
      · exact log_emit w _
  | deleteTask => simp only [hpc] at hs; exact taskDelete_log hs
  | deleteQueue => simp only [hpc] at hs; exact queueDelete_log hs
  | ended => simp only [hpc] at hs; cases hs
  | _ => simp only [hpc] at hs; cases hs; exact List.prefix_rfl

theorem die_log {w w' : World} {i : Nat} {self : TaskObject} (hs : w.die i self = some w') : w.log <+: w'.log := by
  unfold die at hs
  split at hs
  · split at hs <;> cases hs <;> exact List.prefix_rfl
  · cases hs

theorem step_log {w w' : World} {a : Act} (hs : w.step a = some w') : w.log <+: w'.log := by
  cases (step_advance hs).2 with
  | start _ hs => exact serviceStart_log hs
  | stop _ hs => exact serviceStop_log hs
  | notify _ hs => exact serviceNotify_log hs
  | task _ hs => exact serviceMain_log hs
  | die _ hs => exact die_log hs
  | _ => exact List.prefix_rfl

end World

end InfoWorkshop.Service
