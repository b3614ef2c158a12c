/-
When a service has at most one task, when it can be notified, and when a task that ends deletes its
own task and queue: for every service and any number of `Service_Start`, `Service_Stop` and
`Service_Notify` calls, in the runs whose steps all meet a condition. Without the condition each of
the three fails.
-/
import InfoWorkshop.Lib.Steps
import InfoWorkshop.Service.Simulation

namespace InfoWorkshop.Service.World

open InfoWorkshop.Core InfoWorkshop.Posix InfoWorkshop.Steps InfoWorkshop.Table

/-! ## What the lists say about the life -/

theorem forall_call {w : World} {P : CallStage → Prop} (h : ∀ k ∈ w.calls, P k.stage) (hidle : P .idle)
    (c : Nat) : P (w.life.call c) := table_forall h hidle c

theorem forall_stage {w : World} {P : Stage → Prop} (h : ∀ t ∈ w.tasks, P t.pc.stage)
    (habsent : P .absent) (i : Nat) : P (w.life.stage i) :=
  table_forall (f := fun t : TaskObject => t.pc.stage) h habsent i

theorem mem_call {w : World} {k : Call} (h : k ∈ w.calls) : ∃ c, w.life.call c = k.stage := by
  obtain ⟨c, hc⟩ := List.mem_iff_getElem?.1 h
  exact ⟨c, call_life hc⟩

/-- A stage other than `absent` is that of a task. -/
theorem task_of_stage {w : World} {i : Nat} (h : w.life.stage i ≠ .absent) :
    ∃ t, w.tasks[i]? = some t ∧ t.pc.stage = w.life.stage i :=
  table_mem (f := fun t : TaskObject => t.pc.stage) h

/-- A queue that has been created and not deleted. -/
def HasQueue (w : World) (h : Option Nat) : Prop :=
  ∃ q o, h = some q ∧ w.queues[q]? = some o ∧ o.deleted = false

theorem hasQueue_of_valid {w : World} {h : Option Nat} (hv : w.life.Valid h) : w.HasQueue h := by
  obtain ⟨q, rfl, hlt, hfree⟩ := hv
  have ho : w.queues[q]? = some w.queues[q] := List.getElem?_eq_getElem hlt
  refine ⟨q, _, rfl, ho, ?_⟩
  exact (table_eq (f := QueueObject.deleted) (d := false) ho).symm.trans hfree

theorem tidy_init (service : Service) : (init service).life.Tidy :=
  ⟨⟨fun _ _ h => (by cases h), fun _ _ h => (by cases h), fun _ _ h => (by cases h)⟩,
    fun _ _ h => (by cases h), fun _ h => (by cases h), fun _ => trivial, fun _ => trivial,
    fun _ h => (by cases h)⟩

/-! ## At most one task -/

/-- At most one task is between the entry of `Service_Main` and its final sleep loop. -/
def OneTask (w : World) : Prop := w.tasks.countP (fun t => t.pc.stage.active) ≤ 1

instance (w : World) : Decidable w.OneTask := inferInstanceAs (Decidable (_ ≤ 1))

/-- A `Service_Start` passes its check only while no other one is about to create a task and no task
is between the entry of `Service_Main` and its final sleep loop. -/
def StartAlone (w : World) (a : Act) : Prop :=
  match w.lifeAct a with
  | some (.pass _) => (∀ k ∈ w.calls, ¬ k.stage.creating) ∧ ∀ t ∈ w.tasks, ¬ t.pc.stage.active
  | _ => True

instance (w : World) (a : Act) : Decidable (w.StartAlone a) := by
  unfold StartAlone; split <;> infer_instance

theorem StartAlone.life {w : World} {a : Act} {b : Life.Act} (h : w.StartAlone a) (hb : w.lifeAct a = some b) :
    w.life.StartAlone b := by
  unfold StartAlone at h
  rw [hb] at h
  cases b with
  | pass c =>
    exact ⟨forall_call (P := fun k => ¬ k.creating) h.1 (by simp),
      forall_stage (P := fun s => ¬ s.active) h.2 (by simp)⟩
  | _ => trivial

theorem solo_step {w w' : World} {a : Act} (h : w.life.Solo) (hc : w.StartAlone a) (hs : w.step a = some w') :
    w'.life.Solo :=
  preserved (I := Life.Solo) h hs fun _ hb hstep => h.step (hc.life hb) hstep

theorem oneTask_of_solo {w : World} (h : w.life.Solo) : w.OneTask := by
  refine countP_le_one fun i j t u ht hu hactive hactive' => h.tasks i j ?_ ?_
  · rw [stage_life ht]; exact hactive
  · rw [stage_life hu]; exact hactive'

/-- At most one task per service, in every run in which a `Service_Start` passes its check only when
the task before has ended. -/
theorem one_task_of_startAlone (service : Service) (acts : List Act)
    (hc : Meets step StartAlone (init service) acts) : Always step OneTask (init service) acts :=
  always_of_meets (I := fun w => w.life.Solo) (fun _ => oneTask_of_solo) (fun _ _ _ => solo_step)
    (tidy_init service).toSolo hc

/-- A service with a handler, stopped. -/
def handlerService : Service :=
  { taskPriority := 0, taskStackSize := 0, queue := none, task := none, timeoutMs := 500, state := .stopped
    setupHook := false, teardownHook := false, main := false, handler := true
    terminationSemaphore := some ⟨true, .empty⟩ }

def plain : Choice := ⟨0, ⟨0, 0, Nat.succ_pos _⟩, true⟩

/-- A `Service_Start` from its call to its return, as call `c`. -/
def startCall (c : Nat) : List Act := Act.call .start :: List.replicate 10 (Act.caller c plain)

/-- A `Service_Stop` from its call to its return, as call `c`. -/
def stopCall (c : Nat) : List Act := Act.call .stop :: List.replicate 2 (Act.caller c plain)

/-- The service is started; its task comes to wait for an event, and while it waits the service is
stopped and started again. -/
def restartRun : List Act := startCall 0 ++ List.replicate 5 (.task 0 plain) ++ stopCall 1 ++ startCall 2

/-- Two tasks then run `Service_Main`. -/
theorem restart_makes_two_tasks : ¬ Always step OneTask (init handlerService) restartRun := by decide

/-- The service is started, its task comes to its final sleep loop after a `Service_Stop`, and only
then is the service started again. -/
def patientRun : List Act :=
  startCall 0 ++ List.replicate 5 (Act.task 0 plain) ++ stopCall 1 ++ [Act.wake 0 (.task 0) .timedOut] ++
    List.replicate 9 (Act.task 0 plain) ++ startCall 2

theorem one_task_patientRun : Always step OneTask (init handlerService) patientRun ∧
    (exec step (init handlerService) patientRun).isSome = true :=
  ⟨one_task_of_startAlone handlerService patientRun (by decide), by decide⟩

/-! ## A service that is not stopped can be notified -/

/-- What the users of a service rely on. -/
structure Notifiable (w : World) : Prop where
  /-- With no `Service_Start` in progress, a service that is not stopped has a queue, and a live task
  that has not come to its termination section. -/
  served : w.service.state ≠ .stopped → (∀ k ∈ w.calls, ¬ k.stage.inProgress) →
    w.HasQueue w.service.queue ∧ ∃ t ∈ w.tasks, t.pc.stage = .working ∧ t.deleted = false
  /-- `Service_Notify` calls `Queue_Send` on a queue that exists. -/
  sends : ∀ e h, .notify (.send e h) ∈ w.calls → w.HasQueue h
  /-- With no `Service_Start` in progress and no task before its termination section, a
  `Service_Start` passes its check. -/
  restarts : w.fault = none → (∀ k ∈ w.calls, ¬ k.stage.inProgress) →
    (∀ t ∈ w.tasks, t.pc.stage ≠ .working) → ∀ c ch, w.calls[c]? = some (.start .check) →
    w.step (.caller c ch) = some (w.goto c (.start .setRunning))

/-- A `Service_Start` passes its check only while no other one is in progress and no task is between
the entry of `Service_Main` and its final sleep loop; a task leaves `main` or its event loop only when
the service is stopped; a `Service_Notify` passes its check only while no `Service_Start` has yet to
make sure of its queue; `Queue_Delete` is called only while no `Service_Notify` has yet to send. -/
def Orderly (w : World) (a : Act) : Prop :=
  match w.lifeAct a with
  | some (.pass _) => (∀ k ∈ w.calls, ¬ k.stage.inProgress) ∧ ∀ t ∈ w.tasks, ¬ t.pc.stage.active
  | some (.leave _) => w.service.state = .stopped
  | some (.notify _) => ∀ k ∈ w.calls, ¬ k.stage.preparing
  | some (.deleteQueue _) => ∀ k ∈ w.calls, ¬ k.stage.pending
  | _ => True

instance (w : World) (a : Act) : Decidable (w.Orderly a) := by
  unfold Orderly; split <;> infer_instance

theorem Orderly.life {w : World} {a : Act} {b : Life.Act} (h : w.Orderly a) (hb : w.lifeAct a = some b) :
    w.life.Orderly b := by
  unfold Orderly at h
  rw [hb] at h
  cases b with
  | pass c =>
    exact ⟨forall_call (P := fun k => ¬ k.inProgress) h.1 (by simp),
      forall_stage (P := fun s => ¬ s.active) h.2 (by simp)⟩
  | leave i => exact decide_eq_true h
  | notify c => exact forall_call (P := fun k => ¬ k.preparing) h (by simp)
  | deleteQueue i => exact forall_call (P := fun k => ¬ k.pending) h (by simp)
  | _ => trivial

theorem served_step {w w' : World} {a : Act} (h : w.life.Served) (hc : w.Orderly a) (hs : w.step a = some w') :
    w'.life.Served :=
  preserved (I := Life.Served) h hs fun _ hb hstep => h.step (hc.life hb) hstep

theorem served_init (service : Service) : (init service).life.Served :=
  ⟨tidy_init service, fun h => (by cases h), fun _ h => (by cases h), fun _ h => (by cases h),
    fun _ _ h => (by cases h)⟩

/-- With no `Service_Start` in progress, what runs is a task. -/
theorem working_of_running {w : World} (h : w.life.Served) (hrun : w.service.state ≠ .stopped)
    (hcalls : ∀ k ∈ w.calls, ¬ k.stage.inProgress) : ∃ i, w.life.stage i = .working := by
  have hnone := forall_call (P := fun k => ¬ k.inProgress) hcalls (by simp)
  rcases h.running (decide_eq_false hrun) with ⟨c, hc, -⟩ | hi
  · exact absurd (Life.inProgress_of_creating hc) (hnone c)
  · exact hi

theorem notifiable_of_served {w : World} (h : w.life.Served) : w.Notifiable := by
  refine ⟨fun hrun hcalls => ?_, fun e q hmem => ?_, fun hfault hcalls htasks c ch hc => ?_⟩
  · obtain ⟨i, hi⟩ := working_of_running h hrun hcalls
    obtain ⟨t, ht, hstage⟩ := task_of_stage (w := w) (i := i) (by rw [hi]; simp)
    obtain ⟨-, hq, hdel⟩ : w.life.TaskOk i .working := hi ▸ h.stages i
    refine ⟨hasQueue_of_valid hq, t, List.mem_of_getElem? ht, hstage.trans hi, ?_⟩
    exact (table_eq (f := TaskObject.deleted) (d := false) ht).symm.trans hdel
  · obtain ⟨c, hc⟩ := mem_call hmem
    exact hasQueue_of_valid (h.sending c q hc)
  · have hstop : w.service.state = .stopped := by
      by_contra hrun
      obtain ⟨i, hi⟩ := working_of_running h hrun hcalls
      obtain ⟨t, ht, hstage⟩ := task_of_stage (w := w) (i := i) (by rw [hi]; simp)
      exact htasks t (List.mem_of_getElem? ht) (hstage.trans hi)
    simp only [step, hfault, advance, hc, serviceStart, hstop]
    rfl

/-- A service that is not stopped can be notified, in every run whose steps are orderly. -/
theorem notifiable_of_orderly (service : Service) (acts : List Act)
    (hc : Meets step Orderly (init service) acts) : Always step Notifiable (init service) acts :=
  always_of_meets (I := fun w => w.life.Served) (fun _ => notifiable_of_served)
    (fun _ _ _ => served_step) (served_init service) hc

/-- A service with a `main`, stopped. -/
def mainService : Service := { handlerService with main := true, handler := false }

/-- The service is started and its `main` returns. -/
def mainReturnsRun : List Act := startCall 0 ++ List.replicate 3 (.task 0 plain)

/-- The service then counts as running, with no task to serve it. -/
theorem main_returns_not_notifiable : ¬ Always step Notifiable (init mainService) mainReturnsRun := by
  intro h
  obtain ⟨w, hw⟩ := Option.isSome_iff_exists.1
    (show (exec step (init mainService) mainReturnsRun).isSome = true by decide)
  have hend : (exec step (init mainService) mainReturnsRun).map
      (fun w => (w.service.state, w.calls, w.tasks.map TaskObject.pc)) =
        some (.running, [.returned], [.teardown]) := by decide
  rw [hw] at hend
  simp only [Option.map_some, Option.some.injEq, Prod.mk.injEq] at hend
  obtain ⟨hrun, hcalls, htasks⟩ := hend
  obtain ⟨-, t, ht, hstage, -⟩ := (always_last h hw).served (by simp [hrun]) (by simp [hcalls, Call.stage])
  have hpc : t.pc ∈ [TaskPc.teardown] := htasks ▸ List.mem_map_of_mem ht
  rw [List.mem_singleton.1 hpc] at hstage
  cases hstage

/-- The patient run with a `Service_Notify` in the middle. -/
def notifyRun : List Act :=
  startCall 0 ++ [Act.call (.notify 1 2)] ++ List.replicate 3 (Act.caller 1 plain) ++
    List.replicate 5 (Act.task 0 plain) ++ stopCall 2 ++ List.replicate 8 (Act.task 0 plain) ++ startCall 3

theorem notifiable_notifyRun : Always step Notifiable (init handlerService) notifyRun ∧
    (exec step (init handlerService) notifyRun).isSome = true :=
  ⟨notifiable_of_orderly handlerService notifyRun (by decide), by decide⟩

/-! ## A task that ends deletes its own task and queue -/

/-- A task that comes to `Task_Delete(service->task)` or to `Queue_Delete(service->queue)` finds its
own task there, and the queue that its `Service_Start` created, neither deleted yet. -/
structure DeletesOwn (w : World) : Prop where
  task : ∀ (i : Nat) (t : TaskObject), w.tasks[i]? = some t → t.pc = .deleteTask →
    w.service.task = some i ∧ t.deleted = false
  queue : ∀ (i : Nat) (t : TaskObject), w.tasks[i]? = some t → t.pc = .deleteQueue →
    w.service.queue = t.queue ∧ w.HasQueue t.queue

/-- A `Service_Start` passes its check only while no other one is in progress and no task is between
the entry of `Service_Main` and its final sleep loop; a task gives the termination semaphore only while
no `Service_Start` has yet to store the handle of a task it has created. -/
def HandleFirst (w : World) (a : Act) : Prop :=
  match w.lifeAct a with
  | some (.pass _) => (∀ k ∈ w.calls, ¬ k.stage.inProgress) ∧ ∀ t ∈ w.tasks, ¬ t.pc.stage.active
  | some (.give _) => ∀ k ∈ w.calls, ¬ k.stage.storing
  | _ => True

instance (w : World) (a : Act) : Decidable (w.HandleFirst a) := by
  unfold HandleFirst; split <;> infer_instance

theorem HandleFirst.life {w : World} {a : Act} {b : Life.Act} (h : w.HandleFirst a)
    (hb : w.lifeAct a = some b) : w.life.HandleFirst b := by
  unfold HandleFirst at h
  rw [hb] at h
  cases b with
  | pass c =>
    exact ⟨forall_call (P := fun k => ¬ k.inProgress) h.1 (by simp),
      forall_stage (P := fun s => ¬ s.active) h.2 (by simp)⟩
  | give i => exact forall_call (P := fun k => ¬ k.storing) h (by simp)
  | _ => trivial

theorem stored_step {w w' : World} {a : Act} (h : w.life.Stored) (hc : w.HandleFirst a) (hs : w.step a = some w') :
    w'.life.Stored :=
  preserved (I := Life.Stored) h hs fun _ hb hstep => h.step (hc.life hb) hstep

theorem deletesOwn_of_stored {w : World} (h : w.life.Stored) : w.DeletesOwn := by
  refine ⟨fun i t ht hpc => ?_, fun i t ht hpc => ?_⟩
  · have hstage : w.life.stage i = .deleteTask := (stage_life ht).trans (by rw [hpc]; rfl)
    obtain ⟨htask, hdel⟩ := h.deleteTask hstage
    exact ⟨htask, (table_eq (f := TaskObject.deleted) (d := false) ht).symm.trans hdel⟩
  · have hstage : w.life.stage i = .deleteQueue := (stage_life ht).trans (by rw [hpc]; rfl)
    obtain ⟨hown, hq⟩ := h.deleteQueue hstage
    have hqueue : w.life.queue = t.queue := hown.trans (table_eq ht)
    exact ⟨hqueue, hasQueue_of_valid (hqueue ▸ hq)⟩

/-- A terminating task deletes its own task and its own queue, in every run whose steps all meet
`HandleFirst`. -/
theorem deletesOwn_of_handleFirst (service : Service) (acts : List Act)
    (hc : Meets step HandleFirst (init service) acts) : Always step DeletesOwn (init service) acts :=
  always_of_meets (I := fun w => w.life.Stored) (fun _ => deletesOwn_of_stored) (fun _ _ _ => stored_step)
    ⟨tidy_init service, fun _ h => (by cases h)⟩ hc

/-- `Service_Start` has created the task and has not stored its handle; `main` returns at once and the
task comes to `Task_Delete(service->task)`. -/
def earlyEndRun : List Act :=
  Act.call .start :: List.replicate 7 (Act.caller 0 plain) ++ List.replicate 5 (Act.task 0 plain)

/-- The handle it reads there is `NULL`. -/
theorem early_end_deletes_null : ¬ Always step DeletesOwn (init mainService) earlyEndRun := by
  intro h
  obtain ⟨w, hw⟩ := Option.isSome_iff_exists.1
    (show (exec step (init mainService) earlyEndRun).isSome = true by decide)
  have hend : (exec step (init mainService) earlyEndRun).map
      (fun w => (w.service.task, w.tasks[0]?.map TaskObject.pc)) = some (none, some .deleteTask) := by decide
  rw [hw] at hend
  simp only [Option.map_some, Option.some.injEq, Prod.mk.injEq, Option.map_eq_some_iff] at hend
  obtain ⟨hnull, t, ht, hpc⟩ := hend
  have hown := ((always_last h hw).task 0 t ht hpc).1
  rw [hnull] at hown
  cases hown

theorem deletesOwn_patientRun : Always step DeletesOwn (init handlerService) patientRun ∧
    (exec step (init handlerService) patientRun).isSome = true :=
  ⟨deletesOwn_of_handleFirst handlerService patientRun (by decide), by decide⟩

end InfoWorkshop.Service.World
