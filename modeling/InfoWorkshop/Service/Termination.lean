/-
The termination section of `Service_Main` for the services of the repository: `SERVICE_DEFINE` leaves
their termination semaphore `NULL` and nothing sets it, so `Semaphore_Give` fails its assertion.
-/
import InfoWorkshop.Service.Frame
import InfoWorkshop.Service.Lifecycle

namespace InfoWorkshop.Service

open InfoWorkshop.Core InfoWorkshop.Posix InfoWorkshop.Steps

/-- A service as `SERVICE_DEFINE` declares it in the repository: the fields that are not named are zero. -/
def serviceDefine (setupHook teardownHook main handler : Bool) (timeoutMs taskStackSize : UInt64) : Service :=
  { taskPriority := 0, taskStackSize, queue := none, task := none, timeoutMs, state := .stopped
    setupHook, teardownHook, main, handler, terminationSemaphore := none }

/-- The termination section of `Service_Main`, with the sleep loop at its end. -/
def TaskPc.ending : TaskPc → Bool
  | .teardown | .inTeardown | .give | .deleteTask | .deleteQueue | .clearQueue | .asleep => true
  | _ => false

namespace World

/-- The step is one of a task at a point of `Service_Main` where `p` holds. -/
def taskAt (w : World) (p : TaskPc → Bool) : Act → Bool
  | .task i _ => w.tasks[i]?.any fun t => p t.pc
  | _ => false

/-- A step of the termination section violates no assertion and does not reboot. -/
def TerminationSafe (w : World) (a : Act) : Prop :=
  w.taskAt TaskPc.ending a = true →
    ∀ w', w.step a = some w' → w'.fault ≠ some .assertion ∧ w'.fault ≠ some .reboot

/-- The step is not the `Semaphore_Give` of a task. -/
def NoGive (w : World) (a : Act) : Prop := w.taskAt (· == .give) a = false

instance (w : World) (a : Act) : Decidable (w.NoGive a) := inferInstanceAs (Decidable (_ = _))

/-! ## Where the termination section can fail -/

theorem taskDelete_fault {w w' : World} {i : Nat} {self : TaskObject} (hw : w.fault = none)
    (hs : w.taskDelete i self = some w') : w'.fault ≠ some .assertion ∧ w'.fault ≠ some .reboot := by
  unfold taskDelete at hs
  split at hs
  · cases hs; simp [gotoTask, hw]
  · split at hs
    · cases hs
    · split at hs <;> cases hs
      · simp [crash]
      · simp [gotoTask, hw]

theorem queueDelete_fault {w w' : World} {i : Nat} (hw : w.fault = none) (hs : w.queueDelete i = some w') :
    w'.fault ≠ some .assertion ∧ w'.fault ≠ some .reboot := by
  unfold queueDelete at hs
  split at hs
  · cases hs; simp [gotoTask, hw]
  · split at hs
    · cases hs
    · split at hs <;> cases hs
      · simp [crash]
      · simp [gotoTask, hw]

/-- Only the `Semaphore_Give` can fail. -/
theorem ending_fault {w w' : World} {i : Nat} {self : TaskObject} (hw : w.fault = none)
    (hend : self.pc.ending = true) (hgive : self.pc ≠ .give) (hs : w.serviceMain i self ch = some w') :
    w'.fault ≠ some .assertion ∧ w'.fault ≠ some .reboot := by
  unfold serviceMain at hs
  cases hpc : self.pc with
  | teardown =>
    simp only [hpc] at hs
    split at hs <;> cases hs <;> simp [gotoTask, emit, hw]
  | inTeardown | clearQueue => simp only [hpc] at hs; cases hs; simp [gotoTask, hw]
  | asleep => simp only [hpc] at hs; cases hs; simp [hw]
  | give => exact absurd hpc hgive
  | deleteTask => simp only [hpc] at hs; exact taskDelete_fault hw hs
  | deleteQueue => simp only [hpc] at hs; exact queueDelete_fault hw hs
  | _ => rw [hpc] at hend; cases hend

/-- `Semaphore_Give(NULL)`. -/
theorem give_null {w : World} {i : Nat} {self : TaskObject} (hw : w.fault = none)
    (hnone : w.service.terminationSemaphore = none) (ht : w.tasks[i]? = some self) (hpc : self.pc = .give)
    (ch : Choice) : w.step (.task i ch) = some (w.crash .assertion) := by
  simp only [step, hw, advance, ht, serviceMain, hpc, hnone]

/-- Without a semaphore the termination section is safe up to its `Semaphore_Give`. -/
theorem terminationSafe_iff {w w' : World} {a : Act} (hnone : w.service.terminationSemaphore = none)
    (hs : w.step a = some w') : w.TerminationSafe a ↔ w.NoGive a := by
  obtain ⟨hfault, hadv⟩ := step_advance hs
  unfold TerminationSafe NoGive
  cases hadv with
  | @task i ch self w' ht hmain =>
    by_cases hgive : self.pc = .give
    · have hnull := give_null hfault hnone ht hgive ch
      constructor
      · intro hsafe
        exact absurd rfl (hsafe (by simp [taskAt, ht, hgive, TaskPc.ending]) _ hnull).1
      · intro hno
        simp [taskAt, ht, hgive] at hno
    · constructor
      · intro _
        simpa [taskAt, ht] using hgive
      · intro _ hend v hv
        rw [hs] at hv
        cases hv
        exact ending_fault hfault (by simpa [taskAt, ht] using hend) hgive hmain
  | _ => simp [taskAt]

/-! ## Every declared service can come to it -/

section Declared

variable (setupHook teardownHook main handler : Bool) (timeoutMs taskStackSize : UInt64)

/-- The service is started and stopped before its task begins, which then comes to `Semaphore_Give`. -/
def endRun (setupHook teardownHook : Bool) : List Act :=
  startCall 0 ++ stopCall 1 ++ List.replicate (4 + setupHook.toNat + teardownHook.toNat) (Act.task 0 plain)

/-- The task and the queue are there, the service is stopped. -/
theorem start_stop :
    exec step (init (serviceDefine setupHook teardownHook main handler timeoutMs taskStackSize))
      (startCall 0 ++ stopCall 1) = some
        { service :=
            { taskPriority := 1, taskStackSize := if taskStackSize = 0 then 4096 else taskStackSize
              queue := some 0, task := some 0, timeoutMs, state := .stopped
              setupHook, teardownHook, main, handler, terminationSemaphore := none }
          queues := [⟨Queue.allocate 20 8, false, false⟩]
          tasks := [⟨.entry, some 0, true, false⟩]
          calls := [.returned, .returned], fault := none, log := [.started, .stopped] } := by
  rfl

theorem endRun_give :
    (exec step (init (serviceDefine setupHook teardownHook main handler timeoutMs taskStackSize))
      (endRun setupHook teardownHook)).map
        (fun w => (w.fault, w.service.terminationSemaphore, w.tasks.map TaskObject.pc)) =
      some (none, none, [.give]) := by
  rw [endRun, exec_append (start_stop setupHook teardownHook main handler timeoutMs taskStackSize)]
  cases setupHook <;> cases teardownHook <;> cases main <;> rfl

/-- A run of a declared service is safe in its termination sections if and only if no task takes its
`Semaphore_Give` step, and every declared service has a run in which one does. -/
theorem termination_safe_iff_no_give :
    (∀ acts,
      Meets step TerminationSafe
        (init (serviceDefine setupHook teardownHook main handler timeoutMs taskStackSize)) acts ↔
      Meets step NoGive (init (serviceDefine setupHook teardownHook main handler timeoutMs taskStackSize)) acts) ∧
    ∃ acts, (exec step (init (serviceDefine setupHook teardownHook main handler timeoutMs taskStackSize))
        acts).isSome = true ∧
      ¬ Meets step TerminationSafe
        (init (serviceDefine setupHook teardownHook main handler timeoutMs taskStackSize)) acts := by
  constructor
  · intro acts
    exact meets_congr (I := fun w => w.service.terminationSemaphore = none)
      (fun w a w' hnone hs => (step_keeps hs).semaphore hnone)
      (fun w a w' hnone hs => terminationSafe_iff hnone hs) rfl acts
  · have hend := endRun_give setupHook teardownHook main handler timeoutMs taskStackSize
    obtain ⟨w, hw, hdata⟩ := Option.map_eq_some_iff.1 hend
    simp only [Prod.mk.injEq, List.map_eq_singleton_iff] at hdata
    obtain ⟨hfault, hnone, t, htasks, hpc⟩ := hdata
    have ht : w.tasks[0]? = some t := by rw [htasks]; rfl
    have hnull := give_null hfault hnone ht hpc plain
    refine ⟨endRun setupHook teardownHook ++ [.task 0 plain], ?_, ?_⟩
    · rw [exec_snoc hw hnull]
      rfl
    · intro hsafe
      exact absurd rfl (meets_last hsafe hw hnull (by simp [taskAt, ht, hpc, TaskPc.ending]) _ hnull).1

end Declared

/-- The network console: only its `main` and its stack size are named. -/
def serviceNetworkConsole : Service := serviceDefine false false true false 0 4096

/-- Its `main` returns, as it does without a socket, and its task comes to `Semaphore_Give`. -/
def consoleEndRun : List Act := startCall 0 ++ List.replicate 4 (Act.task 0 plain)

/-- The task ends in a failed assertion. -/
theorem console_end_crashes : ¬ ∀ acts, Meets step TerminationSafe (init serviceNetworkConsole) acts := by
  intro h
  obtain ⟨w, hw⟩ := Option.isSome_iff_exists.1
    (show (exec step (init serviceNetworkConsole) consoleEndRun).isSome = true by decide)
  have hend : (exec step (init serviceNetworkConsole) consoleEndRun).map
      (fun w => (w.fault, w.service.terminationSemaphore, w.tasks.map TaskObject.pc)) =
        some (none, none, [.give]) := by decide
  rw [hw, Option.map_some, Option.some.injEq] at hend
  simp only [Prod.mk.injEq, List.map_eq_singleton_iff] at hend
  obtain ⟨hfault, hnone, t, htasks, hpc⟩ := hend
  have ht : w.tasks[0]? = some t := by rw [htasks]; rfl
  have hnull := give_null hfault hnone ht hpc plain
  have hsafe := h (consoleEndRun ++ [.task 0 plain])
  exact absurd rfl (meets_last hsafe hw hnull (by simp [taskAt, ht, hpc, TaskPc.ending]) _ hnull).1

end World

end InfoWorkshop.Service
