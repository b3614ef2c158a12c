/-
What the termination of a service leaves behind, over the POSIX and over the ESP32 task adapter: the
POSIX `Task_Delete` of the calling task comes back, the ESP32 one does not.
-/
import InfoWorkshop.Esp32.ServiceTasks
import InfoWorkshop.Service.Single

namespace InfoWorkshop.Service

open InfoWorkshop.Core InfoWorkshop.Posix InfoWorkshop.Steps InfoWorkshop.Table

namespace Life

/-! ## Over POSIX -/

/-- A task past its `Queue_Delete` has deleted the queue it was created for. The handle of the queue is
`NULL`, unless a task is active or is about to be created. -/
structure Closed (l : Life) : Prop extends Tidy l where
  freed : ∀ i, l.stage i = .clearQueue ∨ l.stage i = .gone → ∃ q, l.own i = some q ∧ l.freed q = true
  cleared : l.queue = none ∨ (∃ c, (l.call c).creating) ∨ ∃ i, (l.stage i).active

/-- A task that dies is asleep. -/
theorem Tidy.gone_of_die {l : Life} (h : l.Tidy) {i : Nat} (ha : l.stage i ≠ .absent)
    (hq : l.stage i ≠ .deleteQueue) (hcl : l.stage i ≠ .clearQueue) (hdel : l.deleted i = true) :
    l.stage i = .gone := by
  have hok := h.stages i
  cases hstage : l.stage i with
  | absent => exact absurd hstage ha
  | deleteQueue => exact absurd hstage hq
  | clearQueue => exact absurd hstage hcl
  | gone => rfl
  | working | ending | deleteTask =>
    rw [hstage] at hok
    exact absurd (hok.2.2.symm.trans hdel) Bool.false_ne_true

theorem setStage_same {l : Life} {i : Nat} {s : Stage} (h : l.stage i = s) : l.setStage i s = l := by
  rw [setStage, ← h, Function.update_eq_self]

theorem Closed.freed_step {l l' : Life} {a : Act} (h : l.Closed) (hs : Step l a l') :
    ∀ i, l'.stage i = .clearQueue ∨ l'.stage i = .gone → ∃ q, l'.own i = some q ∧ l'.freed q = true := by
  have hfreed := h.freed
  cases hs with
  | deleteQueue i q hi hq =>
    -- the handle is that of its own queue
    obtain ⟨hown, -⟩ : l.TaskOk i .deleteQueue := hi ▸ h.stages i
    rw [hq] at hown
    intro j hj
    by_cases hji : j = i
    · subst hji
      exact ⟨q, hown.symm, by simp⟩
    · obtain ⟨q', hq', hfree⟩ := hfreed j (by simpa [hji] using hj)
      refine ⟨q', hq', ?_⟩
      show Function.update l.freed q true q' = true
      rw [Function.update_apply]
      split
      · rfl
      · exact hfree
  | deleteNoQueue i hi hq =>
    obtain ⟨-, q, hsome, -⟩ : l.TaskOk i .deleteQueue := hi ▸ h.stages i
    rw [hq] at hsome
    cases hsome
  | die i ha hq hcl hdel =>
    rw [setStage_same (h.gone_of_die ha hq hcl hdel)]
    exact hfreed
  | create c q hq =>
    -- the new task is at work
    intro i hi
    have hit : i ≠ l.tasks := by
      rintro rfl
      simp at hi
    obtain ⟨q', hown, hfree⟩ := hfreed i (by simpa [hit] using hi)
    exact ⟨q', by simpa [hit] using hown, hfree⟩
  | leave j hj | give j hj | deleteTask j k hj | deleteNone j hj | clear j hj =>
    exact fun i hi => hfreed i (mono_setStage (R := fun s => s = .clearQueue ∨ s = .gone) (by simp [hj]) i hi)
  | _ => exact hfreed

theorem Closed.cleared_step {l l' : Life} {a : Act} (h : l.Closed) (hs : Step l a l') :
    l'.queue = none ∨ (∃ c, (l'.call c).creating) ∨ ∃ i, (l'.stage i).active := by
  have hcleared := h.cleared
  cases hs with
  | create c q hc => exact .inr (.inr ⟨l.tasks, by simp⟩)
  | clear i hi => exact .inl rfl
  | run c hc | make c hc | makeNone c hc | store c q hc | check c q hc hq | createNone c q hc | storeNull c hc =>
    exact .inr (.inl ⟨c, by simp⟩)
  | pass c hidle hstop => exact .inr (.inl ⟨c, by simp⟩)
  | leave i hi | give i hi | deleteNone i hi htask | deleteNoQueue i hi hq | deleteTask i j hi hj
  | deleteQueue i q hi hq => exact .inr (.inr ⟨i, by simp⟩)
  | stop => exact hcleared
  | finishNull c hc hnull =>
    obtain ⟨-, hnone⟩ : l.CallOk .nullStored := hc ▸ h.calls c
    exact absurd hnone hnull
  | die i ha hq hcl hdel =>
    rw [setStage_same (h.gone_of_die ha hq hcl hdel)]
    exact hcleared
  | storeTask c i hk | finish c hk | notify c hk | load c hk | sent c q hk =>
    rcases hcleared with hnull | ⟨d, hd⟩ | hi
    · exact .inl hnull
    · exact .inr (.inl ⟨d, keep_setCall (P := fun k => k.creating) (by simp [hk]) d hd⟩)
    · exact .inr (.inr hi)

theorem Closed.step {l l' : Life} {a : Act} (h : l.Closed) (hc : l.StartApart a) (hs : Step l a l') :
    l'.Closed :=
  ⟨h.toTidy.step hc hs, h.freed_step hs, h.cleared_step hs⟩

end Life

namespace World

theorem closed_init (service : Service) : (init service).life.Closed :=
  ⟨tidy_init service, fun i hi => (by rcases hi with hi | hi <;> cases hi), .inl rfl⟩

theorem closed_step {w w' : World} {a : Act} (h : w.life.Closed) (hc : w.StartFirst a)
    (hs : w.step a = some w') : w'.life.Closed :=
  preserved (I := Life.Closed) h hs fun _ hb hstep => h.step ((hc.life hb).apart active_lt) hstep

/-- The queue `h` has been passed to `Queue_Delete`. -/
def queueDeleted (w : World) (h : Option Nat) : Bool := (h.bind (w.queues[·]?)).any QueueObject.deleted

/-- With one `Service_Start` a task that has ended has deleted its queue and cleared the handle. -/
theorem closed_of_ended (service : Service) (acts : List Act) (hone : acts.count (.call .start) ≤ 1) {w : World}
    (h : exec step (init service) acts = some w) {t : TaskObject} (htasks : w.tasks = [t]) (hpc : t.pc = .ended) :
    w.queueDeleted t.queue = true ∧ w.service.queue = none := by
  obtain ⟨hsingle, hclosed⟩ := exec_meets_invariant (I := fun w => w.Single ∧ w.life.Closed)
    (fun _ _ _ hI hc hs => ⟨single_step hI.1 hc hs, closed_step hI.2 hc hs⟩) h
    (startFirst_of_count service acts hone) ⟨single_init service, closed_init service⟩
  have ht : w.tasks[0]? = some t := by rw [htasks]; rfl
  have hgone : w.life.stage 0 = .gone := (stage_life ht).trans (by rw [hpc]; rfl)
  constructor
  · obtain ⟨q, hown, hfree⟩ := hclosed.freed 0 (.inr hgone)
    have hq : t.queue = some q := (table_eq (f := TaskObject.queue) (d := none) ht).symm.trans hown
    obtain ⟨o, ho, hdel⟩ := table_mem (l := w.queues) (f := QueueObject.deleted) (d := false) (i := q)
      (fun hne => Bool.false_ne_true (hne.symm.trans hfree))
    have hodel : o.deleted = true := hdel.trans hfree
    simp [queueDeleted, hq, ho, hodel]
  · rcases hclosed.cleared with hnull | ⟨c, hc⟩ | ⟨i, hi⟩
    · exact hnull
    · -- nothing is created after the task
      have hzero : w.tasks.length = 0 := hsingle.once.noTask c hc
      rw [htasks] at hzero
      cases hzero
    · have hlt : i < w.tasks.length := active_lt i hi
      rw [htasks] at hlt
      obtain rfl : i = 0 := by simpa using hlt
      rw [hgone] at hi
      cases hi

end World

/-! ## Over both -/

open InfoWorkshop.Esp32

/-- The task adapters. -/
inductive Adapter
  | posix
  | esp32
  deriving DecidableEq, Repr

/-- What a service leaves behind when its task has ended: whether the queue of the task has been passed to
`Queue_Delete`, and `service->queue`. -/
structure Remains where
  deleted : Bool
  queue : Option Nat
  deriving DecidableEq, Repr

/-- A run of the service with one `Service_Start` has come to the end of its task. -/
inductive Terminates (service : Service) : Adapter → Remains → Prop
  | posix (acts : List Act) (w : World) (t : TaskObject) : acts.count (.call .start) ≤ 1 →
    exec World.step (World.init service) acts = some w → w.tasks = [t] → t.pc = .ended →
    Terminates service .posix ⟨w.queueDeleted t.queue, w.service.queue⟩
  | esp32 (acts : List ServiceTasks.Act) (d : ServiceTasks.Device) (t : ServiceTasks.Task) :
    acts.count (.call .start) ≤ 1 →
    exec ServiceTasks.Device.step (ServiceTasks.Device.init service) acts = some d → d.tasks = [t] → t.pc = .ended →
    Terminates service .esp32 ⟨d.queueDeleted t.queue, d.service.queue⟩

/-- A terminated service has deleted its queue and cleared its handle exactly over the POSIX adapter. -/
theorem terminates_clean_iff_posix {service : Service} {a : Adapter} {r : Remains} (h : Terminates service a r) :
    (r.deleted = true ∧ r.queue = none) ↔ a = .posix := by
  cases h with
  | posix acts w t hone hw htasks hpc =>
    constructor
    · intro _; rfl
    · intro _; exact World.closed_of_ended service acts hone hw htasks hpc
  | esp32 acts d t hone hd htasks hpc =>
    constructor
    · rintro ⟨hdel, -⟩
      rw [show d.queueDeleted t.queue = false from
        ServiceTasks.Device.queueDeleted_eq_false service acts hone hd t.queue] at hdel
      cases hdel
    · rintro ⟨⟩

/-! ## A run over each -/

/-- Over POSIX: `main` returns, and the task ends at its sleep. -/
def posixEndRun : List Act := World.startCall 0 ++ List.replicate 8 (Act.task 0 World.plain) ++ [.die 0]

/-- Over ESP32: `main` returns, and the task ends in its `Task_Delete`. -/
def esp32EndRun : List ServiceTasks.Act :=
  .call .start :: List.replicate 9 (.caller 0 ⟨true, []⟩) ++ List.replicate 6 (.task 0 ⟨true, []⟩)

theorem posix_end : ∃ r, Terminates World.mainService .posix r := by
  obtain ⟨w, hw⟩ := Option.isSome_iff_exists.1
    (show (exec World.step (World.init World.mainService) posixEndRun).isSome = true by decide)
  have hpcs : (exec World.step (World.init World.mainService) posixEndRun).map (fun w => w.tasks.map TaskObject.pc) =
      some [.ended] := by decide
  rw [hw, Option.map_some, Option.some.injEq, List.map_eq_singleton_iff] at hpcs
  obtain ⟨t, htasks, hpc⟩ := hpcs
  exact ⟨_, .posix posixEndRun w t (by decide) hw htasks hpc⟩

/-- The queue is not deleted and the handle still there. -/
theorem esp32_end : Terminates World.mainService .esp32 ⟨false, some 0⟩ := by
  obtain ⟨d, hd⟩ := Option.isSome_iff_exists.1
    (show (exec ServiceTasks.Device.step (ServiceTasks.Device.init World.mainService) esp32EndRun).isSome = true
      by decide)
  have hend : (exec ServiceTasks.Device.step (ServiceTasks.Device.init World.mainService) esp32EndRun).map
      (fun d => (d.tasks, d.queues, d.service.queue)) = some ([⟨.ended, some 0⟩], [false], some 0) := by decide
  rw [hd, Option.map_some, Option.some.injEq] at hend
  simp only [Prod.mk.injEq] at hend
  obtain ⟨htasks, hqueues, hqueue⟩ := hend
  have h := Terminates.esp32 esp32EndRun d ⟨.ended, some 0⟩ (by decide) hd htasks rfl
  rw [hqueue, ServiceTasks.Device.queueDeleted, hqueues] at h
  exact h

theorem terminates_clean_iff_posix_main :
    (∃ r, Terminates World.mainService .posix r ∧ r.deleted = true ∧ r.queue = none) ∧
    ∃ r, Terminates World.mainService .esp32 r ∧ ¬ (r.deleted = true ∧ r.queue = none) := by
  constructor
  · obtain ⟨r, hr⟩ := posix_end
    exact ⟨r, hr, (terminates_clean_iff_posix hr).2 rfl⟩
  · refine ⟨_, esp32_end, fun hclean => ?_⟩
    have hposix := (terminates_clean_iff_posix esp32_end).1 hclean
    cases hposix

/-- The two adapters do not leave the same behind. -/
theorem esp32_keeps_queue :
    ¬ ∀ a r, Terminates World.mainService a r → r.deleted = true ∧ r.queue = none := by
  intro h
  obtain ⟨hdel, -⟩ := h .esp32 _ esp32_end
  cases hdel

end InfoWorkshop.Service
