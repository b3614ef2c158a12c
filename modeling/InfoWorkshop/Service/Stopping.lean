/-
The end of a stopped service: its task has only so many steps left before its final sleep loop, and none of them
waits for another thread, so that the service always can come to its end.
-/
import InfoWorkshop.Service.Trace
import InfoWorkshop.Service.Waiting

namespace InfoWorkshop.Service

open InfoWorkshop.Core InfoWorkshop.Memory InfoWorkshop.Posix InfoWorkshop.CondVar InfoWorkshop.Steps
open InfoWorkshop.Table

/-! ## The handles -/

namespace Life

/-- The handle that a call is about to store is that of a task or a queue. -/
def HandleOk (l : Life) : CallStage → Prop
  | .created i => i < l.tasks
  | .made (some q) => q < l.queues
  | _ => True

/-- The handles of the service, and those that a `Service_Start` is about to store there, are those of tasks and
queues. -/
structure Handles (l : Life) : Prop where
  task : ∀ i, l.task = some i → i < l.tasks
  queue : ∀ q, l.queue = some q → q < l.queues
  calls : ∀ c, l.HandleOk (l.call c)

theorem HandleOk.mono {l l' : Life} {k : CallStage} (h : l.HandleOk k) (htasks : l.tasks ≤ l'.tasks)
    (hqueues : l.queues ≤ l'.queues) : l'.HandleOk k := by
  cases k with
  | created i => exact Nat.lt_of_lt_of_le h htasks
  | made queue =>
    cases queue with
    | none => trivial
    | some q => exact Nat.lt_of_lt_of_le h hqueues
  | _ => trivial

/-- A step of a call keeps the handles when it keeps those that it touches. -/
theorem Handles.setCall {l l' : Life} (h : l.Handles) {c : Nat} {k : CallStage}
    (hcall : l'.call = Function.update l.call c k) (hk : l'.HandleOk k) (htask : ∀ i, l'.task = some i → i < l'.tasks)
    (hqueue : ∀ q, l'.queue = some q → q < l'.queues) (htasks : l.tasks ≤ l'.tasks)
    (hqueues : l.queues ≤ l'.queues) : l'.Handles := by
  refine ⟨htask, hqueue, fun d => ?_⟩
  rw [hcall, Function.update_apply]
  split
  · exact hk
  · exact (h.calls d).mono htasks hqueues

theorem Handles.step {l l' : Life} {a : Act} (h : l.Handles) (hs : Step l a l') : l'.Handles := by
  cases hs with
  | make c =>
    exact h.setCall rfl (Nat.lt_succ_self _) h.task (fun q hq => Nat.lt_succ_of_lt (h.queue q hq)) (Nat.le_refl _)
      (Nat.le_succ _)
  | store c q hc =>
    refine h.setCall rfl trivial h.task (fun r hr => ?_) (Nat.le_refl _) (Nat.le_refl _)
    obtain rfl : q = some r := hr
    have hmade := h.calls c
    rw [hc] at hmade
    exact hmade
  | create c q =>
    exact h.setCall rfl (Nat.lt_succ_self _) (fun i hi => Nat.lt_succ_of_lt (h.task i hi)) h.queue (Nat.le_succ _)
      (Nat.le_refl _)
  | storeTask c i hc =>
    refine h.setCall rfl trivial (fun j hj => ?_) h.queue (Nat.le_refl _) (Nat.le_refl _)
    obtain rfl : i = j := Option.some.inj hj
    have hcreated := h.calls c
    rw [hc] at hcreated
    exact hcreated
  | storeNull c => exact h.setCall rfl trivial nofun h.queue (Nat.le_refl _) (Nat.le_refl _)
  | clear => exact ⟨h.task, nofun, h.calls⟩
  | stop | leave | give | deleteTask | deleteNone | deleteQueue | deleteNoQueue | die =>
    exact ⟨h.task, h.queue, h.calls⟩
  | _ => exact h.setCall rfl trivial h.task h.queue (Nat.le_refl _) (Nat.le_refl _)

end Life

theorem handles_init (service : Service) : (World.init service).life.Handles := ⟨nofun, nofun, fun _ => trivial⟩

/-! ## The steps left -/

/-- The steps that a task of a stopped service has left. -/
def TaskPc.left : TaskPc → Nat
  | .entry => 15
  | .inSetup => 14
  | .body => 13
  | .load => 12
  | .receive _ => 11
  | .wait _ => 10
  | .hand _ _ => 9
  | .inHandler => 8
  | .loopTest | .inMain => 7
  | .teardown => 6
  | .inTeardown => 5
  | .give => 4
  | .deleteTask => 3
  | .deleteQueue => 2
  | .clearQueue => 1
  | .asleep | .ended => 0

/-- The task is in its final sleep loop, or dead. -/
def TaskPc.atRest : TaskPc → Bool
  | .asleep | .ended => true
  | _ => false

/-- In `Queue_Receive`. -/
def TaskPc.inReceive : TaskPc → Bool
  | .receive _ | .wait _ => true
  | _ => false

theorem left_eq_zero_iff (pc : TaskPc) : pc.left = 0 ↔ pc.atRest = true := by
  cases pc <;> simp [TaskPc.left, TaskPc.atRest]

namespace World

/-- Where the tasks are, with the queues they were created for. -/
def view (w : World) : List (TaskPc × Option Nat) := w.tasks.map fun t => (t.pc, t.queue)

theorem view_gotoTask {w v : World} {i : Nat} {self : TaskObject} (ht : w.tasks[i]? = some self)
    (hv : v.view = w.view) (pc : TaskPc) : (v.gotoTask i pc).view = w.view.set i (pc, self.queue) := by
  apply List.ext_getElem?
  intro j
  have hvj : ∀ j : Nat, (v.tasks[j]?).map (fun t => (t.pc, t.queue)) = (w.tasks[j]?).map fun t => (t.pc, t.queue) := by
    intro j
    have hget := congrArg (·[j]?) hv
    simpa only [view, List.getElem?_map] using hget
  simp only [view, gotoTask, List.getElem?_map, List.getElem?_modify, List.getElem?_set, List.length_map]
  by_cases hij : i = j
  · subst hij
    have hlt := (List.getElem?_eq_some_iff.1 ht).1
    have hself := hvj i
    rw [ht] at hself
    rcases hi : v.tasks[i]? with _ | t
    · rw [hi] at hself
      cases hself
    · rw [hi, Option.map_some, Option.map_some, Option.some.injEq, Prod.mk.injEq] at hself
      simp [hlt, hself.2]
  · simpa [hij] using hvj j

/-- What a step of task `i`, the object `t`, comes to when it goes on to `pc`. -/
structure Moved (w : World) (i : Nat) (t : TaskObject) (w' : World) (pc : TaskPc) : Prop where
  view : w'.view = w.view.set i (pc, t.queue)
  left : w.service.state ≠ .running → pc.left ≤ t.pc.left - 1
  receive : ∀ h, pc = .receive h → t.pc = .load ∧ h = w.service.queue
  wait : ∀ h, pc = .wait h → t.pc = .receive h ∧ ∀ q, h = some q → w'.WaitsIn (.task i) q

/-- The task goes on to a point outside of `Queue_Receive`, and leaves the queues alone. -/
theorem moved_plain {w v : World} {i : Nat} {self : TaskObject} {pc : TaskPc} (ht : w.tasks[i]? = some self)
    (hview : v.view = w.view) (hpc : pc.inReceive = false)
    (hleft : w.service.state ≠ .running → pc.left ≤ self.pc.left - 1) :
    (v.gotoTask i pc).fault ≠ none ∨ ∃ pc', w.Moved i self (v.gotoTask i pc) pc' := by
  refine .inr ⟨pc, view_gotoTask ht hview pc, hleft, ?_, ?_⟩
  · rintro h rfl
    cases hpc
  · rintro h rfl
    cases hpc

theorem serviceMain_moved {w w' : World} {i : Nat} {self : TaskObject} {ch : Choice} (ht : w.tasks[i]? = some self)
    (hs : w.serviceMain i self ch = some w') : w'.fault ≠ none ∨ ∃ pc, w.Moved i self w' pc := by
  unfold serviceMain at hs
  cases hpc : self.pc with
  | entry | body | hand | teardown =>
    simp only [hpc] at hs
    split at hs <;> cases hs <;> exact moved_plain ht rfl rfl fun _ => by simp [hpc, TaskPc.left]
  | inSetup | inMain | inHandler | inTeardown =>
    simp only [hpc] at hs
    cases hs
    exact moved_plain ht rfl rfl fun _ => by simp [hpc, TaskPc.left]
  | loopTest =>
    simp only [hpc] at hs
    split at hs
    · rename_i hrunning
      cases hs
      exact moved_plain ht rfl rfl fun hstopped => absurd hrunning hstopped
    · cases hs
      exact moved_plain ht rfl rfl fun _ => by simp [hpc, TaskPc.left]
  | load =>
    simp only [hpc] at hs
    cases hs
    refine .inr ⟨.receive w.service.queue, view_gotoTask ht rfl _, fun _ => by simp [hpc, TaskPc.left], ?_, ?_⟩
    · rintro h ⟨⟩
      exact ⟨hpc, rfl⟩
    · rintro h ⟨⟩
  | receive h =>
    simp only [hpc] at hs
    rcases onQueue_cases hs with ⟨hfault, -⟩ | ⟨q, o, rfl, ho, hbody⟩
    · exact .inl hfault
    · split at hbody
      · rename_i queue hreceive
        cases hbody
        refine .inr ⟨.wait (some q), view_gotoTask (v := w.setQueue q queue) ht rfl _,
          fun _ => by simp [hpc, TaskPc.left], ?_, ?_⟩
        · rintro h ⟨⟩
        · rintro h ⟨⟩
          refine ⟨hpc, fun r hr => ?_⟩
          cases hr
          exact waitsIn_setQueue ho (self_mem_threads_receive hreceive)
      · cases hbody
        exact moved_plain (v := w.setQueue q _) ht rfl rfl fun _ => by simp [hpc, TaskPc.left]
  | wait h =>
    simp only [hpc] at hs
    rcases onQueue_cases hs with ⟨hfault, -⟩ | ⟨q, o, rfl, ho, hbody⟩
    · exact .inl hfault
    · split at hbody
      · cases hbody
      · cases hbody
        exact moved_plain (v := w.setQueue q _) ht rfl rfl fun _ => by simp [hpc, TaskPc.left]
  | give =>
    simp only [hpc] at hs
    split at hs
    · cases hs; exact .inl (by simp [crash])
    · split at hs <;> cases hs
      · exact .inl (by simp [crash])
      · exact moved_plain ht rfl rfl fun _ => by simp [hpc, TaskPc.left]
  | deleteTask =>
    simp only [hpc, taskDelete] at hs
    split at hs
    · cases hs
      exact moved_plain ht rfl rfl fun _ => by simp [hpc, TaskPc.left]
    · split at hs
      · cases hs
      · split at hs <;> cases hs
        · exact .inl (by simp [crash])
        · exact moved_plain ht (map_modify_same _ fun _ => rfl) rfl fun _ => by simp [hpc, TaskPc.left]
  | deleteQueue =>
    simp only [hpc, queueDelete] at hs
    split at hs
    · cases hs
      exact moved_plain ht rfl rfl fun _ => by simp [hpc, TaskPc.left]
    · split at hs
      · cases hs
      · split at hs <;> cases hs
        · exact .inl (by simp [crash])
        · exact moved_plain ht rfl rfl fun _ => by simp [hpc, TaskPc.left]
  | clearQueue =>
    simp only [hpc] at hs
    cases hs
    exact moved_plain ht rfl rfl fun _ => by simp [hpc, TaskPc.left]
  | asleep =>
    simp only [hpc] at hs
    cases hs
    have hself : w.view[i]? = some (.asleep, self.queue) := by rw [view, List.getElem?_map, ht, ← hpc]; rfl
    obtain ⟨hlt, hget⟩ := List.getElem?_eq_some_iff.1 hself
    refine .inr ⟨.asleep, ?_, fun _ => Nat.zero_le _, ?_, ?_⟩
    · rw [← hget, List.set_getElem_self]
    · rintro h ⟨⟩
    · rintro h ⟨⟩
  | ended => simp only [hpc] at hs; cases hs

/-! ## What the other steps leave alone -/

/-- The tasks stay where they are, but for a new one. -/
def Leaves (w w' : World) : Prop := w'.view = w.view ∨ ∃ own, w'.view = w.view ++ [(.entry, own)]

theorem Leaves.same {w w' : World} (htasks : w'.tasks = w.tasks) : w.Leaves w' :=
  .inl (by rw [view, view, htasks])

theorem serviceStart_leaves {w w' : World} {c : Nat} {ch : Choice} {pc : StartPc}
    (hs : w.serviceStart c ch pc = some w') : w.Leaves w' := by
  cases pc with
  | check | newQueue | checkQueue | checkTask =>
    simp only [serviceStart] at hs
    split at hs <;> cases hs <;> exact .same rfl
  | createTask queue =>
    simp only [serviceStart] at hs
    split at hs <;> cases hs
    · exact .inr ⟨queue, List.map_append⟩
    · exact .same rfl
  | register task =>
    cases hs
    exact .inl (map_modify_same task fun _ => rfl)
  | _ => cases hs; exact .same rfl

theorem drained_tasks (w : World) (c : Nat) (error : ErrorCode) (ret : ErrorCode × Bytes) :
    (w.drained c error ret).tasks = w.tasks := by
  unfold drained
  split <;> rfl

theorem serviceNotify_leaves {w w' : World} {c : Nat} {ch : Choice} {pc : NotifyPc}
    (hs : w.serviceNotify c ch pc = some w') : w'.fault ≠ none ∨ w.Leaves w' := by
  cases pc with
  | check | reboot =>
    simp only [serviceNotify] at hs
    split at hs <;> cases hs <;> exact .inr (.same rfl)
  | load | drainLoad => cases hs; exact .inr (.same rfl)
  | send e h =>
    simp only [serviceNotify] at hs
    rcases onQueue_cases hs with ⟨hfault, -⟩ | ⟨q, o, rfl, ho, hbody⟩
    · exact .inl hfault
    · split at hbody <;> cases hbody <;> exact .inr (.same rfl)
  | drainReceive b error h =>
    simp only [serviceNotify] at hs
    rcases onQueue_cases hs with ⟨hfault, -⟩ | ⟨q, o, rfl, ho, hbody⟩
    · exact .inl hfault
    · split at hbody <;> cases hbody
      · exact .inr (.same rfl)
      · exact .inr (.same (drained_tasks (w.setQueue q _) _ _ _))
  | drainWait error h =>
    simp only [serviceNotify] at hs
    rcases onQueue_cases hs with ⟨hfault, -⟩ | ⟨q, o, rfl, ho, hbody⟩
    · exact .inl hfault
    · split at hbody <;> cases hbody
      exact .inr (.same (drained_tasks (w.setQueue q _) _ _ _))

/-- A step that is not one of a task. -/
theorem advance_leaves {w w' : World} {a : Act} (hs : w.Advance a w') (htask : ∀ i ch, a ≠ .task i ch)
    (hdie : ∀ i, a ≠ .die i) : w'.fault ≠ none ∨ w.Leaves w' := by
  cases hs with
  | call api => exact .inr (.same rfl)
  | start _ hs => exact .inr (serviceStart_leaves hs)
  | @stop _ _ pc _ _ hs =>
    cases pc with
    | check =>
      simp only [serviceStop] at hs
      split at hs <;> cases hs <;> exact .inr (.same rfl)
    | setStopped => cases hs; exact .inr (.same rfl)
  | notify _ hs => exact serviceNotify_leaves hs
  | task => exact absurd rfl (htask _ _)
  | die => exact absurd rfl (hdie _)
  | wake | take | wakeTaker | retake => exact .inr (.same rfl)

/-! ## A task can go on -/

/-- What a task at `pc`, created for the queue `own`, relies on: in `Queue_Receive` it has the handle of its queue,
and in the wait there it is inside the wait of the queue. -/
structure PcReady (w : World) (i : Nat) (pc : TaskPc) (own : Option Nat) : Prop where
  handle : ∀ h, pc = .receive h ∨ pc = .wait h → h = own
  waits : ∀ q, pc = .wait (some q) → w.WaitsIn (.task i) q

/-- Every task can go on. -/
structure Ready (w : World) : Prop where
  lost : w.NoneLost
  tasks : ∀ i pc own, w.view[i]? = some (pc, own) → w.PcReady i pc own
  handles : w.life.Handles

theorem pcReady_plain {w : World} {i : Nat} {pc : TaskPc} {own : Option Nat} (h : pc.inReceive = false) :
    w.PcReady i pc own := by
  constructor
  · rintro x (rfl | rfl)
    · cases h
    · cases h
  · rintro q rfl
    cases h

theorem ready_init (service : Service) : (init service).Ready where
  lost := by rintro q o ⟨⟩
  tasks := by rintro i pc own ⟨⟩
  handles := handles_init service

theorem Leaves.ready {w w' : World} (h : w.Leaves w') (hr : w.Ready) (hlost : w'.NoneLost)
    (hwaits : ∀ i q, w.WaitsIn (.task i) q → w'.WaitsIn (.task i) q) (hhandles : w'.life.Handles) : w'.Ready := by
  have hold : ∀ i pc own, w.view[i]? = some (pc, own) → w'.PcReady i pc own := fun i pc own hi =>
    ⟨(hr.tasks i pc own hi).handle, fun q hq => hwaits i q ((hr.tasks i pc own hi).waits q hq)⟩
  refine ⟨hlost, fun i pc own hi => ?_, hhandles⟩
  rcases h with hview | ⟨new, hview⟩
  · exact hold i pc own (hview ▸ hi)
  · rw [hview] at hi
    rcases Nat.lt_or_ge i w.view.length with hlt | hge
    · rw [List.getElem?_append_left hlt] at hi
      exact hold i pc own hi
    · rw [List.getElem?_append_right hge] at hi
      cases List.mem_singleton.1 (List.mem_of_getElem? hi)
      exact pcReady_plain rfl

theorem getElem?_view {w : World} {i : Nat} {self : TaskObject} (ht : w.tasks[i]? = some self) :
    w.view[i]? = some (self.pc, self.queue) := by
  rw [view, List.getElem?_map, ht]
  rfl

/-- The handle of a working task is that of its queue, which is there. -/
theorem Single.own_queue {w : World} (h : w.Single) {i : Nat} {self : TaskObject} (ht : w.tasks[i]? = some self)
    (hpc : self.pc.stage = .working) : w.service.queue = self.queue ∧ w.HasQueue self.queue := by
  have hok := h.tidy.stages i
  rw [stage_life ht, hpc] at hok
  obtain ⟨hown, hvalid, -⟩ := hok
  have hqueue : w.service.queue = self.queue := hown.trans (table_eq ht)
  exact ⟨hqueue, hqueue ▸ hasQueue_of_valid hvalid⟩

theorem Moved.ready {w w' : World} {i : Nat} {self : TaskObject} {pc : TaskPc} (h : w.Moved i self w' pc)
    (hs : w.Single) (hr : w.Ready) (ht : w.tasks[i]? = some self) (hlost : w'.NoneLost)
    (hhandles : w'.life.Handles) : w'.Ready := by
  obtain ⟨rfl, htasks⟩ := hs.task_eq ht
  have hview : w'.view = [(pc, self.queue)] := by rw [h.view, World.view, htasks]; rfl
  refine ⟨hlost, fun j pc' own hj => ?_, hhandles⟩
  rw [hview] at hj
  obtain rfl : j = 0 := by
    have hlt := (List.getElem?_eq_some_iff.1 hj).1
    simp only [List.length_singleton] at hlt
    omega
  cases hj
  refine ⟨?_, fun q hq => (h.wait _ hq).2 q rfl⟩
  rintro x (rfl | rfl)
  · obtain ⟨hpc, rfl⟩ := h.receive x rfl
    exact (hs.own_queue ht (by rw [hpc]; rfl)).1
  · exact (hr.tasks 0 _ _ (getElem?_view ht)).handle x (.inl (h.wait x rfl).1)

/-! ## Any step -/

/-- A step of a task. -/
def isTask : Act → Bool
  | .task _ _ => true
  | _ => false

/-- Any step: the program ends, a task goes on, or the tasks stay where they are. -/
theorem step_moves {w w' : World} {a : Act} (h : w.Single) (hs : w.step a = some w') :
    w'.fault ≠ none ∨ (∃ i self pc, w.tasks[i]? = some self ∧ w.Moved i self w' pc) ∨
      (isTask a = false ∧ w.Leaves w') := by
  have hadv := (step_advance hs).2
  cases a with
  | task i ch =>
    cases hadv with
    | task ht hs =>
      rcases serviceMain_moved ht hs with hfault | ⟨pc, hmoved⟩
      · exact .inl hfault
      · exact .inr (.inl ⟨_, _, pc, ht, hmoved⟩)
  | die i =>
    cases hadv with
    | die ht hs =>
      obtain ⟨-, rfl⟩ := die_asleep h ht hs
      rcases @moved_plain w w i _ .ended ht rfl rfl fun _ => Nat.zero_le _ with hfault | ⟨pc, hmoved⟩
      · exact .inl hfault
      · exact .inr (.inl ⟨_, _, pc, ht, hmoved⟩)
  | _ =>
    rcases advance_leaves hadv nofun nofun with hfault | hleaves
    · exact .inl hfault
    · exact .inr (.inr ⟨rfl, hleaves⟩)

/-- With one task, no mutex is lost. -/
theorem Single.noneLost_step {w w' : World} {a : Act} (h : w.Single) (hlost : w.NoneLost) (hs : w.step a = some w') :
    w'.NoneLost := by
  have hadv := (step_advance hs).2
  by_cases hdie : ∃ i, a = .die i
  · obtain ⟨i, rfl⟩ := hdie
    cases hadv with
    | die ht hs =>
      obtain ⟨-, rfl⟩ := die_asleep h ht hs
      exact hlost
  · exact hlost.step (advance_queues hadv) fun i hi => hdie ⟨i, hi⟩

theorem ready_step {w w' : World} {a : Act} (h : w.Single) (hr : w.Ready) (hs : w.step a = some w')
    (hfault : w'.fault = none) : w'.Ready := by
  have hhandles := preserved (I := Life.Handles) hr.handles hs fun _ _ hstep => hr.handles.step hstep
  have hlost := h.noneLost_step hr.lost hs
  rcases step_moves h hs with hcrash | ⟨i, self, pc, ht, hmoved⟩ | ⟨hother, hleaves⟩
  · exact absurd hfault hcrash
  · exact hmoved.ready h hr ht hlost hhandles
  · refine hleaves.ready hr hlost (fun i q hwaits => hwaits.step (advance_queues (step_advance hs).2) ?_) hhandles
    intro hself
    cases a with
    | task => cases hother
    | _ => cases hself

/-- The steps that the task has left, from its entry where there is none yet. -/
def stepsLeft (w : World) : Nat :=
  if w.fault = none then w.view.head?.elim 15 fun x => x.1.left else 0

theorem stepsLeft_of_fault {w : World} (h : w.fault ≠ none) : w.stepsLeft = 0 := if_neg h

theorem stepsLeft_le (w : World) : w.stepsLeft ≤ 15 := by
  unfold stepsLeft
  split
  · rcases w.view.head? with _ | ⟨pc, own⟩
    · exact Nat.le_refl _
    · cases pc <;> simp [TaskPc.left]
  · exact Nat.zero_le _

/-- A step after the stop: the task has no more steps left than before, and one less after one of its own. -/
theorem stepsLeft_step {w w' : World} {a : Act} (h : w.Single) (hstate : w.service.state ≠ .running)
    (hs : w.step a = some w') :
    w'.stepsLeft ≤ w.stepsLeft ∧ (isTask a = true → w'.stepsLeft ≤ w.stepsLeft - 1) := by
  by_cases hfault' : w'.fault = none
  · have hfault := (step_advance hs).1
    unfold stepsLeft
    rw [if_pos hfault, if_pos hfault']
    rcases step_moves h hs with hcrash | ⟨i, self, pc, ht, hmoved⟩ | ⟨hother, hleaves⟩
    · exact absurd hfault' hcrash
    · obtain ⟨rfl, htasks⟩ := h.task_eq ht
      have hfalls := hmoved.left hstate
      have hview : w.view = [(self.pc, self.queue)] := by rw [view, htasks]; rfl
      rw [hmoved.view, hview]
      exact ⟨Nat.le_trans hfalls (Nat.sub_le _ _), fun _ => hfalls⟩
    · refine ⟨?_, fun htask => by rw [hother] at htask; cases htask⟩
      rcases hleaves with hview | ⟨own, hview⟩
      · rw [hview]
      · rw [hview]
        rcases w.view with _ | ⟨x, rest⟩
        · exact Nat.le_refl _
        · exact Nat.le_refl _
  · rw [stepsLeft_of_fault hfault']
    exact ⟨Nat.zero_le _, fun _ => Nat.zero_le _⟩

/-- The program has ended, or every task is at rest. -/
def Finished (w : World) : Prop := w.fault ≠ none ∨ ∀ t ∈ w.tasks, t.pc.atRest = true

theorem finished_of_stepsLeft {w : World} (h : w.Single) (hleft : w.stepsLeft = 0) : w.Finished := by
  by_cases hfault : w.fault = none
  · refine .inr fun t ht => ?_
    obtain ⟨i, hi⟩ := List.getElem?_of_mem ht
    obtain ⟨-, htasks⟩ := h.task_eq hi
    rw [stepsLeft, if_pos hfault, view, htasks] at hleft
    exact (left_eq_zero_iff t.pc).1 hleft
  · exact .inl hfault

/-! ## The task can always go on -/

theorem HasQueue.lt_length {w : World} {h : Option Nat} (hq : w.HasQueue h) (q : Nat) (hh : h = some q) :
    q < w.queues.length := by
  obtain ⟨r, o, rfl, ho, -⟩ := hq
  cases hh
  exact (List.getElem?_eq_some_iff.1 ho).1

theorem taskDelete_enabled {w : World} {i : Nat} {self : TaskObject} (ht : w.tasks[i]? = some self)
    (hhandles : w.life.Handles) : (w.taskDelete i self).isSome = true := by
  unfold taskDelete
  split
  · rfl
  · rename_i j htarget
    have hlt : j < w.tasks.length := by
      cases hself : w.service.task with
      | some k =>
        rw [deleteTarget, hself] at htarget
        cases htarget
        exact hhandles.task j hself
      | none =>
        simp only [deleteTarget, hself] at htarget
        split at htarget <;> cases htarget
        exact (List.getElem?_eq_some_iff.1 ht).1
    rw [List.getElem?_eq_getElem hlt]
    dsimp only
    split <;> rfl

theorem queueDelete_enabled {w : World} {i : Nat} (hq : w.service.queue ≠ none → w.HasQueue w.service.queue) :
    (w.queueDelete i).isSome = true := by
  unfold queueDelete
  cases hqueue : w.service.queue with
  | none => rfl
  | some q =>
    obtain ⟨r, o, hr, ho, hdel⟩ := hq (by rw [hqueue]; simp)
    rw [hqueue] at hr
    cases hr
    simp only [ho, hdel, Bool.false_eq_true, if_false, Option.isSome_some]

/-- A task that is not at rest has a step, in a wait once that wait has ended. -/
theorem serviceMain_enabled {w : World} {i : Nat} {self : TaskObject} (h : w.Single) (hr : w.Ready)
    (ht : w.tasks[i]? = some self) (ch : Choice) (hrest : self.pc.atRest = false)
    (hwait : ∀ q o, self.pc = .wait (some q) → w.queues[q]? = some o → (o.queue.resume (.task i)).isSome = true) :
    (w.serviceMain i self ch).isSome = true := by
  have hready := hr.tasks i _ _ (getElem?_view ht)
  unfold serviceMain
  cases hpc : self.pc with
  | entry | body | loopTest | hand | teardown =>
    dsimp only
    split <;> rfl
  | inSetup | inMain | load | inHandler | inTeardown | clearQueue => rfl
  | receive x =>
    have hown := (h.own_queue ht (by rw [hpc]; rfl)).2
    rw [← hready.handle x (.inl hpc)] at hown
    refine onQueue_isSome hr.lost hown.lt_length fun q o _ _ => ?_
    split <;> rfl
  | wait x =>
    have hown := (h.own_queue ht (by rw [hpc]; rfl)).2
    rw [← hready.handle x (.inr hpc)] at hown
    refine onQueue_isSome hr.lost hown.lt_length fun q o hx ho => ?_
    obtain ⟨⟨ret, queue⟩, hresume⟩ := Option.isSome_iff_exists.1 (hwait q o (by rw [hpc, hx]) ho)
    rw [hresume]
    rfl
  | give =>
    dsimp only
    split
    · rfl
    · split <;> rfl
  | deleteTask => exact taskDelete_enabled ht hr.handles
  | deleteQueue =>
    refine queueDelete_enabled fun _ => ?_
    have hok := h.tidy.stages i
    rw [stage_life ht, hpc] at hok
    exact hasQueue_of_valid hok.2
  | asleep | ended => rw [hpc] at hrest; cases hrest

theorem Ready.task_step {w : World} {i : Nat} {self : TaskObject} (hr : w.Ready) (h : w.Single)
    (hfault : w.fault = none) (ht : w.tasks[i]? = some self) (hrest : self.pc.atRest = false)
    (hwait : ∀ q o, self.pc = .wait (some q) → w.queues[q]? = some o →
      (o.queue.cond.resume (.task i)).isSome = true) :
    (w.step (.task i plain)).isSome = true := by
  simp only [World.step, hfault, advance, ht]
  refine serviceMain_enabled h hr ht plain hrest fun q o hpc ho => ?_
  rw [resume_isSome]
  exact hwait q o hpc ho

/-- A task that is not at rest can take a step, after the timeout of its wait if it has to. -/
theorem Ready.goes_on {w : World} {i : Nat} {self : TaskObject} (hr : w.Ready) (h : w.Single) (hfault : w.fault = none)
    (ht : w.tasks[i]? = some self) (hrest : self.pc.atRest = false) :
    ∃ u, (u = w ∨ u.tasks = w.tasks ∧ ∃ q, w.step (.wake q (.task i) .timedOut) = some u) ∧
      (u.step (.task i plain)).isSome = true := by
  by_cases hstuck : ∃ q o, self.pc = .wait (some q) ∧ w.queues[q]? = some o ∧ (o.queue.cond.resume (.task i)) = none
  · obtain ⟨q, o, hpc, ho, hnone⟩ := hstuck
    obtain ⟨x, hx, hsome | ⟨cond, hwake, hsome⟩⟩ := ((hr.tasks i _ _ (getElem?_view ht)).waits q hpc).wake hfault
    · rw [ho] at hx
      cases hx
      rw [hnone] at hsome
      cases hsome
    · have hu : World.Single (w.setQueue q { x.queue with cond }) := single_step h (fun c ch ha => by cases ha) hwake
      have hru : World.Ready (w.setQueue q { x.queue with cond }) := ready_step h hr hwake hfault
      refine ⟨w.setQueue q { x.queue with cond }, .inr ⟨rfl, q, hwake⟩,
        hru.task_step hu hfault ht hrest fun r y hr hy => ?_⟩
      rw [hpc] at hr
      cases hr
      rw [getElem?_setQueue hx] at hy
      cases hy
      exact hsome
  · exact ⟨w, .inl rfl, hr.task_step h hfault ht hrest fun q o hpc ho =>
      Option.isSome_iff_ne_none.2 fun hnone => hstuck ⟨q, o, hpc, ho, hnone⟩⟩

/-- A step of the task itself, or the end of its wait by its timeout. -/
def byTask : Act → Bool
  | .task _ _ => true
  | .wake _ (.task _) .timedOut => true
  | _ => false

/-- What a run after the stop keeps. -/
structure Stopping (w : World) : Prop extends Ordered w where
  halted : .stopped ∈ w.log
  ready : w.fault = none → w.Ready

theorem Stopping.step {w w' : World} {a : Act} (h : w.Stopping) (hfirst : w.StartFirst a) (hs : w.step a = some w') :
    w'.Stopping where
  toOrdered := ordered_step h.toOrdered hfirst hs
  halted := (step_log hs).subset h.halted
  ready := ready_step h.toSingle (h.ready (step_advance hs).1) hs

theorem Stopping.stepsLeft {w w' : World} {a : Act} (h : w.Stopping) (hs : w.step a = some w') :
    w'.stepsLeft ≤ w.stepsLeft ∧ (isTask a = true → w'.stepsLeft ≤ w.stepsLeft - 1) := by
  have hstate := h.stopped h.halted
  exact stepsLeft_step h.toSingle (by rw [hstate]; simp) hs

theorem Stopping.byTask {w w' : World} {a : Act} (h : w.Stopping) (ha : World.byTask a = true)
    (hs : w.step a = some w') : w'.Stopping := by
  refine h.step ?_ hs
  rintro c ch rfl
  cases ha

/-- A task with steps left takes one of them, after the timeout of its wait if it has to. -/
theorem Stopping.goes_on {w : World} {i : Nat} {self : TaskObject} (h : w.Stopping) (ht : w.tasks[i]? = some self)
    (hpos : 0 < w.stepsLeft) :
    ∃ as w', as.length ≤ 2 ∧ (∀ a ∈ as, World.byTask a = true) ∧ exec World.step w as = some w' ∧
      w'.Stopping ∧ w'.stepsLeft < w.stepsLeft := by
  have hfault : w.fault = none := by
    by_contra hfault
    rw [stepsLeft_of_fault hfault] at hpos
    exact Nat.lt_irrefl 0 hpos
  obtain ⟨rfl, htasks⟩ := h.task_eq ht
  have hrest : self.pc.atRest = false := by
    rw [World.stepsLeft, if_pos hfault, view, htasks] at hpos
    refine Bool.eq_false_iff.2 fun hrest => ?_
    exact Nat.ne_of_gt hpos ((left_eq_zero_iff self.pc).2 hrest)
  obtain ⟨u, hu, hv⟩ := (h.ready hfault).goes_on h.toSingle hfault ht hrest
  obtain ⟨v, hv⟩ := Option.isSome_iff_exists.1 hv
  rcases hu with rfl | ⟨-, q, hwake⟩
  · refine ⟨[.task 0 plain], v, Nat.le_succ 1, List.forall_mem_singleton.2 rfl, by simp only [exec, hv],
      h.byTask rfl hv, ?_⟩
    have hfalls := (h.stepsLeft hv).2 rfl
    omega
  · have hstopping := h.byTask rfl hwake
    refine ⟨[.wake q (.task 0) .timedOut, .task 0 plain], v, Nat.le_refl 2,
      List.forall_mem_cons.2 ⟨rfl, List.forall_mem_singleton.2 rfl⟩, by simp only [exec, hwake, hv],
      hstopping.byTask rfl hv, ?_⟩
    have hstays := (h.stepsLeft hwake).1
    have hfalls := (hstopping.stepsLeft hv).2 rfl
    omega

/-- The steps that a task which is there has left. -/
def taskLeft (w : World) : Nat := if w.tasks = [] then 0 else w.stepsLeft

theorem taskLeft_le (w : World) : w.taskLeft ≤ w.stepsLeft := by
  unfold taskLeft
  split
  · exact Nat.zero_le _
  · exact Nat.le_refl _

theorem finished_of_taskLeft {w : World} (h : w.Single) (hleft : w.taskLeft = 0) : w.Finished := by
  unfold taskLeft at hleft
  split at hleft
  · rename_i hnone
    refine .inr fun t ht => ?_
    rw [hnone] at ht
    cases ht
  · exact finished_of_stepsLeft h hleft

/-- From any point after the stop the task comes to its end by its own steps. -/
theorem Stopping.ends_alone {w : World} (h : w.Stopping) :
    ∃ own w', own.length ≤ 30 ∧ (∀ a ∈ own, World.byTask a = true) ∧ exec World.step w own = some w' ∧
      w'.Finished := by
  have hgoes : ∀ u : World, u.Stopping → 0 < u.taskLeft → ∃ as v, as.length ≤ 2 ∧
      (∀ a ∈ as, World.byTask a = true) ∧ exec World.step u as = some v ∧ v.Stopping ∧ v.taskLeft < u.taskLeft := by
    intro u hu hpos
    unfold taskLeft at hpos ⊢
    split at hpos
    · exact absurd hpos (Nat.lt_irrefl 0)
    · rename_i htasks
      obtain ⟨self, rest, hself⟩ := List.exists_cons_of_ne_nil htasks
      obtain ⟨as, v, hlen, has, hv, hstopping, hlt⟩ := @Stopping.goes_on u 0 self hu (by rw [hself]; rfl) hpos
      rw [if_neg htasks]
      exact ⟨as, v, hlen, has, hv, hstopping, Nat.lt_of_le_of_lt (taskLeft_le v) hlt⟩
  obtain ⟨own, w', hlen, hown, hw', hstopping, hzero⟩ := exec_usesUp_within hgoes h
  have hle := Nat.le_trans (taskLeft_le w) (stepsLeft_le w)
  exact ⟨own, w', by omega, hown, hw', finished_of_taskLeft hstopping.toSingle hzero⟩

/-- No task is in the `main` of the service, whose return nothing forces. -/
def OutOfMain (w : World) : Prop := ∀ t ∈ w.tasks, t.pc ≠ .inMain

theorem Stopping.outOfMain {w : World} (h : w.Stopping) (hmain : w.service.main = false) : w.OutOfMain := by
  intro t ht hpc
  have htrue := (h.task t.pc (List.mem_map_of_mem ht)).main hpc
  rw [hmain] at htrue
  cases htrue

/-- A stopped service whose `main` is `NULL` comes to its end, the hooks and the handler returning: with at most one
call of `Service_Start`, once a `Service_Stop` has made its store the program ends or the task is at rest after
fifteen steps of it, whatever the other threads do; and from any point on the task gets there alone, in thirty steps
of its own at most, of which only the ends of its waits by their timeouts are not taken by itself. -/
theorem stop_terminates (service : Service) (hmain : service.main = false) {acts later : List Act} {w w' : World}
    (hone : (acts ++ later).count (.call .start) ≤ 1) (hacts : exec step (init service) acts = some w)
    (hstopped : .stopped ∈ w.log) (hlater : exec step w later = some w') :
    (15 ≤ later.countP isTask → w'.Finished) ∧
      ∃ own w'', own.length ≤ 30 ∧ (∀ a ∈ own, byTask a = true) ∧ Always step OutOfMain w' own ∧
        exec step w' own = some w'' ∧ w''.Finished := by
  obtain ⟨hbefore, hafter⟩ := (meets_append hacts).1 (startFirst_of_count service _ hone)
  have hw : w.Ordered ∧ (w.fault = none → w.Ready) := exec_meets_invariant
    (I := fun u => u.Ordered ∧ (u.fault = none → u.Ready))
    (fun u a v hu hfirst hs => ⟨ordered_step hu.1 hfirst hs,
      ready_step hu.1.toSingle (hu.2 (step_advance hs).1) hs⟩) hacts hbefore
    ⟨ordered_init service, fun _ => ready_init service⟩
  have hstopping : w.Stopping := ⟨hw.1, hstopped, hw.2⟩
  have hw' : w'.Stopping := exec_meets_invariant (fun u a v hu hfirst hs => Stopping.step hu hfirst hs) hlater hafter
    hstopping
  have hkeeps : (init service).Keeps w' := exec_invariant (I := (init service).Keeps)
    (fun u a v hu hs => hu.trans (step_keeps hs)) ((exec_append hacts).trans hlater) (.same rfl)
  constructor
  · intro henough
    have hleft := exec_countP_sub (I := Stopping) (p := isTask) (φ := World.stepsLeft)
      (fun u a v hu hfirst hs => ⟨hu.step hfirst hs, (hu.stepsLeft hs).1⟩)
      (fun u a v hu _ hs htask => (hu.stepsLeft hs).2 htask) hlater hafter hstopping
    have hle := stepsLeft_le w
    exact finished_of_stepsLeft hw'.toSingle (by omega)
  · obtain ⟨own, w'', hlen, hown, hw'', hfinished⟩ := hw'.ends_alone
    refine ⟨own, w'', hlen, hown, ?_, hw'', hfinished⟩
    -- no step changes whether `main` is `NULL`
    exact always_of_meets (I := fun u => u.Stopping ∧ u.service.main = false) (fun u hu => hu.1.outOfMain hu.2)
      (fun u a v hu ha hs => ⟨hu.1.byTask ha hs, (step_keeps hs).main.trans hu.2⟩) ⟨hw', hkeeps.main.trans hmain⟩
      (meets_of_forall hown)

/-- The task of a service waits for an event when the service is stopped. -/
def stoppedRun : List Act := startCall 0 ++ List.replicate 5 (.task 0 plain) ++ stopCall 1

/-- The wait ends by its timeout and the task goes to its final sleep loop, where it stays. -/
def endingRun : List Act := .wake 0 (.task 0) .timedOut :: List.replicate 15 (.task 0 plain)

theorem stop_terminates_stoppedRun : ∃ w w', exec step (init handlerService) stoppedRun = some w ∧
    exec step w endingRun = some w' ∧ w'.Finished := by
  have hrun : ∃ w ∈ exec step (init handlerService) stoppedRun, .stopped ∈ w.log ∧
      (exec step w endingRun).isSome = true := by decide
  obtain ⟨w, hw, hstopped, hlater⟩ := hrun
  obtain ⟨w', hw'⟩ := Option.isSome_iff_exists.1 hlater
  exact ⟨w, w', hw, hw', (stop_terminates handlerService rfl (by decide) hw hstopped hw').1 (by decide)⟩

end World

end InfoWorkshop.Service
