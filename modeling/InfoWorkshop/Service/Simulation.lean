/-
The program of `World` seen as a `Life`: each of its steps is a step of the life or leaves it as it
is.
-/
import InfoWorkshop.Lib.Table
import InfoWorkshop.Service.Life
import InfoWorkshop.Service.World

namespace InfoWorkshop.Service

open InfoWorkshop.Core InfoWorkshop.Posix InfoWorkshop.Table

/-- What a task at `pc` has yet to do. -/
def TaskPc.stage : TaskPc → Stage
  | .entry | .inSetup | .body | .inMain | .loopTest | .load | .receive _ | .wait _ | .hand _ _
  | .inHandler => .working
  | .teardown | .inTeardown | .give => .ending
  | .deleteTask => .deleteTask
  | .deleteQueue => .deleteQueue
  | .clearQueue => .clearQueue
  | .asleep | .ended => .gone

/-- How far a call has come. -/
def Call.stage : Call → CallStage
  | .start .check => .idle
  | .start .setRunning => .passed
  | .start .setDefaults | .start .newQueue => .running
  | .start (.storeQueue q) => .made q
  | .start (.checkQueue q) => .stored q
  | .start (.createTask q) => .checked q
  | .start (.register i) | .start (.storeTask (some i)) => .created i
  | .start (.storeTask none) => .noTask
  | .start (.checkTask (some _)) => .done
  | .start (.checkTask none) => .nullStored
  | .notify (.load _) => .notifying
  | .notify (.send _ q) => .sending q
  | .stop _ | .notify _ | .returned => .idle

namespace World

/-- The life of the service. -/
def life (w : World) : Life :=
  { stopped := w.service.state = .stopped
    queue := w.service.queue
    task := w.service.task
    queues := w.queues.length
    freed := table w.queues QueueObject.deleted false
    tasks := w.tasks.length
    stage := table w.tasks (fun t => t.pc.stage) .absent
    own := table w.tasks TaskObject.queue none
    deleted := table w.tasks TaskObject.deleted false
    call := table w.calls Call.stage .idle }

/-- The step of the life that a step of the program may be. -/
def lifeAct (w : World) : Act → Option Life.Act
  | .caller c ch =>
    match w.calls[c]? with
    | some (.start .check) => if w.service.state = .stopped then some (.pass c) else none
    | some (.start .setRunning) => some (.run c)
    | some (.start .setDefaults) => none
    | some (.start .newQueue) => if ch.ok then some (.make c) else some (.makeNone c)
    | some (.start (.storeQueue _)) => some (.store c)
    | some (.start (.checkQueue _)) => some (.check c)
    | some (.start (.createTask _)) => if ch.ok then some (.create c) else some (.createNone c)
    | some (.start (.register _)) => none
    | some (.start (.storeTask (some _))) => some (.storeTask c)
    | some (.start (.storeTask none)) => some (.storeNull c)
    | some (.start (.checkTask (some _))) => some (.finish c)
    | some (.start (.checkTask none)) => some (.finishNull c)
    | some (.stop .setStopped) => some .stop
    | some (.notify (.check _)) => if w.service.state = .stopped then none else some (.notify c)
    | some (.notify (.load _)) => some (.load c)
    | some (.notify (.send _ _)) => some (.sent c)
    | _ => none
  | .task i _ =>
    match w.tasks[i]? with
    | none => none
    | some self =>
      match self.pc with
      | .inMain => some (.leave i)
      | .loopTest => if w.service.state = .running then none else some (.leave i)
      | .give => some (.give i)
      | .deleteTask => some (.deleteTask i)
      | .deleteQueue => some (.deleteQueue i)
      | .clearQueue => some (.clear i)
      | _ => none
  | .die i => some (.die i)
  | _ => none

/-! ## The life after an update -/

theorem life_goto {w : World} {c : Nat} {k : Call} (h : w.calls[c]? = some k) (k' : Call) :
    (w.goto c k').life = w.life.setCall c k'.stage := by
  simp only [life, goto, Life.setCall, table_set h]; rfl

/-- A call that moves within one stage. -/
theorem life_goto_same {w : World} {c : Nat} {k k' : Call} (h : w.calls[c]? = some k)
    (hk : k'.stage = k.stage) : (w.goto c k').life = w.life := by
  rw [life_goto h, hk]
  simp only [life, Life.setCall, update_table h]

theorem life_gotoTask {w : World} {i : Nat} {t : TaskObject} (h : w.tasks[i]? = some t) (pc : TaskPc) :
    (w.gotoTask i pc).life = w.life.setStage i pc.stage := by
  simp only [life, gotoTask, Life.setStage, List.length_modify, table_modify h, update_table h]; rfl

theorem life_gotoTask_same {w : World} {i : Nat} {t : TaskObject} {pc : TaskPc} (h : w.tasks[i]? = some t)
    (hpc : pc.stage = t.pc.stage) : (w.gotoTask i pc).life = w.life := by
  rw [life_gotoTask h, hpc]
  have hstage := update_table (f := fun t : TaskObject => t.pc.stage) (d := .absent) h
  simp only [life, Life.setStage, hstage]

@[simp] theorem life_emit (w : World) (e : Event) : (w.emit e).life = w.life := rfl

@[simp] theorem life_crash (w : World) (f : Fault) : (w.crash f).life = w.life := rfl

@[simp] theorem life_setSemaphore (w : World) (sem : Semaphore Nat) : (w.setSemaphore sem).life = w.life := rfl

@[simp] theorem life_setQueue (w : World) (q : Nat) (queue : Queue Thread) :
    (w.setQueue q queue).life = w.life := by
  have hfreed : table (w.queues.modify q fun o => { o with queue }) QueueObject.deleted false =
      table w.queues QueueObject.deleted false := table_modify_same q fun _ => rfl
  simp only [life, setQueue, List.length_modify, hfreed]; rfl

theorem life_enter (w : World) (api : Api) : ({ w with calls := w.calls ++ [api.enter] } : World).life = w.life := by
  have hstage : api.enter.stage = .idle := by cases api <;> rfl
  simp only [life, table_append, hstage, update_table_of_le (Nat.le_refl _)]

theorem life_newQueue (w : World) (queue : Queue Thread) :
    ({ w with queues := w.queues ++ [⟨queue, false, false⟩] } : World).life =
      { w.life with queues := w.life.queues + 1 } := by
  simp only [life, table_append, update_table_of_le (Nat.le_refl _), List.length_append, List.length_singleton]

theorem life_createTask (w : World) (queue : Option Nat) :
    ({ w with tasks := w.tasks ++ [⟨.entry, queue, false, false⟩] } : World).life =
      { w.life with
        tasks := w.life.tasks + 1
        own := Function.update w.life.own w.life.tasks queue
        deleted := Function.update w.life.deleted w.life.tasks false }.setStage w.life.tasks .working := by
  simp only [life, Life.setStage, table_append, List.length_append, List.length_singleton]
  rfl

theorem life_register (w : World) (i : Nat) (ok : Bool) :
    ({ w with tasks := w.tasks.modify i fun t => { t with registered := ok } } : World).life = w.life := by
  have hstage := table_modify_same (l := w.tasks) (f := fun t => t.pc.stage) (d := .absent) i
    (g := fun t => { t with registered := ok }) fun _ => rfl
  have hown := table_modify_same (l := w.tasks) (f := TaskObject.queue) (d := none) i
    (g := fun t => { t with registered := ok }) fun _ => rfl
  have hdeleted := table_modify_same (l := w.tasks) (f := TaskObject.deleted) (d := false) i
    (g := fun t => { t with registered := ok }) fun _ => rfl
  simp only [life, List.length_modify, hstage, hown, hdeleted]

/-! ## The steps -/

/-- A step of the program is the step `lifeAct` names, or does not change the life. -/
def Follows (w : World) (b : Option Life.Act) (w' : World) : Prop :=
  w'.life = w.life ∨ ∃ act, b = some act ∧ Life.Step w.life act w'.life

/-- A section of a queue function changes the life as its body does, or not at all. -/
theorem onQueue_follows {w w' : World} {h : Option Nat} {body : Nat → Queue Thread → Option World}
    {b : Option Life.Act} (hw : w.onQueue h body = some w')
    (hbody : ∀ q o, w.queues[q]? = some o → body q o.queue = some w' → w.Follows b w') : w.Follows b w' := by
  unfold onQueue at hw
  split at hw
  · cases hw; exact .inl rfl
  · split at hw
    · cases hw
    · rename_i q o ho
      split at hw
      · cases hw; exact .inl rfl
      · split at hw
        · cases hw
        · exact hbody _ o ho hw

theorem call_life {w : World} {c : Nat} {k : Call} (h : w.calls[c]? = some k) : w.life.call c = k.stage :=
  table_eq h

theorem stage_life {w : World} {i : Nat} {t : TaskObject} (h : w.tasks[i]? = some t) :
    w.life.stage i = t.pc.stage := table_eq h

theorem serviceStart_follows {w w' : World} {c : Nat} {ch : Choice} {pc : StartPc}
    (h : w.calls[c]? = some (.start pc)) (hs : w.serviceStart c ch pc = some w') :
    w.Follows (w.lifeAct (.caller c ch)) w' := by
  have hcall := call_life h
  unfold lifeAct
  simp only [h]
  cases pc with
  | check =>
    simp only [serviceStart] at hs
    split at hs
    · cases hs; exact .inl (life_goto_same h rfl)
    · rename_i hstop
      cases hs
      rw [ne_eq, not_not] at hstop
      refine .inr ⟨_, if_pos hstop, ?_⟩
      rw [life_goto h]
      exact .pass c hcall (by simp [life, hstop])
  | setRunning =>
    cases hs
    refine .inr ⟨_, rfl, ?_⟩
    rw [life_goto]
    · exact .run c hcall
    · exact h
  | setDefaults =>
    -- stack size and priority are no part of the life
    cases hs
    refine .inl ?_
    rw [life_goto_same]
    · rfl
    · exact h
    · rfl
  | newQueue =>
    simp only [serviceStart, Queue.new] at hs
    cases hok : ch.ok with
    | true =>
      simp only [hok] at hs
      cases hs
      refine .inr ⟨_, rfl, ?_⟩
      rw [life_goto, life_newQueue]
      · exact .make c hcall
      · exact h
    | false =>
      simp only [hok] at hs
      cases hs
      refine .inr ⟨_, rfl, ?_⟩
      rw [life_goto h]
      exact .makeNone c hcall
  | storeQueue q =>
    cases hs
    refine .inr ⟨_, rfl, ?_⟩
    rw [life_goto]
    · exact .store c q hcall
    · exact h
  | checkQueue q =>
    simp only [serviceStart] at hs
    split at hs
    · cases hs; exact .inl rfl
    · rename_i hq
      cases hs
      refine .inr ⟨_, rfl, ?_⟩
      rw [life_goto h]
      exact .check c q hcall hq
  | createTask q =>
    simp only [serviceStart] at hs
    cases hok : ch.ok with
    | true =>
      simp only [hok] at hs
      cases hs
      refine .inr ⟨_, rfl, ?_⟩
      rw [life_goto, life_createTask]
      · exact .create c q hcall
      · exact h
    | false =>
      simp only [hok] at hs
      cases hs
      refine .inr ⟨_, rfl, ?_⟩
      rw [life_goto h]
      exact .createNone c q hcall
  | register i =>
    cases hs
    refine .inl ?_
    rw [life_goto_same, life_register]
    · exact h
    · rfl
  | storeTask t =>
    cases hs
    cases t with
    | some i =>
      refine .inr ⟨_, rfl, ?_⟩
      rw [life_goto]
      · exact .storeTask c i hcall
      · exact h
    | none =>
      refine .inr ⟨_, rfl, ?_⟩
      rw [life_goto]
      · exact .storeNull c hcall
      · exact h
  | checkTask t =>
    simp only [serviceStart] at hs
    split at hs
    · cases hs; exact .inl rfl
    · rename_i ht
      cases hs
      cases t with
      | some i =>
        refine .inr ⟨_, rfl, ?_⟩
        rw [life_goto]
        · exact .finish c hcall
        · exact h
      | none =>
        refine .inr ⟨_, rfl, ?_⟩
        rw [life_goto]
        · exact .finishNull c hcall ht
        · exact h

theorem serviceStop_follows {w w' : World} {c : Nat} {ch : Choice} {pc : StopPc}
    (h : w.calls[c]? = some (.stop pc)) (hs : w.serviceStop c pc = some w') :
    w.Follows (w.lifeAct (.caller c ch)) w' := by
  unfold lifeAct
  simp only [h]
  cases pc with
  | check =>
    simp only [serviceStop] at hs
    split at hs <;> cases hs <;> exact .inl (life_goto_same h rfl)
  | setStopped =>
    cases hs
    refine .inr ⟨_, rfl, ?_⟩
    rw [life_goto_same]
    · exact .stop
    · exact h
    · rfl

theorem life_drained {w : World} {c : Nat} {k : Call} (h : w.calls[c]? = some k) (hk : k.stage = .idle)
    (error : ErrorCode) (ret : ErrorCode × Memory.Bytes) : (w.drained c error ret).life = w.life := by
  unfold drained
  split
  · rw [life_goto_same]
    · rfl
    · exact h
    · rw [hk]; rfl
  · exact life_goto_same h (by rw [hk]; rfl)

theorem serviceNotify_follows {w w' : World} {c : Nat} {ch : Choice} {pc : NotifyPc}
    (h : w.calls[c]? = some (.notify pc)) (hs : w.serviceNotify c ch pc = some w') :
    w.Follows (w.lifeAct (.caller c ch)) w' := by
  have hcall := call_life h
  unfold lifeAct
  simp only [h]
  cases pc with
  | check e =>
    simp only [serviceNotify] at hs
    split at hs
    · rename_i hrun
      cases hs
      refine .inr ⟨_, if_neg hrun, ?_⟩
      rw [life_goto h]
      exact .notify c hcall (by simpa [life] using hrun)
    · cases hs; exact .inl (life_goto_same h rfl)
  | load e =>
    cases hs
    refine .inr ⟨_, rfl, ?_⟩
    rw [life_goto h]
    exact .load c hcall
  | send e q =>
    simp only [serviceNotify] at hs
    refine onQueue_follows hs fun i o ho hbody => ?_
    rcases hsend : o.queue.send e.toBytes ch.pick with ⟨error, queue⟩
    simp only [hsend] at hbody
    split at hbody
    · cases hbody
      refine .inr ⟨_, rfl, ?_⟩
      rw [life_goto, life_emit, life_setQueue]
      · exact .sent c q hcall
      · exact h
    · cases hbody
      refine .inr ⟨_, rfl, ?_⟩
      rw [life_goto, life_emit, life_setQueue]
      · exact .sent c q hcall
      · exact h
  | drainLoad event error =>
    cases hs
    exact .inl (life_goto_same h rfl)
  | drainReceive event error q =>
    simp only [serviceNotify] at hs
    refine onQueue_follows hs fun i o ho hbody => .inl ?_
    rcases hrec : o.queue.receive (.call c) event 10 ch.tv with ⟨_ | ret, queue⟩
    · simp only [hrec] at hbody
      cases hbody
      rw [life_goto_same, life_setQueue]
      · exact h
      · rfl
    · simp only [hrec] at hbody
      cases hbody
      rw [life_drained, life_setQueue]
      · exact h
      · rfl
  | drainWait error q =>
    simp only [serviceNotify] at hs
    refine onQueue_follows hs fun i o ho hbody => .inl ?_
    rcases hres : o.queue.resume (.call c) with _ | ⟨ret, queue⟩
    · simp only [hres] at hbody; cases hbody
    · simp only [hres] at hbody
      cases hbody
      rw [life_drained, life_setQueue]
      · exact h
      · rfl
  | reboot error =>
    simp only [serviceNotify] at hs
    split at hs
    · cases hs; exact .inl rfl
    · cases hs; exact .inl (life_goto_same h rfl)

/-- The next stage of the task, with nothing else changed. -/
theorem gotoTask_follows {w v : World} {i : Nat} {self : TaskObject} {act : Life.Act} {pc : TaskPc}
    (hv : v.life = w.life) (h : v.tasks[i]? = some self)
    (hstep : Life.Step w.life act (w.life.setStage i pc.stage)) :
    w.Follows (some act) (v.gotoTask i pc) := by
  refine .inr ⟨act, rfl, ?_⟩
  rw [life_gotoTask h, hv]
  exact hstep

theorem gotoTask_follows_same {w v : World} {i : Nat} {self : TaskObject} {b : Option Life.Act} {pc : TaskPc}
    (hv : v.life = w.life) (h : v.tasks[i]? = some self) (hpc : pc.stage = self.pc.stage) :
    w.Follows b (v.gotoTask i pc) := .inl (by rw [life_gotoTask_same h hpc, hv])

theorem life_taskDelete {w : World} {j : Nat} {t : TaskObject} (h : w.tasks[j]? = some t) :
    ({ w with tasks := w.tasks.modify j fun t => { t with registered := false, deleted := true } } :
      World).life = { w.life with deleted := Function.update w.life.deleted j true } := by
  simp only [life, List.length_modify, table_modify h, update_table h]

theorem deleteTarget_cases (w : World) (i : Nat) (self : TaskObject) :
    (w.deleteTarget i self = none ∧ w.service.task = none) ∨
    ∃ j, w.deleteTarget i self = some j ∧ (w.service.task = some j ∨ w.service.task = none ∧ j = i) := by
  unfold deleteTarget
  rcases w.service.task with _ | j
  · cases self.registered
    · exact .inl ⟨rfl, rfl⟩
    · exact .inr ⟨i, rfl, .inr ⟨rfl, rfl⟩⟩
  · exact .inr ⟨j, rfl, .inl rfl⟩

theorem taskDelete_follows {w w' : World} {i : Nat} {self : TaskObject} (h : w.tasks[i]? = some self)
    (hpc : self.pc = .deleteTask) (hs : w.taskDelete i self = some w') :
    w.Follows (some (.deleteTask i)) w' := by
  have hstage : w.life.stage i = .deleteTask := by rw [stage_life h, hpc]; rfl
  unfold taskDelete at hs
  rcases w.deleteTarget_cases i self with ⟨htarget, hnone⟩ | ⟨j, htarget, hj⟩
  · rw [htarget] at hs
    cases hs
    exact gotoTask_follows rfl h (.deleteNone i hstage hnone)
  · simp only [htarget] at hs
    split at hs
    · cases hs
    · rename_i t ht
      split at hs
      · cases hs; exact .inl rfl
      · cases hs
        refine .inr ⟨_, rfl, ?_⟩
        have hself : (w.tasks.modify j fun t => { t with registered := false, deleted := true })[i]? =
            some (if j = i then { self with registered := false, deleted := true } else self) := by
          simp [List.getElem?_modify, h]
        rw [life_gotoTask hself, life_taskDelete ht]
        exact .deleteTask i j hstage hj

theorem life_queueDelete {w : World} {q : Nat} {o : QueueObject} (h : w.queues[q]? = some o) :
    ({ w with queues := w.queues.modify q fun o =>
        { o with deleted := true, queue := { o.queue with heap := o.queue.delete } } } : World).life =
      { w.life with freed := Function.update w.life.freed q true } := by
  simp only [life, List.length_modify, table_modify h]

theorem queueDelete_follows {w w' : World} {i : Nat} {self : TaskObject} (h : w.tasks[i]? = some self)
    (hpc : self.pc = .deleteQueue) (hs : w.queueDelete i = some w') :
    w.Follows (some (.deleteQueue i)) w' := by
  have hstage : w.life.stage i = .deleteQueue := by rw [stage_life h, hpc]; rfl
  unfold queueDelete at hs
  split at hs
  · rename_i hq
    cases hs
    exact gotoTask_follows rfl h (.deleteNoQueue i hstage hq)
  · rename_i q hq
    split at hs
    · cases hs
    · rename_i o ho
      split at hs
      · cases hs; exact .inl rfl
      · cases hs
        refine .inr ⟨_, rfl, ?_⟩
        rw [life_gotoTask, life_queueDelete ho]
        · exact .deleteQueue i q hstage hq
        · exact h

theorem serviceMain_follows {w w' : World} {i : Nat} {self : TaskObject} {ch : Choice}
    (h : w.tasks[i]? = some self) (hs : w.serviceMain i self ch = some w') :
    w.Follows (w.lifeAct (.task i ch)) w' := by
  have hstage := stage_life h
  unfold lifeAct
  simp only [h]
  unfold serviceMain at hs
  cases hpc : self.pc with
  | entry =>
    simp only [hpc] at hs
    split at hs <;> cases hs <;> exact gotoTask_follows_same rfl h (by rw [hpc]; rfl)
  | inSetup => simp only [hpc] at hs; cases hs; exact gotoTask_follows_same rfl h (by rw [hpc]; rfl)
  | body =>
    simp only [hpc] at hs
    split at hs <;> cases hs <;> exact gotoTask_follows_same rfl h (by rw [hpc]; rfl)
  | inMain =>
    simp only [hpc] at hs hstage
    cases hs
    exact gotoTask_follows rfl h (.leave i hstage)
  | loopTest =>
    simp only [hpc] at hs hstage
    split at hs
    · cases hs; exact gotoTask_follows_same rfl h (by rw [hpc]; rfl)
    · rename_i hrun
      cases hs
      simp only [if_neg hrun]
      exact gotoTask_follows rfl h (.leave i hstage)
  | load => simp only [hpc] at hs; cases hs; exact gotoTask_follows_same rfl h (by rw [hpc]; rfl)
  | receive q =>
    simp only [hpc] at hs
    refine onQueue_follows hs fun k o ho hbody => ?_
    split at hbody <;> cases hbody <;>
      exact gotoTask_follows_same (life_setQueue w k _) h (by rw [hpc]; rfl)
  | wait q =>
    simp only [hpc] at hs
    refine onQueue_follows hs fun k o ho hbody => ?_
    split at hbody <;> cases hbody
    exact gotoTask_follows_same (life_setQueue w k _) h (by rw [hpc]; rfl)
  | hand error event =>
    simp only [hpc] at hs
    split at hs <;> cases hs <;> exact gotoTask_follows_same rfl h (by rw [hpc]; rfl)
  | inHandler => simp only [hpc] at hs; cases hs; exact gotoTask_follows_same rfl h (by rw [hpc]; rfl)
  | teardown =>
    simp only [hpc] at hs
    split at hs <;> cases hs <;> exact gotoTask_follows_same rfl h (by rw [hpc]; rfl)
  | inTeardown => simp only [hpc] at hs; cases hs; exact gotoTask_follows_same rfl h (by rw [hpc]; rfl)
  | give =>
    simp only [hpc] at hs hstage
    split at hs
    · cases hs; exact .inl rfl
    · rename_i sem hsem
      split at hs
      · cases hs; exact .inl rfl
      · cases hs
        exact gotoTask_follows rfl h (.give i hstage)
  | deleteTask => simp only [hpc] at hs; exact taskDelete_follows h hpc hs
  | deleteQueue => simp only [hpc] at hs; exact queueDelete_follows h hpc hs
  | clearQueue =>
    simp only [hpc] at hs hstage
    cases hs
    refine .inr ⟨_, rfl, ?_⟩
    rw [life_gotoTask]
    · exact .clear i hstage
    · exact h
  | asleep => simp only [hpc] at hs; cases hs; exact .inl rfl
  | ended => simp only [hpc] at hs; cases hs

theorem die_follows {w w' : World} {i : Nat} {self : TaskObject} (h : w.tasks[i]? = some self)
    (hs : w.die i self = some w') : w.Follows (some (.die i)) w' := by
  unfold die at hs
  split at hs
  · rename_i hdie
    obtain ⟨hdel, hpoint⟩ := hdie
    have hstage := stage_life h
    have hstep : Life.Step w.life (.die i) (w.life.setStage i .gone) := by
      refine .die i ?_ ?_ ?_ ((table_eq h).trans hdel) <;> rw [hstage] <;> intro hpc <;>
        cases hself : self.pc <;> rw [hself] at hpc hpoint <;> simp [TaskPc.stage, cancelPoint] at hpc hpoint
    split at hs
    · rename_i q hq
      cases hs
      have hlife : ({ w with queues := w.queues.modify q fun o => { o with mutexLost := true } } : World).life =
          w.life := by
        have hfreed := table_modify_same (l := w.queues) (f := QueueObject.deleted) (d := false) q
          (g := fun o => { o with mutexLost := true }) fun _ => rfl
        simp only [life, List.length_modify, hfreed]
      exact gotoTask_follows hlife h hstep
    · cases hs
      exact gotoTask_follows rfl h hstep
  · cases hs

/-- The program follows the life. -/
theorem step_follows {w w' : World} {a : Act} (hs : w.step a = some w') : w.Follows (w.lifeAct a) w' := by
  cases (step_advance hs).2 with
  | call api => exact .inl (w.life_enter api)
  | start hc hs => exact serviceStart_follows hc hs
  | stop hc hs => exact serviceStop_follows hc hs
  | notify hc hs => exact serviceNotify_follows hc hs
  | task ht hs => exact serviceMain_follows ht hs
  | wake => exact .inl (life_setQueue ..)
  | die ht hs => exact die_follows ht hs
  | take | wakeTaker | retake => exact .inl rfl

/-- What the steps of the life preserve, the steps of the program preserve. -/
theorem preserved {I : Life → Prop} {w w' : World} {a : Act} (h : I w.life) (hs : w.step a = some w')
    (hstep : ∀ b, w.lifeAct a = some b → Life.Step w.life b w'.life → I w'.life) : I w'.life := by
  rcases step_follows hs with hsame | ⟨b, hb, hlife⟩
  · rw [hsame]; exact h
  · exact hstep b hb hlife

end World

end InfoWorkshop.Service
