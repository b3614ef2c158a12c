/-
What the steps leave alone, and what each kind of step may do: a step of a call to the calls, the tasks,
the state and the log; a step of another thread to the calls and the state.
-/
import InfoWorkshop.Lib.Table
import InfoWorkshop.Service.World

namespace InfoWorkshop.Service

open InfoWorkshop.Core InfoWorkshop.Posix InfoWorkshop.Table

/-- The events of the calls other than the store of `SERVICE_STOPPED`. -/
def Event.note : Event → Bool
  | .started | .accepted _ | .overflow | .drained _ => true
  | _ => false

namespace World

theorem map_pc_gotoTask (l : List TaskObject) (i : Nat) (pc : TaskPc) :
    (l.modify i fun t => { t with pc }).map TaskObject.pc = (l.map TaskObject.pc).set i pc := by
  apply List.ext_getElem?
  intro j
  rw [List.getElem?_map, List.getElem?_modify, List.getElem?_set, List.getElem?_map]
  by_cases hj : i = j
  · subst hj
    rcases h : l[i]? with _ | t
    · simpa using h
    · simp [(List.getElem?_eq_some_iff.1 h).1]
  · simp [hj]

/-- What no step changes. -/
structure Keeps (w w' : World) : Prop where
  setupHook : w'.service.setupHook = w.service.setupHook
  teardownHook : w'.service.teardownHook = w.service.teardownHook
  main : w'.service.main = w.service.main
  handler : w'.service.handler = w.service.handler
  semaphore : w.service.terminationSemaphore = none → w'.service.terminationSemaphore = none

theorem Keeps.same {w w' : World} (h : w'.service = w.service) : w.Keeps w' := by
  constructor <;> simp [h]

/-- What a step of call `c` does to the state and the log. -/
inductive CallEffect (w : World) (c : Nat) (w' : World) : Prop
  | quiet : w'.service.state = w.service.state → w'.log = w.log → CallEffect w c w'
  | note (e : Event) : Event.note e = true → w'.service.state = w.service.state → w'.log = w.log ++ [e] →
    CallEffect w c w'
  | run : w.calls[c]? = some (.start .setRunning) → w'.service.state = .running → w'.log = w.log →
    CallEffect w c w'
  | stop : w.calls[c]? = some (.stop .setStopped) → w'.service.state = .stopped →
    w'.log = w.log ++ [.stopped] → CallEffect w c w'

/-- A call of `Service_Start` that has set the state to `SERVICE_RUNNING`. -/
def hasRun : Call → Bool
  | .start .check | .start .setRunning => false
  | .start _ => true
  | _ => false

/-- How call `c` can come to be at `k`. -/
def NextCall (w : World) (c : Nat) (w' : World) : Call → Prop
  | .start .check => False
  | .start .setRunning => w.calls[c]? = some (.start .check)
  | .start .setDefaults => w'.service.state = .running
  | .start _ => ∃ k, w.calls[c]? = some k ∧ hasRun k = true
  | .stop .setStopped => w.service.state ≠ .stopped
  | .stop .check | .notify _ | .returned => True

/-- What a step of call `c` does: the call goes on, or the program ends, and at most one task is created. -/
structure CallStep (w : World) (c : Nat) (w' : World) : Prop extends Keeps w w' where
  calls : (w'.calls = w.calls ∧ w'.fault ≠ none) ∨ ∃ k, w.NextCall c w' k ∧ w'.calls = w.calls.set c k
  tasks : w'.tasks.map TaskObject.pc = w.tasks.map TaskObject.pc ∨
    (∃ q, w.calls[c]? = some (.start (.createTask q))) ∧
      w'.tasks.map TaskObject.pc = w.tasks.map TaskObject.pc ++ [.entry]
  effect : w.CallEffect c w'

/-- What a step of another thread than the calls leaves alone. -/
structure TaskStep (w w' : World) : Prop extends Keeps w w' where
  calls : w'.calls = w.calls
  state : w'.service.state = w.service.state

/-! ## The steps of the calls -/

/-- The program ends. -/
theorem CallStep.crash (w : World) (c : Nat) (f : Fault) : w.CallStep c (w.crash f) :=
  ⟨.same rfl, .inl ⟨rfl, by simp [World.crash]⟩, .inl rfl, .quiet rfl rfl⟩

/-- The call goes on, and nothing is created. -/
theorem CallStep.goto {w v : World} {c : Nat} {k : Call} (hk : w.NextCall c (v.goto c k) k) (h : w.Keeps v)
    (hcalls : v.calls = w.calls) (htasks : v.tasks.map TaskObject.pc = w.tasks.map TaskObject.pc)
    (he : w.CallEffect c v) : w.CallStep c (v.goto c k) := by
  refine ⟨⟨h.setupHook, h.teardownHook, h.main, h.handler, h.semaphore⟩, .inr ⟨k, hk, ?_⟩, .inl htasks, ?_⟩
  · rw [← hcalls]; rfl
  · rcases he with ⟨hs, hl⟩ | ⟨e, hn, hs, hl⟩ | ⟨hc, hs, hl⟩ | ⟨hc, hs, hl⟩
    · exact .quiet hs hl
    · exact .note e hn hs hl
    · exact .run hc hs hl
    · exact .stop hc hs hl

theorem onQueue_callStep {w w' : World} {c : Nat} {h : Option Nat} {body : Nat → Queue Thread → Option World}
    (hs : w.onQueue h body = some w') (hbody : ∀ q queue, body q queue = some w' → w.CallStep c w') :
    w.CallStep c w' := by
  unfold onQueue at hs
  split at hs
  · cases hs; exact .crash w c _
  · split at hs
    · cases hs
    · split at hs
      · cases hs; exact .crash w c _
      · split at hs
        · cases hs
        · exact hbody _ _ hs

theorem serviceStart_callStep {w w' : World} {c : Nat} {ch : Choice} {pc : StartPc}
    (h : w.calls[c]? = some (.start pc)) (hs : w.serviceStart c ch pc = some w') : w.CallStep c w' := by
  cases pc with
  | check =>
    simp only [serviceStart] at hs
    split at hs <;> cases hs
    · exact .goto trivial (.same rfl) rfl rfl (.quiet rfl rfl)
    · exact .goto h (.same rfl) rfl rfl (.quiet rfl rfl)
  | setRunning =>
    cases hs
    exact .goto rfl ⟨rfl, rfl, rfl, rfl, id⟩ rfl rfl (.run h rfl rfl)
  | newQueue =>
    simp only [serviceStart] at hs
    split at hs <;> cases hs <;> exact .goto ⟨_, h, rfl⟩ (.same rfl) rfl rfl (.quiet rfl rfl)
  | setDefaults | storeQueue q | storeTask t =>
    cases hs
    exact .goto ⟨_, h, rfl⟩ ⟨rfl, rfl, rfl, rfl, id⟩ rfl rfl (.quiet rfl rfl)
  | checkQueue q =>
    simp only [serviceStart] at hs
    split at hs <;> cases hs
    · exact .crash w c _
    · exact .goto ⟨_, h, rfl⟩ (.same rfl) rfl rfl (.quiet rfl rfl)
  | createTask q =>
    simp only [serviceStart] at hs
    split at hs <;> cases hs
    · refine ⟨.same rfl, .inr ⟨.start (.register w.tasks.length), ⟨_, h, rfl⟩, rfl⟩, .inr ⟨⟨q, h⟩, ?_⟩,
        .quiet rfl rfl⟩
      show (w.tasks ++ [_]).map TaskObject.pc = _
      rw [List.map_append]
      rfl
    · exact .goto ⟨_, h, rfl⟩ (.same rfl) rfl rfl (.quiet rfl rfl)
  | register t =>
    cases hs
    exact .goto ⟨_, h, rfl⟩ (.same rfl) rfl (map_modify_same t fun _ => rfl) (.quiet rfl rfl)
  | checkTask t =>
    simp only [serviceStart] at hs
    split at hs <;> cases hs
    · exact .crash w c _
    · exact .goto trivial (.same rfl) rfl rfl (.note .started rfl rfl rfl)

theorem serviceStop_callStep {w w' : World} {c : Nat} {pc : StopPc} (h : w.calls[c]? = some (.stop pc))
    (hs : w.serviceStop c pc = some w') : w.CallStep c w' := by
  cases pc with
  | check =>
    simp only [serviceStop] at hs
    split at hs
    · cases hs
      exact .goto trivial (.same rfl) rfl rfl (.quiet rfl rfl)
    · rename_i hrun
      cases hs
      exact .goto hrun (.same rfl) rfl rfl (.quiet rfl rfl)
  | setStopped =>
    cases hs
    exact .goto trivial ⟨rfl, rfl, rfl, rfl, id⟩ rfl rfl (.stop h rfl rfl)

theorem drained_callStep {w v : World} {c : Nat} (h : w.Keeps v) (hcalls : v.calls = w.calls)
    (htasks : v.tasks = w.tasks) (hstate : v.service.state = w.service.state) (hlog : v.log = w.log)
    (error : ErrorCode) (ret : ErrorCode × Memory.Bytes) : w.CallStep c (v.drained c error ret) := by
  unfold drained
  split
  · refine .goto trivial ⟨h.setupHook, h.teardownHook, h.main, h.handler, h.semaphore⟩ hcalls
      (congrArg _ htasks) (.note (.drained (.ofBytes ret.2)) rfl hstate ?_)
    rw [← hlog]; rfl
  · exact .goto trivial h hcalls (congrArg _ htasks) (.quiet hstate hlog)

theorem serviceNotify_callStep {w w' : World} {c : Nat} {ch : Choice} {pc : NotifyPc}
    (hs : w.serviceNotify c ch pc = some w') : w.CallStep c w' := by
  cases pc with
  | check e =>
    simp only [serviceNotify] at hs
    split at hs <;> cases hs <;> exact .goto trivial (.same rfl) rfl rfl (.quiet rfl rfl)
  | load | drainLoad =>
    cases hs
    exact .goto trivial (.same rfl) rfl rfl (.quiet rfl rfl)
  | send e q =>
    simp only [serviceNotify] at hs
    refine onQueue_callStep hs fun i queue hbody => ?_
    split at hbody <;> cases hbody
    · exact .goto trivial (.same rfl) rfl rfl (.note .overflow rfl rfl rfl)
    · exact .goto trivial (.same rfl) rfl rfl (.note (.accepted e) rfl rfl rfl)
  | drainReceive b error q =>
    simp only [serviceNotify] at hs
    refine onQueue_callStep hs fun i queue hbody => ?_
    split at hbody <;> cases hbody
    · exact .goto trivial (.same rfl) rfl rfl (.quiet rfl rfl)
    · exact drained_callStep (w := w) (v := w.setQueue i _) (.same rfl) rfl rfl rfl rfl _ _
  | drainWait error q =>
    simp only [serviceNotify] at hs
    refine onQueue_callStep hs fun i queue hbody => ?_
    split at hbody <;> cases hbody
    exact drained_callStep (w := w) (v := w.setQueue i _) (.same rfl) rfl rfl rfl rfl _ _
  | reboot error =>
    simp only [serviceNotify] at hs
    split at hs <;> cases hs
    · exact .crash w c _
    · exact .goto trivial (.same rfl) rfl rfl (.quiet rfl rfl)

/-- What a step of a call does. -/
theorem caller_callStep {w w' : World} {c : Nat} {ch : Choice} (hs : w.Advance (.caller c ch) w') :
    w.CallStep c w' := by
  cases hs with
  | start hc hs => exact serviceStart_callStep hc hs
  | stop hc hs => exact serviceStop_callStep hc hs
  | notify _ hs => exact serviceNotify_callStep hs

/-! ## The steps of the other threads -/

theorem TaskStep.same {w w' : World} (hservice : w'.service = w.service) (hcalls : w'.calls = w.calls) :
    w.TaskStep w' :=
  ⟨.same hservice, hcalls, by rw [hservice]⟩

theorem onQueue_taskStep {w w' : World} {h : Option Nat} {body : Nat → Queue Thread → Option World}
    (hs : w.onQueue h body = some w') (hbody : ∀ q queue, body q queue = some w' → w.TaskStep w') :
    w.TaskStep w' := by
  unfold onQueue at hs
  split at hs
  · cases hs; exact .same rfl rfl
  · split at hs
    · cases hs
    · split at hs
      · cases hs; exact .same rfl rfl
      · split at hs
        · cases hs
        · exact hbody _ _ hs

theorem taskDelete_taskStep {w w' : World} {i : Nat} {self : TaskObject}
    (hs : w.taskDelete i self = some w') : w.TaskStep w' := by
  unfold taskDelete at hs
  split at hs
  · cases hs; exact .same rfl rfl
  · split at hs
    · cases hs
    · split at hs <;> cases hs <;> exact .same rfl rfl

theorem queueDelete_taskStep {w w' : World} {i : Nat} (hs : w.queueDelete i = some w') : w.TaskStep w' := by
  unfold queueDelete at hs
  split at hs
  · cases hs; exact .same rfl rfl
  · split at hs
    · cases hs
    · split at hs <;> cases hs <;> exact .same rfl rfl

theorem serviceMain_taskStep {w w' : World} {i : Nat} {self : TaskObject} {ch : Choice}
    (hs : w.serviceMain i self ch = some w') : w.TaskStep w' := by
  unfold serviceMain at hs
  cases hpc : self.pc with
  | entry | body | hand | teardown | loopTest =>
    simp only [hpc] at hs
    split at hs <;> cases hs <;> exact .same rfl rfl
  | receive q =>
    simp only [hpc] at hs
    refine onQueue_taskStep hs fun k queue hbody => ?_
    split at hbody <;> cases hbody <;> exact .same rfl rfl
  | wait q =>
    simp only [hpc] at hs
    refine onQueue_taskStep hs fun k queue hbody => ?_
    split at hbody <;> cases hbody
    exact .same rfl rfl
  | give =>
    simp only [hpc] at hs
    split at hs
    · cases hs; exact .same rfl rfl
    · rename_i sem hsem
      split at hs <;> cases hs
      · exact ⟨⟨rfl, rfl, rfl, rfl, fun hnone => by rw [hsem] at hnone; cases hnone⟩, rfl, rfl⟩
      · exact ⟨⟨rfl, rfl, rfl, rfl, fun hnone => by rw [hsem] at hnone; cases hnone⟩, rfl, rfl⟩
  | deleteTask => simp only [hpc] at hs; exact taskDelete_taskStep hs
  | deleteQueue => simp only [hpc] at hs; exact queueDelete_taskStep hs
  | clearQueue =>
    simp only [hpc] at hs
    cases hs
    exact ⟨⟨rfl, rfl, rfl, rfl, id⟩, rfl, rfl⟩
  | ended => simp only [hpc] at hs; cases hs
  | _ => simp only [hpc] at hs; cases hs; exact .same rfl rfl

theorem die_taskStep {w w' : World} {i : Nat} {self : TaskObject} (hs : w.die i self = some w') :
    w.TaskStep w' := by
  unfold die at hs
  split at hs
  · split at hs <;> cases hs <;> exact .same rfl rfl
  · cases hs

/-- What happens besides the steps of calls and tasks: a call begins, or a queue or the semaphore
changes. -/
structure OtherStep (w w' : World) : Prop extends Keeps w w' where
  tasks : w'.tasks = w.tasks
  state : w'.service.state = w.service.state
  log : w'.log = w.log

/-- The steps that are not those of a call or of a task. -/
def Act.other : Act → Bool
  | .caller _ _ | .task _ _ | .die _ => false
  | _ => true

theorem advance_otherStep {w w' : World} {a : Act} (ha : Act.other a = true) (hs : w.Advance a w') :
    w.OtherStep w' := by
  cases hs with
  | start | stop | notify | task | die => cases ha
  | call api => exact ⟨.same rfl, rfl, rfl, rfl⟩
  | wake => exact ⟨.same rfl, rfl, rfl, rfl⟩
  | take hsem | wakeTaker hsem | retake hsem =>
    exact ⟨⟨rfl, rfl, rfl, rfl, fun hnone => by rw [hsem] at hnone; cases hnone⟩, rfl, rfl, rfl⟩

/-! ## Any step -/

theorem task_taskStep {w w' : World} {i : Nat} {ch : Choice} (hs : w.Advance (.task i ch) w') :
    w.TaskStep w' := by
  cases hs with
  | task _ hs => exact serviceMain_taskStep hs

theorem die_advance_taskStep {w w' : World} {i : Nat} (hs : w.Advance (.die i) w') : w.TaskStep w' := by
  cases hs with
  | die _ hs => exact die_taskStep hs

theorem step_keeps {w w' : World} {a : Act} (hs : w.step a = some w') : w.Keeps w' := by
  obtain ⟨-, hs⟩ := step_advance hs
  cases a with
  | caller c ch => exact (caller_callStep hs).toKeeps
  | task i ch => exact (task_taskStep hs).toKeeps
  | die i => exact (die_advance_taskStep hs).toKeeps
  | _ => exact (advance_otherStep rfl hs).toKeeps

end World

end InfoWorkshop.Service
