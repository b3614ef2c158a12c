/-
A service that one call of `Service_Start` starts and that nobody stops or notifies. Its task goes on for good, and
its handler gets the event of a timeout again and again.
-/
import InfoWorkshop.Service.NetworkConsole
import InfoWorkshop.Service.Stopping

namespace InfoWorkshop.Service.World

open InfoWorkshop.Core InfoWorkshop.Memory InfoWorkshop.Posix InfoWorkshop.CondVar InfoWorkshop.Steps Device

/-! ## One call -/

/-- A step of the service itself: one of its task, or the end of a wait in its queue. -/
def ownAct : Act → Bool
  | .task _ _ | .wake _ _ _ | .die _ => true
  | _ => false

/-- What holds where the only call is. -/
def CallAt (w : World) : Call → Prop
  | .start .check => w.Unstarted
  | .start pc => StartAt w pc
  | .returned => w.tasks ≠ []
  | _ => False

/-- There has been one call of `Service_Start` at most, and no other call. -/
structure Lone (w : World) : Prop where
  idle : w.service.state = .stopped → w.tasks = []
  calls : w.calls = [] ∧ w.Unstarted ∨ ∃ k, w.calls = [k] ∧ w.CallAt k

theorem lone_init (service : Service) : (init service).Lone :=
  ⟨fun _ => rfl, .inl ⟨rfl, unstarted_init service⟩⟩

theorem CallAt.startAt {w : World} {pc : StartPc} (h : w.CallAt (.start pc)) : StartAt w pc := by
  cases pc with
  | check => trivial
  | _ => exact h

/-- What a step of a task leaves alone, whatever it does. -/
structure Frame (w w' : World) : Prop where
  tasks : w'.tasks.length = w.tasks.length
  task : w'.service.task = w.service.task

theorem onQueue_frame {w w' : World} {h : Option Nat} {body : Nat → Queue Thread → Option World}
    (hs : w.onQueue h body = some w') (hbody : ∀ q queue, body q queue = some w' → w.Frame w') : w.Frame w' := by
  unfold onQueue at hs
  split at hs
  · cases hs
    exact ⟨rfl, rfl⟩
  · split at hs
    · cases hs
    · split at hs
      · cases hs
        exact ⟨rfl, rfl⟩
      · split at hs
        · cases hs
        · exact hbody _ _ hs

theorem frame_gotoTask {w v : World} {i : Nat} {pc : TaskPc} (htasks : v.tasks.length = w.tasks.length)
    (htask : v.service.task = w.service.task) : w.Frame (v.gotoTask i pc) :=
  ⟨(List.length_modify _ _ _).trans htasks, htask⟩

theorem serviceMain_frame {w w' : World} {i : Nat} {self : TaskObject} {ch : Choice}
    (hs : w.serviceMain i self ch = some w') : w.Frame w' := by
  unfold serviceMain at hs
  cases hpc : self.pc with
  | entry | body | loopTest | hand | teardown =>
    simp only [hpc] at hs
    split at hs <;> cases hs <;> exact frame_gotoTask rfl rfl
  | inSetup | inMain | load | inHandler | inTeardown | clearQueue =>
    simp only [hpc] at hs
    cases hs
    exact frame_gotoTask rfl rfl
  | receive x | wait x =>
    simp only [hpc] at hs
    refine onQueue_frame hs fun q queue hbody => ?_
    split at hbody <;> cases hbody <;> exact frame_gotoTask rfl rfl
  | give =>
    simp only [hpc] at hs
    split at hs
    · cases hs
      exact ⟨rfl, rfl⟩
    · split at hs <;> cases hs
      · exact ⟨rfl, rfl⟩
      · exact frame_gotoTask rfl rfl
  | deleteTask =>
    simp only [hpc, taskDelete] at hs
    split at hs
    · cases hs
      exact frame_gotoTask rfl rfl
    · split at hs
      · cases hs
      · split at hs <;> cases hs
        · exact ⟨rfl, rfl⟩
        · exact frame_gotoTask (List.length_modify _ _ _) rfl
  | deleteQueue =>
    simp only [hpc, queueDelete] at hs
    split at hs
    · cases hs
      exact frame_gotoTask rfl rfl
    · split at hs
      · cases hs
      · split at hs <;> cases hs
        · exact ⟨rfl, rfl⟩
        · exact frame_gotoTask rfl rfl
  | asleep =>
    simp only [hpc] at hs
    cases hs
    exact ⟨rfl, rfl⟩
  | ended => simp only [hpc] at hs; cases hs

theorem die_frame {w w' : World} {i : Nat} {self : TaskObject} (hs : w.die i self = some w') : w.Frame w' := by
  unfold die at hs
  split at hs
  · split at hs <;> cases hs <;> exact frame_gotoTask rfl rfl
  · cases hs

/-- A step of the service itself changes nothing that the call relies on: while there is no task, nothing at all. -/
theorem own_frame {w w' : World} {a : Act} (ha : ownAct a = true) (hs : w.step a = some w') :
    w.Frame w' ∧ w'.calls = w.calls ∧ w'.service.state = w.service.state ∧
      (w.tasks = [] → w'.service = w.service) := by
  have hadv := (step_advance hs).2
  cases hadv with
  | task ht hs =>
    have hstep := serviceMain_taskStep hs
    refine ⟨serviceMain_frame hs, hstep.calls, hstep.state, fun hnone => ?_⟩
    rw [hnone] at ht
    cases ht
  | die ht hs =>
    have hstep := die_taskStep hs
    refine ⟨die_frame hs, hstep.calls, hstep.state, fun hnone => ?_⟩
    rw [hnone] at ht
    cases ht
  | wake => exact ⟨⟨rfl, rfl⟩, rfl, rfl, fun _ => rfl⟩
  | _ => cases ha

theorem Lone.own {w w' : World} {a : Act} (h : w.Lone) (ha : ownAct a = true) (hs : w.step a = some w') : w'.Lone := by
  obtain ⟨hframe, hcalls, hstate, hbefore⟩ := own_frame ha hs
  have htasks : w'.tasks = [] ↔ w.tasks = [] := by
    rw [← List.length_eq_zero_iff, ← List.length_eq_zero_iff, hframe.tasks]
  have hunstarted : w.Unstarted → w'.Unstarted := fun hun => hun.step (fun c ch hc => by subst hc; cases ha) hs
  refine ⟨fun hstop => htasks.2 (h.idle (hstate ▸ hstop)), ?_⟩
  rw [hcalls]
  refine h.calls.imp (fun hnone => ⟨hnone.1, hunstarted hnone.2⟩) ?_
  rintro ⟨k, hk, hat⟩
  refine ⟨k, hk, ?_⟩
  cases k with
  | start pc =>
    cases pc with
    | check => exact hunstarted hat
    | setRunning => exact hstate.trans hat
    | setDefaults | newQueue | createTask =>
      obtain ⟨hrun, hnone⟩ := hat
      exact ⟨hstate.symm ▸ hrun, htasks.2 hnone⟩
    | storeQueue =>
      obtain ⟨hrun, hnone, hqueue⟩ := hat
      exact ⟨hstate.symm ▸ hrun, htasks.2 hnone, hqueue⟩
    | checkQueue =>
      obtain ⟨hrun, hnone, hqueue⟩ := hat
      exact ⟨hstate.symm ▸ hrun, htasks.2 hnone, hbefore hnone ▸ hqueue⟩
    | register => exact ⟨hat.1, fun hnone => hat.2 (htasks.1 hnone)⟩
    | storeTask => exact ⟨fun hnone => hat.1 (htasks.1 hnone), hat.2⟩
    | checkTask => exact ⟨fun hnone => hat.1 (htasks.1 hnone), hframe.task ▸ hat.2⟩
  | returned => exact fun hnone => hat (htasks.1 hnone)
  | stop | notify => exact hat

/-- The call begins. -/
theorem Lone.call {w w' : World} (h : w.Lone) (hnone : w.calls = []) (hs : w.step (.call .start) = some w') :
    w'.Lone ∧ w'.calls = [.start .check] := by
  have hstep := hs
  obtain ⟨-, hadv⟩ := step_advance hs
  cases hadv with
  | call =>
    rcases h.calls with ⟨-, hun⟩ | ⟨k, hk, -⟩
    · have hcalls : w.calls ++ [Api.start.enter] = [.start .check] := by rw [hnone]; rfl
      exact ⟨⟨h.idle, .inr ⟨_, hcalls, hun.step (fun c ch hc => by cases hc) hstep⟩⟩, hcalls⟩
    · rw [hnone] at hk
      cases hk

/-- The point of the call of which a step is. -/
theorem Lone.caller {w w' : World} {c : Nat} {ch : Choice} (h : w.Lone) (hadv : w.Advance (.caller c ch) w') :
    c = 0 ∧ ∃ pc, w.calls = [.start pc] ∧ w.CallAt (.start pc) ∧ w.serviceStart 0 ch pc = some w' := by
  have honly : ∀ k, w.calls[c]? = some k → c = 0 ∧ w.calls = [k] ∧ w.CallAt k := by
    intro k hk
    rcases h.calls with ⟨hnone, -⟩ | ⟨k₀, hk₀, hat⟩
    · rw [hnone] at hk
      cases hk
    · rw [hk₀, List.getElem?_singleton] at hk
      split at hk <;> cases hk
      exact ⟨‹_›, hk₀, hat⟩
  cases hadv with
  | start hc hs =>
    obtain ⟨rfl, hcalls, hat⟩ := honly _ hc
    exact ⟨rfl, _, hcalls, hat, hs⟩
  | stop hc | notify hc => exact (honly _ hc).2.2.elim

/-- The call goes on, and the program does not end in it. -/
theorem Lone.start {w w' : World} {c : Nat} {ch : Choice} (h : w.Lone) (hok : ch.ok = true)
    (hs : w.step (.caller c ch) = some w') : w'.Lone ∧ w'.fault = none ∧ ∃ k, w'.calls = [k] := by
  obtain ⟨hfault, hadv⟩ := step_advance hs
  obtain ⟨rfl, pc, hcalls, hat, hstart⟩ := h.caller hadv
  have hstep := StartAt.step hat.startAt h.idle (.inl hok) hstart
  obtain ⟨k, hk, hnext⟩ := hstep.calls
  rw [hcalls] at hk
  refine ⟨⟨hstep.idle, .inr ⟨k, hk, ?_⟩⟩, hstep.fault.trans hfault, k, hk⟩
  rcases hnext with ⟨rfl, ⟨rfl, hrun⟩ | hsome⟩ | ⟨pc', rfl, hat'⟩
  · exact absurd hat.state hrun
  · exact hsome
  · cases pc' with
    | check =>
      -- no step leads back to the check
      rcases (serviceStart_callStep (by rw [hcalls]; rfl) hstart).calls with ⟨-, hcrash⟩ | ⟨k, hnext, hset⟩
      · exact absurd (hstep.fault.trans hfault) hcrash
      · rw [hcalls, hk] at hset
        cases hset
        exact hnext.elim
    | _ => exact hat'

/-- A `Service_Start` makes its check before anything has happened. -/
theorem Lone.startFirst {w : World} (h : w.Lone) (a : Act) : w.StartFirst a := by
  rintro c ch rfl hc
  rcases h.calls with ⟨hnone, -⟩ | ⟨k, hk, hat⟩
  · rw [hnone] at hc
    cases hc
  · rw [hk, List.getElem?_singleton] at hc
    split at hc <;> cases hc
    exact hat

theorem Lone.startAlone {w : World} (h : w.Lone) (a : Act) : w.StartAlone a := by
  unfold StartAlone
  split
  · rename_i c hpass
    obtain ⟨ch, ha, hc⟩ := lifeAct_pass hpass
    have hun := h.startFirst a c ch ha hc
    refine ⟨fun k hk hcreating => ?_, fun t ht => ?_⟩
    · have hrest := hun.calls k hk
      cases k with
      | start pc =>
        cases pc with
        | check => cases hcreating
        | _ => cases hrest
      | notify pc => cases pc <;> cases hcreating
      | stop | returned => cases hcreating
    · rw [hun.tasks] at ht
      cases ht
  · trivial

/-! ## A handler that nobody notifies -/

/-- The events of the start and of the loop with the handler. -/
def Event.calm : Event → Bool
  | .started | .setup | .handled _ _ => true
  | _ => false

theorem serviceStart_calm {w w' : World} {c : Nat} {ch : Choice} {pc : StartPc}
    (hs : w.serviceStart c ch pc = some w') (hlog : ∀ e ∈ w.log, Event.calm e = true) :
    ∀ e ∈ w'.log, Event.calm e = true := by
  cases pc with
  | check | newQueue | checkQueue | createTask =>
    simp only [serviceStart] at hs
    split at hs <;> cases hs <;> exact hlog
  | checkTask =>
    simp only [serviceStart] at hs
    split at hs <;> cases hs
    · exact hlog
    · exact List.forall_mem_append.2 ⟨hlog, List.forall_mem_singleton.2 rfl⟩
  | _ => cases hs; exact hlog

/-- While the service runs, its task stays in its loop. -/
theorem Good.task_calm {w w' : World} {i : Nat} {t : TaskObject} {ch : Choice} (h : w.Good)
    (ht : w.tasks[i]? = some t) (hs : w.serviceMain i t ch = some w') (hlog : ∀ e ∈ w.log, Event.calm e = true) :
    w'.fault = w.fault ∧ ∀ e ∈ w'.log, Event.calm e = true := by
  have hemit : ∀ e : Event, Event.calm e = true → ∀ x ∈ w.log ++ [e], Event.calm x = true := fun e he =>
    List.forall_mem_append.2 ⟨hlog, List.forall_mem_singleton.2 he⟩
  obtain ⟨hopen, -, -, hpcGood⟩ := h.setting.tasks i t ht
  obtain ⟨o, xs, hqueues, hdel, hlost, -, -⟩ := h.mail.queue_eq hopen
  have hrunning : w.service.state = .running := hopen.2.2
  unfold serviceMain at hs
  cases hpc : t.pc with
  | entry =>
    simp only [hpc] at hs
    split at hs <;> cases hs
    · exact ⟨rfl, hemit _ rfl⟩
    · exact ⟨rfl, hlog⟩
  | body =>
    simp only [hpc, h.setting.main] at hs
    cases hs
    exact ⟨rfl, hlog⟩
  | loopTest =>
    simp only [hpc, hrunning] at hs
    cases hs
    exact ⟨rfl, hlog⟩
  | hand error b =>
    simp only [hpc, h.setting.handler] at hs
    cases hs
    exact ⟨rfl, hemit _ rfl⟩
  | inSetup | load | inHandler =>
    simp only [hpc] at hs
    cases hs
    exact ⟨rfl, hlog⟩
  | receive x | wait x =>
    rw [hpc] at hpcGood
    obtain rfl : x = some 0 := hpcGood
    simp only [hpc, onQueue_eq hqueues hdel hlost] at hs
    split at hs <;> cases hs <;> exact ⟨rfl, hlog⟩
  | _ => rw [hpc] at hpcGood; cases hpcGood

/-- The service has been started once at most, and its task goes on. -/
structure Idle (w : World) : Prop extends Lone w where
  good : w.Good
  single : w.Single
  ready : w.Ready
  fault : w.fault = none
  log : ∀ e ∈ w.log, Event.calm e = true

theorem idle_init (service : Service) (hmain : service.main = false) (hhandler : service.handler = true) :
    (init service).Idle :=
  ⟨lone_init service, good_init service hmain hhandler, single_init service, ready_init service, rfl, by rintro e ⟨⟩⟩

/-- The steps of a service that is started once, with all that it needs: the call of `Service_Start`, its steps, and
those of the service itself. -/
def Alone (w : World) : Act → Prop
  | .call api => api = .start ∧ w.calls = []
  | .caller _ ch => ch.ok = true
  | a => ownAct a = true

/-- What such a step preserves of the call, and whether it ends the program. -/
theorem Lone.step {w w' : World} {a : Act} (h : w.Lone) (ha : w.Alone a) (hs : w.step a = some w') :
    w'.Lone ∧ (ownAct a = true ∨ w'.fault = none) := by
  cases a with
  | call api =>
    obtain ⟨rfl, hnone⟩ := ha
    have hfault : w'.fault = none := by
      obtain ⟨hfault, hadv⟩ := step_advance hs
      cases hadv
      exact hfault
    exact ⟨(h.call hnone hs).1, .inr hfault⟩
  | caller c ch =>
    obtain ⟨hlone, hfault, -⟩ := h.start ha hs
    exact ⟨hlone, .inr hfault⟩
  | task | wake | die => exact ⟨h.own rfl hs, .inl rfl⟩
  | take | wakeTaker | retake => cases ha

theorem Idle.step {w w' : World} {a : Act} (h : w.Idle) (ha : w.Alone a) (hs : w.step a = some w') : w'.Idle := by
  obtain ⟨hlone, hends⟩ := h.toLone.step ha hs
  have hadv := (step_advance hs).2
  have hcalm : (ownAct a = true → w'.fault = w.fault) ∧ ∀ e ∈ w'.log, Event.calm e = true := by
    cases hadv with
    | call => exact ⟨fun _ => rfl, h.log⟩
    | start _ hs => exact ⟨fun ha => (by cases ha), serviceStart_calm hs h.log⟩
    | stop hc | notify hc =>
      obtain ⟨rfl, pc, hcalls, -⟩ := h.toLone.caller (step_advance hs).2
      rw [hcalls] at hc
      cases hc
    | task ht hs =>
      obtain ⟨hfault, hlog⟩ := h.good.task_calm ht hs h.log
      exact ⟨fun _ => hfault, hlog⟩
    | wake => exact ⟨fun _ => rfl, h.log⟩
    | die ht hs =>
      -- no task has been deleted
      have hdel := (h.good.setting.tasks _ _ ht).2.2.1
      rw [die, if_neg fun hand => by rw [hdel] at hand; cases hand.1] at hs
      cases hs
    | take | wakeTaker | retake => cases ha
  have hfault : w'.fault = none := hends.elim (fun hown => (hcalm.1 hown).trans h.fault) id
  have hsilent : Silent w'.log :=
    ⟨fun hm => (by cases hcalm.2 _ hm), fun hm => (by cases hcalm.2 _ hm)⟩
  have hstarted : w.NotifyStarted a := by
    refine ⟨h.toLone.startAlone a, ?_⟩
    cases a with
    | call api => rw [ha.1]; trivial
    | _ => trivial
  exact ⟨hlone, step_good h.good h.single.tidy.toSolo hstarted hs hsilent,
    single_step h.single (h.toLone.startFirst a) hs, ready_step h.single h.ready hs hfault, hfault, hcalm.2⟩

/-- No event is accepted. -/
theorem Idle.none_taken {w : World} (h : w.Idle) : handledEvents w.log = [] ∧ w.inHand = [] := by
  obtain ⟨xs, -, hmail⟩ := h.good.mail
  have haccepted : acceptedEvents w.log = [] := List.filterMap_eq_nil_iff.2 fun e he => by
    have hcalm := h.log e he
    cases e <;> first | rfl | cases hcalm
  rw [haccepted] at hmail
  exact List.append_eq_nil_iff.1 (List.append_eq_nil_iff.1 hmail.symm).1

/-- So the handler gets nothing but the event of a timeout. -/
theorem Idle.handled {w : World} (h : w.Idle) {error : ErrorCode} {e : ServiceEvent} (he : .handled error e ∈ w.log) :
    error ≠ .success ∧ e = timeoutEvent := by
  have herror : error ≠ .success := by
    rintro rfl
    cases List.flatMap_eq_nil_iff.1 h.none_taken.1 _ he
  exact ⟨herror, h.good.synthetic error e he herror⟩

theorem Idle.hand {w : World} (h : w.Idle) {i : Nat} {t : TaskObject} {error : ErrorCode} {b : Bytes}
    (ht : w.tasks[i]? = some t) (hpc : t.pc = .hand error b) : ServiceEvent.ofBytes b = timeoutEvent := by
  refine h.good.delivered.failed t (List.mem_of_getElem? ht) error b hpc ?_
  rintro rfl
  have htaken : taken .success b = [] := by
    have hnone := h.none_taken.2
    rw [inHand, (h.good.setting.task_eq ht).2] at hnone
    simpa [hpc, TaskPc.inHand] using hnone
  cases htaken

/-! ## The handler is called again and again -/

/-- The steps of a task to its next call of the handler. -/
def untilHandler : TaskPc → Nat
  | .entry => 7
  | .inSetup => 6
  | .body | .inHandler => 5
  | .loopTest => 4
  | .load => 3
  | .receive _ => 2
  | .wait _ => 1
  | _ => 0

/-- How often the handler has been called. -/
def beats (w : World) : Nat := w.log.countP Event.isHandled

theorem beats_mono {w w' : World} {a : Act} (hs : w.step a = some w') : w.beats ≤ w'.beats :=
  (step_log hs).sublist.countP_le

/-- A step of the task calls the handler or comes nearer to it. -/
theorem Idle.task_nears {w w' : World} {t : TaskObject} {ch : Choice} (h : w.Idle) (htasks : w.tasks = [t])
    (hs : w.step (.task 0 ch) = some w') :
    (untilHandler t.pc = 0 ∧ w.beats < w'.beats) ∨ ∃ t', w'.tasks = [t'] ∧ untilHandler t'.pc < untilHandler t.pc := by
  have ht : w.tasks[0]? = some t := by rw [htasks]; rfl
  obtain ⟨hopen, -, -, hpcGood⟩ := h.good.setting.tasks 0 t ht
  obtain ⟨o, xs, hqueues, hdel, hlost, -, -⟩ := h.good.mail.queue_eq hopen
  have hgoto : ∀ v : World, v.tasks = w.tasks → ∀ pc, (v.gotoTask 0 pc).tasks = [{ t with pc }] := by
    intro v hv pc
    show v.tasks.modify 0 _ = _
    rw [hv, htasks]
    rfl
  have hmain : w.serviceMain 0 t ch = some w' := by
    cases (step_advance hs).2 with
    | task ht' hs =>
      rw [ht] at ht'
      cases ht'
      exact hs
  unfold serviceMain at hmain
  cases hpc : t.pc with
  | entry =>
    simp only [hpc] at hmain
    split at hmain <;> cases hmain
    · exact .inr ⟨_, hgoto _ rfl _, Nat.le_refl 7⟩
    · exact .inr ⟨_, hgoto _ rfl _, show 5 < 7 by decide⟩
  | body =>
    simp only [hpc, h.good.setting.main] at hmain
    cases hmain
    exact .inr ⟨_, hgoto _ rfl _, Nat.le_refl 5⟩
  | loopTest =>
    simp only [hpc, show w.service.state = .running from hopen.2.2] at hmain
    cases hmain
    exact .inr ⟨_, hgoto _ rfl _, Nat.le_refl 4⟩
  | inSetup | load | inHandler =>
    simp only [hpc] at hmain
    cases hmain
    exact .inr ⟨_, hgoto _ rfl _, Nat.le_refl _⟩
  | receive x =>
    rw [hpc] at hpcGood
    obtain rfl : x = some 0 := hpcGood
    simp only [hpc, onQueue_eq hqueues hdel hlost] at hmain
    split at hmain <;> cases hmain
    · exact .inr ⟨_, hgoto _ rfl _, Nat.le_refl 2⟩
    · exact .inr ⟨_, hgoto _ rfl _, Nat.zero_lt_two⟩
  | wait x =>
    rw [hpc] at hpcGood
    obtain rfl : x = some 0 := hpcGood
    simp only [hpc, onQueue_eq hqueues hdel hlost] at hmain
    split at hmain <;> cases hmain
    exact .inr ⟨_, hgoto _ rfl _, Nat.le_refl 1⟩
  | hand error b =>
    simp only [hpc, h.good.setting.handler] at hmain
    cases hmain
    refine .inl ⟨rfl, ?_⟩
    show w.log.countP _ < (w.log ++ [_]).countP _
    rw [List.countP_append]
    exact Nat.lt_succ_self _
  | _ => rw [hpc] at hpcGood; cases hpcGood

theorem own_of_byTask {a : Act} (ha : byTask a = true) : ownAct a = true := by
  cases a with
  | task | wake => rfl
  | _ => cases ha

theorem alone_of_own {w : World} {a : Act} (ha : ownAct a = true) : w.Alone a := by
  cases a with
  | task | wake | die => rfl
  | _ => cases ha

theorem alone_byTask {w : World} {a : Act} (ha : byTask a = true) : w.Alone a := alone_of_own (own_of_byTask ha)

theorem Idle.rest {w : World} (h : w.Idle) {i : Nat} {t : TaskObject} (ht : w.tasks[i]? = some t) :
    t.pc.atRest = false := by
  have hpcGood := (h.good.setting.tasks i t ht).2.2.2
  cases hpc : t.pc with
  | asleep | ended => rw [hpc] at hpcGood; cases hpcGood
  | _ => rfl

/-- The task takes a step, after the timeout of its wait if it has to. -/
theorem Idle.goes_on {w : World} {t : TaskObject} (h : w.Idle) (htasks : w.tasks = [t]) :
    ∃ own w', own.length ≤ 2 ∧ (∀ a ∈ own, byTask a = true) ∧ exec World.step w own = some w' ∧ w'.Idle ∧
      (w.beats < w'.beats ∨ w.beats ≤ w'.beats ∧ ∃ t', w'.tasks = [t'] ∧ untilHandler t'.pc < untilHandler t.pc) := by
  have ht : w.tasks[0]? = some t := by rw [htasks]; rfl
  obtain ⟨u, hu, hv⟩ := h.ready.goes_on h.single h.fault ht (h.rest ht)
  obtain ⟨v, hv⟩ := Option.isSome_iff_exists.1 hv
  have hnears : ∀ x : World, x.Idle → x.tasks = w.tasks → x.step (.task 0 plain) = some v → w.beats ≤ x.beats →
      v.Idle ∧ (w.beats < v.beats ∨
        w.beats ≤ v.beats ∧ ∃ t', v.tasks = [t'] ∧ untilHandler t'.pc < untilHandler t.pc) := by
    intro x hx hsame hstep hle
    refine ⟨hx.step (alone_byTask rfl) hstep, ?_⟩
    rcases hx.task_nears (hsame.trans htasks) hstep with ⟨-, hlt⟩ | hnear
    · exact .inl (Nat.lt_of_le_of_lt hle hlt)
    · exact .inr ⟨Nat.le_trans hle (beats_mono hstep), hnear⟩
  rcases hu with rfl | ⟨hsame, q, hwake⟩
  · obtain ⟨hidle, hbeats⟩ := hnears u h rfl hv (Nat.le_refl _)
    exact ⟨[.task 0 plain], v, Nat.le_succ 1, List.forall_mem_singleton.2 rfl, by simp only [exec, hv], hidle, hbeats⟩
  · obtain ⟨hidle, hbeats⟩ := hnears u (h.step (alone_byTask rfl) hwake) hsame hv (beats_mono hwake)
    exact ⟨[.wake q (.task 0) .timedOut, .task 0 plain], v, Nat.le_refl 2,
      List.forall_mem_cons.2 ⟨rfl, List.forall_mem_singleton.2 rfl⟩, by simp only [exec, hwake, hv], hidle, hbeats⟩

theorem Idle.beat_within {n : Nat} {w : World} {t : TaskObject} (h : w.Idle) (htasks : w.tasks = [t])
    (hn : untilHandler t.pc ≤ n) :
    ∃ own w', own.length ≤ 2 * (n + 1) ∧ (∀ a ∈ own, byTask a = true) ∧ exec World.step w own = some w' ∧ w'.Idle ∧
      w.beats < w'.beats := by
  induction n generalizing w t with
  | zero =>
    obtain ⟨own, w', hlen, hown, hw', hidle, hbeats | ⟨-, t', -, hlt⟩⟩ := h.goes_on htasks
    · exact ⟨own, w', hlen, hown, hw', hidle, hbeats⟩
    · omega
  | succ n ih =>
    obtain ⟨own, u, hlen, hown, hu, hidle, hbeats | ⟨hle, t', ht', hlt⟩⟩ := h.goes_on htasks
    · exact ⟨own, u, by omega, hown, hu, hidle, hbeats⟩
    · obtain ⟨later, w', hlen', hlater, hw', hidle', hbeats⟩ := ih hidle ht' (by omega)
      refine ⟨own ++ later, w', by rw [List.length_append]; omega, List.forall_mem_append.2 ⟨hown, hlater⟩, ?_, hidle',
        by omega⟩
      rw [exec_append hu, hw']

/-- The task stays. -/
theorem tasks_of_byTask {own : List Act} {w w' : World} (hown : ∀ a ∈ own, byTask a = true)
    (hw : exec World.step w own = some w') : w'.tasks.length = w.tasks.length :=
  (exec_rest_invariant
    (I := fun (u : World) own => (∀ a ∈ own, byTask a = true) ∧ u.tasks.length = w.tasks.length)
    (fun _ _ _ _ hu hs => by
      obtain ⟨ha, hown⟩ := List.forall_mem_cons.1 hu.1
      exact ⟨hown, (own_frame (own_of_byTask ha) hs).1.tasks.trans hu.2⟩) ⟨hown, rfl⟩ hw).2

/-- A task calls its handler, alone, within sixteen steps: its own and the ends of its waits by their timeouts. -/
theorem Idle.beat {w : World} (h : w.Idle) (hsome : w.tasks ≠ []) :
    ∃ own w', own.length ≤ 16 ∧ (∀ a ∈ own, byTask a = true) ∧ exec World.step w own = some w' ∧
      w.beats < w'.beats := by
  obtain ⟨t, rest, htasks⟩ := List.exists_cons_of_ne_nil hsome
  have ht : w.tasks[0]? = some t := by rw [htasks]; rfl
  have hseven : untilHandler t.pc ≤ 7 := by cases t.pc <;> simp [untilHandler]
  obtain ⟨own, w', hlen, hown, hw', -, hbeats⟩ := h.beat_within (h.good.setting.task_eq ht).2 hseven
  exact ⟨own, w', hlen, hown, hw', hbeats⟩

end InfoWorkshop.Service.World
