/-
Exactly-once, in-order delivery: the events a service's task hands to the handler, the one it has in
hand and those in the queue are the events accepted by `Service_Notify`, in order.
-/
import InfoWorkshop.Lib.Steps
import InfoWorkshop.Service.EventQueue
import InfoWorkshop.Service.Lifecycle

namespace InfoWorkshop.Service.World

open InfoWorkshop.Core InfoWorkshop.Memory InfoWorkshop.Posix InfoWorkshop.CondVar InfoWorkshop.Steps

/-! ## A queue of events -/

/-- The queue holds exactly the events `xs`, oldest first, and only the service's task waits in it. -/
structure HoldsEvents (q : Queue Thread) (xs : List ServiceEvent) : Prop where
  holds : q.Holds (xs.map ServiceEvent.toBytes)
  width : q.elementSize = sizeofServiceEvent
  waits : Waiters.All (fun r => r.message = timeoutEvent.toBytes) q.cond

theorem holdsEvents_allocate : HoldsEvents (Queue.allocate SERVICE_QUEUE_SIZE sizeofServiceEvent) [] :=
  ⟨Queue.allocate_holds _ _, rfl, Waiters.All.empty⟩

/-- The general notion, for waiting threads that all keep the time-out event. -/
theorem holdsEvents_iff {q : Queue Thread} {xs : List ServiceEvent} :
    HoldsEvents q xs ↔ HoldsWith (· = timeoutEvent.toBytes) q xs :=
  ⟨fun h => ⟨h.holds, h.width, h.waits⟩, fun h => ⟨h.holds, h.width, h.waits⟩⟩

/-- `Queue_Send` appends the event or finds the queue full. -/
theorem HoldsEvents.send {q : Queue Thread} {xs : List ServiceEvent} (h : HoldsEvents q xs) (e : ServiceEvent)
    (pick : Nat) : (q.send e.toBytes pick).1 ≠ .success ∨
      (q.send e.toBytes pick).1 = .success ∧ HoldsEvents (q.send e.toBytes pick).2 (xs ++ [e]) := by
  rcases (holdsEvents_iff.1 h).send e pick with hfull | ⟨hok, hx⟩
  · exact .inl (by rw [hfull]; simp)
  · exact .inr ⟨hok, holdsEvents_iff.2 hx⟩

/-- A `Queue_Receive` that returned `error` with `b` has moved one event out of `xs`, or none and left
the time-out event alone. -/
structure Received (xs : List ServiceEvent) (ret : ErrorCode × Bytes) (q : Queue Thread) : Prop where
  moved : ∃ ys, xs = taken ret.1 ret.2 ++ ys ∧ HoldsEvents q ys
  failed : ret.1 ≠ .success → ret.2 = timeoutEvent.toBytes

theorem ReceivedWith.received {q : Queue Thread} {xs : List ServiceEvent} {ret : ErrorCode × Bytes}
    (h : ReceivedWith (· = timeoutEvent.toBytes) timeoutEvent.toBytes xs ret q) : Received xs ret q := by
  obtain ⟨ys, hxs, hys⟩ := h.moved
  exact ⟨⟨ys, hxs, holdsEvents_iff.2 hys⟩, h.failed⟩

theorem HoldsEvents.withCond {q : Queue Thread} {xs : List ServiceEvent} (h : HoldsEvents q xs)
    {c : Waiters Thread Receiver} (hc : Waiters.All (fun r => r.message = timeoutEvent.toBytes) c) :
    HoldsEvents { q with cond := c } xs := holdsEvents_iff.2 ((holdsEvents_iff.1 h).withCond hc)

/-- `Queue_Receive` up to its return or its wait. -/
theorem HoldsEvents.receive {q : Queue Thread} {xs : List ServiceEvent} (h : HoldsEvents q xs) (t : Thread)
    (timeoutMs : UInt64) (tv : Timeval) :
    (∃ q', q.receive t timeoutEvent.toBytes timeoutMs tv = (none, q') ∧ HoldsEvents q' xs) ∨
    ∃ ret q', q.receive t timeoutEvent.toBytes timeoutMs tv = (some ret, q') ∧ Received xs ret q' := by
  rcases (holdsEvents_iff.1 h).receive t rfl timeoutEvent.toBytes_length timeoutMs tv with
    ⟨q', hr, hx⟩ | ⟨ret, q', -, hr, hrec⟩
  · exact .inl ⟨q', hr, holdsEvents_iff.2 hx⟩
  · exact .inr ⟨ret, q', hr, hrec.received⟩

/-- `Queue_Receive` from its wait to its return. -/
theorem HoldsEvents.resume {q q' : Queue Thread} {xs : List ServiceEvent} {ret : ErrorCode × Bytes}
    (h : HoldsEvents q xs) {t : Thread} (hr : q.resume t = some (ret, q')) : Received xs ret q' := by
  have hwidth : ∀ b : Bytes, b = timeoutEvent.toBytes → b.length = sizeofServiceEvent := by
    rintro b rfl
    exact timeoutEvent.toBytes_length
  obtain ⟨message, rfl, hrec⟩ := (holdsEvents_iff.1 h).resume hwidth hr
  exact hrec.received

/-! ## One start, no stop, no overflow -/

/-- What the calls and the task read of the service and its objects. -/
structure Layout where
  queue : Option Nat
  queues : Nat
  tasks : Nat
  state : ServiceState

def layout (w : World) : Layout := ⟨w.service.queue, w.queues.length, w.tasks.length, w.service.state⟩

/-- Nothing has been created yet. -/
def Layout.Early (l : Layout) : Prop := l.queue = none ∧ l.queues = 0 ∧ l.tasks = 0

/-- The service runs, and its handle is that of the only queue. -/
def Layout.Open (l : Layout) : Prop := l.queue = some 0 ∧ l.queues = 1 ∧ l.state = .running

/-- What a call can rely on where it stands. -/
def CallGood (l : Layout) : Call → Prop
  | .start .check | .stop _ | .returned => True
  | .start .setRunning => l.Early
  | .start .setDefaults | .start .newQueue | .start (.storeQueue none) | .start (.checkQueue none) =>
    l.Early ∧ l.state = .running
  | .start (.storeQueue (some q)) => q = 0 ∧ l.queues = 1 ∧ l.tasks = 0 ∧ l.state = .running
  | .start (.checkQueue (some q)) | .start (.createTask (some q)) => q = 0 ∧ l.Open ∧ l.tasks = 0
  | .start (.createTask none) => False
  | .start (.register _) | .start (.storeTask _) | .start (.checkTask _) => l.Open
  | .notify (.check _) | .notify (.load _) => l.Open
  | .notify (.send _ h) => h = some 0 ∧ l.Open
  | .notify _ => False

/-- Where the task can be, and with what. -/
def PcGood : TaskPc → Prop
  | .entry | .inSetup | .body | .loopTest | .load | .inHandler => True
  | .receive h | .wait h => h = some 0
  | .hand error b => error ≠ .success → b = timeoutEvent.toBytes
  | _ => False

/-- The service and its objects while nobody has stopped it or found the queue full. -/
structure Setting (w : World) : Prop where
  main : w.service.main = false
  handler : w.service.handler = true
  calls : ∀ (c : Nat) (k : Call), w.calls[c]? = some k → CallGood w.layout k
  tasks : ∀ (i : Nat) (t : TaskObject), w.tasks[i]? = some t →
    w.layout.Open ∧ i = 0 ∧ t.deleted = false ∧ PcGood t.pc
  queues : w.queues.length ≤ 1
  early : w.service.state = .stopped → w.layout.Early
  started : .started ∈ w.log → w.layout.Open

/-- A call that creates nothing relies only on what stays. -/
theorem callGood_mono {l l' : Layout} {k : Call} (h : CallGood l k) (hk : ¬ k.stage.creating)
    (ho : l.Open → l'.Open) : CallGood l' k := by
  cases k with
  | start pc =>
    cases pc with
    | check => trivial
    | register i => exact ho h
    | storeTask t => exact ho h
    | checkTask t => exact ho h
    | _ => exact absurd rfl hk
  | stop pc => trivial
  | returned => trivial
  | notify pc =>
    cases pc with
    | check e => exact ho h
    | load e => exact ho h
    | send e q => exact ⟨h.1, ho h.2⟩
    | _ => exact h

/-- A call moves on, and of what others rely on nothing changes. -/
theorem Setting.goto {w v : World} (h : w.Setting) {c : Nat} {k : Call} (hk : CallGood w.layout k)
    (hservice : v.service = w.service) (hqueues : v.queues.length = w.queues.length) (htasks : v.tasks = w.tasks)
    (hcalls : v.calls = w.calls) (hlog : .started ∈ v.log → w.layout.Open) : (v.goto c k).Setting := by
  have hlayout : (v.goto c k).layout = w.layout := by
    simp only [layout, World.goto, hservice, hqueues, htasks]
  refine ⟨hservice ▸ h.main, hservice ▸ h.handler, fun d k' hd => ?_, fun i t ht => ?_, ?_, fun hs => ?_,
    fun hs => ?_⟩
  · rw [hlayout]
    rw [show (v.goto c k).calls = w.calls.set c k from hcalls ▸ rfl, List.getElem?_set] at hd
    split at hd
    · split at hd <;> cases hd
      exact hk
    · exact h.calls d k' hd
  · rw [hlayout]
    exact h.tasks i t (htasks ▸ ht)
  · exact hqueues ▸ h.queues
  · rw [hlayout]
    exact h.early (hservice ▸ hs)
  · rw [hlayout]
    exact hlog hs

/-- The one `Service_Start` that is about to create something moves on. -/
theorem Setting.create {w v : World} (h : w.Setting) (hsolo : w.life.Solo) {c : Nat} {k₀ k : Call}
    (hc : w.calls[c]? = some k₀) (hk₀ : k₀.stage.creating) (hk : CallGood v.layout k)
    (ho : w.layout.Open → v.layout.Open) (hmain : v.service.main = w.service.main)
    (hhandler : v.service.handler = w.service.handler)
    (htasks : ∀ (i : Nat) (t : TaskObject), v.tasks[i]? = some t →
      v.layout.Open ∧ i = 0 ∧ t.deleted = false ∧ PcGood t.pc)
    (hcalls : v.calls = w.calls) (hqueues : v.queues.length ≤ 1) (hstate : v.layout.state = .running)
    (hlog : v.log = w.log) : (v.goto c k).Setting := by
  refine ⟨hmain.trans h.main, hhandler.trans h.handler, fun d k' hd => ?_, htasks, hqueues,
    fun hs => absurd (hstate.symm.trans hs) (by simp), fun hs => ho (h.started (hlog ▸ hs))⟩
  rw [show (v.goto c k).calls = w.calls.set c k from hcalls ▸ rfl, List.getElem?_set] at hd
  split at hd
  · split at hd <;> cases hd
    exact hk
  · rename_i hne
    refine callGood_mono (h.calls d k' hd) (fun hk' => hne ?_) ho
    refine hsolo.starts c d ?_ ?_
    · rw [call_life hc]; exact hk₀
    · rw [call_life hd]; exact hk'

/-- The task moves on. -/
theorem Setting.gotoTask {w v : World} (h : w.Setting) {i : Nat} {pc : TaskPc} (hpc : PcGood pc)
    (hservice : v.service = w.service) (hqueues : v.queues.length = w.queues.length) (htasks : v.tasks = w.tasks)
    (hcalls : v.calls = w.calls) (hlog : .started ∈ v.log → .started ∈ w.log) : (v.gotoTask i pc).Setting := by
  have hlayout : (v.gotoTask i pc).layout = w.layout := by
    simp only [layout, World.gotoTask, hservice, hqueues, htasks, List.length_modify]
  refine ⟨hservice ▸ h.main, hservice ▸ h.handler, fun d k' hd => ?_, fun j t ht => ?_, hqueues ▸ h.queues,
    fun hs => ?_, fun hs => ?_⟩
  · rw [hlayout]; exact h.calls d k' (hcalls ▸ hd)
  · rw [hlayout]
    rw [show (v.gotoTask i pc).tasks = w.tasks.modify i fun t => { t with pc } from htasks ▸ rfl,
      List.getElem?_modify] at ht
    obtain ⟨t', ht', hmod⟩ := Option.map_eq_some_iff.1 ht
    obtain ⟨hopen, hj, hdel, hgood⟩ := h.tasks j t' ht'
    subst hmod
    split
    · exact ⟨hopen, hj, hdel, hpc⟩
    · exact ⟨hopen, hj, hdel, hgood⟩
  · rw [hlayout]; exact h.early (hservice ▸ hs)
  · rw [hlayout]; exact h.started (hlog hs)

/-! ## The events -/

/-- The events accepted by `Service_Notify`, in order. -/
def acceptedEvents (log : List Event) : List ServiceEvent :=
  log.filterMap fun
    | .accepted e => some e
    | _ => none

/-- The events given to the handler, in order, without those of a failed `Queue_Receive`. -/
def handledEvents (log : List Event) : List ServiceEvent :=
  log.flatMap fun
    | .handled error e => if error = .success then [e] else []
    | _ => []

def TaskPc.inHand : TaskPc → List ServiceEvent
  | .hand error b => taken error b
  | _ => []

/-- The event the task has taken from the queue and not yet given to the handler. -/
def inHand (w : World) : List ServiceEvent := (w.tasks.map TaskObject.pc).flatMap TaskPc.inHand

/-- There is no queue and no event, or one queue that holds the events `xs`. -/
def QueuesHold (xs : List ServiceEvent) : List QueueObject → Prop
  | [] => xs = []
  | [o] => o.deleted = false ∧ o.mutexLost = false ∧ HoldsEvents o.queue xs
  | _ => False

/-- Every accepted event is handled, in hand or in the queue, in order. -/
def Mail (w : World) : Prop :=
  ∃ xs, QueuesHold xs w.queues ∧ acceptedEvents w.log = handledEvents w.log ++ w.inHand ++ xs

/-- A failed `Queue_Receive` gives the handler the time-out event. -/
def Synthetic (log : List Event) : Prop :=
  ∀ error e, .handled error e ∈ log → error ≠ .success → e = timeoutEvent

structure Good (w : World) : Prop where
  setting : w.Setting
  mail : w.Mail
  synthetic : Synthetic w.log

@[simp] theorem acceptedEvents_append (l m : List Event) :
    acceptedEvents (l ++ m) = acceptedEvents l ++ acceptedEvents m := List.filterMap_append

@[simp] theorem handledEvents_append (l m : List Event) :
    handledEvents (l ++ m) = handledEvents l ++ handledEvents m := List.flatMap_append

/-- An event about something else. -/
def Event.quiet : Event → Bool
  | .accepted _ | .handled _ _ => false
  | _ => true

theorem Mail.emit {w : World} (h : w.Mail) {e : Event} (he : Event.quiet e = true) : (w.emit e).Mail := by
  obtain ⟨xs, hq, hm⟩ := h
  refine ⟨xs, hq, ?_⟩
  have ha : acceptedEvents [e] = [] := by cases e <;> first | rfl | cases he
  have hh : handledEvents [e] = [] := by cases e <;> first | rfl | cases he
  show acceptedEvents (w.log ++ [e]) = handledEvents (w.log ++ [e]) ++ w.inHand ++ xs
  rw [acceptedEvents_append, handledEvents_append, ha, hh, List.append_nil, List.append_nil]
  exact hm

theorem Synthetic.emit {log : List Event} (h : Synthetic log) {e : Event}
    (he : ∀ error x, e = .handled error x → error ≠ .success → x = timeoutEvent) : Synthetic (log ++ [e]) := by
  intro error x hx hne
  rcases List.mem_append.1 hx with hx | hx
  · exact h error x hx hne
  · exact he error x (List.mem_singleton.1 hx).symm hne

theorem Setting.task_eq {w : World} (h : w.Setting) {i : Nat} {t : TaskObject} (ht : w.tasks[i]? = some t) :
    i = 0 ∧ w.tasks = [t] := by
  obtain ⟨-, rfl, -⟩ := h.tasks i t ht
  refine ⟨rfl, ?_⟩
  match hl : w.tasks with
  | [] => rw [hl] at ht; cases ht
  | [u] => rw [hl] at ht; cases ht; rfl
  | u :: v :: l =>
    obtain ⟨-, h1, -⟩ := h.tasks 1 v (by rw [hl]; rfl)
    cases h1

/-- An open layout has the one queue. -/
theorem Mail.queue_eq {w : World} (h : w.Mail) (ho : w.layout.Open) :
    ∃ o xs, w.queues = [o] ∧ o.deleted = false ∧ o.mutexLost = false ∧ HoldsEvents o.queue xs ∧
      acceptedEvents w.log = handledEvents w.log ++ w.inHand ++ xs := by
  obtain ⟨xs, hq, hm⟩ := h
  have hlen : w.queues.length = 1 := ho.2.1
  obtain ⟨o, hw⟩ := List.length_eq_one_iff.1 hlen
  rw [hw] at hq
  exact ⟨o, xs, hw, hq.1, hq.2.1, hq.2.2, hm⟩

theorem onQueue_eq {w : World} {o : QueueObject} (hq : w.queues = [o]) (hdel : o.deleted = false)
    (hlost : o.mutexLost = false) (body : Nat → Queue Thread → Option World) :
    w.onQueue (some 0) body = body 0 o.queue := by
  simp [onQueue, hq, hdel, hlost]

/-! ## The steps of the calls -/

theorem Good.crash {w : World} (h : w.Good) (f : Fault) : (w.crash f).Good :=
  ⟨⟨h.setting.main, h.setting.handler, h.setting.calls, h.setting.tasks, h.setting.queues, h.setting.early,
    h.setting.started⟩, h.mail, h.synthetic⟩

/-- A call moves on and nothing else happens. -/
theorem Good.goto {w : World} (h : w.Good) {c : Nat} {k : Call} (hk : CallGood w.layout k) :
    (w.goto c k).Good :=
  ⟨h.setting.goto hk rfl rfl rfl rfl h.setting.started, h.mail, h.synthetic⟩

theorem layout_register (w : World) (i : Nat) (ok : Bool) :
    layout { w with tasks := w.tasks.modify i fun t => { t with registered := ok } } = w.layout := by
  simp only [layout, List.length_modify]

theorem Good.register {w : World} (h : w.Good) (i : Nat) (ok : Bool) :
    ({ w with tasks := w.tasks.modify i fun t => { t with registered := ok } } : World).Good := by
  have hset := h.setting
  obtain ⟨xs, hq, hm⟩ := h.mail
  refine ⟨⟨hset.main, hset.handler, ?_, fun j t ht => ?_, hset.queues, ?_, ?_⟩, ⟨xs, hq, ?_⟩, h.synthetic⟩
  · rw [layout_register]; exact hset.calls
  · rw [layout_register]
    obtain ⟨t', ht', hmod⟩ := Option.map_eq_some_iff.1 (List.getElem?_modify _ i w.tasks j ▸ ht)
    obtain ⟨hopen, hj, hdel, hgood⟩ := hset.tasks j t' ht'
    subst hmod
    split
    · exact ⟨hopen, hj, hdel, hgood⟩
    · exact ⟨hopen, hj, hdel, hgood⟩
  · rw [layout_register]; exact hset.early
  · rw [layout_register]; exact hset.started
  · have hpcs : (w.tasks.modify i fun t => { t with registered := ok }).map TaskObject.pc =
        w.tasks.map TaskObject.pc := Table.map_modify_same i fun _ => rfl
    simp only [inHand, hpcs]
    exact hm

theorem Good.storeTask {w : World} (h : w.Good) (task : Option Nat) :
    ({ w with service := { w.service with task } } : World).Good :=
  ⟨⟨h.setting.main, h.setting.handler, h.setting.calls, h.setting.tasks, h.setting.queues, h.setting.early,
    h.setting.started⟩, h.mail, h.synthetic⟩

theorem serviceStart_good {w w' : World} {c : Nat} {ch : Choice} {pc : StartPc} (h : w.Good)
    (hsolo : w.life.Solo) (hc : w.calls[c]? = some (.start pc)) (hs : w.serviceStart c ch pc = some w') :
    w'.Good := by
  have hset := h.setting
  have hk := hset.calls c _ hc
  cases pc with
  | check =>
    simp only [serviceStart] at hs
    split at hs
    · cases hs; exact h.goto trivial
    · rename_i hstop
      rw [ne_eq, not_not] at hstop
      cases hs; exact h.goto (hset.early hstop)
  | setRunning =>
    cases hs
    have ho : w.layout.Open → (layout { w with service := { w.service with state := .running } }).Open :=
      fun ho => ⟨ho.1, ho.2.1, rfl⟩
    refine ⟨hset.create hsolo hc rfl ⟨hk, rfl⟩ ho rfl rfl (fun i t ht => ?_) rfl hset.queues rfl rfl,
      h.mail, h.synthetic⟩
    have htask := hset.tasks i t ht
    exact ⟨ho htask.1, htask.2⟩
  | setDefaults =>
    cases hs
    exact ⟨hset.create hsolo hc rfl hk id rfl rfl hset.tasks rfl hset.queues hk.2 rfl,
      h.mail, h.synthetic⟩
  | newQueue =>
    obtain ⟨⟨hnull, hnoqueue, hnotask⟩, hrun⟩ := hk
    have hqueues : w.queues = [] := List.length_eq_zero_iff.1 hnoqueue
    have htasks : w.tasks = [] := List.length_eq_zero_iff.1 hnotask
    simp only [serviceStart, Queue.new] at hs
    cases hok : ch.ok with
    | false =>
      simp only [hok] at hs
      cases hs; exact h.goto ⟨⟨hnull, hnoqueue, hnotask⟩, hrun⟩
    | true =>
      simp only [hok] at hs
      cases hs
      refine ⟨hset.create hsolo hc rfl ⟨hnoqueue, ?_, hnotask, hrun⟩ (fun ho => ?_) rfl rfl (fun i t ht => ?_)
        rfl ?_ hrun rfl, ?_, h.synthetic⟩
      · simp [layout, hqueues]
      · exact absurd (hnoqueue.symm.trans ho.2.1) (by simp)
      · exact absurd (show ([] : List TaskObject)[i]? = some t from htasks ▸ ht) (by simp)
      · simp [hqueues]
      · obtain ⟨xs, hq, hm⟩ := h.mail
        rw [hqueues] at hq
        refine ⟨[], ?_, hq ▸ hm⟩
        show QueuesHold [] (w.queues ++ [_])
        rw [hqueues]
        exact ⟨rfl, rfl, holdsEvents_allocate⟩
  | storeQueue q =>
    cases hs
    cases q with
    | none =>
      obtain ⟨hearly, hrun⟩ := hk
      refine ⟨hset.create hsolo hc rfl ⟨⟨rfl, hearly.2⟩, hrun⟩ (fun ho => ?_) rfl rfl (fun i t ht => ?_) rfl
        hset.queues hrun rfl, h.mail, h.synthetic⟩
      · exact absurd (hearly.1.symm.trans ho.1) (by simp)
      · exact absurd (hearly.1.symm.trans (hset.tasks i t ht).1.1) (by simp)
    | some q =>
      obtain ⟨rfl, hqueues, htasks, hrun⟩ := hk
      have ho : (layout { w with service := { w.service with queue := some 0 } }).Open := ⟨rfl, hqueues, hrun⟩
      exact ⟨hset.create hsolo hc rfl ⟨rfl, ho, htasks⟩ (fun _ => ho) rfl rfl
        (fun i t ht => ⟨ho, (hset.tasks i t ht).2⟩) rfl hset.queues
        hrun rfl, h.mail, h.synthetic⟩
  | checkQueue q =>
    simp only [serviceStart] at hs
    split at hs
    · cases hs; exact h.crash _
    · rename_i hnull
      cases hs
      cases q with
      | none => exact absurd hk.1.1 hnull
      | some q => exact h.goto hk
  | createTask q =>
    cases q with
    | none => cases hk
    | some q =>
      obtain ⟨rfl, ho, hnotask⟩ := hk
      have htasks : w.tasks = [] := List.length_eq_zero_iff.1 hnotask
      simp only [serviceStart] at hs
      split at hs
      · cases hs
        refine ⟨hset.create hsolo hc rfl ho id rfl rfl (fun i t ht => ?_) rfl hset.queues
          ho.2.2 rfl, ?_, h.synthetic⟩
        · rw [show w.tasks ++ _ = _ from congrArg (· ++ _) htasks] at ht
          have hi : i = 0 := by
            by_contra hne
            rw [List.getElem?_eq_none (by simp; omega)] at ht
            cases ht
          subst hi
          cases ht
          exact ⟨ho, rfl, rfl, trivial⟩
        · obtain ⟨xs, hq, hm⟩ := h.mail
          refine ⟨xs, hq, ?_⟩
          show acceptedEvents w.log = handledEvents w.log ++
            List.flatMap TaskPc.inHand ((w.tasks ++ [_]).map TaskObject.pc) ++ xs
          rw [List.map_append, List.flatMap_append]
          simpa [TaskPc.inHand, inHand] using hm
      · cases hs; exact h.goto ho
  | register i => cases hs; exact (h.register i ch.ok).goto (by rw [layout_register]; exact hk)
  | storeTask t => cases hs; exact (h.storeTask t).goto hk
  | checkTask t =>
    simp only [serviceStart] at hs
    split at hs
    · cases hs; exact h.crash _
    · cases hs
      exact ⟨hset.goto trivial rfl rfl rfl rfl fun _ => hk, h.mail.emit rfl, h.synthetic.emit (by simp)⟩

/-- Nobody has stopped the service or found its queue full. -/
def Silent (log : List Event) : Prop := .stopped ∉ log ∧ .overflow ∉ log

theorem serviceStop_good {w w' : World} {c : Nat} {pc : StopPc} (h : w.Good) (hs : w.serviceStop c pc = some w')
    (hsilent : Silent w'.log) : w'.Good := by
  cases pc with
  | check =>
    simp only [serviceStop] at hs
    split at hs <;> cases hs <;> exact h.goto trivial
  | setStopped =>
    -- the step would log the stop
    cases hs
    exact absurd (List.mem_append_right w.log (List.mem_singleton_self _)) hsilent.1

theorem serviceNotify_good {w w' : World} {c : Nat} {ch : Choice} {pc : NotifyPc} (h : w.Good)
    (hc : w.calls[c]? = some (.notify pc)) (hs : w.serviceNotify c ch pc = some w')
    (hsilent : Silent w'.log) : w'.Good := by
  have hset := h.setting
  have hk := hset.calls c _ hc
  cases pc with
  | check e =>
    simp only [serviceNotify] at hs
    split at hs
    · cases hs; exact h.goto hk
    · cases hs; exact h.goto trivial
  | load e =>
    cases hs
    exact h.goto ⟨hk.1, hk⟩
  | send e q =>
    obtain ⟨rfl, ho⟩ := hk
    obtain ⟨o, xs, hq, hdel, hlost, hx, hm⟩ := h.mail.queue_eq ho
    simp only [serviceNotify] at hs
    rw [onQueue_eq hq hdel hlost] at hs
    rcases hx.send e ch.pick with herr | ⟨hok, hx'⟩
    · -- the step would log the overflow
      simp only [if_pos herr] at hs
      cases hs
      exact absurd (List.mem_append_right w.log (List.mem_singleton_self _)) hsilent.2
    · simp only [hok, ne_eq, not_true_eq_false, if_false] at hs
      cases hs
      refine ⟨hset.goto trivial rfl (by simp [setQueue, World.emit]) rfl rfl fun hst => ?_, ?_,
        h.synthetic.emit (by simp)⟩
      · exact ho
      · refine ⟨xs ++ [e], ?_, ?_⟩
        · show QueuesHold _ (w.queues.modify 0 _)
          rw [hq]
          exact ⟨hdel, hlost, hx'⟩
        · show acceptedEvents (w.log ++ [.accepted e]) = handledEvents (w.log ++ [.accepted e]) ++ w.inHand ++ _
          rw [acceptedEvents_append, handledEvents_append, hm]
          simp [acceptedEvents, handledEvents]
  | _ => cases hk

/-! ## The steps of the task -/

/-- The task moves on and takes nothing, gives nothing. -/
theorem Good.gotoTask {w : World} (h : w.Good) {i : Nat} {t : TaskObject} {pc : TaskPc}
    (ht : w.tasks[i]? = some t) (hpc : PcGood pc) (hold : TaskPc.inHand t.pc = []) (hnew : TaskPc.inHand pc = []) :
    (w.gotoTask i pc).Good := by
  refine ⟨h.setting.gotoTask hpc rfl rfl rfl rfl id, ?_, h.synthetic⟩
  obtain ⟨rfl, htasks⟩ := h.setting.task_eq ht
  obtain ⟨xs, hq, hm⟩ := h.mail
  refine ⟨xs, hq, ?_⟩
  have hhand : (w.gotoTask 0 pc).inHand = w.inHand := by
    simp [inHand, World.gotoTask, htasks, hold, hnew]
  rw [hhand]
  exact hm

/-- The task moves on after a section of its queue, in which it may have taken an event. -/
theorem Good.gotoTask_received {w : World} (h : w.Good) {t : TaskObject} {o : QueueObject} {q : Queue Thread}
    {pc : TaskPc} {xs ys : List ServiceEvent} (htasks : w.tasks = [t]) (hqueues : w.queues = [o])
    (hpc : PcGood pc) (hdel : o.deleted = false) (hlost : o.mutexLost = false)
    (hm : acceptedEvents w.log = handledEvents w.log ++ w.inHand ++ xs) (hold : TaskPc.inHand t.pc = [])
    (hxs : xs = TaskPc.inHand pc ++ ys) (hys : HoldsEvents q ys) : ((w.setQueue 0 q).gotoTask 0 pc).Good := by
  refine ⟨h.setting.gotoTask hpc rfl (by simp [setQueue]) rfl rfl id, ⟨ys, ?_, ?_⟩, h.synthetic⟩
  · show QueuesHold _ (w.queues.modify 0 _)
    rw [hqueues]
    exact ⟨hdel, hlost, hys⟩
  · have hhand : ((w.setQueue 0 q).gotoTask 0 pc).inHand = TaskPc.inHand pc := by
      simp [inHand, World.gotoTask, setQueue, htasks]
    have hhand' : w.inHand = [] := by simp [inHand, htasks, hold]
    rw [hhand]
    show acceptedEvents w.log = handledEvents w.log ++ _ ++ ys
    rw [hm, hhand', hxs]
    simp

theorem Good.emit {w : World} (h : w.Good) {e : Event} (he : Event.quiet e = true) (hs : e ≠ .started) :
    (w.emit e).Good := by
  have hset := h.setting
  refine ⟨⟨hset.main, hset.handler, hset.calls, hset.tasks, hset.queues, hset.early, fun hst => ?_⟩,
    h.mail.emit he, h.synthetic.emit fun error x hx => ?_⟩
  · rcases List.mem_append.1 hst with hst | hst
    · exact hset.started hst
    · exact absurd (List.mem_singleton.1 hst).symm hs
  · subst hx; cases he

theorem serviceMain_good {w w' : World} {i : Nat} {t : TaskObject} {ch : Choice} (h : w.Good)
    (ht : w.tasks[i]? = some t) (hs : w.serviceMain i t ch = some w') : w'.Good := by
  have hset := h.setting
  obtain ⟨ho, -, -, hgood⟩ := hset.tasks i t ht
  obtain ⟨rfl, htasks⟩ := hset.task_eq ht
  unfold serviceMain at hs
  cases hpc : t.pc with
  | entry =>
    simp only [hpc] at hs
    split at hs
    · cases hs
      exact (h.emit (e := .setup) rfl (by simp)).gotoTask ht trivial (by rw [hpc]; rfl) rfl
    · cases hs; exact h.gotoTask ht trivial (by rw [hpc]; rfl) rfl
  | inSetup => simp only [hpc] at hs; cases hs; exact h.gotoTask ht trivial (by rw [hpc]; rfl) rfl
  | body =>
    simp only [hpc, hset.main] at hs
    cases hs; exact h.gotoTask ht trivial (by rw [hpc]; rfl) rfl
  | loopTest =>
    simp only [hpc, show w.service.state = .running from ho.2.2] at hs
    cases hs; exact h.gotoTask ht trivial (by rw [hpc]; rfl) rfl
  | load => simp only [hpc] at hs; cases hs; exact h.gotoTask ht ho.1 (by rw [hpc]; rfl) rfl
  | receive q =>
    simp only [hpc, PcGood] at hs hgood
    subst hgood
    obtain ⟨o, xs, hq, hdel, hlost, hx, hm⟩ := h.mail.queue_eq ho
    rw [onQueue_eq hq hdel hlost] at hs
    have hold : TaskPc.inHand t.pc = [] := by rw [hpc]; rfl
    rcases hx.receive (.task 0) w.service.timeoutMs ch.tv with ⟨q', hr, hx'⟩ | ⟨ret, q', hr, hrec⟩
    · -- the queue is empty and the task waits in it, having taken nothing
      simp only [hr] at hs
      cases hs
      exact h.gotoTask_received htasks hq rfl hdel hlost hm hold rfl hx'
    · simp only [hr] at hs
      cases hs
      obtain ⟨ys, hxs, hys⟩ := hrec.moved
      exact h.gotoTask_received htasks hq hrec.failed hdel hlost hm hold hxs hys
  | wait q =>
    simp only [hpc, PcGood] at hs hgood
    subst hgood
    obtain ⟨o, xs, hq, hdel, hlost, hx, hm⟩ := h.mail.queue_eq ho
    rw [onQueue_eq hq hdel hlost] at hs
    have hold : TaskPc.inHand t.pc = [] := by rw [hpc]; rfl
    split at hs
    · cases hs
    · rename_i ret q' hr
      cases hs
      have hrec := hx.resume hr
      obtain ⟨ys, hxs, hys⟩ := hrec.moved
      exact h.gotoTask_received htasks hq hrec.failed hdel hlost hm hold hxs hys
  | hand error b =>
    simp only [hpc, hset.handler, PcGood] at hs hgood
    cases hs
    refine ⟨hset.gotoTask trivial rfl rfl rfl rfl (by simp [World.emit]), ?_, h.synthetic.emit ?_⟩
    · -- what was in hand moves to the handled events, a time-out event is not counted
      obtain ⟨xs, hq, hm⟩ := h.mail
      refine ⟨xs, hq, ?_⟩
      have hhand : w.inHand = taken error b := by simp [inHand, htasks, hpc, TaskPc.inHand]
      have hhand' : ((w.emit (.handled error (.ofBytes b))).gotoTask 0 .inHandler).inHand = [] := by
        simp [inHand, World.gotoTask, World.emit, htasks, TaskPc.inHand]
      have hlog : handledEvents [.handled error (.ofBytes b)] = taken error b := List.append_nil _
      show acceptedEvents (w.log ++ [_]) = handledEvents (w.log ++ [_]) ++ _ ++ xs
      rw [hhand', acceptedEvents_append, handledEvents_append, hlog, hm, hhand]
      simp [acceptedEvents]
    · rintro error' x he hne
      cases he
      rw [hgood hne, ServiceEvent.ofBytes_toBytes]
  | inHandler => simp only [hpc] at hs; cases hs; exact h.gotoTask ht trivial (by rw [hpc]; rfl) rfl
  | _ => rw [hpc] at hgood; cases hgood

/-- A waiting thread leaves its wait. -/
theorem Good.wake {w : World} (h : w.Good) {q : Nat} {o : QueueObject} {t : Thread} {r : WaitResult}
    {cond : Waiters Thread Receiver} (hq : w.queues[q]? = some o) (hc : o.queue.cond.wake t r = some cond) :
    (w.setQueue q { o.queue with cond }).Good := by
  have hset := h.setting
  have hlayout : (w.setQueue q { o.queue with cond }).layout = w.layout := by
    simp only [layout, setQueue, List.length_modify]
  refine ⟨⟨hset.main, hset.handler, ?_, ?_, by simpa [setQueue] using hset.queues, ?_, ?_⟩, ?_, h.synthetic⟩
  · rw [hlayout]; exact hset.calls
  · rw [hlayout]; exact hset.tasks
  · rw [hlayout]; exact hset.early
  · rw [hlayout]; exact hset.started
  · obtain ⟨xs, hx, hm⟩ := h.mail
    refine ⟨xs, ?_, hm⟩
    show QueuesHold xs (w.queues.modify q _)
    rcases hl : w.queues with _ | ⟨o', _ | ⟨o₂, l⟩⟩
    · rw [hl] at hq; cases hq
    · rw [hl] at hq hx
      cases q with
      | zero =>
        cases hq
        exact ⟨hx.1, hx.2.1, hx.2.2.withCond (hx.2.2.waits.wake hc)⟩
      | succ q => cases hq
    · rw [hl] at hx; cases hx

theorem Good.setSemaphore {w : World} (h : w.Good) (sem : Semaphore Nat) : (w.setSemaphore sem).Good :=
  ⟨⟨h.setting.main, h.setting.handler, h.setting.calls, h.setting.tasks, h.setting.queues, h.setting.early,
    h.setting.started⟩, h.mail, h.synthetic⟩

/-! ## Runs -/

/-- A `Service_Start` passes its check only alone, and `Service_Notify` is called only after
`Service_Start` has returned. -/
def NotifyStarted (w : World) (a : Act) : Prop :=
  w.StartAlone a ∧
    match a with
    | .call (.notify _ _) => .started ∈ w.log
    | _ => True

instance (w : World) (a : Act) : Decidable (w.NotifyStarted a) := by
  unfold NotifyStarted
  have : Decidable (match a with | .call (.notify _ _) => Event.started ∈ w.log | _ => True) := by
    split <;> infer_instance
  infer_instance

theorem Good.enter {w : World} (h : w.Good) {api : Api} (hk : CallGood w.layout api.enter) :
    ({ w with calls := w.calls ++ [api.enter] } : World).Good := by
  have hset := h.setting
  refine ⟨⟨hset.main, hset.handler, fun c k hc => ?_, hset.tasks, hset.queues, hset.early, hset.started⟩,
    h.mail, h.synthetic⟩
  rcases Nat.lt_or_ge c w.calls.length with hlt | hge
  · exact hset.calls c k (List.getElem?_append_left hlt ▸ hc)
  · rw [show ({ w with calls := w.calls ++ [api.enter] } : World).calls = _ from rfl,
      List.getElem?_append_right hge] at hc
    rw [List.mem_singleton.1 (List.mem_of_getElem? hc)]
    exact hk

theorem step_good {w w' : World} {a : Act} (h : w.Good) (hsolo : w.life.Solo) (hc : w.NotifyStarted a)
    (hs : w.step a = some w') (hsilent : Silent w'.log) : w'.Good := by
  cases (step_advance hs).2 with
  | call api =>
    cases api with
    | start => exact h.enter trivial
    | stop => exact h.enter trivial
    | notify event payload => exact h.enter (h.setting.started hc.2)
  | start hcall hs => exact serviceStart_good h hsolo hcall hs
  | stop _ hs => exact serviceStop_good h hs hsilent
  | notify hcall hs => exact serviceNotify_good h hcall hs hsilent
  | task ht hs => exact serviceMain_good h ht hs
  | wake ho hwake => exact h.wake ho hwake
  | die ht hs =>
    have hdel := (h.setting.tasks _ _ ht).2.2.1
    simp [die, hdel] at hs
  | take | wakeTaker | retake => exact h.setSemaphore _

theorem good_init (service : Service) (hmain : service.main = false) (hhandler : service.handler = true) :
    (init service).Good :=
  ⟨⟨hmain, hhandler, fun _ _ h => (by cases h), fun _ _ h => (by cases h), Nat.zero_le _,
    fun _ => ⟨rfl, rfl, rfl⟩, fun h => (by cases h)⟩, ⟨[], rfl, rfl⟩, fun _ _ h => (by cases h)⟩

/-- The events in the queues the service has had. -/
def queued (w : World) : List ServiceEvent := w.queues.flatMap fun o => o.queue.contents.map .ofBytes

theorem queued_eq {w : World} {xs : List ServiceEvent} (h : QueuesHold xs w.queues) : w.queued = xs := by
  unfold queued
  match hl : w.queues with
  | [] => rw [hl] at h; rw [show xs = [] from h]; rfl
  | [o] =>
    rw [hl] at h
    simp [h.2.2.holds.contents_eq, Function.comp_def]
  | o₁ :: o₂ :: l => rw [hl] at h; cases h

/-- Exactly-once, in-order delivery. -/
structure Delivered (w : World) : Prop where
  /-- The accepted events are those handled, the one in hand and those queued, in order. -/
  order : acceptedEvents w.log = handledEvents w.log ++ w.inHand ++ w.queued
  /-- After a failed `Queue_Receive` the handler gets `(EVENT_TIMEOUT, 0)`. -/
  synthetic : Synthetic w.log
  failed : ∀ t ∈ w.tasks, ∀ error b, t.pc = .hand error b → error ≠ .success →
    ServiceEvent.ofBytes b = timeoutEvent

theorem Good.delivered {w : World} (h : w.Good) : w.Delivered := by
  obtain ⟨xs, hq, hm⟩ := h.mail
  refine ⟨by rw [queued_eq hq]; exact hm, h.synthetic, fun t ht error b hpc hne => ?_⟩
  obtain ⟨i, hi⟩ := List.mem_iff_getElem?.1 ht
  have hgood := (h.setting.tasks i t hi).2.2.2
  rw [hpc] at hgood
  rw [hgood hne, ServiceEvent.ofBytes_toBytes]

/-- Exactly-once, in-order delivery of the events of a handler service, in every state of every run in
which the service has not been stopped and no `Service_Notify` has found the queue full. -/
theorem exactly_once_in_order (service : Service) (hmain : service.main = false)
    (hhandler : service.handler = true) (acts : List Act) (w : World)
    (hc : Meets step NotifyStarted (init service) acts) (h : exec step (init service) acts = some w)
    (hsilent : Silent w.log) : w.Delivered := by
  have hinv := exec_meets_invariant (I := fun w => w.life.Solo ∧ (Silent w.log → w.Good))
    (C := NotifyStarted) (fun w a w' hI hC hs => ?_) h hc
    ⟨(tidy_init service).toSolo, fun _ => good_init service hmain hhandler⟩
  · exact (hinv.2 hsilent).delivered
  · refine ⟨solo_step hI.1 hC.1 hs, fun hsil => ?_⟩
    have hlog := step_log hs
    have hgood := hI.2 ⟨fun hm => hsil.1 (hlog.subset hm), fun hm => hsil.2 (hlog.subset hm)⟩
    exact step_good hgood hI.1 hC hs hsil

/-- A wait that times out, then two events; the task has handled the first and has the second in
hand. -/
def deliverRun : List Act :=
  startCall 0 ++ List.replicate 5 (Act.task 0 plain) ++ [Act.wake 0 (.task 0) .timedOut] ++
    List.replicate 6 (Act.task 0 plain) ++ Act.call (.notify 7 1) :: List.replicate 3 (Act.caller 1 plain) ++
    Act.call (.notify 8 2) :: List.replicate 3 (Act.caller 2 plain) ++ List.replicate 6 (Act.task 0 plain)

theorem exactly_once_in_order_deliverRun :
    ∃ w, exec step (init handlerService) deliverRun = some w ∧ w.Delivered := by
  obtain ⟨w, hw⟩ := Option.isSome_iff_exists.1
    (show (exec step (init handlerService) deliverRun).isSome = true by decide)
  have hlog : (exec step (init handlerService) deliverRun).map World.log =
      some [.started, .handled .errorTimeout timeoutEvent, .accepted ⟨7, 1⟩, .accepted ⟨8, 2⟩,
        .handled .success ⟨7, 1⟩] := by decide
  rw [hw, Option.map_some, Option.some.injEq] at hlog
  exact ⟨w, hw, exactly_once_in_order handlerService rfl rfl deliverRun w (by decide) hw
    (by rw [hlog]; exact ⟨by decide, by decide⟩)⟩

end InfoWorkshop.Service.World
