/-
The life of a service without its code: which queues and tasks exist, what the two handles and the
state of the service say, how far each `Service_Start` has come and what each task has yet to do.
The tasks and the calls are functions on all numbers; those not created yet are `absent` or `idle`.
-/
import Mathlib.Logic.Function.Basic

namespace InfoWorkshop.Service

/-- What a task has yet to do. -/
inductive Stage
  | absent
  /-- It has not left `main` or the event loop. -/
  | working
  /-- It has yet to give the termination semaphore. -/
  | ending
  | deleteTask
  | deleteQueue
  | clearQueue
  /-- It sleeps or is dead. -/
  | gone
  deriving DecidableEq, Repr

/-- How far a call has come. -/
inductive CallStage
  /-- It has done nothing yet, or nothing that lasts, or has returned. -/
  | idle
  /-- A `Service_Start` that found the service stopped. -/
  | passed
  | running
  | made (queue : Option Nat)
  | stored (queue : Option Nat)
  | checked (queue : Option Nat)
  | created (task : Nat)
  | done
  | noTask
  | nullStored
  /-- A `Service_Notify` that found the service not stopped. -/
  | notifying
  | sending (queue : Option Nat)
  deriving DecidableEq, Repr

/-- Between the entry of `Service_Main` and its final sleep loop. -/
@[simp] def Stage.active : Stage → Bool
  | .working | .ending | .deleteTask | .deleteQueue | .clearQueue => true
  | .absent | .gone => false

/-- Short of its `Queue_Delete`. -/
@[simp] def Stage.serves : Stage → Bool
  | .working | .ending | .deleteTask | .deleteQueue => true
  | .absent | .clearQueue | .gone => false

/-- A `Service_Start` past its check that has not created its task. -/
@[simp] def CallStage.creating : CallStage → Bool
  | .passed | .running | .made _ | .stored _ | .checked _ | .noTask | .nullStored => true
  | .idle | .created _ | .done | .notifying | .sending _ => false

/-- A `Service_Start` past its check that has not returned. -/
@[simp] def CallStage.inProgress : CallStage → Bool
  | .passed | .running | .made _ | .stored _ | .checked _ | .noTask | .nullStored | .created _ | .done => true
  | .idle | .notifying | .sending _ => false

/-- A `Service_Start` past its check that has not made sure of its queue. -/
@[simp] def CallStage.preparing : CallStage → Bool
  | .passed | .running | .made _ | .stored _ => true
  | .idle | .checked _ | .noTask | .nullStored | .created _ | .done | .notifying | .sending _ => false

/-- A `Service_Start` that has created its task and has yet to store its handle. -/
@[simp] def CallStage.storing : CallStage → Bool
  | .created _ => true
  | .idle | .passed | .running | .made _ | .stored _ | .checked _ | .noTask | .nullStored | .done
  | .notifying | .sending _ => false

/-- A `Service_Notify` past its check that has not sent. -/
@[simp] def CallStage.pending : CallStage → Bool
  | .notifying | .sending _ => true
  | .idle | .passed | .running | .made _ | .stored _ | .checked _ | .noTask | .nullStored | .created _
  | .done => false

/-- The life of a service: whether its state is `SERVICE_STOPPED`, its handles, the number of queues
and those deleted, the number of tasks, what they have yet to do, the queue each was created for and
whether it has been deleted, and the calls. -/
structure Life where
  stopped : Bool
  queue : Option Nat
  task : Option Nat
  queues : Nat
  freed : Nat → Bool
  tasks : Nat
  stage : Nat → Stage
  own : Nat → Option Nat
  deleted : Nat → Bool
  call : Nat → CallStage

namespace Life

def setCall (l : Life) (c : Nat) (k : CallStage) : Life := { l with call := Function.update l.call c k }

def setStage (l : Life) (i : Nat) (s : Stage) : Life := { l with stage := Function.update l.stage i s }

inductive Act
  | pass (c : Nat)
  | run (c : Nat)
  | make (c : Nat)
  | makeNone (c : Nat)
  | store (c : Nat)
  | check (c : Nat)
  | create (c : Nat)
  | createNone (c : Nat)
  | storeTask (c : Nat)
  | storeNull (c : Nat)
  | finish (c : Nat)
  | finishNull (c : Nat)
  | stop
  | notify (c : Nat)
  | load (c : Nat)
  | sent (c : Nat)
  | leave (i : Nat)
  | give (i : Nat)
  | deleteTask (i : Nat)
  | deleteQueue (i : Nat)
  | clear (i : Nat)
  | die (i : Nat)
  deriving DecidableEq, Repr

/-- What one step does to the life of the service. -/
inductive Step (l : Life) : Act → Life → Prop
  | pass (c) : l.call c = .idle → l.stopped = true → Step l (.pass c) (l.setCall c .passed)
  | run (c) : l.call c = .passed → Step l (.run c) ({ l with stopped := false }.setCall c .running)
  | make (c) : l.call c = .running →
    Step l (.make c) ({ l with queues := l.queues + 1 }.setCall c (.made (some l.queues)))
  | makeNone (c) : l.call c = .running → Step l (.makeNone c) (l.setCall c (.made none))
  | store (c q) : l.call c = .made q → Step l (.store c) ({ l with queue := q }.setCall c (.stored q))
  | check (c q) : l.call c = .stored q → l.queue ≠ none → Step l (.check c) (l.setCall c (.checked q))
  | create (c q) : l.call c = .checked q →
    Step l (.create c)
      ({ l with
          tasks := l.tasks + 1
          own := Function.update l.own l.tasks q
          deleted := Function.update l.deleted l.tasks false }.setStage
        l.tasks .working |>.setCall c (.created l.tasks))
  | createNone (c q) : l.call c = .checked q → Step l (.createNone c) (l.setCall c .noTask)
  | storeTask (c i) : l.call c = .created i →
    Step l (.storeTask c) ({ l with task := some i }.setCall c .done)
  | storeNull (c) : l.call c = .noTask → Step l (.storeNull c) ({ l with task := none }.setCall c .nullStored)
  | finish (c) : l.call c = .done → Step l (.finish c) (l.setCall c .idle)
  | finishNull (c) : l.call c = .nullStored → l.task ≠ none → Step l (.finishNull c) (l.setCall c .idle)
  | stop : Step l .stop { l with stopped := true }
  | notify (c) : l.call c = .idle → l.stopped = false → Step l (.notify c) (l.setCall c .notifying)
  | load (c) : l.call c = .notifying → Step l (.load c) (l.setCall c (.sending l.queue))
  | sent (c q) : l.call c = .sending q → Step l (.sent c) (l.setCall c .idle)
  | leave (i) : l.stage i = .working → Step l (.leave i) (l.setStage i .ending)
  | give (i) : l.stage i = .ending → Step l (.give i) (l.setStage i .deleteTask)
  | deleteTask (i j) : l.stage i = .deleteTask → (l.task = some j ∨ l.task = none ∧ j = i) →
    Step l (.deleteTask i) ({ l with deleted := Function.update l.deleted j true }.setStage i .deleteQueue)
  | deleteNone (i) : l.stage i = .deleteTask → l.task = none →
    Step l (.deleteTask i) (l.setStage i .deleteQueue)
  | deleteQueue (i q) : l.stage i = .deleteQueue → l.queue = some q →
    Step l (.deleteQueue i) ({ l with freed := Function.update l.freed q true }.setStage i .clearQueue)
  | deleteNoQueue (i) : l.stage i = .deleteQueue → l.queue = none →
    Step l (.deleteQueue i) (l.setStage i .clearQueue)
  | clear (i) : l.stage i = .clearQueue → Step l (.clear i) ({ l with queue := none }.setStage i .gone)
  | die (i) : l.stage i ≠ .absent → l.stage i ≠ .deleteQueue → l.stage i ≠ .clearQueue →
    l.deleted i = true → Step l (.die i) (l.setStage i .gone)

section Updates

variable (l : Life) (c d i j : Nat) (k : CallStage) (s : Stage)

@[simp] theorem setCall_call : (l.setCall c k).call d = if d = c then k else l.call d := by
  simp [setCall, Function.update_apply]

@[simp] theorem setStage_stage : (l.setStage i s).stage j = if j = i then s else l.stage j := by
  simp [setStage, Function.update_apply]

@[simp] theorem setCall_stage : (l.setCall c k).stage j = l.stage j := rfl
@[simp] theorem setCall_own : (l.setCall c k).own j = l.own j := rfl
@[simp] theorem setStage_freed : (l.setStage i s).freed j = l.freed j := rfl
@[simp] theorem setStage_own : (l.setStage i s).own j = l.own j := rfl

end Updates

/-! ## What an update keeps of all calls and all tasks -/

section Keep

variable {l : Life} {c i : Nat} {k : CallStage} {s : Stage} {P : CallStage → Prop} {R : Stage → Prop}

/-- What the call did not have it does not get. -/
theorem mono_setCall (hk : P k → P (l.call c)) (d : Nat) (hd : P ((l.setCall c k).call d)) : P (l.call d) := by
  rw [setCall_call] at hd
  split at hd
  · subst d; exact hk hd
  · exact hd

/-- What the call had it keeps. -/
theorem keep_setCall (hk : P (l.call c) → P k) (d : Nat) (hd : P (l.call d)) : P ((l.setCall c k).call d) := by
  rw [setCall_call]
  split
  · subst d; exact hk hd
  · exact hd

theorem mono_setStage (hs : R s → R (l.stage i)) (j : Nat) (hj : R ((l.setStage i s).stage j)) : R (l.stage j) := by
  rw [setStage_stage] at hj
  split at hj
  · subst j; exact hs hj
  · exact hj

theorem keep_setStage (hs : R (l.stage i) → R s) (j : Nat) (hj : R (l.stage j)) : R ((l.setStage i s).stage j) := by
  rw [setStage_stage]
  split
  · subst j; exact hs hj
  · exact hj

/-- What no call had, only the call has. -/
theorem only_setCall (h : ∀ d, ¬ P (l.call d)) (d : Nat) (hd : P ((l.setCall c k).call d)) : d = c := by
  by_contra hdc
  rw [setCall_call, if_neg hdc] at hd
  exact h d hd

theorem only_setStage (h : ∀ j, ¬ R (l.stage j)) (j : Nat) (hj : R ((l.setStage i s).stage j)) : j = i := by
  by_contra hji
  rw [setStage_stage, if_neg hji] at hj
  exact h j hj

end Keep

/-! ## One task -/

/-- At most one task is active, or one `Service_Start` is about to create it. -/
structure Solo (l : Life) : Prop where
  tasks : ∀ i j, (l.stage i).active → (l.stage j).active → i = j
  starts : ∀ c d, (l.call c).creating → (l.call d).creating → c = d
  apart : ∀ c i, (l.call c).creating → ¬ (l.stage i).active

/-- A `Service_Start` passes its check only while no other one is about to create a task and no task
is active. -/
def StartAlone (l : Life) : Act → Prop
  | .pass _ => (∀ d, ¬ (l.call d).creating) ∧ ∀ i, ¬ (l.stage i).active
  | _ => True

/-- Nothing is lost when tasks come to rest and calls give up. -/
theorem Solo.mono {l l' : Life} (h : l.Solo) (ht : ∀ i, (l'.stage i).active → (l.stage i).active)
    (hc : ∀ c, (l'.call c).creating → (l.call c).creating) : l'.Solo :=
  ⟨fun i j hi hj => h.tasks i j (ht i hi) (ht j hj), fun c d hc' hd => h.starts c d (hc c hc') (hc d hd),
    fun c i hc' hi => h.apart c i (hc c hc') (ht i hi)⟩

/-- Only a `Service_Start` that passes its check adds to the claims on the task; the one that creates
it hands its claim over. -/
theorem Solo.step {l l' : Life} {a : Act} (h : l.Solo) (hc : l.StartAlone a) (hs : Step l a l') : l'.Solo := by
  cases hs with
  | pass c hidle hstop =>
    obtain ⟨hcalls, htasks⟩ := hc
    have honly : ∀ d, ((l.setCall c .passed).call d).creating → d = c :=
      only_setCall (P := fun k => k.creating) hcalls
    refine ⟨fun i _ hi => absurd hi (htasks i), fun d e hd he => ?_, fun _ i _ => htasks i⟩
    rw [honly d hd, honly e he]
  | create c q hq =>
    have hcalls : ∀ d, (l.call d).creating → d = c := fun d hd => h.starts d c hd (by simp [hq])
    have htasks : ∀ i, ¬ (l.stage i).active := fun i => h.apart c i (by simp [hq])
    -- the new task is the only active one, and the call that created it creates no other
    have hother : ∀ d k, ((l.setCall c (.created k)).call d).creating → False := fun d k hd => by
      rw [setCall_call] at hd
      split at hd
      · cases hd
      · rename_i hne
        exact hne (hcalls d hd)
    have honly := fun i => only_setStage (R := fun s => s.active) (s := .working) htasks (i := l.tasks) i
    refine ⟨fun i j hi hj => ?_, fun d _ hd => (hother d _ hd).elim, fun d _ hd => (hother d _ hd).elim⟩
    exact (honly i hi).trans (honly j hj).symm
  | run c hk | make c hk | makeNone c hk | store c q hk | check c q hk | createNone c q hk | storeTask c i hk
  | storeNull c hk | finish c hk | finishNull c hk | notify c hk | load c hk | sent c q hk =>
    exact h.mono (fun _ => id) (mono_setCall (P := fun k => k.creating) (by simp [hk]))
  | leave i hi | give i hi | deleteTask i j hi | deleteNone i hi | deleteQueue i q hi | deleteNoQueue i hi
  | clear i hi | die i hi =>
    exact h.mono (mono_setStage (R := fun s => s.active) (by simp [hi])) (fun _ => id)
  | stop => exact h.mono (fun _ => id) (fun _ => id)

/-! ## The handles -/

/-- The handle `h` is that of a queue that exists and has not been deleted. -/
def Valid (l : Life) (h : Option Nat) : Prop := ∃ q, h = some q ∧ q < l.queues ∧ l.freed q = false

/-- What a call can rely on where it stands. -/
def CallOk (l : Life) : CallStage → Prop
  | .made h => h = none ∨ l.Valid h
  | .stored h => l.queue = h ∧ (h = none ∨ l.Valid h)
  | .checked h => l.queue = h ∧ l.Valid h
  | .noTask => l.Valid l.queue
  | .nullStored => l.Valid l.queue ∧ l.task = none
  | .created i => ∀ j, (l.stage j).active → j = i
  | .idle | .passed | .running | .done | .notifying | .sending _ => True

/-- What task `i` can rely on where it stands. -/
def TaskOk (l : Life) (i : Nat) : Stage → Prop
  | .working | .ending | .deleteTask => l.queue = l.own i ∧ l.Valid l.queue ∧ l.deleted i = false
  | .deleteQueue => l.queue = l.own i ∧ l.Valid l.queue
  | .absent | .clearQueue | .gone => True

/-- With one `Service_Start` at a time, the handles are those of the one task and its queue. -/
structure Tidy (l : Life) : Prop extends Solo l where
  progress : ∀ c d, (l.call c).inProgress → (l.call d).inProgress → c = d
  fresh : ∀ q, l.freed q → q < l.queues
  calls : ∀ c, l.CallOk (l.call c)
  stages : ∀ i, l.TaskOk i (l.stage i)
  /-- The handle of the task is stored, unless its `Service_Start` has yet to do so. -/
  task : ∀ i, (l.stage i).active → (∀ c, ¬ (l.call c).storing) → l.task = some i

/-- A `Service_Start` passes its check only while no other one is in progress and no task is active. -/
def StartApart (l : Life) : Act → Prop
  | .pass _ => (∀ d, ¬ (l.call d).inProgress) ∧ ∀ i, ¬ (l.stage i).active
  | _ => True

theorem inProgress_of_creating {k : CallStage} (h : k.creating) : k.inProgress := by
  cases k <;> first | rfl | cases h

theorem StartApart.alone {l : Life} {a : Act} (h : l.StartApart a) : l.StartAlone a := by
  cases a with
  | pass c => exact ⟨fun d hd => h.1 d (inProgress_of_creating hd), h.2⟩
  | _ => trivial

theorem callOk_of_not_inProgress (l : Life) {k : CallStage} (h : ¬ k.inProgress) : l.CallOk k := by
  cases k with
  | idle | notifying | sending => trivial
  | _ => exact absurd rfl h

theorem taskOk_of_not_active (l : Life) (i : Nat) {s : Stage} (h : ¬ s.active) : l.TaskOk i s := by
  cases s with
  | absent | gone => trivial
  | _ => exact absurd rfl h

@[simp] theorem callOk_setCall (l : Life) (c : Nat) (k k' : CallStage) : (l.setCall c k).CallOk k' ↔ l.CallOk k' := by
  cases k' <;> exact Iff.rfl

@[simp] theorem taskOk_setCall (l : Life) (c i : Nat) (k : CallStage) (s : Stage) :
    (l.setCall c k).TaskOk i s ↔ l.TaskOk i s := by
  cases s <;> exact Iff.rfl

@[simp] theorem taskOk_setStage (l : Life) (i j : Nat) (s s' : Stage) :
    (l.setStage i s).TaskOk j s' ↔ l.TaskOk j s' := by
  cases s' <;> exact Iff.rfl

/-- The one `Service_Start` in progress has only itself to answer for. -/
theorem Tidy.calls_setCall {l l₁ : Life} {c : Nat} {k : CallStage} (h : l.Tidy) (hcall : l₁.call = l.call)
    (hc : (l.call c).inProgress) (hk : l₁.CallOk k) (d : Nat) :
    (l₁.setCall c k).CallOk ((l₁.setCall c k).call d) := by
  rw [callOk_setCall, setCall_call, hcall]
  split
  · exact hk
  · rename_i hd
    exact callOk_of_not_inProgress l₁ fun hd' => hd (h.progress d c hd' hc)

/-- The one active task has only itself to answer for. -/
theorem Tidy.stages_setStage {l l₁ : Life} {i : Nat} {s : Stage} (h : l.Tidy) (hstage : l₁.stage = l.stage)
    (hi : (l.stage i).active) (hs : l₁.TaskOk i s) (j : Nat) :
    (l₁.setStage i s).TaskOk j ((l₁.setStage i s).stage j) := by
  rw [taskOk_setStage, setStage_stage, hstage]
  split
  · subst j; exact hs
  · rename_i hj
    exact taskOk_of_not_active l₁ j fun hj' => hj (h.tasks j i hj' hi)

theorem Tidy.progress_step {l l' : Life} {a : Act} (h : l.Tidy) (hc : l.StartApart a) (hs : Step l a l') :
    ∀ c d, (l'.call c).inProgress → (l'.call d).inProgress → c = d := by
  have hp := h.progress
  cases hs with
  | pass c hidle hstop =>
    have honly := only_setCall (P := fun k => k.inProgress) (c := c) (k := .passed) hc.1
    exact fun d e hd he => (honly d hd).trans (honly e he).symm
  | run c hk | make c hk | makeNone c hk | store c q hk | check c q hk | create c q hk | createNone c q hk
  | storeTask c i hk | storeNull c hk | finish c hk | finishNull c hk | notify c hk | load c hk | sent c q hk =>
    exact fun d e hd he => hp d e (mono_setCall (P := fun k => k.inProgress) (by simp [hk]) d hd)
      (mono_setCall (P := fun k => k.inProgress) (by simp [hk]) e he)
  | _ => exact hp

theorem Tidy.fresh_step {l l' : Life} {a : Act} (h : l.Tidy) (hs : Step l a l') :
    ∀ q, l'.freed q → q < l'.queues := by
  have hf := h.fresh
  cases hs with
  | deleteQueue i q hi hq =>
    obtain ⟨-, q', hq', hlt, -⟩ := hi ▸ h.stages i
    rw [hq, Option.some.injEq] at hq'
    subst hq'
    intro q' hfreed
    by_cases hqq : q' = q
    · subst hqq; exact hlt
    · exact hf q' (by simpa [hqq] using hfreed)
  | make c hk => exact fun q hq => Nat.lt_succ_of_lt (hf q hq)
  | _ => exact hf

/-- A call that is not about to create a task relies on nothing but the tasks being at most one. -/
theorem callOk_of_not_creating {l l' : Life} {k : CallStage} (h : l.CallOk k) (hk : ¬ k.creating)
    (hmono : ∀ i, (l'.stage i).active → (l.stage i).active) : l'.CallOk k := by
  cases k with
  | created i => exact fun j hj => h j (hmono j hj)
  | idle | done | notifying | sending => trivial
  | _ => exact absurd rfl hk

theorem callOk_setStage_gone {l : Life} {k : CallStage} (i : Nat) (h : l.CallOk k) :
    (l.setStage i .gone).CallOk k := by
  cases k with
  | created j =>
    intro j' hj'
    exact h j' (mono_setStage (R := fun s => s.active) (by simp) j' hj')
  | _ => exact h

/-- While a task is active no call is about to create one. -/
theorem Tidy.calls_of_active {l l' : Life} (h : l.Tidy) {i : Nat} (hi : (l.stage i).active)
    (hcall : l'.call = l.call) (hmono : ∀ j, (l'.stage j).active → (l.stage j).active) (c : Nat) :
    l'.CallOk (l'.call c) := by
  rw [hcall]
  exact callOk_of_not_creating (h.calls c) (fun hc => h.apart c i hc hi) hmono

/-- While a call is about to create a task no task is active. -/
theorem Tidy.stages_of_creating {l l' : Life} (h : l.Tidy) {c : Nat} (hc : (l.call c).creating)
    (hstage : l'.stage = l.stage) (i : Nat) : l'.TaskOk i (l'.stage i) := by
  rw [hstage]
  exact taskOk_of_not_active l' i (h.apart c i hc)

theorem Tidy.calls_step {l l' : Life} {a : Act} (h : l.Tidy) (hs : Step l a l') :
    ∀ c, l'.CallOk (l'.call c) := by
  cases hs with
  | pass c hidle hstop | notify c hidle hstop | load c hidle =>
    intro d
    rw [callOk_setCall, setCall_call]
    split
    · trivial
    · exact h.calls d
  | run c hc => exact h.calls_setCall rfl (by simp [hc]) trivial
  | make c hc =>
    -- handles are not handed out again, so the new one has not been freed
    have hfree : l.freed l.queues = false :=
      Bool.eq_false_iff.2 fun hf => Nat.lt_irrefl _ (h.fresh l.queues hf)
    exact h.calls_setCall rfl (by simp [hc]) (.inr ⟨l.queues, rfl, by simp, hfree⟩)
  | makeNone c hc => exact h.calls_setCall rfl (by simp [hc]) (.inl rfl)
  | store c q hc =>
    have hq : l.CallOk (.made q) := hc ▸ h.calls c
    exact h.calls_setCall rfl (by simp [hc]) ⟨rfl, hq⟩
  | check c q hc hnull =>
    obtain ⟨hqueue, hq⟩ : l.CallOk (.stored q) := hc ▸ h.calls c
    exact h.calls_setCall rfl (by simp [hc]) ⟨hqueue, hq.resolve_left (hqueue ▸ hnull)⟩
  | create c q hc =>
    -- no other task is active while this call is about to create one
    have hnone : ∀ i, ¬ (l.stage i).active := fun i => h.apart c i (by simp [hc])
    exact h.calls_setCall rfl (by simp [hc]) (only_setStage (R := fun s => s.active) hnone)
  | createNone c q hc =>
    obtain ⟨hqueue, hq⟩ : l.CallOk (.checked q) := hc ▸ h.calls c
    exact h.calls_setCall rfl (by simp [hc]) (show l.Valid l.queue from hqueue ▸ hq)
  | storeTask c i hc => exact h.calls_setCall rfl (by simp [hc]) trivial
  | storeNull c hc =>
    have hq : l.CallOk .noTask := hc ▸ h.calls c
    exact h.calls_setCall rfl (by simp [hc]) ⟨hq, rfl⟩
  | finish c hc => exact h.calls_setCall rfl (by simp [hc]) trivial
  | finishNull c hc hnull => exact h.calls_setCall rfl (by simp [hc]) trivial
  | sent c q hc =>
    intro d
    rw [callOk_setCall, setCall_call]
    split
    · trivial
    · exact h.calls d
  | stop => intro c; exact h.calls c
  | die i ha hq hcl hdel =>
    intro c
    exact callOk_setStage_gone i (h.calls c)
  | leave i hi | give i hi | deleteNone i hi | deleteNoQueue i hi | deleteTask i j hi | deleteQueue i q hi
  | clear i hi =>
    exact h.calls_of_active (i := i) (by simp [hi]) rfl (mono_setStage (R := fun s => s.active) (by simp [hi]))

theorem Tidy.stages_step {l l' : Life} {a : Act} (h : l.Tidy) (hs : Step l a l') :
    ∀ i, l'.TaskOk i (l'.stage i) := by
  cases hs with
  | pass c hc hstop | makeNone c hc | check c q hc hq | createNone c q hc | finish c hc
  | finishNull c hc hnull | notify c hc hstop | load c hc | sent c q hc =>
    intro i
    exact (taskOk_setCall l c i _ _).2 (h.stages i)
  | run c hc => exact h.stages_of_creating (show (l.call c).creating by simp [hc]) rfl
  | make c hc => exact h.stages_of_creating (show (l.call c).creating by simp [hc]) rfl
  | store c q hc => exact h.stages_of_creating (show (l.call c).creating by simp [hc]) rfl
  | storeNull c hc => exact h.stages_of_creating (show (l.call c).creating by simp [hc]) rfl
  | storeTask c i hc => exact h.stages
  | stop => exact h.stages
  | create c q hc =>
    obtain ⟨hqueue, hq⟩ : l.CallOk (.checked q) := hc ▸ h.calls c
    intro i
    rw [taskOk_setCall, taskOk_setStage, setCall_stage, setStage_stage]
    split
    · -- the new task gets the queue that its call has made sure of
      subst i
      exact ⟨by simp [hqueue], hqueue ▸ hq, by simp⟩
    · exact taskOk_of_not_active _ i (h.apart c i (by simp [hc]))
  | leave i hi =>
    have hok : l.TaskOk i .working := hi ▸ h.stages i
    exact h.stages_setStage rfl (by simp [hi]) hok
  | give i hi =>
    have hok : l.TaskOk i .ending := hi ▸ h.stages i
    exact h.stages_setStage rfl (by simp [hi]) hok
  | deleteTask i j hi hj =>
    have hok : l.TaskOk i .deleteTask := hi ▸ h.stages i
    exact h.stages_setStage rfl (by simp [hi]) ⟨hok.1, hok.2.1⟩
  | deleteNone i hi htask =>
    have hok : l.TaskOk i .deleteTask := hi ▸ h.stages i
    exact h.stages_setStage rfl (by simp [hi]) ⟨hok.1, hok.2.1⟩
  | deleteQueue i q hi hq => exact h.stages_setStage rfl (by simp [hi]) trivial
  | deleteNoQueue i hi hqueue => exact h.stages_setStage rfl (by simp [hi]) trivial
  | clear i hi => exact h.stages_setStage rfl (by simp [hi]) trivial
  | die i ha hq hcl hdel =>
    intro j
    rw [taskOk_setStage, setStage_stage]
    split
    · trivial
    · exact h.stages j

theorem Tidy.task_step {l l' : Life} {a : Act} (h : l.Tidy) (hs : Step l a l') :
    ∀ i, (l'.stage i).active → (∀ c, ¬ (l'.call c).storing) → l'.task = some i := by
  have ht := h.task
  cases hs with
  | storeTask c i hc =>
    have hok : l.CallOk (.created i) := hc ▸ h.calls c
    intro j hj _
    exact congrArg some (hok j hj).symm
  | storeNull c hc =>
    intro j hj _
    exact absurd hj (h.apart c j (by simp [hc]))
  | create c q hc =>
    intro j _ hno
    exact absurd (by simp) (hno c)
  | pass c hk | run c hk | make c hk | makeNone c hk | store c q hk | check c q hk | createNone c q hk
  | finish c hk | finishNull c hk | notify c hk | load c hk | sent c q hk =>
    exact fun j hj hno => ht j hj fun d hd => hno d (keep_setCall (P := fun k => k.storing) (by simp [hk]) d hd)
  | leave i hi | give i hi | deleteTask i j hi | deleteNone i hi | deleteQueue i q hi | deleteNoQueue i hi
  | clear i hi | die i hi =>
    exact fun j hj hno => ht j (mono_setStage (R := fun s => s.active) (by simp [hi]) j hj) hno
  | stop => exact ht

theorem Tidy.step {l l' : Life} {a : Act} (h : l.Tidy) (hc : l.StartApart a) (hs : Step l a l') : l'.Tidy :=
  ⟨h.toSolo.step hc.alone hs, h.progress_step hc hs, h.fresh_step hs, h.calls_step hs, h.stages_step hs,
    h.task_step hs⟩

/-- While a task serves, or a `Service_Start` has made sure of its queue, the handle is valid. -/
theorem Tidy.valid_of_serves {l : Life} (h : l.Tidy) {i : Nat} (hi : (l.stage i).serves) :
    l.queue = l.own i ∧ l.Valid l.queue := by
  have hok := h.stages i
  cases hst : l.stage i with
  | working | ending | deleteTask => rw [hst] at hok; exact ⟨hok.1, hok.2.1⟩
  | deleteQueue => rw [hst] at hok; exact hok
  | _ => rw [hst] at hi; cases hi

theorem Tidy.valid_of_ready {l : Life} (h : l.Tidy) {c : Nat} (hc : (l.call c).creating)
    (hp : ¬ (l.call c).preparing) : l.Valid l.queue := by
  have hok := h.calls c
  cases hst : l.call c with
  | checked q => rw [hst] at hok; exact hok.1 ▸ hok.2
  | noTask => rw [hst] at hok; exact hok
  | nullStored => rw [hst] at hok; exact hok.1
  | passed | running | made | stored => rw [hst] at hp; exact absurd rfl hp
  | _ => rw [hst] at hc; cases hc

/-- A dying task was already done. -/
theorem Tidy.not_serves_of_die {l : Life} (h : l.Tidy) {i : Nat} (hq : l.stage i ≠ .deleteQueue)
    (hdel : l.deleted i = true) : ¬ (l.stage i).serves := by
  have hok := h.stages i
  intro hi
  cases hst : l.stage i with
  | working | ending | deleteTask =>
    rw [hst] at hok
    obtain ⟨-, -, hd⟩ := hok
    rw [hdel] at hd; cases hd
  | deleteQueue => exact hq hst
  | _ => rw [hst] at hi; cases hi

/-! ## A service that is not stopped is served -/

/-- With a service that is not stopped there is a task at work or a `Service_Start` that is about to
create one, and a `Service_Notify` past its check has a queue to send to. -/
structure Served (l : Life) : Prop extends Tidy l where
  running : l.stopped = false →
    (∃ c, (l.call c).creating ∧ l.call c ≠ .passed) ∨ ∃ i, l.stage i = .working
  ended : ∀ i, (l.stage i).active → l.stage i ≠ .working → l.stopped = true
  pending : ∀ c, (l.call c).pending →
    (∃ i, (l.stage i).serves) ∨ ∃ d, (l.call d).creating ∧ ¬ (l.call d).preparing
  sending : ∀ c h, l.call c = .sending h → l.Valid h

/-- Starts do not overlap with one another or with a task; a task leaves its work only when the
service is stopped; a `Service_Notify` passes its check only when no `Service_Start` is preparing a
queue; a queue is deleted only when no `Service_Notify` is pending. -/
def Orderly (l : Life) : Act → Prop
  | .pass c => l.StartApart (.pass c)
  | .leave _ => l.stopped = true
  | .notify _ => ∀ d, ¬ (l.call d).preparing
  | .deleteQueue _ => ∀ c, ¬ (l.call c).pending
  | _ => True

theorem Orderly.apart {l : Life} {a : Act} (h : l.Orderly a) : l.StartApart a := by
  cases a with
  | pass c => exact h
  | _ => trivial

theorem Served.running_step {l l' : Life} {a : Act} (h : l.Served) (ho : l.Orderly a) (hs : Step l a l') :
    l'.stopped = false → (∃ c, (l'.call c).creating ∧ l'.call c ≠ .passed) ∨ ∃ i, l'.stage i = .working := by
  have hr := h.running
  cases hs with
  | pass c hidle hstop => intro hrun; exact absurd (hstop.symm.trans hrun) (by simp)
  | run c hc => intro _; exact .inl ⟨c, by simp⟩
  | make c hc => intro _; exact .inl ⟨c, by simp⟩
  | makeNone c hc => intro _; exact .inl ⟨c, by simp⟩
  | store c q hc => intro _; exact .inl ⟨c, by simp⟩
  | check c q hc hq => intro _; exact .inl ⟨c, by simp⟩
  | createNone c q hc => intro _; exact .inl ⟨c, by simp⟩
  | storeNull c hc => intro _; exact .inl ⟨c, by simp⟩
  | create c q hc => intro _; exact .inr ⟨l.tasks, by simp⟩
  | finishNull c hc hnull =>
    -- nobody else has stored a handle since, so the check of the task reboots
    have hok : l.CallOk .nullStored := hc ▸ h.calls c
    exact absurd hok.2 hnull
  | stop => intro hrun; cases hrun
  | leave i hi => intro hrun; exact absurd (ho.symm.trans hrun) (by simp)
  | die i ha hq hcl hdel =>
    -- a task that dies has been deleted, so it was not at work
    have hi := h.not_serves_of_die hq hdel
    intro hrun
    have hwork : ¬ l.stage i = .working := fun hw => hi (by simp [hw])
    rcases hr hrun with ⟨d, hd⟩ | ⟨j, hj⟩
    · exact .inl ⟨d, hd⟩
    · exact .inr ⟨j, keep_setStage (R := fun s => s = .working) (fun hw => absurd hw hwork) j hj⟩
  | storeTask c i hk | finish c hk | notify c hk | load c hk | sent c q hk =>
    intro hrun
    rcases hr hrun with ⟨d, hd⟩ | hj
    · exact .inl ⟨d, keep_setCall (P := fun k => k.creating ∧ k ≠ .passed) (by simp [hk]) d hd⟩
    · exact .inr hj
  | give i hi | deleteTask i j hi | deleteNone i hi | deleteQueue i q hi | deleteNoQueue i hi | clear i hi =>
    intro hrun
    rcases hr hrun with hd | ⟨j, hj⟩
    · exact .inl hd
    · exact .inr ⟨j, keep_setStage (R := fun s => s = .working) (by simp [hi]) j hj⟩

theorem Served.ended_step {l l' : Life} {a : Act} (h : l.Served) (ho : l.Orderly a) (hs : Step l a l') :
    ∀ i, (l'.stage i).active → l'.stage i ≠ .working → l'.stopped = true := by
  have he := h.ended
  cases hs with
  | run c hc => intro i hi; exact absurd hi (h.apart c i (by simp [hc]))
  | leave i hi => intro j _ _; exact ho
  | stop => intro i _ _; rfl
  | create c q hc =>
    intro i hi hw
    have hold := mono_setStage (R := fun s => s.active = true ∧ s ≠ .working) (by simp) i ⟨hi, hw⟩
    exact he i hold.1 hold.2
  | give i hi | deleteTask i j hi | deleteNone i hi | deleteQueue i q hi | deleteNoQueue i hi | clear i hi
  | die i hi =>
    intro j hj hw
    have hold := mono_setStage (R := fun s => s.active = true ∧ s ≠ .working) (by simp [hi]) j ⟨hj, hw⟩
    exact he j hold.1 hold.2
  | _ => exact he

theorem Served.pending_step {l l' : Life} {a : Act} (h : l.Served) (ho : l.Orderly a) (hs : Step l a l') :
    ∀ c, (l'.call c).pending →
      (∃ i, (l'.stage i).serves) ∨ ∃ d, (l'.call d).creating ∧ ¬ (l'.call d).preparing := by
  have hp := h.pending
  cases hs with
  | notify c hidle hrun =>
    -- the service runs: a task is at work, or a call past its preparations is about to create one
    intro _ _
    rcases h.running hrun with ⟨d, hd, -⟩ | ⟨i, hi⟩
    · exact .inr ⟨d, keep_setCall (P := fun k => k.creating ∧ ¬ k.preparing) (by simp [hidle]) d ⟨hd, ho d⟩⟩
    · exact .inl ⟨i, by simp [hi]⟩
  | check c q hc hq => intro _ _; exact .inr ⟨c, by simp⟩
  | createNone c q hc => intro _ _; exact .inr ⟨c, by simp⟩
  | storeNull c hc => intro _ _; exact .inr ⟨c, by simp⟩
  | create c q hc => intro _ _; exact .inl ⟨l.tasks, by simp⟩
  | finishNull c hc hnull =>
    have hok : l.CallOk .nullStored := hc ▸ h.calls c
    exact absurd hok.2 hnull
  | deleteQueue i q hi hq => intro c hpend; exact absurd hpend (ho c)
  | deleteNoQueue i hi hq => intro c hpend; exact absurd hpend (ho c)
  | die i ha hq hcl hdel =>
    have hi := h.not_serves_of_die hq hdel
    intro c hpend
    rcases hp c hpend with ⟨j, hj⟩ | ⟨d, hd⟩
    · exact .inl ⟨j, keep_setStage (R := fun s => s.serves) (fun hs => absurd hs hi) j hj⟩
    · exact .inr ⟨d, hd⟩
  | pass c hk | run c hk | make c hk | makeNone c hk | store c q hk | storeTask c i hk | finish c hk
  | load c hk | sent c q hk =>
    intro e hpend
    rcases hp e (mono_setCall (P := fun k => k.pending) (by simp [hk]) e hpend) with hj | ⟨d, hd⟩
    · exact .inl hj
    · exact .inr ⟨d, keep_setCall (P := fun k => k.creating ∧ ¬ k.preparing) (by simp [hk]) d hd⟩
  | leave i hi | give i hi | deleteTask i j hi | deleteNone i hi | clear i hi =>
    intro e hpend
    rcases hp e hpend with ⟨j, hj⟩ | hd
    · exact .inl ⟨j, keep_setStage (R := fun s => s.serves) (by simp [hi]) j hj⟩
    · exact .inr hd
  | stop => exact hp

theorem Served.valid_of_pending {l : Life} (h : l.Served) {c : Nat} (hc : (l.call c).pending) :
    l.Valid l.queue := by
  rcases h.pending c hc with ⟨i, hi⟩ | ⟨d, hd, hp⟩
  · exact (h.valid_of_serves hi).2
  · exact h.valid_of_ready hd hp

theorem Served.sending_step {l l' : Life} {a : Act} (h : l.Served) (ho : l.Orderly a) (hs : Step l a l') :
    ∀ c h, l'.call c = .sending h → l'.Valid h := by
  have hsend := h.sending
  cases hs with
  | load c hn =>
    have hq := h.valid_of_pending (c := c) (by simp [hn])
    intro d q hd
    rw [setCall_call] at hd
    split at hd
    · cases hd; exact hq
    · exact hsend d q hd
  | deleteQueue i q hi hq =>
    intro c q' hpend
    exact absurd (by simp [show l.call c = _ from hpend]) (ho c)
  | make c hm =>
    intro d q hd
    obtain ⟨q', rfl, hlt, hfree⟩ := hsend d q (mono_setCall (P := fun k => k = .sending q) (by simp) d hd)
    exact ⟨q', rfl, Nat.lt_succ_of_lt hlt, hfree⟩
  | pass c hk | run c hk | makeNone c hk | store c q hk | check c q hk | create c q hk | createNone c q hk
  | storeTask c i hk | storeNull c hk | finish c hk | finishNull c hk | notify c hk | sent c q hk =>
    exact fun d q hd => hsend d q (mono_setCall (P := fun k => k = .sending q) (by simp) d hd)
  | _ => exact hsend

theorem Served.step {l l' : Life} {a : Act} (h : l.Served) (ho : l.Orderly a) (hs : Step l a l') : l'.Served :=
  ⟨h.toTidy.step ho.apart hs, h.running_step ho hs, h.ended_step ho hs, h.pending_step ho hs,
    h.sending_step ho hs⟩

/-! ## A task that ends acts on its own objects -/

/-- A task past its `Semaphore_Give` was created by a call that has stored its handle. -/
structure Stored (l : Life) : Prop extends Tidy l where
  handles : ∀ i, (l.stage i).active → l.stage i ≠ .working → l.stage i ≠ .ending →
    ∀ c, ¬ (l.call c).storing

/-- Starts do not overlap with one another or with a task, and a task gives the termination semaphore
only when no `Service_Start` has yet to store a handle. -/
def HandleFirst (l : Life) : Act → Prop
  | .pass c => l.StartApart (.pass c)
  | .give _ => ∀ c, ¬ (l.call c).storing
  | _ => True

theorem HandleFirst.apart {l : Life} {a : Act} (h : l.HandleFirst a) : l.StartApart a := by
  cases a with
  | pass c => exact h
  | _ => trivial

theorem Stored.step {l l' : Life} {a : Act} (h : l.Stored) (hc : l.HandleFirst a) (hs : Step l a l') :
    l'.Stored := by
  refine ⟨h.toTidy.step hc.apart hs, ?_⟩
  have hh := h.handles
  cases hs with
  | give i hi => intro j _ _ _ c; exact hc c
  | create c q hq =>
    -- only the new task is active, and it works
    intro i hi hw
    have hold := mono_setStage (R := fun s => s.active = true ∧ s ≠ .working) (by simp) i ⟨hi, hw⟩
    exact absurd hold.1 (h.apart c i (by simp [hq]))
  | pass c hk | run c hk | make c hk | makeNone c hk | store c q hk | check c q hk | createNone c q hk
  | storeTask c i hk | storeNull c hk | finish c hk | finishNull c hk | notify c hk | load c hk | sent c q hk =>
    exact fun i hi hw he d hd =>
      hh i hi hw he d (mono_setCall (P := fun k => k.storing) (by simp [hk]) d hd)
  | leave i hi | deleteTask i j hi | deleteNone i hi | deleteQueue i q hi | deleteNoQueue i hi | clear i hi
  | die i hi =>
    intro j hj hw he
    obtain ⟨hj, hw, he⟩ := mono_setStage (R := fun s => s.active = true ∧ s ≠ .working ∧ s ≠ .ending)
      (by simp [hi]) j ⟨hj, hw, he⟩
    exact hh j hj hw he
  | stop => exact hh

/-- It deletes its own task, which nobody has deleted before. -/
theorem Stored.deleteTask {l : Life} (h : l.Stored) {i : Nat} (hi : l.stage i = .deleteTask) :
    l.task = some i ∧ l.deleted i = false := by
  have hok : l.TaskOk i .deleteTask := hi ▸ h.stages i
  exact ⟨h.task i (by simp [hi]) (h.handles i (by simp [hi]) (by simp [hi]) (by simp [hi])), hok.2.2⟩

/-- It deletes its own queue, which nobody has deleted before. -/
theorem Stored.deleteQueue {l : Life} (h : l.Stored) {i : Nat} (hi : l.stage i = .deleteQueue) :
    l.queue = l.own i ∧ l.Valid l.queue := h.valid_of_serves (by simp [hi])

end Life

end InfoWorkshop.Service
