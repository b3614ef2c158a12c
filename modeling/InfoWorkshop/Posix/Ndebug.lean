/-
What `NDEBUG` changes in the POSIX queue and semaphore. The asserting build keeps the mutexes; a step
of the `NDEBUG` build is the same step with the mutexes of the semaphores forgotten, as long as no call
depends on a call that stands in an `assert`.
-/
import InfoWorkshop.Posix.Builds

namespace InfoWorkshop.Posix.Builds

open InfoWorkshop.Core InfoWorkshop.Memory InfoWorkshop.CondVar InfoWorkshop.Steps InfoWorkshop.Mutex

/-- The control as the `NDEBUG` build has it: `Semaphore_Take` has not read the clock. -/
def Control.forget {Q S : Type*} : Control Q S → Control Q S
  | takeTest m timeoutMs _ => .takeTest m timeoutMs zeroTime
  | c => c

/-- The thread is about to wait for a semaphore, or waits. -/
def Control.sleeps {Q S : Type*} : Control Q S → Bool
  | takeSleep .. | takeWait _ => true
  | _ => false

namespace State

variable {K Q S : Type*} [DecidableEq K] [DecidableEq Q] [DecidableEq S]

/-! ## The mutexes of the asserting build -/

/-- The owner of every mutex is the thread that has locked and not yet unlocked it. -/
def Locks (s : State K Q S) : Prop := Owned s.owner fun t => (s.control t).held

omit [DecidableEq Q] [DecidableEq S] in
theorem held_goto (s : State K Q S) (t : K) (c : Control Q S) :
    (fun u => ((s.goto t c).control u).held) = Function.update (fun u => (s.control u).held) t c.held := by
  funext u
  by_cases h : u = t
  · subst h; simp [goto]
  · simp [goto, h]

variable {s d : State K Q S} {t : K} {a : Answer} {l : Lock Q S} {c : Control Q S}

omit [DecidableEq Q] [DecidableEq S] in
theorem Locks.goto (h : s.Locks) (hc : c.held = (s.control t).held) : (s.goto t c).Locks := by
  unfold Locks
  rw [held_goto, hc]
  show Owned s.owner (Function.update _ t ((fun u => (s.control u).held) t))
  rw [Function.update_eq_self]
  exact h

omit [DecidableEq K] in
theorem lock_some (h : s.lock t l = some d) :
    s.owner l = none ∧ d = { s with owner := Function.update s.owner l (some t) } := by
  unfold lock at h
  split at h
  · cases h; exact ⟨by assumption, rfl⟩
  · cases h

theorem Locks.lock (h : s.Locks) (hl : s.lock t l = some d) (ht : (s.control t).held = none)
    (hc : c.held = some l) : (d.goto t c).Locks := by
  obtain ⟨hfree, rfl⟩ := lock_some hl
  unfold Locks
  rw [held_goto, hc]
  exact Owned.lock h hfree ht

theorem Locks.unlock (h : s.Locks) (ht : (s.control t).held = some l) (hc : c.held = none) :
    ((s.unlock l).goto t c).Locks := by
  unfold Locks
  rw [held_goto, hc]
  exact Owned.unlock h ht

theorem assertZero_some {A : Type*} {r : Nat} {f : A → Option A} {x y : A}
    (h : Build.asserting.assertZero r f x = some y) : r = 0 ∧ f x = some y := by
  simp only [Build.assertZero] at h
  split at h
  · exact ⟨by assumption, h⟩
  · cases h

/-- Each step of a thread keeps, locks or unlocks what it says. -/
theorem locks_run (h : s.Locks) (hr : s.run .asserting t a = some d) : d.Locks := by
  unfold run at hr
  rcases hc : s.control t with _ | ⟨q, message⟩ | ⟨q, message⟩ | ⟨q, error⟩ | ⟨q, message, timeoutMs⟩ |
    ⟨q, message, timeoutMs⟩ | q | ⟨q, error, message⟩ | ⟨m, timeoutMs⟩ | ⟨m, timeoutMs⟩ |
    ⟨m, timeoutMs, tv⟩ | ⟨m, timeoutMs, tv⟩ | m | m | m | ⟨m, error⟩ | m | m | m | m | m <;>
    simp only [hc] at hr
  · cases hr
  · -- Queue_Send
    split at hr
    · cases hr
      exact h.goto (t := t) (c := .idle) (by simp [hc, Control.held])
    · obtain ⟨s', hl, rfl⟩ := Option.map_eq_some_iff.1 hr
      exact h.lock hl (by simp [hc, Control.held]) rfl
  · cases hr
    exact h.goto (t := t) (by simp [hc, Control.held])
  · cases hr
    exact h.unlock (t := t) (by simp [hc, Control.held]) rfl
  · -- Queue_Receive
    split at hr
    · cases hr
      exact h.goto (t := t) (c := .idle) (by simp [hc, Control.held])
    · obtain ⟨s', hl, rfl⟩ := Option.map_eq_some_iff.1 hr
      exact h.lock hl (by simp [hc, Control.held]) rfl
  · obtain ⟨tv, -, rfl⟩ := Option.map_eq_some_iff.1 hr
    split
    · exact h.unlock (t := t) (by simp [hc, Control.held]) rfl
    · exact h.goto (t := t) (by simp [hc, Control.held])
  · obtain ⟨⟨⟨error, message⟩, queue⟩, -, hr⟩ := Option.bind_eq_some_iff.1 hr
    obtain ⟨s', hl, rfl⟩ := Option.map_eq_some_iff.1 hr
    have hs : (s'.goto t (.receiveUnlock q error message)).Locks :=
      h.lock hl (by simp [hc, Control.held]) rfl
    exact hs
  · obtain ⟨s', hu, rfl⟩ := Option.map_eq_some_iff.1 hr
    obtain ⟨-, hu⟩ := assertZero_some hu
    cases hu
    exact h.unlock (t := t) (by simp [hc, Control.held]) rfl
  · -- Semaphore_Take
    obtain ⟨s', hl, rfl⟩ := Option.map_eq_some_iff.1 hr
    exact h.lock (assertZero_some hl).2 (by simp [hc, Control.held]) rfl
  · obtain ⟨tv, -, rfl⟩ := Option.map_eq_some_iff.1 hr
    exact h.goto (by simp [hc, Control.held])
  · split at hr
    · obtain ⟨now, -, rfl⟩ := Option.map_eq_some_iff.1 hr
      apply h.goto
      split <;> simp [hc, Control.held]
    · cases hr
      exact h.goto (by simp [hc, Control.held])
  · split at hr
    · cases hr
      exact h.unlock (t := t) (by simp [hc, Control.held]) rfl
    · cases hr
  · obtain ⟨⟨k, res, cond⟩, -, hr⟩ := Option.bind_eq_some_iff.1 hr
    obtain ⟨s', hl, rfl⟩ := Option.map_eq_some_iff.1 hr
    have hs : ∀ c : Control Q S, c.held = some (.semaphore m) → (s'.goto t c).Locks :=
      fun c => h.lock hl (by simp [hc, Control.held])
    refine hs _ ?_
    cases res <;> rfl
  · cases hr
    apply h.goto
    split <;> simp [hc, Control.held]
  · cases hr
    exact h.goto (t := t) (by simp [hc, Control.held])
  · obtain ⟨s', hu, rfl⟩ := Option.map_eq_some_iff.1 hr
    obtain ⟨-, hu⟩ := assertZero_some hu
    cases hu
    exact h.unlock (t := t) (by simp [hc, Control.held]) rfl
  · -- Semaphore_Give
    obtain ⟨s', hl, rfl⟩ := Option.map_eq_some_iff.1 hr
    exact h.lock (assertZero_some hl).2 (by simp [hc, Control.held]) rfl
  · cases hr
    apply h.goto
    split <;> simp [hc, Control.held]
  · cases hr
    exact h.goto (t := t) (by simp [hc, Control.held])
  · obtain ⟨s', hu, rfl⟩ := Option.map_eq_some_iff.1 hr
    obtain ⟨-, hu⟩ := assertZero_some hu
    cases hu
    exact h.goto (t := t) (c := .giveUnlock m) (by simp [hc, Control.held])
  · obtain ⟨s', hu, rfl⟩ := Option.map_eq_some_iff.1 hr
    obtain ⟨-, hu⟩ := assertZero_some hu
    cases hu
    exact h.unlock (t := t) (by simp [hc, Control.held]) rfl

theorem locks_wake {res : WaitResult} (h : s.Locks) (hr : s.wake t res = some d) : d.Locks := by
  unfold wake at hr
  split at hr
  · obtain ⟨cond, -, rfl⟩ := Option.map_eq_some_iff.1 hr
    exact h
  · obtain ⟨cond, -, rfl⟩ := Option.map_eq_some_iff.1 hr
    exact h
  · cases hr

theorem locks_step {x : Action K Q S} (h : s.Locks) (hs : s.step .asserting x = some d) : d.Locks := by
  cases x with
  | call t c =>
    simp only [step] at hs
    split at hs
    · rename_i hc
      cases hs
      apply h.goto
      cases c <;> simp [hc, Call.start, Control.held]
    · cases hs
  | run t a => exact locks_run h hs
  | wake t res => exact locks_wake h hs

/-! ## The state without the mutexes of the semaphores -/

/-- The state as the `NDEBUG` build has it. -/
def forget (s : State K Q S) : State K Q S :=
  { s with
    owner := fun l => match l with
      | .queue q => s.owner (.queue q)
      | .semaphore _ => none
    control := fun t => (s.control t).forget }

omit [DecidableEq K] [DecidableEq Q] [DecidableEq S] in
@[simp] theorem forget_queue (s : State K Q S) : s.forget.queue = s.queue := rfl

omit [DecidableEq K] [DecidableEq Q] [DecidableEq S] in
@[simp] theorem forget_semaphore (s : State K Q S) : s.forget.semaphore = s.semaphore := rfl

omit [DecidableEq Q] [DecidableEq S] in
@[simp] theorem forget_goto (s : State K Q S) (t : K) (c : Control Q S) :
    (s.goto t c).forget = s.forget.goto t c.forget := by
  have hc : (fun u => (Function.update s.control t c u).forget) =
      Function.update (fun u => (s.control u).forget) t c.forget := by
    funext u
    by_cases h : u = t
    · subst h; simp
    · simp [h]
  simp only [forget, goto, hc]

omit [DecidableEq Q] [DecidableEq S] in
@[simp] theorem forget_ret (s : State K Q S) (t : K) (r : ErrorCode × Option Bytes) :
    (s.ret t r).forget = s.forget.ret t r := by
  show { (s.goto t .idle).forget with results := s.results ++ [(t, r)] } = _
  rw [forget_goto]
  rfl

omit [DecidableEq K] [DecidableEq S] in
@[simp] theorem forget_setQueue (s : State K Q S) (q : Q) (queue : Queue K) :
    (s.setQueue q queue).forget = s.forget.setQueue q queue := rfl

omit [DecidableEq K] [DecidableEq Q] in
@[simp] theorem forget_setSemaphore (s : State K Q S) (m : S) (semaphore : Semaphore K) :
    (s.setSemaphore m semaphore).forget = s.forget.setSemaphore m semaphore := rfl

omit [DecidableEq K] in
@[simp] theorem forget_unlock_queue (s : State K Q S) (q : Q) :
    (s.unlock (.queue q)).forget = s.forget.unlock (.queue q) := by
  simp only [forget, unlock, State.mk.injEq, true_and, and_true]
  funext l
  cases l <;> simp [Function.update_apply]

omit [DecidableEq K] in
@[simp] theorem forget_unlock_semaphore (s : State K Q S) (m : S) :
    (s.unlock (.semaphore m)).forget = s.forget := by
  simp only [forget, unlock, State.mk.injEq, true_and, and_true]
  funext l
  cases l <;> simp

omit [DecidableEq K] in
theorem forget_lock_queue (s : State K Q S) (t : K) (q : Q) :
    s.forget.lock t (.queue q) = (s.lock t (.queue q)).map forget := by
  unfold lock
  by_cases h : s.owner (.queue q) = none
  · have hf : s.forget.owner (.queue q) = none := h
    rw [if_pos hf, if_pos h, Option.map_some, Option.some.injEq]
    simp only [forget, State.mk.injEq, true_and, and_true]
    funext l
    cases l <;> simp [Function.update_apply]
  · have hf : s.forget.owner (.queue q) ≠ none := h
    rw [if_neg hf, if_neg h, Option.map_none]

omit [DecidableEq K] in
theorem forget_lock_semaphore {m : S} (h : s.lock t (.semaphore m) = some d) : d.forget = s.forget := by
  obtain ⟨-, rfl⟩ := lock_some h
  simp only [forget, State.mk.injEq, true_and, and_true]
  funext l
  cases l <;> simp

/-! ## Steps that do not depend on an asserted call -/

/-- Every assertion the step evaluates holds: the call in it returns 0. -/
def Asserted (s : State K Q S) : Action K Q S → Prop
  | .run t a =>
    match s.control t with
    | .receiveTest q _ _ => (s.queue q).nElements = 0 → a.ret = 0
    | .takeTest m _ _ => (s.semaphore m).locked = true → a.ret = 0
    | .receiveUnlock .. | .takeLock .. | .takeClock .. | .takeUnlock .. | .giveLock _ | .giveSignal _
    | .giveUnlock _ => a.ret = 0
    | _ => True
  | _ => True

/-- `Queue_Receive` does not get to its end with the mutex, and where it reads the clock it reads 0;
`Semaphore_Take` finds the semaphore free or has no time to wait. -/
def Harmless (s : State K Q S) : Action K Q S → Prop
  | .run t a =>
    match s.control t with
    | .receiveTest q _ _ => (s.queue q).nElements = 0 → a.clock = zeroTime
    | .receiveUnlock .. => False
    | .takeTest m timeoutMs _ => (s.semaphore m).locked = true → timeoutMs = 0
    | _ => True
  | _ => True

/-- No thread enters a function of a semaphore in which another thread has not come to the end. -/
def Exclusive (s : State K Q S) : Action K Q S → Prop
  | .run t _ =>
    match s.control t with
    | .takeLock m _ | .giveLock m => ∀ u, (s.control u).held ≠ some (.semaphore m)
    | _ => True
  | _ => True

omit [DecidableEq K] [DecidableEq Q] [DecidableEq S] in
instance (s : State K Q S) (x : Action K Q S) : Decidable (s.Harmless x) := by
  unfold Harmless
  split
  · split <;> infer_instance
  · infer_instance

/-- No thread waits for a semaphore. -/
structure Still (s : State K Q S) : Prop where
  cond : ∀ m, (s.semaphore m).cond = .empty
  awake : ∀ t, (s.control t).sleeps = false

/-- What the runs keep. -/
structure Calm (s : State K Q S) : Prop extends s.Still where
  locks : s.Locks

theorem asserting_zero {A : Type*} {r : Nat} (h : r = 0) (f : A → Option A) (x : A) :
    Build.asserting.assertZero r f x = f x := by
  simp only [Build.assertZero]
  rw [if_pos h]

theorem asserting_gettimeofday (h : a.ret = 0) : Build.asserting.gettimeofday a = some a.clock :=
  asserting_zero h _ _

theorem ndebug_gettimeofday (a : Answer) : Build.ndebug.gettimeofday a = some zeroTime := rfl

omit [DecidableEq K] in
/-- The mutex of a semaphore is free for a thread that enters where nobody is. -/
theorem Calm.lock_free (h : s.Calm) {m : S} (he : ∀ u, (s.control u).held ≠ some (.semaphore m)) (t : K) :
    ∃ d, s.lock t (.semaphore m) = some d ∧ d.forget = s.forget := by
  have hfree : s.owner (.semaphore m) = none := by
    rcases ho : s.owner (.semaphore m) with _ | u
    · rfl
    · exact absurd ((h.locks _ u).1 ho) (he u)
  have hl : s.lock t (.semaphore m) = some _ := if_pos hfree
  exact ⟨_, hl, forget_lock_semaphore hl⟩

/-- One step of the two builds. -/
theorem ndebug_run (h : s.Calm) (ha : s.Asserted (.run t a)) (hh : s.Harmless (.run t a))
    (he : s.Exclusive (.run t a)) : s.forget.run .ndebug t a = (s.run .asserting t a).map forget := by
  have hf : s.forget.control t = (s.control t).forget := rfl
  unfold run
  rcases hc : s.control t with _ | ⟨q, message⟩ | ⟨q, message⟩ | ⟨q, error⟩ | ⟨q, message, timeoutMs⟩ |
    ⟨q, message, timeoutMs⟩ | q | ⟨q, error, message⟩ | ⟨m, timeoutMs⟩ | ⟨m, timeoutMs⟩ |
    ⟨m, timeoutMs, tv⟩ | ⟨m, timeoutMs, tv⟩ | m | m | m | ⟨m, error⟩ | m | m | m | m | m <;>
    rw [hc] at hf <;> simp only [Control.forget] at hf <;> simp only [hf] <;>
    simp only [Asserted, hc] at ha <;> simp only [Harmless, hc] at hh <;> simp only [Exclusive, hc] at he
  · rfl
  · -- Queue_Send
    split
    · simp
    · rw [forget_lock_queue, Option.map_map, Option.map_map]
      congr 1
      funext d
      simp [Control.forget]
  · simp [Control.forget]
  · simp
  · -- Queue_Receive
    split
    · simp
    · rw [forget_lock_queue, Option.map_map, Option.map_map]
      congr 1
      funext d
      simp [Control.forget]
  · have hclock : (if (s.queue q).nElements = 0 then Build.asserting.gettimeofday a else some zeroTime) =
        some zeroTime := by
      split
      · rename_i hn
        rw [asserting_gettimeofday (ha hn), hh hn]
      · rfl
    have hzero : (if (s.forget.queue q).nElements = 0 then Build.ndebug.gettimeofday a else some zeroTime) =
        some zeroTime := ite_self _
    rw [hclock, hzero]
    simp only [Option.map_some, forget_queue]
    rcases (s.queue q).receive t message timeoutMs zeroTime with ⟨_ | ⟨error, message⟩, queue⟩
    · simp [Control.forget]
    · simp [Control.forget]
  · rw [forget_queue]
    rcases (s.queue q).resume t with _ | ⟨⟨error, message⟩, queue⟩
    · rfl
    · simp only [Option.bind_some]
      rw [forget_lock_queue, Option.map_map, Option.map_map]
      congr 1
      funext d
      simp [Control.forget]
  · -- Semaphore_Take
    obtain ⟨d, hl, hd⟩ := h.lock_free he t
    rw [asserting_zero ha, hl]
    simp [Build.assertZero, Control.forget, hd]
  · rw [asserting_gettimeofday ha, ndebug_gettimeofday]
    simp [Control.forget]
  · rw [forget_semaphore]
    by_cases hl : (s.semaphore m).locked = true
    · have hms : ∀ e : UInt64, ¬ e < timeoutMs := by simp [hh hl]
      rw [if_pos hl, if_pos hl, asserting_gettimeofday (ha hl), ndebug_gettimeofday]
      simp [Control.forget, hms]
    · rw [if_neg hl, if_neg hl]
      simp [Control.forget]
  · have hw := h.awake t
    rw [hc] at hw
    cases hw
  · have hw := h.awake t
    rw [hc] at hw
    cases hw
  · rw [forget_semaphore]
    split <;> simp [Control.forget]
  · simp [Control.forget]
  · rw [asserting_zero ha]
    simp [Build.assertZero]
  · -- Semaphore_Give
    obtain ⟨d, hl, hd⟩ := h.lock_free he t
    rw [asserting_zero ha, hl]
    simp [Build.assertZero, Control.forget, hd]
  · rw [forget_semaphore]
    split <;> simp [Control.forget]
  · simp [Control.forget]
  · have hs : { s.semaphore m with cond := (s.semaphore m).cond.signal a.pick } = s.semaphore m := by
      rw [Waiters.signal_of_nil (by rw [h.cond m]; rfl)]
    rw [asserting_zero ha]
    simp [Build.assertZero, Control.forget, hs, setSemaphore]
  · rw [asserting_zero ha]
    simp [Build.assertZero]

theorem ndebug_step {x : Action K Q S} (h : s.Calm) (ha : s.Asserted x) (hh : s.Harmless x)
    (he : s.Exclusive x) : s.forget.step .ndebug x = (s.step .asserting x).map forget := by
  cases x with
  | call t c =>
    have hidle : s.forget.control t = .idle ↔ s.control t = .idle := by
      show (s.control t).forget = .idle ↔ _
      cases s.control t <;> simp [Control.forget]
    simp only [step, hidle]
    split
    · cases c <;> simp [Call.start, Control.forget]
    · rfl
  | run t a => exact ndebug_run h ha hh he
  | wake t res =>
    have hf : s.forget.control t = (s.control t).forget := rfl
    have hw := h.awake t
    simp only [step, wake, hf]
    rcases hc : s.control t <;> simp only [Control.forget, Option.map_none]
    · simp only [forget_queue, Option.map_map]
      rfl
    · rw [hc] at hw
      cases hw

/-! ## The asserting build keeps its assertions, mutual exclusion and the calm -/

theorem ret_of_map {A B : Type*} {r : Nat} {f : A → Option A} {g : A → B} {x : A} {y : B}
    (h : (Build.asserting.assertZero r f x).map g = some y) : r = 0 := by
  obtain ⟨z, hz, -⟩ := Option.map_eq_some_iff.1 h
  exact (assertZero_some hz).1

theorem asserting_asserted {x : Action K Q S} (hs : s.step .asserting x = some d) : s.Asserted x := by
  cases x with
  | call t c => trivial
  | wake t res => trivial
  | run t a =>
    simp only [step, run] at hs
    unfold Asserted
    rcases hc : s.control t <;> simp only [hc] at hs ⊢
    case receiveTest q message timeoutMs =>
      intro hn
      rw [if_pos hn] at hs
      exact ret_of_map hs
    case takeTest m timeoutMs tv =>
      intro hl
      rw [if_pos hl] at hs
      exact ret_of_map hs
    all_goals exact ret_of_map hs

theorem asserting_exclusive {x : Action K Q S} (h : s.Locks) (hs : s.step .asserting x = some d) :
    s.Exclusive x := by
  have hfree : ∀ (t : K) (a : Answer) (m : S) (f : State K Q S → State K Q S),
      (Build.asserting.assertZero a.ret (fun s => s.lock t (.semaphore m)) s).map f = some d →
        ∀ u, (s.control u).held ≠ some (.semaphore m) := by
    intro t a m f hm
    obtain ⟨s', hl, -⟩ := Option.map_eq_some_iff.1 hm
    exact h.free (lock_some (assertZero_some hl).2).1
  cases x with
  | call t c => trivial
  | wake t res => trivial
  | run t a =>
    simp only [step, run] at hs
    unfold Exclusive
    rcases hc : s.control t <;> simp only [hc] at hs ⊢
    · exact hfree t a _ _ hs
    · exact hfree t a _ _ hs

omit [DecidableEq Q] [DecidableEq S] in
theorem Still.goto (h : s.Still) (hc : c.sleeps = false) : (s.goto t c).Still := by
  refine ⟨h.cond, fun u => ?_⟩
  by_cases hu : u = t
  · subst hu; simpa [State.goto] using hc
  · simpa [State.goto, hu] using h.awake u

omit [DecidableEq K] [DecidableEq Q] in
theorem Still.setSemaphore (h : s.Still) {m : S} {x : Semaphore K} (hx : x.cond = .empty) :
    (s.setSemaphore m x).Still := by
  refine ⟨fun n => ?_, h.awake⟩
  by_cases hn : n = m
  · subst hn; simpa [State.setSemaphore] using hx
  · simpa [State.setSemaphore, hn] using h.cond n

omit [DecidableEq K] in
theorem Still.lock (h : s.Still) (hl : s.lock t l = some d) : d.Still := by
  obtain ⟨-, rfl⟩ := lock_some hl
  exact ⟨h.cond, h.awake⟩

omit [DecidableEq K] [DecidableEq S] in
theorem Still.setQueue (h : s.Still) {q : Q} {queue : Queue K} : (s.setQueue q queue).Still :=
  ⟨h.cond, h.awake⟩

omit [DecidableEq K] in
theorem Still.unlock (h : s.Still) : (s.unlock l).Still := ⟨h.cond, h.awake⟩

omit [DecidableEq Q] [DecidableEq S] in
theorem Still.ret (h : s.Still) {r : ErrorCode × Option Bytes} : (s.ret t r).Still :=
  ⟨h.cond, (Still.goto (c := .idle) h rfl).awake⟩

theorem still_run (h : s.Still) (hh : s.Harmless (.run t a)) (hr : s.run .asserting t a = some d) :
    d.Still := by
  unfold run at hr
  rcases hc : s.control t with _ | ⟨q, message⟩ | ⟨q, message⟩ | ⟨q, error⟩ | ⟨q, message, timeoutMs⟩ |
    ⟨q, message, timeoutMs⟩ | q | ⟨q, error, message⟩ | ⟨m, timeoutMs⟩ | ⟨m, timeoutMs⟩ |
    ⟨m, timeoutMs, tv⟩ | ⟨m, timeoutMs, tv⟩ | m | m | m | ⟨m, error⟩ | m | m | m | m | m <;>
    simp only [hc] at hr <;> simp only [Harmless, hc] at hh
  · cases hr
  · -- Queue_Send
    split at hr
    · cases hr
      exact h.ret
    · obtain ⟨s', hl, rfl⟩ := Option.map_eq_some_iff.1 hr
      exact (h.lock hl).goto rfl
  · cases hr
    exact h.setQueue.goto rfl
  · cases hr
    exact h.unlock.ret
  · -- Queue_Receive
    split at hr
    · cases hr
      exact h.ret
    · obtain ⟨s', hl, rfl⟩ := Option.map_eq_some_iff.1 hr
      exact (h.lock hl).goto rfl
  · obtain ⟨tv, -, rfl⟩ := Option.map_eq_some_iff.1 hr
    split
    · exact h.setQueue.unlock.goto rfl
    · exact h.setQueue.goto rfl
  · obtain ⟨⟨⟨error, message⟩, queue⟩, -, hr⟩ := Option.bind_eq_some_iff.1 hr
    obtain ⟨s', hl, rfl⟩ := Option.map_eq_some_iff.1 hr
    exact (h.lock hl).setQueue.goto rfl
  · -- Semaphore_Take
    obtain ⟨s', hl, rfl⟩ := Option.map_eq_some_iff.1 hr
    exact (h.lock (assertZero_some hl).2).goto rfl
  · obtain ⟨tv, -, rfl⟩ := Option.map_eq_some_iff.1 hr
    exact h.goto rfl
  · split at hr
    · rename_i hl
      obtain ⟨now, -, rfl⟩ := Option.map_eq_some_iff.1 hr
      have hms : ¬ Semaphore.elapsedTimeMs tv now < timeoutMs := by simp [hh hl]
      rw [if_neg hms]
      exact h.goto rfl
    · cases hr
      exact h.goto rfl
  · have hw := h.awake t
    rw [hc] at hw
    cases hw
  · have hw := h.awake t
    rw [hc] at hw
    cases hw
  · cases hr
    apply h.goto
    split <;> rfl
  · cases hr
    exact Still.goto (h.setSemaphore (h.cond m)) rfl
  · obtain ⟨s', hu, rfl⟩ := Option.map_eq_some_iff.1 hr
    obtain ⟨-, hu⟩ := assertZero_some hu
    cases hu
    exact h.unlock.ret
  · -- Semaphore_Give
    obtain ⟨s', hl, rfl⟩ := Option.map_eq_some_iff.1 hr
    exact (h.lock (assertZero_some hl).2).goto rfl
  · cases hr
    apply h.goto
    split <;> rfl
  · cases hr
    exact Still.goto (h.setSemaphore (h.cond m)) rfl
  · obtain ⟨s', hu, rfl⟩ := Option.map_eq_some_iff.1 hr
    obtain ⟨-, hu⟩ := assertZero_some hu
    cases hu
    have hs : (s.semaphore m).cond.signal a.pick = .empty := by
      rw [h.cond m, Waiters.signal_of_nil rfl]
    exact (h.setSemaphore hs).goto rfl
  · obtain ⟨s', hu, rfl⟩ := Option.map_eq_some_iff.1 hr
    obtain ⟨-, hu⟩ := assertZero_some hu
    cases hu
    exact h.unlock.ret

theorem still_step {x : Action K Q S} (h : s.Still) (hh : s.Harmless x) (hs : s.step .asserting x = some d) :
    d.Still := by
  cases x with
  | call t c =>
    simp only [step] at hs
    split at hs
    · cases hs
      apply h.goto
      cases c <;> rfl
    · cases hs
  | run t a => exact still_run h hh hs
  | wake t res =>
    have hw := h.awake t
    simp only [step, wake] at hs
    split at hs
    · obtain ⟨cond, -, rfl⟩ := Option.map_eq_some_iff.1 hs
      exact h.setQueue
    · rename_i hc
      rw [hc] at hw
      cases hw
    · cases hs

theorem calm_step {x : Action K Q S} (h : s.Calm) (hh : s.Harmless x) (hs : s.step .asserting x = some d) :
    d.Calm := ⟨still_step h.toStill hh hs, locks_step h.locks hs⟩

/-! ## Whole runs -/

/-- No thread is inside a call. -/
structure Quiet (s : State K Q S) : Prop where
  control : ∀ t, s.control t = .idle
  owner : ∀ l, s.owner l = none
  queue : ∀ q, (s.queue q).cond = .empty
  semaphore : ∀ m, (s.semaphore m).cond = .empty

/-- What the asserting build and the `NDEBUG` build have in common: the results, what is in the queues
and semaphores with the deadlines of their waiters, the mutexes of the queues, which calls have
returned, and that a thread whose call has returned owns no mutex. -/
structure Same (d n : State K Q S) : Prop where
  results : n.results = d.results
  queue : n.queue = d.queue
  semaphore : n.semaphore = d.semaphore
  queueOwner : ∀ q, n.owner (.queue q) = d.owner (.queue q)
  idle : ∀ t, n.control t = .idle ↔ d.control t = .idle
  released : ∀ t l, d.control t = .idle → d.owner l ≠ some t ∧ n.owner l ≠ some t

omit [DecidableEq K] [DecidableEq Q] [DecidableEq S] in
theorem Quiet.calm (h : s.Quiet) : s.Calm := by
  refine ⟨⟨h.semaphore, fun t => by rw [h.control t]; rfl⟩, fun l t => ?_⟩
  simp [h.owner l, h.control t, Control.held]

omit [DecidableEq K] [DecidableEq Q] [DecidableEq S] in
theorem Quiet.forget (h : s.Quiet) : s.forget = s := by
  have hc : (fun t => (s.control t).forget) = s.control := by
    funext t
    rw [h.control t]
    rfl
  have ho : s.forget.owner = s.owner := by
    funext l
    cases l with
    | queue q => rfl
    | semaphore m => exact (h.owner _).symm
  show { s with owner := s.forget.owner, control := fun t => (s.control t).forget } = s
  rw [hc, ho]

omit [DecidableEq K] [DecidableEq Q] [DecidableEq S] in
theorem Calm.same (h : d.Calm) : Same d d.forget := by
  refine ⟨rfl, rfl, rfl, fun q => rfl, fun t => ?_, fun t l hc => ?_⟩
  · show (d.control t).forget = .idle ↔ _
    cases d.control t <;> simp [Control.forget]
  · have hd : d.owner l ≠ some t := by
      intro ho
      have hl := (h.locks l t).1 ho
      simp [hc, Control.held] at hl
    refine ⟨hd, ?_⟩
    cases l with
    | queue q => exact hd
    | semaphore m => simp [State.forget]

omit [DecidableEq K] [DecidableEq Q] [DecidableEq S] in
theorem asserted_forget {x : Action K Q S} : s.forget.Asserted x ↔ s.Asserted x := by
  cases x with
  | call t c => rfl
  | wake t res => rfl
  | run t a =>
    have hf : s.forget.control t = (s.control t).forget := rfl
    unfold Asserted
    cases hc : s.control t <;> simp only [hf, hc, Control.forget, forget_queue, forget_semaphore]

omit [DecidableEq K] [DecidableEq Q] [DecidableEq S] in
theorem harmless_forget {x : Action K Q S} : s.forget.Harmless x ↔ s.Harmless x := by
  cases x with
  | call t c => rfl
  | wake t res => rfl
  | run t a =>
    have hf : s.forget.control t = (s.control t).forget := rfl
    unfold Harmless
    cases hc : s.control t <;> simp only [hf, hc, Control.forget, forget_queue, forget_semaphore]

omit [DecidableEq K] [DecidableEq Q] [DecidableEq S] in
theorem exclusive_forget {x : Action K Q S} : s.forget.Exclusive x ↔ s.Exclusive x := by
  have hheld : ∀ u, (s.forget.control u).held = (s.control u).held := by
    intro u
    show (s.control u).forget.held = _
    cases s.control u <;> rfl
  cases x with
  | call t c => rfl
  | wake t res => rfl
  | run t a =>
    have hf : s.forget.control t = (s.control t).forget := rfl
    unfold Exclusive
    cases hc : s.control t <;> simp only [hf, hc, Control.forget, hheld]

/-- A step of the asserting build is one of the `NDEBUG` build. -/
theorem step_to_ndebug {x : Action K Q S} (h : s.Calm) (hh : s.Harmless x)
    (hs : s.step .asserting x = some d) : s.forget.step .ndebug x = some d.forget := by
  rw [ndebug_step h (asserting_asserted hs) hh (asserting_exclusive h.locks hs), hs, Option.map_some]

/-- A step of the `NDEBUG` build is one of the asserting build. -/
theorem step_of_ndebug {x : Action K Q S} {n : State K Q S} (h : s.Calm) (ha : s.Asserted x)
    (hh : s.Harmless x) (he : s.Exclusive x) (hn : s.forget.step .ndebug x = some n) :
    ∃ d, s.step .asserting x = some d ∧ n = d.forget := by
  rw [ndebug_step h ha hh he] at hn
  obtain ⟨d, hd, rfl⟩ := Option.map_eq_some_iff.1 hn
  exact ⟨d, hd, rfl⟩

/-- As long as no step depends on an asserted call, the two builds make the same runs: every run of the
asserting build is one of the `NDEBUG` build, and every run of the `NDEBUG` build in which the assertions
would hold, and threads do not meet inside a semaphore, is one of the asserting build. -/
theorem builds_same_runs (h : s.Quiet) (xs : List (Action K Q S)) :
    (∀ d, exec (step .asserting) s xs = some d → Meets (step .asserting) Harmless s xs →
      ∃ n, exec (step .ndebug) s xs = some n ∧ Same d n) ∧
    (∀ n, exec (step .ndebug) s xs = some n →
      Meets (step .ndebug) (fun s x => s.Asserted x ∧ s.Harmless x ∧ s.Exclusive x) s xs →
      ∃ d, exec (step .asserting) s xs = some d ∧ Same d n) := by
  have hs : s.Calm ∧ s = s.forget := ⟨h.calm, h.forget.symm⟩
  have hto : ∀ (s u : State K Q S) (x : Action K Q S) (d : State K Q S), s.Calm ∧ u = s.forget →
      s.Harmless x → step .asserting s x = some d →
      ∃ n, step .ndebug u x = some n ∧ d.Calm ∧ n = d.forget := by
    rintro s u x d ⟨hcalm, rfl⟩ hh hx
    exact ⟨d.forget, step_to_ndebug hcalm hh hx, calm_step hcalm hh hx, rfl⟩
  have hof : ∀ (u s : State K Q S) (x : Action K Q S) (n : State K Q S), s.Calm ∧ u = s.forget →
      u.Asserted x ∧ u.Harmless x ∧ u.Exclusive x → step .ndebug u x = some n →
      ∃ d, step .asserting s x = some d ∧ d.Calm ∧ n = d.forget := by
    rintro u s x n ⟨hcalm, rfl⟩ ⟨ha, hh, he⟩ hx
    have hh : s.Harmless x := harmless_forget.1 hh
    obtain ⟨d, hd, rfl⟩ := step_of_ndebug hcalm (asserted_forget.1 ha) hh (exclusive_forget.1 he) hx
    exact ⟨d, hd, calm_step hcalm hh hd, rfl⟩
  constructor
  · intro d hd hC
    obtain ⟨n, hn, hcalm, rfl⟩ := exec_simulation (R := fun d n => Calm d ∧ n = forget d) hto hd hC hs
    exact ⟨d.forget, hn, hcalm.same⟩
  · intro n hn hC
    obtain ⟨d, hd, hcalm, rfl⟩ := exec_simulation (R := fun n d => Calm d ∧ n = forget d) hof hn hC hs
    exact ⟨d, hd, hcalm.same⟩

end State

open State

/-- A queue of one byte and a semaphore, as `Queue_New` and `Semaphore_New` make them. -/
def start : State (Fin 2) Unit Unit where
  queue _ := Queue.allocate 1 1
  semaphore _ := ⟨true, .empty⟩
  owner _ := none
  control _ := .idle
  results := []

theorem start_quiet : start.Quiet := ⟨fun _ => rfl, fun _ => rfl, fun _ => rfl, fun _ => rfl⟩

/-- `n` steps of thread `t`; the calls of the operating system succeed. -/
def goOn (t : Fin 2) (n : Nat) : List (Action (Fin 2) Unit Unit) :=
  List.replicate n (Action.run t ⟨0, zeroTime, 0⟩)

/-- A failed and a successful `Semaphore_Take`, a `Queue_Receive` that waits, a `Queue_Send`. -/
def calmRun : List (Action (Fin 2) Unit Unit) :=
  Action.call 1 (.take () 0) :: goOn 1 5 ++ Action.call 0 (.give ()) :: goOn 0 5 ++
    Action.call 1 (.take () 20) :: goOn 1 6 ++ Action.call 1 (.receive () [0] 1000) :: goOn 1 2 ++
    Action.call 0 (.send () [7]) :: goOn 0 3

theorem builds_same_runs_calmRun :
    ∃ d n, exec (step .asserting) start calmRun = some d ∧ exec (step .ndebug) start calmRun = some n ∧
      Same d n ∧ n.results = [(1, .errorTimeout, none), (0, .success, none), (1, .success, none),
        (0, .success, none)] := by
  obtain ⟨d, hd⟩ := Option.isSome_iff_exists.1
    (show (exec (step .asserting) start calmRun).isSome = true by decide)
  have hresults : (exec (step .asserting) start calmRun).map State.results = some [(1, .errorTimeout, none),
      (0, .success, none), (1, .success, none), (0, .success, none)] := by decide
  rw [hd, Option.map_some, Option.some.injEq] at hresults
  obtain ⟨n, hn, hsame⟩ := (builds_same_runs start_quiet calmRun).1 d hd (by decide)
  exact ⟨d, n, hd, hn, hsame, hsame.results.trans hresults⟩

/-- A `Queue_Send` and a `Queue_Receive` of one thread. -/
def sendReceive : List (Action (Fin 2) Unit Unit) :=
  Action.call 0 (.send () [7]) :: goOn 0 3 ++ Action.call 0 (.receive () [0] 1000) :: goOn 0 3

/-- With `NDEBUG` the thread returns from `Queue_Receive` with the mutex. -/
theorem ndebug_keeps_mutex :
    ∃ d n, exec (step .asserting) start sendReceive = some d ∧ exec (step .ndebug) start sendReceive = some n ∧
      n.results = d.results ∧ n.control 0 = .idle ∧ d.owner (.queue ()) = none ∧
      n.owner (.queue ()) = some 0 ∧ ¬ Same d n := by
  obtain ⟨d, hd⟩ := Option.isSome_iff_exists.1
    (show (exec (step .asserting) start sendReceive).isSome = true by decide)
  obtain ⟨n, hn⟩ := Option.isSome_iff_exists.1
    (show (exec (step .ndebug) start sendReceive).isSome = true by decide)
  have hdr : (exec (step .asserting) start sendReceive).map State.results =
      (exec (step .ndebug) start sendReceive).map State.results := by decide
  have hno : (exec (step .ndebug) start sendReceive).map (fun n => (n.control 0, n.owner (.queue ()))) =
      some (.idle, some 0) := by decide
  have hdo : (exec (step .asserting) start sendReceive).map (fun d => d.owner (.queue ())) = some none := by
    decide
  rw [hn, Option.map_some, Option.some.injEq, Prod.mk.injEq] at hno
  rw [hd, Option.map_some, Option.some.injEq] at hdo
  rw [hd, hn, Option.map_some, Option.map_some, Option.some.injEq] at hdr
  refine ⟨d, n, hd, hn, hdr.symm, hno.1, hdo, hno.2, fun hsame => ?_⟩
  have hown := hsame.queueOwner ()
  rw [hno.2, hdo] at hown
  cases hown

end InfoWorkshop.Posix.Builds
