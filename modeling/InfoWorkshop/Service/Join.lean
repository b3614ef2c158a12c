/-
The termination semaphore as a way to wait for the task of a service: `Service_Main` gives it once, after its
hooks, and a thread that takes it finds the task done.
-/
import InfoWorkshop.Service.Trace

namespace InfoWorkshop.Service

open InfoWorkshop.Core InfoWorkshop.Memory InfoWorkshop.Posix InfoWorkshop.CondVar InfoWorkshop.Steps

namespace World

/-- Whether the termination semaphore, where there is one, is locked. -/
def lock (w : World) : Option Bool := w.service.terminationSemaphore.map Semaphore.locked

/-- The step is the end of a `Semaphore_Take` of the termination semaphore that succeeds. -/
def takes (w : World) : Act → Bool
  | .take t timeoutMs tv now =>
    (w.service.terminationSemaphore.map fun sem => (sem.take t timeoutMs tv now).1) == some (some .success)
  | .retake t now =>
    ((w.service.terminationSemaphore.bind fun sem => sem.resume t now).map Prod.fst) == some (some .success)
  | _ => false

/-! ## What the steps do to the semaphore -/

/-- A step other than a successful take: the lock stays and at most one hook is called, or the semaphore is given. -/
inductive SemaphoreStep (w w' : World) : Prop
  | same : w'.lock = w.lock → hooks w'.log = hooks w.log → SemaphoreStep w w'
  | hook (h : Hook) : h ≠ .give → w'.lock = w.lock → hooks w'.log = hooks w.log ++ [h] → SemaphoreStep w w'
  | give : w'.lock = some false → hooks w'.log = hooks w.log ++ [.give] → SemaphoreStep w w'

theorem onQueue_lock {w w' : World} {h : Option Nat} {body : Nat → Queue Thread → Option World}
    (hs : w.onQueue h body = some w') (hbody : ∀ q queue, body q queue = some w' → w'.lock = w.lock) :
    w'.lock = w.lock := by
  unfold onQueue at hs
  split at hs
  · cases hs; rfl
  · split at hs
    · cases hs
    · split at hs
      · cases hs; rfl
      · split at hs
        · cases hs
        · exact hbody _ _ hs

theorem serviceStart_lock {w w' : World} {c : Nat} {ch : Choice} {pc : StartPc}
    (hs : w.serviceStart c ch pc = some w') : w'.lock = w.lock := by
  cases pc with
  | check | newQueue | checkQueue | createTask | checkTask =>
    simp only [serviceStart] at hs
    split at hs <;> cases hs <;> rfl
  | _ => cases hs; rfl

theorem drained_lock (w : World) (c : Nat) (error : ErrorCode) (ret : ErrorCode × Bytes) :
    (w.drained c error ret).lock = w.lock := by
  unfold drained
  split <;> rfl

theorem serviceNotify_lock {w w' : World} {c : Nat} {ch : Choice} {pc : NotifyPc}
    (hs : w.serviceNotify c ch pc = some w') : w'.lock = w.lock := by
  cases pc with
  | check | reboot =>
    simp only [serviceNotify] at hs
    split at hs <;> cases hs <;> rfl
  | load | drainLoad => cases hs; rfl
  | send e q =>
    simp only [serviceNotify] at hs
    refine onQueue_lock hs fun i queue hbody => ?_
    split at hbody <;> cases hbody <;> rfl
  | drainReceive b error q =>
    simp only [serviceNotify] at hs
    refine onQueue_lock hs fun i queue hbody => ?_
    split at hbody <;> cases hbody
    · rfl
    · exact drained_lock (w.setQueue i _) c error _
  | drainWait error q =>
    simp only [serviceNotify] at hs
    refine onQueue_lock hs fun i queue hbody => ?_
    split at hbody <;> cases hbody
    exact drained_lock (w.setQueue i _) c error _

theorem caller_semaphoreStep {w w' : World} {c : Nat} {ch : Choice} (hs : w.Advance (.caller c ch) w') :
    w.SemaphoreStep w' := by
  have hhooks := (caller_callStep hs).effect.hooks
  cases hs with
  | start _ hs => exact .same (serviceStart_lock hs) hhooks
  | @stop _ _ pc _ _ hs =>
    refine .same ?_ hhooks
    cases pc with
    | check =>
      simp only [serviceStop] at hs
      split at hs <;> cases hs <;> rfl
    | setStopped => cases hs; rfl
  | notify _ hs => exact .same (serviceNotify_lock hs) hhooks

theorem hooks_emit {w : World} {e : Event} {h : Hook} (he : e.hook = some h) :
    hooks (w.emit e).log = hooks w.log ++ [h] := by
  rw [show (w.emit e).log = w.log ++ [e] from rfl, hooks_append, hooks, hooks, List.filterMap_cons, he,
    List.filterMap_nil]

theorem give_frees (sem : Semaphore Nat) (pick : Nat) :
    (sem.give pick).1 = .success ∧ (sem.give pick).2.locked = false := by
  cases hlocked : sem.locked with
  | true => rw [Semaphore.give_of_locked hlocked]; exact ⟨rfl, rfl⟩
  | false => rw [Semaphore.give_of_free hlocked]; exact ⟨rfl, hlocked⟩

theorem onQueue_semaphoreStep {w w' : World} {h : Option Nat} {body : Nat → Queue Thread → Option World}
    (hs : w.onQueue h body = some w') (hbody : ∀ q queue, body q queue = some w' → w.SemaphoreStep w') :
    w.SemaphoreStep w' := by
  unfold onQueue at hs
  split at hs
  · cases hs; exact .same rfl rfl
  · split at hs
    · cases hs
    · split at hs
      · cases hs; exact .same rfl rfl
      · split at hs
        · cases hs
        · exact hbody _ _ hs

theorem serviceMain_semaphoreStep {w w' : World} {i : Nat} {self : TaskObject} {ch : Choice}
    (hs : w.serviceMain i self ch = some w') : w.SemaphoreStep w' := by
  unfold serviceMain at hs
  cases hpc : self.pc with
  | entry | body | teardown =>
    simp only [hpc] at hs
    split at hs <;> cases hs
    · exact .hook _ (by decide) rfl (hooks_emit rfl)
    · exact .same rfl rfl
  | hand error event =>
    simp only [hpc] at hs
    split at hs <;> cases hs
    · exact .hook .handler (by decide) rfl (hooks_emit rfl)
    · exact .same rfl rfl
  | loopTest =>
    simp only [hpc] at hs
    split at hs <;> cases hs <;> exact .same rfl rfl
  | receive q =>
    simp only [hpc] at hs
    refine onQueue_semaphoreStep hs fun i queue hbody => ?_
    split at hbody <;> cases hbody <;> exact .same rfl rfl
  | wait q =>
    simp only [hpc] at hs
    refine onQueue_semaphoreStep hs fun i queue hbody => ?_
    split at hbody <;> cases hbody
    exact .same rfl rfl
  | give =>
    simp only [hpc] at hs
    split at hs
    · cases hs; exact .same rfl rfl
    · rename_i sem hsem
      obtain ⟨hsuccess, hfree⟩ := give_frees sem ch.pick
      split at hs
      · rename_i hfailed
        exact absurd hsuccess hfailed
      · cases hs
        exact .give (congrArg some hfree) (hooks_emit rfl)
  | deleteTask =>
    simp only [hpc] at hs
    unfold taskDelete at hs
    split at hs
    · cases hs; exact .same rfl rfl
    · split at hs
      · cases hs
      · split at hs <;> cases hs <;> exact .same rfl rfl
  | deleteQueue =>
    simp only [hpc] at hs
    unfold queueDelete at hs
    split at hs
    · cases hs; exact .same rfl rfl
    · split at hs
      · cases hs
      · split at hs <;> cases hs <;> exact .same rfl rfl
  | ended => simp only [hpc] at hs; cases hs
  | _ => simp only [hpc] at hs; cases hs; exact .same rfl rfl

theorem die_semaphoreStep {w w' : World} {i : Nat} {self : TaskObject} (hs : w.die i self = some w') :
    w.SemaphoreStep w' := by
  unfold die at hs
  split at hs
  · split at hs <;> cases hs <;> exact .same rfl rfl
  · cases hs

/-- A pass through the test of `Semaphore_Take`: it succeeds on a free semaphore, which it locks. -/
theorem loop_lock (sem : Semaphore Nat) (t : Nat) (timeoutMs : UInt64) (tv now : Timeval) :
    ((sem.loop t timeoutMs tv now).1 ≠ some .success ∧ (sem.loop t timeoutMs tv now).2.locked = sem.locked) ∨
      ((sem.loop t timeoutMs tv now).1 = some .success ∧ sem.locked = false ∧
        (sem.loop t timeoutMs tv now).2.locked = true) := by
  rcases sem.loop_cases t timeoutMs tv now with ⟨-, k, h⟩ | ⟨hfree, h⟩ | ⟨-, h⟩
  · rw [h]; exact .inl ⟨by simp, rfl⟩
  · rw [h]; exact .inr ⟨rfl, hfree, rfl⟩
  · rw [h]; exact .inl ⟨by simp, rfl⟩

theorem setSemaphore_lock (w : World) (sem : Semaphore Nat) : (w.setSemaphore sem).lock = some sem.locked := rfl

/-- Any step: a take that succeeds finds the semaphore free and leaves it locked. -/
theorem step_semaphore {w w' : World} {a : Act} (hs : w.step a = some w') :
    (w.takes a = false ∧ w.SemaphoreStep w') ∨
      (w.takes a = true ∧ w.lock = some false ∧ w'.lock = some true ∧ hooks w'.log = hooks w.log) := by
  have hadv := (step_advance hs).2
  cases a with
  | caller c ch => exact .inl ⟨rfl, caller_semaphoreStep hadv⟩
  | task i ch =>
    cases hadv with
    | task _ hs => exact .inl ⟨rfl, serviceMain_semaphoreStep hs⟩
  | die i =>
    cases hadv with
    | die _ hs => exact .inl ⟨rfl, die_semaphoreStep hs⟩
  | call api =>
    cases hadv
    exact .inl ⟨rfl, .same rfl rfl⟩
  | wake q t r =>
    cases hadv
    exact .inl ⟨rfl, .same rfl rfl⟩
  | take t timeoutMs tv now =>
    cases hadv with
    | @take _ _ _ _ sem hsem =>
      have htest : sem.take t timeoutMs tv now = sem.loop t timeoutMs tv now := rfl
      have hlock : w.lock = some sem.locked := congrArg (Option.map _) hsem
      rw [setSemaphore_lock, hlock, takes, hsem, Option.map_some, htest]
      rcases loop_lock sem t timeoutMs tv now with ⟨hret, hkeeps⟩ | ⟨hret, hfree, htaken⟩
      · refine .inl ⟨by simpa using hret, .same ?_ rfl⟩
        rw [setSemaphore_lock, hlock, hkeeps]
      · exact .inr ⟨by simp [hret], by rw [hfree], by rw [htaken], rfl⟩
  | wakeTaker t r =>
    cases hadv with
    | wakeTaker hsem _ => exact .inl ⟨rfl, .same (by rw [setSemaphore_lock, lock, hsem]; rfl) rfl⟩
  | retake t now =>
    cases hadv with
    | @retake _ _ sem sem' ret hsem hresume =>
      have hlock : w.lock = some sem.locked := congrArg (Option.map _) hsem
      rw [setSemaphore_lock, hlock, takes, hsem, Option.bind_some, hresume, Option.map_some]
      obtain ⟨k, res, cond, -, ⟨-, hret⟩ | ⟨-, e, he, hret⟩⟩ := Semaphore.resume_cases hresume
      · obtain rfl : ret = _ := congrArg Prod.fst hret
        obtain rfl : sem' = _ := congrArg Prod.snd hret
        rcases loop_lock { sem with cond } t k.timeoutMs k.tv now with ⟨hret, hkeeps⟩ | ⟨hret, hfree, htaken⟩
        · refine .inl ⟨by simpa using hret, .same ?_ rfl⟩
          rw [setSemaphore_lock, hlock, hkeeps]
        · exact .inr ⟨by simp [hret], by rw [← hfree], by rw [htaken], rfl⟩
      · obtain ⟨rfl, rfl⟩ := Prod.mk.inj hret
        exact .inl ⟨by simpa using he, .same hlock.symm rfl⟩

/-! ## The task is done -/

/-- A free semaphore has been given. -/
def GivenWhenFree (w : World) : Prop := w.lock = some false → .give ∈ hooks w.log

theorem GivenWhenFree.step {w w' : World} {a : Act} (h : w.GivenWhenFree) (hs : w.step a = some w') :
    w'.GivenWhenFree := by
  intro hfree
  rcases step_semaphore hs with ⟨-, ⟨hlock, hhooks⟩ | ⟨hook, -, hlock, hhooks⟩ | ⟨-, hhooks⟩⟩ | ⟨-, -, hlock, -⟩
  · rw [hhooks]
    exact h (hlock ▸ hfree)
  · rw [hhooks]
    exact List.mem_append_left _ (h (hlock ▸ hfree))
  · rw [hhooks]
    exact List.mem_append_right _ (List.mem_singleton_self _)
  · rw [hlock] at hfree
    cases hfree

theorem give_not_mem (s : Service) (k : Nat) : .give ∉ teardownTrace s k := by
  unfold teardownTrace bodyTrace setupTrace
  intro h
  rw [List.mem_append, List.mem_append] at h
  rcases h with (h | h) | h
  · split at h <;> simp at h
  · split at h
    · simp at h
    · exact absurd (List.eq_of_mem_replicate h) (by decide)
  · split at h <;> simp at h

/-- Once the semaphore is given the life of the service is complete, and nothing can follow. -/
theorem full_of_give {s : Service} {l : List Hook} {k : Nat} (hl : l <+: fullTrace s k) (hgive : .give ∈ l) :
    l = fullTrace s k := by
  rcases List.prefix_concat_iff.1 hl with hall | hshort
  · exact hall
  · exact absurd (hshort.subset hgive) (give_not_mem s k)

theorem Ordered.no_more {w : World} (h : w.Ordered) {l : List Hook} {x : Hook} (hgive : .give ∈ l)
    (hhooks : hooks w.log = l ++ [x]) : False := by
  obtain ⟨k, -, hprefix⟩ := h.lifeCycle.order
  rw [hhooks] at hprefix
  have hfull := full_of_give hprefix (List.mem_append_left _ hgive)
  obtain ⟨hteardown, -⟩ := List.append_inj' hfull rfl
  exact give_not_mem _ k (hteardown ▸ hgive)

/-- The semaphore is taken after the hooks `l`, of which the last was its give. -/
structure Joined (l : List Hook) (w : World) : Prop extends Ordered w where
  taken : w.lock = some true
  done : hooks w.log = l

theorem Joined.step {l : List Hook} {w w' : World} {a : Act} (hgive : .give ∈ l) (h : w.Joined l)
    (hfirst : w.StartFirst a) (hs : w.step a = some w') : w'.Joined l ∧ w.takes a = false := by
  have hordered := ordered_step h.toOrdered hfirst hs
  rcases step_semaphore hs with
    ⟨hno, ⟨hlock, hhooks⟩ | ⟨hook, -, -, hhooks⟩ | ⟨-, hhooks⟩⟩ | ⟨-, hfree, -, -⟩
  · exact ⟨⟨hordered, hlock.trans h.taken, hhooks.trans h.done⟩, hno⟩
  · rw [h.done] at hhooks
    exact (hordered.no_more hgive hhooks).elim
  · rw [h.done] at hhooks
    exact (hordered.no_more hgive hhooks).elim
  · rw [h.taken] at hfree
    cases hfree

theorem Joined.run {l : List Hook} {w w' : World} {acts : List Act} (hgive : .give ∈ l) (h : w.Joined l)
    (hfirst : Meets World.step StartFirst w acts) (hs : exec World.step w acts = some w') :
    hooks w'.log = l ∧ Meets World.step (fun u b => u.takes b = false) w acts := by
  induction acts generalizing w with
  | nil =>
    cases hs
    exact ⟨h.done, trivial⟩
  | cons a acts ih =>
    obtain ⟨u, hu, hs⟩ := exec_cons_some hs
    simp only [Meets, hu] at hfirst ⊢
    obtain ⟨hjoined, hno⟩ := Joined.step hgive h hfirst.1 hu
    obtain ⟨hdone, hnone⟩ := ih hjoined hfirst.2 hs
    exact ⟨hdone, hno, hnone⟩

/-- With at most one call of `Service_Start`, a thread that takes the termination semaphore finds the life of the
service complete: its task calls no hook and no handler any more, and no other take succeeds. -/
theorem take_joins (service : Service) (hsem : service.terminationSemaphore = Semaphore.new true true)
    {acts later : List Act} {a : Act} {w w' w'' : World} (hone : (acts ++ a :: later).count (.call .start) ≤ 1)
    (hacts : exec step (init service) acts = some w) (htake : w.takes a = true) (ha : w.step a = some w')
    (hlater : exec step w' later = some w'') :
    (∃ k, (service.handler = false → k = 0) ∧ hooks w.log = fullTrace service k) ∧ hooks w''.log = hooks w.log ∧
      Meets step (fun u b => u.takes b = false) w' later := by
  obtain ⟨hbefore, hafter⟩ := (meets_append hacts).1 (startFirst_of_count service _ hone)
  simp only [Meets, ha] at hafter
  have hlocked : (init service).lock = some true := congrArg (Option.map Semaphore.locked) hsem
  have hordered : w.Ordered :=
    exec_meets_invariant (fun u b v hu hc hs => ordered_step hu hc hs) hacts hbefore (ordered_init service)
  have hkeeps : (init service).Keeps w := exec_invariant (I := (init service).Keeps)
    (fun u b v hu hs => hu.trans (step_keeps hs)) hacts (.same rfl)
  have hgiven : w.GivenWhenFree := exec_invariant (fun u b v hu hs => GivenWhenFree.step hu hs) hacts fun hfree => by
    rw [hlocked] at hfree
    cases hfree
  rcases step_semaphore ha with ⟨hno, -⟩ | ⟨-, hfree, htaken, hhooks⟩
  · rw [htake] at hno
    cases hno
  · have hgive := hgiven hfree
    obtain ⟨k, hk, hprefix⟩ := (lifeCycle_keeps hkeeps hordered.lifeCycle).order
    have hjoined : w'.Joined (hooks w.log) := ⟨ordered_step hordered hafter.1 ha, htaken, hhooks⟩
    exact ⟨⟨k, hk, full_of_give hprefix hgive⟩, hjoined.run hgive hafter.2 hlater⟩

/-- A thread waits for the end of `handlerLife`; the task then sleeps, and another thread waits in vain. -/
theorem take_joins_handlerLife : ∃ w w'' : World, exec step (init hookedService) handlerLife = some w ∧
    (∃ k, (hookedService.handler = false → k = 0) ∧ hooks w.log = fullTrace hookedService k) ∧
    hooks w''.log = hooks w.log := by
  have hrun : ∃ w ∈ exec step (init hookedService) handlerLife,
      w.takes (.take 0 0 plain.tv plain.tv) = true ∧ ∃ w' ∈ w.step (.take 0 0 plain.tv plain.tv),
        (exec step w' (List.replicate 4 (.task 0 plain) ++ [.take 1 0 plain.tv plain.tv])).isSome = true := by decide
  obtain ⟨w, hw, htake, w', hw', hlater⟩ := hrun
  obtain ⟨w'', hw''⟩ := Option.isSome_iff_exists.1 hlater
  obtain ⟨hfull, hdone, -⟩ := take_joins hookedService rfl (by decide) hw htake hw' hw''
  exact ⟨w, w'', hw, hfull, hdone⟩

end World

end InfoWorkshop.Service
