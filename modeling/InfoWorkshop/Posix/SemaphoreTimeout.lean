/-
What `ERROR_TIMEOUT` of `Semaphore_Take` says. A wait that times out is over before the thread has the
mutex again, and then the semaphore is not looked at; the test of the loop counts the time in seconds.
-/
import InfoWorkshop.Posix.Deadline
import InfoWorkshop.Posix.SemaphoreThreads

namespace InfoWorkshop.Posix.SemaphoreThreads

open InfoWorkshop.Core InfoWorkshop.CondVar InfoWorkshop.Steps

variable {K : Type*}

/-! ## The test of the loop -/

/-- What a pass through the test leaves of the waiting threads. -/
theorem loop_waiters (s : Semaphore K) (t : K) (timeoutMs : UInt64) (tv now : Timeval) :
    (s.loop t timeoutMs tv now).2.cond = s.cond ∨ (s.loop t timeoutMs tv now).2.cond =
      s.cond.wait t ⟨timeoutMs, tv, Semaphore.deadline tv timeoutMs⟩ := by
  unfold Semaphore.loop
  split
  · exact .inr rfl
  · split
    · exact .inl rfl
    · exact .inl rfl

theorem loop_timeout_iff (s : Semaphore K) (t : K) (timeoutMs : UInt64) (tv now : Timeval) :
    (s.loop t timeoutMs tv now).1 = some .errorTimeout ↔
      s.locked = true ∧ timeoutMs ≤ Semaphore.elapsedTimeMs tv now := by
  unfold Semaphore.loop
  cases hl : s.locked with
  | false => simp
  | true =>
    by_cases he : Semaphore.elapsedTimeMs tv now < timeoutMs
    · simp [he]
    · simp [he, UInt64.not_lt.1 he]

theorem took_log {s : State K} {t u : K} {ret : Option ErrorCode × Semaphore K} {error : ErrorCode} :
    (s.took t ret).log = s.log ++ [.took u error] ↔ u = t ∧ ret.1 = some error := by
  obtain ⟨_ | e, sem⟩ := ret
  · simp [State.took]
  · simp [State.took, eq_comm]

theorem took_now (s : State K) (t : K) (ret : Option ErrorCode × Semaphore K) : (s.took t ret).now = s.now := by
  obtain ⟨_ | e, sem⟩ := ret <;> rfl

variable [DecidableEq K]

/-- A thread whose wait is over gives up when the wait has timed out, or in the test of the loop. -/
theorem resume_timeout_iff {s : Semaphore K} {t : K} {now : Timeval} {ret : Option ErrorCode × Semaphore K}
    (h : s.resume t now = some ret) :
    ret.1 = some .errorTimeout ↔ ∃ k r c, s.cond.resume t = some (k, r, c) ∧
      (r = .timedOut ∨ r = .ok ∧ s.locked = true ∧ k.timeoutMs ≤ Semaphore.elapsedTimeMs k.tv now) := by
  unfold Semaphore.resume at h
  rcases hc : s.cond.resume t with _ | ⟨k, r, c⟩
  · simp [hc] at h
  · simp only [hc] at h
    have hiff : ret.1 = some .errorTimeout ↔
        (r = .timedOut ∨ r = .ok ∧ s.locked = true ∧ k.timeoutMs ≤ Semaphore.elapsedTimeMs k.tv now) := by
      cases r with
      | ok =>
        cases h
        rw [loop_timeout_iff]
        simp
      | timedOut => cases h; simp
      | failed errno => cases h; simp
    rw [hiff]
    constructor
    · exact fun hx => ⟨k, r, c, rfl, hx⟩
    · rintro ⟨k', r', c', he, hx⟩
      cases he
      exact hx

/-- In the step `a` a `Semaphore_Take` of thread `t` returns `error`. -/
def Returns (s : State K) (a : Act K) (t : K) (error : ErrorCode) : Prop :=
  ∃ s', step s a = some s' ∧ s'.log = s.log ++ [.took t error]

/-- A call times out in the test of its loop, or when its wait has timed out. -/
theorem returns_timeout_iff {s : State K} {a : Act K} {t : K} :
    Returns s a t .errorTimeout ↔
      (∃ timeoutMs later, a = .take t timeoutMs later ∧ s.sem.cond.waiting t = false ∧ s.sem.locked = true ∧
        timeoutMs ≤ Semaphore.elapsedTimeMs s.now later) ∨
      (a = .resume t ∧ ∃ k r c, s.sem.cond.resume t = some (k, r, c) ∧
        (r = .timedOut ∨ r = .ok ∧ s.sem.locked = true ∧ k.timeoutMs ≤ Semaphore.elapsedTimeMs k.tv s.now)) := by
  constructor
  · rintro ⟨s', h, hlog⟩
    cases a with
    | take u timeoutMs later =>
      obtain ⟨hw, rfl⟩ := step_take h
      obtain ⟨rfl, hret⟩ := took_log.1 hlog
      obtain ⟨hl, he⟩ := (loop_timeout_iff s.sem t timeoutMs s.now later).1 hret
      exact .inl ⟨timeoutMs, later, rfl, hw, hl, he⟩
    | give u pick =>
      obtain ⟨-, rfl⟩ := step_give h
      simp at hlog
    | wake u r =>
      obtain ⟨cond, -, rfl⟩ := step_wake h
      simp at hlog
    | resume u =>
      obtain ⟨ret, hr, rfl⟩ := step_resume h
      obtain ⟨rfl, hret⟩ := took_log.1 hlog
      exact .inr ⟨rfl, (resume_timeout_iff hr).1 hret⟩
    | clock tv =>
      cases h
      simp at hlog
  · rintro (⟨timeoutMs, later, rfl, hw, hl, he⟩ | ⟨rfl, k, r, c, hc, hx⟩)
    · refine ⟨_, if_neg (by simp [hw]), took_log.2 ⟨rfl, ?_⟩⟩
      exact (loop_timeout_iff s.sem t timeoutMs s.now later).2 ⟨hl, he⟩
    · obtain ⟨ret, hr⟩ : ∃ ret, s.sem.resume t s.now = some ret := by
        simp only [Semaphore.resume, hc]
        cases r <;> exact ⟨_, rfl⟩
      refine ⟨s.took t ret, by simp only [step, hr], took_log.2 ⟨rfl, ?_⟩⟩
      exact (resume_timeout_iff hr).2 ⟨k, r, c, hc, hx⟩

/-- A property of the waiting threads that starting to wait, signalling and the ends of a wait keep holds
after a step. Who resumes may wait again. -/
theorem step_waiters {J : Waiters K Taker → Prop}
    (hwait : ∀ c t timeoutMs tv, J c → c.waiting t = false →
      J (c.wait t ⟨timeoutMs, tv, Semaphore.deadline tv timeoutMs⟩))
    (hsignal : ∀ c pick, J c → J (c.signal pick)) (hwake : ∀ c d t r, J c → c.wake t r = some d → J d)
    (hresume : ∀ c d t k r, J c → c.resume t = some (k, r, d) →
      J d ∧ J (d.wait t ⟨k.timeoutMs, k.tv, Semaphore.deadline k.tv k.timeoutMs⟩)) {s s' : State K} {a : Act K}
    (hs : J s.sem.cond) (h : step s a = some s') : J s'.sem.cond := by
  cases a with
  | take t timeoutMs later =>
    obtain ⟨hw, rfl⟩ := step_take h
    rw [took_sem]
    rcases loop_waiters s.sem t timeoutMs s.now later with hc | hc
    · rw [hc]; exact hs
    · rw [hc]; exact hwait _ t timeoutMs s.now hs hw
  | give t pick =>
    obtain ⟨-, rfl⟩ := step_give h
    cases hl : s.sem.locked with
    | false => rw [Semaphore.give_of_free hl]; exact hs
    | true => rw [Semaphore.give_of_locked hl]; exact hsignal _ pick hs
  | wake t r =>
    obtain ⟨cond, hcond, rfl⟩ := step_wake h
    exact hwake _ _ t r hs hcond
  | resume t =>
    obtain ⟨ret, hr, rfl⟩ := step_resume h
    rw [took_sem]
    obtain ⟨k, res, c, hc, ⟨-, rfl⟩ | ⟨-, e, -, rfl⟩⟩ := Semaphore.resume_cases hr
    · rcases loop_waiters { s.sem with cond := c } t k.timeoutMs k.tv s.now with hl | hl
      · rw [hl]; exact (hresume _ _ t k res hs hc).1
      · rw [hl]; exact (hresume _ _ t k res hs hc).2
    · exact (hresume _ _ t k res hs hc).1
  | clock tv =>
    cases h
    exact hs

/-- No thread is inside two waits. -/
theorem step_distinct {s s' : State K} {a : Act K} (hs : s.sem.cond.Distinct) (h : step s a = some s') :
    s'.sem.cond.Distinct :=
  step_waiters (J := Waiters.Distinct) (fun _ _ _ _ hc hw => hc.wait hw _) (fun _ pick hc => hc.signal pick)
    (fun _ _ _ _ hc hw => hc.wake hw)
    (fun _ _ _ _ _ hc hr => ⟨hc.resume hr, (hc.resume hr).wait (hc.resume_waiting hr) _⟩) hs h

/-- Who waits keeps the deadline of its call. -/
theorem step_deadlines {s s' : State K} {a : Act K}
    (hs : s.sem.cond.All fun k => k.tp = Semaphore.deadline k.tv k.timeoutMs) (h : step s a = some s') :
    s'.sem.cond.All fun k => k.tp = Semaphore.deadline k.tv k.timeoutMs :=
  step_waiters (J := Waiters.All fun k => k.tp = Semaphore.deadline k.tv k.timeoutMs)
    (fun _ _ _ _ hc _ => hc.wait rfl) (fun _ pick hc => hc.signal pick) (fun _ _ _ _ hc hw => hc.wake hw)
    (fun _ _ _ _ _ hc hr => ⟨(hc.resume hr).2, (hc.resume hr).2.wait rfl⟩) hs h

/-! ## A taken semaphore at a time-out -/

/-- Whichever call returns `ERROR_TIMEOUT` next, the semaphore is locked in its final section. -/
def TimeoutsHonest (s : State K) : Prop := ∀ a t, Returns s a t .errorTimeout → s.sem.locked = true

/-- The semaphore is not given between the time-out of a wait and the return from it, and no wait times out
while it is available. -/
def NothingGiven (s : State K) : Act K → Prop
  | .give _ _ => s.sem.locked = true → s.sem.cond.AwakeAll fun _ r => r ≠ .timedOut
  | .wake _ r => r = .timedOut → s.sem.locked = true
  | _ => True

/-- The waits that have timed out find the semaphore locked. -/
abbrev PendingLocked (sem : Semaphore K) : Prop := sem.cond.AwakeAll fun _ r => r = .timedOut → sem.locked = true

theorem timeoutsHonest_iff {s : State K} (hs : s.sem.cond.Distinct) : TimeoutsHonest s ↔ PendingLocked s.sem := by
  unfold TimeoutsHonest PendingLocked
  rw [hs.awakeAll_iff]
  constructor
  · intro h t k r d hr htimed
    exact h (.resume t) t (returns_timeout_iff.2 (.inr ⟨rfl, k, r, d, hr, .inl htimed⟩))
  · intro h a t hret
    rcases returns_timeout_iff.1 hret with ⟨-, -, -, -, hl, -⟩ | ⟨-, k, r, c, hc, hr | ⟨-, hl, -⟩⟩
    · exact hl
    · exact h t k r c hc hr
    · exact hl

/-- A step keeps the pending time-outs right exactly when nothing is given meanwhile. -/
theorem step_pendingLocked {s s' : State K} {a : Act K} (hs : PendingLocked s.sem) (h : step s a = some s') :
    PendingLocked s'.sem ↔ NothingGiven s a := by
  cases a with
  | take t timeoutMs later =>
    obtain ⟨-, rfl⟩ := step_take h
    refine iff_of_true (fun _ _ _ _ _ => ?_) trivial
    rw [took_sem, loop_locked]
  | give t pick =>
    obtain ⟨-, rfl⟩ := step_give h
    cases hl : s.sem.locked with
    | false =>
      rw [Semaphore.give_of_free hl]
      exact iff_of_true hs fun hlocked => absurd (hl.symm.trans hlocked) (by decide)
    | true =>
      -- the semaphore is available afterwards, and the signal wakes no time-out
      have hsignal : (s.sem.cond.signal pick).AwakeAll (fun _ r => r ≠ .timedOut) ↔
          s.sem.cond.AwakeAll fun _ r => r ≠ .timedOut := Waiters.awakeAll_signal (by simp) pick
      rw [Semaphore.give_of_locked hl]
      refine ⟨fun h _ => hsignal.1 fun t k r hm hr => ?_, fun h t k r hm hr => absurd hr (hsignal.2 (h hl) t k r hm)⟩
      have hfree : false = true := h t k r hm hr
      cases hfree
  | wake t r =>
    obtain ⟨cond, hcond, rfl⟩ := step_wake h
    obtain ⟨k, -, hiff⟩ := Waiters.awakeAll_wake (Q := fun _ r => r = .timedOut → s.sem.locked = true) hcond
    exact hiff.trans (and_iff_right hs)
  | resume t =>
    obtain ⟨ret, hr, rfl⟩ := step_resume h
    obtain ⟨k, res, c, hc, ⟨-, rfl⟩ | ⟨-, e, -, rfl⟩⟩ := Semaphore.resume_cases hr
    · refine iff_of_true (fun _ _ _ _ _ => ?_) trivial
      rw [took_sem, loop_locked]
    · exact iff_of_true ((Waiters.awakeAll_resume hc).1 hs).2 trivial
  | clock tv =>
    cases h
    exact iff_of_true hs trivial

/-- In a run every time-out finds the semaphore locked exactly when nothing is given meanwhile. -/
theorem timeoutsHonest_iff_nothingGiven (now : Timeval) (acts : List (Act K)) :
    Always step TimeoutsHonest (init now) acts ↔ Meets step NothingGiven (init now) acts := by
  have hinit : (init now : State K).sem.cond.Distinct := .empty
  refine always_iff_meets_of (I := fun s => s.sem.cond.Distinct) (fun _ _ _ hs _ h => step_distinct hs h)
    ?_ hinit ((timeoutsHonest_iff hinit).2 fun t k r hm => absurd hm List.not_mem_nil) (meets_true _ _)
  intro s a t hs hp _ h
  rw [timeoutsHonest_iff (step_distinct hs h)]
  exact step_pendingLocked ((timeoutsHonest_iff hs).1 hp) h

/-- A taker whose wait has timed out gets the mutex after a giver. -/
def givenMeanwhile : List (Act Nat) :=
  [.take 0 5 (.ofUsec 0), .clock (.ofUsec 5000), .wake 0 .timedOut, .give 1 0]

theorem given_at_timeout : ¬ Always step TimeoutsHonest (init (.ofUsec 0)) givenMeanwhile := by
  obtain ⟨s, hs⟩ := Option.isSome_iff_exists.1
    (show (exec step (init (.ofUsec 0)) givenMeanwhile).isSome = true by decide)
  have hstate : (exec step (init (.ofUsec 0)) givenMeanwhile).map (fun s =>
      (s.sem.locked, (s.sem.cond.resume 0).map fun x => x.2.1)) = some (false, some .timedOut) := by decide
  rw [hs, Option.map_some, Option.some.injEq, Prod.mk.injEq] at hstate
  obtain ⟨⟨k, r, c⟩, hc, hr⟩ := Option.map_eq_some_iff.1 hstate.2
  intro h
  have hlocked := always_last h hs (.resume 0) 0 (returns_timeout_iff.2 (.inr ⟨rfl, k, r, c, hc, .inl hr⟩))
  rw [hstate.1] at hlocked
  cases hlocked

/-! ## The whole time-out -/

/-- The clock never goes back, and a wait times out at its deadline or later. -/
def Clocked (s : State K) : Act K → Prop
  | .take _ _ later => s.now.usec ≤ later.usec
  | .clock tv => s.now.usec ≤ tv.usec
  | .wake t r => r = .timedOut → ∀ k ∈ s.sem.cond.blockedAt t, k.tp.Reached s.now
  | _ => True

instance (s : State K) : ∀ a, Decidable (Clocked s a)
  | .take _ _ later => inferInstanceAs (Decidable (s.now.usec ≤ later.usec))
  | .clock tv => inferInstanceAs (Decidable (s.now.usec ≤ tv.usec))
  | .wake t r => inferInstanceAs (Decidable (r = .timedOut → ∀ k ∈ s.sem.cond.blockedAt t, k.tp.Reached s.now))
  | .give .. | .resume .. => .isTrue trivial

/-- The first clock reading and the time-out of the `Semaphore_Take` that takes the step, and the time when
it does. -/
def callOf (s : State K) : Act K → Option (Timeval × UInt64 × Timeval)
  | .take _ timeoutMs later => some (s.now, timeoutMs, later)
  | .resume t => (s.sem.cond.resume t).map fun x => (x.1.tv, x.1.timeoutMs, s.now)
  | _ => none

/-- A call that returns `ERROR_TIMEOUT` in the step has let its time-out pass. -/
def WaitsFull (s : State K) (a : Act K) : Prop :=
  ∀ t, Returns s a t .errorTimeout →
    ∃ tv timeoutMs now, callOf s a = some (tv, timeoutMs, now) ∧ Elapsed tv timeoutMs now

/-- By the seconds of the clock alone the time-out has passed, but it has not. -/
def SecondsEarly (tv : Timeval) (timeoutMs : UInt64) (now : Timeval) : Prop :=
  timeoutMs.toNat ≤ (now.tvSec - tv.tvSec) * 1000 % 18446744073709551616 ∧ ¬ Elapsed tv timeoutMs now

instance (tv : Timeval) (timeoutMs : UInt64) (now : Timeval) : Decidable (SecondsEarly tv timeoutMs now) :=
  inferInstanceAs (Decidable (_ ∧ _))

/-- A locked semaphore is not tested when the seconds are early. -/
def SecondsRight (s : State K) : Act K → Prop
  | .take _ timeoutMs later => s.sem.locked = true → ¬ SecondsEarly s.now timeoutMs later
  | .resume t => ∀ x ∈ s.sem.cond.resume t, x.2.1 = .ok → s.sem.locked = true →
      ¬ SecondsEarly x.1.tv x.1.timeoutMs s.now
  | _ => True

instance (s : State K) : ∀ a, Decidable (SecondsRight s a)
  | .take _ timeoutMs later => inferInstanceAs (Decidable (_ → ¬ SecondsEarly s.now timeoutMs later))
  | .resume t => inferInstanceAs (Decidable (∀ x ∈ s.sem.cond.resume t, x.2.1 = .ok → s.sem.locked = true →
      ¬ SecondsEarly x.1.tv x.1.timeoutMs s.now))
  | .give .. | .wake .. | .clock .. => .isTrue trivial

/-- A wait that has timed out had a deadline whose seconds fit `time_t`, or its time-out has passed all the
same. -/
def DeadlineHeld (s : State K) : Act K → Prop
  | .resume t => ∀ x ∈ s.sem.cond.resume t, x.2.1 = .timedOut →
      DeadlineFits x.1.tv x.1.timeoutMs ∨ Elapsed x.1.tv x.1.timeoutMs s.now
  | _ => True

instance (s : State K) : ∀ a, Decidable (DeadlineHeld s a)
  | .resume t => inferInstanceAs (Decidable (∀ x ∈ s.sem.cond.resume t, x.2.1 = .timedOut →
      DeadlineFits x.1.tv x.1.timeoutMs ∨ Elapsed x.1.tv x.1.timeoutMs s.now))
  | .take .. | .give .. | .wake .. | .clock .. => .isTrue trivial

theorem tvSec_le {tv now : Timeval} (h : tv.usec ≤ now.usec) : tv.tvSec ≤ now.tvSec := by
  have h1 := tv.usec_lt
  have h2 := now.usec_lt
  unfold Timeval.usec at h
  omega

/-- The microseconds of a reading make no whole millisecond after two divisions by 1000. -/
theorem elapsedTimeMs_toNat {tv now : Timeval} (h : tv.usec ≤ now.usec) :
    (Semaphore.elapsedTimeMs tv now).toNat = (now.tvSec - tv.tvSec) * 1000 % 18446744073709551616 := by
  have hle := tvSec_le h
  have h1 := tv.usec_lt
  have h2 := now.usec_lt
  unfold Semaphore.elapsedTimeMs
  rw [UInt64.toNat_sub, UInt64.toNat_ofNat', UInt64.toNat_ofNat']
  show (18446744073709551616 - (tv.tvSec * 1000 + tv.tvUsec / 1000 / 1000) % 18446744073709551616 +
    (now.tvSec * 1000 + now.tvUsec / 1000 / 1000) % 18446744073709551616) % 18446744073709551616 = _
  omega

/-- The test of the loop gives up rightly exactly when the seconds are not early. -/
theorem elapsed_iff_not_early {tv now : Timeval} (h : tv.usec ≤ now.usec) (timeoutMs : UInt64) :
    (timeoutMs ≤ Semaphore.elapsedTimeMs tv now → Elapsed tv timeoutMs now) ↔ ¬ SecondsEarly tv timeoutMs now := by
  rw [UInt64.le_iff_toNat_le, elapsedTimeMs_toNat h]
  unfold SecondsEarly
  rw [not_and, not_not]

/-- What the waiting threads keep: the deadlines of their calls, made from readings of the past, and reached
where a wait has timed out. -/
structure Timed (c : Waiters K Taker) (now : Timeval) : Prop where
  deadlines : c.All fun k => k.tp = Semaphore.deadline k.tv k.timeoutMs ∧ k.tv.usec ≤ now.usec
  reached : c.AwakeAll fun k r => r = .timedOut → k.tp.Reached now

section Timed

variable {c d : Waiters K Taker} {now : Timeval}

omit [DecidableEq K] in
theorem Timed.mono {now' : Timeval} (h : Timed c now) (hle : now.usec ≤ now'.usec) : Timed c now' :=
  ⟨h.deadlines.imp fun _ hk => ⟨hk.1, Nat.le_trans hk.2 hle⟩, fun t k r hm hr => (h.reached t k r hm hr).mono hle⟩

omit [DecidableEq K] in
theorem Timed.wait (h : Timed c now) {tv : Timeval} (hle : tv.usec ≤ now.usec) (t : K) (timeoutMs : UInt64) :
    Timed (c.wait t ⟨timeoutMs, tv, Semaphore.deadline tv timeoutMs⟩) now :=
  ⟨h.deadlines.wait ⟨rfl, hle⟩, h.reached⟩

omit [DecidableEq K] in
theorem Timed.signal (h : Timed c now) (pick : Nat) : Timed (c.signal pick) now :=
  ⟨h.deadlines.signal pick, (Waiters.awakeAll_signal (by simp) pick).2 h.reached⟩

theorem Timed.wake (h : Timed c now) {t : K} {r : WaitResult} (hd : c.wake t r = some d)
    (hclock : r = .timedOut → ∀ k ∈ c.blockedAt t, k.tp.Reached now) : Timed d now := by
  obtain ⟨k, hk, hiff⟩ := Waiters.awakeAll_wake (Q := fun k r => r = .timedOut → k.tp.Reached now) hd
  exact ⟨h.deadlines.wake hd, hiff.2 ⟨h.reached, fun hr => hclock hr k hk⟩⟩

theorem Timed.resume (h : Timed c now) {t : K} {k : Taker} {r : WaitResult} (hd : c.resume t = some (k, r, d)) :
    (k.tp = Semaphore.deadline k.tv k.timeoutMs ∧ k.tv.usec ≤ now.usec) ∧ (r = .timedOut → k.tp.Reached now) ∧
      Timed d now := by
  obtain ⟨hk, hdeadlines⟩ := h.deadlines.resume hd
  obtain ⟨hr, hreached⟩ := (Waiters.awakeAll_resume hd).1 h.reached
  exact ⟨hk, hr, hdeadlines, hreached⟩

omit [DecidableEq K] in
/-- So does a pass through the test of the loop, with a first reading of the past. -/
theorem Timed.loop {s : Semaphore K} {tv : Timeval} (h : Timed s.cond now) (hle : tv.usec ≤ now.usec) (t : K)
    (timeoutMs : UInt64) : Timed (s.loop t timeoutMs tv now).2.cond now := by
  rcases loop_waiters s t timeoutMs tv now with hc | hc
  · rw [hc]; exact h
  · rw [hc]; exact h.wait hle t timeoutMs

end Timed

theorem step_timed {s s' : State K} {a : Act K} (hs : Timed s.sem.cond s.now) (hclock : Clocked s a)
    (h : step s a = some s') : Timed s'.sem.cond s'.now := by
  cases a with
  | take t timeoutMs later =>
    obtain ⟨-, rfl⟩ := step_take h
    rw [took_sem, took_now]
    exact (hs.mono hclock).loop hclock t timeoutMs
  | give t pick =>
    obtain ⟨-, rfl⟩ := step_give h
    cases hl : s.sem.locked with
    | false => rw [Semaphore.give_of_free hl]; exact hs
    | true => rw [Semaphore.give_of_locked hl]; exact hs.signal pick
  | wake t r =>
    obtain ⟨cond, hcond, rfl⟩ := step_wake h
    exact hs.wake hcond hclock
  | resume t =>
    obtain ⟨ret, hr, rfl⟩ := step_resume h
    rw [took_sem, took_now]
    obtain ⟨k, res, c, hc, ⟨-, rfl⟩ | ⟨-, e, -, rfl⟩⟩ := Semaphore.resume_cases hr
    · obtain ⟨⟨-, hle⟩, -, hrest⟩ := hs.resume hc
      exact Timed.loop (s := { s.sem with cond := c }) hrest hle t k.timeoutMs
    · exact (hs.resume hc).2.2
  | clock tv =>
    cases h
    exact hs.mono hclock

theorem waitsFull_take {s : State K} {t : K} (hw : s.sem.cond.waiting t = false) (timeoutMs : UInt64)
    (later : Timeval) : WaitsFull s (.take t timeoutMs later) ↔
      (s.sem.locked = true → timeoutMs ≤ Semaphore.elapsedTimeMs s.now later → Elapsed s.now timeoutMs later) := by
  constructor
  · intro h hl he
    obtain ⟨tv, ms, now, hcall, helapsed⟩ := h t (returns_timeout_iff.2 (.inl ⟨timeoutMs, later, rfl, hw, hl, he⟩))
    cases hcall
    exact helapsed
  · intro h u hret
    rcases returns_timeout_iff.1 hret with ⟨ms, now, ha, -, hl, he⟩ | ⟨ha, -⟩
    · cases ha
      exact ⟨_, _, _, rfl, h hl he⟩
    · cases ha

theorem waitsFull_resume {s : State K} {t : K} {k : Taker} {r : WaitResult} {c : Waiters K Taker}
    (hc : s.sem.cond.resume t = some (k, r, c)) : WaitsFull s (.resume t) ↔
      (r = .timedOut ∨ r = .ok ∧ s.sem.locked = true ∧ k.timeoutMs ≤ Semaphore.elapsedTimeMs k.tv s.now →
        Elapsed k.tv k.timeoutMs s.now) := by
  have hcall : callOf s (.resume t) = some (k.tv, k.timeoutMs, s.now) := by rw [callOf, hc]; rfl
  constructor
  · intro h hx
    obtain ⟨tv, ms, now, hcall', helapsed⟩ := h t (returns_timeout_iff.2 (.inr ⟨rfl, k, r, c, hc, hx⟩))
    cases hcall.symm.trans hcall'
    exact helapsed
  · intro h u hret
    rcases returns_timeout_iff.1 hret with ⟨ms, now, ha, -⟩ | ⟨ha, k', r', c', hc', hx⟩
    · cases ha
    · cases ha
      cases hc.symm.trans hc'
      exact ⟨_, _, _, hcall, h hx⟩

/-- In a step of no `Semaphore_Take` nothing times out. -/
theorem waitsFull_of_no_call {s : State K} {a : Act K} (h : callOf s a = none) : WaitsFull s a := by
  intro t hret
  rcases returns_timeout_iff.1 hret with ⟨ms, now, rfl, -⟩ | ⟨rfl, k, r, c, hc, -⟩
  · cases h
  · rw [callOf, hc] at h
    cases h

/-- A step returns no early `ERROR_TIMEOUT` exactly when the seconds are right and the deadline holds. -/
theorem step_waitsFull {s s' : State K} {a : Act K} (hs : Timed s.sem.cond s.now) (hclock : Clocked s a)
    (h : step s a = some s') : WaitsFull s a ↔ SecondsRight s a ∧ DeadlineHeld s a := by
  cases a with
  | take t timeoutMs later =>
    obtain ⟨hw, -⟩ := step_take h
    rw [waitsFull_take hw]
    exact (imp_congr_right fun _ => elapsed_iff_not_early hclock timeoutMs).trans (and_iff_left trivial).symm
  | give t pick => exact iff_of_true (waitsFull_of_no_call rfl) ⟨trivial, trivial⟩
  | wake t r => exact iff_of_true (waitsFull_of_no_call rfl) ⟨trivial, trivial⟩
  | resume t =>
    obtain ⟨ret, hr, -⟩ := step_resume h
    obtain ⟨k, res, c, hc, -⟩ := Semaphore.resume_cases hr
    obtain ⟨⟨htp, hle⟩, hreached, -⟩ := hs.resume hc
    have hearly := elapsed_iff_not_early hle k.timeoutMs
    rw [waitsFull_resume hc]
    constructor
    · intro hx
      refine ⟨fun x hxr hok hl => ?_, fun x hxr htimed => ?_⟩
      · cases hc.symm.trans hxr
        exact hearly.1 fun he => hx (.inr ⟨hok, hl, he⟩)
      · cases hc.symm.trans hxr
        exact .inr (hx (.inl htimed))
    · rintro ⟨hright, hheld⟩ hx
      rcases hx with hx | ⟨hx, hl, he⟩
      · rcases hheld (k, res, c) hc hx with hfits | helapsed
        · have hdeadline := hreached hx
          rw [htp] at hdeadline
          exact elapsed_of_reached exceeds_semaphore hfits hdeadline
        · exact helapsed
      · exact hearly.2 (hright (k, res, c) hc hx hl) he
  | clock tv => exact iff_of_true (waitsFull_of_no_call rfl) ⟨trivial, trivial⟩

/-- In a run with a clock no `ERROR_TIMEOUT` comes early exactly when the seconds are right in every test and
the deadline holds at every time-out. -/
theorem waitsFull_iff_secondsRight (now : Timeval) (acts : List (Act K))
    (hclock : Meets step Clocked (init now) acts) :
    Meets step WaitsFull (init now) acts ↔
      Meets step SecondsRight (init now) acts ∧ Meets step DeadlineHeld (init now) acts := by
  rw [← meets_and]
  refine meets_congr_of (I := fun s => Timed s.sem.cond s.now) (fun _ _ _ hs hc h => step_timed hs hc h)
    (fun _ _ _ hs hc h => step_waitsFull hs hc h) ⟨.empty, fun t k r hm => absurd hm List.not_mem_nil⟩ hclock

/-- A taker waits a second and a half, over a spurious wake-up. -/
def patientRun : List (Act Nat) :=
  [Act.take 0 1500 (.ofUsec 3000000), Act.clock (.ofUsec 3999999), Act.wake 0 .ok, Act.resume 0,
    Act.clock (.ofUsec 4500000), Act.wake 0 .timedOut, Act.resume 0]

theorem waitsFull_iff_secondsRight_patientRun : Meets step WaitsFull (init (.ofUsec 3000000)) patientRun :=
  (waitsFull_iff_secondsRight _ patientRun (by decide)).2 ⟨by decide, by decide⟩

/-- Two readings of the clock a microsecond apart are a second apart for the test. -/
theorem second_boundary_times_out :
    Meets step Clocked (init (.ofUsec 3999999)) [Act.take 0 1000 (.ofUsec 4000000)] ∧
      ¬ Meets step WaitsFull (init (.ofUsec 3999999)) [Act.take 0 1000 (.ofUsec 4000000)] := by
  refine ⟨by decide, fun h => ?_⟩
  obtain ⟨s, hs⟩ := Option.isSome_iff_exists.1
    (show (step (init (.ofUsec 3999999)) (Act.take 0 1000 (.ofUsec 4000000))).isSome = true by decide)
  have hlast : Meets step WaitsFull (init (.ofUsec 3999999)) ([] ++ [Act.take 0 1000 (.ofUsec 4000000)]) := h
  have hfull := (waitsFull_take rfl 1000 (.ofUsec 4000000)).1 (meets_last hlast rfl hs) rfl (by decide)
  exact absurd hfull (by decide)

end InfoWorkshop.Posix.SemaphoreThreads
