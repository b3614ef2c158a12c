/-
The deadlines of `Queue_Receive` and `Semaphore_Take`: when they are exact, well formed and computed without
overflow, and that an ill-formed one makes the call fail with `ERROR_OS`.
-/
import InfoWorkshop.Posix.QueueTimeout
import InfoWorkshop.Posix.SemaphoreTimeout

namespace InfoWorkshop.Posix

open InfoWorkshop.Core InfoWorkshop.Memory InfoWorkshop.CondVar InfoWorkshop.Steps

/-! ## A deadline and its loop -/

/-- `tv_nsec` is what `pthread_cond_timedwait` accepts. -/
def Timespec.InRange (tp : Timespec) : Prop := 0 ≤ tp.tvNsec.toInt ∧ tp.tvNsec.toInt < 1000000000

instance (tp : Timespec) : Decidable tp.InRange := inferInstanceAs (Decidable (_ ∧ _))

/-- No turn of the loop overflows. -/
def TurnsExact (exceeds : UInt64 → Bool) : Nat → Timespec → Prop
  | 0, _ => True
  | fuel + 1, tp =>
    exceeds tp.tvNsec.toUInt64 = true →
      (tp.tvSec + 1).toInt = tp.tvSec.toInt + 1 ∧
      (tp.tvNsec.toUInt64 - oneSecInNs).toInt64.toInt = tp.tvNsec.toInt - 1000000000 ∧
      TurnsExact exceeds fuel ⟨tp.tvSec + 1, (tp.tvNsec.toUInt64 - oneSecInNs).toInt64⟩

/-- The deadline `timeoutMs` after `tv`, whose loop goes on while `exceeds` holds, is well formed and exact,
and so is every value on the way to it. -/
structure WellFormed (exceeds : UInt64 → Bool) (tv : Timeval) (timeoutMs : UInt64) : Prop where
  inRange : (deadline exceeds tv timeoutMs).InRange
  exact : (deadline exceeds tv timeoutMs).nsec = (tv.usec + timeoutMs.toNat * 1000 : Nat) * 1000
  ends : exceeds (deadline exceeds tv timeoutMs).tvNsec.toUInt64 = false
  sec : (rawDeadline tv timeoutMs).tvSec.toInt = (tv.tvSec + timeoutMs.toNat / 1000 : Nat)
  usec : (UInt64.ofNat tv.tvUsec + timeoutMs % 1000 * 1000).toNat = tv.tvUsec + timeoutMs.toNat % 1000 * 1000
  nsec : (rawDeadline tv timeoutMs).tvNsec.toInt = ((tv.tvUsec + timeoutMs.toNat % 1000 * 1000) * 1000 : Nat)
  turns : TurnsExact exceeds ((rawDeadline tv timeoutMs).tvNsec.toUInt64.toNat / oneSecInNs.toNat + 1)
    (rawDeadline tv timeoutMs)

/-- The microseconds of the clock and those of the time-out below a second. -/
def usecSum (tv : Timeval) (timeoutMs : UInt64) : Nat := tv.tvUsec + timeoutMs.toNat % 1000 * 1000

/-- The nanoseconds that the loop starts from. -/
def rawNsec (tv : Timeval) (timeoutMs : UInt64) : UInt64 :=
  (UInt64.ofNat tv.tvUsec + timeoutMs % 1000 * 1000) * 1000

theorem rawNsec_eq (tv : Timeval) (timeoutMs : UInt64) : (rawNsec tv timeoutMs).toNat = usecSum tv timeoutMs * 1000 :=
  rawNsec_toNat tv timeoutMs

theorem usecSum_lt (tv : Timeval) (timeoutMs : UInt64) : usecSum tv timeoutMs < 2000000 := by
  have husec := tv.usec_lt
  unfold usecSum
  omega

theorem turnsExact_of_not {exceeds : UInt64 → Bool} {tp : Timespec} (h : exceeds tp.tvNsec.toUInt64 = false)
    (fuel : Nat) : TurnsExact exceeds fuel tp := by
  cases fuel with
  | zero => trivial
  | succ fuel =>
    intro hx
    rw [h] at hx
    cases hx

theorem rawDeadline_tvNsec (tv : Timeval) (timeoutMs : UInt64) :
    (rawDeadline tv timeoutMs).tvNsec.toUInt64 = rawNsec tv timeoutMs := UInt64.toUInt64_toInt64 _

theorem deadline_stay {exceeds : UInt64 → Bool} {tv : Timeval} {timeoutMs : UInt64}
    (hx : exceeds (rawNsec tv timeoutMs) = false) : deadline exceeds tv timeoutMs = rawDeadline tv timeoutMs := by
  apply carry_of_not
  rw [rawDeadline_tvNsec, hx]

section Carry

variable {exceeds : UInt64 → Bool} (he : ∀ x, exceeds x = true → oneSecInNs ≤ x)

include he

/-- The one turn of the loop, when its second fits. -/
theorem turnsExact_turn {sec nsec : UInt64} (hx : exceeds nsec = true) (hnsec : nsec.toNat < 2000000000)
    (hsec : sec.toNat + 1 < 9223372036854775808) (fuel : Nat) :
    TurnsExact exceeds (fuel + 1) ⟨sec.toInt64, nsec.toInt64⟩ := by
  have hle : 1000000000 ≤ nsec.toNat := he nsec hx
  have hsub := sub_second (he nsec hx)
  intro _
  simp only [UInt64.toUInt64_toInt64]
  refine ⟨?_, ?_, ?_⟩
  · rw [toInt_succ hsec, toInt_toInt64 (by omega)]
  · rw [toInt_toInt64 (by omega), toInt_toInt64 (by omega), hsub]
    omega
  · apply turnsExact_of_not
    rw [UInt64.toUInt64_toInt64]
    exact exceeds_rest he hx hnsec

theorem deadline_turn {tv : Timeval} {timeoutMs : UInt64} (hx : exceeds (rawNsec tv timeoutMs) = true) :
    deadline exceeds tv timeoutMs = ⟨(UInt64.ofNat tv.tvSec + timeoutMs / 1000).toInt64 + 1,
      (rawNsec tv timeoutMs - oneSecInNs).toInt64⟩ := by
  have hlt := usecSum_lt tv timeoutMs
  have hnsec := rawNsec_eq tv timeoutMs
  exact carry_turn he hx (by omega) _

/-- The deadline is well formed when the second that is carried fits, and when none is carried no full second
is left. -/
theorem wellFormed_of {tv : Timeval} {timeoutMs : UInt64}
    (hsum : tv.tvSec + timeoutMs.toNat / 1000 < 9223372036854775808)
    (h : (exceeds (rawNsec tv timeoutMs) = true ∧ tv.tvSec + timeoutMs.toNat / 1000 + 1 < 9223372036854775808) ∨
      (exceeds (rawNsec tv timeoutMs) = false ∧ usecSum tv timeoutMs < 1000000)) :
    WellFormed exceeds tv timeoutMs := by
  have hlt := usecSum_lt tv timeoutMs
  have hnsec := rawNsec_eq tv timeoutMs
  have hsec := rawSec_toNat hsum
  have hrawSec : (rawDeadline tv timeoutMs).tvSec.toInt = (tv.tvSec + timeoutMs.toNat / 1000 : Nat) := by
    rw [rawDeadline, toInt_toInt64 (by omega), hsec]
  have hrawNsec : (rawDeadline tv timeoutMs).tvNsec.toInt = (usecSum tv timeoutMs * 1000 : Nat) := by
    show (rawNsec tv timeoutMs).toInt64.toInt = _
    rw [toInt_toInt64 (by omega), hnsec]
  rcases h with ⟨hx, hfit⟩ | ⟨hx, hbelow⟩
  · have hle : 1000000000 ≤ (rawNsec tv timeoutMs).toNat := he _ hx
    have hsub := sub_second (he _ hx)
    refine ⟨?_, deadline_nsec he hfit, ?_, hrawSec, rawUsec_toNat tv timeoutMs, hrawNsec, ?_⟩
    · rw [deadline_turn he hx, Timespec.InRange, toInt_toInt64 (by omega), hsub]
      omega
    · rw [deadline_turn he hx, UInt64.toUInt64_toInt64]
      exact exceeds_rest he hx (by omega)
    · exact turnsExact_turn he hx (by omega) (by omega) _
  · have hstay : exceeds (rawDeadline tv timeoutMs).tvNsec.toUInt64 = false := by
      rw [rawDeadline_tvNsec, hx]
    have hraw := deadline_stay hx
    refine ⟨?_, ?_, ?_, hrawSec, rawUsec_toNat tv timeoutMs, hrawNsec, turnsExact_of_not hstay _⟩
    · rw [hraw, Timespec.InRange, hrawNsec]
      omega
    · rw [hraw, Timespec.nsec, hrawSec, hrawNsec, Timeval.usec, usecSum]
      omega
    · rw [hraw, hstay]

/-- And only then: the loop leaves the full second, or the turn overflows. -/
theorem wellFormed_iff {tv : Timeval} {timeoutMs : UInt64}
    (hsum : tv.tvSec + timeoutMs.toNat / 1000 < 9223372036854775808) :
    WellFormed exceeds tv timeoutMs ↔
      (exceeds (rawNsec tv timeoutMs) = true ∧ tv.tvSec + timeoutMs.toNat / 1000 + 1 < 9223372036854775808) ∨
        (exceeds (rawNsec tv timeoutMs) = false ∧ usecSum tv timeoutMs < 1000000) := by
  refine ⟨fun h => ?_, wellFormed_of he hsum⟩
  by_cases hx : exceeds (rawNsec tv timeoutMs) = true
  · refine .inl ⟨hx, ?_⟩
    have hsec := rawSec_toNat hsum
    have hturn : (((UInt64.ofNat tv.tvSec + timeoutMs / 1000).toInt64 + 1).toInt : Int) =
        (UInt64.ofNat tv.tvSec + timeoutMs / 1000).toInt64.toInt + 1 := (h.turns hx).1
    rw [toInt_toInt64 (by omega), hsec] at hturn
    have hmax := Int64.toInt_lt ((UInt64.ofNat tv.tvSec + timeoutMs / 1000).toInt64 + 1)
    omega
  · have hstay : exceeds (rawNsec tv timeoutMs) = false := by simpa using hx
    refine .inr ⟨hstay, ?_⟩
    have hrange := h.inRange.2
    rw [deadline_stay hstay, h.nsec] at hrange
    unfold usecSum
    omega

end Carry

/-- The loop of `Queue_Receive` leaves a full second alone. -/
theorem queue_wellFormed_iff {tv : Timeval} {timeoutMs : UInt64}
    (hsum : tv.tvSec + timeoutMs.toNat / 1000 < 9223372036854775808) :
    WellFormed (fun nsec => nsec > oneSecInNs) tv timeoutMs ↔ usecSum tv timeoutMs ≠ 1000000 ∧
      (1000000 < usecSum tv timeoutMs → tv.tvSec + timeoutMs.toNat / 1000 + 1 < 9223372036854775808) := by
  have hexceeds : rawNsec tv timeoutMs > oneSecInNs ↔ 1000000 < usecSum tv timeoutMs := by
    rw [gt_iff_lt, UInt64.lt_iff_toNat_lt, rawNsec_eq]
    show 1000000000 < usecSum tv timeoutMs * 1000 ↔ _
    omega
  rw [wellFormed_iff exceeds_queue hsum, decide_eq_true_iff, decide_eq_false_iff_not, hexceeds]
  omega

/-- The loop of `Semaphore_Take` carries every full second. -/
theorem semaphore_wellFormed_iff {tv : Timeval} {timeoutMs : UInt64}
    (hsum : tv.tvSec + timeoutMs.toNat / 1000 < 9223372036854775808) :
    WellFormed (fun nsec => nsec ≥ oneSecInNs) tv timeoutMs ↔
      (1000000 ≤ usecSum tv timeoutMs → tv.tvSec + timeoutMs.toNat / 1000 + 1 < 9223372036854775808) := by
  have hexceeds : rawNsec tv timeoutMs ≥ oneSecInNs ↔ 1000000 ≤ usecSum tv timeoutMs := by
    rw [ge_iff_le, UInt64.le_iff_toNat_le, rawNsec_eq]
    show 1000000000 ≤ usecSum tv timeoutMs * 1000 ↔ _
    omega
  rw [wellFormed_iff exceeds_semaphore hsum, decide_eq_true_iff, decide_eq_false_iff_not, hexceeds]
  omega

/-! ## Calls that fail by their deadline -/

/-- The error number of a wait whose deadline is not in range, and of no other wait. -/
def EINVAL : Nat := 22

section Calls

variable {K : Type*} [DecidableEq K]

/-- The wait of `t` in `Queue_Receive` refuses the deadline, and the call returns `ERROR_OS`. -/
def QueueThreads.FailsByDeadline (s : QueueThreads.State K) (t : K) (w : Receiver) : Prop :=
  s.queue.cond.blockedAt t = some w ∧ ¬ w.tp.InRange ∧
    ∃ s', exec QueueThreads.step s [.wake t (.failed EINVAL), .resume t] = some s' ∧
      s'.log = s.log ++ [.received t w.message .errorOs]

/-- The wait of `t` in `Semaphore_Take` refuses the deadline, and the call returns `ERROR_OS`. -/
def SemaphoreThreads.FailsByDeadline (s : SemaphoreThreads.State K) (t : K) (k : Taker) : Prop :=
  s.sem.cond.blockedAt t = some k ∧ ¬ k.tp.InRange ∧
    ∃ s', exec SemaphoreThreads.step s [.wake t (.failed EINVAL), .resume t] = some s' ∧
      s'.log = s.log ++ [.took t .errorOs]

/-- Every wait with such a deadline ends so. -/
theorem QueueThreads.failsByDeadline_iff {s : QueueThreads.State K} (hs : s.queue.cond.Distinct) {t : K} {w : Receiver}
    (hw : s.queue.cond.blockedAt t = some w) : QueueThreads.FailsByDeadline s t w ↔ ¬ w.tp.InRange := by
  refine ⟨fun h => h.2.1, fun h => ⟨hw, h, ?_⟩⟩
  obtain ⟨d, e, hwake, hresume⟩ := hs.wake_resume hw (.failed EINVAL)
  have hret : ({ s.queue with cond := d } : Queue K).resume t =
      some ((.errorOs, w.message), { s.queue with cond := e }) := by
    simp only [Queue.resume, hresume]
  refine ⟨{ s with
    queue := { s.queue with cond := e }
    log := s.log ++ [.received t w.message .errorOs] }, ?_, rfl⟩
  simp only [exec, QueueThreads.step, hwake, hret]

theorem SemaphoreThreads.failsByDeadline_iff {s : SemaphoreThreads.State K} (hs : s.sem.cond.Distinct) {t : K}
    {k : Taker} (hk : s.sem.cond.blockedAt t = some k) :
    SemaphoreThreads.FailsByDeadline s t k ↔ ¬ k.tp.InRange := by
  refine ⟨fun h => h.2.1, fun h => ⟨hk, h, ?_⟩⟩
  obtain ⟨d, e, hwake, hresume⟩ := hs.wake_resume hk (.failed EINVAL)
  have hret : ({ s.sem with cond := d } : Semaphore K).resume t s.now =
      some (some .errorOs, { s.sem with cond := e }) := by
    simp only [Semaphore.resume, hresume]
  refine ⟨{ s with
    sem := { s.sem with cond := e }
    log := s.log ++ [.took t .errorOs] }, ?_, rfl⟩
  simp only [exec, SemaphoreThreads.step, hwake, hret]
  rfl

/-- A thread that waits in a run waits for the deadline of its call, in the queue and in the semaphore. -/
theorem QueueThreads.deadline_of_run {queueSize elementSize : Nat} {now : Timeval} {acts : List (QueueThreads.Act K)}
    {s : QueueThreads.State K} (h : exec QueueThreads.step (QueueThreads.init queueSize elementSize now) acts = some s)
    {t : K} {w : Receiver} (hw : s.queue.cond.blockedAt t = some w) : w.tp = Queue.deadline w.tv w.timeoutMs :=
  (exec_invariant
    (I := fun s : QueueThreads.State K => s.queue.cond.All fun w => w.tp = Queue.deadline w.tv w.timeoutMs)
    (fun _ _ _ hs h => QueueThreads.step_deadlines hs h) h .empty).blockedAt hw

theorem SemaphoreThreads.deadline_of_run {now : Timeval} {acts : List (SemaphoreThreads.Act K)}
    {s : SemaphoreThreads.State K} (h : exec SemaphoreThreads.step (SemaphoreThreads.init now) acts = some s)
    {t : K} {k : Taker} (hk : s.sem.cond.blockedAt t = some k) : k.tp = Semaphore.deadline k.tv k.timeoutMs :=
  (exec_invariant
    (I := fun s : SemaphoreThreads.State K => s.sem.cond.All fun k => k.tp = Semaphore.deadline k.tv k.timeoutMs)
    (fun _ _ _ hs h => SemaphoreThreads.step_deadlines hs h) h .empty).blockedAt hk

end Calls

/-! ## The two deadlines of a call -/

/-- The deadlines that the two functions compute for a clock reading and a time-out are well formed and exact,
and no call that waits for one, in any run of the threads `K`, fails by it. -/
structure DeadlinesExact (K : Type*) [DecidableEq K] (tv : Timeval) (timeoutMs : UInt64) : Prop where
  queue : WellFormed (fun nsec => nsec > oneSecInNs) tv timeoutMs
  semaphore : WellFormed (fun nsec => nsec ≥ oneSecInNs) tv timeoutMs
  receive : ∀ (queueSize elementSize : Nat) (now : Timeval) (acts : List (QueueThreads.Act K)) s t w,
    exec QueueThreads.step (QueueThreads.init queueSize elementSize now) acts = some s → w.tv = tv →
    w.timeoutMs = timeoutMs → ¬ QueueThreads.FailsByDeadline s t w
  take : ∀ (now : Timeval) (acts : List (SemaphoreThreads.Act K)) s t k,
    exec SemaphoreThreads.step (SemaphoreThreads.init now) acts = some s → k.tv = tv →
    k.timeoutMs = timeoutMs → ¬ SemaphoreThreads.FailsByDeadline s t k

/-- Where the sum of seconds fits, this is so exactly when the microseconds do not add up to one second, and a
second that is carried fits too. -/
theorem deadlines_exact_iff (K : Type*) [DecidableEq K] (tv : Timeval) (timeoutMs : UInt64)
    (hsum : tv.tvSec + timeoutMs.toNat / 1000 < 9223372036854775808) :
    DeadlinesExact K tv timeoutMs ↔ usecSum tv timeoutMs ≠ 1000000 ∧
      (1000000 < usecSum tv timeoutMs → tv.tvSec + timeoutMs.toNat / 1000 + 1 < 9223372036854775808) := by
  constructor
  · exact fun h => (queue_wellFormed_iff hsum).1 h.queue
  · intro h
    have hqueue := (queue_wellFormed_iff hsum).2 h
    have hsemaphore := (semaphore_wellFormed_iff hsum).2 fun hle => h.2 (by omega)
    refine ⟨hqueue, hsemaphore, ?_, ?_⟩
    · rintro queueSize elementSize now acts s t w hrun rfl rfl ⟨hw, hrange, -⟩
      rw [QueueThreads.deadline_of_run hrun hw] at hrange
      exact hrange hqueue.inRange
    · rintro now acts s t k hrun rfl rfl ⟨hk, hrange, -⟩
      rw [SemaphoreThreads.deadline_of_run hrun hk] at hrange
      exact hrange hsemaphore.inRange

/-- A second is carried. -/
theorem deadlines_exact_carry : DeadlinesExact Nat (.ofUsec 1700000999999) 1500 :=
  (deadlines_exact_iff Nat _ 1500 (by decide)).2 (by decide)

/-- 999 milliseconds of the clock and one of the time-out leave a full second in `tv_nsec`, and `Queue_Receive`
returns `ERROR_OS`. -/
theorem full_second_refused :
    ¬ (∀ (tv : Timeval) (timeoutMs : UInt64), tv.tvSec + timeoutMs.toNat / 1000 < 9223372036854775808 →
      DeadlinesExact Nat tv timeoutMs) ∧
      ∃ s w, exec QueueThreads.step (QueueThreads.init 1 1 (.ofUsec 999000)) [.receive 0 [0] 1] = some s ∧
        QueueThreads.FailsByDeadline s 0 w := by
  constructor
  · intro h
    have hexact := h (.ofUsec 999000) 1 (by decide)
    exact absurd hexact.queue.inRange (by decide)
  · refine ⟨_, _, rfl, (QueueThreads.failsByDeadline_iff ?_ rfl).2 (by decide)⟩
    exact Waiters.Distinct.empty.wait rfl _

end InfoWorkshop.Posix
