/-
What `ERROR_TIMEOUT` of `Queue_Receive` says. A wait that times out is over before the thread has the
mutex again, and then the queue is not looked at; a wait that ends without a message is not resumed.
-/
import InfoWorkshop.Posix.Deadline
import InfoWorkshop.Posix.QueueThreads

namespace InfoWorkshop.Posix.QueueThreads

open InfoWorkshop.Core InfoWorkshop.Memory InfoWorkshop.CondVar InfoWorkshop.Steps

variable {K : Type*} [DecidableEq K]

/-! ## The calls that return `ERROR_TIMEOUT` -/

/-- In the step `a` a `Queue_Receive` of thread `t` returns `error`. -/
def Returns (s : State K) (a : Act K) (t : K) (error : ErrorCode) : Prop :=
  ∃ s' message, step s a = some s' ∧ s'.log = s.log ++ [.received t message error]

/-- A call that times out has waited: its wait timed out, or returned 0 to an empty queue. -/
theorem returns_timeout_iff {s : State K} {a : Act K} {t : K} :
    Returns s a t .errorTimeout ↔ a = .resume t ∧ ∃ w r c, s.queue.cond.resume t = some (w, r, c) ∧
      (r = .timedOut ∨ r = .ok ∧ s.queue.nElements = 0) := by
  constructor
  · rintro ⟨s', m, h, hlog⟩
    cases a with
    | send t' m' pick =>
      obtain ⟨-, -, rfl⟩ := step_send h
      simp at hlog
    | sendUnlocked t' m' =>
      obtain rfl := step_sendUnlocked h
      simp at hlog
    | receive t' m' timeoutMs =>
      obtain ⟨-, -, ⟨-, rfl⟩ | ⟨hn, rfl⟩⟩ := step_receive h
      · simp at hlog
      · rcases s.queue.take_cases m' with ⟨h0, -⟩ | ⟨-, ht⟩
        · exact absurd h0 hn
        · rw [ht] at hlog
          simp at hlog
    | receiveUnlocked t' m' =>
      obtain rfl := step_receiveUnlocked h
      simp at hlog
    | wake t' r =>
      obtain ⟨cond, -, rfl⟩ := step_wake h
      simp at hlog
    | resume t' =>
      obtain ⟨⟨e, m'⟩, q, hr, rfl⟩ := step_resume h
      obtain ⟨w, res, c, hc, hx⟩ := Queue.resume_cases hr
      obtain ⟨rfl, rfl, rfl⟩ : t' = t ∧ m' = m ∧ e = .errorTimeout := by simpa using hlog
      refine ⟨rfl, w, res, c, hc, ?_⟩
      rcases hx with ⟨rfl, hret, -⟩ | ⟨rfl, -, -⟩ | ⟨-, hret, -⟩
      · rcases ({ s.queue with cond := c } : Queue K).take_cases w.message with ⟨h0, -⟩ | ⟨-, ht⟩
        · exact .inr ⟨rfl, h0⟩
        · rw [ht] at hret
          cases hret
      · exact .inl rfl
      · cases hret
    | clock tv =>
      cases h
      simp at hlog
  · rintro ⟨rfl, w, r, c, hc, hx⟩
    have hr : s.queue.resume t = some ((.errorTimeout, w.message), { s.queue with cond := c }) := by
      rcases hx with rfl | ⟨rfl, h0⟩
      · simp only [Queue.resume, hc]
      · have htake : ({ s.queue with cond := c } : Queue K).take w.message =
            ((.errorTimeout, w.message), { s.queue with cond := c }) := if_pos h0
        simp only [Queue.resume, hc, htake]
    exact ⟨{ s with
      queue := { s.queue with cond := c }
      log := s.log ++ [.received t w.message .errorTimeout] }, w.message, by simp only [step, hr], rfl⟩

/-- A property of the waiting threads that starting to wait, signalling and the ends of a wait keep holds
after a step. -/
theorem step_waiters {J : Waiters K Receiver → Prop}
    (hwait : ∀ c t m timeoutMs tv, J c → c.waiting t = false →
      J (c.wait t ⟨m, timeoutMs, tv, Queue.deadline tv timeoutMs⟩))
    (hsignal : ∀ c pick, J c → J (c.signal pick)) (hwake : ∀ c d t r, J c → c.wake t r = some d → J d)
    (hresume : ∀ c d t w r, J c → c.resume t = some (w, r, d) → J d) {s s' : State K} {a : Act K}
    (hs : J s.queue.cond) (h : step s a = some s') : J s'.queue.cond := by
  cases a with
  | send t m pick =>
    obtain ⟨-, -, rfl⟩ := step_send h
    rcases s.queue.send_cases m pick with ⟨-, hq⟩ | ⟨-, hq⟩
    · rw [hq]; exact hs
    · rw [hq]
      show J (if s.queue.nElements = 0 then s.queue.cond.signal pick else s.queue.cond)
      split
      · exact hsignal _ pick hs
      · exact hs
  | sendUnlocked t m =>
    obtain rfl := step_sendUnlocked h
    exact hs
  | receive t m timeoutMs =>
    obtain ⟨hw, -, ⟨-, rfl⟩ | ⟨-, rfl⟩⟩ := step_receive h
    · exact hwait _ t m timeoutMs s.now hs hw
    · show J (s.queue.take m).2.cond
      rw [Queue.take_cond]
      exact hs
  | receiveUnlocked t m =>
    obtain rfl := step_receiveUnlocked h
    exact hs
  | wake t r =>
    obtain ⟨cond, hcond, rfl⟩ := step_wake h
    exact hwake _ _ t r hs hcond
  | resume t =>
    obtain ⟨ret, q, hr, rfl⟩ := step_resume h
    obtain ⟨w, res, c, hc, ⟨-, -, rfl⟩ | ⟨-, -, rfl⟩ | ⟨-, -, rfl⟩⟩ := Queue.resume_cases hr
    · show J (({ s.queue with cond := c } : Queue K).take w.message).2.cond
      rw [Queue.take_cond]
      exact hresume _ _ t w res hs hc
    · exact hresume _ _ t w res hs hc
    · exact hresume _ _ t w res hs hc
  | clock tv =>
    cases h
    exact hs

/-- Between two steps no thread is inside two waits. -/
theorem step_distinct {s s' : State K} {a : Act K} (hs : s.queue.cond.Distinct) (h : step s a = some s') :
    s'.queue.cond.Distinct :=
  step_waiters (J := Waiters.Distinct) (fun _ _ _ _ _ hc hw => hc.wait hw _) (fun _ pick hc => hc.signal pick)
    (fun _ _ _ _ hc hw => hc.wake hw) (fun _ _ _ _ _ hc hr => hc.resume hr) hs h

/-! ## An empty queue at a time-out -/

/-- Whichever call returns `ERROR_TIMEOUT` next, the queue is empty in its final section. -/
def TimeoutsHonest (s : State K) : Prop := ∀ a t, Returns s a t .errorTimeout → s.queue.nElements = 0

/-- No message is stored between the time-out of a wait and the return from it, and no wait times out while
a message is there. -/
def NothingSlipsIn (s : State K) : Act K → Prop
  | .send _ _ _ => s.queue.nElements ≠ s.queue.size → s.queue.cond.AwakeAll fun _ r => r ≠ .timedOut
  | .wake _ r => r = .timedOut → s.queue.nElements = 0
  | _ => True

/-- The waits that have timed out find an empty queue. -/
abbrev PendingEmpty (q : Queue K) : Prop := q.cond.AwakeAll fun _ r => r = .timedOut → q.nElements = 0

theorem timeoutsHonest_iff {s : State K} (hs : s.queue.cond.Distinct) : TimeoutsHonest s ↔ PendingEmpty s.queue := by
  unfold TimeoutsHonest PendingEmpty
  rw [hs.awakeAll_iff]
  constructor
  · intro h t w r d hr htimed
    exact h (.resume t) t (returns_timeout_iff.2 ⟨rfl, w, r, d, hr, .inl htimed⟩)
  · intro h a t hret
    obtain ⟨-, w, r, c, hc, hr | ⟨-, h0⟩⟩ := returns_timeout_iff.1 hret
    · exact h t w r c hc hr
    · exact h0

/-- A step keeps the pending time-outs right exactly when nothing slips in. -/
theorem step_pendingEmpty {s s' : State K} {a : Act K} (hs : PendingEmpty s.queue) (h : step s a = some s') :
    PendingEmpty s'.queue ↔ NothingSlipsIn s a := by
  cases a with
  | send t m pick =>
    obtain ⟨-, -, rfl⟩ := step_send h
    rcases s.queue.send_cases m pick with ⟨hn, hq⟩ | ⟨hn, hq⟩
    · rw [hq]
      exact iff_of_true hs fun hne => absurd hn hne
    · -- the queue is not empty afterwards, and a signal wakes no time-out
      have hcond : (if s.queue.nElements = 0 then s.queue.cond.signal pick else s.queue.cond).AwakeAll
          (fun _ r => r ≠ .timedOut) ↔ s.queue.cond.AwakeAll fun _ r => r ≠ .timedOut := by
        split
        · exact Waiters.awakeAll_signal (by simp) pick
        · exact Iff.rfl
      rw [hq]
      refine ⟨fun h _ => hcond.1 fun t w r hm hr => ?_, fun h t w r hm hr => absurd hr (hcond.2 (h hn) t w r hm)⟩
      have h0 : (s.queue.put m).nElements = 0 := h t w r hm hr
      rw [Queue.put_nElements] at h0
      omega
  | sendUnlocked t m =>
    obtain rfl := step_sendUnlocked h
    exact iff_of_true hs trivial
  | receive t m timeoutMs =>
    obtain ⟨hw, -, ⟨-, rfl⟩ | ⟨hn, rfl⟩⟩ := step_receive h
    · exact iff_of_true hs trivial
    · refine iff_of_true (fun t w r hm hr => ?_) trivial
      rw [Queue.take_cond] at hm
      exact absurd (hs t w r hm hr) hn
  | receiveUnlocked t m =>
    obtain rfl := step_receiveUnlocked h
    exact iff_of_true hs trivial
  | wake t r =>
    obtain ⟨cond, hcond, rfl⟩ := step_wake h
    obtain ⟨w, -, hiff⟩ := Waiters.awakeAll_wake (Q := fun _ r => r = .timedOut → s.queue.nElements = 0) hcond
    exact hiff.trans (and_iff_right hs)
  | resume t =>
    obtain ⟨ret, q, hr, rfl⟩ := step_resume h
    obtain ⟨w, res, c, hc, hx⟩ := Queue.resume_cases hr
    have hrest := ((Waiters.awakeAll_resume hc).1 hs).2
    refine iff_of_true ?_ trivial
    rcases hx with ⟨-, -, rfl⟩ | ⟨-, -, rfl⟩ | ⟨-, -, rfl⟩
    · intro t w r hm hr
      rw [Queue.take_cond] at hm
      rw [Queue.take_nElements, hrest t w r hm hr]
    · exact hrest
    · exact hrest
  | clock tv =>
    cases h
    exact iff_of_true hs trivial

/-- In a run every time-out finds the queue empty exactly when nothing slips in. -/
theorem timeoutsHonest_iff_nothingSlipsIn (queueSize elementSize : Nat) (now : Timeval) (acts : List (Act K)) :
    Always step TimeoutsHonest (init queueSize elementSize now) acts ↔
      Meets step NothingSlipsIn (init queueSize elementSize now) acts := by
  have hinit : (init queueSize elementSize now : State K).queue.cond.Distinct := .empty
  refine always_iff_meets_of (I := fun s => s.queue.cond.Distinct) (fun _ _ _ hs _ h => step_distinct hs h)
    ?_ hinit ((timeoutsHonest_iff hinit).2 fun t w r hm => absurd hm List.not_mem_nil) (meets_true _ _)
  intro s a t hs hp _ h
  rw [timeoutsHonest_iff (step_distinct hs h)]
  exact step_pendingEmpty ((timeoutsHonest_iff hs).1 hp) h

/-- A receiver whose wait has timed out gets the mutex after a sender. -/
def slippedIn : List (Act Nat) :=
  [.receive 0 [0] 5, .clock (.ofUsec 5000), .wake 0 .timedOut, .send 1 [7] 0]

theorem message_at_timeout : ¬ Always step TimeoutsHonest (init 1 1 (.ofUsec 0)) slippedIn := by
  obtain ⟨s, hs⟩ := Option.isSome_iff_exists.1
    (show (exec step (init 1 1 (.ofUsec 0)) slippedIn).isSome = true by decide)
  have hstate : (exec step (init 1 1 (.ofUsec 0)) slippedIn).map (fun s =>
      (s.queue.nElements, (s.queue.cond.resume 0).map fun x => x.2.1)) = some (1, some .timedOut) := by decide
  rw [hs, Option.map_some, Option.some.injEq, Prod.mk.injEq] at hstate
  obtain ⟨⟨w, r, c⟩, hc, hr⟩ := Option.map_eq_some_iff.1 hstate.2
  intro h
  have hempty := always_last h hs (.resume 0) 0 (returns_timeout_iff.2 ⟨rfl, w, r, c, hc, .inl hr⟩)
  rw [hstate.1] at hempty
  cases hempty

/-! ## The whole time-out -/

/-- The clock never goes back, and a wait times out at its deadline or later. -/
def Clocked (s : State K) : Act K → Prop
  | .clock tv => s.now.usec ≤ tv.usec
  | .wake t r => r = .timedOut → ∀ w ∈ s.queue.cond.blockedAt t, w.tp.Reached s.now
  | _ => True

instance (s : State K) : ∀ a, Decidable (Clocked s a)
  | .clock tv => inferInstanceAs (Decidable (s.now.usec ≤ tv.usec))
  | .wake t r => inferInstanceAs (Decidable (r = .timedOut → ∀ w ∈ s.queue.cond.blockedAt t, w.tp.Reached s.now))
  | .send .. | .sendUnlocked .. | .receive .. | .receiveUnlocked .. | .resume .. => .isTrue trivial

/-- Whichever call returns `ERROR_TIMEOUT` next, its time-out has passed since its clock reading. -/
def WaitsFull (s : State K) : Prop :=
  ∀ a t, Returns s a t .errorTimeout →
    ∃ w r c, s.queue.cond.resume t = some (w, r, c) ∧ Elapsed w.tv w.timeoutMs s.now

/-- The woken receivers of the queue have waited long enough. -/
abbrev WokenElapsed (c : Waiters K Receiver) (now : Timeval) : Prop :=
  c.AwakeAll fun w r => r = .ok → Elapsed w.tv w.timeoutMs now

/-- No receiver with time left is woken spuriously while the queue is empty, or has the last message taken
away after it has been woken; and its deadline fits. -/
def Undisturbed (s : State K) : Act K → Prop
  | .receive _ _ _ => s.queue.nElements = 1 → WokenElapsed s.queue.cond s.now
  | .wake t r => ∀ w ∈ s.queue.cond.blockedAt t, ¬ Elapsed w.tv w.timeoutMs s.now →
      (r = .ok → s.queue.nElements ≠ 0) ∧ (r = .timedOut → DeadlineFits w.tv w.timeoutMs)
  | .resume t => s.queue.nElements = 1 → ∀ x ∈ s.queue.cond.resume t, x.2.1 = .ok → WokenElapsed x.2.2 s.now
  | _ => True

instance (s : State K) : ∀ a, Decidable (Undisturbed s a)
  | .receive .. => inferInstanceAs (Decidable (_ = 1 → WokenElapsed _ _))
  | .wake t r => inferInstanceAs (Decidable (∀ w ∈ s.queue.cond.blockedAt t, ¬ Elapsed w.tv w.timeoutMs s.now →
      (r = .ok → s.queue.nElements ≠ 0) ∧ (r = .timedOut → DeadlineFits w.tv w.timeoutMs)))
  | .resume t => inferInstanceAs (Decidable (_ = 1 → ∀ x ∈ s.queue.cond.resume t, x.2.1 = .ok →
      WokenElapsed x.2.2 s.now))
  | .send .. | .sendUnlocked .. | .receiveUnlocked .. | .clock .. => .isTrue trivial

/-- The waits that will return `ERROR_TIMEOUT`, with `n` messages in the queue, have been long enough. -/
abbrev PendingElapsed (c : Waiters K Receiver) (n : Nat) (now : Timeval) : Prop :=
  c.AwakeAll fun w r => r = .timedOut ∨ r = .ok ∧ n = 0 → Elapsed w.tv w.timeoutMs now

theorem waitsFull_iff {s : State K} (hs : s.queue.cond.Distinct) :
    WaitsFull s ↔ PendingElapsed s.queue.cond s.queue.nElements s.now := by
  unfold WaitsFull PendingElapsed
  rw [hs.awakeAll_iff]
  constructor
  · intro h t w r d hr hx
    obtain ⟨w', r', c', hr', helapsed⟩ := h (.resume t) t (returns_timeout_iff.2 ⟨rfl, w, r, d, hr, hx⟩)
    rw [hr] at hr'
    cases hr'
    exact helapsed
  · intro h a t hret
    obtain ⟨-, w, r, c, hc, hx⟩ := returns_timeout_iff.1 hret
    exact ⟨w, r, c, hc, h t w r c hc hx⟩

omit [DecidableEq K] in
/-- A message that is taken matters when it was the last one. -/
theorem pendingElapsed_take {c : Waiters K Receiver} {n : Nat} {now : Timeval} (h : PendingElapsed c n now) :
    PendingElapsed c (n - 1) now ↔ (n = 1 → WokenElapsed c now) := by
  constructor
  · intro h' hn t w r hm hr
    exact h' t w r hm (.inr ⟨hr, by omega⟩)
  · rintro h' t w r hm (hr | ⟨hr, hn⟩)
    · exact h t w r hm (.inl hr)
    · by_cases h0 : n = 0
      · exact h t w r hm (.inr ⟨hr, h0⟩)
      · exact h' (by omega) t w r hm hr

/-- A step keeps the pending time-outs long enough exactly when it disturbs no wait. -/
theorem step_pendingElapsed {s s' : State K} {a : Act K}
    (hI : s.queue.cond.All fun w => w.tp = Queue.deadline w.tv w.timeoutMs)
    (hs : PendingElapsed s.queue.cond s.queue.nElements s.now) (hclock : Clocked s a) (h : step s a = some s') :
    PendingElapsed s'.queue.cond s'.queue.nElements s'.now ↔ Undisturbed s a := by
  cases a with
  | send t m pick =>
    obtain ⟨-, -, rfl⟩ := step_send h
    refine iff_of_true ?_ trivial
    rcases s.queue.send_cases m pick with ⟨-, hq⟩ | ⟨-, hq⟩
    · rw [hq]
      exact hs
    · -- a woken receiver has a message now
      have hmore : PendingElapsed s.queue.cond (s.queue.put m).nElements s.now := by
        rintro t w r hm (hr | ⟨-, hn⟩)
        · exact hs t w r hm (.inl hr)
        · rw [Queue.put_nElements] at hn
          omega
      rw [hq]
      show PendingElapsed (if s.queue.nElements = 0 then s.queue.cond.signal pick else s.queue.cond) _ _
      split
      · refine (Waiters.awakeAll_signal (fun w hx => ?_) pick).2 hmore
        rw [Queue.put_nElements] at hx
        rcases hx with hx | ⟨-, hx⟩
        · cases hx
        · omega
      · exact hmore
  | sendUnlocked t m =>
    obtain rfl := step_sendUnlocked h
    exact iff_of_true hs trivial
  | receive t m timeoutMs =>
    obtain ⟨hw, -, ⟨hn, rfl⟩ | ⟨hn, rfl⟩⟩ := step_receive h
    · exact iff_of_true hs fun hone => absurd (hn.symm.trans hone) (by decide)
    · show PendingElapsed (s.queue.take m).2.cond (s.queue.take m).2.nElements s.now ↔ _
      rw [Queue.take_cond, Queue.take_nElements]
      exact pendingElapsed_take hs
  | receiveUnlocked t m =>
    obtain rfl := step_receiveUnlocked h
    exact iff_of_true hs trivial
  | wake t r =>
    obtain ⟨cond, hcond, rfl⟩ := step_wake h
    obtain ⟨w, hw, hiff⟩ := Waiters.awakeAll_wake (Q := fun w r =>
      r = .timedOut ∨ r = .ok ∧ s.queue.nElements = 0 → Elapsed w.tv w.timeoutMs s.now) hcond
    refine (hiff.trans (and_iff_right hs)).trans ⟨fun hq w' hw' hleft => ?_, fun hd hx => ?_⟩
    · obtain rfl : w = w' := Option.some.inj (hw.symm.trans hw')
      exact ⟨fun hr h0 => hleft (hq (.inr ⟨hr, h0⟩)), fun hr => absurd (hq (.inl hr)) hleft⟩
    · by_contra hleft
      obtain ⟨hmessage, hfits⟩ := hd w hw hleft
      rcases hx with hr | ⟨hr, h0⟩
      · -- the deadline is the time-out after the clock reading, and has been reached
        have hreached := hclock hr w hw
        rw [hI.blockedAt hw] at hreached
        exact hleft (elapsed_of_reached exceeds_queue (hfits hr) hreached)
      · exact hmessage hr h0
  | resume t =>
    obtain ⟨ret, q, hr, rfl⟩ := step_resume h
    obtain ⟨w, res, c, hc, hx⟩ := Queue.resume_cases hr
    have hrest : PendingElapsed c s.queue.nElements s.now := ((Waiters.awakeAll_resume hc).1 hs).2
    have hother : res ≠ .ok → Undisturbed s (.resume t) := by
      intro hres _ x hx hok
      cases hc.symm.trans hx
      exact absurd hok hres
    rcases hx with ⟨rfl, -, rfl⟩ | ⟨rfl, -, rfl⟩ | ⟨⟨errno, rfl⟩, -, rfl⟩
    · show PendingElapsed (({ s.queue with cond := c } : Queue K).take w.message).2.cond
        (({ s.queue with cond := c } : Queue K).take w.message).2.nElements s.now ↔ _
      rw [Queue.take_cond, Queue.take_nElements]
      refine (pendingElapsed_take hrest).trans ⟨fun hd hn x hx _ => ?_, fun hd hn => hd hn (w, .ok, c) hc rfl⟩
      cases hc.symm.trans hx
      exact hd hn
    · exact iff_of_true hrest (hother (by simp))
    · exact iff_of_true hrest (hother (by simp))
  | clock tv =>
    cases h
    exact iff_of_true (fun t w r hm hx => (hs t w r hm hx).mono hclock) trivial

/-- Who waits keeps the deadline of its call. -/
theorem step_deadlines {s s' : State K} {a : Act K}
    (hs : s.queue.cond.All fun w => w.tp = Queue.deadline w.tv w.timeoutMs) (h : step s a = some s') :
    s'.queue.cond.All fun w => w.tp = Queue.deadline w.tv w.timeoutMs :=
  step_waiters (J := Waiters.All fun w => w.tp = Queue.deadline w.tv w.timeoutMs) (fun _ _ _ _ _ hc _ => hc.wait rfl)
    (fun _ pick hc => hc.signal pick) (fun _ _ _ _ hc hw => hc.wake hw) (fun _ _ _ _ _ hc hr => (hc.resume hr).2) hs h

/-- In a run with a clock every `ERROR_TIMEOUT` comes after the whole time-out exactly when no wait is
disturbed. -/
theorem waitsFull_iff_undisturbed (queueSize elementSize : Nat) (now : Timeval) (acts : List (Act K))
    (hclock : Meets step Clocked (init queueSize elementSize now) acts) :
    Always step WaitsFull (init queueSize elementSize now) acts ↔
      Meets step Undisturbed (init queueSize elementSize now) acts := by
  have hdistinct : (init queueSize elementSize now : State K).queue.cond.Distinct := .empty
  refine always_iff_meets_of (I := fun s => s.queue.cond.Distinct ∧
    s.queue.cond.All fun w => w.tp = Queue.deadline w.tv w.timeoutMs) ?_ ?_ ⟨hdistinct, .empty⟩
    ((waitsFull_iff hdistinct).2 fun t w r hm => absurd hm List.not_mem_nil) hclock
  · rintro s a t ⟨hd, hall⟩ - h
    exact ⟨step_distinct hd h, step_deadlines hall h⟩
  · rintro s a t ⟨hd, hall⟩ hp hc h
    rw [waitsFull_iff (step_distinct hd h)]
    exact step_pendingElapsed hall ((waitsFull_iff hd).1 hp) hc h

/-- A receiver waits five milliseconds on an empty queue. -/
def patientRun : List (Act Nat) :=
  [.receive 0 [0] 5, .clock (.ofUsec 5000), .wake 0 .timedOut, .resume 0]

theorem waitsFull_iff_undisturbed_patientRun : Always step WaitsFull (init 1 1 (.ofUsec 0)) patientRun :=
  (waitsFull_iff_undisturbed 1 1 _ patientRun (by decide)).2 (by decide)

/-- A receiver is woken spuriously at once, and its call returns `ERROR_TIMEOUT`. -/
theorem spurious_wakeup_times_out :
    Meets step Clocked (init 1 1 (.ofUsec 0)) [Act.receive 0 [0] 5, Act.wake 0 .ok] ∧
      ¬ Always step WaitsFull (init 1 1 (.ofUsec 0)) [Act.receive 0 [0] 5, Act.wake 0 .ok] := by
  refine ⟨by decide, fun h => ?_⟩
  obtain ⟨s, hs⟩ := Option.isSome_iff_exists.1
    (show (exec step (init 1 1 (.ofUsec 0)) [Act.receive 0 [0] 5, Act.wake 0 .ok]).isSome = true by decide)
  have hstate : (exec step (init 1 1 (.ofUsec 0)) [Act.receive 0 [0] 5, Act.wake 0 .ok]).map (fun s =>
      (s.queue.nElements, (s.queue.cond.resume 0).map fun x =>
        (x.2.1, decide (Elapsed x.1.tv x.1.timeoutMs s.now)))) = some (0, some (.ok, false)) := by decide
  rw [hs, Option.map_some, Option.some.injEq, Prod.mk.injEq] at hstate
  obtain ⟨⟨w, r, c⟩, hc, hr⟩ := Option.map_eq_some_iff.1 hstate.2
  obtain ⟨rfl, hleft⟩ := Prod.mk.inj hr
  obtain ⟨w', r', c', hc', helapsed⟩ := always_last h hs (.resume 0) 0
    (returns_timeout_iff.2 ⟨rfl, w, .ok, c, hc, .inr ⟨rfl, hstate.1⟩⟩)
  cases hc.symm.trans hc'
  exact of_decide_eq_false hleft helapsed

end InfoWorkshop.Posix.QueueThreads
