/-
Any number of threads calling `Semaphore_Take` and `Semaphore_Give` on one semaphore created by
`Semaphore_New`: it is a binary token, and no wake-up is lost.
-/
import InfoWorkshop.Lib.Steps
import InfoWorkshop.Posix.Semaphore

namespace InfoWorkshop.Posix.SemaphoreThreads

open InfoWorkshop.Core InfoWorkshop.CondVar InfoWorkshop.Steps

variable {K : Type*}

/-- A call that has returned; a `Semaphore_Give` with whether it found the semaphore locked. -/
inductive Ret (K : Type*)
  | took (t : K) (error : ErrorCode)
  | gave (t : K) (found : Bool) (error : ErrorCode)
  deriving DecidableEq, Repr

/-- The semaphore, the time of day, and the calls that have returned, oldest first. -/
structure State (K : Type*) where
  sem : Semaphore K
  now : Timeval
  log : List (Ret K)
  deriving DecidableEq, Repr

/-- The steps. In a `take` the clock reads `later` in the test of the loop; a `wake` ends a wait
spuriously, by time-out or with an error. -/
inductive Act (K : Type*)
  | take (t : K) (timeoutMs : UInt64) (later : Timeval)
  | give (t : K) (pick : Nat)
  | wake (t : K) (r : WaitResult)
  | resume (t : K)
  | clock (tv : Timeval)
  deriving DecidableEq, Repr

/-- After a successful `Semaphore_New()`. -/
def init (now : Timeval) : State K := ⟨⟨true, .empty⟩, now, []⟩

/-- The state after a section of `Semaphore_Take` by `t`. -/
def State.took (s : State K) (t : K) : Option ErrorCode × Semaphore K → State K
  | (none, sem) => { s with sem }
  | (some error, sem) => { s with sem, log := s.log ++ [.took t error] }

variable [DecidableEq K]

/-- One step. A thread inside a wait makes no other call. -/
def step (s : State K) : Act K → Option (State K)
  | .take t timeoutMs later =>
    if s.sem.cond.waiting t = true then none
    else some ({ s with now := later }.took t (s.sem.take t timeoutMs s.now later))
  | .give t pick =>
    if s.sem.cond.waiting t = true then none
    else
      let (error, sem) := s.sem.give pick
      some { s with sem, log := s.log ++ [.gave t s.sem.locked error] }
  | .wake t r =>
    match s.sem.cond.wake t r with
    | none => none
    | some cond => some { s with sem := { s.sem with cond } }
  | .resume t =>
    match s.sem.resume t s.now with
    | none => none
    | some ret => some (s.took t ret)
  | .clock tv => some { s with now := tv }

/-! ## What a step can do -/

theorem step_take {s s' : State K} {t : K} {timeoutMs : UInt64} {later : Timeval}
    (h : step s (.take t timeoutMs later) = some s') :
    s.sem.cond.waiting t = false ∧
      s' = { s with now := later }.took t (s.sem.loop t timeoutMs s.now later) := by
  simp only [step] at h
  split at h
  · cases h
  · rename_i hw
    cases h
    exact ⟨by simpa using hw, rfl⟩

theorem step_give {s s' : State K} {t : K} {pick : Nat} (h : step s (.give t pick) = some s') :
    s.sem.cond.waiting t = false ∧ s' = { s with
      sem := (s.sem.give pick).2
      log := s.log ++ [.gave t s.sem.locked (s.sem.give pick).1] } := by
  simp only [step] at h
  split at h
  · cases h
  · rename_i hw
    cases h
    exact ⟨by simpa using hw, rfl⟩

theorem step_wake {s s' : State K} {t : K} {r : WaitResult} (h : step s (.wake t r) = some s') :
    ∃ cond, s.sem.cond.wake t r = some cond ∧ s' = { s with sem := { s.sem with cond } } := by
  simp only [step] at h
  split at h
  · cases h
  · rename_i cond hcond
    cases h
    exact ⟨cond, hcond, rfl⟩

theorem step_resume {s s' : State K} {t : K} (h : step s (.resume t) = some s') :
    ∃ ret, s.sem.resume t s.now = some ret ∧ s' = s.took t ret := by
  simp only [step] at h
  split at h
  · cases h
  · rename_i ret hr
    cases h
    exact ⟨ret, hr, rfl⟩

/-! ## The binary token -/

/-- The specification: what a returned call does to a token, `none` where a token does not return
that result. The token is taken by a successful `Semaphore_Take`, put back by a `Semaphore_Give` that
finds it taken, and left alone by every other call. -/
def Ret.onToken (taken : Bool) : Ret K → Option Bool
  | .took _ .success => if taken then none else some true
  | .took _ _ => some taken
  | .gave _ found _ => if found = taken then some false else none

omit [DecidableEq K] in
theorem onToken_failed {taken : Bool} {t : K} {e : ErrorCode} (he : e ≠ .success) :
    (Ret.took t e).onToken taken = some taken := by
  cases e <;> first | rfl | exact absurd rfl he

omit [DecidableEq K] in
/-- A pass through the test of the loop returns what the token returns, if it returns. -/
theorem loop_onToken (s : State K) (sem : Semaphore K) (hl : sem.locked = s.sem.locked) (t : K)
    (timeoutMs : UInt64) (tv now : Timeval) :
    ((s.took t (sem.loop t timeoutMs tv now)).log = s.log ∧
      (s.took t (sem.loop t timeoutMs tv now)).sem.locked = s.sem.locked) ∨
    ∃ r, (s.took t (sem.loop t timeoutMs tv now)).log = s.log ++ [r] ∧
      r.onToken s.sem.locked = some (s.took t (sem.loop t timeoutMs tv now)).sem.locked := by
  rcases sem.loop_cases t timeoutMs tv now with ⟨-, k, h⟩ | ⟨hfree, h⟩ | ⟨-, h⟩
  · rw [h]; exact .inl ⟨rfl, hl⟩
  · rw [h, ← hl, hfree]; exact .inr ⟨_, rfl, rfl⟩
  · rw [h, ← hl]; exact .inr ⟨_, rfl, rfl⟩

/-- One step: the semaphore follows the token on the call that returns, if one does. -/
theorem step_onToken {s s' : State K} {a : Act K} (h : step s a = some s') :
    (s'.log = s.log ∧ s'.sem.locked = s.sem.locked) ∨
    ∃ r, s'.log = s.log ++ [r] ∧ r.onToken s.sem.locked = some s'.sem.locked := by
  cases a with
  | take t timeoutMs later =>
    obtain ⟨-, rfl⟩ := step_take h
    exact loop_onToken { s with now := later } s.sem rfl t timeoutMs s.now later
  | give t pick =>
    obtain ⟨-, rfl⟩ := step_give h
    refine .inr ⟨_, rfl, ?_⟩
    cases hl : s.sem.locked with
    | false => rw [Semaphore.give_of_free hl, hl]; rfl
    | true => rw [Semaphore.give_of_locked hl]; rfl
  | wake t r =>
    obtain ⟨cond, -, rfl⟩ := step_wake h
    exact .inl ⟨rfl, rfl⟩
  | resume t =>
    obtain ⟨ret, hr, rfl⟩ := step_resume h
    obtain ⟨k, res, c, hc, ⟨-, rfl⟩ | ⟨-, e, he, rfl⟩⟩ := Semaphore.resume_cases hr
    · exact loop_onToken s { s.sem with cond := c } rfl t k.timeoutMs k.tv s.now
    · -- a wait that ended with an error leaves the token alone
      exact .inr ⟨_, rfl, onToken_failed he⟩
  | clock tv => cases h; exact .inl ⟨rfl, rfl⟩

/-- After a run, the calls that have returned are a run of the token, to the state of the semaphore. -/
theorem exec_onToken {now : Timeval} {acts : List (Act K)} {s : State K}
    (h : exec step (init now) acts = some s) : exec Ret.onToken true s.log = some s.sem.locked := by
  refine exec_invariant (I := fun s => exec Ret.onToken true s.log = some s.sem.locked) ?_ h rfl
  intro s a t hI hs
  rcases step_onToken hs with ⟨hlog, hl⟩ | ⟨r, hlog, hr⟩
  · rw [hlog, hl]; exact hI
  · rw [hlog]; exact exec_snoc hI hr

/-! ## Conservation -/

def Ret.isTake : Ret K → Bool
  | .took _ .success => true
  | _ => false

def Ret.isPut : Ret K → Bool
  | .gave _ true _ => true
  | _ => false

/-- The successful `Semaphore_Take` calls. -/
def takes (log : List (Ret K)) : Nat := log.countP Ret.isTake

/-- The `Semaphore_Give` calls that found the semaphore locked. -/
def puts (log : List (Ret K)) : Nat := log.countP Ret.isPut

def available (taken : Bool) : Nat := if taken then 0 else 1

omit [DecidableEq K] in
theorem onToken_conserves {a b : Bool} {r : Ret K} (h : r.onToken a = some b) :
    takes [r] + available b = puts [r] + available a := by
  cases r with
  | took t e =>
    by_cases he : e = .success
    · subst he
      cases a <;> simp [Ret.onToken] at h
      subst h; rfl
    · rw [onToken_failed he] at h
      cases h
      cases e <;> first | rfl | exact absurd rfl he
  | gave t found e =>
    simp only [Ret.onToken] at h
    split at h
    · rename_i hf
      cases h; subst hf
      cases found <;> rfl
    · cases h

omit [DecidableEq K] in
/-- Along a run of the token: tokens taken and available are the tokens put and available before. -/
theorem log_conserves {a b : Bool} {log : List (Ret K)} (h : exec Ret.onToken a log = some b) :
    takes log + available b = puts log + available a := by
  induction log generalizing a with
  | nil => cases h; rfl
  | cons r log ih =>
    obtain ⟨c, hr, hlog⟩ := exec_cons_some h
    have h1 := onToken_conserves hr
    have h2 := ih hlog
    simp only [takes, puts, List.countP_cons, List.countP_nil] at h1 h2 ⊢
    omega

omit [DecidableEq K] in
/-- Between two successful takes some give finds the semaphore locked. -/
theorem put_between {a b : Bool} {l₁ l₂ l₃ : List (Ret K)} {t u : K}
    (h : exec Ret.onToken a (l₁ ++ .took t .success :: l₂ ++ .took u .success :: l₃) = some b) :
    ∃ r ∈ l₂, r.isPut = true := by
  rw [List.append_assoc] at h
  obtain ⟨c, -, h⟩ := exec_append_some h
  obtain ⟨d, hd, h⟩ := exec_cons_some (show exec Ret.onToken c (_ :: (l₂ ++ _)) = some b from h)
  obtain ⟨e, he, h⟩ := exec_append_some h
  obtain ⟨f, hf, -⟩ := exec_cons_some h
  have hdtrue : d = true := by cases c <;> simp [Ret.onToken] at hd; exact hd
  have hefalse : e = false := by cases e <;> simp [Ret.onToken] at hf; rfl
  have hcount := log_conserves he
  subst hdtrue hefalse
  have hpos : 0 < puts l₂ := by simp [available] at hcount; omega
  exact List.countP_pos_iff.1 hpos

/-- What the threads can rely on: tokens are neither created nor lost. -/
structure BinaryToken (s : State K) : Prop where
  /-- Successful takes, plus one while the semaphore is available, are the gives that found it locked. -/
  conserved : takes s.log + available s.sem.locked = puts s.log
  between : ∀ l₁ l₂ l₃ t u, s.log = l₁ ++ .took t .success :: l₂ ++ .took u .success :: l₃ →
    ∃ r ∈ l₂, r.isPut = true
  failedTake : ∀ a s' t e, step s a = some s' → s'.log = s.log ++ [.took t e] → e ≠ .success →
    s'.sem.locked = s.sem.locked
  giveOnAvailable : ∀ t pick s', step s (.give t pick) = some s' → s.sem.locked = false → s'.sem = s.sem

theorem failed_take_unchanged {s s' : State K} {a : Act K} {t : K} {e : ErrorCode}
    (h : step s a = some s') (hlog : s'.log = s.log ++ [.took t e]) (he : e ≠ .success) :
    s'.sem.locked = s.sem.locked := by
  rcases step_onToken h with ⟨-, hl⟩ | ⟨r, hr, htok⟩
  · exact hl
  · rw [hlog] at hr
    simp only [List.append_cancel_left_eq, List.cons.injEq, and_true] at hr
    rw [← hr, onToken_failed he] at htok
    exact (Option.some.inj htok).symm

theorem give_available_unchanged {s s' : State K} {t : K} {pick : Nat}
    (h : step s (.give t pick) = some s') (hl : s.sem.locked = false) : s'.sem = s.sem := by
  obtain ⟨-, rfl⟩ := step_give h
  rw [Semaphore.give_of_free hl]

/-- The POSIX semaphore is a binary token under every interleaving. -/
theorem semaphore_binary_token (now : Timeval) (acts : List (Act K)) (s : State K)
    (h : exec step (init now) acts = some s) : BinaryToken s := by
  have hlog := exec_onToken h
  refine ⟨log_conserves hlog, fun l₁ l₂ l₃ t u he => ?_, fun a s' t e hs hl he => ?_,
    fun t pick s' hs hl => give_available_unchanged hs hl⟩
  · rw [he] at hlog
    exact put_between hlog
  · exact failed_take_unchanged hs hl he

/-- A taker waits, a give wakes it, another thread takes the token first, and the woken taker, whose
time is up, is turned away. -/
def stolenRun : List (Act Nat) :=
  [.take 0 1000 ⟨10, 0, by decide⟩, .give 1 0, .take 2 0 ⟨12, 0, by decide⟩, .resume 0]

theorem semaphore_binary_token_stolenRun :
    ∃ s, exec step (init ⟨10, 0, by decide⟩) stolenRun = some s ∧ BinaryToken s := by
  obtain ⟨s, hs⟩ := Option.isSome_iff_exists.1
    (show (exec step (init ⟨10, 0, by decide⟩) stolenRun).isSome = true by decide)
  exact ⟨s, hs, semaphore_binary_token _ stolenRun s hs⟩

/-! ## Wake-ups -/

/-- While the semaphore is available and a taker is blocked, some other taker is woken and has not
resumed yet. Between two steps the mutex is free. -/
def NoLostWakeup (s : State K) : Prop :=
  s.sem.locked = false → s.sem.cond.blocked ≠ [] → 0 < s.sem.cond.woken

omit [DecidableEq K] in
/-- Whatever a pass through the test of the loop does, the semaphore is locked after it. -/
theorem loop_locked (s : Semaphore K) (t : K) (timeoutMs : UInt64) (tv now : Timeval) :
    (s.loop t timeoutMs tv now).2.locked = true := by
  rcases s.loop_cases t timeoutMs tv now with ⟨hl, k, h⟩ | ⟨-, h⟩ | ⟨hl, h⟩
  · rw [h]; exact hl
  · rw [h]
  · rw [h]; exact hl

omit [DecidableEq K] in
theorem took_sem (s : State K) (t : K) (ret : Option ErrorCode × Semaphore K) : (s.took t ret).sem = ret.2 := by
  obtain ⟨_ | e, sem⟩ := ret <;> rfl

theorem step_noLostWakeup {s s' : State K} {a : Act K} (hs : NoLostWakeup s) (h : step s a = some s') :
    NoLostWakeup s' := by
  cases a with
  | take t timeoutMs later =>
    obtain ⟨-, rfl⟩ := step_take h
    intro hl
    rw [took_sem, loop_locked] at hl
    cases hl
  | give t pick =>
    obtain ⟨-, rfl⟩ := step_give h
    cases hl : s.sem.locked with
    | false => rw [Semaphore.give_of_free hl]; exact hs
    | true =>
      -- the token is put back with a signal, which wakes a blocked taker if there is one
      rw [Semaphore.give_of_locked hl]
      intro _ hb
      by_cases hnil : s.sem.cond.blocked = []
      · rw [Waiters.signal_of_nil hnil] at hb; exact absurd hnil hb
      · rw [Waiters.woken_signal hnil]; omega
  | wake t r =>
    obtain ⟨cond, hcond, rfl⟩ := step_wake h
    intro hl _
    have := hs hl (Waiters.blocked_of_wake hcond)
    have := Waiters.wake_woken hcond
    show 0 < cond.woken
    omega
  | resume t =>
    obtain ⟨ret, hr, rfl⟩ := step_resume h
    obtain ⟨k, res, c, hc, ⟨-, rfl⟩ | ⟨hres, e, -, rfl⟩⟩ := Semaphore.resume_cases hr
    · intro hl
      rw [took_sem, loop_locked] at hl
      cases hl
    · -- a taker turned away with an error was not among the woken
      intro hl hb
      have hwoken := Waiters.resume_woken hc
      rw [if_neg hres] at hwoken
      have := hs hl (Waiters.resume_blocked hc ▸ hb)
      show 0 < c.woken
      omega
  | clock tv => cases h; exact hs

/-- A taker whose wait returned 0 can go on, and if it finds the semaphore available it takes it, however
late. -/
theorem woken_takes {s : State K} {t : K} {k : Taker} {c : Waiters K Taker}
    (hr : s.sem.cond.resume t = some (k, .ok, c)) (hl : s.sem.locked = false) :
    ∃ s', step s (.resume t) = some s' ∧ s'.sem.locked = true ∧ s'.log = s.log ++ [.took t .success] := by
  have hstep : step s (.resume t) = some (s.took t (({ s.sem with cond := c } : Semaphore K).loop t k.timeoutMs
      k.tv s.now)) := by
    simp only [step, Semaphore.resume, hr]
  refine ⟨_, hstep, ?_⟩
  rcases ({ s.sem with cond := c } : Semaphore K).loop_cases t k.timeoutMs k.tv s.now with
    ⟨hl', -⟩ | ⟨-, hloop⟩ | ⟨hl', -⟩
  · rw [hl] at hl'; cases hl'
  · rw [hloop]; exact ⟨rfl, rfl⟩
  · rw [hl] at hl'; cases hl'

/-- No wake-up of the POSIX semaphore is lost, and a woken taker that finds the semaphore available
returns `SUCCESS`, under every interleaving. -/
theorem semaphore_no_lost_wakeup (now : Timeval) (acts : List (Act K)) (s : State K)
    (h : exec step (init now) acts = some s) :
    NoLostWakeup s ∧
    ∀ t k c, s.sem.cond.resume t = some (k, .ok, c) → s.sem.locked = false →
      ∃ s', step s (.resume t) = some s' ∧ s'.sem.locked = true ∧ s'.log = s.log ++ [.took t .success] := by
  refine ⟨?_, fun t k c hr hl => woken_takes hr hl⟩
  exact exec_invariant (fun s a t hs ht => step_noLostWakeup hs ht) h fun hl => by cases hl

/-- Two takers wait with a time-out of a second; one give wakes the first, eleven seconds later it has
not resumed. -/
def lateRun : List (Act Nat) :=
  [.take 0 1000 ⟨10, 0, by decide⟩, .take 1 1000 ⟨10, 0, by decide⟩, .give 2 0, .clock ⟨21, 0, by decide⟩]

theorem semaphore_no_lost_wakeup_lateRun :
    ∃ s, exec step (init ⟨10, 0, by decide⟩) lateRun = some s ∧ s.sem.locked = false ∧
      s.sem.cond.blocked.length = 1 ∧ NoLostWakeup s ∧
      ∃ s', step s (.resume 0) = some s' ∧ s'.sem.locked = true ∧ s'.log = s.log ++ [.took 0 .success] := by
  obtain ⟨s, hs⟩ := Option.isSome_iff_exists.1
    (show (exec step (init ⟨10, 0, by decide⟩) lateRun).isSome = true by decide)
  have hfree : (exec step (init ⟨10, 0, by decide⟩) lateRun).map
      (fun s => (s.sem.locked, s.sem.cond.blocked.length)) = some (false, 1) := by decide
  have hwoken : (exec step (init ⟨10, 0, by decide⟩) lateRun).map
      (fun s => (s.sem.cond.resume 0).map fun x => x.2.1) = some (some .ok) := by decide
  rw [hs, Option.map_some, Option.some.injEq, Prod.mk.injEq] at hfree
  rw [hs, Option.map_some, Option.some.injEq, Option.map_eq_some_iff] at hwoken
  obtain ⟨⟨k, res, c⟩, hr, rfl⟩ := hwoken
  obtain ⟨hnone, hgoesOn⟩ := semaphore_no_lost_wakeup _ lateRun s hs
  exact ⟨s, hs, hfree.1, hfree.2, hnone, hgoesOn 0 k c hr hfree.1⟩

end InfoWorkshop.Posix.SemaphoreThreads
