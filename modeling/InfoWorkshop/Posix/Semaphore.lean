/-
`adapter/posix/semaphore.c`: the semaphore and the mutex-held sections of its functions. The calls
whose results are asserted (locking, unlocking, signalling, reading the clock) succeed; a failed
assertion ends the program.
-/
import InfoWorkshop.Core.Defines
import InfoWorkshop.Lib.CondVar
import InfoWorkshop.Posix.Time

namespace InfoWorkshop.Posix

open InfoWorkshop.Core InfoWorkshop.CondVar

/-- What a thread keeps while it waits in `Semaphore_Take`: its argument, its first clock reading and
the deadline. -/
structure Taker where
  timeoutMs : UInt64
  tv : Timeval
  tp : Timespec
  deriving DecidableEq, Repr

/-- `struct Semaphore`. -/
structure Semaphore (K : Type*) where
  locked : Bool
  cond : Waiters K Taker
  deriving DecidableEq, Repr

namespace Semaphore

variable {K : Type*}

/-- `Semaphore_New`: `NULL` when the mutex or the condition variable cannot be initialised. -/
def new (mutexInit condInit : Bool) : Option (Semaphore K) :=
  if !mutexInit then none
  else if !condInit then none
  else some ⟨true, .empty⟩

/-- `Semaphore_ElapsedTimeMs`, `tv` being its clock reading. -/
def elapsedTimeMs (start tv : Timeval) : UInt64 :=
  let startMs := UInt64.ofNat (start.tvSec * 1000 + start.tvUsec / 1000 / 1000)
  let endMs := UInt64.ofNat (tv.tvSec * 1000 + tv.tvUsec / 1000 / 1000)
  endMs - startMs

/-- The deadline of `Semaphore_Take`. -/
def deadline (tv : Timeval) (timeoutMs : UInt64) : Timespec :=
  Posix.deadline (fun nsec => nsec ≥ oneSecInNs) tv timeoutMs

/-- `Semaphore_Take` from the test of its loop, in which the clock reads `now`: it returns, or the
thread `t` waits. -/
def loop (s : Semaphore K) (t : K) (timeoutMs : UInt64) (tv now : Timeval) :
    Option ErrorCode × Semaphore K :=
  if s.locked = true ∧ elapsedTimeMs tv now < timeoutMs then
    (none, { s with cond := s.cond.wait t ⟨timeoutMs, tv, deadline tv timeoutMs⟩ })
  else if s.locked = false then (some .success, { s with locked := true })
  else (some .errorTimeout, s)

/-- `Semaphore_Take` from its start. The clock reads `tv` first and `now` in the test of the loop. -/
def take (s : Semaphore K) (t : K) (timeoutMs : UInt64) (tv now : Timeval) :
    Option ErrorCode × Semaphore K :=
  s.loop t timeoutMs tv now

/-- `Semaphore_Take` from the moment the waiting thread `t` holds the mutex again. -/
def resume [DecidableEq K] (s : Semaphore K) (t : K) (now : Timeval) :
    Option (Option ErrorCode × Semaphore K) :=
  match s.cond.resume t with
  | none => none
  | some (k, res, cond) =>
    let s := { s with cond := cond }
    match res with
    | .ok => some (s.loop t k.timeoutMs k.tv now)
    | .timedOut => some (some .errorTimeout, s)
    | .failed _ => some (some .errorOs, s)

/-- `Semaphore_Give`. `pick` chooses the thread the signal wakes. -/
def give (s : Semaphore K) (pick : Nat) : ErrorCode × Semaphore K :=
  if s.locked = true then (.success, { locked := false, cond := s.cond.signal pick })
  else (.success, s)

/-! ## What a section can do -/

/-- A pass through the test of the loop: the thread waits for a locked semaphore, takes a free one,
or gives up on a locked one. -/
theorem loop_cases (s : Semaphore K) (t : K) (timeoutMs : UInt64) (tv now : Timeval) :
    (s.locked = true ∧ ∃ k, s.loop t timeoutMs tv now = (none, { s with cond := s.cond.wait t k })) ∨
    (s.locked = false ∧ s.loop t timeoutMs tv now = (some .success, { s with locked := true })) ∨
    (s.locked = true ∧ s.loop t timeoutMs tv now = (some .errorTimeout, s)) := by
  unfold loop
  cases hl : s.locked with
  | false => exact .inr (.inl ⟨rfl, by simp⟩)
  | true =>
    by_cases he : elapsedTimeMs tv now < timeoutMs
    · exact .inl ⟨rfl, ⟨timeoutMs, tv, deadline tv timeoutMs⟩, by simp [he]⟩
    · exact .inr (.inr ⟨rfl, by simp [he]⟩)

/-- What a thread does when its wait is over: after a 0 it tests the loop again, after an error it
leaves everything alone. -/
theorem resume_cases [DecidableEq K] {s : Semaphore K} {t : K} {now : Timeval}
    {ret : Option ErrorCode × Semaphore K} (h : s.resume t now = some ret) :
    ∃ k res c, s.cond.resume t = some (k, res, c) ∧
      ((res = .ok ∧ ret = ({ s with cond := c } : Semaphore K).loop t k.timeoutMs k.tv now) ∨
        (res ≠ .ok ∧ ∃ e, e ≠ .success ∧ ret = (some e, { s with cond := c }))) := by
  unfold resume at h
  split at h
  · cases h
  · rename_i k res c hc
    refine ⟨k, res, c, hc, ?_⟩
    cases res with
    | ok => cases h; exact .inl ⟨rfl, rfl⟩
    | timedOut => cases h; exact .inr ⟨by simp, .errorTimeout, by simp, rfl⟩
    | failed errno => cases h; exact .inr ⟨by simp, .errorOs, by simp, rfl⟩

theorem give_of_free {s : Semaphore K} (h : s.locked = false) (pick : Nat) : s.give pick = (.success, s) := by
  unfold give; rw [if_neg (by simp [h])]

theorem give_of_locked {s : Semaphore K} (h : s.locked = true) (pick : Nat) :
    s.give pick = (.success, { locked := false, cond := s.cond.signal pick }) := by
  unfold give; rw [if_pos h]

end Semaphore

end InfoWorkshop.Posix
