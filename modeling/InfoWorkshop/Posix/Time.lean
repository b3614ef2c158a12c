/-
Times of day and the absolute deadlines that the POSIX adapters hand to `pthread_cond_timedwait`,
in the 64-bit arithmetic of the source.
-/
import Mathlib.Data.Nat.Notation

namespace InfoWorkshop.Posix

/-- `struct timeval` as `gettimeofday` fills it. -/
structure Timeval where
  tvSec : Nat
  tvUsec : Nat
  usec_lt : tvUsec < 1000000
  deriving DecidableEq, Repr

/-- `struct timespec`. -/
structure Timespec where
  tvSec : Int64
  tvNsec : Int64
  deriving DecidableEq, Repr

/-- `ONE_SEC_IN_NS`. -/
def oneSecInNs : UInt64 := 1000 * 1000 * 1000

/-- The loop that carries whole seconds from `tv_nsec` into `tv_sec` while `exceeds` holds of `tv_nsec`,
which the comparison with `ONE_SEC_IN_NS` converts to an unsigned number. -/
def carry (exceeds : UInt64 → Bool) : Nat → Timespec → Timespec
  | 0, tp => tp
  | fuel + 1, tp =>
    if exceeds tp.tvNsec.toUInt64 then
      carry exceeds fuel ⟨tp.tvSec + 1, (tp.tvNsec.toUInt64 - oneSecInNs).toInt64⟩
    else tp

/-- The deadline before its seconds are carried. -/
def rawDeadline (tv : Timeval) (timeoutMs : UInt64) : Timespec :=
  ⟨(UInt64.ofNat tv.tvSec + timeoutMs / 1000).toInt64,
    ((UInt64.ofNat tv.tvUsec + timeoutMs % 1000 * 1000) * 1000).toInt64⟩

/-- `timeoutMs` after `tv`. The loop takes a second per turn, which bounds its turns. -/
def deadline (exceeds : UInt64 → Bool) (tv : Timeval) (timeoutMs : UInt64) : Timespec :=
  carry exceeds ((rawDeadline tv timeoutMs).tvNsec.toUInt64.toNat / oneSecInNs.toNat + 1)
    (rawDeadline tv timeoutMs)

end InfoWorkshop.Posix
