/-
What the deadlines of the POSIX adapters are worth: the time-out after the clock reading, as long as the
seconds fit `time_t`. A machine clock never goes back, and reports a time-out at its deadline or later.
-/
import InfoWorkshop.Lib.CondVar
import InfoWorkshop.Posix.Time

namespace InfoWorkshop.Posix

/-- The time of day in microseconds. -/
def Timeval.usec (tv : Timeval) : Nat := tv.tvSec * 1000000 + tv.tvUsec

/-- The clock reading at a time in microseconds. -/
def Timeval.ofUsec (usec : Nat) : Timeval := ⟨usec / 1000000, usec % 1000000, Nat.mod_lt usec (by decide)⟩

/-- The time of a deadline in nanoseconds. -/
def Timespec.nsec (tp : Timespec) : Int := tp.tvSec.toInt * 1000000000 + tp.tvNsec.toInt

/-- The clock has reached the deadline. -/
def Timespec.Reached (tp : Timespec) (now : Timeval) : Prop := tp.nsec ≤ now.usec * 1000

instance (tp : Timespec) (now : Timeval) : Decidable (tp.Reached now) :=
  inferInstanceAs (Decidable (tp.nsec ≤ _))

/-- At least `timeoutMs` milliseconds lie between the clock reading `tv` and `now`. -/
def Elapsed (tv : Timeval) (timeoutMs : UInt64) (now : Timeval) : Prop :=
  tv.usec + timeoutMs.toNat * 1000 ≤ now.usec

instance (tv : Timeval) (timeoutMs : UInt64) (now : Timeval) : Decidable (Elapsed tv timeoutMs now) :=
  inferInstanceAs (Decidable (_ ≤ _))

/-- The seconds of the deadline fit `time_t`. -/
def DeadlineFits (tv : Timeval) (timeoutMs : UInt64) : Prop :=
  tv.tvSec + timeoutMs.toNat / 1000 + 1 < 9223372036854775808

instance (tv : Timeval) (timeoutMs : UInt64) : Decidable (DeadlineFits tv timeoutMs) :=
  inferInstanceAs (Decidable (_ < _))

theorem Elapsed.mono {tv now now' : Timeval} {timeoutMs : UInt64} (h : Elapsed tv timeoutMs now)
    (hle : now.usec ≤ now'.usec) : Elapsed tv timeoutMs now' := Nat.le_trans h hle

theorem Timespec.Reached.mono {tp : Timespec} {now now' : Timeval} (h : tp.Reached now)
    (hle : now.usec ≤ now'.usec) : tp.Reached now' := by
  unfold Timespec.Reached at h ⊢
  omega

/-! ## The arithmetic -/

theorem toInt_toInt64 {x : UInt64} (h : x.toNat < 9223372036854775808) : x.toInt64.toInt = x.toNat := by
  show x.toBitVec.toInt = _
  have hlt : 2 * x.toBitVec.toNat < 2 ^ 64 := by
    rw [UInt64.toNat_toBitVec]
    omega
  rw [BitVec.toInt_eq_toNat_of_lt hlt, UInt64.toNat_toBitVec]

theorem carry_of_not {exceeds : UInt64 → Bool} {tp : Timespec} (h : exceeds tp.tvNsec.toUInt64 = false) (fuel : Nat) :
    carry exceeds fuel tp = tp := by
  cases fuel with
  | zero => rfl
  | succ fuel =>
    rw [carry, if_neg]
    simp [h]

/-- A second more, where it fits. -/
theorem toInt_succ {x : UInt64} (h : x.toNat + 1 < 9223372036854775808) :
    (x.toInt64 + 1).toInt = x.toNat + 1 := by
  have hx := toInt_toInt64 (x := x) (by omega)
  have hone : (1 : Int64).toInt = 1 := by decide
  rw [Int64.toInt_add, hx, hone]
  exact Int.bmod_eq_of_le (by omega) (by omega)

/-- The seconds before the carry. -/
theorem rawSec_toNat {tv : Timeval} {timeoutMs : UInt64}
    (h : tv.tvSec + timeoutMs.toNat / 1000 < 9223372036854775808) :
    (UInt64.ofNat tv.tvSec + timeoutMs / 1000).toNat = tv.tvSec + timeoutMs.toNat / 1000 := by
  rw [UInt64.toNat_add, UInt64.toNat_ofNat', UInt64.toNat_div]
  show (tv.tvSec % 18446744073709551616 + timeoutMs.toNat / 1000) % 18446744073709551616 = _
  omega

/-- The microseconds before the carry, less than two seconds. -/
theorem rawUsec_toNat (tv : Timeval) (timeoutMs : UInt64) :
    (UInt64.ofNat tv.tvUsec + timeoutMs % 1000 * 1000).toNat = tv.tvUsec + timeoutMs.toNat % 1000 * 1000 := by
  have husec := tv.usec_lt
  rw [UInt64.toNat_add, UInt64.toNat_mul, UInt64.toNat_mod, UInt64.toNat_ofNat']
  show (tv.tvUsec % 18446744073709551616 + timeoutMs.toNat % 1000 * 1000 % 18446744073709551616) %
    18446744073709551616 = _
  omega

theorem rawNsec_toNat (tv : Timeval) (timeoutMs : UInt64) :
    ((UInt64.ofNat tv.tvUsec + timeoutMs % 1000 * 1000) * 1000).toNat =
      (tv.tvUsec + timeoutMs.toNat % 1000 * 1000) * 1000 := by
  have husec := tv.usec_lt
  rw [UInt64.toNat_mul, rawUsec_toNat]
  show (tv.tvUsec + timeoutMs.toNat % 1000 * 1000) * 1000 % 18446744073709551616 = _
  omega

theorem sub_second {nsec : UInt64} (hle : oneSecInNs ≤ nsec) :
    (nsec - oneSecInNs).toNat = nsec.toNat - 1000000000 := UInt64.toNat_sub_of_le _ _ hle

/-- From less than two seconds one is taken, at most. -/
theorem exceeds_rest {exceeds : UInt64 → Bool} (he : ∀ x, exceeds x = true → oneSecInNs ≤ x) {nsec : UInt64}
    (hx : exceeds nsec = true) (hnsec : nsec.toNat < 2000000000) : exceeds (nsec - oneSecInNs) = false := by
  by_contra htwo
  have hmore : 1000000000 ≤ (nsec - oneSecInNs).toNat := he _ (by simpa using htwo)
  rw [sub_second (he nsec hx)] at hmore
  omega

/-- The loop takes one turn. -/
theorem carry_turn {exceeds : UInt64 → Bool} (he : ∀ x, exceeds x = true → oneSecInNs ≤ x) {sec nsec : UInt64}
    (hx : exceeds nsec = true) (hnsec : nsec.toNat < 2000000000) (fuel : Nat) :
    carry exceeds (fuel + 1) ⟨sec.toInt64, nsec.toInt64⟩ = ⟨sec.toInt64 + 1, (nsec - oneSecInNs).toInt64⟩ := by
  have hrest := exceeds_rest he hx hnsec
  rw [carry, UInt64.toUInt64_toInt64, if_pos hx]
  exact carry_of_not (by rw [UInt64.toUInt64_toInt64, hrest]) fuel

/-- What is carried: a second out of the nanoseconds, at most one. -/
theorem carry_nsec {exceeds : UInt64 → Bool} (he : ∀ x, exceeds x = true → oneSecInNs ≤ x) {sec nsec : UInt64}
    (hsec : sec.toNat + 1 < 9223372036854775808) (hnsec : nsec.toNat < 2000000000) (fuel : Nat) :
    (carry exceeds (fuel + 1) ⟨sec.toInt64, nsec.toInt64⟩).nsec = sec.toNat * 1000000000 + nsec.toNat := by
  have hmax : nsec.toNat < 9223372036854775808 := by omega
  by_cases hx : exceeds nsec = true
  · have hle' : 1000000000 ≤ nsec.toNat := he nsec hx
    have hsub := sub_second (he nsec hx)
    rw [carry_turn he hx hnsec, Timespec.nsec, toInt_succ hsec, toInt_toInt64 (by omega), hsub]
    omega
  · have hstay : exceeds nsec = false := by simpa using hx
    rw [carry_of_not (by rw [UInt64.toUInt64_toInt64, hstay]), Timespec.nsec, toInt_toInt64 (by omega),
      toInt_toInt64 hmax]

/-- A deadline whose seconds fit is the time-out after the clock reading. -/
theorem deadline_nsec {exceeds : UInt64 → Bool} (he : ∀ x, exceeds x = true → oneSecInNs ≤ x) {tv : Timeval}
    {timeoutMs : UInt64} (h : DeadlineFits tv timeoutMs) :
    (deadline exceeds tv timeoutMs).nsec = (tv.usec + timeoutMs.toNat * 1000 : Nat) * 1000 := by
  have husec := tv.usec_lt
  unfold DeadlineFits at h
  have hsec := @rawSec_toNat tv timeoutMs (by omega)
  have hnsec := rawNsec_toNat tv timeoutMs
  rw [deadline, rawDeadline, carry_nsec he (by omega) (by omega), hsec, hnsec, Timeval.usec]
  omega

theorem exceeds_queue (x : UInt64) (h : decide (x > oneSecInNs) = true) : oneSecInNs ≤ x :=
  Nat.le_of_lt (of_decide_eq_true h)

theorem exceeds_semaphore (x : UInt64) (h : decide (x ≥ oneSecInNs) = true) : oneSecInNs ≤ x := of_decide_eq_true h

/-- A deadline that is reached has let the time-out pass. -/
theorem elapsed_of_reached {exceeds : UInt64 → Bool} (he : ∀ x, exceeds x = true → oneSecInNs ≤ x) {tv now : Timeval}
    {timeoutMs : UInt64} (hfits : DeadlineFits tv timeoutMs)
    (h : (deadline exceeds tv timeoutMs).Reached now) : Elapsed tv timeoutMs now := by
  unfold Timespec.Reached at h
  rw [deadline_nsec he hfits] at h
  unfold Elapsed
  omega

end InfoWorkshop.Posix
