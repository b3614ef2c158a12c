/-
`adapter/esp32/semaphore.c` over the binary semaphores of FreeRTOS, and its comparison with the POSIX
adapter on calls that do not wait.
-/
import InfoWorkshop.Lib.Answers
import InfoWorkshop.Posix.Semaphore

namespace InfoWorkshop.Esp32

open InfoWorkshop.Core InfoWorkshop.Answers

/-- The binary semaphores of FreeRTOS. `S` is the kernel's object behind a handle, `true` is `pdTRUE`. -/
structure BinarySemaphore (S : Type*) where
  xSemaphoreCreateBinary : Option S
  xSemaphoreGive : S → Bool × S
  xSemaphoreTake : S → UInt32 → Bool × S
  pdMsToTicks : UInt64 → UInt32
  full : S → Bool
  create_empty : ∀ s, xSemaphoreCreateBinary = some s → full s = false
  give_empty : ∀ s, full s = false → (xSemaphoreGive s).1 = true ∧ full (xSemaphoreGive s).2 = true
  give_full : ∀ s, full s = true → (xSemaphoreGive s).1 = false ∧ full (xSemaphoreGive s).2 = true
  take_full : ∀ s, full s = true → (xSemaphoreTake s 0).1 = true ∧ full (xSemaphoreTake s 0).2 = false
  take_empty : ∀ s, full s = false → (xSemaphoreTake s 0).1 = false ∧ full (xSemaphoreTake s 0).2 = false
  ticks_zero : pdMsToTicks 0 = 0

namespace Semaphore

variable {S K : Type*} (rtos : BinarySemaphore S)

/-- `Semaphore_New`: `NULL` when FreeRTOS has no memory for it. -/
def new : Option S :=
  rtos.xSemaphoreCreateBinary

/-- `Semaphore_Take` of a semaphore that is not `NULL`. -/
def take (s : S) (timeoutMs : UInt64) : ErrorCode × S :=
  let r := rtos.xSemaphoreTake s (rtos.pdMsToTicks timeoutMs)
  (if r.1 = true then .success else .errorTimeout, r.2)

/-- `Semaphore_Give` of a semaphore that is not `NULL`. -/
def give (s : S) : ErrorCode × S :=
  let r := rtos.xSemaphoreGive s
  (if r.1 = true then .success else .failure, r.2)

theorem take_zero {s : S} : (take rtos s 0) =
    (if rtos.full s = true then .success else .errorTimeout, (rtos.xSemaphoreTake s 0).2) := by
  unfold take
  rw [rtos.ticks_zero]
  cases h : rtos.full s with
  | false => simp [rtos.take_empty s h]
  | true => simp [rtos.take_full s h]

theorem give_eq {s : S} : give rtos s =
    (if rtos.full s = true then .failure else .success, (rtos.xSemaphoreGive s).2) := by
  unfold give
  cases h : rtos.full s with
  | false => simp [rtos.give_empty s h]
  | true => simp [rtos.give_full s h]

/-! ## The two adapters side by side -/

/-- A call of either adapter: `Semaphore_Give`, or `Semaphore_Take` with a time-out of 0. What the
operating system chooses for the POSIX adapter goes with it: the thread the signal wakes, the calling
thread and its clock readings. -/
inductive Call (K : Type*)
  | give (pick : Nat)
  | take (t : K) (tv now : Posix.Timeval)
  deriving DecidableEq, Repr

/-- The call over the POSIX adapter; no answer when the calling thread waits. -/
def posixCall (s : Posix.Semaphore K) : Call K → Option ErrorCode × Posix.Semaphore K
  | .give pick => (some (s.give pick).1, (s.give pick).2)
  | .take t tv now => s.take t 0 tv now

/-- The call over the ESP32 adapter. -/
def esp32Call (s : S) : Call K → Option ErrorCode × S
  | .give _ => (some (give rtos s).1, (give rtos s).2)
  | .take _ _ _ => (some (take rtos s 0).1, (take rtos s 0).2)

/-- The semaphores of the two adapters are both available or both taken. -/
def SameAvailability (p : Posix.Semaphore K) (e : S) : Prop :=
  rtos.full e = !p.locked

/-- A take with a time-out of 0 never waits. -/
theorem posix_take_zero (p : Posix.Semaphore K) (t : K) (tv now : Posix.Timeval) :
    p.take t 0 tv now =
      (some (if p.locked = true then .errorTimeout else .success), { p with locked := true }) := by
  rcases p with ⟨locked, cond⟩
  cases locked <;> simp [Posix.Semaphore.take, Posix.Semaphore.loop]

/-- Every call leaves the two semaphores with the same availability. -/
theorem call_sameAvailability (p : Posix.Semaphore K) (e : S) (c : Call K)
    (h : SameAvailability rtos p e) :
    SameAvailability rtos (posixCall p c).2 (esp32Call rtos e c).2 := by
  unfold SameAvailability at h ⊢
  cases hp : p.locked with
  | true =>
    have he : rtos.full e = false := by rw [h, hp]; rfl
    cases c with
    | give pick =>
      simp only [posixCall, esp32Call, give_eq, Posix.Semaphore.give_of_locked hp]
      exact (rtos.give_empty e he).2
    | take t tv now =>
      simp only [posixCall, esp32Call, take_zero, posix_take_zero]
      exact (rtos.take_empty e he).2
  | false =>
    have he : rtos.full e = true := by rw [h, hp]; rfl
    cases c with
    | give pick =>
      simp only [posixCall, esp32Call, give_eq, Posix.Semaphore.give_of_free hp, hp]
      exact (rtos.give_full e he).2
    | take t tv now =>
      simp only [posixCall, esp32Call, take_zero, posix_take_zero]
      exact (rtos.take_full e he).2

/-- A take gets the same answer from both adapters. -/
theorem take_agrees {p : Posix.Semaphore K} {e : S} (h : SameAvailability rtos p e) (t : K)
    (tv now : Posix.Timeval) :
    (posixCall p (.take t tv now)).1 = (esp32Call rtos e (.take t tv now : Call K)).1 := by
  unfold SameAvailability at h
  simp only [posixCall, esp32Call, take_zero, posix_take_zero, h]
  cases p.locked <;> rfl

/-- A give gets the same answer from both adapters if and only if the semaphore is taken. -/
theorem give_agrees {p : Posix.Semaphore K} {e : S} (h : SameAvailability rtos p e) (pick : Nat) :
    (posixCall p (.give pick)).1 = (esp32Call rtos e (.give pick : Call K)).1 ↔ p.locked = true := by
  unfold SameAvailability at h
  simp only [posixCall, esp32Call, give_eq, h]
  cases hp : p.locked with
  | true => simp [Posix.Semaphore.give_of_locked hp]
  | false => simp [Posix.Semaphore.give_of_free hp]

/-- The second of two calls in a row is not a give that follows a give. -/
def NotGiveAfterGive : Call K → Call K → Prop
  | .give _, .give _ => False
  | _, _ => True

theorem posix_locked_after (p : Posix.Semaphore K) (c : Call K) :
    (posixCall p c).2.locked = true ↔ ∃ t tv now, c = .take t tv now := by
  cases c with
  | take t tv now => simp [posixCall, posix_take_zero]
  | give pick =>
    cases hp : p.locked with
    | true => simp [posixCall, Posix.Semaphore.give_of_locked hp]
    | false => simp [posixCall, Posix.Semaphore.give_of_free hp, hp]

/-- From semaphores of one availability, the answers agree if and only if no give follows a give, a
semaphore available at the start counting as one just given. -/
theorem answers_agree (calls : List (Call K)) {p : Posix.Semaphore K} {e : S}
    (h : SameAvailability rtos p e) :
    (run posixCall p calls).1 = (run (esp32Call rtos) e calls).1 ↔
      (if p.locked = true then calls else .give 0 :: calls).IsChain NotGiveAfterGive := by
  induction calls generalizing p e with
  | nil => cases p.locked <;> simp
  | cons c calls ih =>
    have hc := call_sameAvailability rtos p e c h
    cases c with
    | take t tv now =>
      rw [run_answers_cons (iff_true_intro (take_agrees rtos h t tv now)) (ih hc)]
      rw [if_pos ((posix_locked_after p _).2 ⟨t, tv, now, rfl⟩)]
      -- neither the call before a take nor the call after it is restricted
      have htake : (Call.take t tv now :: calls).IsChain NotGiveAfterGive ↔
          calls.IsChain NotGiveAfterGive := by
        cases calls with
        | nil => simp
        | cons b bs => simp [NotGiveAfterGive]
      cases p.locked <;> simp [htake, NotGiveAfterGive]
    | give pick =>
      rw [run_answers_cons (give_agrees rtos h pick) (ih hc)]
      have hl : ¬ (posixCall p (.give pick)).2.locked = true := by
        rw [posix_locked_after]; rintro ⟨t, tv, now, hcontra⟩; cases hcontra
      rw [if_neg hl]
      have hpick : (Call.give 0 :: calls).IsChain NotGiveAfterGive ↔
          (Call.give pick :: calls).IsChain (NotGiveAfterGive (K := K)) := by
        cases calls with
        | nil => simp
        | cons b bs => cases b <;> simp [NotGiveAfterGive]
      cases p.locked <;> simp [hpick, NotGiveAfterGive]

/-- The answers of the two adapters to `calls` agree, and so does the availability they end with. -/
def Agree (p : Posix.Semaphore K) (e : S) (calls : List (Call K)) : Prop :=
  (run posixCall p calls).1 = (run (esp32Call rtos) e calls).1 ∧
    SameAvailability rtos (run posixCall p calls).2 (run (esp32Call rtos) e calls).2

/-- The adapters agree on a new semaphore if and only if no `Semaphore_Give` directly follows another
one: the POSIX adapter accepts the second with `SUCCESS`, the ESP32 adapter answers `FAILURE`. -/
theorem new_agree_iff (mutexInit condInit : Bool) (p : Posix.Semaphore K) (e : S)
    (hp : Posix.Semaphore.new mutexInit condInit = some p) (he : new rtos = some e)
    (calls : List (Call K)) : Agree rtos p e calls ↔ calls.IsChain NotGiveAfterGive := by
  have hl : p.locked = true := by
    unfold Posix.Semaphore.new at hp
    split at hp
    · cases hp
    · split at hp
      · cases hp
      · cases hp; rfl
  have h : SameAvailability rtos p e := by
    unfold SameAvailability
    rw [rtos.create_empty e he, hl]
    rfl
  unfold Agree
  rw [answers_agree rtos calls h, if_pos hl]
  constructor
  · rintro ⟨hchain, _⟩
    exact hchain
  · intro hchain
    exact ⟨hchain, run_related (call_sameAvailability rtos) h calls⟩

/-- A binary semaphore that is its flag alone, at a tick rate of 100 Hz. -/
def flagSemaphore : BinarySemaphore Bool where
  xSemaphoreCreateBinary := some false
  xSemaphoreGive full := (!full, true)
  xSemaphoreTake full _ := (full, false)
  pdMsToTicks ms := (ms / 10).toUInt32
  full := id
  create_empty := by rintro s ⟨⟩; rfl
  give_empty := by rintro s ⟨⟩; exact ⟨rfl, rfl⟩
  give_full := by rintro s ⟨⟩; exact ⟨rfl, rfl⟩
  take_full := by rintro s ⟨⟩; exact ⟨rfl, rfl⟩
  take_empty := by rintro s ⟨⟩; exact ⟨rfl, rfl⟩
  ticks_zero := rfl

/-- A give and a take on a new semaphore. -/
theorem new_agree_give_take :
    Agree flagSemaphore ⟨true, .empty⟩ false [.give 0, .take 1 ⟨0, 0, by decide⟩ ⟨0, 0, by decide⟩] :=
  (new_agree_iff flagSemaphore true true ⟨true, .empty⟩ false rfl rfl _).2 (by simp [NotGiveAfterGive])

/-- Two gives on a new semaphore get different answers. -/
theorem second_give_disagrees :
    ¬ ∀ (p : Posix.Semaphore Nat) (e : Bool) (calls : List (Call Nat)),
      Posix.Semaphore.new true true = some p → new flagSemaphore = some e →
        Agree flagSemaphore p e calls := by
  intro h
  have hcalls := (h ⟨true, .empty⟩ false [.give 0, .give 0] rfl rfl).1
  revert hcalls
  decide

end Semaphore

end InfoWorkshop.Esp32
