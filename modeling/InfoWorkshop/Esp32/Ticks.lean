/-
The time-outs of `adapter/esp32/queue.c` and `adapter/esp32/semaphore.c`, in ticks of FreeRTOS. A tick
count has 32 bits, and so has the product with the tick rate before it is divided.
-/
import InfoWorkshop.Esp32.Semaphore

namespace InfoWorkshop.Esp32

open InfoWorkshop.Core InfoWorkshop.Memory

/-- `CONFIG_FREERTOS_HZ` of `sdkconfig.develop`. -/
def configTICK_RATE_HZ : UInt32 := 100

def portMAX_DELAY : UInt32 := 0xFFFFFFFF

/-- `pdMS_TO_TICKS`, with `TickType_t` an unsigned 32-bit number. -/
def pdMS_TO_TICKS (xTimeInMs : UInt64) : UInt32 := xTimeInMs.toUInt32 * configTICK_RATE_HZ / 1000

def QUEUE_MAX_TIMEOUT : UInt64 := 0xFFFFFFFFFFFFFFFF

namespace Queue

/-- The ticks that `Queue_Receive` waits. -/
def receiveTicks (timeoutMs : UInt64) : UInt32 :=
  if timeoutMs = QUEUE_MAX_TIMEOUT then portMAX_DELAY else pdMS_TO_TICKS timeoutMs

/-- `Queue_Receive` over `xQueueReceive`, which yields `pdTRUE` and the message, or nothing. -/
def receive {Q : Type*} (xQueueReceive : Q → UInt32 → Option Bytes × Q) (queue : Q) (message : Bytes)
    (timeoutMs : UInt64) : ErrorCode × Bytes × Q :=
  match xQueueReceive queue (receiveTicks timeoutMs) with
  | (some received, queue) => (.success, received, queue)
  | (none, queue) => (.failure, message, queue)

end Queue

namespace Semaphore

/-- The ticks that `Semaphore_Take` waits. -/
def takeTicks (timeoutMs : UInt64) : UInt32 := pdMS_TO_TICKS timeoutMs

theorem take_eq {S : Type*} {rtos : BinarySemaphore S} (h : rtos.pdMsToTicks = pdMS_TO_TICKS) (s : S)
    (timeoutMs : UInt64) :
    take rtos s timeoutMs = (if (rtos.xSemaphoreTake s (takeTicks timeoutMs)).1 = true then .success
      else .errorTimeout, (rtos.xSemaphoreTake s (takeTicks timeoutMs)).2) := by
  unfold take takeTicks
  rw [h]

end Semaphore

/-- The time-out is waited in full: for ever, or for the whole ticks in it; and no shorter time-out is
waited longer. -/
structure WaitsFull (ticks : UInt64 → UInt32) (timeoutMs : UInt64) : Prop where
  enough : ticks timeoutMs = portMAX_DELAY ∨
    timeoutMs.toNat * configTICK_RATE_HZ.toNat / 1000 ≤ (ticks timeoutMs).toNat
  monotone : ∀ shorter, shorter ≤ timeoutMs → ticks shorter ≤ ticks timeoutMs

/-- The longest time-out whose product with the tick rate has 32 bits. -/
def maxExactMs : Nat := 42949672

theorem pdMS_TO_TICKS_toNat (ms : UInt64) :
    (pdMS_TO_TICKS ms).toNat = ms.toNat % 4294967296 * 100 % 4294967296 / 1000 := by
  unfold pdMS_TO_TICKS configTICK_RATE_HZ
  rw [UInt32.toNat_div, UInt32.toNat_mul, UInt64.toNat_toUInt32]
  rfl

theorem pdMS_TO_TICKS_exact {ms : UInt64} (h : ms.toNat ≤ maxExactMs) :
    (pdMS_TO_TICKS ms).toNat = ms.toNat * 100 / 1000 := by
  unfold maxExactMs at h
  rw [pdMS_TO_TICKS_toNat]
  omega

/-- Beyond, the ticks are fewer than those of the time-out, and finite. -/
theorem pdMS_TO_TICKS_short {ms : UInt64} (h : maxExactMs < ms.toNat) :
    pdMS_TO_TICKS ms ≠ portMAX_DELAY ∧ (pdMS_TO_TICKS ms).toNat < ms.toNat * 100 / 1000 := by
  unfold maxExactMs at h
  refine ⟨fun he => ?_, ?_⟩
  · have hmax : (pdMS_TO_TICKS ms).toNat = 4294967295 := by rw [he]; rfl
    rw [pdMS_TO_TICKS_toNat] at hmax
    omega
  · rw [pdMS_TO_TICKS_toNat]
    omega

theorem waitsFull_of_exact {ticks : UInt64 → UInt32}
    (hticks : ∀ ms : UInt64, ms.toNat ≤ maxExactMs → ticks ms = pdMS_TO_TICKS ms) {timeoutMs : UInt64}
    (h : timeoutMs.toNat ≤ maxExactMs) : WaitsFull ticks timeoutMs := by
  have hms := hticks timeoutMs h
  have hexact := pdMS_TO_TICKS_exact h
  refine ⟨.inr ?_, fun shorter hle => ?_⟩
  · rw [hms, hexact]
    exact Nat.le_refl _
  · have hle' : shorter.toNat ≤ timeoutMs.toNat := hle
    have hshort : shorter.toNat ≤ maxExactMs := Nat.le_trans hle' h
    rw [hms, hticks shorter hshort]
    show (pdMS_TO_TICKS shorter).toNat ≤ (pdMS_TO_TICKS timeoutMs).toNat
    rw [hexact, pdMS_TO_TICKS_exact hshort]
    omega

/-- A time-out is waited in full exactly when its product with the tick rate has 32 bits; or, in
`Queue_Receive` alone, when it is the longest one. -/
theorem ticks_waitsFull_iff (timeoutMs : UInt64) :
    (WaitsFull Queue.receiveTicks timeoutMs ↔
      timeoutMs.toNat ≤ maxExactMs ∨ timeoutMs = QUEUE_MAX_TIMEOUT) ∧
    (WaitsFull Semaphore.takeTicks timeoutMs ↔ timeoutMs.toNat ≤ maxExactMs) := by
  have hshort : ∀ {ticks : UInt64 → UInt32}, ticks timeoutMs = pdMS_TO_TICKS timeoutMs →
      maxExactMs < timeoutMs.toNat → ¬ WaitsFull ticks timeoutMs := by
    intro ticks hms hlt h
    obtain ⟨hfinite, hfew⟩ := pdMS_TO_TICKS_short hlt
    rcases h.enough with he | hle
    · exact hfinite (hms.symm.trans he)
    · rw [hms] at hle
      exact absurd hle (Nat.not_le.2 hfew)
  refine ⟨⟨fun h => ?_, ?_⟩, ⟨fun h => ?_, waitsFull_of_exact fun _ _ => rfl⟩⟩
  · by_contra hno
    obtain ⟨hlong, hmax⟩ := not_or.1 hno
    exact hshort (if_neg hmax) (Nat.not_le.1 hlong) h
  · rintro (h | rfl)
    · refine waitsFull_of_exact (fun ms hms => if_neg fun he => ?_) h
      rw [he] at hms
      exact absurd hms (by decide)
    · refine ⟨.inl (if_pos rfl), fun shorter _ => ?_⟩
      show (Queue.receiveTicks shorter).toNat ≤ (Queue.receiveTicks QUEUE_MAX_TIMEOUT).toNat
      have hmax : (Queue.receiveTicks QUEUE_MAX_TIMEOUT).toNat = 4294967295 := rfl
      have hlt := (Queue.receiveTicks shorter).toNat_lt
      omega
  · by_contra hno
    exact hshort rfl (Nat.not_le.1 hno) h

/-- A receive or take of some twelve hours does not wait at all. -/
theorem twelve_hours_poll :
    Queue.receiveTicks 42949673 = 0 ∧ Semaphore.takeTicks 42949673 = 0 ∧
      ¬ WaitsFull Queue.receiveTicks 42949673 ∧ ¬ WaitsFull Semaphore.takeTicks 42949673 := by
  refine ⟨rfl, rfl, fun h => ?_, fun h => ?_⟩
  · exact absurd (h.monotone 10 (by decide)) (by decide)
  · exact absurd (h.monotone 10 (by decide)) (by decide)

end InfoWorkshop.Esp32
