/-
`core/service.h`: the event a service receives, with its bytes in a queue slot, and the service
structure. The name of a service is left out: it is only logged and handed to the task.
-/
import InfoWorkshop.Posix.Semaphore
import Mathlib.Algebra.Group.Nat.Defs

namespace InfoWorkshop.Core

open InfoWorkshop.Memory InfoWorkshop.Posix

/-- `ServiceState`. -/
inductive ServiceState
  | stopped
  | waiting
  | running
  deriving DecidableEq, Repr

/-- `ServiceEvent`. -/
structure ServiceEvent where
  event : UInt32
  payload : UInt32
  deriving DecidableEq, Repr

def EVENT_TIMEOUT : UInt32 := 0xafaf

def SERVICE_QUEUE_SIZE : Nat := 20

/-- `sizeof(ServiceEvent)`. -/
def sizeofServiceEvent : Nat := 8

/-- The initialiser of the event in `Service_Main`; the payload it does not name is zero. -/
def timeoutEvent : ServiceEvent := ⟨EVENT_TIMEOUT, 0⟩

/-- `Service`. Of the hooks, `main` and `handler` it matters whether the pointer is `NULL`; a queue
or task handle is the index of the object. `K` names the threads that take the semaphore. -/
structure Service where
  taskPriority : UInt32
  taskStackSize : UInt64
  queue : Option Nat
  task : Option Nat
  timeoutMs : UInt64
  state : ServiceState
  setupHook : Bool
  teardownHook : Bool
  main : Bool
  handler : Bool
  terminationSemaphore : Option (Semaphore Nat)
  deriving DecidableEq, Repr

/-! ## The bytes of an event -/

/-- The bytes of a `uint32_t` in memory, least significant first. -/
def wordBytes (n : UInt32) : Bytes := (List.range 4).map fun i => UInt8.ofNat (n.toNat / 256 ^ i)

/-- The `uint32_t` that the bytes stand for. -/
def wordOf (b : Bytes) : UInt32 := UInt32.ofNat (b.foldr (fun x n => x.toNat + 256 * n) 0)

theorem wordOf_wordBytes (n : UInt32) : wordOf (wordBytes n) = n := by
  have hn : n.toNat < 2 ^ 32 := n.toNat_lt
  apply UInt32.toNat_inj.1
  simp only [wordOf, wordBytes, List.range, List.range.loop, List.map_cons, List.map_nil, List.foldr_cons,
    List.foldr_nil, UInt8.toNat_ofNat', UInt32.toNat_ofNat']
  omega

namespace ServiceEvent

/-- The event as the bytes of its structure. -/
def toBytes (e : ServiceEvent) : Bytes := wordBytes e.event ++ wordBytes e.payload

/-- The event that the bytes of the structure stand for. -/
def ofBytes (b : Bytes) : ServiceEvent := ⟨wordOf (b.take 4), wordOf ((b.drop 4).take 4)⟩

@[simp] theorem toBytes_length (e : ServiceEvent) : e.toBytes.length = sizeofServiceEvent := by
  simp [toBytes, wordBytes, sizeofServiceEvent]

@[simp] theorem ofBytes_toBytes (e : ServiceEvent) : ofBytes e.toBytes = e := by
  have hlen : ∀ n, (wordBytes n).length = 4 := fun n => by simp [wordBytes]
  unfold ofBytes toBytes
  rw [List.take_left' (hlen _), List.drop_left' (hlen _), List.take_of_length_le (by simp [hlen]),
    wordOf_wordBytes, wordOf_wordBytes]

end ServiceEvent

end InfoWorkshop.Core
