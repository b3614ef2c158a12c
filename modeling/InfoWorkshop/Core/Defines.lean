/-
`core/error.h` and the allocation helpers of `core/defines.h`.
-/
import InfoWorkshop.Lib.Memory

namespace InfoWorkshop.Core

open InfoWorkshop.Memory

/-- `ErrorCode` of `core/error.h`. -/
inductive ErrorCode
  | success
  | failure
  | ignored
  | errorInvalidState
  | errorInvalidArguments
  | errorNoMemory
  | errorAssertionFailed
  | errorUnreachableCode
  | errorResourceNotAvailable
  | errorCrc
  | errorTimeout
  | errorNotImplemented
  | errorNotFound
  | errorOs
  | errorNetwork
  | errorBle
  | errorMqtt
  deriving DecidableEq, Repr

/-- `xmalloc`: `NULL` for a size of 0. A failing allocation reboots, which ends the run. -/
def xmalloc (h : Heap) (size : Nat) : Option Addr × Heap :=
  if size = 0 then (none, h) else (some (h.alloc size).1, (h.alloc size).2)

/-- `xcalloc`: `NULL` when there is nothing to allocate. -/
def xcalloc (h : Heap) (num size : Nat) : Option Addr × Heap :=
  if size = 0 ∨ num = 0 then (none, h) else (some (h.alloc (num * size)).1, (h.alloc (num * size)).2)

end InfoWorkshop.Core
