/-
A queue of a service as a queue of events: what its sections do to the events it holds, for any
property `P` of the bytes that the waiting threads keep.
-/
import InfoWorkshop.Posix.QueueFifo
import InfoWorkshop.Service.World

namespace InfoWorkshop.Service.World

open InfoWorkshop.Core InfoWorkshop.Memory InfoWorkshop.Posix InfoWorkshop.CondVar

/-- The event a `Queue_Receive` with result `error` has put into the bytes `b`, if any. -/
def taken (error : ErrorCode) (b : Bytes) : List ServiceEvent := if error = .success then [.ofBytes b] else []

/-- The queue holds exactly the events `xs`, oldest first, and those that wait in it keep bytes with `P`. -/
structure HoldsWith (P : Bytes → Prop) (q : Queue Thread) (xs : List ServiceEvent) : Prop where
  holds : q.Holds (xs.map ServiceEvent.toBytes)
  width : q.elementSize = sizeofServiceEvent
  waits : Waiters.All (fun r => P r.message) q.cond

/-- A `Queue_Receive` into `message` that returned `ret` has moved one event out of `xs`, or none and
left `message` alone. -/
structure ReceivedWith (P : Bytes → Prop) (message : Bytes) (xs : List ServiceEvent) (ret : ErrorCode × Bytes)
    (q : Queue Thread) : Prop where
  moved : ∃ ys, xs = taken ret.1 ret.2 ++ ys ∧ HoldsWith P q ys
  failed : ret.1 ≠ .success → ret.2 = message
  width : ret.2.length = sizeofServiceEvent

variable {P : Bytes → Prop} {q q' : Queue Thread} {xs : List ServiceEvent}

theorem HoldsWith.withCond (h : HoldsWith P q xs) {c : Waiters Thread Receiver}
    (hc : Waiters.All (fun r => P r.message) c) : HoldsWith P { q with cond := c } xs :=
  ⟨h.holds.withCond c, h.width, hc⟩

theorem holdsWith_allocate : HoldsWith P (Queue.allocate SERVICE_QUEUE_SIZE sizeofServiceEvent) [] :=
  ⟨Queue.allocate_holds _ _, rfl, Waiters.All.empty⟩

/-- `Queue_Send` appends the event, or finds the queue full and leaves it alone. -/
theorem HoldsWith.send (h : HoldsWith P q xs) (e : ServiceEvent) (pick : Nat) :
    q.send e.toBytes pick = (.errorResourceNotAvailable, q) ∨
      (q.send e.toBytes pick).1 = .success ∧ HoldsWith P (q.send e.toBytes pick).2 (xs ++ [e]) := by
  have hm : e.toBytes.length = q.elementSize := by rw [h.width]; exact e.toBytes_length
  rcases Nat.lt_or_ge (xs.map ServiceEvent.toBytes).length q.size with hroom | hfull
  · rw [Queue.send_room h.holds hroom]
    refine .inr ⟨rfl, ?_, by rw [← h.width]; exact Queue.put_elementSize q _, ?_⟩
    · rw [List.map_append]
      exact (Queue.put_holds h.holds hroom (by rw [h.width]; decide) hm).withCond _
    · show Waiters.All _ (if q.nElements = 0 then q.cond.signal pick else q.cond)
      split
      · exact h.waits.signal pick
      · exact h.waits
  · exact .inl (Queue.send_full h.holds (Nat.le_antisymm h.holds.bounded hfull) _ pick)

theorem HoldsWith.take (h : HoldsWith P q xs) {message : Bytes} (hm : message.length = sizeofServiceEvent) :
    ReceivedWith P message xs (q.take message).1 (q.take message).2 := by
  cases xs with
  | nil =>
    rw [Queue.take_nil h.holds]
    exact ⟨⟨[], rfl, h⟩, fun _ => rfl, hm⟩
  | cons x xs =>
    rw [Queue.take_cons h.holds (hm.trans h.width.symm)]
    refine ⟨⟨xs, ?_, Queue.take_cons_holds h.holds, h.width, h.waits⟩, fun hf => absurd rfl hf, x.toBytes_length⟩
    simp [taken]

/-- `Queue_Receive` up to its return or its wait. -/
theorem HoldsWith.receive (h : HoldsWith P q xs) (t : Thread) {message : Bytes} (hP : P message)
    (hm : message.length = sizeofServiceEvent) (timeoutMs : UInt64) (tv : Timeval) :
    (∃ q', q.receive t message timeoutMs tv = (none, q') ∧ HoldsWith P q' xs) ∨
    ∃ ret q', q.nElements ≠ 0 ∧ q.receive t message timeoutMs tv = (some ret, q') ∧
      ReceivedWith P message xs ret q' := by
  by_cases hn : q.nElements = 0
  · exact .inl ⟨_, Queue.receive_wait hn t _ timeoutMs tv, h.withCond (h.waits.wait hP)⟩
  · exact .inr ⟨_, _, hn, Queue.receive_now hn t _ timeoutMs tv, h.take hm⟩

/-- A `Queue_Receive` comes back from its wait with an event only after a 0, and only when there is one. -/
theorem resume_success {t : Thread} {ret : ErrorCode × Bytes} (hr : q.resume t = some (ret, q'))
    (hret : ret.1 = .success) : q.nElements ≠ 0 ∧ (q.cond.resume t).any (fun x => x.2.1 = .ok) = true := by
  obtain ⟨r, res, c, hc, ⟨rfl, hret', -⟩ | ⟨rfl, rfl, -⟩ | ⟨-, rfl, -⟩⟩ := Queue.resume_cases hr
  · refine ⟨fun hn => ?_, by rw [hc]; rfl⟩
    rcases ({ q with cond := c } : Queue Thread).take_cases r.message with ⟨-, ht⟩ | ⟨hne, -⟩
    · rw [hret', ht] at hret
      cases hret
    · exact hne hn
  · cases hret
  · cases hret

/-- `Queue_Receive` from its wait to its return. -/
theorem HoldsWith.resume (h : HoldsWith P q xs) (hwidth : ∀ b, P b → b.length = sizeofServiceEvent) {t : Thread}
    {ret : ErrorCode × Bytes} (hr : q.resume t = some (ret, q')) :
    ∃ message, P message ∧ ReceivedWith P message xs ret q' := by
  obtain ⟨r, res, c, hc, hcases⟩ := Queue.resume_cases hr
  obtain ⟨hmsg, hwaits⟩ := h.waits.resume hc
  have hrest := h.withCond hwaits
  refine ⟨r.message, hmsg, ?_⟩
  rcases hcases with ⟨-, rfl, rfl⟩ | ⟨-, rfl, rfl⟩ | ⟨-, rfl, rfl⟩
  · exact hrest.take (hwidth _ hmsg)
  · exact ⟨⟨xs, rfl, hrest⟩, fun _ => rfl, hwidth _ hmsg⟩
  · exact ⟨⟨xs, rfl, hrest⟩, fun _ => rfl, hwidth _ hmsg⟩

end InfoWorkshop.Service.World
