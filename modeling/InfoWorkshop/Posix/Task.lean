/-
`adapter/posix/task.c`: the table `TASKS`, and any number of calls of `Task_Create`, `Task_Delete`,
`Task_GetSelf` and `Task_GetName` by any number of threads. A step is one look at an entry of `TASKS` or
one write to it, one use of a task, or a call of `pthread_create` or `pthread_cancel`. Tasks, calls and the
entries of `TASKS` are functions on all numbers; `count` and `calls` say how many there are.

Threads are neither joined nor detached, so no `pthread_t` is used twice, and the thread of task `k` is
known by `k`.
-/
import InfoWorkshop.Lib.CString
import InfoWorkshop.Lib.Steps
import Mathlib.Logic.Function.Basic

namespace InfoWorkshop.Posix.Tasks

open InfoWorkshop.Memory InfoWorkshop.CString InfoWorkshop.Steps

def MAX_TASKS : Nat := 32

/-- The length of the array `name`. -/
def nameLength : Nat := 32

/-- `struct Task` and its thread: the array `name`, the string `Task_Create` got for it, whether
`pthread_create` has succeeded and the thread has begun, whether `Task_Create` has returned the handle,
whether `Task_Delete` has been called on the task, and whether it has been freed. Nothing uses `next`. -/
structure Task where
  name : Bytes
  requested : Bytes
  spawned : Bool
  begun : Bool
  handed : Bool
  doomed : Bool
  freed : Bool
  deriving DecidableEq, Repr

/-- What a thread calls `Task_GetSelf` for: for its own sake, in `Task_GetName(NULL)` or in
`Task_Delete(NULL)`. -/
inductive Purpose
  | getSelf
  | getName
  | delete
  deriving DecidableEq, Repr

/-- Where a call is. `me` is the task of the calling thread, if `Task_Create` has started it; `caller`
that of a thread that has called `Task_Delete(NULL)`. `Task_GetSelf` reads `TASKS[i]` up to three times:
in `look`, in `compare`, whose value `read` uses, and in `load` for the result. -/
inductive Call
  | alloc (name : Bytes)
  | spawn (k : Nat)
  | test (k i : Nat)
  | store (k i : Nat)
  | look (me : Option Nat) (why : Purpose) (i : Nat)
  | compare (me : Option Nat) (why : Purpose) (i : Nat)
  | read (me : Option Nat) (why : Purpose) (i k : Nat)
  | load (me : Nat) (why : Purpose) (i : Nat)
  | find (caller : Option Nat) (k i : Nat)
  | clear (caller : Option Nat) (k i : Nat)
  | cancel (caller : Option Nat) (k : Nat)
  | free (caller : Option Nat) (k : Nat)
  | gotSelf (me : Option Nat) (result : Option Nat)
  | gotName (me : Option Nat) (result : Option Bytes)
  /-- `Task_Delete(NULL)` has returned without a task. -/
  | foundNone (me : Option Nat)
  | returned
  deriving DecidableEq, Repr

/-- The tasks of the program; `crashed` after a use of memory that is not there. -/
structure Registry where
  slots : Nat → Option Nat
  count : Nat
  task : Nat → Task
  calls : Nat
  call : Nat → Call
  crashed : Bool

inductive Api
  | create (name : Bytes)
  | delete (k : Nat)
  | self (me : Option Nat) (why : Purpose)
  deriving DecidableEq, Repr

/-- A thread makes a call, a call makes a step, a created thread begins. -/
inductive Act
  | call (api : Api)
  | step (c : Nat) (ok : Bool)
  | begin (k : Nat)
  deriving DecidableEq, Repr

namespace Registry

def noTask : Task := ⟨[], [], false, false, false, false, false⟩

def init : Registry :=
  { slots := fun _ => none, count := 0, task := fun _ => noTask, calls := 0, call := fun _ => .returned
    crashed := false }

def goto (s : Registry) (c : Nat) (k : Call) : Registry := { s with call := Function.update s.call c k }

def setSlot (s : Registry) (i : Nat) (v : Option Nat) : Registry :=
  { s with slots := Function.update s.slots i v }

def setTask (s : Registry) (k : Nat) (t : Task) : Registry := { s with task := Function.update s.task k t }

/-- A new call. -/
def enter (s : Registry) (k : Call) : Registry := { s.goto s.calls k with calls := s.calls + 1 }

def crash (s : Registry) : Registry := { s with crashed := true }

/-- The handle of task `k` is returned by `Task_Create`. -/
def hand (s : Registry) (k : Nat) : Registry := s.setTask k { s.task k with handed := true }

/-- `Task_Delete` is called on task `k`. -/
def doom (s : Registry) (k : Nat) : Registry := s.setTask k { s.task k with doomed := true }

/-- What the caller does with the result of `Task_GetSelf`. -/
def answer (s : Registry) (c : Nat) (me : Option Nat) (why : Purpose) (result : Option Nat) : Registry :=
  match why, result with
  | .getSelf, _ => s.goto c (.gotSelf me result)
  | .getName, _ => s.goto c (.gotName me (result.map fun k => cstr (s.task k).name 0))
  | .delete, some k => s.goto c (.find me k 0)
  | .delete, none => s.goto c (.foundNone me)

/-- One step of call `c`. -/
def advance (s : Registry) (c : Nat) (ok : Bool) : Call → Option Registry
  | .alloc name =>
    match strcpy (.replicate nameLength 0) (cstr name 0) with
    | none => some s.crash
    | some buf =>
      some (({ s with count := s.count + 1 }.setTask s.count
        { noTask with name := buf, requested := cstr name 0 }).goto c (.spawn s.count))
  | .spawn k =>
    if ok then some ((s.setTask k { s.task k with spawned := true }).goto c (.test k 0))
    else some (s.goto c .returned)
  | .test k i =>
    if i < MAX_TASKS then
      if s.slots i = none then some (s.goto c (.store k i)) else some (s.goto c (.test k (i + 1)))
    else some ((s.hand k).goto c .returned)
  | .store k i => some (((s.setSlot i (some k)).hand k).goto c .returned)
  | .look me why i =>
    if i < MAX_TASKS then
      if s.slots i = none then some (s.goto c (.look me why (i + 1))) else some (s.goto c (.compare me why i))
    else some (s.answer c me why none)
  | .compare me why i =>
    -- the entry was not `NULL`, but it is read again
    match s.slots i with
    | none => some s.crash
    | some k => some (s.goto c (.read me why i k))
  | .read me why i k =>
    if (s.task k).freed then some s.crash
    else if me = some k then some (s.goto c (.load k why i))
    else some (s.goto c (.look me why (i + 1)))
  | .load me why i => some (s.answer c (some me) why (s.slots i))
  | .find caller k i =>
    if i < MAX_TASKS then
      if s.slots i = some k then some (s.goto c (.clear caller k i))
      else some (s.goto c (.find caller k (i + 1)))
    else some (s.goto c (.cancel caller k))
  | .clear caller k i => some ((s.setSlot i none).goto c (.cancel caller k))
  | .cancel caller k => if (s.task k).freed then some s.crash else some (s.goto c (.free caller k))
  | .free _ k => some ((s.setTask k { s.task k with freed := true }).goto c .returned)
  | _ => none

/-- A call begins. A handle is deleted at most once, after `Task_Create` has returned it; a thread makes
calls once it has begun. -/
def start (s : Registry) : Api → Option Registry
  | .create name => some (s.enter (.alloc name))
  | .delete k =>
    if (s.task k).handed = true ∧ (s.task k).doomed = false then some ((s.doom k).enter (.find none k 0)) else none
  | .self none why => some (s.enter (.look none why 0))
  | .self (some k) why =>
    if (s.task k).begun = false then none
    else if why = .delete then
      if (s.task k).doomed then none else some ((s.doom k).enter (.look (some k) why 0))
    else some (s.enter (.look (some k) why 0))

/-- One step. After a crash there is none. -/
def step (s : Registry) (a : Act) : Option Registry :=
  if s.crashed then none
  else
    match a with
    | .call api => s.start api
    | .step c ok => s.advance c ok (s.call c)
    | .begin k =>
      if (s.task k).spawned = true ∧ (s.task k).begun = false then
        some (s.setTask k { s.task k with begun := true })
      else none

/-! ## Updates -/

section Updates

variable (s : Registry) (c d i j k l : Nat) (x : Call) (v : Option Nat) (t : Task)

@[simp] theorem goto_call : (s.goto c x).call d = if d = c then x else s.call d := by
  simp [goto, Function.update_apply]

@[simp] theorem goto_slots : (s.goto c x).slots i = s.slots i := rfl
@[simp] theorem goto_task : (s.goto c x).task l = s.task l := rfl

@[simp] theorem setSlot_slots : (s.setSlot i v).slots j = if j = i then v else s.slots j := by
  simp [setSlot, Function.update_apply]

@[simp] theorem setSlot_call : (s.setSlot i v).call d = s.call d := rfl
@[simp] theorem setSlot_task : (s.setSlot i v).task l = s.task l := rfl

@[simp] theorem setTask_task : (s.setTask k t).task l = if l = k then t else s.task l := by
  simp [setTask, Function.update_apply]

@[simp] theorem setTask_call : (s.setTask k t).call d = s.call d := rfl
@[simp] theorem setTask_slots : (s.setTask k t).slots i = s.slots i := rfl

@[simp] theorem enter_call : (s.enter x).call d = if d = s.calls then x else s.call d := goto_call s _ _ _

end Updates

end Registry

end InfoWorkshop.Posix.Tasks
