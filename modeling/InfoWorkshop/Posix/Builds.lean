/-
The asserting and the `NDEBUG` build of `adapter/posix/queue.c` and `adapter/posix/semaphore.c`. Any
number of threads `K` call the functions of any number of queues `Q` and semaphores `S`. A step is one
call of the operating system or one access to the shared data; the data of a queue is only used with
its mutex held, in both builds, so that its sections are the ones of `Queue`.
-/
import InfoWorkshop.Lib.Mutex
import InfoWorkshop.Lib.Steps
import InfoWorkshop.Posix.Queue
import InfoWorkshop.Posix.Semaphore

namespace InfoWorkshop.Posix.Builds

open InfoWorkshop.Core InfoWorkshop.Memory InfoWorkshop.CondVar InfoWorkshop.Steps

/-- With `NDEBUG` an `assert` is erased, and the call it tests with it. -/
inductive Build
  | asserting
  | ndebug
  deriving DecidableEq, Repr

/-- `assert(0 == call)`, where the call returns `ret` and has the effect `effect`. A failing assertion
ends the run. -/
def Build.assertZero {A : Type*} (b : Build) (ret : Nat) (effect : A → Option A) (x : A) : Option A :=
  match b with
  | .asserting => if ret = 0 then effect x else none
  | .ndebug => some x

/-- The mutex of a queue or of a semaphore. -/
inductive Lock (Q S : Type*)
  | queue (queue : Q)
  | semaphore (semaphore : S)
  deriving DecidableEq, Repr

/-- The calls of the two adapters. The pointers are those of existing objects, so the assertions that
they are not `NULL` hold. -/
inductive Call (Q S : Type*)
  | send (queue : Q) (message : Bytes)
  | receive (queue : Q) (message : Bytes) (timeoutMs : UInt64)
  | take (semaphore : S) (timeoutMs : UInt64)
  | give (semaphore : S)
  deriving DecidableEq, Repr

/-- What a thread does next, with its local variables. -/
inductive Control (Q S : Type*)
  | idle
  | sendLock (queue : Q) (message : Bytes)
  | sendPut (queue : Q) (message : Bytes)
  | sendUnlock (queue : Q) (error : ErrorCode)
  | receiveLock (queue : Q) (message : Bytes) (timeoutMs : UInt64)
  | receiveTest (queue : Q) (message : Bytes) (timeoutMs : UInt64)
  | receiveWait (queue : Q)
  | receiveUnlock (queue : Q) (error : ErrorCode) (message : Bytes)
  | takeLock (semaphore : S) (timeoutMs : UInt64)
  | takeClock (semaphore : S) (timeoutMs : UInt64)
  | takeTest (semaphore : S) (timeoutMs : UInt64) (tv : Timeval)
  | takeSleep (semaphore : S) (timeoutMs : UInt64) (tv : Timeval)
  | takeWait (semaphore : S)
  | takeCheck (semaphore : S)
  | takeSet (semaphore : S)
  | takeUnlock (semaphore : S) (error : ErrorCode)
  | giveLock (semaphore : S)
  | giveTest (semaphore : S)
  | giveClear (semaphore : S)
  | giveSignal (semaphore : S)
  | giveUnlock (semaphore : S)
  deriving DecidableEq, Repr

/-- Where a call begins. -/
def Call.start {Q S : Type*} : Call Q S → Control Q S
  | send queue message => .sendLock queue message
  | receive queue message timeoutMs => .receiveLock queue message timeoutMs
  | take semaphore timeoutMs => .takeLock semaphore timeoutMs
  | give semaphore => .giveLock semaphore

/-- The mutex a thread has locked and not yet unlocked. -/
def Control.held {Q S : Type*} : Control Q S → Option (Lock Q S)
  | sendPut q _ | sendUnlock q _ | receiveTest q _ _ | receiveUnlock q _ _ => some (.queue q)
  | takeClock m _ | takeTest m _ _ | takeSleep m _ _ | takeCheck m | takeSet m | takeUnlock m _
  | giveTest m | giveClear m | giveSignal m | giveUnlock m => some (.semaphore m)
  | _ => none

/-- What the operating system answers: the result of the call, the time `gettimeofday` fills in and the
thread a signal wakes. -/
structure Answer where
  ret : Nat
  clock : Timeval
  pick : Nat
  deriving DecidableEq, Repr

/-- A thread calls a function, goes on with it, or has its wait end with a result. -/
inductive Action (K Q S : Type*)
  | call (t : K) (c : Call Q S)
  | run (t : K) (a : Answer)
  | wake (t : K) (res : WaitResult)
  deriving DecidableEq, Repr

/-- The objects, the owners of their mutexes, the threads, and what the calls returned: the error code,
and for `Queue_Receive` what `message` holds then. -/
structure State (K Q S : Type*) where
  queue : Q → Queue K
  semaphore : S → Semaphore K
  owner : Lock Q S → Option K
  control : K → Control Q S
  results : List (K × ErrorCode × Option Bytes)

theorem zero_usec : 0 < 1000000 := by omega

/-- `struct timeval tv = {0}`. -/
def zeroTime : Timeval := ⟨0, 0, zero_usec⟩

/-- `struct timeval tv = {0}; assert(0 == gettimeofday(&tv, NULL));` -/
def Build.gettimeofday (b : Build) (a : Answer) : Option Timeval :=
  b.assertZero a.ret (fun _ => some a.clock) zeroTime

namespace State

variable {K Q S : Type*} [DecidableEq K] [DecidableEq Q] [DecidableEq S]

def goto (s : State K Q S) (t : K) (c : Control Q S) : State K Q S :=
  { s with control := Function.update s.control t c }

/-- The call of `t` returns. -/
def ret (s : State K Q S) (t : K) (r : ErrorCode × Option Bytes) : State K Q S :=
  { s.goto t .idle with results := s.results ++ [(t, r)] }

def setQueue (s : State K Q S) (q : Q) (queue : Queue K) : State K Q S :=
  { s with queue := Function.update s.queue q queue }

def setSemaphore (s : State K Q S) (m : S) (semaphore : Semaphore K) : State K Q S :=
  { s with semaphore := Function.update s.semaphore m semaphore }

/-- `pthread_mutex_lock`. It blocks while the mutex is owned, whoever owns it. -/
def lock (s : State K Q S) (t : K) (l : Lock Q S) : Option (State K Q S) :=
  if s.owner l = none then some { s with owner := Function.update s.owner l (some t) } else none

/-- `pthread_mutex_unlock`. -/
def unlock (s : State K Q S) (l : Lock Q S) : State K Q S :=
  { s with owner := Function.update s.owner l none }

/-- Thread `t` goes on, with the answer `a` where it calls the operating system. Only the owner of the
mutex may call `pthread_cond_timedwait`: for another thread POSIX leaves it undefined. -/
def run (b : Build) (s : State K Q S) (t : K) (a : Answer) : Option (State K Q S) :=
  match s.control t with
  | .idle => none
  | .sendLock q message =>
    if a.ret ≠ 0 then some (s.ret t (.failure, none))
    else (s.lock t (.queue q)).map fun s => s.goto t (.sendPut q message)
  | .sendPut q message =>
    let (error, queue) := (s.queue q).send message a.pick
    some ((s.setQueue q queue).goto t (.sendUnlock q error))
  | .sendUnlock q error => some ((s.unlock (.queue q)).ret t (error, none))
  | .receiveLock q message timeoutMs =>
    if a.ret ≠ 0 then some (s.ret t (.failure, some message))
    else (s.lock t (.queue q)).map fun s => s.goto t (.receiveTest q message timeoutMs)
  | .receiveTest q message timeoutMs =>
    -- the clock is read only on the path of an empty queue
    (if (s.queue q).nElements = 0 then b.gettimeofday a else some zeroTime).map fun tv =>
      match (s.queue q).receive t message timeoutMs tv with
      | (none, queue) => ((s.setQueue q queue).unlock (.queue q)).goto t (.receiveWait q)
      | (some (error, message), queue) => (s.setQueue q queue).goto t (.receiveUnlock q error message)
  | .receiveWait q =>
    ((s.queue q).resume t).bind fun ((error, message), queue) =>
      (s.lock t (.queue q)).map fun s => (s.setQueue q queue).goto t (.receiveUnlock q error message)
  | .receiveUnlock q error message =>
    (b.assertZero a.ret (fun s => some (s.unlock (.queue q))) s).map fun s => s.ret t (error, some message)
  | .takeLock m timeoutMs =>
    (b.assertZero a.ret (fun s => s.lock t (.semaphore m)) s).map fun s => s.goto t (.takeClock m timeoutMs)
  | .takeClock m timeoutMs => (b.gettimeofday a).map fun tv => s.goto t (.takeTest m timeoutMs tv)
  | .takeTest m timeoutMs tv =>
    if (s.semaphore m).locked then
      (b.gettimeofday a).map fun now =>
        s.goto t (if Semaphore.elapsedTimeMs tv now < timeoutMs then .takeSleep m timeoutMs tv else .takeCheck m)
    else some (s.goto t (.takeCheck m))
  | .takeSleep m timeoutMs tv =>
    if s.owner (.semaphore m) = some t then
      let cond := (s.semaphore m).cond.wait t ⟨timeoutMs, tv, Semaphore.deadline tv timeoutMs⟩
      some (((s.setSemaphore m { s.semaphore m with cond }).unlock (.semaphore m)).goto t (.takeWait m))
    else none
  | .takeWait m =>
    ((s.semaphore m).cond.resume t).bind fun (k, res, cond) =>
      (s.lock t (.semaphore m)).map fun s =>
        (s.setSemaphore m { s.semaphore m with cond }).goto t
          (match res with
          | .ok => .takeTest m k.timeoutMs k.tv
          -- the clock reading for the log line is left out
          | .timedOut => .takeUnlock m .errorTimeout
          | .failed _ => .takeUnlock m .errorOs)
  | .takeCheck m =>
    some (s.goto t (if (s.semaphore m).locked then .takeUnlock m .errorTimeout else .takeSet m))
  | .takeSet m =>
    some ((s.setSemaphore m { s.semaphore m with locked := true }).goto t (.takeUnlock m .success))
  | .takeUnlock m error =>
    (b.assertZero a.ret (fun s => some (s.unlock (.semaphore m))) s).map fun s => s.ret t (error, none)
  | .giveLock m =>
    (b.assertZero a.ret (fun s => s.lock t (.semaphore m)) s).map fun s => s.goto t (.giveTest m)
  | .giveTest m => some (s.goto t (if (s.semaphore m).locked then .giveClear m else .giveUnlock m))
  | .giveClear m =>
    some ((s.setSemaphore m { s.semaphore m with locked := false }).goto t (.giveSignal m))
  | .giveSignal m =>
    let signalled (s : State K Q S) :=
      s.setSemaphore m { s.semaphore m with cond := (s.semaphore m).cond.signal a.pick }
    (b.assertZero a.ret (fun s => some (signalled s)) s).map fun s => s.goto t (.giveUnlock m)
  | .giveUnlock m =>
    (b.assertZero a.ret (fun s => some (s.unlock (.semaphore m))) s).map fun s => s.ret t (.success, none)

/-- The wait of `t` ends with `res`, without a signal. -/
def wake (s : State K Q S) (t : K) (res : WaitResult) : Option (State K Q S) :=
  match s.control t with
  | .receiveWait q =>
    ((s.queue q).cond.wake t res).map fun cond => s.setQueue q { s.queue q with cond }
  | .takeWait m =>
    ((s.semaphore m).cond.wake t res).map fun cond => s.setSemaphore m { s.semaphore m with cond }
  | _ => none

def step (b : Build) (s : State K Q S) : Action K Q S → Option (State K Q S)
  | .call t c => if s.control t = .idle then some (s.goto t c.start) else none
  | .run t a => s.run b t a
  | .wake t res => s.wake t res

/-! ## The sections of a semaphore -/

omit [DecidableEq Q] [DecidableEq S] in
@[simp] theorem goto_control (s : State K Q S) (t : K) (c : Control Q S) : (s.goto t c).control t = c := by
  simp [goto]

omit [DecidableEq Q] [DecidableEq S] in
@[simp] theorem goto_semaphore (s : State K Q S) (t : K) (c : Control Q S) :
    (s.goto t c).semaphore = s.semaphore := rfl

omit [DecidableEq Q] [DecidableEq S] in
@[simp] theorem goto_owner (s : State K Q S) (t : K) (c : Control Q S) : (s.goto t c).owner = s.owner := rfl

omit [DecidableEq Q] [DecidableEq S] in
@[simp] theorem goto_goto (s : State K Q S) (t : K) (c e : Control Q S) : (s.goto t c).goto t e = s.goto t e := by
  simp [goto]

omit [DecidableEq K] [DecidableEq Q] in
@[simp] theorem setSemaphore_semaphore (s : State K Q S) (m : S) (x : Semaphore K) :
    (s.setSemaphore m x).semaphore m = x := by
  simp [setSemaphore]

omit [DecidableEq Q] in
@[simp] theorem goto_setSemaphore (s : State K Q S) (t : K) (c : Control Q S) (m : S) (x : Semaphore K) :
    (s.goto t c).setSemaphore m x = (s.setSemaphore m x).goto t c := rfl

@[simp] theorem goto_unlock (s : State K Q S) (t : K) (c : Control Q S) (l : Lock Q S) :
    (s.goto t c).unlock l = (s.unlock l).goto t c := rfl

omit [DecidableEq K] [DecidableEq Q] in
@[simp] theorem setSemaphore_setSemaphore (s : State K Q S) (m : S) (x y : Semaphore K) :
    (s.setSemaphore m x).setSemaphore m y = s.setSemaphore m y := by
  simp [setSemaphore]

omit [DecidableEq K] [DecidableEq Q] in
theorem setSemaphore_self (s : State K Q S) (m : S) : s.setSemaphore m (s.semaphore m) = s := by
  simp [setSemaphore]

variable {s : State K Q S} {t : K} {m : S}

/-- The steps of a thread that gives with the mutex held add up to `Semaphore.give`. -/
theorem give_section (hc : s.control t = .giveTest m) {a : Answer} (ha : a.ret = 0) :
    ∃ xs : List Answer, exec (step .asserting) s (xs.map (.run t)) =
      some ((s.setSemaphore m ((s.semaphore m).give a.pick).2).goto t (.giveUnlock m)) := by
  cases hl : (s.semaphore m).locked with
  | false =>
    refine ⟨[a], ?_⟩
    rw [Semaphore.give_of_free hl, setSemaphore_self]
    simp [exec, step, run, hc, hl]
  | true =>
    refine ⟨[a, a, a], ?_⟩
    rw [Semaphore.give_of_locked hl]
    simp [exec, step, run, hc, hl, Build.assertZero, ha]

/-- The steps of a thread that takes with the mutex held add up to a pass of `Semaphore.loop`. -/
theorem take_section {timeoutMs : UInt64} {tv : Timeval} (hc : s.control t = .takeTest m timeoutMs tv)
    (ho : s.owner (.semaphore m) = some t) {a : Answer} (ha : a.ret = 0) :
    ∃ xs : List Answer, exec (step .asserting) s (xs.map (.run t)) =
      some (match (s.semaphore m).loop t timeoutMs tv a.clock with
        | (none, semaphore) => ((s.setSemaphore m semaphore).unlock (.semaphore m)).goto t (.takeWait m)
        | (some error, semaphore) => (s.setSemaphore m semaphore).goto t (.takeUnlock m error)) := by
  have hclock : Build.asserting.gettimeofday a = some a.clock := if_pos ha
  unfold Semaphore.loop
  cases hl : (s.semaphore m).locked with
  | false =>
    refine ⟨[a, a, a], ?_⟩
    simp [exec, step, run, hc, hl]
  | true =>
    by_cases he : Semaphore.elapsedTimeMs tv a.clock < timeoutMs
    · refine ⟨[a, a], ?_⟩
      simp [exec, step, run, hc, hl, hclock, he, ho]
    · refine ⟨[a, a], ?_⟩
      simp [exec, step, run, hc, hl, hclock, he, setSemaphore_self]

end State

end InfoWorkshop.Posix.Builds
