/-
The network console as a service: `Service_Main` calls `Console_NetConsoleMain`, which returns only when one
of `socket`, `bind`, `listen` and `accept` fails. Nobody stops the console or notifies it, and one task makes
all the calls of `Service_Start`.
-/
import InfoWorkshop.Console.ServerAnswers
import InfoWorkshop.Lib.Potential
import InfoWorkshop.Service.Termination

namespace InfoWorkshop.Service

open InfoWorkshop.Core InfoWorkshop.Memory InfoWorkshop.Posix InfoWorkshop.Steps InfoWorkshop.Table
  InfoWorkshop.Console

/-- The program, with the console service and the server that its `main` runs. -/
structure Device where
  world : World
  server : Server
  deriving DecidableEq, Repr

/-- The steps: one of the service, or of the server in its `main`. -/
inductive DeviceAct
  | world (a : Act)
  | serve (reply : Reply)
  deriving DecidableEq, Repr

namespace Device

def boot : Device := ⟨.init World.serviceNetworkConsole, .boot .init⟩

/-- A fault of the service has ended the program, or a write of the server. -/
def ended (d : Device) : Bool := d.world.fault.isSome || d.server.killed

/-- `main` is running. -/
def serving (d : Device) : Bool := d.world.tasks.any fun t => t.pc = .inMain

/-- What the program does of the steps of the service: the next `Service_Start` follows the return of the one
before, and the task leaves `main` when the server has returned. -/
def mayStep (d : Device) : Act → Bool
  | .call .start => d.world.calls.all fun k => k = .returned
  | .call _ => false
  | .task i _ => d.world.tasks[i]?.all fun t => t.pc ≠ .inMain ∨ d.server.pc = .returned
  | _ => true

def step (VERSION : Bytes) (d : Device) (a : DeviceAct) : Option Device :=
  if d.ended = true then none
  else
    match a with
    | .world a =>
      if d.mayStep a then
        match d.world.step a with
        | some world => some { d with world }
        | none => none
      else none
    | .serve reply =>
      if d.serving = true then
        match d.server.step (gCommands VERSION) reply with
        | some server => some { d with server }
        | none => none
      else none

theorem step_world {VERSION : Bytes} {d e : Device} {a : Act} (h : step VERSION d (.world a) = some e) :
    d.ended = false ∧ d.mayStep a = true ∧ ∃ w, d.world.step a = some w ∧ e = { d with world := w } := by
  simp only [step] at h
  split at h
  · cases h
  · rename_i hended
    split at h
    · rename_i hmay
      split at h <;> cases h
      exact ⟨Bool.eq_false_iff.2 hended, hmay, _, ‹_›, rfl⟩
    · cases h

theorem step_serve {VERSION : Bytes} {d e : Device} {reply : Reply} (h : step VERSION d (.serve reply) = some e) :
    d.ended = false ∧ d.serving = true ∧
      ∃ server, d.server.step (gCommands VERSION) reply = some server ∧ e = { d with server } := by
  simp only [step] at h
  split at h
  · cases h
  · rename_i hended
    split at h
    · rename_i hserving
      split at h <;> cases h
      exact ⟨Bool.eq_false_iff.2 hended, hserving, _, ‹_›, rfl⟩
    · cases h

theorem world_step {VERSION : Bytes} {d : Device} {a : Act} {w : World} (hended : d.ended = false)
    (hmay : d.mayStep a = true) (hw : d.world.step a = some w) :
    step VERSION d (.world a) = some { d with world := w } := by
  simp only [step, hended, Bool.false_eq_true, if_false, hmay, if_true, hw]

theorem serve_step {VERSION : Bytes} {d : Device} {reply : Reply} {server : Server} (hended : d.ended = false)
    (hserving : d.serving = true) (hserver : d.server.step (gCommands VERSION) reply = some server) :
    step VERSION d (.serve reply) = some { d with server } := by
  simp only [step, hended, Bool.false_eq_true, if_false, hserving, if_true, hserver]

theorem ended_eq_false {d : Device} : d.ended = false ↔ d.world.fault = none ∧ d.server.killed = false := by
  simp [ended]

/-- A call of `socket`, `bind`, `listen` or `accept` fails. -/
def callFails (d : Device) : DeviceAct → Bool
  | .serve (.result r) =>
    match d.server.pc with
    | .socket | .bind _ | .listen _ | .accept _ => decide (r < 0)
    | _ => false
  | _ => false

def NoCallFails (d : Device) (a : DeviceAct) : Prop := d.callFails a = false

instance (d : Device) (a : DeviceAct) : Decidable (d.NoCallFails a) := inferInstanceAs (Decidable (_ = _))

/-- A write ends the process. -/
def inWrite : DeviceAct → Bool
  | .serve (.sigpipe _ _) => true
  | _ => false

/-- The queue and the task can be had. -/
def Supplied : DeviceAct → Bool
  | .world (.caller _ ch) => ch.ok
  | _ => true

/-- A step of the task of the console. -/
def ofTask : DeviceAct → Bool
  | .world (.task _ _) | .serve _ => true
  | _ => false

/-- The server has given up. -/
def GaveUp (d : Device) : Prop := d.server.pc = .returned ∨ ∃ server, d.server.pc = .failure server

/-! ## The start of the console -/

/-- What holds when the `Service_Start` in progress is at a point. -/
def StartAt (w : World) : StartPc → Prop
  | .check => True
  | .setRunning => w.service.state = .stopped
  | .setDefaults | .newQueue | .createTask _ => w.service.state ≠ .stopped ∧ w.tasks = []
  | .storeQueue queue => w.service.state ≠ .stopped ∧ w.tasks = [] ∧ queue ≠ none
  | .checkQueue _ => w.service.state ≠ .stopped ∧ w.tasks = [] ∧ w.service.queue ≠ none
  | .register task => task = 0 ∧ w.tasks ≠ []
  | .storeTask task => w.tasks ≠ [] ∧ task ≠ none
  | .checkTask _ => w.tasks ≠ [] ∧ w.service.task ≠ none

/-- What the steps before the start, the start and `main` leave of the service. -/
structure Starting (w : World) : Prop where
  setupHook : w.service.setupHook = false
  teardownHook : w.service.teardownHook = false
  main : w.service.main = true
  semaphore : w.service.terminationSemaphore = none
  idle : w.service.state = .stopped → w.tasks = []
  calls : ∀ c k, w.calls[c]? = some k → k = .returned ∨ c + 1 = w.calls.length ∧ ∃ pc, k = .start pc ∧ StartAt w pc

/-- Where the task of the console may be, with its server. -/
def TaskAt (server : Server) (t : TaskObject) : Prop :=
  match t.pc with
  | .entry | .body => server = .boot .init
  | .inMain => True
  | .teardown | .give => server.pc = .returned
  | _ => False

/-- The invariant: no task, or one in whose `main` the server is. -/
structure Inv (d : Device) : Prop extends Starting d.world where
  unserved : d.world.tasks = [] → d.server = .boot .init
  tasks : d.world.tasks = [] ∨ ∃ t, d.world.tasks = [t] ∧ t.deleted = false ∧ TaskAt d.server t
  fault : d.world.fault = none ∨ d.world.fault = some .assertion ∧ d.server.pc = .returned

theorem inv_boot : boot.Inv where
  setupHook := rfl
  teardownHook := rfl
  main := rfl
  semaphore := rfl
  idle := fun _ => rfl
  calls := fun c k h => by cases h
  unserved := fun _ => rfl
  tasks := .inl rfl
  fault := .inl rfl

/-- The point of the start stands as long as its fields do. -/
theorem StartAt.same {w w' : World} {pc : StartPc} (h : StartAt w pc) (hservice : w'.service = w.service)
    (htasks : w'.tasks = [] ↔ w.tasks = []) : StartAt w' pc := by
  cases pc <;> simp_all [StartAt]

theorem Starting.same {w w' : World} (h : Starting w) (hservice : w'.service = w.service)
    (htasks : w'.tasks = [] ↔ w.tasks = []) (hcalls : w'.calls = w.calls) : Starting w' where
  setupHook := hservice ▸ h.setupHook
  teardownHook := hservice ▸ h.teardownHook
  main := hservice ▸ h.main
  semaphore := hservice ▸ h.semaphore
  idle := fun hstop => htasks.2 (h.idle (hservice ▸ hstop))
  calls := fun c k hk => by
    rw [hcalls] at hk ⊢
    rcases h.calls c k hk with hret | ⟨hc, pc, hpc, hat⟩
    · exact .inl hret
    · exact .inr ⟨hc, pc, hpc, hat.same hservice htasks⟩

/-- What a step of the `Service_Start` in progress, call `c` at `pc`, comes to. -/
structure StartStep (w : World) (c : Nat) (pc : StartPc) (w' : World) : Prop where
  fault : w'.fault = w.fault
  idle : w'.service.state = .stopped → w'.tasks = []
  calls : ∃ k, w'.calls = w.calls.set c k ∧
    (k = .returned ∧ (pc = .check ∧ w.service.state ≠ .stopped ∨ w'.tasks ≠ []) ∨ ∃ pc, k = .start pc ∧ StartAt w' pc)
  tasks : w'.tasks = w.tasks ∨ (w.tasks = [] ∧ ∃ queue, w'.tasks = [⟨.entry, queue, false, false⟩]) ∨
    (w.tasks ≠ [] ∧ ∃ registered, w'.tasks = w.tasks.modify 0 fun t => { t with registered })

/-- The call goes on to another point of `Service_Start`. -/
theorem startStep_goto {w v : World} {c : Nat} {old pc : StartPc} (hfault : v.fault = w.fault)
    (hcalls : v.calls = w.calls) (htasks : v.tasks = w.tasks) (hidle : v.service.state = .stopped → w.tasks = [])
    (hat : StartAt (v.goto c (.start pc)) pc) : StartStep w c old (v.goto c (.start pc)) :=
  ⟨hfault, fun hstop => htasks.trans (hidle hstop), ⟨_, by rw [← hcalls]; rfl, .inr ⟨pc, rfl, hat⟩⟩, .inl htasks⟩

/-- A step of `Service_Start`. Without a task its resources have to be there. -/
theorem StartAt.step {w w' : World} {c : Nat} {ch : Choice} {pc : StartPc} (h : StartAt w pc)
    (hidle : w.service.state = .stopped → w.tasks = []) (hok : ch.ok = true ∨ w.tasks ≠ [])
    (hs : w.serviceStart c ch pc = some w') : StartStep w c pc w' := by
  cases pc with
  | check =>
    simp only [World.serviceStart] at hs
    split at hs <;> cases hs
    · exact ⟨rfl, hidle, ⟨_, rfl, .inl ⟨rfl, .inl ⟨rfl, ‹_›⟩⟩⟩, .inl rfl⟩
    · rename_i hstop
      exact startStep_goto rfl rfl rfl hidle (not_not.1 hstop)
  | setRunning =>
    cases hs
    exact startStep_goto rfl rfl rfl (fun _ => hidle h) ⟨by rintro ⟨⟩, hidle h⟩
  | setDefaults =>
    cases hs
    exact startStep_goto rfl rfl rfl hidle h
  | newQueue =>
    obtain ⟨hrun, hnone⟩ := h
    have hgot : ch.ok = true := hok.resolve_right (not_not.2 hnone)
    simp only [World.serviceStart, hgot, Queue.new] at hs
    cases hs
    exact startStep_goto rfl rfl rfl hidle ⟨hrun, hnone, Option.some_ne_none _⟩
  | storeQueue queue =>
    obtain ⟨hrun, hnone, hqueue⟩ := h
    cases hs
    exact startStep_goto rfl rfl rfl hidle ⟨hrun, hnone, hqueue⟩
  | checkQueue queue =>
    obtain ⟨hrun, hnone, hqueue⟩ := h
    simp only [World.serviceStart, if_neg hqueue] at hs
    cases hs
    exact startStep_goto rfl rfl rfl hidle ⟨hrun, hnone⟩
  | createTask queue =>
    obtain ⟨hrun, hnone⟩ := h
    have hgot : ch.ok = true := hok.resolve_right (not_not.2 hnone)
    simp only [World.serviceStart, hgot, hnone] at hs
    cases hs
    exact ⟨rfl, fun hstop => absurd hstop hrun, ⟨_, rfl, .inr ⟨_, rfl, rfl, List.cons_ne_nil _ _⟩⟩,
      .inr (.inl ⟨hnone, _, rfl⟩)⟩
  | register task =>
    obtain ⟨rfl, hsome⟩ := h
    cases hs
    have hmodify : w.tasks.modify 0 (fun t => { t with registered := ch.ok }) ≠ [] := fun hnone =>
      hsome (by simpa using congrArg List.length hnone)
    exact ⟨rfl, fun hstop => absurd (hidle hstop) hsome, ⟨_, rfl, .inr ⟨_, rfl, hmodify, Option.some_ne_none _⟩⟩,
      .inr (.inr ⟨hsome, _, rfl⟩)⟩
  | storeTask task =>
    cases hs
    exact startStep_goto rfl rfl rfl hidle h
  | checkTask task =>
    simp only [World.serviceStart, if_neg h.2] at hs
    cases hs
    exact ⟨rfl, hidle, ⟨_, rfl, .inl ⟨rfl, .inr h.1⟩⟩, .inl rfl⟩

theorem Starting.startAt {w : World} (h : Starting w) {c : Nat} {pc : StartPc} (hc : w.calls[c]? = some (.start pc)) :
    StartAt w pc := by
  rcases h.calls c _ hc with hret | ⟨-, pc', hpc, hat⟩
  · cases hret
  · cases hpc
    exact hat

/-- The call in progress goes on. -/
theorem Starting.start {w w' : World} {c : Nat} {pc : StartPc} (h : Starting w) (hc : w.calls[c]? = some (.start pc))
    (hkeeps : w.Keeps w') (hs : StartStep w c pc w') : Starting w' where
  setupHook := hkeeps.setupHook.trans h.setupHook
  teardownHook := hkeeps.teardownHook.trans h.teardownHook
  main := hkeeps.main.trans h.main
  semaphore := hkeeps.semaphore h.semaphore
  idle := hs.idle
  calls := fun i k' hi => by
    obtain ⟨k, hcalls, hk⟩ := hs.calls
    have hlast : c + 1 = w.calls.length := by
      rcases h.calls c _ hc with hret | ⟨hlast, -⟩
      · cases hret
      · exact hlast
    rw [hcalls] at hi ⊢
    rw [List.length_set]
    by_cases hic : i = c
    · subst hic
      rw [List.getElem?_set_self (by omega)] at hi
      cases hi
      exact hk.imp And.left fun hpc => ⟨hlast, hpc⟩
    · -- only the last call is in progress
      rw [List.getElem?_set_ne (Ne.symm hic)] at hi
      rcases h.calls i k' hi with hret | ⟨hlast', -⟩
      · exact .inl hret
      · omega

theorem Inv.start {d : Device} (h : d.Inv) {c : Nat} {ch : Choice} {pc : StartPc} {w' : World}
    (hc : d.world.calls[c]? = some (.start pc)) (hok : ch.ok = true ∨ d.world.tasks ≠ [])
    (hs : d.world.serviceStart c ch pc = some w') : Inv { d with world := w' } := by
  have hstep := (h.startAt hc).step h.idle hok hs
  have hstarting := h.toStarting.start hc (World.serviceStart_callStep hc hs).toKeeps hstep
  have hfault := hstep.fault ▸ h.fault
  rcases hstep.tasks with hsame | ⟨hnone, queue, hnew⟩ | ⟨hsome, registered, hmodify⟩
  · exact ⟨hstarting, fun hnone => h.unserved (hsame.symm.trans hnone), hsame ▸ h.tasks, hfault⟩
  · exact ⟨hstarting, fun _ => h.unserved hnone, .inr ⟨_, hnew, rfl, h.unserved hnone⟩, hfault⟩
  · obtain ⟨t, ht, hdel, hat⟩ := h.tasks.resolve_left hsome
    rw [ht] at hmodify
    exact ⟨hstarting, fun hnone => absurd (hnone.symm.trans hmodify) (List.cons_ne_nil _ _).symm,
      .inr ⟨_, hmodify, hdel, hat⟩, hfault⟩

/-! ## The task -/

/-- The task goes on. -/
theorem Inv.gotoTask {d : Device} {v : World} {t : TaskObject} {pc : TaskPc} (h : d.Inv) (ht : d.world.tasks = [t])
    (hdel : t.deleted = false) (hservice : v.service = d.world.service) (hcalls : v.calls = d.world.calls)
    (htasks : v.tasks = d.world.tasks) (hfault : v.fault = d.world.fault) (hat : TaskAt d.server { t with pc }) :
    Inv { d with world := v.gotoTask 0 pc } := by
  have hgoto : (v.gotoTask 0 pc).tasks = [{ t with pc }] := by
    show v.tasks.modify 0 _ = _
    rw [htasks, ht]
    rfl
  refine ⟨h.same hservice ?_ hcalls, fun hnone => ?_, .inr ⟨_, hgoto, hdel, hat⟩, ?_⟩
  · rw [hgoto, ht]
    simp
  · rw [show (v.gotoTask 0 pc).tasks = [] from hnone] at hgoto
    cases hgoto
  · show v.fault = none ∨ v.fault = some .assertion ∧ _
    rw [hfault]
    exact h.fault

/-- A step of `Service_Main`: with the server returned it goes from `main` to `Semaphore_Give`. -/
theorem Inv.task {d : Device} (h : d.Inv) {i : Nat} {ch : Choice} {self : TaskObject} {w' : World}
    (hi : d.world.tasks[i]? = some self) (hmay : self.pc ≠ .inMain ∨ d.server.pc = .returned)
    (hs : d.world.serviceMain i self ch = some w') :
    Inv { d with world := w' } ∧
      (d.world.tasks = [self] ∧
        ((∃ pc, w'.tasks = [{ self with pc }] ∧ w'.fault = d.world.fault ∧ (self.pc, pc) ∈
            [(TaskPc.entry, TaskPc.body), (.body, .inMain), (.inMain, .teardown), (.teardown, .give)]) ∨
          self.pc = .give ∧ w'.fault = some .assertion)) := by
  obtain ⟨t, ht, hdel, hat⟩ := h.tasks.resolve_left fun hnone => by rw [hnone] at hi; cases hi
  obtain ⟨rfl, rfl⟩ : i = 0 ∧ self = t := by
    rw [ht] at hi
    cases i with
    | zero => exact ⟨rfl, (Option.some.inj hi).symm⟩
    | succ i => cases hi
  have hgoto : ∀ v : World, v.tasks = d.world.tasks → ∀ pc, (v.gotoTask 0 pc).tasks = [{ self with pc }] := by
    intro v hv pc
    show v.tasks.modify 0 _ = _
    rw [hv, ht]
    rfl
  obtain ⟨pc, queue, registered, deleted⟩ := self
  cases pc with
  | entry =>
    simp only [World.serviceMain, h.setupHook] at hs
    cases hs
    exact ⟨h.gotoTask ht hdel rfl rfl rfl rfl hat, ht, .inl ⟨_, hgoto _ rfl _, rfl, by simp⟩⟩
  | body =>
    simp only [World.serviceMain, h.main] at hs
    cases hs
    exact ⟨h.gotoTask ht hdel rfl rfl rfl rfl trivial, ht, .inl ⟨_, hgoto _ rfl _, rfl, by simp⟩⟩
  | inMain =>
    cases hs
    exact ⟨h.gotoTask ht hdel rfl rfl rfl rfl (hmay.resolve_left fun hne => hne rfl), ht,
      .inl ⟨_, hgoto _ rfl _, rfl, by simp⟩⟩
  | teardown =>
    simp only [World.serviceMain, h.teardownHook] at hs
    cases hs
    exact ⟨h.gotoTask ht hdel rfl rfl rfl rfl hat, ht, .inl ⟨_, hgoto _ rfl _, rfl, by simp⟩⟩
  | give =>
    simp only [World.serviceMain, h.semaphore] at hs
    cases hs
    exact ⟨⟨h.same rfl Iff.rfl rfl, h.unserved, h.tasks, .inr ⟨rfl, hat⟩⟩, ht, .inr ⟨rfl, rfl⟩⟩
  | _ => exact hat.elim

/-! ## Steps -/

/-- Where the tasks are. -/
def pcs (d : Device) : List TaskPc := d.world.tasks.map TaskObject.pc

/-- What a step does with the task and its server. -/
inductive Moves (VERSION : Bytes) (d e : Device) : DeviceAct → Prop
  | quiet {a : DeviceAct} : ofTask a = false → e.server = d.server → e.world.fault = none →
      (d.world.tasks ≠ [] → e.pcs = d.pcs) → Moves VERSION d e a
  | task {i : Nat} {ch : Choice} {pc pc' : TaskPc} : d.pcs = [pc] → e.pcs = [pc'] →
      (pc, pc') ∈ [(TaskPc.entry, TaskPc.body), (.body, .inMain), (.inMain, .teardown), (.teardown, .give)] →
      (pc = .inMain → d.server.pc = .returned) → e.server = d.server → e.world.fault = none →
      Moves VERSION d e (.world (.task i ch))
  | crash {i : Nat} {ch : Choice} : d.pcs = [.give] → e.server = d.server → e.world.fault = some .assertion →
      Moves VERSION d e (.world (.task i ch))
  | serve {reply : Reply} : d.pcs = [.inMain] → e.world = d.world →
      Server.Step (gCommands VERSION) d.server reply e.server → Moves VERSION d e (.serve reply)

/-- With a task `Service_Start` does nothing that the task would see. -/
theorem StartStep.quiet {w w' : World} {c : Nat} {pc : StartPc} (h : StartStep w c pc w') (hsome : w.tasks ≠ []) :
    w'.tasks.map TaskObject.pc = w.tasks.map TaskObject.pc := by
  rcases h.tasks with hsame | ⟨hnone, -⟩ | ⟨-, registered, hmodify⟩
  · rw [hsame]
  · exact absurd hnone hsome
  · rw [hmodify]
    exact map_modify_same 0 fun _ => rfl

theorem Inv.call {d : Device} (h : d.Inv) (hall : d.world.calls.all (fun k => k = .returned) = true) :
    Starting { d.world with calls := d.world.calls ++ [Api.start.enter] } where
  setupHook := h.setupHook
  teardownHook := h.teardownHook
  main := h.main
  semaphore := h.semaphore
  idle := h.idle
  calls := fun c k hk => by
    rcases Nat.lt_trichotomy c d.world.calls.length with hlt | rfl | hgt
    · rw [List.getElem?_append_left hlt] at hk
      exact .inl (of_decide_eq_true (List.all_eq_true.1 hall k (List.mem_of_getElem? hk)))
    · rw [List.getElem?_append_right (Nat.le_refl _), Nat.sub_self] at hk
      cases hk
      exact .inr ⟨by simp, .check, rfl, trivial⟩
    · rw [List.getElem?_eq_none (by simp; omega)] at hk
      cases hk

/-- What one step preserves, and what it does. -/
theorem Inv.step {VERSION : Bytes} {d e : Device} {a : DeviceAct} (h : d.Inv)
    (hok : Supplied a = true ∨ d.world.tasks ≠ []) (hs : step VERSION d a = some e) :
    e.Inv ∧ d.world.fault = none ∧ Moves VERSION d e a := by
  cases a with
  | serve reply =>
    obtain ⟨hended, hserving, server, hserver, rfl⟩ := step_serve hs
    have hfault := (ended_eq_false.1 hended).1
    -- the one task is in `main`
    obtain ⟨t, hmem, hpc⟩ := List.any_eq_true.1 hserving
    have hpc : t.pc = .inMain := of_decide_eq_true hpc
    have hsome : d.world.tasks ≠ [] := List.ne_nil_of_mem hmem
    obtain ⟨t', ht, hdel, -⟩ := h.tasks.resolve_left hsome
    obtain rfl : t = t' := by rw [ht] at hmem; exact List.mem_singleton.1 hmem
    refine ⟨⟨h.toStarting, fun hnone => absurd hnone hsome, .inr ⟨t, ht, hdel, ?_⟩, .inl hfault⟩, hfault,
      .serve (by rw [pcs, ht, List.map_singleton, hpc]) rfl (Server.step_cases hserver)⟩
    rw [TaskAt, hpc]
    trivial
  | world a =>
    obtain ⟨-, hmay, w', hw, rfl⟩ := step_world hs
    obtain ⟨hfault, hadv⟩ := World.step_advance hw
    cases hadv with
    | call api =>
      cases api with
      | start =>
        exact ⟨⟨h.call hmay, h.unserved, h.tasks, h.fault⟩, hfault, .quiet rfl rfl hfault fun _ => rfl⟩
      | _ => cases hmay
    | start hc hstart =>
      have hstep := (h.startAt hc).step h.idle hok hstart
      exact ⟨h.start hc hok hstart, hfault, .quiet rfl rfl (hstep.fault.trans hfault) hstep.quiet⟩
    | stop hc | notify hc =>
      rcases h.calls _ _ hc with hret | ⟨-, pc, hpc, -⟩
      · cases hret
      · cases hpc
    | @task i ch self w' hi hmain =>
      have hpc : self.pc ≠ .inMain ∨ d.server.pc = .returned := by
        simp only [mayStep, hi, Option.all_some] at hmay
        simpa using hmay
      obtain ⟨hinv, htasks, hgoes⟩ := h.task hi hpc hmain
      refine ⟨hinv, hfault, ?_⟩
      rcases hgoes with ⟨pc, htasks', hfault', hpair⟩ | ⟨hgive, hfault'⟩
      · exact .task (by rw [pcs, htasks, List.map_singleton]) (by rw [pcs, htasks', List.map_singleton]) hpair
          (fun hin => hpc.resolve_left fun hne => hne hin) rfl (hfault'.trans hfault)
      · exact .crash (by rw [pcs, htasks, List.map_singleton, hgive]) rfl hfault'
    | wake =>
      exact ⟨⟨h.same rfl Iff.rfl rfl, h.unserved, h.tasks, h.fault⟩, hfault, .quiet rfl rfl hfault fun _ => rfl⟩
    | @die i self w' hi hdie =>
      obtain ⟨t, ht, hdel, -⟩ := h.tasks.resolve_left fun hnone => by rw [hnone] at hi; cases hi
      have hself : self = t := by
        have hmem := List.mem_of_getElem? hi
        rw [ht] at hmem
        exact List.mem_singleton.1 hmem
      rw [World.die, if_neg fun hand => by rw [hself, hdel] at hand; cases hand.1] at hdie
      cases hdie
    | take hsem | wakeTaker hsem | retake hsem =>
      rw [h.semaphore] at hsem
      cases hsem

/-! ## Giving up -/

theorem GaveUp.alive {d : Device} (h : d.GaveUp) : d.server.killed = false := by
  rcases h with hpc | ⟨server, hpc⟩ <;> rw [Server.killed, hpc] <;> rfl

/-- The server gives up when a call fails. -/
theorem gaveUp_iff {VERSION : Bytes} {d e : Device} {reply : Reply} (h : ¬ d.GaveUp)
    (hs : Server.Step (gCommands VERSION) d.server reply e.server) :
    e.GaveUp ↔ d.callFails (.serve reply) = true := by
  have hpc : d.server.pc ≠ .returned ∧ ∀ server, d.server.pc ≠ .failure server := by
    simpa [GaveUp] using h
  unfold GaveUp callFails
  generalize e.server = t at hs
  cases hs with
  | noSocket hat hr | bindFails hat hr | listenFails hat hr | acceptFails hat hr => simp [hat, hr]
  | socket hat hr | bind hat hr | listen hat hr | accept hat hr => simp [hat, hr]
  | failure hat => exact absurd hat (hpc.2 _)
  | _ hat => simp [hat, Server.closing]

/-- Then it closes its socket and returns. -/
theorem gaveUp_serve {VERSION : Bytes} {d e : Device} {reply : Reply} (h : d.GaveUp)
    (hs : Server.Step (gCommands VERSION) d.server reply e.server) :
    (∃ server, d.server.pc = .failure server) ∧ e.server.pc = .returned := by
  generalize he : e.server = t at hs
  rcases h with hret | ⟨server, hfail⟩
  · cases hs with
    | _ hat => rw [hret] at hat; cases hat
  · cases hs with
    | failure => exact ⟨⟨server, hfail⟩, rfl⟩
    | _ hat => rw [hfail] at hat; cases hat

/-- The steps up to the crash, after the server has given up. -/
def left (d : Device) : Nat :=
  match d.world.fault, d.server.pc, d.pcs with
  | none, .failure _, _ => 4
  | none, .returned, [.inMain] => 3
  | none, .returned, [.teardown] => 2
  | none, .returned, [.give] => 1
  | _, _, _ => 0

/-- The task is in `main`, or with the server returned on its way to `Semaphore_Give`. -/
theorem Inv.gaveUp_pcs {d : Device} (h : d.Inv) (hg : d.GaveUp) :
    d.world.tasks ≠ [] ∧
      (d.pcs = [.inMain] ∨ d.server.pc = .returned ∧ (d.pcs = [.teardown] ∨ d.pcs = [.give])) := by
  have hboot : d.server ≠ .boot .init := fun hb => by
    rcases hg with hpc | ⟨server, hpc⟩ <;> rw [hb] at hpc <;> cases hpc
  have hsome : d.world.tasks ≠ [] := fun hnone => hboot (h.unserved hnone)
  obtain ⟨t, ht, -, hat⟩ := h.tasks.resolve_left hsome
  refine ⟨hsome, ?_⟩
  rw [pcs, ht, List.map_singleton]
  unfold TaskAt at hat
  split at hat
  · exact absurd hat hboot
  · exact absurd hat hboot
  · exact .inl (by rw [‹t.pc = _›])
  · exact .inr ⟨hat, .inl (by rw [‹t.pc = _›])⟩
  · exact .inr ⟨hat, .inr (by rw [‹t.pc = _›])⟩
  · exact hat.elim

theorem left_same {d e : Device} (hfault : e.world.fault = d.world.fault) (hserver : e.server = d.server)
    (hpcs : e.pcs = d.pcs) : e.left = d.left := by
  unfold left
  rw [hfault, hserver, hpcs]

/-- After the server has given up every step of the task comes closer to the crash, and no other step matters. -/
theorem Inv.gaveUp_step {VERSION : Bytes} {d e : Device} {a : DeviceAct} (h : d.Inv) (hg : d.GaveUp)
    (hs : Device.step VERSION d a = some e) :
    e.Inv ∧ e.GaveUp ∧ (ofTask a = true → e.left < d.left) ∧ (ofTask a = false → e.left = d.left) := by
  obtain ⟨hsome, hpcs⟩ := h.gaveUp_pcs hg
  obtain ⟨he, hfault, hmoves⟩ := h.step (.inr hsome) hs
  refine ⟨he, ?_⟩
  cases hmoves with
  | quiet hkind hserver hfault' hsame =>
    refine ⟨by rw [GaveUp, hserver]; exact hg, fun hof => ?_, fun _ => ?_⟩
    · rw [hkind] at hof
      cases hof
    · exact left_same (hfault'.trans hfault.symm) hserver (hsame hsome)
  | task hpc hpc' hpair hmain hserver hfault' =>
    refine ⟨by rw [GaveUp, hserver]; exact hg, fun _ => ?_, nofun⟩
    have hret : d.server.pc = .returned := by
      rcases hpcs with hin | ⟨hret, -⟩
      · exact hmain (by rw [hpc] at hin; exact (List.cons.inj hin).1)
      · exact hret
    rw [hpc] at hpcs
    simp only [List.mem_cons, Prod.mk.injEq, List.not_mem_nil, or_false] at hpair
    rcases hpair with ⟨rfl, rfl⟩ | ⟨rfl, rfl⟩ | ⟨rfl, rfl⟩ | ⟨rfl, rfl⟩
    · simp at hpcs
    · simp at hpcs
    · simp [left, hfault, hfault', hserver, hret, hpc, hpc']
    · simp [left, hfault, hfault', hserver, hret, hpc, hpc']
  | crash hpc hserver hfault' =>
    refine ⟨by rw [GaveUp, hserver]; exact hg, fun _ => ?_, nofun⟩
    have hret : d.server.pc = .returned := by
      rcases hpcs with hin | ⟨hret, -⟩
      · rw [hpc] at hin
        cases hin
      · exact hret
    simp [left, hfault, hfault', hserver, hret, hpc]
  | serve hpc hworld hstep =>
    obtain ⟨⟨server, hfail⟩, hret⟩ := gaveUp_serve hg hstep
    refine ⟨.inl hret, fun _ => ?_, nofun⟩
    have hpc' : e.pcs = [.inMain] := by rw [pcs, hworld]; exact hpc
    simp [left, hfault, hworld, hfail, hret, hpc']

/-- The crash can be reached. -/
theorem Inv.gaveUp_goes {VERSION : Bytes} {d : Device} (h : d.Inv) (hg : d.GaveUp) (hleft : 0 < d.left) :
    ∃ a e, Device.step VERSION d a = some e ∧ ofTask a = true := by
  obtain ⟨hsome, hpcs⟩ := h.gaveUp_pcs hg
  have hfault : d.world.fault = none := by
    unfold left at hleft
    split at hleft
    · assumption
    · assumption
    · assumption
    · assumption
    · exact absurd hleft (Nat.lt_irrefl 0)
  have hended : d.ended = false := ended_eq_false.2 ⟨hfault, hg.alive⟩
  obtain ⟨t, ht, -, -⟩ := h.tasks.resolve_left hsome
  have htask : d.world.tasks[0]? = some t := by rw [ht]; rfl
  rw [pcs, ht, List.map_singleton] at hpcs
  rcases hg with hret | ⟨server, hfail⟩
  · have hmay : d.mayStep (.task 0 World.plain) = true := by
      simp only [mayStep, htask, Option.all_some]
      simp [hret]
    rcases hpcs with hin | ⟨-, htear | hgive⟩
    · have hpc : t.pc = .inMain := (List.cons.inj hin).1
      refine ⟨.world (.task 0 World.plain), { d with world := d.world.gotoTask 0 .teardown },
        world_step hended hmay ?_, rfl⟩
      simp only [World.step, hfault, World.advance, htask, World.serviceMain, hpc]
    · have hpc : t.pc = .teardown := (List.cons.inj htear).1
      refine ⟨.world (.task 0 World.plain), { d with world := d.world.gotoTask 0 .give },
        world_step hended hmay ?_, rfl⟩
      simp [World.step, hfault, World.advance, htask, World.serviceMain, hpc, h.teardownHook]
    · have hpc : t.pc = .give := (List.cons.inj hgive).1
      exact ⟨.world (.task 0 World.plain), { d with world := d.world.crash .assertion },
        world_step hended hmay (World.give_null hfault h.semaphore htask hpc _), rfl⟩
  · have hin : t.pc = .inMain := by
      rcases hpcs with hin | ⟨hret, -⟩
      · exact (List.cons.inj hin).1
      · rw [hfail] at hret
        cases hret
    have hserving : d.serving = true := by
      simp [serving, ht, hin]
    refine ⟨.serve (.result 0), { d with server := d.server.closing server .returned },
      serve_step hended hserving ?_, rfl⟩
    simp only [Server.step, Server.onResult, hfail]

theorem Inv.crashed {d : Device} (h : d.Inv) (hg : d.GaveUp) (hleft : d.left = 0) :
    d.world.fault = some .assertion := by
  rcases h.fault with hfault | ⟨hfault, -⟩
  · obtain ⟨-, hpcs⟩ := h.gaveUp_pcs hg
    rcases hg with hret | ⟨server, hfail⟩
    · rcases hpcs with hin | ⟨-, htear | hgive⟩
      · simp [left, hfault, hret, hin] at hleft
      · simp [left, hfault, hret, htear] at hleft
      · simp [left, hfault, hret, hgive] at hleft
    · simp [left, hfault, hfail] at hleft
  · exact hfault

/-! ## Whole runs -/

theorem step_server {VERSION : Bytes} {d e : Device} {a : DeviceAct} (h : step VERSION d a = some e) :
    e.server = d.server ∨ ∃ reply, a = .serve reply ∧ Server.Step (gCommands VERSION) d.server reply e.server := by
  cases a with
  | world a =>
    obtain ⟨-, -, w, -, rfl⟩ := step_world h
    exact .inl rfl
  | serve reply =>
    obtain ⟨-, -, server, hserver, rfl⟩ := step_serve h
    exact .inr ⟨reply, rfl, Server.step_cases hserver⟩

/-- What holds of the server as long as no write ends the process. -/
structure Served (VERSION : Bytes) (d : Device) : Prop where
  serves : Server.Serves VERSION .init d.server
  alive : d.server.killed = false

theorem served_boot (VERSION : Bytes) : boot.Served VERSION := ⟨Server.serves_boot sized_init, rfl⟩

theorem Served.step {VERSION : Bytes} (hlen : VERSION.length < CMD_RESPONSE_MAX_LENGTH) (hV : 0 ∉ VERSION)
    {d e : Device} {a : DeviceAct} (h : d.Served VERSION) (hwrite : inWrite a = false)
    (hs : Device.step VERSION d a = some e) : e.Served VERSION := by
  rcases step_server hs with hsame | ⟨reply, rfl, hstep⟩
  · exact ⟨hsame ▸ h.serves, hsame ▸ h.alive⟩
  · refine ⟨h.serves.step hlen hV hstep, Bool.eq_false_iff.2 fun hkilled => ?_⟩
    obtain ⟨data, n, rfl⟩ := hstep.killed hkilled
    cases hwrite

/-- The program goes on: it has one task at most, and whatever the environment replies to the server there is a step
for it. -/
structure Lives (VERSION : Bytes) (d : Device) : Prop where
  ended : d.ended = false
  tasks : d.world.tasks.length ≤ 1
  goesOn : d.serving = true → ∀ reply, d.server.Offered reply → (step VERSION d (.serve reply)).isSome = true

theorem Served.goesOn {VERSION : Bytes} (hlen : VERSION.length < CMD_RESPONSE_MAX_LENGTH) (hV : 0 ∉ VERSION)
    {d : Device} (h : d.Served VERSION) (hended : d.ended = false) (hserving : d.serving = true) {reply : Reply}
    (hreply : d.server.Offered reply) : (Device.step VERSION d (.serve reply)).isSome = true := by
  obtain ⟨server, hserver⟩ := Option.isSome_iff_exists.1 (h.serves.goesOn hlen hV hreply)
  rw [serve_step hended hserving hserver]
  rfl

theorem Inv.lives {VERSION : Bytes} (hlen : VERSION.length < CMD_RESPONSE_MAX_LENGTH) (hV : 0 ∉ VERSION) {d : Device}
    (h : d.Inv) (hg : ¬ d.GaveUp) (hserved : d.Served VERSION) : d.Lives VERSION := by
  have hfault : d.world.fault = none := h.fault.resolve_right fun hcrash => hg (.inl hcrash.2)
  have hended : d.ended = false := ended_eq_false.2 ⟨hfault, hserved.alive⟩
  refine ⟨hended, ?_, fun hserving _ hreply => hserved.goesOn hlen hV hended hserving hreply⟩
  rcases h.tasks with hnone | ⟨t, ht, -⟩
  · simp [hnone]
  · simp [ht]

/-- Until a call fails. -/
theorem Inv.serves_step {VERSION : Bytes} {d e : Device} {a : DeviceAct} (h : d.Inv) (hg : ¬ d.GaveUp)
    (hok : Supplied a = true) (hno : d.NoCallFails a) (hs : Device.step VERSION d a = some e) : e.Inv ∧ ¬ e.GaveUp := by
  obtain ⟨he, -, hmoves⟩ := h.step (.inl hok) hs
  refine ⟨he, ?_⟩
  cases hmoves with
  | quiet _ hserver | task _ _ _ _ hserver | crash _ hserver =>
    rw [GaveUp, hserver]
    exact hg
  | serve _ _ hstep =>
    rw [gaveUp_iff hg hstep, hno]
    exact Bool.false_ne_true

/-- The step in which a call fails. -/
theorem Inv.fails_step {VERSION : Bytes} {d e : Device} {a : DeviceAct} (h : d.Inv) (hok : Supplied a = true)
    (hfails : ¬ d.NoCallFails a) (hs : Device.step VERSION d a = some e) : e.Inv ∧ e.GaveUp := by
  obtain ⟨he, -, hmoves⟩ := h.step (.inl hok) hs
  refine ⟨he, ?_⟩
  have hcall : d.callFails a = true := by simpa [NoCallFails] using hfails
  have hg : ¬ d.GaveUp := by
    rintro (hret | ⟨server, hfail⟩)
    · unfold callFails at hcall
      split at hcall
      · simp [hret] at hcall
      · cases hcall
    · unfold callFails at hcall
      split at hcall
      · simp [hfail] at hcall
      · cases hcall
  cases hmoves with
  | serve _ _ hstep => exact (gaveUp_iff hg hstep).2 hcall
  | @quiet a hkind =>
    cases a with
    | serve => cases hkind
    | world => cases hcall
  | task | crash => cases hcall

/-- Where the queue and the task can be had, and the version fits the response buffer: as long as no call of the server
fails and no write ends the process, the program goes on, whatever the clients send and however often the console is
started again. After the first call that fails the task has four steps at most left, and these end in the failed
assertion of `Semaphore_Give`, whatever else the program does. -/
theorem console_lives_until_call_fails (VERSION : Bytes) (hlen : VERSION.length < CMD_RESPONSE_MAX_LENGTH)
    (hV : 0 ∉ VERSION) (acts : List DeviceAct) (hsup : ∀ a ∈ acts, Supplied a = true) :
    (Meets (step VERSION) NoCallFails boot acts → (∀ a ∈ acts, inWrite a = false) →
      Always (step VERSION) (Lives VERSION) boot acts) ∧
    ∀ d, exec (step VERSION) boot acts = some d → ¬ Meets (step VERSION) NoCallFails boot acts →
      (∀ bs e, exec (step VERSION) d bs = some e → bs.countP ofTask ≤ 4) ∧
      ∃ bs e, bs.length ≤ 4 ∧ exec (step VERSION) d bs = some e ∧ e.world.fault = some .assertion := by
  constructor
  · intro hno hwrite
    refine always_of_meets (I := fun d => (d.Inv ∧ ¬ d.GaveUp) ∧ d.Served VERSION)
      (fun d hd => hd.1.1.lives hlen hV hd.1.2 hd.2) (fun d a e hd hc hs => ?_)
      ⟨⟨inv_boot, ?_⟩, served_boot VERSION⟩
      (meets_and.2 ⟨meets_and.2 ⟨meets_of_forall hsup, hno⟩, meets_of_forall hwrite⟩)
    · exact ⟨hd.1.1.serves_step hd.1.2 hc.1.1 hc.1.2 hs, hd.2.step hlen hV hc.2 hs⟩
    · rintro (hret | ⟨server, hfail⟩)
      · cases hret
      · cases hfail
  · intro d hd hfails
    -- the run up to the call that fails, and from there on
    obtain ⟨bs, u, a, v, cs, hu, hv, ha, hcs, rfl⟩ := exec_of_not_meets hd hfails
    have hinv : u.Inv :=
      exec_meets_invariant (fun d a e h hok hs => (h.step (.inl hok) hs).1) hu
        (meets_of_forall fun b hb => hsup b (List.mem_append_left _ hb)) inv_boot
    have hgave : v.Inv ∧ v.GaveUp := hinv.fails_step (hsup a (by simp)) ha hv
    have hstays : ∀ d a e, (d.Inv ∧ d.GaveUp) → step VERSION d a = some e → e.Inv ∧ e.GaveUp := by
      intro d a e h hs
      obtain ⟨he, hg, -⟩ := h.1.gaveUp_step h.2 hs
      exact ⟨he, hg⟩
    have hd' : d.Inv ∧ d.GaveUp := exec_invariant hstays hcs hgave
    -- each step of the task lowers `left`, the other steps leave it
    have hlower : ∀ d a e, (d.Inv ∧ d.GaveUp) → step VERSION d a = some e → ofTask a = true → e.left < d.left :=
      fun d a e h hs hof => (h.1.gaveUp_step h.2 hs).2.2.1 hof
    have hle : ∀ d a e, (d.Inv ∧ d.GaveUp) → step VERSION d a = some e → e.left ≤ d.left := by
      intro d a e h hs
      obtain ⟨-, -, htask, hother⟩ := h.1.gaveUp_step h.2 hs
      rcases hof : ofTask a with _ | _
      · exact Nat.le_of_eq (hother hof)
      · exact Nat.le_of_lt (htask hof)
    have hgoes : ∀ d, (d.Inv ∧ d.GaveUp) → 0 < d.left →
        ∃ a e, step VERSION d a = some e ∧ (e.Inv ∧ e.GaveUp) ∧ e.left < d.left := by
      intro d h hleft
      obtain ⟨a, e, hs, hof⟩ := @Inv.gaveUp_goes VERSION d h.1 h.2 hleft
      exact ⟨a, e, hs, hstays d a e h hs, hlower d a e h hs hof⟩
    have hmax : d.left ≤ 4 := by
      unfold left
      split <;> omega
    constructor
    · intro bs e he
      have hcount := exec_countP_le hstays hlower hle he hd'
      omega
    · obtain ⟨bs, e, hlen, he, hend, hzero⟩ := exec_usesUp hgoes hd'
      exact ⟨bs, e, by omega, he, hend.1.crashed hend.2 hzero⟩

/-- The console is started, a client comes and goes, and the next `accept` fails. -/
def acceptFails : List DeviceAct :=
  (World.startCall 0 ++ List.replicate 2 (Act.task 0 World.plain)).map .world ++
    ([.result 3, .result 0, .result 0, .result 0, .result 4, .result 0, .result 0, .result 0, .result 0,
      .stack (List.replicate CMD_SIZE 0), .result 0, .result 0, .result 0, .result (-1)].map .serve)

theorem console_lives_until_call_fails_accept :
    ∃ d bs e, exec (step (CString.bytes "1.0")) boot acceptFails = some d ∧ bs.length ≤ 4 ∧
      exec (step (CString.bytes "1.0")) d bs = some e ∧ e.world.fault = some .assertion := by
  have hrun : (exec (step (CString.bytes "1.0")) boot acceptFails).isSome = true := by decide +kernel
  have hfails : ¬ Meets (step (CString.bytes "1.0")) NoCallFails boot acceptFails := by decide +kernel
  obtain ⟨d, hd⟩ := Option.isSome_iff_exists.1 hrun
  obtain ⟨-, bs, e, hlen, he, hfault⟩ :=
    (console_lives_until_call_fails (CString.bytes "1.0") (by decide) (by decide) acceptFails (by decide)).2 d hd hfails
  exact ⟨d, bs, e, hd, hlen, he, hfault⟩

end Device

end InfoWorkshop.Service
