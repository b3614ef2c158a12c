/-
`emulator/main.c`: the main thread starts the core, the HMI and the network console, one after the other, and then
sleeps for good. The POSIX adapters of the LED, the button and the Wi-Fi do nothing and return `SUCCESS`, so the
setup hooks do nothing and the handlers use no hardware.
-/
import InfoWorkshop.Esp32.Hmi
import InfoWorkshop.Service.Calls
import InfoWorkshop.Service.Idle

namespace InfoWorkshop.Emulator

open InfoWorkshop.Core InfoWorkshop.Memory InfoWorkshop.Console InfoWorkshop.Service InfoWorkshop.Steps

/-- The version that `emulator/CMakeLists.txt` defines. -/
def VERSION : Bytes := CString.bytes "0.0.0-dev"

theorem version_fits : VERSION.length < CMD_RESPONSE_MAX_LENGTH := by decide

theorem version_string : 0 ∉ VERSION := by decide

inductive Name
  | core
  | hmi
  | console
  deriving DecidableEq, Repr

/-- The services as `SERVICE_DEFINE` declares them. -/
def Name.service : Name → Core.Service
  | .core => serviceDefine true false false true 500 4096
  | .hmi => serviceDefine true false false true 1000 4096
  | .console => World.serviceNetworkConsole

/-- Where the main thread is: before a `Service_Start`, in it as call `c` on the service, in its last loop. -/
inductive MainPc
  | call (s : Name)
  | start (s : Name) (c : Nat)
  | sleep
  deriving DecidableEq, Repr

/-- The place of a service in the order of the calls. -/
def Name.place : Name → Nat
  | .core => 0
  | .hmi => 1
  | .console => 2

def Name.next : Name → MainPc
  | .core => .call .hmi
  | .hmi => .call .console
  | .console => .sleep

/-- The program: its main thread, its services, the server in the `main` of the console, the call of `Service_Start`
that `Core_HandleEvent` has made last, and the variables of the HMI. -/
structure Program where
  main : MainPc
  world : Name → World
  server : Server
  coreCall : Option Nat
  hmi : Esp32.Hmi.Ctx

/-- The steps: of the main thread, of `Core_HandleEvent` in `Service_Start`, of a service, of the server. -/
inductive Act
  | main (ch : Choice)
  | core (ch : Choice)
  | service (s : Name) (a : Service.Act)
  | serve (reply : Reply)
  deriving DecidableEq, Repr

def boot : Program := ⟨.call .core, fun s => .init s.service, .boot .init, none, ⟨⟨0, 0, 0, 0⟩, 0⟩⟩

namespace Program

/-- A fault in a service has ended the program, or a write of the server. -/
def ended (p : Program) : Bool :=
  ([Name.core, .hmi, .console].any fun s => (p.world s).fault.isSome) || p.server.killed

/-- The console with its server. -/
def console (p : Program) : Device := ⟨p.world .console, p.server⟩

def setWorld (p : Program) (s : Name) (w : World) : Program := { p with world := Function.update p.world s w }

def on (p : Program) (s : Name) (a : Service.Act) : Option Program :=
  match (p.world s).step a with
  | some w => some (p.setWorld s w)
  | none => none

/-- The main thread calls `Service_Start` after `Service_Start`. -/
def mainStep (p : Program) (ch : Choice) : Option Program :=
  match p.main with
  | .call s =>
    match p.on s (.call .start) with
    | some q => some { q with main := .start s (p.world s).calls.length }
    | none => none
  | .start s c =>
    if (p.world s).calls[c]? = some .returned then some { p with main := s.next } else p.on s (.caller c ch)
  | .sleep => none

/-- Whether the service can make the step: a task leaves the handler of the core when its `Service_Start` has returned,
and the `main` of the console when the server has. -/
def mayStep (p : Program) : Name → Service.Act → Bool
  | .core, .task i _ =>
    (p.world .core).tasks[i]?.all fun t =>
    t.pc ≠ .inHandler ∨ p.coreCall.all fun c => (p.world .console).calls[c]? = some .returned
  | .console, .task i ch => p.console.mayStep (.task i ch)
  | _, a => World.ownAct a

/-- The event that a step gives to the handler. -/
def given (w : World) : Service.Act → Option ServiceEvent
  | .task i _ =>
    match (w.tasks[i]?).map TaskObject.pc with
    | some (.hand _ b) => some (.ofBytes b)
    | _ => none
  | _ => none

/-- `Core_HandleEvent`, up to the first step of its `Service_Start`. -/
def coreHandleEvent (p : Program) (event : ServiceEvent) : Option Program :=
  if event.event = Esp32.Wifi.driverWifiEventStaGotIp then
    match p.on .console (.call .start) with
    | some q => some { q with coreCall := some (p.world .console).calls.length }
    | none => none
  else some p

/-- `Hmi_HandleEvent`. -/
def hmiHandleEvent (p : Program) (event : ServiceEvent) : Program :=
  if event.event = Esp32.Hmi.HMI_EVENT_BTN_PRESS then { p with hmi := Esp32.Hmi.press p.hmi } else p

def handle (p : Program) (s : Name) (event : ServiceEvent) : Option Program :=
  match s with
  | .core => p.coreHandleEvent event
  | .hmi => some (p.hmiHandleEvent event)
  | .console => some p

def step (p : Program) (a : Act) : Option Program :=
  if p.ended then none
  else
    match a with
    | .main ch => p.mainStep ch
    | .core ch =>
      match p.coreCall with
      | some c => p.on .console (.caller c ch)
      | none => none
    | .service s a =>
      if p.mayStep s a then
        match p.on s a with
        | some q =>
          match given (p.world s) a with
          | some event => q.handle s event
          | none => some q
        | none => none
      else none
    | .serve reply =>
      if p.console.serving then
        match p.server.step (gCommands VERSION) reply with
        | some server => some { p with server }
        | none => none
      else none

/-- The memory, the mutexes, the condition variables and the threads can be had. -/
def Supplied : Act → Bool
  | .main ch | .core ch => ch.ok
  | _ => true

/-! ## The services -/

@[simp] theorem setWorld_world (p : Program) (s r : Name) (w : World) :
    (p.setWorld s w).world r = if r = s then w else p.world r := by
  simp [setWorld, Function.update_apply]

theorem on_some {p q : Program} {s : Name} {a : Service.Act} (h : p.on s a = some q) :
    ∃ w, (p.world s).step a = some w ∧ q = p.setWorld s w := by
  unfold on at h
  split at h <;> cases h
  exact ⟨_, ‹_›, rfl⟩

theorem ended_eq_false {p : Program} :
    p.ended = false ↔ (∀ s, (p.world s).fault = none) ∧ p.server.killed = false := by
  constructor
  · intro h
    refine ⟨fun s => ?_, ?_⟩
    · cases s <;> simp_all [ended]
    · simp_all [ended]
  · rintro ⟨hfault, hkilled⟩
    simp [ended, hfault, hkilled]

theorem console_ended {p : Program} (h : p.ended = false) : p.console.ended = false :=
  Device.ended_eq_false.2 ⟨(ended_eq_false.1 h).1 .console, (ended_eq_false.1 h).2⟩

/-- Each service is started once at most and gets no event: the core and the HMI handle their timeouts, the console
runs its server. -/
structure Services (p : Program) : Prop where
  idle : ∀ s, s ≠ .console → (p.world s).Idle
  served : p.console.Inv
  serves : Server.Serves VERSION .init p.server
  lone : (p.world .console).Lone
  coreCall : p.coreCall = none
  hmi : p.hmi = boot.hmi

theorem services_boot : boot.Services where
  idle := fun s hs => by
    cases s with
    | core | hmi => exact World.idle_init _ rfl rfl
    | console => exact absurd rfl hs
  served := Device.inv_boot
  serves := Server.serves_boot sized_init
  lone := World.lone_init _
  coreCall := rfl
  hmi := rfl

theorem Services.allLone {p : Program} (h : p.Services) (s : Name) : (p.world s).Lone := by
  cases s with
  | core => exact (h.idle .core (by decide)).toLone
  | hmi => exact (h.idle .hmi (by decide)).toLone
  | console => exact h.lone

/-- A step of a service that is started once. -/
theorem Services.on {p q : Program} {s : Name} {a : Service.Act} (h : p.Services) (hended : p.ended = false)
    (ha : (p.world s).Alone a) (hmay : s = .console → p.console.mayStep a = true) (hs : p.on s a = some q) :
    q.Services := by
  obtain ⟨w, hw, rfl⟩ := on_some hs
  have hlone := ((h.allLone s).step ha hw).1
  by_cases hconsole : s = .console
  · subst hconsole
    have hstep : Device.step VERSION p.console (.world a) = some ⟨w, p.server⟩ :=
      Device.world_step (console_ended hended) (hmay rfl) hw
    have hsupplied : Device.Supplied (.world a) = true := by
      cases a with
      | caller c ch => exact ha
      | _ => rfl
    refine ⟨fun r hr => ?_, ?_, h.serves, ?_, h.coreCall, h.hmi⟩
    · rw [setWorld_world, if_neg hr]
      exact h.idle r hr
    · rw [Program.console, setWorld_world, if_pos rfl]
      exact (h.served.step (.inl hsupplied) hstep).1
    · rw [setWorld_world, if_pos rfl]
      exact hlone
  · refine ⟨fun r hr => ?_, ?_, h.serves, ?_, h.coreCall, h.hmi⟩
    · rw [setWorld_world]
      split
      · rename_i hsame
        subst hsame
        exact (h.idle r hr).step ha hw
      · exact h.idle r hr
    · rw [Program.console, setWorld_world, if_neg (Ne.symm hconsole)]
      exact h.served
    · rw [setWorld_world, if_neg (Ne.symm hconsole)]
      exact h.lone

/-! ## The main thread -/

/-- The calls of `Service_Start` on service `s` when the main thread is at a point. -/
def CallsAt : MainPc → Name → List Call → Prop
  | .call r, s, calls => calls = if s.place < r.place then [.returned] else []
  | .start r c, s, calls =>
    if s = r then c = 0 ∧ calls.length = 1 else calls = if s.place < r.place then [.returned] else []
  | .sleep, _, calls => calls = [.returned]

theorem callsAt_self {s : Name} {c : Nat} {calls : List Call} :
    CallsAt (.start s c) s calls ↔ c = 0 ∧ calls.length = 1 := by
  rw [CallsAt, if_pos rfl]

theorem callsAt_other {s r : Name} (hr : r ≠ s) {c : Nat} {calls : List Call} :
    CallsAt (.start s c) r calls ↔ CallsAt (.call s) r calls := by
  simp only [CallsAt, if_neg hr]

structure Inv (p : Program) : Prop extends Services p where
  calls : ∀ s, CallsAt p.main s (p.world s).calls

theorem inv_boot : boot.Inv := ⟨services_boot, fun s => by cases s <;> rfl⟩

theorem callsAt_next {s r : Name} {c : Nat} {calls : List Call} (h : CallsAt (.start s c) r calls)
    (hreturned : r = s → calls[c]? = some .returned) : CallsAt s.next r calls := by
  by_cases hrs : r = s
  · subst hrs
    obtain ⟨rfl, hone⟩ := callsAt_self.1 h
    obtain ⟨k, rfl⟩ := List.length_eq_one_iff.1 hone
    cases hreturned rfl
    cases r <;> rfl
  · obtain rfl : calls = _ := (callsAt_other hrs).1 h
    cases s <;> cases r <;> first | rfl | exact absurd rfl hrs

theorem given_cases {w : World} {a : Service.Act} {event : ServiceEvent} (h : given w a = some event) :
    ∃ i ch t error b, a = .task i ch ∧ w.tasks[i]? = some t ∧ t.pc = .hand error b ∧ event = .ofBytes b := by
  cases a with
  | task i ch =>
    simp only [given] at h
    split at h <;> cases h
    rename_i error b hpc
    obtain ⟨t, ht, hpc⟩ := Option.map_eq_some_iff.1 hpc
    exact ⟨i, ch, t, error, b, rfl, ht, hpc, rfl⟩
  | _ => cases h

/-- No handler does anything. -/
theorem Services.handle {p q : Program} {s : Name} {a : Service.Act} {event : ServiceEvent} (h : p.Services)
    (hgiven : given (p.world s) a = some event) : q.handle s event = some q := by
  obtain ⟨i, ch, t, error, b, -, ht, hpc, rfl⟩ := given_cases hgiven
  cases s with
  | core => rw [(h.idle .core (by decide)).hand ht hpc]; rfl
  | hmi => rw [(h.idle .hmi (by decide)).hand ht hpc]; rfl
  | console => rfl

theorem mayStep_own {p : Program} {s : Name} {a : Service.Act} (h : p.mayStep s a = true) :
    World.ownAct a = true ∧ (s = .console → p.console.mayStep a = true) := by
  cases a with
  | task i ch => exact ⟨rfl, fun hs => by subst hs; exact h⟩
  | wake | die => exact ⟨rfl, fun _ => rfl⟩
  | _ => cases s <;> cases h

/-- A step of a service leaves the calls alone. -/
theorem Inv.service {p q : Program} {s : Name} {a : Service.Act} (h : p.Inv) (hended : p.ended = false)
    (hmay : p.mayStep s a = true) (hs : p.on s a = some q) : q.Inv := by
  obtain ⟨hown, hconsole⟩ := mayStep_own hmay
  have hservices := h.toServices.on hended (World.alone_of_own hown) hconsole hs
  obtain ⟨w, hw, rfl⟩ := on_some hs
  refine ⟨hservices, fun r => ?_⟩
  rw [setWorld_world]
  split
  · rename_i hsame
    subst hsame
    rw [(World.own_frame hown hw).2.1]
    exact h.calls r
  · exact h.calls r

theorem Inv.main {p q : Program} {ch : Choice} (h : p.Inv) (hended : p.ended = false) (hok : ch.ok = true)
    (hs : p.mainStep ch = some q) : q.Inv := by
  unfold mainStep at hs
  have hat := h.calls
  split at hs
  · rename_i s hmain
    rw [hmain] at hat
    have hnone : (p.world s).calls = [] := by
      have hs := hat s
      rwa [CallsAt, if_neg (Nat.lt_irrefl _)] at hs
    split at hs <;> cases hs
    rename_i q hon
    have hmay : s = .console → p.console.mayStep (.call .start) = true := by
      rintro rfl
      show (p.world .console).calls.all _ = true
      rw [hnone]
      rfl
    have hservices := h.toServices.on hended (show (p.world s).Alone (.call .start) from ⟨rfl, hnone⟩) hmay hon
    obtain ⟨w, hw, rfl⟩ := on_some hon
    refine ⟨⟨hservices.idle, hservices.served, hservices.serves, hservices.lone, hservices.coreCall, hservices.hmi⟩,
      fun r => ?_⟩
    show CallsAt (.start s (p.world s).calls.length) r ((p.setWorld s w).world r).calls
    rw [setWorld_world, hnone]
    split
    · rename_i hsame
      subst hsame
      exact callsAt_self.2 ⟨rfl, by rw [((h.allLone r).call hnone hw).2]; rfl⟩
    · exact (callsAt_other ‹_›).2 (hat r)
  · rename_i s c hmain
    rw [hmain] at hat
    split at hs
    · rename_i hreturned
      cases hs
      refine ⟨⟨h.idle, h.served, h.serves, h.lone, h.coreCall, h.hmi⟩, fun r => callsAt_next (hat r) ?_⟩
      rintro rfl
      exact hreturned
    · have hservices := h.toServices.on hended (show (p.world s).Alone (.caller c ch) from hok) (fun _ => rfl) hs
      obtain ⟨w, hw, rfl⟩ := on_some hs
      refine ⟨hservices, fun r => ?_⟩
      show CallsAt p.main r _
      rw [hmain, setWorld_world]
      split
      · rename_i hsame
        subst hsame
        obtain ⟨-, -, k, hk⟩ := (h.allLone r).start hok hw
        exact callsAt_self.2 ⟨(callsAt_self.1 (hat r)).1, by rw [hk]; rfl⟩
      · exact hat r
  · cases hs

theorem serve_step {p : Program} {reply : Reply} {server : Server} (hended : p.ended = false)
    (hserving : p.console.serving = true) (hs : p.server.step (gCommands VERSION) reply = some server) :
    Device.step VERSION p.console (.serve reply) = some ⟨p.world .console, server⟩ :=
  Device.serve_step (console_ended hended) hserving hs

theorem Inv.step {p q : Program} {a : Act} (h : p.Inv) (hok : Supplied a = true)
    (hs : step p a = some q) : q.Inv := by
  unfold Program.step at hs
  split at hs
  · cases hs
  · rename_i hended
    have hended : p.ended = false := Bool.eq_false_iff.2 hended
    cases a with
    | main ch => exact h.main hended hok hs
    | core ch =>
      simp only [h.coreCall] at hs
      cases hs
    | service s a =>
      dsimp only at hs
      split at hs
      · rename_i hmay
        split at hs
        · rename_i q' hon
          have hinv := h.service hended hmay hon
          split at hs
          · rename_i event hgiven
            rw [h.handle hgiven] at hs
            cases hs
            exact hinv
          · cases hs
            exact hinv
        · cases hs
      · cases hs
    | serve reply =>
      dsimp only at hs
      split at hs
      · rename_i hserving
        split at hs <;> cases hs
        rename_i server hserver
        have hstep := serve_step hended hserving hserver
        have hserves := h.serves.step version_fits version_string (Server.step_cases hserver)
        exact ⟨⟨h.idle, (h.served.step (.inl rfl) hstep).1, hserves, h.lone, h.coreCall, h.hmi⟩, h.calls⟩
      · cases hs

/-! ## The main thread gets to its loop -/

/-- The steps that the main thread has left, twelve at most for a service. -/
def mainLeft (p : Program) : Nat :=
  match p.main with
  | .call s => 12 * (3 - s.place)
  | .start s c => 12 * (2 - s.place) + 1 + ((p.world s).calls[c]?).elim 0 Call.left
  | .sleep => 0

theorem mainLeft_eq_zero {p : Program} : p.mainLeft = 0 ↔ p.main = .sleep := by
  unfold mainLeft
  cases p.main with
  | call s => cases s <;> simp [Name.place]
  | start s c => simp
  | sleep => simp

theorem ended_setWorld {p : Program} {s : Name} {w : World} (hended : p.ended = false) (hw : w.fault = none) :
    (p.setWorld s w).ended = false := by
  rw [ended_eq_false] at hended ⊢
  refine ⟨fun r => ?_, hended.2⟩
  rw [setWorld_world]
  split
  · exact hw
  · exact hended.1 r

theorem Inv.main_goes {p : Program} (h : p.Inv) (hended : p.ended = false) (hawake : p.main ≠ .sleep) :
    ∃ q, p.mainStep World.plain = some q ∧ q.ended = false ∧ q.mainLeft < p.mainLeft := by
  have hfault := (ended_eq_false.1 hended).1
  cases hmain : p.main with
  | sleep => exact absurd hmain hawake
  | call s =>
    have hnone : (p.world s).calls = [] := by
      have hat := h.calls s
      rwa [hmain, CallsAt, if_neg (Nat.lt_irrefl _)] at hat
    have hs : (p.world s).step (.call .start) = some { p.world s with calls := [.start .check] } := by
      simp only [World.step, hfault s, World.advance, hnone]
      rfl
    refine ⟨{ p.setWorld s { p.world s with calls := [.start .check] } with main := .start s (p.world s).calls.length },
      by simp only [mainStep, hmain, Program.on, hs], ended_setWorld hended (hfault s), ?_⟩
    simp only [mainLeft, hmain, hnone, setWorld_world, if_true]
    cases s <;> decide
  | start s c =>
    have hat := h.calls s
    rw [hmain, callsAt_self] at hat
    obtain ⟨rfl, hone⟩ := hat
    obtain ⟨k, hk⟩ := List.length_eq_one_iff.1 hone
    have hget : (p.world s).calls[0]? = some k := by rw [hk]; rfl
    by_cases hreturned : k = .returned
    · subst hreturned
      refine ⟨{ p with main := s.next }, by simp only [mainStep, hmain, hget, if_true], hended, ?_⟩
      simp only [mainLeft, hmain, hget]
      cases s <;> simp [Name.next, Name.place, Call.left]
    · have hlone := h.allLone s
      obtain ⟨pc, rfl⟩ : ∃ pc, k = .start pc := by
        rcases hlone.calls with ⟨hnone, -⟩ | ⟨k', hk', hat⟩
        · rw [hnone] at hk
          cases hk
        · rw [hk] at hk'
          cases hk'
          cases k with
          | start pc => exact ⟨pc, rfl⟩
          | returned => exact absurd rfl hreturned
          | stop | notify => exact hat.elim
      obtain ⟨w, hstart⟩ := Option.isSome_iff_exists.1 (World.serviceStart_isSome (p.world s) 0 World.plain pc)
      have hs : (p.world s).step (.caller 0 World.plain) = some w := by
        simp only [World.step, hfault s, World.advance, hget, hstart]
      obtain ⟨-, hw, -⟩ := hlone.start rfl hs
      refine ⟨p.setWorld s w, by simp only [mainStep, hmain, hget, Option.some.injEq, if_neg hreturned, Program.on, hs],
        ended_setWorld hended hw, ?_⟩
      rcases World.serviceStart_nears hstart with hcrash | ⟨k', hcalls, hleft, -⟩
      · exact absurd hw hcrash
      · rw [hk] at hcalls
        have hget' : w.calls[0]? = some k' := by rw [hcalls]; rfl
        have hmain' : (p.setWorld s w).main = .start s 0 := hmain
        simp only [mainLeft, hmain, hmain', setWorld_world, if_true, hget, hget', Option.elim_some]
        exact Nat.add_lt_add_left hleft _

/-- The main thread gets to its last loop alone. -/
theorem Inv.gets_to_sleep {p : Program} (h : p.Inv) (hended : p.ended = false) :
    ∃ own q, own.length ≤ 36 ∧ (∀ a ∈ own, a = Act.main World.plain) ∧ exec Program.step p own = some q ∧
      q.Inv ∧ q.main = .sleep := by
  have hgoes : ∀ p : Program, p.Inv ∧ p.ended = false → 0 < p.mainLeft → ∃ as q, as.length ≤ 1 ∧
      (∀ a ∈ as, a = Act.main World.plain) ∧ exec Program.step p as = some q ∧ (q.Inv ∧ q.ended = false) ∧
        q.mainLeft < p.mainLeft := by
    rintro p ⟨h, hended⟩ hpos
    obtain ⟨q, hq, hended', hlt⟩ := h.main_goes hended fun hsleep => by
      rw [mainLeft_eq_zero.2 hsleep] at hpos
      exact Nat.lt_irrefl 0 hpos
    have hs : Program.step p (.main World.plain) = some q := by
      simp only [Program.step, hended, Bool.false_eq_true, if_false, hq]
    exact ⟨[.main World.plain], q, Nat.le_refl 1, List.forall_mem_singleton.2 rfl, by simp only [exec, hs],
      ⟨h.step rfl hs, hended'⟩, hlt⟩
  obtain ⟨own, q, hlen, hown, hq, ⟨hinv, -⟩, hzero⟩ := exec_usesUp_within hgoes ⟨h, hended⟩
  have hbound : p.mainLeft ≤ 36 := by
    unfold mainLeft
    cases p.main with
    | call s => exact show 12 * (3 - s.place) ≤ 36 by cases s <;> decide
    | start s c =>
      have hleft : ((p.world s).calls[c]?).elim 0 Call.left ≤ 10 := by
        cases (p.world s).calls[c]? with
        | none => exact Nat.zero_le 10
        | some k => exact left_le k
      have htwo : 12 * (2 - s.place) ≤ 24 := by cases s <;> decide
      dsimp only
      omega
    | sleep => exact Nat.zero_le _
  exact ⟨own, q, by omega, hown, hq, hinv, mainLeft_eq_zero.1 hzero⟩

/-! ## The handlers are called again and again -/

theorem Inv.service_step {p : Program} {s : Name} {a : Service.Act} {w : World} (h : p.Inv)
    (hended : p.ended = false) (hs : s ≠ .console) (ha : World.ownAct a = true) (hw : (p.world s).step a = some w) :
    Program.step p (.service s a) = some (p.setWorld s w) := by
  have hmay : p.mayStep s a = true := by
    cases s with
    | core =>
      cases a with
      | task i ch => simp [mayStep, h.coreCall]
      | _ => exact ha
    | hmi => exact ha
    | console => exact absurd rfl hs
  have hon : p.on s a = some (p.setWorld s w) := by simp only [Program.on, hw]
  simp only [Program.step, hended, Bool.false_eq_true, if_false, hmay, if_true, hon]
  split
  · rename_i event hgiven
    exact h.handle hgiven
  · rfl

/-- A run of the task of a service is one of the program. -/
theorem Inv.service_run {p : Program} {s : Name} {own : List Service.Act} {w : World} (h : p.Inv)
    (hended : p.ended = false) (hs : s ≠ .console) (hown : ∀ a ∈ own, World.byTask a = true)
    (hw : exec World.step (p.world s) own = some w) :
    ∃ q, exec Program.step p (own.map (.service s)) = some q ∧ q.Inv ∧ q.ended = false ∧ q.world s = w := by
  induction own generalizing p with
  | nil =>
    cases hw
    exact ⟨p, rfl, h, hended, rfl⟩
  | cons a own ih =>
    obtain ⟨ha, hown⟩ := List.forall_mem_cons.1 hown
    obtain ⟨u, hu, hw⟩ := exec_cons_some hw
    have halone : (p.world s).Alone a := World.alone_byTask ha
    have hstep := @Inv.service_step p s a u h hended hs (World.own_of_byTask ha) hu
    have hended' : (p.setWorld s u).ended = false := ended_setWorld hended ((h.idle s hs).step halone hu).fault
    obtain ⟨q, hq, hrest⟩ := ih (h.step rfl hstep) hended' hown (by rwa [setWorld_world, if_pos rfl])
    exact ⟨q, by simp only [List.map_cons, exec, hstep, hq], hrest⟩

/-- A step of the task of service `s`, or the end of its wait by its timeout. -/
def byService (s : Name) : Act → Prop
  | .service r a => r = s ∧ World.byTask a = true
  | _ => False

/-- How often the handler of service `s` has been called. -/
def beats (p : Program) (s : Name) : Nat := (p.world s).beats

theorem Inv.beats_on {p : Program} {s : Name} (h : p.Inv) (hended : p.ended = false)
    (hs : s ≠ .console) (hsome : (p.world s).tasks ≠ []) (n : Nat) :
    ∃ own q, own.length ≤ 16 * n ∧ (∀ a ∈ own, byService s a) ∧ exec Program.step p own = some q ∧
      p.beats s + n ≤ q.beats s := by
  induction n generalizing p with
  | zero => exact ⟨[], p, Nat.zero_le _, by rintro a ⟨⟩, rfl, Nat.le_refl _⟩
  | succ n ih =>
    obtain ⟨own, w, hlen, hown, hw, hbeat⟩ := (h.idle s hs).beat hsome
    obtain ⟨q, hq, hinv, hended', rfl⟩ := @Inv.service_run p s own w h hended hs hown hw
    have hsome' : (q.world s).tasks ≠ [] := fun hnone => hsome (by
      rw [← List.length_eq_zero_iff, ← World.tasks_of_byTask hown hw, hnone]
      rfl)
    obtain ⟨later, r, hlen', hlater, hr, hbeats⟩ := ih hinv hended' hsome'
    have hbeat : p.beats s < q.beats s := hbeat
    refine ⟨own.map (.service s) ++ later, r, ?_, List.forall_mem_append.2 ⟨?_, hlater⟩, ?_, by omega⟩
    · rw [List.length_append, List.length_map]
      omega
    · intro a ha
      obtain ⟨b, hb, rfl⟩ := List.mem_map.1 ha
      exact ⟨rfl, hown b hb⟩
    · rw [exec_append hq, hr]

/-! ## The calls of the server -/

/-- A call of `socket`, `bind`, `listen` or `accept` fails. -/
def NoCallFails (p : Program) : Act → Prop
  | .serve reply => p.console.NoCallFails (.serve reply)
  | _ => True

instance (p : Program) : ∀ a, Decidable (p.NoCallFails a)
  | .serve reply => inferInstanceAs (Decidable (p.console.NoCallFails (.serve reply)))
  | .main _ | .core _ | .service _ _ => inferInstanceAs (Decidable True)

/-- A write ends the process. -/
def inWrite : Act → Bool
  | .serve reply => Device.inWrite (.serve reply)
  | _ => false

theorem on_server {p q : Program} {s : Name} {a : Service.Act} (h : p.on s a = some q) : q.server = p.server := by
  obtain ⟨w, -, rfl⟩ := on_some h
  rfl

theorem handle_server {p q : Program} {s : Name} {event : ServiceEvent} (h : p.handle s event = some q) :
    q.server = p.server := by
  cases s with
  | core =>
    simp only [handle, coreHandleEvent] at h
    split at h
    · split at h <;> cases h
      rename_i hon
      have hserver := on_server hon
      exact hserver
    · cases h
      rfl
  | hmi =>
    simp only [handle, hmiHandleEvent] at h
    split at h <;> cases h <;> rfl
  | console =>
    cases h
    rfl

theorem mainStep_server {p q : Program} {ch : Choice} (h : p.mainStep ch = some q) : q.server = p.server := by
  unfold mainStep at h
  split at h
  · split at h <;> cases h
    rename_i hon
    have hserver := on_server hon
    exact hserver
  · split at h
    · cases h
      rfl
    · exact on_server h
  · cases h

/-- The server changes in its own steps only. -/
theorem step_server {p q : Program} {a : Act} (hs : Program.step p a = some q) :
    q.server = p.server ∨
      ∃ reply, a = .serve reply ∧ Device.step VERSION p.console (.serve reply) = some q.console := by
  unfold Program.step at hs
  split at hs
  · cases hs
  · rename_i hended
    cases a with
    | main ch => exact .inl (mainStep_server hs)
    | core ch =>
      dsimp only at hs
      split at hs
      · exact .inl (on_server hs)
      · cases hs
    | service s a =>
      dsimp only at hs
      split at hs
      · split at hs
        · rename_i hon
          split at hs
          · exact .inl ((handle_server hs).trans (on_server hon))
          · cases hs
            exact .inl (on_server hon)
        · cases hs
      · cases hs
    | serve reply =>
      dsimp only at hs
      split at hs
      · rename_i hserving
        split at hs <;> cases hs
        exact .inr ⟨reply, rfl, serve_step (Bool.eq_false_iff.2 hended) hserving ‹_›⟩
      · cases hs

/-- As long as no call fails and no write ends the process the server serves. -/
theorem Inv.keeps_serving {p q : Program} {a : Act} (h : p.Inv)
    (hserving : ¬ p.console.GaveUp ∧ p.server.killed = false) (hno : p.NoCallFails a) (hwrite : inWrite a = false)
    (hs : Program.step p a = some q) : ¬ q.console.GaveUp ∧ q.server.killed = false := by
  obtain ⟨hg, halive⟩ := hserving
  rcases step_server hs with hserver | ⟨reply, rfl, hstep⟩
  · rw [Device.GaveUp, show q.console.server = p.console.server from hserver, hserver]
    exact ⟨hg, halive⟩
  · -- a step of the server: no call of it fails, and it is not a write that ends the process
    have hserved : p.console.Served VERSION := ⟨h.serves, halive⟩
    exact ⟨(h.served.serves_step hg rfl hno hstep).2, (hserved.step version_fits version_string hwrite hstep).alive⟩

/-! ## Whole runs -/

/-- What holds of the program after any run. -/
structure Sound (p : Program) : Prop where
  /-- A fault is in the console, once its server has given up. -/
  fault : ∀ s f, (p.world s).fault = some f → s = .console ∧ f = .assertion ∧ p.server.pc = .returned
  /-- The services are started in order, each of them after the one before is running. -/
  order : ∀ r s, r.place < s.place → (p.world s).calls ≠ [] →
    (p.world r).service.state ≠ .stopped ∧ (p.world r).tasks ≠ []
  tasks : ∀ s, (p.world s).tasks.length ≤ 1
  /-- The tasks of the core and of the HMI do not leave their loops. -/
  loops : ∀ s, s ≠ .console → ∀ t ∈ (p.world s).tasks, t.pc.ending = false
  /-- Their handlers get nothing but the events of their timeouts. -/
  handled : ∀ s error event, s ≠ .console → .handled error event ∈ (p.world s).log →
    error ≠ .success ∧ event = timeoutEvent
  /-- So the core does not start the console, and the HMI does not change its colour. -/
  coreCall : p.coreCall = none
  hmi : p.hmi = boot.hmi

theorem Inv.returned {p : Program} (h : p.Inv) {s : Name} (hs : (p.world s).calls = [.returned]) :
    (p.world s).service.state ≠ .stopped ∧ (p.world s).tasks ≠ [] := by
  have hlone := h.allLone s
  have hsome : (p.world s).tasks ≠ [] := by
    rcases hlone.calls with ⟨hnone, -⟩ | ⟨k, hk, hat⟩
    · rw [hs] at hnone
      cases hnone
    · rw [hs] at hk
      cases hk
      exact hat
  exact ⟨fun hstop => hsome (hlone.idle hstop), hsome⟩

theorem Inv.before {p : Program} (h : p.Inv) {r s : Name} (hrs : r.place < s.place) (hs : (p.world s).calls ≠ []) :
    (p.world r).calls = [.returned] := by
  have hr := h.calls r
  have hs' := h.calls s
  cases hmain : p.main with
  | sleep =>
    rw [hmain] at hr
    exact hr
  | call u =>
    rw [hmain, CallsAt] at hr hs'
    split at hs'
    · rw [hr, if_pos (by omega)]
    · exact absurd hs' hs
  | start u c =>
    rw [hmain] at hr hs'
    by_cases hsu : s = u
    · subst hsu
      have hne : r ≠ s := fun hsame => Nat.lt_irrefl _ (hsame ▸ hrs)
      rw [callsAt_other hne, CallsAt, if_pos hrs] at hr
      exact hr
    · rw [callsAt_other hsu, CallsAt] at hs'
      split at hs'
      · rename_i hsu'
        have hne : r ≠ u := fun hsame => by
          subst hsame
          omega
        rw [callsAt_other hne, CallsAt, if_pos (by omega)] at hr
        exact hr
      · exact absurd hs' hs

theorem Inv.sound {p : Program} (h : p.Inv) : p.Sound where
  fault s f hf := by
    by_cases hs : s = .console
    · subst hs
      rcases h.served.fault with hnone | ⟨hassert, hreturned⟩
      · rw [show (p.world .console).fault = none from hnone] at hf
        cases hf
      · rw [show (p.world .console).fault = _ from hassert] at hf
        cases hf
        exact ⟨rfl, rfl, hreturned⟩
    · rw [(h.idle s hs).fault] at hf
      cases hf
  order r s hrs hs := h.returned (h.before hrs hs)
  tasks s := by
    by_cases hs : s = .console
    · subst hs
      rcases h.served.tasks with hnone | ⟨t, ht, -⟩
      · rw [show (p.world .console).tasks = [] from hnone]
        exact Nat.zero_le _
      · rw [show (p.world .console).tasks = [t] from ht]
        exact Nat.le_refl 1
    · exact (h.idle s hs).single.tasks_le
  loops s hs t ht := by
    obtain ⟨i, hi⟩ := List.getElem?_of_mem ht
    have hpcGood := ((h.idle s hs).good.setting.tasks i t hi).2.2.2
    cases hpc : t.pc with
    | teardown | inTeardown | give | deleteTask | deleteQueue | clearQueue | asleep =>
      rw [hpc] at hpcGood
      cases hpcGood
    | _ => rfl
  handled s error event hs hevent := (h.idle s hs).handled hevent
  coreCall := h.coreCall
  hmi := h.hmi

theorem Inv.not_ended {p : Program} (h : p.Inv) (hg : ¬ p.console.GaveUp) (halive : p.server.killed = false) :
    p.ended = false := by
  refine ended_eq_false.2 ⟨fun s => ?_, halive⟩
  cases hf : (p.world s).fault with
  | none => rfl
  | some f => exact absurd (.inl (h.sound.fault s f hf).2.2) hg

/-- The server goes on, whatever the environment replies. -/
theorem Inv.server_goes {p : Program} (h : p.Inv) (hended : p.ended = false) (hserving : p.console.serving = true)
    {reply : Reply} (hreply : p.server.Offered reply) : (Program.step p (.serve reply)).isSome = true := by
  obtain ⟨server, hserver⟩ := Option.isSome_iff_exists.1 (h.serves.goesOn version_fits version_string hreply)
  simp only [Program.step, hended, Bool.false_eq_true, if_false, hserving, if_true, hserver]
  rfl

/-- The emulator comes up and stays up. When memory, mutexes and threads can be had, then after every run, whatever
the clients of the console do,

* the services are started in order, each has one task, and nothing but timeouts reaches the core and the HMI;
* only the console can have ended the program, and it has not as long as none of `socket`, `bind`, `listen` and
  `accept` has failed and no write to a client has ended the process.

If the program has not ended,

* the main thread can get to its last loop alone, in 36 steps, and then all services are running;
* the handlers of the core and of the HMI can be called again and again: sixteen steps of a task, the ends of its
  waits by their timeouts included, are enough for one more call;
* the server of the console has a step for whatever the environment replies. -/
theorem emulator_runs {acts : List Act} {p : Program} (hsupplied : ∀ a ∈ acts, Supplied a = true)
    (hp : exec step boot acts = some p) :
    p.Sound ∧ (Meets step NoCallFails boot acts → (∀ a ∈ acts, inWrite a = false) → p.ended = false) ∧
      (p.ended = false →
        (∃ own q, own.length ≤ 36 ∧ (∀ a ∈ own, a = .main World.plain) ∧ exec step p own = some q ∧
          q.main = .sleep ∧ ∀ s, (q.world s).service.state ≠ .stopped ∧ (q.world s).tasks ≠ []) ∧
        (∀ s n, s ≠ .console → (p.world s).tasks ≠ [] → ∃ own q, own.length ≤ 16 * n ∧ (∀ a ∈ own, byService s a) ∧
          exec step p own = some q ∧ p.beats s + n ≤ q.beats s) ∧
        (p.console.serving = true → ∀ reply, p.server.Offered reply → (step p (.serve reply)).isSome = true)) := by
  have hsupply : Meets step (fun _ a => Supplied a = true) boot acts := meets_of_forall hsupplied
  have hinv : p.Inv := exec_meets_invariant (fun p a q h hok hs => h.step hok hs) hp hsupply inv_boot
  refine ⟨hinv.sound, fun hno hwrite => ?_, fun hended => ⟨?_, fun s n hs hsome => hinv.beats_on hended hs hsome n,
    fun hserving _ hreply => hinv.server_goes hended hserving hreply⟩⟩
  · have hserving := (exec_meets_invariant
      (I := fun p => p.Inv ∧ ¬ p.console.GaveUp ∧ p.server.killed = false)
      (fun p a q h hC hs => ⟨h.1.step hC.1 hs, h.1.keeps_serving h.2 hC.2.1 hC.2.2 hs⟩) hp
      (meets_and.2 ⟨hsupply, meets_and.2 ⟨hno, meets_of_forall hwrite⟩⟩) ⟨inv_boot, ?_, rfl⟩).2
    · exact hinv.not_ended hserving.1 hserving.2
    · rintro (hreturned | ⟨server, hfail⟩)
      · cases hreturned
      · cases hfail
  · obtain ⟨own, q, hlen, hown, hq, hinv', hsleep⟩ := @Inv.gets_to_sleep p hinv hended
    refine ⟨own, q, hlen, hown, hq, hsleep, fun s => hinv'.returned ?_⟩
    have hat := hinv'.calls s
    rwa [hsleep] at hat

/-- The program comes up, the server of the console gets its socket, the core handles a timeout, and `bind` fails. -/
def bindFails : List Act :=
  List.replicate 36 (.main World.plain) ++ List.replicate 2 (.service .console (.task 0 World.plain)) ++
    (.serve (.result 3) :: List.replicate 6 (.service .core (.task 0 World.plain))) ++
    (.service .core (.wake 0 (.task 0) .timedOut) :: List.replicate 2 (.service .core (.task 0 World.plain))) ++
    [.serve (.result (-1))]

theorem emulator_runs_bindFails : ∃ p own q, exec step boot bindFails = some p ∧ p.Sound ∧
    own.length ≤ 16 * 2 ∧ exec step p own = some q ∧ p.beats .core + 2 ≤ q.beats .core := by
  have hrun : ∃ p ∈ exec step boot bindFails, p.ended = false ∧ (p.world .core).tasks ≠ [] := by
    decide +kernel
  obtain ⟨p, hp, hended, hsome⟩ := hrun
  obtain ⟨hsound, -, hlive⟩ := emulator_runs (by decide) hp
  obtain ⟨own, q, hlen, -, hq, hbeats⟩ := (hlive hended).2.1 .core 2 (by decide) hsome
  exact ⟨p, own, q, hp, hsound, hlen, hq, hbeats⟩

end Program

end InfoWorkshop.Emulator
