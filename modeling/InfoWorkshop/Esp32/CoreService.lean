/-
`core/service_core.c` on the device: `Core_Init` sets up the Wi-Fi adapter, whose event handler posts what it is
told about addresses to the queue of the service, and the task of the service starts the network console at the
first address. The handler runs in the event task of ESP-IDF, between any two steps of the service.
-/
import InfoWorkshop.Core.Service
import InfoWorkshop.Esp32.Queue
import InfoWorkshop.Esp32.Wifi

namespace InfoWorkshop.Esp32.CoreService

open InfoWorkshop.Core InfoWorkshop.Memory InfoWorkshop.Steps InfoWorkshop.Esp32.Wifi

/-- The statements of `WiFi_Init` that can fail. -/
inductive InitPc
  | nvsFlashInit
  | espEventLoopCreateDefault
  | registerWifiEvent
  | registerIpEvent
  | espNetifInit
  | espWifiInit
  deriving DecidableEq, Repr

/-- Where the task of the service is: in `WiFi_Init` or `WiFi_StartSta` of `Core_Init`, before `Queue_Receive`, before
the handler. -/
inductive TaskPc
  | init (pc : InitPc)
  | startSta (pc : CallPc)
  | receive
  | handle (message : Bytes)
  deriving DecidableEq, Repr

/-- The device, with `ctx` of the Wi-Fi adapter, the event handlers that are registered and the state of the console
service. Recorded are the events whose handler has returned, the events that `Core_HandleEvent` has handled,
time-outs apart, and how often the task of the console was created. -/
structure Device (Q : Type*) where
  pc : TaskPc
  wifi : Ctx
  mail : Mail Q
  wifiEvents : Bool
  ipEvents : Bool
  console : ServiceState
  rebooted : Bool
  delivered : List IdfEvent
  handled : List ServiceEvent
  starts : Nat
  deriving DecidableEq, Repr

/-- The service is started with a new queue. -/
def Device.boot {Q : Type*} (queue : Q) : Device Q :=
  { pc := .init .nvsFlashInit, wifi := .zero, mail := .new queue, wifiEvents := false, ipEvents := false
    console := .stopped, rebooted := false, delivered := [], handled := [], starts := 0 }

/-- The steps: a statement of `Core_Init` with the error it comes to, an event of ESP-IDF with what
`esp_wifi_connect` returns in its handler, `Queue_Receive`, and `Core_HandleEvent` with whether the queue and the
task of the console can be had. -/
inductive Act
  | statement (err : EspErr)
  | idf (event : IdfEvent) (espWifiConnect : EspErr)
  | receive
  | handle (queueNew taskCreate : Bool)
  deriving DecidableEq, Repr

/-- The event that the handler posts. -/
def posted : IdfEvent → Option ServiceEvent
  | .staGotIp => some ⟨driverWifiEventStaGotIp, 0⟩
  | .staLostIp => some ⟨driverWifiEventStaLostIp, 0⟩
  | .apStaIpAssigned => some ⟨driverWifiEventApIpAssigned, 0⟩
  | _ => none

/-- The handler is registered for the event. -/
def Device.listens {Q : Type*} (d : Device Q) : IdfEvent → Bool
  | .staStart | .staDisconnected | .staConnected | .otherWifi _ => d.wifiEvents
  | .staGotIp | .staLostIp | .apStaIpAssigned | .otherIp _ => d.ipEvents

section Step

variable {Q : Type*} (rtos : RtosQueue Q) (network : WiFiNetwork)

/-- `CHECK_ERROR` leaves `WiFi_Init`, and `Core_Init` goes on with `WiFi_StartSta`. -/
def checkInit (err : EspErr) (next : InitPc) : TaskPc :=
  if err = espOk then .init next else .startSta (.setMode (staConfig network))

/-- A statement of `WiFi_Init`. The last two are in `ESP_ERROR_CHECK`, which aborts. -/
def initStep (d : Device Q) (err : EspErr) : InitPc → Device Q
  | .nvsFlashInit => { d with pc := checkInit network err .espEventLoopCreateDefault }
  | .espEventLoopCreateDefault => { d with pc := checkInit network err .registerWifiEvent }
  | .registerWifiEvent => { d with pc := checkInit network err .registerIpEvent, wifiEvents := err = espOk }
  | .registerIpEvent => { d with pc := checkInit network err .espNetifInit, ipEvents := err = espOk }
  | .espNetifInit => if err = espOk then { d with pc := .init .espWifiInit } else { d with rebooted := true }
  | .espWifiInit =>
    if err = espOk then { d with pc := .startSta (.setMode (staConfig network)) } else { d with rebooted := true }

/-- `Wifi_EventHandler`, with the queue that `WiFi_SendEvent` sends to. -/
def wifiEventHandler (d : Device Q) (event : IdfEvent) (espWifiConnect : EspErr) : Device Q :=
  let sent : ErrorCode × Mail Q :=
    match posted event with
    | none => (.success, d.mail)
    | some e =>
      let r := Queue.send rtos d.mail.queue e.toBytes
      (r.1, d.mail.send e.toBytes (r.1 = .success, r.2))
  let r := handle d.wifi event ⟨espWifiConnect, sent.1⟩
  if r.2.2 = .aborted then { d with wifi := r.1, mail := sent.2, rebooted := true }
  else { d with wifi := r.1, mail := sent.2, delivered := d.delivered ++ [event] }

/-- `Service_Start` of the console. -/
def startConsole (d : Device Q) (queueNew taskCreate : Bool) : Device Q :=
  if d.console ≠ .stopped then d
  else if !queueNew then { d with console := .running, rebooted := true }
  else if !taskCreate then { d with console := .running, rebooted := true }
  else { d with console := .running, starts := d.starts + 1 }

/-- `Core_HandleEvent` with the event in the bytes `message`. -/
def coreHandleEvent (d : Device Q) (message : Bytes) (queueNew taskCreate : Bool) : Device Q :=
  let event := ServiceEvent.ofBytes message
  let d := if event.event = driverWifiEventStaGotIp then startConsole d queueNew taskCreate else d
  if d.rebooted = true then d
  else if event = timeoutEvent then { d with pc := .receive }
  else { d with pc := .receive, handled := d.handled ++ [event] }

/-- `timeoutMs` of the service. -/
def timeoutMs : UInt64 := 500

def step (d : Device Q) (a : Act) : Option (Device Q) :=
  if d.rebooted = true then none
  else
    match a, d.pc with
    | .statement err, .init pc => some (initStep network d err pc)
    | .statement err, .startSta pc =>
      -- the result of WiFi_StartSta is not looked at
      match (callStep d.wifi err pc).2 with
      | .returned _ => some { d with pc := .receive }
      | pc => some { d with pc := .startSta pc }
    | .idf event espWifiConnect, _ =>
      if d.listens event then some (wifiEventHandler rtos d event espWifiConnect) else none
    | .receive, .receive =>
      let ((_, message), mail) := d.mail.receive rtos timeoutEvent.toBytes timeoutMs
      some { d with pc := .handle message, mail }
    | .handle queueNew taskCreate, .handle message => some (coreHandleEvent d message queueNew taskCreate)
    | _, _ => none

/-! ## What the service is for -/

/-- The messages of the task that were received and are not handled yet. -/
def Device.inHand (d : Device Q) : List Bytes :=
  match d.pc with
  | .handle message => if message = timeoutEvent.toBytes then [] else [message]
  | _ => []

/-- What the service knows of the addresses: it handles the events about them in the order in which they were
delivered, each one once, and has started the console once if an address was among them, else not at all. -/
structure Knows (d : Device Q) : Prop where
  account : d.mail.Accounts rtos SERVICE_QUEUE_SIZE
  posts : d.mail.sent = (d.delivered.filterMap posted).map ServiceEvent.toBytes
  inOrder : d.mail.received = d.handled.map ServiceEvent.toBytes ++ d.inHand
  console : d.starts = if ⟨driverWifiEventStaGotIp, 0⟩ ∈ d.handled then 1 else 0

/-- What has to hold of a step for the device to go on: what `ESP_ERROR_CHECK` looks at succeeds, an event about an
address finds less than twenty others that were not received, and the first address finds memory for the console. -/
def Survives (d : Device Q) : Act → Prop
  | .statement err => d.pc = .init .espNetifInit ∨ d.pc = .init .espWifiInit → err = espOk
  | .idf event espWifiConnect =>
    (event = .staStart → espWifiConnect = espOk) ∧
      ((posted event).isSome = true → d.mail.sent.length < d.mail.received.length + SERVICE_QUEUE_SIZE)
  | .handle queueNew taskCreate =>
    d.starts = 0 → d.inHand = [ServiceEvent.toBytes ⟨driverWifiEventStaGotIp, 0⟩] → queueNew = true ∧ taskCreate = true
  | .receive => True

instance (d : Device Q) : ∀ a, Decidable (Survives d a)
  | .statement _ => inferInstanceAs (Decidable (_ → _))
  | .idf _ _ => inferInstanceAs (Decidable (_ ∧ _))
  | .handle _ _ => inferInstanceAs (Decidable (_ → _))
  | .receive => inferInstanceAs (Decidable True)

end Step

/-! ## The handler of the Wi-Fi adapter -/

theorem posted_cases {event : IdfEvent} {e : ServiceEvent} (h : posted event = some e) :
    e ≠ timeoutEvent ∧ e.payload = 0 := by
  cases event <;> cases h <;> exact ⟨by decide, rfl⟩

/-- The handler aborts when `esp_wifi_connect` fails at the start of the station, or when the queue is full. -/
theorem handle_aborted_iff (ctx : Ctx) (event : IdfEvent) (ans : Answer) :
    (handle ctx event ans).2.2 = .aborted ↔
      event = .staStart ∧ ans.espWifiConnect ≠ espOk ∨ (posted event).isSome = true ∧ ans.queueSend ≠ .success := by
  cases event with
  | staStart =>
    by_cases he : ans.espWifiConnect = espOk <;>
      simp [handle, HandlerPc.enter, handlerRun, handlerStep, he, posted]
  | staDisconnected =>
    by_cases hlt : ctx.connectionRetryCount < connectMaximumRetry
    · rw [handle_disconnected_retry hlt]
      simp [posted]
    · rw [handle_disconnected_giveUp hlt]
      simp [posted]
  | staGotIp | staLostIp | apStaIpAssigned =>
    by_cases he : ans.queueSend = .success <;>
      simp [handle, HandlerPc.enter, handlerRun, handlerStep, he, posted]
  | staConnected | otherWifi | otherIp => simp [handle, HandlerPc.enter, handlerRun, handlerStep, posted]

section Runs

variable {Q : Type*} {rtos : RtosQueue Q} {network : WiFiNetwork}

/-- The invariant: what is in hand was posted or is a time-out, and the console is started once. -/
structure Inv (rtos : RtosQueue Q) (d : Device Q) : Prop extends Knows rtos d where
  state : d.rebooted = false → (d.console = .stopped ↔ d.starts = 0)
  message : ∀ m, d.pc = .handle m → m = timeoutEvent.toBytes ∨ ∃ event e, posted event = some e ∧ m = e.toBytes

theorem inv_boot {queue : Q} (h : Queue.new rtos SERVICE_QUEUE_SIZE sizeofServiceEvent = some queue) :
    Inv rtos (.boot queue) :=
  ⟨⟨Mail.accounts_new h, rfl, rfl, rfl⟩, fun _ => iff_of_true rfl rfl, nofun⟩

theorem toBytes_inj {e f : ServiceEvent} (h : e.toBytes = f.toBytes) : e = f := by
  rw [← ServiceEvent.ofBytes_toBytes e, h, ServiceEvent.ofBytes_toBytes]

/-- A step of `Core_Init`. -/
theorem Inv.init {d e : Device Q} (h : Inv rtos d) (hmail : e.mail = d.mail) (hdelivered : e.delivered = d.delivered)
    (hhandled : e.handled = d.handled) (hstarts : e.starts = d.starts) (hconsole : e.console = d.console)
    (hup : d.rebooted = false) (hbefore : d.inHand = []) (hafter : ∀ m, e.pc ≠ .handle m) : Inv rtos e := by
  have hnone : e.inHand = [] := by
    unfold Device.inHand
    split
    · exact absurd ‹_› (hafter _)
    · rfl
  refine ⟨⟨?_, ?_, ?_, ?_⟩, fun _ => ?_, fun m hm => absurd hm (hafter m)⟩
  · rw [hmail]
    exact h.account
  · rw [hmail, hdelivered]
    exact h.posts
  · rw [hmail, hhandled, hnone, ← hbefore]
    exact h.inOrder
  · rw [hstarts, hhandled]
    exact h.console
  · rw [hconsole, hstarts]
    exact h.state hup

/-- `WiFi_SendEvent` appends the event to what was sent when there is room for it. -/
theorem send_eq (q : Q) (message : Bytes) :
    ((decide ((Queue.send rtos q message).1 = .success), (Queue.send rtos q message).2) : Bool × Q) =
      rtos.xQueueSend q message 0 := by
  unfold Queue.send
  rcases rtos.xQueueSend q message 0 with ⟨_ | _, q'⟩ <;> rfl

/-- An event of ESP-IDF that is not posted. -/
theorem Inv.notPosted {d : Device Q} (h : Inv rtos d) {event : IdfEvent} (hp : posted event = none)
    (espWifiConnect : EspErr) (hup : d.rebooted = false) :
    Inv rtos (wifiEventHandler rtos d event espWifiConnect) ∧
      ((wifiEventHandler rtos d event espWifiConnect).rebooted = false ↔
        Survives d (.idf event espWifiConnect)) := by
  have hiff := handle_aborted_iff d.wifi event ⟨espWifiConnect, .success⟩
  simp only [hp, Option.isSome_none, Bool.false_eq_true, false_and, or_false] at hiff
  simp only [wifiEventHandler, hp, Survives, Option.isSome_none, Bool.false_eq_true, false_imp_iff, and_true]
  by_cases ha : (handle d.wifi event ⟨espWifiConnect, .success⟩).2.2 = .aborted
  · rw [if_pos ha]
    obtain ⟨hstart, hne⟩ := hiff.1 ha
    refine ⟨⟨⟨h.account, h.posts, h.inOrder, h.console⟩, nofun, h.message⟩, iff_of_false nofun fun hok => ?_⟩
    exact hne (hok hstart)
  · rw [if_neg ha]
    refine ⟨⟨⟨h.account, ?_, h.inOrder, h.console⟩, h.state, h.message⟩, iff_of_true hup fun hstart => ?_⟩
    · show d.mail.sent = ((d.delivered ++ [event]).filterMap posted).map ServiceEvent.toBytes
      rw [List.filterMap_append, List.filterMap_cons_none hp, List.filterMap_nil, List.append_nil]
      exact h.posts
    · exact Decidable.of_not_not fun hne => ha (hiff.2 ⟨hstart, hne⟩)

/-- An event of ESP-IDF that is posted. -/
theorem Inv.posted {d : Device Q} (h : Inv rtos d) {event : IdfEvent} {e : ServiceEvent}
    (hp : CoreService.posted event = some e) (espWifiConnect : EspErr) (hup : d.rebooted = false) :
    Inv rtos (wifiEventHandler rtos d event espWifiConnect) ∧
      ((wifiEventHandler rtos d event espWifiConnect).rebooted = false ↔
        Survives d (.idf event espWifiConnect)) := by
  obtain ⟨haccount, hroom⟩ := h.account.xQueueSend e.toBytes
  have hiff := handle_aborted_iff d.wifi event ⟨espWifiConnect, (Queue.send rtos d.mail.queue e.toBytes).1⟩
  have hstart : event ≠ .staStart := by
    rintro rfl
    cases hp
  simp only [hp, Option.isSome_some, true_and, hstart, false_and, false_or] at hiff
  simp only [wifiEventHandler, hp, Survives, Option.isSome_some, true_imp_iff, hstart, false_imp_iff, true_and, send_eq]
  have hsent : (Queue.send rtos d.mail.queue e.toBytes).1 = .success ↔
      (rtos.xQueueSend d.mail.queue e.toBytes 0).1 = true := by
    unfold Queue.send
    rcases rtos.xQueueSend d.mail.queue e.toBytes 0 with ⟨_ | _, q'⟩ <;> simp
  by_cases ha : (handle d.wifi event ⟨espWifiConnect, (Queue.send rtos d.mail.queue e.toBytes).1⟩).2.2 = .aborted
  · rw [if_pos ha]
    have hno : ¬ (rtos.xQueueSend d.mail.queue e.toBytes 0).1 = true := fun hyes => hiff.1 ha (hsent.2 hyes)
    refine ⟨⟨⟨haccount, ?_, h.inOrder, h.console⟩, nofun, h.message⟩, iff_of_false nofun fun hlt => hno (hroom.2 hlt)⟩
    show (if (rtos.xQueueSend d.mail.queue e.toBytes 0).1 = true then _ else d.mail.sent) = _
    rw [if_neg hno]
    exact h.posts
  · rw [if_neg ha]
    have hyes : (rtos.xQueueSend d.mail.queue e.toBytes 0).1 = true :=
      hsent.1 (Decidable.of_not_not fun hne => ha (hiff.2 hne))
    refine ⟨⟨⟨haccount, ?_, h.inOrder, h.console⟩, h.state, h.message⟩, iff_of_true hup (hroom.1 hyes)⟩
    show (if (rtos.xQueueSend d.mail.queue e.toBytes 0).1 = true then d.mail.sent ++ [e.toBytes] else _) =
      ((d.delivered ++ [event]).filterMap CoreService.posted).map ServiceEvent.toBytes
    rw [if_pos hyes, List.filterMap_append, List.filterMap_cons_some hp, List.filterMap_nil, List.map_append, h.posts]
    rfl

/-- `Queue_Receive`. -/
theorem Inv.receive {d : Device Q} (h : Inv rtos d) (hpc : d.pc = .receive) {error : ErrorCode} {message : Bytes}
    {mail : Mail Q} (hr : d.mail.receive rtos timeoutEvent.toBytes timeoutMs = ((error, message), mail)) :
    Inv rtos { d with pc := .handle message, mail } := by
  have hinOrder := h.inOrder
  rw [show d.inHand = [] by rw [Device.inHand, hpc], List.append_nil] at hinOrder
  obtain ⟨ret, mail', hr', haccount, hsent, hcases⟩ := h.account.receive_cases timeoutEvent.toBytes timeoutMs
  rw [hr] at hr'
  cases hr'
  have hposts : mail.sent = _ := hsent.trans h.posts
  rcases hcases with ⟨x, hx, hret, hreceived⟩ | ⟨hret, hreceived⟩
  · cases hret
    rw [h.posts] at hx
    obtain ⟨e, he, rfl⟩ := List.mem_map.1 hx
    obtain ⟨event, -, hp⟩ := List.mem_filterMap.1 he
    have hne : e.toBytes ≠ timeoutEvent.toBytes := fun heq => (posted_cases hp).1 (toBytes_inj heq)
    refine ⟨⟨haccount, hposts, ?_, h.console⟩, h.state, fun m hm => ?_⟩
    · show mail.received = _ ++ (if e.toBytes = timeoutEvent.toBytes then [] else [e.toBytes])
      rw [if_neg hne, hreceived, hinOrder]
    · cases hm
      exact .inr ⟨event, e, hp, rfl⟩
  · cases hret
    refine ⟨⟨haccount, hposts, ?_, h.console⟩, h.state, fun m hm => ?_⟩
    · show mail.received = _ ++ (if timeoutEvent.toBytes = timeoutEvent.toBytes then [] else [timeoutEvent.toBytes])
      rw [if_pos rfl, List.append_nil, hreceived, hinOrder]
    · cases hm
      exact .inl rfl

/-- `Core_HandleEvent` for a time-out. -/
theorem coreHandleEvent_timeout (d : Device Q) (hup : d.rebooted = false) (queueNew taskCreate : Bool) :
    coreHandleEvent d timeoutEvent.toBytes queueNew taskCreate = { d with pc := .receive } := by
  have hne : timeoutEvent.event ≠ driverWifiEventStaGotIp := by decide
  simp only [coreHandleEvent, ServiceEvent.ofBytes_toBytes, if_neg hne, hup, Bool.false_eq_true, if_false, if_true]

/-- `Core_HandleEvent` for another event. -/
theorem coreHandleEvent_event (d : Device Q) (hup : d.rebooted = false) {e : ServiceEvent}
    (hne : e.event ≠ driverWifiEventStaGotIp) (ht : e ≠ timeoutEvent) (queueNew taskCreate : Bool) :
    coreHandleEvent d e.toBytes queueNew taskCreate = { d with pc := .receive, handled := d.handled ++ [e] } := by
  simp only [coreHandleEvent, ServiceEvent.ofBytes_toBytes, if_neg hne, hup, Bool.false_eq_true, if_false, if_neg ht]

/-- The handler. -/
theorem Inv.handle {d : Device Q} (h : Inv rtos d) {message : Bytes} (hpc : d.pc = .handle message)
    (queueNew taskCreate : Bool) (hup : d.rebooted = false) :
    Inv rtos (coreHandleEvent d message queueNew taskCreate) ∧
      ((coreHandleEvent d message queueNew taskCreate).rebooted = false ↔
        Survives d (.handle queueNew taskCreate)) := by
  have hinOrder := h.inOrder
  have hconsole := h.console
  have hstate := h.state hup
  have hinHand : d.inHand = if message = timeoutEvent.toBytes then [] else [message] := by rw [Device.inHand, hpc]
  rcases h.message message hpc with rfl | ⟨event, e, hp, rfl⟩
  · rw [if_pos rfl] at hinHand
    rw [coreHandleEvent_timeout d hup]
    rw [hinHand] at hinOrder
    refine ⟨⟨⟨h.account, h.posts, hinOrder, hconsole⟩, fun _ => hstate, nofun⟩, iff_of_true hup fun _ hhand => ?_⟩
    rw [hinHand] at hhand
    cases hhand
  · obtain ⟨ht, hpayload⟩ := posted_cases hp
    rw [if_neg fun heq => ht (toBytes_inj heq)] at hinHand
    rw [hinHand] at hinOrder
    -- the event is handled
    have hdone : d.mail.received = (d.handled ++ [e]).map ServiceEvent.toBytes ++ [] := by
      rw [List.map_append, List.append_nil]
      exact hinOrder
    by_cases hgot : e.event = driverWifiEventStaGotIp
    · obtain rfl : e = ⟨driverWifiEventStaGotIp, 0⟩ := by
        cases e
        simp only at hgot hpayload
        rw [hgot, hpayload]
      by_cases hstop : d.console = .stopped
      · have hzero : d.starts = 0 := hstate.1 hstop
        by_cases hmemory : queueNew = true ∧ taskCreate = true
        · obtain ⟨rfl, rfl⟩ := hmemory
          have hstep : coreHandleEvent d (ServiceEvent.toBytes ⟨driverWifiEventStaGotIp, 0⟩) true true =
              { d with
                pc := .receive, console := .running, starts := 1
                handled := d.handled ++ [⟨driverWifiEventStaGotIp, 0⟩] } := by
            simp [coreHandleEvent, startConsole, hstop, hup, ht, hzero]
          rw [hstep]
          refine ⟨⟨⟨h.account, h.posts, hdone, ?_⟩, fun _ => iff_of_false nofun nofun, nofun⟩,
            iff_of_true hup fun _ _ => ⟨rfl, rfl⟩⟩
          rw [if_pos (by simp)]
        · have hstep : coreHandleEvent d (ServiceEvent.toBytes ⟨driverWifiEventStaGotIp, 0⟩) queueNew taskCreate =
              { d with console := .running, rebooted := true } := by
            cases queueNew <;> cases taskCreate <;>
              simp_all [coreHandleEvent, startConsole]
          rw [hstep]
          refine ⟨⟨⟨h.account, h.posts, h.inOrder, hconsole⟩, nofun, h.message⟩, iff_of_false nofun fun hok => ?_⟩
          exact hmemory (hok hzero hinHand)
      · have hsome : d.starts ≠ 0 := fun hzero => hstop (hstate.2 hzero)
        have hmem : ⟨driverWifiEventStaGotIp, 0⟩ ∈ d.handled := by
          by_contra hno
          rw [if_neg hno] at hconsole
          exact hsome hconsole
        have hstep : coreHandleEvent d (ServiceEvent.toBytes ⟨driverWifiEventStaGotIp, 0⟩) queueNew taskCreate =
            { d with pc := .receive, handled := d.handled ++ [⟨driverWifiEventStaGotIp, 0⟩] } := by
          simp [coreHandleEvent, startConsole, hstop, hup, ht]
        rw [hstep]
        refine ⟨⟨⟨h.account, h.posts, hdone, ?_⟩, fun _ => hstate, nofun⟩,
          iff_of_true hup fun hzero _ => absurd hzero hsome⟩
        rw [if_pos (by simp)]
        rw [if_pos hmem] at hconsole
        exact hconsole
    · rw [coreHandleEvent_event d hup hgot ht]
      have hne : (⟨driverWifiEventStaGotIp, 0⟩ : ServiceEvent) ≠ e := fun heq => hgot (by rw [← heq])
      refine ⟨⟨⟨h.account, h.posts, hdone, ?_⟩, fun _ => hstate, nofun⟩, iff_of_true hup fun _ hhand => ?_⟩
      · show d.starts = if _ ∈ d.handled ++ [e] then 1 else 0
        simp only [List.mem_append, List.mem_singleton, hne, or_false]
        exact hconsole
      · rw [hinHand] at hhand
        exact absurd (toBytes_inj (List.cons.inj hhand).1).symm hne

/-- What a step preserves, and when the device goes on after it. -/
theorem Inv.step {d e : Device Q} {a : Act} (h : Inv rtos d) (hs : CoreService.step rtos network d a = some e) :
    Inv rtos e ∧ d.rebooted = false ∧ (e.rebooted = false ↔ Survives d a) := by
  unfold CoreService.step at hs
  split at hs
  · cases hs
  · rename_i hup
    have hup : d.rebooted = false := by simpa using hup
    split at hs
    · cases hs
      rename_i err pc hpc
      have hbefore : d.inHand = [] := by rw [Device.inHand, hpc]
      have hnext : ∀ next m, checkInit network err next ≠ .handle m := fun next m => by
        unfold checkInit
        split <;> nofun
      cases pc with
      | nvsFlashInit | espEventLoopCreateDefault | registerWifiEvent | registerIpEvent =>
        refine ⟨h.init rfl rfl rfl rfl rfl hup hbefore (hnext _), hup, iff_of_true hup fun hor => ?_⟩
        simp [hpc] at hor
      | espNetifInit | espWifiInit =>
        have hsurvives : Survives d (.statement err) ↔ err = espOk := by simp [Survives, hpc]
        rw [hsurvives]
        by_cases he : err = espOk
        · simp only [initStep, if_pos he]
          exact ⟨h.init rfl rfl rfl rfl rfl hup hbefore nofun, hup, iff_of_true hup he⟩
        · simp only [initStep, if_neg he]
          refine ⟨h.init rfl rfl rfl rfl rfl hup hbefore fun m hm => ?_, hup, iff_of_false nofun he⟩
          rw [hpc] at hm
          cases hm
    · rename_i err pc hpc
      have hbefore : d.inHand = [] := by rw [Device.inHand, hpc]
      have hsurvives : Survives d (.statement err) := fun hor => by simp [hpc] at hor
      split at hs <;> cases hs <;>
        exact ⟨h.init rfl rfl rfl rfl rfl hup hbefore nofun, hup, iff_of_true hup hsurvives⟩
    · rename_i event espWifiConnect
      split at hs
      · cases hs
        rcases hp : CoreService.posted event with _ | e
        · obtain ⟨hinv, hiff⟩ := h.notPosted hp espWifiConnect hup
          exact ⟨hinv, hup, hiff⟩
        · obtain ⟨hinv, hiff⟩ := h.posted hp espWifiConnect hup
          exact ⟨hinv, hup, hiff⟩
      · cases hs
    · cases hs
      exact ⟨h.receive ‹_› rfl, hup, iff_of_true hup trivial⟩
    · cases hs
      rename_i queueNew taskCreate message hpc
      obtain ⟨hinv, hiff⟩ := h.handle hpc queueNew taskCreate hup
      exact ⟨hinv, hup, hiff⟩
    · cases hs

/-- In every run, whatever ESP-IDF returns and however its events fall between the steps of the service: the events
about addresses are handled in their order, each one once, and the console is started at the first address and never
again. The device reboots exactly at the steps that do not meet `Survives`. -/
theorem core_handles_addresses (rtos : RtosQueue Q) (network : WiFiNetwork) (queue : Q)
    (hqueue : Queue.new rtos SERVICE_QUEUE_SIZE sizeofServiceEvent = some queue) (acts : List Act) :
    Always (step rtos network) (Knows rtos) (.boot queue) acts ∧
      (Always (step rtos network) (fun d => d.rebooted = false) (.boot queue) acts ↔
        Meets (step rtos network) Survives (.boot queue) acts) := by
  constructor
  · exact always_of_meets (I := Inv rtos) (C := fun _ _ => True) (fun _ h => h.toKnows)
      (fun _ _ _ h _ hs => (h.step hs).1) (inv_boot hqueue) (meets_true _ _)
  · exact always_iff_meets_of (I := Inv rtos) (fun _ _ _ h _ hs => (h.step hs).1)
      (fun _ _ _ h _ _ hs => (h.step hs).2.2) (inv_boot hqueue) rfl (meets_true _ _)

/-- An address is lost and got again before the service looks at its queue. -/
def twoAddresses : List Act :=
  List.replicate 9 (.statement 0) ++ [.idf .staStart 0, .idf .staConnected 0, .idf .staGotIp 0, .idf .staLostIp 0] ++
    [.receive, .handle true true, .idf .staGotIp 0, .receive, .handle false false, .receive, .handle false false]

theorem core_handles_addresses_two :
    Always (step Queue.fifoQueue openNetwork) (Knows Queue.fifoQueue) (.boot (Fifo.empty 20)) twoAddresses ∧
      Always (step Queue.fifoQueue openNetwork) (fun d => d.rebooted = false) (.boot (Fifo.empty 20)) twoAddresses := by
  have hboth := core_handles_addresses Queue.fifoQueue openNetwork (Fifo.empty 20) rfl twoAddresses
  exact ⟨hboth.1, hboth.2.2 (by decide)⟩

end Runs

end InfoWorkshop.Esp32.CoreService
