/-
`adapter/esp32/wifi.c`: the event handler and the calls that start and stop the station, one statement
at a time. What the ESP-IDF functions and `Queue_Send` return is chosen by the environment.
-/
import InfoWorkshop.Core.Defines
import InfoWorkshop.Lib.Steps

namespace InfoWorkshop.Esp32.Wifi

open InfoWorkshop.Core InfoWorkshop.Steps

/-- `CONNECT_MAXIMUM_RETRY`. -/
def connectMaximumRetry : UInt32 := 5

/-- `WIFI_SSID_MAX_LENGTH`. -/
def wifiSsidMaxLength : Nat := 32

/-- `WIFI_PASSWORD_MAX_LENGTH`. -/
def wifiPasswordMaxLength : Nat := 64

/-- The fields of `WiFiNetwork` that the adapter reads. -/
structure WiFiNetwork where
  ssid : List UInt8
  passphrase : List UInt8
  ssid_length : ssid.length = wifiSsidMaxLength + 1
  passphrase_length : passphrase.length = wifiPasswordMaxLength + 1
  deriving DecidableEq, Repr

/-- The fields of `wifi_config_t` that the adapter fills. -/
structure StaConfig where
  ssid : List UInt8
  password : List UInt8
  deriving DecidableEq, Repr

/-- `esp_err_t`, which `CHECK_ERROR` returns as an `ErrorCode`. -/
abbrev EspErr := Int32

/-- `ESP_OK`, and `SUCCESS` as a number. -/
def espOk : EspErr := 0

/-- `ctx`, without the queue: what `Queue_Send` answers is chosen by the environment. -/
structure Ctx where
  isConnected : Bool
  connectionRetryCount : UInt32
  deriving DecidableEq, Repr

/-- `ctx` is a static variable. -/
def Ctx.zero : Ctx := ⟨false, 0⟩

/-- The events the handler is registered for, with the identifier of one it does not know. -/
inductive IdfEvent
  | staStart
  | staDisconnected
  | staConnected
  | otherWifi (eventId : Int32)
  | staGotIp
  | staLostIp
  | apStaIpAssigned
  | otherIp (eventId : Int32)
  deriving DecidableEq, Repr

/-- `DRIVER_WIFI_EVENT_STA_GOT_IP`. -/
def driverWifiEventStaGotIp : UInt32 := 0x101

/-- `DRIVER_WIFI_EVENT_STA_LOST_IP`. -/
def driverWifiEventStaLostIp : UInt32 := 0x102

/-- `DRIVER_WIFI_EVENT_AP_IP_ASSIGNED`. -/
def driverWifiEventApIpAssigned : UInt32 := 0x103

/-- The calls the adapter makes. -/
inductive Call
  | espWifiConnect
  | espWifiSetMode
  | espWifiSetConfig (config : StaConfig)
  | espWifiStart
  | espWifiDisconnect
  | espWifiStop
  | queueSend (event payload : UInt32)
  deriving DecidableEq, Repr

/-! ## `Wifi_EventHandler` -/

/-- The statement of `Wifi_EventHandler` that comes next. -/
inductive HandlerPc
  | connectChecked
  | setDisconnected
  | testRetry
  | connect
  | setConnected
  | clearRetry
  | send (event : UInt32)
  | returned
  | aborted
  deriving DecidableEq, Repr

/-- What a call made by the handler returns. -/
structure Answer where
  espWifiConnect : EspErr
  queueSend : ErrorCode
  deriving DecidableEq, Repr

/-- The first statement of the handler for an event. -/
def HandlerPc.enter : IdfEvent → HandlerPc
  | .staStart => .connectChecked
  | .staDisconnected => .setDisconnected
  | .staConnected => .setConnected
  | .otherWifi _ => .returned
  | .staGotIp => .send driverWifiEventStaGotIp
  | .staLostIp => .send driverWifiEventStaLostIp
  | .apStaIpAssigned => .send driverWifiEventApIpAssigned
  | .otherIp _ => .returned

/-- One statement of the handler: the new `ctx`, the call it made, and what comes next. -/
def handlerStep (ctx : Ctx) (ans : Answer) : HandlerPc → Ctx × List Call × HandlerPc
  | .connectChecked =>
    (ctx, [.espWifiConnect], if ans.espWifiConnect = espOk then .returned else .aborted)
  | .setDisconnected => ({ ctx with isConnected := false }, [], .testRetry)
  | .testRetry =>
    if ctx.connectionRetryCount < connectMaximumRetry then
      ({ ctx with connectionRetryCount := ctx.connectionRetryCount + 1 }, [], .connect)
    else (ctx, [], .returned)
  | .connect => (ctx, [.espWifiConnect], .returned)
  | .setConnected => ({ ctx with isConnected := true }, [], .clearRetry)
  | .clearRetry => ({ ctx with connectionRetryCount := 0 }, [], .returned)
  | .send event =>
    (ctx, [.queueSend event 0], if ans.queueSend = .success then .returned else .aborted)
  | .returned => (ctx, [], .returned)
  | .aborted => (ctx, [], .aborted)

/-- `fuel` statements of the handler, and the calls they made. -/
def handlerRun (ans : Answer) : Nat → Ctx → HandlerPc → Ctx × List Call × HandlerPc
  | 0, ctx, pc => (ctx, [], pc)
  | fuel + 1, ctx, pc =>
    let r := handlerStep ctx ans pc
    let rest := handlerRun ans fuel r.1 r.2.2
    (rest.1, r.2.1 ++ rest.2.1, rest.2.2)

/-- A whole invocation of the handler, which has three statements at most. -/
def handle (ctx : Ctx) (event : IdfEvent) (ans : Answer) : Ctx × List Call × HandlerPc :=
  handlerRun ans 3 ctx (.enter event)

/-! ## `WiFi_StartSta` and `WiFi_StopSta` -/

/-- The statement of `WiFi_StartSta` or `WiFi_StopSta` that comes next. -/
inductive CallPc
  | setMode (config : StaConfig)
  | setConfig (config : StaConfig)
  | start
  | testConnected
  | disconnect
  | stop
  | returned (error : EspErr)
  deriving DecidableEq, Repr

/-- The configuration that `WiFi_StartSta` copies out of its argument. -/
def staConfig (network : WiFiNetwork) : StaConfig :=
  ⟨network.ssid.take wifiSsidMaxLength, network.passphrase.take wifiPasswordMaxLength⟩

/-- `CHECK_ERROR`: an error is returned at once. -/
def checkError (err : EspErr) (next : CallPc) : CallPc :=
  if err = espOk then next else .returned err

/-- One statement of `WiFi_StartSta` or `WiFi_StopSta`; `err` is what the function it calls returns. -/
def callStep (ctx : Ctx) (err : EspErr) : CallPc → List Call × CallPc
  | .setMode config => ([.espWifiSetMode], checkError err (.setConfig config))
  | .setConfig config => ([.espWifiSetConfig config], checkError err .start)
  | .start => ([.espWifiStart], checkError err (.returned espOk))
  | .testConnected => ([], if ctx.isConnected = true then .disconnect else .stop)
  | .disconnect => ([.espWifiDisconnect], checkError err .stop)
  | .stop => ([.espWifiStop], checkError err (.returned espOk))
  | .returned error => ([], .returned error)

/-- The statements of a call, as many as there are `errs`. -/
def callRun (ctx : Ctx) : List EspErr → CallPc → List Call × CallPc
  | [], pc => ([], pc)
  | err :: errs, pc =>
    let r := callStep ctx err pc
    let rest := callRun ctx errs r.2
    (r.1 ++ rest.1, rest.2)

/-- `WiFi_StartSta` and `WiFi_StopSta` have three statements at most. -/
structure Errs where
  first : EspErr
  second : EspErr
  third : EspErr
  deriving DecidableEq, Repr

def Errs.toList (e : Errs) : List EspErr := [e.first, e.second, e.third]

/-- `WiFi_StartSta`. -/
def startSta (ctx : Ctx) (network : WiFiNetwork) (errs : Errs) : List Call × CallPc :=
  callRun ctx errs.toList (.setMode (staConfig network))

/-- `WiFi_StopSta`. -/
def stopSta (ctx : Ctx) (errs : Errs) : List Call × CallPc :=
  callRun ctx errs.toList .testConnected

/-! ## A history of calls and events -/

/-- A call of the application, or an event delivered to the handler. -/
inductive Item
  | startSta (network : WiFiNetwork) (errs : Errs)
  | stopSta (errs : Errs)
  | event (ev : IdfEvent) (ans : Answer)
  deriving DecidableEq, Repr

/-- The events of a history. -/
def events : List Item → List IdfEvent
  | [] => []
  | .event ev _ :: items => ev :: events items
  | _ :: items => events items

/-- `ctx`, whether the handler has not aborted, and for each item the calls it made, oldest first. -/
structure Device where
  ctx : Ctx
  alive : Bool
  log : List (Item × List Call)
  deriving DecidableEq, Repr

/-- The device after the start of the firmware. -/
def Device.boot : Device := ⟨.zero, true, []⟩

/-- One item of a history. Nothing is called or delivered after an abort. -/
def Device.step (d : Device) (item : Item) : Option Device :=
  if d.alive = false then none
  else match item with
    | .startSta network errs =>
      some { d with log := d.log ++ [(item, (Wifi.startSta d.ctx network errs).1)] }
    | .stopSta errs => some { d with log := d.log ++ [(item, (Wifi.stopSta d.ctx errs).1)] }
    | .event ev ans =>
      let r := handle d.ctx ev ans
      some ⟨r.1, !(r.2.2 == .aborted), d.log ++ [(item, r.2.1)]⟩

/-! ## What the handler does for an event -/

theorem handle_disconnected_retry {ctx : Ctx} (h : ctx.connectionRetryCount < connectMaximumRetry)
    (ans : Answer) :
    handle ctx .staDisconnected ans =
      (⟨false, ctx.connectionRetryCount + 1⟩, [.espWifiConnect], .returned) := by
  simp [handle, HandlerPc.enter, handlerRun, handlerStep, h]

theorem handle_disconnected_giveUp {ctx : Ctx} (h : ¬ ctx.connectionRetryCount < connectMaximumRetry)
    (ans : Answer) :
    handle ctx .staDisconnected ans = (⟨false, ctx.connectionRetryCount⟩, [], .returned) := by
  simp [handle, HandlerPc.enter, handlerRun, handlerStep, h]

theorem handle_connected (ctx : Ctx) (ans : Answer) :
    handle ctx .staConnected ans = (⟨true, 0⟩, [], .returned) := rfl

/-- Every other event leaves `ctx` alone. -/
theorem handle_other {ev : IdfEvent} (hd : ev ≠ .staDisconnected) (hc : ev ≠ .staConnected) (ctx : Ctx)
    (ans : Answer) : (handle ctx ev ans).1 = ctx := by
  cases ev with
  | staDisconnected => exact absurd rfl hd
  | staConnected => exact absurd rfl hc
  | staStart =>
    by_cases he : ans.espWifiConnect = espOk <;>
      simp [handle, HandlerPc.enter, handlerRun, handlerStep, he]
  | staGotIp | staLostIp | apStaIpAssigned =>
    by_cases he : ans.queueSend = .success <;>
      simp [handle, HandlerPc.enter, handlerRun, handlerStep, he]
  | otherWifi id | otherIp id => rfl

/-! ## The retry counter -/

/-- How many times the station was disconnected since it was connected last. -/
def failures (evs : List IdfEvent) : Nat :=
  evs.foldl (fun n ev =>
    match ev with
    | .staDisconnected => n + 1
    | .staConnected => 0
    | _ => n) 0

theorem failures_disconnected (evs : List IdfEvent) :
    failures (evs ++ [.staDisconnected]) = failures evs + 1 := by
  simp [failures]

theorem failures_connected (evs : List IdfEvent) : failures (evs ++ [.staConnected]) = 0 := by
  simp [failures]

theorem failures_other {ev : IdfEvent} (hd : ev ≠ .staDisconnected) (hc : ev ≠ .staConnected)
    (evs : List IdfEvent) : failures (evs ++ [ev]) = failures evs := by
  unfold failures
  rw [List.foldl_append]
  cases ev with
  | staDisconnected => exact absurd rfl hd
  | staConnected => exact absurd rfl hc
  | _ => rfl

/-- The counter after the events `evs`: it stops at the maximum, and only a connection clears it. -/
def Counts (ctx : Ctx) (evs : List IdfEvent) : Prop :=
  ctx.connectionRetryCount.toNat = min connectMaximumRetry.toNat (failures evs)

theorem counts_lt_iff {ctx : Ctx} {evs : List IdfEvent} (h : Counts ctx evs) :
    ctx.connectionRetryCount < connectMaximumRetry ↔ failures evs < connectMaximumRetry.toNat := by
  unfold Counts at h
  rw [UInt32.lt_iff_toNat_lt, h]
  omega

theorem handle_counts {ctx : Ctx} {evs : List IdfEvent} (h : Counts ctx evs) (ev : IdfEvent)
    (ans : Answer) : Counts (handle ctx ev ans).1 (evs ++ [ev]) := by
  by_cases hd : ev = .staDisconnected
  · subst hd
    unfold Counts at h ⊢
    rw [failures_disconnected]
    by_cases hlt : ctx.connectionRetryCount < connectMaximumRetry
    · rw [handle_disconnected_retry hlt]
      have hmax : connectMaximumRetry.toNat = 5 := rfl
      have hn := UInt32.lt_iff_toNat_lt.1 hlt
      simp only [UInt32.toNat_add, UInt32.reduceToNat]
      omega
    · rw [handle_disconnected_giveUp hlt]
      have hn := mt (UInt32.lt_iff_toNat_lt).2 hlt
      simp only
      omega
  · by_cases hc : ev = .staConnected
    · subst hc
      unfold Counts
      rw [failures_connected, handle_connected]
      rfl
    · unfold Counts at h ⊢
      rw [failures_other hd hc, handle_other hd hc]
      exact h

theorem events_append (as bs : List Item) : events (as ++ bs) = events as ++ events bs := by
  induction as with
  | nil => rfl
  | cons item as ih => cases item <;> simp [events, ih]

theorem step_counts {d d' : Device} {item : Item} {evs : List IdfEvent} (h : Counts d.ctx evs)
    (hs : d.step item = some d') : Counts d'.ctx (evs ++ events [item]) := by
  unfold Device.step at hs
  split at hs
  · cases hs
  · cases item with
    | startSta network errs => cases hs; simpa [events] using h
    | stopSta errs => cases hs; simpa [events] using h
    | event ev ans => cases hs; exact handle_counts h ev ans

/-- The counter after any history. -/
theorem boot_counts {items : List Item} {d : Device} (h : exec Device.step .boot items = some d) :
    Counts d.ctx (events items) := by
  suffices hgen : ∀ (items : List Item) (d₀ : Device) (evs : List IdfEvent), Counts d₀.ctx evs →
      exec Device.step d₀ items = some d → Counts d.ctx (evs ++ events items) by
    exact hgen items .boot [] rfl h
  intro items
  induction items with
  | nil =>
    rintro d₀ evs h₀ hrun
    cases hrun
    simpa [events] using h₀
  | cons item items ih =>
    rintro d₀ evs h₀ hrun
    obtain ⟨d₁, hs, hrun⟩ := exec_cons_some hrun
    have happ : events (item :: items) = events [item] ++ events items := events_append [item] items
    rw [happ, ← List.append_assoc]
    exact ih d₁ _ (step_counts h₀ hs) hrun

/-! ## Every disconnection is answered -/

/-- Every `WIFI_EVENT_STA_DISCONNECTED` of the log made the handler call `esp_wifi_connect`. -/
def Answered (log : List (Item × List Call)) : Prop :=
  ∀ e ∈ log, ∀ ans, e.1 = .event .staDisconnected ans → .espWifiConnect ∈ e.2

/-- Each disconnection in `evs`, after the events `past`, is among the first five since a connection. -/
def WithinRetries (past evs : List IdfEvent) : Prop :=
  ∀ pre post, evs = pre ++ .staDisconnected :: post →
    failures (past ++ pre) < connectMaximumRetry.toNat

theorem withinRetries_cons (past : List IdfEvent) (ev : IdfEvent) (evs : List IdfEvent) :
    WithinRetries past (ev :: evs) ↔
      (ev = .staDisconnected → failures past < connectMaximumRetry.toNat) ∧
        WithinRetries (past ++ [ev]) evs := by
  constructor
  · intro h
    constructor
    · rintro rfl
      simpa using h [] evs rfl
    · rintro pre post rfl
      simpa using h (ev :: pre) post rfl
  · rintro ⟨hev, hevs⟩ pre post heq
    cases pre with
    | nil =>
      cases heq
      simpa using hev rfl
    | cons a pre =>
      cases heq
      simpa using hevs pre post rfl

/-- The calls made for one event, when the counter has seen `past`. -/
theorem event_answered_iff {ctx : Ctx} {past : List IdfEvent} (h : Counts ctx past) (ev : IdfEvent)
    (ans : Answer) :
    Answered [(.event ev ans, (handle ctx ev ans).2.1)] ↔
      (ev = .staDisconnected → failures past < connectMaximumRetry.toNat) := by
  rw [← counts_lt_iff h]
  constructor
  · rintro hans rfl
    by_contra hlt
    have hmem := hans _ (List.mem_singleton.2 rfl) ans rfl
    rw [handle_disconnected_giveUp hlt] at hmem
    cases hmem
  · intro hlt e he ans' heq
    rw [List.mem_singleton] at he
    subst he
    cases heq
    rw [handle_disconnected_retry (hlt rfl)]
    exact List.mem_singleton.2 rfl

theorem answered_append (l₁ l₂ : List (Item × List Call)) :
    Answered (l₁ ++ l₂) ↔ Answered l₁ ∧ Answered l₂ := by
  unfold Answered
  constructor
  · intro h
    exact ⟨fun e he => h e (List.mem_append_left _ he), fun e he => h e (List.mem_append_right _ he)⟩
  · rintro ⟨h₁, h₂⟩ e he
    rcases List.mem_append.1 he with he | he
    · exact h₁ e he
    · exact h₂ e he

/-- What the events `evs` add to the log of a device whose counter has seen `past`. -/
theorem events_answered_iff (evs : List (IdfEvent × Answer)) {d₀ d : Device} {past : List IdfEvent}
    (hc : Counts d₀.ctx past)
    (h : exec Device.step d₀ (evs.map fun e => .event e.1 e.2) = some d) :
    ∃ new, d.log = d₀.log ++ new ∧ (Answered new ↔ WithinRetries past (evs.map Prod.fst)) := by
  induction evs generalizing d₀ past with
  | nil =>
    cases h
    refine ⟨[], by simp, ?_⟩
    simp [Answered, WithinRetries]
  | cons e evs ih =>
    obtain ⟨d₁, hs, hrun⟩ := exec_cons_some h
    have hc₁ := step_counts hc hs
    obtain ⟨new, hlog, hnew⟩ := ih hc₁ hrun
    have hlog₁ : d₁.log = d₀.log ++ [(.event e.1 e.2, (handle d₀.ctx e.1 e.2).2.1)] := by
      unfold Device.step at hs
      split at hs
      · cases hs
      · cases hs; rfl
    refine ⟨(.event e.1 e.2, (handle d₀.ctx e.1 e.2).2.1) :: new, ?_, ?_⟩
    · rw [hlog, hlog₁, List.append_assoc]; rfl
    · rw [← List.singleton_append, answered_append, event_answered_iff hc, hnew, List.map_cons,
        withinRetries_cons]
      rfl

/-- After any history and a `WiFi_StartSta`, every disconnection is answered by `esp_wifi_connect` if
and only if each is among the first five since the station was connected last, whether or not it was
stopped and started in between. -/
theorem keeps_trying_iff (history : List Item) (network : WiFiNetwork) (errs : Errs)
    (evs : List (IdfEvent × Answer)) (d₀ d : Device)
    (h₀ : exec Device.step .boot (history ++ [.startSta network errs]) = some d₀)
    (h : exec Device.step d₀ (evs.map fun e => .event e.1 e.2) = some d) :
    Answered (d.log.drop d₀.log.length) ↔ WithinRetries (events history) (evs.map Prod.fst) := by
  have hc := boot_counts h₀
  rw [events_append, show events [.startSta network errs] = [] from rfl, List.append_nil] at hc
  obtain ⟨new, hlog, hnew⟩ := events_answered_iff evs hc h
  rw [hlog, List.drop_left]
  exact hnew

/-- A network without a passphrase. -/
def openNetwork : WiFiNetwork := ⟨.replicate 33 0, .replicate 65 0, rfl, rfl⟩

/-- Every function of the ESP-IDF succeeds. -/
def Errs.ok : Errs := ⟨espOk, espOk, espOk⟩

/-- Every function that the handler calls succeeds. -/
def Answer.ok : Answer := ⟨espOk, .success⟩

/-- The first connection attempts of a station. -/
theorem keeps_trying_twice :
    ∃ d₀ d : Device, exec Device.step .boot [.startSta openNetwork .ok] = some d₀ ∧
      exec Device.step d₀ [.event .staDisconnected .ok, .event .staDisconnected .ok] = some d ∧
      Answered (d.log.drop d₀.log.length) := by
  refine ⟨_, _, rfl, rfl, ?_⟩
  apply (keeps_trying_iff [] openNetwork .ok [(.staDisconnected, .ok), (.staDisconnected, .ok)] _ _
    rfl rfl).2
  rintro pre post heq
  have hlen := congrArg List.length heq
  simp only [List.map_cons, List.map_nil, List.length_append, List.length_cons, List.length_nil] at hlen
  rcases pre with _ | ⟨a, _ | ⟨b, pre⟩⟩
  · decide
  · cases heq; decide
  · simp only [List.length_cons] at hlen
    omega

/-- The sixth disconnection in a row is not answered. -/
theorem sixth_disconnection_unanswered :
    ¬ ∀ (history : List Item) (network : WiFiNetwork) (errs : Errs) (evs : List (IdfEvent × Answer))
      (d₀ d : Device), exec Device.step .boot (history ++ [.startSta network errs]) = some d₀ →
        exec Device.step d₀ (evs.map fun e => .event e.1 e.2) = some d →
          Answered (d.log.drop d₀.log.length) := by
  intro h
  have hans := h [] openNetwork .ok (.replicate 6 (.staDisconnected, .ok)) _ _ rfl rfl
  have hlast := hans (.event .staDisconnected .ok, []) (by decide) .ok rfl
  cases hlast

end InfoWorkshop.Esp32.Wifi
