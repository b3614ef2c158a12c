/-
`hmi/hmi.c` on the device, with the button of `adapter/esp32/btn.c` and the LED of `adapter/esp32/led.c`: the
interrupt handler of the button sends events to the queue of the service, whose task sets the next colour for
each of them. What the drivers of ESP-IDF return is chosen by the environment.
-/
import InfoWorkshop.Core.Service
import InfoWorkshop.Esp32.Queue
import InfoWorkshop.Esp32.Wifi

namespace InfoWorkshop.Esp32.Hmi

open InfoWorkshop.Core InfoWorkshop.Memory InfoWorkshop.Steps InfoWorkshop.Esp32.Wifi

/-! ## The LED -/

/-- `RGBW`. -/
structure RGBW where
  r : UInt8
  g : UInt8
  b : UInt8
  w : UInt8
  deriving DecidableEq, Repr

/-- `ERROR_RESOURCE_NOT_AVAILABLE` as a number. -/
def errorResourceNotAvailable : EspErr := 6

/-- `ctx` of the LED: whether the handle is not `NULL`; and its strip, the pixel that is set and the one that is
shown. -/
structure Led where
  ledStrip : Bool
  pixel : UInt8 × UInt8 × UInt8
  shown : UInt8 × UInt8 × UInt8
  deriving DecidableEq, Repr

/-- `Led_Init`. -/
def ledInit (led : Led) (newRmtDevice clear : EspErr) : EspErr × Led :=
  if newRmtDevice ≠ espOk then (newRmtDevice, led)
  else if clear ≠ espOk then (clear, { led with ledStrip := true })
  else (espOk, ⟨true, (0, 0, 0), (0, 0, 0)⟩)

/-- `Led_SetLedColor`. -/
def ledSetLedColor (led : Led) (color : RGBW) (setPixel refresh : EspErr) : EspErr × Led :=
  if led.ledStrip = false then (errorResourceNotAvailable, led)
  else if setPixel ≠ espOk then (setPixel, led)
  else
    let led := { led with pixel := (color.r, color.g, color.b) }
    if refresh ≠ espOk then (refresh, led) else (espOk, { led with shown := led.pixel })

/-! ## The service -/

def HMI_EVENT_BTN_PRESS : UInt32 := 0

/-- `ctx` of the service. -/
structure Ctx where
  color : RGBW
  count : Nat
  deriving DecidableEq, Repr

/-- The colour and the count that `Hmi_HandleEvent` sets at a press. -/
def press (ctx : Ctx) : Ctx :=
  if ctx.count = 0 then ⟨⟨0, 0, 0, 0⟩, ctx.count + 1⟩
  else if ctx.count = 1 then ⟨⟨255, 0, 0, 0⟩, ctx.count + 1⟩
  else if ctx.count = 2 then ⟨⟨0, 255, 0, 0⟩, ctx.count + 1⟩
  else ⟨⟨0, 0, 255, 0⟩, 0⟩

/-- `Hmi_HandleEvent`; the result of `Led_SetLedColor` is not looked at. -/
def hmiHandleEvent (ctx : Ctx) (led : Led) (event : UInt32) (setPixel refresh : EspErr) : Ctx × Led :=
  if event = HMI_EVENT_BTN_PRESS then (press ctx, (ledSetLedColor led (press ctx).color setPixel refresh).2)
  else (ctx, led)

/-- Where the task of the service is: in `Btn_Init`, in `Led_Init`, before `Queue_Receive`, before the handler. -/
inductive TaskPc
  | btnInit
  | ledInit
  | receive
  | handle (event : Bytes)
  deriving DecidableEq, Repr

/-- The device. `isr` when the interrupt handler is added. `handled` counts the presses that were handled, and `lit`
is the number of the last one for which the driver of the LED returned no error. -/
structure Device (Q : Type*) where
  pc : TaskPc
  ctx : Ctx
  led : Led
  mail : Mail Q
  isr : Bool
  rebooted : Bool
  handled : Nat
  lit : Option Nat
  deriving DecidableEq, Repr

/-- The service is started with a new queue; static variables are zero. -/
def Device.boot {Q : Type*} (queue : Q) : Device Q :=
  { pc := .btnInit, ctx := ⟨⟨0, 0, 0, 0⟩, 0⟩, led := ⟨false, (0, 0, 0), (0, 0, 0)⟩, mail := .new queue, isr := false
    rebooted := false, handled := 0, lit := none }

/-- The steps: the functions of the task with what ESP-IDF returns in them, and the interrupt handler. -/
inductive Act
  | btnInit (gpioConfig installIsrService isrHandlerAdd : EspErr)
  | ledInit (newRmtDevice clear : EspErr)
  | receive
  | handle (setPixel refresh : EspErr)
  | press
  deriving DecidableEq, Repr

section Step

variable {Q : Type*} (rtos : RtosQueue Q)

/-- `timeoutMs` of the service. -/
def timeoutMs : UInt64 := 1000

/-- The event of `Btn_GpioIsrHandler`. -/
def pressEvent : ServiceEvent := ⟨HMI_EVENT_BTN_PRESS, 0⟩

/-- `Btn_GpioIsrHandler`. -/
def btnGpioIsrHandler (d : Device Q) : Device Q :=
  let r := rtos.xQueueSendFromISR d.mail.queue pressEvent.toBytes
  { d with mail := d.mail.send pressEvent.toBytes r, rebooted := !r.1 }

/-- The handler is called with the event in the bytes `message`. -/
def handleStep (d : Device Q) (message : Bytes) (setPixel refresh : EspErr) : Device Q :=
  let event := (ServiceEvent.ofBytes message).event
  let (ctx, led) := hmiHandleEvent d.ctx d.led event setPixel refresh
  if event = HMI_EVENT_BTN_PRESS then
    let error := (ledSetLedColor d.led ctx.color setPixel refresh).1
    { d with
      pc := .receive, ctx, led, handled := d.handled + 1
      lit := if error = espOk then some d.handled else d.lit }
  else { d with pc := .receive, ctx, led }

def step (d : Device Q) (a : Act) : Option (Device Q) :=
  if d.rebooted = true then none
  else
    match a, d.pc with
    | .btnInit gpioConfig installIsrService isrHandlerAdd, .btnInit =>
      -- CHECK_ERROR returns at the first error
      let isr := gpioConfig = espOk ∧ installIsrService = espOk ∧ isrHandlerAdd = espOk
      some { d with pc := .ledInit, isr }
    | .ledInit newRmtDevice clear, .ledInit =>
      some { d with pc := .receive, led := (ledInit d.led newRmtDevice clear).2 }
    | .receive, .receive =>
      -- the result of Queue_Receive is not looked at
      let ((_, message), mail) := d.mail.receive rtos timeoutEvent.toBytes timeoutMs
      some { d with pc := .handle message, mail }
    | .handle setPixel refresh, .handle message => some (handleStep d message setPixel refresh)
    | .press, _ => if d.isr = true then some (btnGpioIsrHandler rtos d) else none
    | _, _ => none

/-! ## What a step can do -/

/-- The steps, each where the task is. -/
inductive Step (d : Device Q) : Act → Device Q → Prop
  | btnInit (gpioConfig installIsrService isrHandlerAdd : EspErr) : d.pc = .btnInit →
    Step d (.btnInit gpioConfig installIsrService isrHandlerAdd)
      { d with
        pc := .ledInit, isr := gpioConfig = espOk ∧ installIsrService = espOk ∧ isrHandlerAdd = espOk }
  | ledInit (newRmtDevice clear : EspErr) : d.pc = .ledInit →
    Step d (.ledInit newRmtDevice clear) { d with pc := .receive, led := (Hmi.ledInit d.led newRmtDevice clear).2 }
  | receive {error : ErrorCode} {message : Bytes} {mail : Mail Q} : d.pc = .receive →
    d.mail.receive rtos timeoutEvent.toBytes timeoutMs = ((error, message), mail) →
    Step d .receive { d with pc := .handle message, mail }
  | handle {message : Bytes} (setPixel refresh : EspErr) : d.pc = .handle message →
    Step d (.handle setPixel refresh) (handleStep d message setPixel refresh)
  | press : d.isr = true → Step d .press (btnGpioIsrHandler rtos d)

theorem step_cases {d e : Device Q} {a : Act} (hs : step rtos d a = some e) :
    d.rebooted = false ∧ Step rtos d a e := by
  unfold step at hs
  split at hs
  · cases hs
  · rename_i hup
    refine ⟨Bool.eq_false_iff.2 hup, ?_⟩
    cases a with
    | btnInit =>
      cases hpc : d.pc <;> rw [hpc] at hs <;> cases hs
      exact .btnInit _ _ _ hpc
    | ledInit =>
      cases hpc : d.pc <;> rw [hpc] at hs <;> cases hs
      exact .ledInit _ _ hpc
    | receive =>
      cases hpc : d.pc <;> rw [hpc] at hs <;> cases hs
      exact .receive hpc rfl
    | handle =>
      cases hpc : d.pc <;> rw [hpc] at hs <;> cases hs
      exact .handle _ _ hpc
    | press =>
      by_cases hisr : d.isr = true
      · rw [if_pos hisr] at hs
        cases hs
        exact .press hisr
      · rw [if_neg hisr] at hs
        cases hs

end Step

/-! ## What the user sees -/

/-- The colours, one press after the other. -/
def palette (n : Nat) : RGBW :=
  match n % 4 with
  | 0 => ⟨0, 0, 0, 0⟩
  | 1 => ⟨255, 0, 0, 0⟩
  | 2 => ⟨0, 255, 0, 0⟩
  | _ => ⟨0, 0, 255, 0⟩

theorem press_eq {ctx : Ctx} {n : Nat} (h : ctx.count = n % 4) : press ctx = ⟨palette n, (n + 1) % 4⟩ := by
  have hcases : n % 4 = 0 ∨ n % 4 = 1 ∨ n % 4 = 2 ∨ n % 4 = 3 := by omega
  rcases hcases with hn | hn | hn | hn
  all_goals
    have hnext : (n + 1) % 4 = (n % 4 + 1) % 4 := by omega
    simp [press, palette, h, hn, hnext]

/-- The LED shows the colour when the driver returns no error, and what it showed before when it does. -/
theorem ledSetLedColor_shown (led : Led) (color : RGBW) (setPixel refresh : EspErr) :
    (ledSetLedColor led color setPixel refresh).2.shown =
      if (ledSetLedColor led color setPixel refresh).1 = espOk then (color.r, color.g, color.b) else led.shown := by
  have hne : errorResourceNotAvailable ≠ espOk := by decide
  unfold ledSetLedColor
  by_cases hstrip : led.ledStrip = false
  · simp [hstrip, hne]
  · by_cases hset : setPixel = espOk
    · by_cases hrefresh : refresh = espOk <;> simp [hstrip, hset, hrefresh]
    · simp [hstrip, hset]

section Runs

variable {Q : Type*} {rtos : RtosQueue Q}

/-- The colour is that of the last press that was handled, whatever the driver returned; the LED shows that of
the last press for which the driver returned no error; and each press that the queue accepted is handled once, or
is still to be. -/
structure Cycles (rtos : RtosQueue Q) (d : Device Q) : Prop where
  color : d.ctx.color = if d.handled = 0 then ⟨0, 0, 0, 0⟩ else palette (d.handled - 1)
  shown : ∀ n ∈ d.lit, n < d.handled ∧ d.led.shown = ((palette n).r, (palette n).g, (palette n).b)
  account : d.mail.Accounts rtos SERVICE_QUEUE_SIZE
  inHand : d.mail.received.length = d.handled + if d.pc = .handle pressEvent.toBytes then 1 else 0

/-- The invariant: in the queue are presses alone, and before the loop none was handled. -/
structure Inv (rtos : RtosQueue Q) (d : Device Q) : Prop extends Cycles rtos d where
  count : d.ctx.count = d.handled % 4
  presses : ∀ x ∈ d.mail.sent, x = pressEvent.toBytes
  message : ∀ x, d.pc = .handle x → x = pressEvent.toBytes ∨ x = timeoutEvent.toBytes
  before : d.pc = .btnInit ∨ d.pc = .ledInit → d.lit = none

theorem inv_boot {queue : Q} (h : Queue.new rtos SERVICE_QUEUE_SIZE sizeofServiceEvent = some queue) :
    Inv rtos (.boot queue) :=
  ⟨⟨rfl, nofun, Mail.accounts_new h, rfl⟩, rfl, nofun, nofun, fun _ => rfl⟩

theorem timeout_ne_press : timeoutEvent.toBytes ≠ pressEvent.toBytes := by decide

/-- The interrupt handler. -/
theorem Inv.press {d : Device Q} (h : Inv rtos d) :
    Inv rtos (btnGpioIsrHandler rtos d) ∧
      ((btnGpioIsrHandler rtos d).rebooted = false ↔ d.mail.sent.length < d.mail.received.length + 20) := by
  obtain ⟨haccount, hroom⟩ := h.account.xQueueSendFromISR pressEvent.toBytes
  refine ⟨⟨⟨h.color, h.shown, haccount, h.inHand⟩, h.count, fun x hx => ?_, h.message, h.before⟩, ?_⟩
  · simp only [btnGpioIsrHandler, Mail.send] at hx
    split at hx
    · rcases List.mem_append.1 hx with hx | hx
      · exact h.presses x hx
      · exact List.mem_singleton.1 hx
    · exact h.presses x hx
  · show (!(rtos.xQueueSendFromISR d.mail.queue pressEvent.toBytes).1) = false ↔ _
    rw [Bool.not_eq_false']
    exact hroom

/-- The handler. -/
theorem Inv.handle {d : Device Q} (h : Inv rtos d) {message : Bytes} (hpc : d.pc = .handle message)
    (setPixel refresh : EspErr) : Inv rtos (handleStep d message setPixel refresh) := by
  have hinHand := h.inHand
  rcases h.message message hpc with rfl | rfl
  · -- a press
    rw [if_pos hpc] at hinHand
    have hevent : (ServiceEvent.ofBytes pressEvent.toBytes).event = HMI_EVENT_BTN_PRESS := by
      rw [ServiceEvent.ofBytes_toBytes]
      rfl
    have hpress := press_eq h.count
    simp only [handleStep, hevent, hmiHandleEvent, if_true, hpress]
    refine ⟨⟨?_, ?_, h.account, hinHand.trans (by simp)⟩, rfl, h.presses, nofun, by simp⟩
    · rw [if_neg (Nat.succ_ne_zero _), Nat.add_sub_cancel]
    · intro n hn
      have hshown := ledSetLedColor_shown d.led (palette d.handled) setPixel refresh
      by_cases hok : (ledSetLedColor d.led (palette d.handled) setPixel refresh).1 = espOk
      · rw [if_pos hok] at hn hshown
        cases hn
        exact ⟨Nat.lt_succ_self _, hshown⟩
      · rw [if_neg hok] at hn hshown
        obtain ⟨hlt, hlit⟩ := h.shown n hn
        exact ⟨Nat.lt_succ_of_lt hlt, hshown.trans hlit⟩
  · -- a time-out
    have hne : ¬ d.pc = .handle pressEvent.toBytes := by
      rw [hpc, TaskPc.handle.injEq]
      exact timeout_ne_press
    rw [if_neg hne] at hinHand
    have hevent : (ServiceEvent.ofBytes timeoutEvent.toBytes).event ≠ HMI_EVENT_BTN_PRESS := by
      rw [ServiceEvent.ofBytes_toBytes]
      decide
    simp only [handleStep, hmiHandleEvent, if_neg hevent]
    exact ⟨⟨h.color, h.shown, h.account, hinHand.trans (by simp)⟩, h.count, h.presses, nofun, by simp⟩

/-- `Queue_Receive`. -/
theorem Inv.receive {d : Device Q} (h : Inv rtos d) (hpc : d.pc = .receive) {error : ErrorCode} {message : Bytes}
    {mail : Mail Q} (hr : d.mail.receive rtos timeoutEvent.toBytes timeoutMs = ((error, message), mail)) :
    Inv rtos { d with pc := .handle message, mail } := by
  have hinHand := h.inHand
  rw [if_neg (by rw [hpc]; exact nofun), Nat.add_zero] at hinHand
  obtain ⟨ret, mail', hr', haccount, hsent, hcases⟩ := h.account.receive_cases timeoutEvent.toBytes timeoutMs
  rw [hr] at hr'
  cases hr'
  rcases hcases with ⟨x, hx, hret, hreceived⟩ | ⟨hret, hreceived⟩
  · cases hret
    have hpress : message = pressEvent.toBytes := h.presses message hx
    subst hpress
    refine ⟨⟨h.color, h.shown, haccount, ?_⟩, h.count, fun y hy => h.presses y (hsent ▸ hy), fun y hy => ?_, by simp⟩
    · rw [if_pos rfl, hreceived, List.length_append, List.length_singleton, hinHand]
    · cases hy
      exact .inl rfl
  · cases hret
    refine ⟨⟨h.color, h.shown, haccount, ?_⟩, h.count, fun y hy => h.presses y (hsent ▸ hy), fun y hy => ?_, by simp⟩
    · rw [if_neg (by rw [TaskPc.handle.injEq]; exact timeout_ne_press), hreceived]
      exact hinHand
    · cases hy
      exact .inr rfl

/-- What a step preserves, and when it reboots. -/
theorem Inv.step {d e : Device Q} {a : Act} (h : Inv rtos d) (hs : Hmi.step rtos d a = some e) :
    Inv rtos e ∧ d.rebooted = false ∧
      (e.rebooted = false ↔ (a = .press → d.mail.sent.length < d.mail.received.length + 20)) := by
  obtain ⟨hup, hstep⟩ := step_cases rtos hs
  have hquiet : ∀ {a : Act} {rebooted : Bool}, a ≠ .press → rebooted = d.rebooted →
      (rebooted = false ↔ (a = .press → d.mail.sent.length < d.mail.received.length + 20)) := by
    rintro a rebooted hne rfl
    exact iff_of_true hup fun he => absurd he hne
  cases hstep with
  | btnInit gpioConfig installIsrService isrHandlerAdd hpc =>
    have hlit := h.before (.inl hpc)
    have hinHand := h.inHand
    rw [if_neg (by rw [hpc]; exact nofun)] at hinHand
    exact ⟨⟨⟨h.color, h.shown, h.account, hinHand.trans (by simp)⟩, h.count, h.presses, nofun, fun _ => hlit⟩, hup,
      hquiet nofun rfl⟩
  | ledInit newRmtDevice clear hpc =>
    have hlit := h.before (.inr hpc)
    have hinHand := h.inHand
    rw [if_neg (by rw [hpc]; exact nofun)] at hinHand
    refine ⟨⟨⟨h.color, ?_, h.account, hinHand.trans (by simp)⟩, h.count, h.presses, nofun, by simp⟩, hup,
      hquiet nofun rfl⟩
    intro n hn
    rw [show d.lit = none from hlit] at hn
    cases hn
  | receive hpc hr => exact ⟨h.receive hpc hr, hup, hquiet nofun rfl⟩
  | handle setPixel refresh hpc =>
    refine ⟨h.handle hpc setPixel refresh, hup, hquiet nofun ?_⟩
    simp only [handleStep]
    split <;> rfl
  | press hisr =>
    obtain ⟨hinv, hreboot⟩ := h.press
    refine ⟨hinv, hup, ?_⟩
    rw [hreboot]
    simp

/-- In every run, whatever the drivers return and however the presses fall between the steps of the task: the
colours follow the palette press by press, none is lost and none is taken twice. The device reboots exactly at a
press that finds twenty others which the task has not received. -/
theorem presses_cycle (rtos : RtosQueue Q) (queue : Q)
    (hqueue : Queue.new rtos SERVICE_QUEUE_SIZE sizeofServiceEvent = some queue) (acts : List Act) :
    Always (step rtos) (Cycles rtos) (.boot queue) acts ∧
      (Always (step rtos) (fun d => d.rebooted = false) (.boot queue) acts ↔
        Meets (step rtos) (fun d a => a = .press → d.mail.sent.length < d.mail.received.length + 20) (.boot queue)
          acts) := by
  constructor
  · exact always_of_meets (I := Inv rtos) (C := fun _ _ => True) (fun _ h => h.toCycles)
      (fun _ _ _ h _ hs => (h.step hs).1) (inv_boot hqueue) (meets_true _ _)
  · exact always_iff_meets_of (I := Inv rtos) (fun _ _ _ h _ hs => (h.step hs).1)
      (fun _ _ _ h _ _ hs => (h.step hs).2.2) (inv_boot hqueue) rfl (meets_true _ _)

/-- The LED is not refreshed for the first press, and is for the second. -/
def twoPresses : List Act :=
  [.btnInit 0 0 0, .press, .ledInit 0 0, .receive, .press, .handle 0 1, .receive, .handle 0 0]

theorem presses_cycle_two :
    Always (step Queue.fifoQueue) (Cycles Queue.fifoQueue) (.boot (Fifo.empty 20)) twoPresses ∧
      Always (step Queue.fifoQueue) (fun d => d.rebooted = false) (.boot (Fifo.empty 20)) twoPresses := by
  have hboth := presses_cycle Queue.fifoQueue (Fifo.empty 20) rfl twoPresses
  exact ⟨hboth.1, hboth.2.2 (by decide)⟩

end Runs

end InfoWorkshop.Esp32.Hmi
