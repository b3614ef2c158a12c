/-
Calls of `WiFi_StartSta` and `WiFi_StopSta` by any number of threads, interleaved statement by statement
with the event task: when a stopped station stays stopped.
-/
import InfoWorkshop.Esp32.Wifi

namespace InfoWorkshop.Esp32.Wifi

open InfoWorkshop.Steps

/-- What is recorded of a run. -/
inductive Event
  | startCalled
  | stopReturned
  | called (call : Call)
  deriving DecidableEq, Repr

/-- `ctx`, the event task, the calls of the application, and the events, oldest first. -/
structure Station where
  ctx : Ctx
  handler : HandlerPc
  calls : List CallPc
  log : List Event
  deriving DecidableEq, Repr

namespace Station

/-- The station after the start of the firmware. -/
def boot : Station := ⟨.zero, .returned, [], []⟩

/-- The steps: a thread calls `WiFi_StartSta` or `WiFi_StopSta`, a call takes its next statement, the
event task enters the handler, or takes the handler's next statement. -/
inductive Act
  | startSta (network : WiFiNetwork)
  | stopSta
  | call (i : Nat) (err : EspErr)
  | deliver (ev : IdfEvent)
  | handler (ans : Answer)
  deriving DecidableEq, Repr

/-- Whether `WiFi_StopSta` returns from its statement `pc`, when the function it calls there returns `err`. -/
def stopReturns (pc : CallPc) (err : EspErr) : Bool :=
  match pc with
  | .disconnect => err != espOk
  | .stop => true
  | _ => false

/-- One step. After an abort there is none. -/
def step (s : Station) (a : Act) : Option Station :=
  if s.handler = .aborted then none
  else match a with
    | .startSta network =>
      some { s with calls := s.calls ++ [.setMode (staConfig network)], log := s.log ++ [.startCalled] }
    | .stopSta => some { s with calls := s.calls ++ [.testConnected] }
    | .call i err =>
      match s.calls[i]? with
      | none => none
      | some (.returned _) => none
      | some pc =>
        let r := callStep s.ctx err pc
        let back := if stopReturns pc err = true then [Event.stopReturned] else []
        some { s with calls := s.calls.set i r.2, log := s.log ++ (r.1.map .called ++ back) }
    | .deliver ev => if s.handler = .returned then some { s with handler := .enter ev } else none
    | .handler ans =>
      if s.handler = .returned then none
      else
        let r := handlerStep s.ctx ans s.handler
        some { s with ctx := r.1, handler := r.2.2, log := s.log ++ r.2.1.map .called }

/-- Whether `WiFi_StopSta` has returned since the last call of `WiFi_StartSta`. -/
def stopped (log : List Event) : Bool :=
  log.foldl (fun b e =>
    match e with
    | .startCalled => false
    | .stopReturned => true
    | .called _ => b) false

/-- `esp_wifi_connect` is never called while the station is stopped. -/
def StaysStopped (log : List Event) : Prop :=
  ∀ l₁ l₂, log = l₁ ++ .called .espWifiConnect :: l₂ → stopped l₁ = false

/-- The handler is in an invocation that goes on to call `esp_wifi_connect`. -/
def connecting (s : Station) : Bool :=
  match s.handler with
  | .connectChecked | .connect => true
  | .setDisconnected | .testRetry => s.ctx.connectionRetryCount < connectMaximumRetry
  | _ => false

/-- The step is the last one of a `WiFi_StopSta`. -/
def stopEnds (s : Station) : Act → Bool
  | .call i err =>
    match s.calls[i]? with
    | some pc => stopReturns pc err
    | none => false
  | _ => false

/-- A stopped station gets no start event, and a disconnection only when the retries are used up; and
`WiFi_StopSta` does not return while the handler is on its way to `esp_wifi_connect`. -/
def Quiet (s : Station) (a : Act) : Prop :=
  (a = .deliver .staStart → stopped s.log = false) ∧
  (a = .deliver .staDisconnected → stopped s.log = true →
    ¬ s.ctx.connectionRetryCount < connectMaximumRetry) ∧
  (s.stopEnds a = true → s.connecting = false)

instance (s : Station) (a : Act) : Decidable (Quiet s a) :=
  inferInstanceAs (Decidable (_ ∧ _ ∧ _))

/-! ## A whole invocation of the handler -/

theorem handlerRun_returned (ans : Answer) (ctx : Ctx) :
    ∀ fuel, handlerRun ans fuel ctx .returned = (ctx, [], .returned)
  | 0 => rfl
  | fuel + 1 => by
    simp only [handlerRun, handlerStep, handlerRun_returned ans ctx fuel, List.append_nil]

theorem handlerRun_aborted (ans : Answer) (ctx : Ctx) :
    ∀ fuel, handlerRun ans fuel ctx .aborted = (ctx, [], .aborted)
  | 0 => rfl
  | fuel + 1 => by
    simp only [handlerRun, handlerStep, handlerRun_aborted ans ctx fuel, List.append_nil]

theorem exec_handler (ans : Answer) (fuel : Nat) (s : Station) :
    ∃ n ≤ fuel, exec step s (.replicate n (.handler ans)) =
      some { s with
        ctx := (handlerRun ans fuel s.ctx s.handler).1
        handler := (handlerRun ans fuel s.ctx s.handler).2.2
        log := s.log ++ (handlerRun ans fuel s.ctx s.handler).2.1.map .called } := by
  induction fuel generalizing s with
  | zero => exact ⟨0, Nat.le_refl 0, by simp [handlerRun, exec]⟩
  | succ fuel ih =>
    by_cases hr : s.handler = .returned
    · refine ⟨0, Nat.zero_le _, ?_⟩
      rw [hr, handlerRun_returned]
      simp [exec, ← hr]
    · by_cases ha : s.handler = .aborted
      · refine ⟨0, Nat.zero_le _, ?_⟩
        rw [ha, handlerRun_aborted]
        simp [exec, ← ha]
      · obtain ⟨n, hn, hexec⟩ := ih { s with
          ctx := (handlerStep s.ctx ans s.handler).1
          handler := (handlerStep s.ctx ans s.handler).2.2
          log := s.log ++ (handlerStep s.ctx ans s.handler).2.1.map .called }
        refine ⟨n + 1, Nat.succ_le_succ hn, ?_⟩
        simp only [List.replicate_succ, exec, step, if_neg ha, if_neg hr]
        rw [hexec]
        simp [handlerRun]

/-- An event that no call interrupts is handled as `handle` says. -/
theorem exec_handle {s : Station} (h : s.handler = .returned) (ev : IdfEvent) (ans : Answer) :
    ∃ n, exec step s (.deliver ev :: .replicate n (.handler ans)) =
      some { s with
        ctx := (handle s.ctx ev ans).1
        handler := (handle s.ctx ev ans).2.2
        log := s.log ++ (handle s.ctx ev ans).2.1.map .called } := by
  obtain ⟨n, -, hn⟩ := exec_handler ans 3 { s with handler := .enter ev }
  refine ⟨n, ?_⟩
  simp only [exec, step, h, reduceCtorEq, if_false, if_true]
  exact hn

/-! ## When a stopped station stays stopped -/

theorem stopped_append_called (log : List Event) (calls : List Call) :
    stopped (log ++ calls.map .called) = stopped log := by
  unfold stopped
  rw [List.foldl_append]
  induction calls with
  | nil => rfl
  | cons c calls ih => exact ih

theorem stopped_snoc_start (log : List Event) : stopped (log ++ [.startCalled]) = false := by
  simp [stopped]

theorem staysStopped_snoc (log : List Event) (e : Event) :
    StaysStopped (log ++ [e]) ↔
      StaysStopped log ∧ (e = .called .espWifiConnect → stopped log = false) := by
  constructor
  · intro h
    constructor
    · rintro l₁ l₂ rfl
      apply h l₁ (l₂ ++ [e])
      simp
    · rintro rfl
      exact h log [] rfl
  · rintro ⟨hlog, he⟩ l₁ l₂ heq
    rcases List.eq_nil_or_concat l₂ with rfl | ⟨l₂, e', rfl⟩
    · obtain ⟨hl, hc⟩ := List.append_inj' heq rfl
      cases hc
      rw [← hl]
      exact he rfl
    · have heq' : log ++ [e] = (l₁ ++ .called .espWifiConnect :: l₂) ++ [e'] := by
        rw [heq]; simp
      obtain ⟨rfl, -⟩ := List.append_inj' heq' rfl
      exact hlog l₁ l₂ rfl

/-- Events other than a call of `esp_wifi_connect`. -/
theorem staysStopped_append {log new : List Event} (h : StaysStopped log)
    (hnew : .called .espWifiConnect ∉ new) : StaysStopped (log ++ new) := by
  induction new generalizing log with
  | nil => simpa using h
  | cons e new ih =>
    rw [List.mem_cons, not_or] at hnew
    have hsnoc : StaysStopped (log ++ [e]) :=
      (staysStopped_snoc log e).2 ⟨h, fun he => absurd he.symm hnew.1⟩
    have happ := ih hsnoc hnew.2
    rwa [List.append_assoc] at happ

/-- No connection was attempted while the station was stopped, and none is on its way. -/
structure Still (s : Station) : Prop where
  log : StaysStopped s.log
  handler : stopped s.log = true → s.connecting = false

/-- No statement of `WiFi_StartSta` or `WiFi_StopSta` calls `esp_wifi_connect`. -/
theorem callStep_not_connect (ctx : Ctx) (err : EspErr) (pc : CallPc) :
    .espWifiConnect ∉ (callStep ctx err pc).1 := by
  cases pc <;> simp [callStep]

/-- A handler that is not on its way to `esp_wifi_connect` does not call it and stays off that way. -/
theorem handlerStep_still {s : Station} (h : s.connecting = false) (ans : Answer) :
    .espWifiConnect ∉ (handlerStep s.ctx ans s.handler).2.1 ∧
      connecting { s with
        ctx := (handlerStep s.ctx ans s.handler).1
        handler := (handlerStep s.ctx ans s.handler).2.2
        log := s.log ++ (handlerStep s.ctx ans s.handler).2.1.map .called } = false := by
  rcases s with ⟨ctx, handler, calls, log⟩
  cases handler with
  | connectChecked | connect => cases h
  | setDisconnected => exact ⟨by simp [handlerStep], h⟩
  | testRetry =>
    have hlt : ¬ ctx.connectionRetryCount < connectMaximumRetry := by simpa [connecting] using h
    simp [handlerStep, hlt, connecting]
  | send event =>
    by_cases he : ans.queueSend = .success <;> simp [handlerStep, he, connecting]
  | setConnected | clearRetry | returned | aborted => exact ⟨by simp [handlerStep], rfl⟩

/-- While the station is not stopped the handler may connect. -/
theorem handlerStep_staysStopped {log : List Event} (h : StaysStopped log)
    (hs : stopped log = false) (ctx : Ctx) (ans : Answer) (pc : HandlerPc) :
    StaysStopped (log ++ (handlerStep ctx ans pc).2.1.map .called) := by
  have hlen : (handlerStep ctx ans pc).2.1.length ≤ 1 := by
    cases pc <;> simp only [handlerStep] <;> (try split) <;> simp
  rcases hc : (handlerStep ctx ans pc).2.1 with _ | ⟨c, _ | ⟨c', cs⟩⟩
  · simpa using h
  · exact (staysStopped_snoc log (.called c)).2 ⟨h, fun _ => hs⟩
  · rw [hc] at hlen
    simp at hlen

theorem step_still {s s' : Station} {a : Act} (h : s.Still) (hq : s.Quiet a) (hs : s.step a = some s') :
    s'.Still := by
  obtain ⟨hstart, hdisc, hstop⟩ := hq
  unfold step at hs
  split at hs
  · cases hs
  cases a with
  | startSta network =>
    cases hs
    refine ⟨staysStopped_append h.log (by simp), ?_⟩
    intro hstopped
    rw [stopped_snoc_start] at hstopped
    cases hstopped
  | stopSta => cases hs; exact ⟨h.log, h.handler⟩
  | call i err =>
    have hpc : ∃ pc, s.calls[i]? = some pc ∧ s' = { s with
        calls := s.calls.set i (callStep s.ctx err pc).2
        log := s.log ++ ((callStep s.ctx err pc).1.map .called ++
          if stopReturns pc err = true then [.stopReturned] else []) } := by
      simp only at hs
      split at hs
      · cases hs
      · cases hs
      · rename_i pc _ hpc
        cases hs
        exact ⟨pc, hpc, rfl⟩
    obtain ⟨pc, hpc, rfl⟩ := hpc
    constructor
    · apply staysStopped_append h.log
      intro hmem
      rcases List.mem_append.1 hmem with hmem | hmem
      · obtain ⟨c, hc, heq⟩ := List.mem_map.1 hmem
        cases heq
        exact callStep_not_connect _ _ _ hc
      · split at hmem <;> simp at hmem
    · intro hstopped
      by_cases hret : stopReturns pc err = true
      · apply hstop
        simp only [stopEnds, hpc]
        exact hret
      · apply h.handler
        simpa [hret, stopped_append_called] using hstopped
  | deliver ev =>
    simp only at hs
    split at hs
    · cases hs
      refine ⟨h.log, ?_⟩
      intro hstopped
      cases ev with
      | staStart => rw [hstart rfl] at hstopped; cases hstopped
      | staDisconnected => simpa [connecting, HandlerPc.enter] using hdisc rfl hstopped
      | _ => rfl
    · cases hs
  | handler ans =>
    simp only at hs
    split at hs
    · cases hs
    · cases hs
      by_cases hstopped : stopped s.log = true
      · obtain ⟨hnot, hconn⟩ := handlerStep_still (h.handler hstopped) ans
        refine ⟨staysStopped_append h.log ?_, fun _ => hconn⟩
        intro hmem
        obtain ⟨c, hc, heq⟩ := List.mem_map.1 hmem
        cases heq
        exact hnot hc
      · rw [Bool.not_eq_true] at hstopped
        refine ⟨handlerStep_staysStopped h.log hstopped _ _ _, ?_⟩
        intro hcontra
        rw [stopped_append_called, hstopped] at hcontra
        cases hcontra

/-- In a run whose steps are all quiet, no `esp_wifi_connect` is called between the return of a
`WiFi_StopSta` and the next `WiFi_StartSta`. -/
theorem stays_stopped (acts : List Act) (hq : Meets step Quiet boot acts) :
    Always step (fun s => StaysStopped s.log) boot acts := by
  refine always_of_meets (I := Still) (fun s hs => hs.log) (fun s a s' hs hc hstep => step_still hs hc hstep) ?_ hq
  constructor
  · rintro l₁ l₂ heq
    simp [boot] at heq
  · intro hcontra
    cases hcontra

/-- A start of the station up to its connection. -/
def connected : List Act :=
  [.startSta openNetwork, .call 0 espOk, .call 0 espOk, .call 0 espOk, .deliver .staStart, .handler .ok,
    .deliver .staConnected, .handler .ok, .handler .ok]

/-- The station is stopped, and the disconnection is handled before `esp_wifi_stop` returns. -/
theorem stays_stopped_early_event :
    Always step (fun s => StaysStopped s.log) boot (connected ++ [.stopSta, .call 1 espOk, .call 1 espOk,
      .deliver .staDisconnected, .handler .ok, .handler .ok, .handler .ok, .call 1 espOk,
      .deliver .staLostIp, .handler .ok]) :=
  stays_stopped _ (by decide)

/-- The station is stopped, and the disconnection that this provokes is handled after the call has
returned. -/
def lateDisconnection : List Act :=
  connected ++ [Act.stopSta, Act.call 1 espOk, Act.call 1 espOk, Act.call 1 espOk, Act.deliver .staDisconnected,
    Act.handler .ok, Act.handler .ok, Act.handler .ok]

/-- It reconnects the station. -/
theorem late_disconnection_reconnects :
    ¬ ∀ acts : List Act, Always step (fun s => StaysStopped s.log) boot acts := by
  intro h
  obtain ⟨s, hs⟩ := Option.isSome_iff_exists.1 (show (exec step boot lateDisconnection).isSome = true by decide)
  have hlog : (exec step boot lateDisconnection).map (fun s => (stopped (s.log.take 8), s.log.drop 8)) =
      some (true, [.called .espWifiConnect]) := by decide
  rw [hs, Option.map_some, Option.some.injEq, Prod.mk.injEq] at hlog
  have hsplit : s.log = s.log.take 8 ++ .called .espWifiConnect :: [] := by
    rw [← hlog.2, List.take_append_drop]
  have hfalse := always_last (h lateDisconnection) hs _ _ hsplit
  rw [hlog.1] at hfalse
  cases hfalse

end Station

end InfoWorkshop.Esp32.Wifi
