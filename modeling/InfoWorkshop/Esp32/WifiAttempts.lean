/-
How often the Wi-Fi adapter calls `esp_wifi_connect`: the handler pays for a call out of the retries that are left,
which only a connection fills up, or for the start of the station.
-/
import InfoWorkshop.Esp32.WifiStation
import InfoWorkshop.Lib.Potential
import Mathlib.Data.List.Count

namespace InfoWorkshop.Esp32.Wifi

open InfoWorkshop.Steps

/-- The retries that are left. -/
def Ctx.retries (ctx : Ctx) : Nat := connectMaximumRetry.toNat - ctx.connectionRetryCount.toNat

/-- A retry takes one off what is left. -/
theorem retries_succ {ctx : Ctx} (h : ctx.connectionRetryCount < connectMaximumRetry) :
    Ctx.retries { ctx with connectionRetryCount := ctx.connectionRetryCount + 1 } + 1 = ctx.retries := by
  have hlt := UInt32.lt_iff_toNat_lt.1 h
  have hmax : connectMaximumRetry.toNat = 5 := rfl
  have hnext : (ctx.connectionRetryCount + 1).toNat = ctx.connectionRetryCount.toNat + 1 := by
    rw [UInt32.toNat_add, UInt32.toNat_one]
    omega
  unfold Ctx.retries
  simp only [hnext]
  omega

namespace Station

/-- The calls of `esp_wifi_connect`. -/
def attempts (s : Station) : Nat := s.log.count (.called .espWifiConnect)

/-- The calls of `esp_wifi_connect` that can follow without another event of a start or of a connection. -/
def credit (s : Station) : Nat :=
  match s.handler with
  | .connectChecked | .connect => s.ctx.retries + 1
  | .setConnected | .clearRetry => connectMaximumRetry.toNat
  | _ => s.ctx.retries

/-- The calls that an event allows. -/
def allowance : Act → Nat
  | .deliver .staStart => 1
  | .deliver .staConnected => connectMaximumRetry.toNat
  | _ => 0

theorem credit_le (s : Station) : s.credit ≤ connectMaximumRetry.toNat + 1 := by
  have hretries : s.ctx.retries ≤ connectMaximumRetry.toNat := Nat.sub_le _ _
  unfold credit
  split <;> omega

/-- The calls that a step records. -/
theorem attempts_append {s t : Station} {calls : List Call} {back : List Event}
    (hlog : t.log = s.log ++ (calls.map .called ++ back)) (hback : .called .espWifiConnect ∉ back) :
    t.attempts = s.attempts + calls.count .espWifiConnect := by
  have hcalls : (calls.map Event.called).count (.called .espWifiConnect) = calls.count .espWifiConnect :=
    List.count_map_of_injective calls Event.called (fun _ _ h => Event.called.inj h) _
  rw [attempts, hlog, List.count_append, List.count_append, hcalls, List.count_eq_zero.2 hback]
  rfl

/-- A statement of the handler pays for the call it makes. -/
theorem handlerStep_pays (s : Station) (ans : Answer) :
    (handlerStep s.ctx ans s.handler).2.1.count .espWifiConnect +
      credit { s with
        ctx := (handlerStep s.ctx ans s.handler).1
        handler := (handlerStep s.ctx ans s.handler).2.2
        log := s.log ++ (handlerStep s.ctx ans s.handler).2.1.map .called } ≤ s.credit := by
  rcases s with ⟨ctx, handler, calls, log⟩
  cases handler with
  | connectChecked =>
    by_cases hans : ans.espWifiConnect = espOk <;> simp [handlerStep, credit, hans, Nat.add_comm]
  | testRetry =>
    by_cases hlt : ctx.connectionRetryCount < connectMaximumRetry
    · have hpaid := retries_succ hlt
      simp only [handlerStep, if_pos hlt, credit, List.count_nil]
      omega
    · simp [handlerStep, hlt, credit]
  | send event =>
    by_cases hans : ans.queueSend = .success <;> simp [handlerStep, credit, hans]
  | connect => simp [handlerStep, credit, Nat.add_comm]
  | setDisconnected => simp [handlerStep, credit, Ctx.retries]
  | clearRetry => simp [handlerStep, credit, Ctx.retries]
  | setConnected | returned | aborted => simp [handlerStep, credit]

/-- An event brings in what its handler may spend. -/
theorem credit_deliver (s : Station) (ev : IdfEvent) (h : s.handler = .returned) :
    credit { s with handler := .enter ev } ≤ s.credit + allowance (.deliver ev) := by
  have hcredit : s.credit = s.ctx.retries := by rw [credit, h]
  rw [hcredit]
  cases ev with
  | staStart => exact Nat.le_refl _
  | staConnected => exact Nat.le_add_left _ _
  | _ => exact Nat.le_refl _

/-- A step makes no more calls than the credit and its event allow. -/
theorem step_pays {s t : Station} {a : Act} (h : step s a = some t) :
    t.attempts + t.credit ≤ s.attempts + s.credit + allowance a := by
  unfold step at h
  split at h
  · cases h
  · cases a with
    | startSta network =>
      cases h
      have hsame := @attempts_append s { s with
        calls := s.calls ++ [.setMode (staConfig network)]
        log := s.log ++ [.startCalled] } [] [.startCalled] rfl (by simp)
      rw [hsame]
      exact Nat.le_refl _
    | stopSta => cases h; exact Nat.le_refl _
    | call i err =>
      simp only at h
      split at h
      · cases h
      · cases h
      · rename_i pc _ _
        cases h
        have hback : .called .espWifiConnect ∉ if stopReturns pc err = true then [Event.stopReturned] else [] := by
          split <;> simp
        rw [attempts_append rfl hback, List.count_eq_zero.2 (callStep_not_connect s.ctx err pc)]
        exact Nat.le_refl _
    | deliver ev =>
      simp only at h
      split at h
      · rename_i hreturned
        cases h
        have hpaid := credit_deliver s ev hreturned
        simp only [attempts]
        omega
      · cases h
    | handler ans =>
      simp only at h
      split at h
      · cases h
      · cases h
        have hpaid := handlerStep_pays s ans
        rw [attempts_append (by rw [List.append_nil]) List.not_mem_nil]
        omega

theorem exec_pays {s t : Station} {acts : List Act} (h : exec step s acts = some t) :
    t.attempts + t.credit ≤ s.attempts + s.credit + (acts.map allowance).sum := by
  have hrun := exec_potential (I := fun _ => True) (φ := fun s : Station => s.attempts + s.credit)
    (fun _ _ _ _ _ => trivial) (fun s a t _ hst => by rw [Nat.zero_add]; exact step_pays hst) h trivial
  exact Nat.le_trans (Nat.le_add_left _ _) hrun

/-- However the calls of the application and the events are interleaved, `esp_wifi_connect` is called five times at
most, once more for each start of the station and five times more for each connection; and from any state of the run
on, six times at most without another of these events. -/
theorem connect_bounded {s t : Station} {acts later : List Act} (hs : exec step boot acts = some s)
    (ht : exec step s later = some t) :
    t.attempts ≤ connectMaximumRetry.toNat + ((acts ++ later).map allowance).sum ∧
      t.attempts ≤ s.attempts + connectMaximumRetry.toNat + 1 + (later.map allowance).sum := by
  have hall := exec_pays (show exec step boot (acts ++ later) = some t by rw [exec_append hs, ht])
  have hlater := exec_pays ht
  have hcredit := credit_le s
  have hboot : boot.attempts + boot.credit = connectMaximumRetry.toNat := rfl
  constructor <;> omega

/-- The access point is lost for good. -/
def lost : List Act :=
  (List.replicate 5 (.deliver .staDisconnected :: List.replicate 3 (.handler .ok))).flatten ++
    [.deliver .staDisconnected, .handler .ok, .handler .ok]

/-- After a connection all five retries are used. -/
theorem connect_bounded_lost : ∃ s t, exec step boot connected = some s ∧ exec step s lost = some t ∧
    t.attempts = 6 ∧ t.attempts ≤ connectMaximumRetry.toNat + ((connected ++ lost).map allowance).sum ∧
    t.attempts ≤ s.attempts + connectMaximumRetry.toNat + 1 + (lost.map allowance).sum := by
  have hrun : ∃ s ∈ exec step boot connected, ∃ t ∈ exec step s lost, t.attempts = 6 := by decide
  obtain ⟨s, hs, t, ht, hsix⟩ := hrun
  exact ⟨s, t, hs, ht, hsix, connect_bounded hs ht⟩

end Station

end InfoWorkshop.Esp32.Wifi
