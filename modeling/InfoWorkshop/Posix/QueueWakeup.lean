/-
Whether a receiver can stay blocked on a queue that holds a message for it. `Queue_Send` signals only
when the queue was empty: a second message sent before the woken receiver has run wakes nobody.
-/
import InfoWorkshop.Posix.QueueThreads

namespace InfoWorkshop.Posix.QueueThreads

open InfoWorkshop.Core InfoWorkshop.Memory InfoWorkshop.CondVar InfoWorkshop.Steps

variable {K : Type*}

/-- If a receiver is blocked, every message is about to be taken by a woken one. Between two steps
the mutex is free. -/
def NoLostWakeup (s : State K) : Prop :=
  s.queue.cond.blocked ≠ [] → s.queue.nElements ≤ s.queue.cond.woken

/-- A `Queue_Send` that adds to a queue already holding messages, and so does not signal, does it
while no receiver is blocked, or while more receivers are woken than messages are held. -/
def SilentSendHarmless (s : State K) : Act K → Prop
  | .send _ _ _ => 0 < s.queue.nElements → s.queue.nElements ≠ s.queue.size →
      s.queue.cond.blocked = [] ∨ s.queue.nElements < s.queue.cond.woken
  | _ => True

instance [DecidableEq K] : DecidablePred (NoLostWakeup (K := K)) := fun s =>
  inferInstanceAs (Decidable (s.queue.cond.blocked ≠ [] → _))

variable [DecidableEq K]

theorem send_noLostWakeup {s s' : State K} {t : K} {m : Bytes} {pick : Nat} (hs : NoLostWakeup s)
    (h : step s (.send t m pick) = some s') :
    NoLostWakeup s' ↔ SilentSendHarmless s (.send t m pick) := by
  obtain ⟨-, -, rfl⟩ := step_send h
  rcases s.queue.send_cases m pick with ⟨hn, hq⟩ | ⟨hn, hq⟩
  · rw [hq]
    exact ⟨fun _ _ hne => absurd hn hne, fun _ => hs⟩
  · rw [hq]
    simp only [NoLostWakeup, SilentSendHarmless, Queue.put_nElements]
    by_cases h0 : s.queue.nElements = 0
    · -- the queue was empty: whoever is still blocked, one receiver has just been woken
      simp only [h0, if_true, Nat.lt_irrefl, false_imp_iff, iff_true]
      intro hb
      by_cases hnil : s.queue.cond.blocked = []
      · rw [Waiters.signal_of_nil hnil] at hb; exact absurd hnil hb
      · rw [Waiters.woken_signal hnil]; omega
    · -- no signal: the new message needs a receiver that is already awake
      simp only [h0, if_false]
      constructor
      · intro hw _ _
        by_cases hb : s.queue.cond.blocked = []
        · exact .inl hb
        · exact .inr (hw hb)
      · intro hc hb
        rcases hc (by omega) hn with hnil | hlt
        · exact absurd hnil hb
        · exact hlt

/-- The steps other than a silent send keep every message spoken for. -/
theorem step_noLostWakeup {s s' : State K} {a : Act K} (hs : NoLostWakeup s) (h : step s a = some s') :
    NoLostWakeup s' ↔ SilentSendHarmless s a := by
  cases a with
  | send t m pick => exact send_noLostWakeup hs h
  | sendUnlocked t m =>
    obtain rfl := step_sendUnlocked h
    exact ⟨fun _ => trivial, fun _ => hs⟩
  | receive t m timeoutMs =>
    refine ⟨fun _ => trivial, fun _ => ?_⟩
    obtain ⟨-, -, ⟨hn, rfl⟩ | ⟨-, rfl⟩⟩ := step_receive h
    · intro _
      show s.queue.nElements ≤ _
      omega
    · intro hb
      simp only [Queue.take_cond, Queue.take_nElements] at hb ⊢
      exact Nat.le_trans (Nat.sub_le _ _) (hs hb)
  | receiveUnlocked t m =>
    obtain rfl := step_receiveUnlocked h
    exact ⟨fun _ => trivial, fun _ => hs⟩
  | wake t r =>
    refine ⟨fun _ => trivial, fun _ => ?_⟩
    obtain ⟨cond, hcond, rfl⟩ := step_wake h
    intro _
    have := hs (Waiters.blocked_of_wake hcond)
    have := Waiters.wake_woken hcond
    show s.queue.nElements ≤ cond.woken
    omega
  | resume t =>
    refine ⟨fun _ => trivial, fun _ => ?_⟩
    obtain ⟨ret, q, hq, rfl⟩ := step_resume h
    obtain ⟨r, res, c, hc, hx⟩ := Queue.resume_cases hq
    have hblocked := Waiters.resume_blocked hc
    have hwoken := Waiters.resume_woken hc
    have hle : c.blocked ≠ [] → s.queue.nElements ≤ s.queue.cond.woken := hblocked ▸ hs
    rcases hx with ⟨rfl, -, rfl⟩ | ⟨rfl, -, rfl⟩ | ⟨⟨errno, rfl⟩, -, rfl⟩
    · -- a woken receiver takes one message and is woken no more
      intro hb
      simp only [Queue.take_cond, Queue.take_nElements] at hb ⊢
      have := hle hb
      rw [if_pos rfl] at hwoken
      omega
    · rw [if_neg (by simp)] at hwoken
      exact fun hb => Nat.le_trans (hle hb) (Nat.le_of_eq hwoken)
    · rw [if_neg (by simp)] at hwoken
      exact fun hb => Nat.le_trans (hle hb) (Nat.le_of_eq hwoken)
  | clock tv => cases h; exact ⟨fun _ => trivial, fun _ => hs⟩

/-- No wake-up is lost in any state of a run exactly when every silent send of the run is harmless. -/
theorem noLostWakeup_iff_silentSendHarmless (queueSize elementSize : Nat) (now : Timeval)
    (acts : List (Act K)) :
    Always step NoLostWakeup (init queueSize elementSize now) acts ↔
      Meets step SilentSendHarmless (init queueSize elementSize now) acts :=
  always_iff_meets (fun _ _ _ hs h => step_noLostWakeup hs h) (fun hb => absurd rfl hb) acts

/-- Two receivers block, one of two sends wakes the first; before it runs, the second message leaves
the other receiver blocked. -/
theorem second_send_loses_wakeup :
    ¬ Always step NoLostWakeup (init 20 1 ⟨0, 0, by decide⟩ : State Nat)
      [.receive 0 [0] 1000, .receive 1 [0] 1000, .send 2 [7] 0, .send 2 [8] 0] := by
  decide

end InfoWorkshop.Posix.QueueThreads
