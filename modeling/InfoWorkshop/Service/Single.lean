/-
Runs with one `Service_Start`: the service gets at most one queue and one task, and nothing exists
before its `Service_Start` passes its check.
-/
import InfoWorkshop.Lib.Steps
import InfoWorkshop.Service.Frame
import InfoWorkshop.Service.Lifecycle

namespace InfoWorkshop.Service

open InfoWorkshop.Core InfoWorkshop.Steps InfoWorkshop.Table

namespace Life

/-! ## One life -/

/-- A `Service_Start` passes its check only when nothing exists and no other one is in progress. -/
def StartFirst (l : Life) : Act → Prop
  | .pass _ => (∀ d, ¬ (l.call d).inProgress) ∧ l.queues = 0 ∧ l.tasks = 0
  | _ => True

/-- At most one queue and one task, each created by the one `Service_Start` when there was none. -/
structure Once (l : Life) : Prop where
  progress : ∀ c d, (l.call c).inProgress → (l.call d).inProgress → c = d
  noTask : ∀ c, (l.call c).creating → l.tasks = 0
  noQueue : ∀ c, l.call c = .passed ∨ l.call c = .running → l.queues = 0
  tasks : l.tasks ≤ 1
  queues : l.queues ≤ 1

/-- A call keeps the books when it does not get back into what it has left. -/
theorem Once.call_step {l l' : Life} (h : l.Once) {c : Nat} {k : CallStage}
    (hcall : l'.call = Function.update l.call c k) (htasks : l'.tasks = l.tasks) (hqueues : l'.queues = l.queues)
    (hin : k.inProgress → (l.call c).inProgress) (hcreating : k.creating → (l.call c).creating)
    (hrunning : k = .passed ∨ k = .running → l.call c = .passed ∨ l.call c = .running) : l'.Once := by
  have hself : l'.call c = k := by rw [hcall, Function.update_self]
  have hother : ∀ d, d ≠ c → l'.call d = l.call d := fun d hd => by rw [hcall, Function.update_of_ne hd]
  have hprogress : ∀ d, (l'.call d).inProgress → (l.call d).inProgress := by
    intro d hd
    by_cases hdc : d = c
    · subst hdc; rw [hself] at hd; exact hin hd
    · rwa [hother d hdc] at hd
  refine ⟨fun d e hd he => h.progress d e (hprogress d hd) (hprogress e he), fun d hd => ?_, fun d hd => ?_,
    by rw [htasks]; exact h.tasks, by rw [hqueues]; exact h.queues⟩
  · rw [htasks]
    by_cases hdc : d = c
    · subst hdc; rw [hself] at hd; exact h.noTask d (hcreating hd)
    · rw [hother d hdc] at hd; exact h.noTask d hd
  · rw [hqueues]
    by_cases hdc : d = c
    · subst hdc; rw [hself] at hd; exact h.noQueue d (hrunning hd)
    · rw [hother d hdc] at hd; exact h.noQueue d hd

/-- The books of the one call in progress. -/
theorem Once.of_alone {l l' : Life} {c : Nat} {k : CallStage}
    (hcall : l'.call = Function.update l.call c k) (hlone : ∀ d, (l.call d).inProgress → d = c)
    (hcreating : k.creating → l'.tasks = 0) (hrunning : k = .passed ∨ k = .running → l'.queues = 0)
    (htasks : l'.tasks ≤ 1) (hqueues : l'.queues ≤ 1) : l'.Once := by
  have hself : l'.call c = k := by rw [hcall, Function.update_self]
  have hprogress : ∀ d, (l'.call d).inProgress → d = c := by
    intro d hd
    by_contra hdc
    rw [hcall, Function.update_of_ne hdc] at hd
    exact hdc (hlone d hd)
  refine ⟨fun d e hd he => (hprogress d hd).trans (hprogress e he).symm, fun d hd => ?_, fun d hd => ?_,
    htasks, hqueues⟩
  · have hdc := hprogress d (inProgress_of_creating hd)
    subst hdc
    rw [hself] at hd
    exact hcreating hd
  · have hin : (l'.call d).inProgress = true := by rcases hd with hd | hd <;> rw [hd] <;> rfl
    have hdc := hprogress d hin
    subst hdc
    rw [hself] at hd
    exact hrunning hd

theorem Once.step {l l' : Life} {a : Act} (h : l.Once) (hc : l.StartFirst a) (hs : Step l a l') : l'.Once := by
  cases hs with
  | pass c hidle hstop =>
    obtain ⟨hcalls, hq, ht⟩ := hc
    exact Once.of_alone (c := c) rfl (fun d hd => absurd hd (hcalls d)) (fun _ => ht) (fun _ => hq)
      h.tasks h.queues
  | make c hrun =>
    have hq : l.queues = 0 := h.noQueue c (.inr hrun)
    have hlone : ∀ d, (l.call d).inProgress → d = c := fun d hd => h.progress d c hd (by simp [hrun])
    exact Once.of_alone (c := c) rfl hlone (fun _ => h.noTask c (by simp [hrun])) (by simp) h.tasks
      (by show l.queues + 1 ≤ 1; omega)
  | create c q hq =>
    -- the call that creates the task is the only one in progress
    have ht : l.tasks = 0 := h.noTask c (by simp [hq])
    have hlone : ∀ d, (l.call d).inProgress → d = c := fun d hd => h.progress d c hd (by simp [hq])
    exact Once.of_alone (c := c) rfl hlone (by simp) (by simp) (by show l.tasks + 1 ≤ 1; omega) h.queues
  | run c hk | makeNone c hk | store c q hk | check c q hk | createNone c q hk | storeTask c i hk
  | storeNull c hk | finish c hk | finishNull c hk | notify c hk | load c hk | sent c q hk =>
    exact h.call_step (c := c) rfl rfl rfl (by simp [hk]) (by simp [hk]) (by simp [hk])
  | _ => exact ⟨h.progress, h.noTask, h.noQueue, h.tasks, h.queues⟩

/-- A `Service_Start` that is the first one is apart from the others. -/
theorem StartFirst.apart {l : Life} {a : Act} (h : l.StartFirst a) (hs : ∀ i, (l.stage i).active → i < l.tasks) :
    l.StartApart a := by
  cases a with
  | pass c =>
    obtain ⟨hcalls, -, htasks⟩ := h
    refine ⟨hcalls, fun i hi => ?_⟩
    have hlt := hs i hi
    omega
  | _ => trivial

end Life

namespace World

/-! ## Before the start -/

/-- A call that has just begun or has returned. -/
def atRest : Call → Bool
  | .start .check | .stop .check | .notify (.check _) | .returned => true
  | _ => false

/-- Nothing has happened to the service yet. -/
structure Unstarted (w : World) : Prop where
  queues : w.queues = []
  tasks : w.tasks = []
  state : w.service.state = .stopped
  calls : ∀ k ∈ w.calls, atRest k = true
  log : w.log = []

theorem unstarted_init (service : Service) : (init service).Unstarted :=
  ⟨rfl, rfl, rfl, fun _ h => (by cases h), rfl⟩

/-- A `Service_Start` makes its check only in a service to which nothing has happened. -/
def StartFirst (w : World) (a : Act) : Prop :=
  ∀ c ch, a = .caller c ch → w.calls[c]? = some (.start .check) → w.Unstarted

/-- A call that begins or ends does not come out of a rest. -/
theorem Unstarted.setCall {w : World} (h : w.Unstarted) (c : Nat) : (w.goto c .returned).Unstarted := by
  refine ⟨h.queues, h.tasks, h.state, fun k hk => ?_, h.log⟩
  rcases List.mem_or_eq_of_mem_set hk with hk | rfl
  · exact h.calls k hk
  · rfl

/-- Until a `Service_Start` makes its check nothing happens. -/
theorem Unstarted.step {w w' : World} {a : Act} (h : w.Unstarted)
    (ha : ∀ c ch, a = .caller c ch → w.calls[c]? ≠ some (.start .check)) (hs : w.step a = some w') :
    w'.Unstarted := by
  cases (step_advance hs).2 with
  | call api =>
    refine ⟨h.queues, h.tasks, h.state, fun k hk => ?_, h.log⟩
    rcases List.mem_append.1 hk with hk | hk
    · exact h.calls k hk
    · rw [List.mem_singleton.1 hk]
      cases api <;> rfl
  | @start c ch pc w' hc hs =>
    have hrest := h.calls _ (List.mem_of_getElem? hc)
    cases pc with
    | check => exact absurd hc (ha c ch rfl)
    | _ => cases hrest
  | @stop c ch pc w' hc hs =>
    have hrest := h.calls _ (List.mem_of_getElem? hc)
    cases pc with
    | check =>
      simp only [serviceStop, h.state, if_true] at hs
      cases hs
      exact h.setCall c
    | setStopped => cases hrest
  | @notify c ch pc w' hc hs =>
    have hrest := h.calls _ (List.mem_of_getElem? hc)
    cases pc with
    | check e =>
      simp only [serviceNotify, h.state, ne_eq, not_true, if_false] at hs
      cases hs
      exact h.setCall c
    | _ => cases hrest
  | task ht | die ht => simp [h.tasks] at ht
  | wake ho => simp [h.queues] at ho
  | take | wakeTaker | retake => exact ⟨h.queues, h.tasks, h.state, h.calls, h.log⟩

/-! ## One call of `Service_Start` -/

/-- A call that has yet to make its check in `Service_Start`. -/
def isEntering (k : Call) : Bool := k == .start .check

theorem NextCall.not_entering {w w' : World} {c : Nat} {k : Call} (h : w.NextCall c w' k) :
    isEntering k = false := by
  cases k with
  | start pc =>
    cases pc with
    | check => cases h
    | _ => rfl
  | _ => rfl

/-- The calls of `Service_Start` that have yet to make their check, with those among `acts`. -/
def startsLeft (w : World) (acts : List Act) : Nat :=
  w.calls.countP isEntering + acts.count (.call .start)

theorem startsLeft_step {w w' : World} {a : Act} (hs : w.step a = some w') (acts : List Act) :
    startsLeft w' acts ≤ startsLeft w (a :: acts) := by
  obtain ⟨-, hs⟩ := step_advance hs
  unfold startsLeft
  have hcount : acts.count (.call .start) ≤ (a :: acts).count (.call .start) := List.count_le_count_cons
  cases a with
  | call api =>
    cases hs
    rw [List.countP_append, List.count_cons]
    cases api <;> simp [Api.enter, isEntering]
    omega
  | caller c ch =>
    rcases (caller_callStep hs).calls with ⟨hcalls, -⟩ | ⟨k, hk, hcalls⟩
    · rw [hcalls]; omega
    · rw [hcalls]
      have hle := countP_set_le (l := w.calls) (c := c) (a := k) (p := isEntering)
        fun hp => absurd (hk.not_entering.symm.trans hp) Bool.false_ne_true
      omega
  | task i ch => rw [(task_taskStep hs).calls]; omega
  | die i => rw [(die_advance_taskStep hs).calls]; omega
  | wake | take | wakeTaker | retake =>
    cases hs
    exact Nat.add_le_add_left hcount _

/-- A check of `Service_Start` uses up one of the calls. -/
theorem startsLeft_check {w w' : World} {c : Nat} {ch : Choice} (hc : w.calls[c]? = some (.start .check))
    (hs : w.step (.caller c ch) = some w') (acts : List Act) :
    startsLeft w' acts < startsLeft w (.caller c ch :: acts) := by
  obtain ⟨-, hs⟩ := step_advance hs
  have hcalls : ∃ k, isEntering k = false ∧ w'.calls = w.calls.set c k := by
    cases hs with
    | start hc' hs =>
      cases hc.symm.trans hc'
      simp only [serviceStart] at hs
      split at hs <;> cases hs
      · exact ⟨_, rfl, rfl⟩
      · exact ⟨_, rfl, rfl⟩
    | stop hc' | notify hc' => cases hc.symm.trans hc'
  obtain ⟨k, hk, hcalls⟩ := hcalls
  have hlt := countP_set_lt hk hc (p := isEntering) rfl
  unfold startsLeft
  rw [hcalls, List.count_cons_of_ne (by simp)]
  omega

/-- In a run with at most one call of `Service_Start` that call makes its check first. -/
theorem startFirst_of_count (service : Service) (acts : List Act) (hone : acts.count (.call .start) ≤ 1) :
    Meets step StartFirst (init service) acts := by
  refine meets_of_rest (I := fun w acts => w.Unstarted ∧ startsLeft w acts ≤ 1 ∨ startsLeft w acts = 0)
    (fun w a acts w' hI hs => ?_) (fun w a acts w' hI hs => ?_) (.inl ⟨unstarted_init service, ?_⟩)
  · rintro c ch rfl hc
    rcases hI with ⟨hun, -⟩ | hzero
    · exact hun
    · have hlt := startsLeft_check hc hs acts
      omega
  · have hle := startsLeft_step hs acts
    rcases hI with ⟨hun, hleft⟩ | hzero
    · by_cases hpass : ∃ c ch, a = .caller c ch ∧ w.calls[c]? = some (.start .check)
      · obtain ⟨c, ch, rfl, hc⟩ := hpass
        have hlt := startsLeft_check hc hs acts
        exact .inr (by omega)
      · refine .inl ⟨hun.step (fun c ch ha hc => hpass ⟨c, ch, ha, hc⟩) hs, by omega⟩
    · exact .inr (by omega)
  · simpa [startsLeft, init] using hone

/-! ## One queue and one task -/

/-- The service has had one `Service_Start` that makes its check, at most. -/
structure Single (w : World) : Prop where
  once : w.life.Once
  tidy : w.life.Tidy

/-- The life passes a check when a `Service_Start` does. -/
theorem lifeAct_pass {w : World} {a : Act} {c : Nat} (h : w.lifeAct a = some (.pass c)) :
    ∃ ch, a = .caller c ch ∧ w.calls[c]? = some (.start .check) := by
  unfold lifeAct at h
  split at h
  · rename_i d ch
    split at h
    case h_1 hd =>
      split at h
      · cases h
        exact ⟨ch, rfl, hd⟩
      · cases h
    all_goals first | cases h | (split at h <;> cases h)
  · split at h
    · cases h
    · split at h
      all_goals first | cases h | (split at h <;> cases h)
  · cases h
  · cases h

theorem StartFirst.life {w : World} {a : Act} {b : Life.Act} (h : w.StartFirst a) (hb : w.lifeAct a = some b) :
    w.life.StartFirst b := by
  cases b with
  | pass c =>
    obtain ⟨ch, rfl, hc⟩ := lifeAct_pass hb
    have hun := h c ch rfl hc
    refine ⟨?_, congrArg List.length hun.queues, congrArg List.length hun.tasks⟩
    refine forall_call (P := fun k => ¬ k.inProgress) (fun k hk => ?_) (by simp)
    have hrest := hun.calls k hk
    intro hprog
    cases k with
    | start pc =>
      cases pc with
      | check => cases hprog
      | _ => cases hrest
    | notify pc =>
      cases pc with
      | check e => cases hprog
      | _ => cases hrest
    | stop pc => cases hprog
    | returned => cases hprog
  | _ => trivial

theorem active_lt {w : World} (i : Nat) (hi : (w.life.stage i).active) : i < w.life.tasks := by
  obtain ⟨t, ht, -⟩ := task_of_stage (w := w) (i := i) (by intro h; rw [h] at hi; cases hi)
  exact (List.getElem?_eq_some_iff.1 ht).1

theorem single_step {w w' : World} {a : Act} (h : w.Single) (hc : w.StartFirst a) (hs : w.step a = some w') :
    w'.Single :=
  ⟨preserved (I := Life.Once) h.once hs fun _ hb hstep => h.once.step (hc.life hb) hstep,
    preserved (I := Life.Tidy) h.tidy hs fun _ hb hstep => h.tidy.step ((hc.life hb).apart active_lt) hstep⟩

theorem single_init (service : Service) : (init service).Single :=
  ⟨⟨fun _ _ h => (by cases h), fun _ h => (by cases h), fun _ _ => rfl, Nat.zero_le _, Nat.zero_le _⟩,
    tidy_init service⟩

theorem Single.tasks_le {w : World} (h : w.Single) : w.tasks.length ≤ 1 := h.once.tasks

theorem Single.queues_le {w : World} (h : w.Single) : w.queues.length ≤ 1 := h.once.queues

/-- The one queue. -/
theorem Single.queue_eq {w : World} (h : w.Single) {q : Nat} {o : QueueObject} (ho : w.queues[q]? = some o) :
    q = 0 ∧ w.queues = [o] := by
  have hlen := h.queues_le
  obtain ⟨hq, hget⟩ := List.getElem?_eq_some_iff.1 ho
  obtain rfl : q = 0 := by omega
  obtain ⟨u, hu⟩ := List.length_eq_one_iff.1 (show w.queues.length = 1 by omega)
  simp only [hu, List.getElem_cons_zero] at hget
  exact ⟨rfl, by rw [hu, hget]⟩

/-- The one task. -/
theorem Single.task_eq {w : World} (h : w.Single) {i : Nat} {t : TaskObject} (ht : w.tasks[i]? = some t) :
    i = 0 ∧ w.tasks = [t] := by
  have hlen := h.tasks_le
  obtain ⟨hi, hget⟩ := List.getElem?_eq_some_iff.1 ht
  obtain rfl : i = 0 := by omega
  obtain ⟨u, hu⟩ := List.length_eq_one_iff.1 (show w.tasks.length = 1 by omega)
  simp only [hu, List.getElem_cons_zero] at hget
  exact ⟨rfl, by rw [hu, hget]⟩

end World

end InfoWorkshop.Service
