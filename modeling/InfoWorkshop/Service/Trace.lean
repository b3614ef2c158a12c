/-
The order of the hooks in the life of a service with one `Service_Start`: set-up, then `main` or the
event loop, tear-down, and the `Semaphore_Give`; and what a `Service_Stop` makes of the event loop.
-/
import InfoWorkshop.Service.Single
import Mathlib.Data.List.TakeWhile

namespace InfoWorkshop.Service

open InfoWorkshop.Core InfoWorkshop.Posix InfoWorkshop.Steps InfoWorkshop.Table

/-! ## Traces of hooks -/

/-- The calls that `Service_Main` makes for its service. -/
inductive Hook
  | setup
  | main
  | handler
  | teardown
  | give
  deriving DecidableEq, Repr

def Event.hook : Event → Option Hook
  | .setup => some .setup
  | .main => some .main
  | .handled _ _ => some .handler
  | .teardown => some .teardown
  | .given => some .give
  | _ => none

/-- The hooks called, oldest first. -/
def hooks (log : List Event) : List Hook := log.filterMap Event.hook

/-- Up to `main` or the event loop. -/
def setupTrace (s : Service) : List Hook := if s.setupHook = true then [.setup] else []

/-- Up to the termination section, with `k` calls of the handler. -/
def bodyTrace (s : Service) (k : Nat) : List Hook :=
  setupTrace s ++ if s.main = true then [.main] else .replicate k .handler

/-- Up to the `Semaphore_Give`. -/
def teardownTrace (s : Service) (k : Nat) : List Hook :=
  bodyTrace s k ++ if s.teardownHook = true then [.teardown] else []

/-- The hooks of a whole life, with `k` calls of the handler. -/
def fullTrace (s : Service) (k : Nat) : List Hook := teardownTrace s k ++ [.give]

/-- The hooks called when the task is at a point of `Service_Main`. -/
def traceAt (s : Service) (k : Nat) : TaskPc → List Hook
  | .entry => []
  | .inSetup | .body => setupTrace s
  | .inMain | .loopTest | .load | .receive _ | .wait _ | .hand _ _ | .inHandler | .teardown => bodyTrace s k
  | .inTeardown | .give => teardownTrace s k
  | .deleteTask | .deleteQueue | .clearQueue | .asleep | .ended => fullTrace s k

theorem prefix_setupTrace (s : Service) (k : Nat) : setupTrace s <+: bodyTrace s k := List.prefix_append _ _

theorem prefix_bodyTrace (s : Service) (k : Nat) : bodyTrace s k <+: teardownTrace s k :=
  List.prefix_append _ _

theorem prefix_teardownTrace (s : Service) (k : Nat) : teardownTrace s k <+: fullTrace s k :=
  List.prefix_append _ _

theorem prefix_traceAt (s : Service) (k : Nat) (pc : TaskPc) : traceAt s k pc <+: fullTrace s k := by
  have hbody := (prefix_bodyTrace s k).trans (prefix_teardownTrace s k)
  cases pc with
  | entry => exact List.nil_prefix
  | inSetup | body => exact (prefix_setupTrace s k).trans hbody
  | inTeardown | give => exact prefix_teardownTrace s k
  | deleteTask | deleteQueue | clearQueue | asleep | ended => exact List.prefix_rfl
  | _ => exact hbody

/-! ## After the stop -/

def Event.isHandled : Event → Bool
  | .handled _ _ => true
  | _ => false

/-- The calls of the handler after the first store of `SERVICE_STOPPED`. -/
def lateHandled (log : List Event) : Nat := (log.dropWhile (· != .stopped)).countP Event.isHandled

theorem lateHandled_of_not_mem {log : List Event} (h : .stopped ∉ log) : lateHandled log = 0 := by
  have hdrop : log.dropWhile (· != .stopped) = [] := by
    rw [List.dropWhile_eq_nil_iff]
    intro e he
    simpa using fun heq : e = .stopped => h (heq ▸ he)
  rw [lateHandled, hdrop]
  rfl

theorem lateHandled_snoc (log : List Event) (e : Event) :
    lateHandled (log ++ [e]) ≤ lateHandled log + [e].countP Event.isHandled := by
  unfold lateHandled
  rw [List.dropWhile_append]
  split
  · refine Nat.le_trans ?_ (Nat.le_add_left _ _)
    exact List.Sublist.countP_le (List.dropWhile_sublist _)
  · exact Nat.le_of_eq List.countP_append

/-- No store of `SERVICE_STOPPED` has more calls of the handler after it than the first. -/
theorem handled_after_le (l₁ l₂ : List Event) :
    l₂.countP Event.isHandled ≤ lateHandled (l₁ ++ .stopped :: l₂) := by
  unfold lateHandled
  rw [List.dropWhile_append]
  split
  · exact Nat.le_refl _
  · rw [List.countP_append, List.countP_cons]
    omega

/-- Every tear-down hook and every `Semaphore_Give` comes after some store of `SERVICE_STOPPED`. -/
def EndsAfterStop (log : List Event) : Prop :=
  ∀ l₁ e l₂, log = l₁ ++ e :: l₂ → e = .teardown ∨ e = .given → .stopped ∈ l₁

theorem EndsAfterStop.snoc {log : List Event} {e : Event} (h : EndsAfterStop log)
    (he : e = .teardown ∨ e = .given → .stopped ∈ log) : EndsAfterStop (log ++ [e]) := by
  intro l₁ f l₂ heq hf
  rcases List.eq_nil_or_concat l₂ with rfl | ⟨l₂, g, rfl⟩
  · obtain ⟨rfl, hlast⟩ := List.append_inj' heq rfl
    cases hlast
    exact he hf
  · rw [List.concat_eq_append, ← List.cons_append, ← List.append_assoc] at heq
    obtain ⟨hlog, -⟩ := List.append_inj' heq rfl
    exact h l₁ f l₂ hlog hf

/-- What the life of a service may show. -/
structure LifeCycle (s : Service) (log : List Event) : Prop where
  order : ∃ k, (s.handler = false → k = 0) ∧ hooks log <+: fullTrace s k
  /-- After a store of `SERVICE_STOPPED` the handler is called at most once. -/
  late : ∀ l₁ l₂, log = l₁ ++ .stopped :: l₂ → l₂.countP Event.isHandled ≤ 1
  ends : s.main = false → EndsAfterStop log

/-! ## The flow of `Service_Main` -/

/-- A step of `Service_Main`: from where to where, and the event it logs. -/
inductive Flow (s : Service) : TaskPc → TaskPc → List Event → Prop
  | setup : s.setupHook = true → Flow s .entry .inSetup [.setup]
  | noSetup : s.setupHook = false → Flow s .entry .body []
  | setupDone : Flow s .inSetup .body []
  | main : s.main = true → Flow s .body .inMain [.main]
  | noMain : s.main = false → Flow s .body .loopTest []
  | mainDone : Flow s .inMain .teardown []
  | loop : s.state = .running → Flow s .loopTest .load []
  | leave : s.state ≠ .running → Flow s .loopTest .teardown []
  | load (h) : Flow s .load (.receive h) []
  | wait (h) : Flow s (.receive h) (.wait h) []
  | received (h error event) : Flow s (.receive h) (.hand error event) []
  | resumed (h error event) : Flow s (.wait h) (.hand error event) []
  | hand (error event e) : s.handler = true → Flow s (.hand error event) .inHandler [.handled error e]
  | noHandler (error event) : s.handler = false → Flow s (.hand error event) .loopTest []
  | handlerDone : Flow s .inHandler .loopTest []
  | teardown : s.teardownHook = true → Flow s .teardown .inTeardown [.teardown]
  | noTeardown : s.teardownHook = false → Flow s .teardown .give []
  | teardownDone : Flow s .inTeardown .give []
  | give : Flow s .give .deleteTask [.given]
  | deleteTask : Flow s .deleteTask .deleteQueue []
  | deleteQueue : Flow s .deleteQueue .clearQueue []
  | clearQueue : Flow s .clearQueue .asleep []
  | asleep : Flow s .asleep .asleep []
  | die : Flow s .asleep .ended []

namespace World

/-- Task `i` follows the flow of `Service_Main`, or the program ends with nothing logged. -/
def Flows (w : World) (i : Nat) (pc : TaskPc) (w' : World) : Prop :=
  (w'.tasks.map TaskObject.pc = w.tasks.map TaskObject.pc ∧ w'.log = w.log) ∨
  ∃ pc' es, Flow w.service pc pc' es ∧
    w'.tasks.map TaskObject.pc = (w.tasks.map TaskObject.pc).set i pc' ∧ w'.log = w.log ++ es

theorem flows_gotoTask {w v : World} {i : Nat} {pc pc' : TaskPc} {es : List Event}
    (hflow : Flow w.service pc pc' es) (htasks : v.tasks.map TaskObject.pc = w.tasks.map TaskObject.pc)
    (hlog : v.log = w.log ++ es) : w.Flows i pc (v.gotoTask i pc') := by
  refine .inr ⟨pc', es, hflow, ?_, hlog⟩
  rw [← htasks]
  exact map_pc_gotoTask v.tasks i pc'

theorem onQueue_flows {w w' : World} {i : Nat} {pc : TaskPc} {h : Option Nat}
    {body : Nat → Queue Thread → Option World} (hs : w.onQueue h body = some w')
    (hbody : ∀ q queue, body q queue = some w' → w.Flows i pc w') : w.Flows i pc w' := by
  unfold onQueue at hs
  split at hs
  · cases hs; exact .inl ⟨rfl, rfl⟩
  · split at hs
    · cases hs
    · split at hs
      · cases hs; exact .inl ⟨rfl, rfl⟩
      · split at hs
        · cases hs
        · exact hbody _ _ hs

theorem serviceMain_flows {w w' : World} {i : Nat} {self : TaskObject} {ch : Choice}
    (hs : w.serviceMain i self ch = some w') : w.Flows i self.pc w' := by
  unfold serviceMain at hs
  cases hpc : self.pc with
  | entry =>
    simp only [hpc] at hs
    split at hs
    · rename_i hhook
      cases hs
      exact flows_gotoTask (.setup hhook) rfl rfl
    · rename_i hhook
      cases hs
      exact flows_gotoTask (.noSetup (Bool.eq_false_iff.2 hhook)) rfl (List.append_nil _).symm
  | inSetup => simp only [hpc] at hs; cases hs; exact flows_gotoTask .setupDone rfl (List.append_nil _).symm
  | body =>
    simp only [hpc] at hs
    split at hs
    · rename_i hmain
      cases hs
      exact flows_gotoTask (.main hmain) rfl rfl
    · rename_i hmain
      cases hs
      exact flows_gotoTask (.noMain (Bool.eq_false_iff.2 hmain)) rfl (List.append_nil _).symm
  | inMain => simp only [hpc] at hs; cases hs; exact flows_gotoTask .mainDone rfl (List.append_nil _).symm
  | loopTest =>
    simp only [hpc] at hs
    split at hs <;> cases hs
    · exact flows_gotoTask (.loop ‹_›) rfl (List.append_nil _).symm
    · exact flows_gotoTask (.leave ‹_›) rfl (List.append_nil _).symm
  | load => simp only [hpc] at hs; cases hs; exact flows_gotoTask (.load _) rfl (List.append_nil _).symm
  | receive h =>
    simp only [hpc] at hs
    refine onQueue_flows hs fun q queue hbody => ?_
    split at hbody <;> cases hbody
    · exact flows_gotoTask (v := w.setQueue q _) (.wait h) rfl (List.append_nil _).symm
    · exact flows_gotoTask (v := w.setQueue q _) (.received h _ _) rfl (List.append_nil _).symm
  | wait h =>
    simp only [hpc] at hs
    refine onQueue_flows hs fun q queue hbody => ?_
    split at hbody <;> cases hbody
    exact flows_gotoTask (v := w.setQueue q _) (.resumed h _ _) rfl (List.append_nil _).symm
  | hand error event =>
    simp only [hpc] at hs
    split at hs
    · rename_i hhandler
      cases hs
      exact flows_gotoTask (.hand error event _ hhandler) rfl rfl
    · rename_i hhandler
      cases hs
      exact flows_gotoTask (.noHandler error event (Bool.eq_false_iff.2 hhandler)) rfl (List.append_nil _).symm
  | inHandler => simp only [hpc] at hs; cases hs; exact flows_gotoTask .handlerDone rfl (List.append_nil _).symm
  | teardown =>
    simp only [hpc] at hs
    split at hs
    · rename_i hhook
      cases hs
      exact flows_gotoTask (.teardown hhook) rfl rfl
    · rename_i hhook
      cases hs
      exact flows_gotoTask (.noTeardown (Bool.eq_false_iff.2 hhook)) rfl (List.append_nil _).symm
  | inTeardown =>
    simp only [hpc] at hs
    cases hs
    exact flows_gotoTask .teardownDone rfl (List.append_nil _).symm
  | give =>
    simp only [hpc] at hs
    split at hs
    · cases hs; exact .inl ⟨rfl, rfl⟩
    · split at hs <;> cases hs
      · exact .inl ⟨rfl, rfl⟩
      · exact flows_gotoTask .give rfl rfl
  | deleteTask =>
    simp only [hpc, taskDelete] at hs
    split at hs
    · cases hs; exact flows_gotoTask .deleteTask rfl (List.append_nil _).symm
    · split at hs
      · cases hs
      · split at hs <;> cases hs
        · exact .inl ⟨rfl, rfl⟩
        · exact flows_gotoTask .deleteTask (map_modify_same _ fun _ => rfl) (List.append_nil _).symm
  | deleteQueue =>
    simp only [hpc, queueDelete] at hs
    split at hs
    · cases hs; exact flows_gotoTask .deleteQueue rfl (List.append_nil _).symm
    · split at hs
      · cases hs
      · split at hs <;> cases hs
        · exact .inl ⟨rfl, rfl⟩
        · exact flows_gotoTask .deleteQueue rfl (List.append_nil _).symm
  | clearQueue => simp only [hpc] at hs; cases hs; exact flows_gotoTask .clearQueue rfl (List.append_nil _).symm
  | asleep => simp only [hpc] at hs; cases hs; exact .inl ⟨rfl, rfl⟩
  | ended => simp only [hpc] at hs; cases hs

/-- With one task, it dies only asleep. -/
theorem die_asleep {w w' : World} {i : Nat} {self : TaskObject} (h : w.Single) (ht : w.tasks[i]? = some self)
    (hs : w.die i self = some w') : self.pc = .asleep ∧ w' = w.gotoTask i .ended := by
  unfold die at hs
  split at hs
  · rename_i hdie
    obtain ⟨hdel, hpoint⟩ := hdie
    have hok := h.tidy.stages i
    rw [stage_life ht] at hok
    have hlive : w.life.deleted i = true := (table_eq ht).trans hdel
    have hasleep : self.pc = .asleep := by
      cases hpc : self.pc with
      | asleep => rfl
      | body | loopTest | load | receive | hand | give | deleteQueue | clearQueue | ended =>
        rw [hpc] at hpoint; cases hpoint
      | _ =>
        rw [hpc] at hok
        have hdead := hok.2.2
        rw [hlive] at hdead
        cases hdead
    rw [hasleep] at hs
    cases hs
    exact ⟨hasleep, rfl⟩
  · cases hs

theorem die_flows {w w' : World} {i : Nat} {self : TaskObject} (h : w.Single) (ht : w.tasks[i]? = some self)
    (hs : w.die i self = some w') : w.Flows i self.pc w' := by
  obtain ⟨hasleep, rfl⟩ := die_asleep h ht hs
  rw [hasleep]
  exact flows_gotoTask .die rfl (List.append_nil _).symm

end World

/-! ## Where the task is, against the log -/

/-- In the event loop. -/
def TaskPc.inLoop : TaskPc → Bool
  | .loopTest | .load | .receive _ | .wait _ | .hand _ _ | .inHandler => true
  | _ => false

/-- Between the test of the loop and the call of the handler. -/
def TaskPc.toHandler : TaskPc → Bool
  | .load | .receive _ | .wait _ | .hand _ _ => true
  | _ => false

/-- Past `main` and the event loop. -/
def TaskPc.past : TaskPc → Bool
  | .teardown | .inTeardown | .give | .deleteTask | .deleteQueue | .clearQueue | .asleep | .ended => true
  | _ => false

/-- What the log says of a task at `pc`. -/
structure TaskTrace (s : Service) (log : List Event) (pc : TaskPc) : Prop where
  trace : ∃ k, (s.handler = false → k = 0) ∧ hooks log = traceAt s k pc
  loop : pc.inLoop = true → s.main = false
  main : pc = .inMain → s.main = true
  early : pc.toHandler = true → lateHandled log = 0
  past : s.main = false → pc.past = true → .stopped ∈ log

theorem hooks_append (l₁ l₂ : List Event) : hooks (l₁ ++ l₂) = hooks l₁ ++ hooks l₂ :=
  List.filterMap_append

theorem bodyTrace_main {s : Service} (h : s.main = true) (k : Nat) : bodyTrace s k = setupTrace s ++ [.main] := by
  rw [bodyTrace, if_pos h]

theorem bodyTrace_loop {s : Service} (h : s.main = false) (k : Nat) :
    bodyTrace s k = setupTrace s ++ .replicate k .handler := by
  rw [bodyTrace, if_neg (by rw [h]; exact Bool.false_ne_true)]

/-- The hooks called and the point of `Service_Main` go together. -/
theorem Flow.traceAt {s : Service} {pc pc' : TaskPc} {es : List Event} {k : Nat} (hf : Flow s pc pc' es)
    (hloop : pc.inLoop = true → s.main = false) (hk : s.handler = false → k = 0) :
    ∃ k', (s.handler = false → k' = 0) ∧ traceAt s k pc ++ hooks es = traceAt s k' pc' := by
  cases hf with
  | setup h => exact ⟨k, hk, by simp [Service.traceAt, setupTrace, h, hooks, Event.hook]⟩
  | noSetup h => exact ⟨k, hk, by simp [Service.traceAt, setupTrace, h, hooks]⟩
  | main h => exact ⟨k, hk, by simp [Service.traceAt, bodyTrace_main h, hooks, Event.hook]⟩
  | noMain h => exact ⟨0, fun _ => rfl, by simp [Service.traceAt, bodyTrace_loop h, hooks]⟩
  | hand error event e h =>
    -- one more call of the handler
    have hmain := hloop rfl
    refine ⟨k + 1, fun hno => absurd (hno.symm.trans h) Bool.false_ne_true, ?_⟩
    simp [Service.traceAt, bodyTrace_loop hmain, hooks, Event.hook, List.replicate_succ']
  | teardown h => exact ⟨k, hk, by simp [Service.traceAt, teardownTrace, h, hooks, Event.hook]⟩
  | noTeardown h => exact ⟨k, hk, by simp [Service.traceAt, teardownTrace, h, hooks]⟩
  | give => exact ⟨k, hk, by simp [Service.traceAt, fullTrace, hooks, Event.hook]⟩
  | _ => exact ⟨k, hk, List.append_nil _⟩

/-- A step of `Service_Main` while the state is `SERVICE_RUNNING` or has been set to
`SERVICE_STOPPED`. -/
theorem TaskTrace.flow {s : Service} {log es : List Event} {pc pc' : TaskPc} (h : TaskTrace s log pc)
    (hf : Flow s pc pc' es) (hstop : .stopped ∈ log → s.state = .stopped)
    (hrun : s.state = .running ∨ .stopped ∈ log) : TaskTrace s (log ++ es) pc' := by
  constructor
  · obtain ⟨k, hk, heq⟩ := h.trace
    obtain ⟨k', hk', htrace⟩ := hf.traceAt h.loop hk
    exact ⟨k', hk', by rw [hooks_append, heq, htrace]⟩
  · cases hf with
    | noMain hmain => exact fun _ => hmain
    | loop | load | wait | received | resumed | hand | noHandler | handlerDone => exact fun _ => h.loop rfl
    | _ => rintro ⟨⟩
  · cases hf with
    | main hmain => exact fun _ => hmain
    | _ => rintro ⟨⟩
  · cases hf with
    | loop hstate =>
      -- the test has found the state not stopped
      intro _
      rw [List.append_nil]
      exact lateHandled_of_not_mem fun hmem => by rw [hstop hmem] at hstate; cases hstate
    | load | wait | received | resumed =>
      intro _
      rw [List.append_nil]
      exact h.early rfl
    | _ => rintro ⟨⟩
  · intro hmain hpast
    cases hf with
    | leave hstate =>
      rw [List.append_nil]
      exact hrun.resolve_left hstate
    | mainDone => exact absurd (hmain.symm.trans (h.main rfl)) Bool.false_ne_true
    | setup | noSetup | setupDone | main | noMain | loop | load | wait | received | resumed | hand | noHandler
    | handlerDone => cases hpast
    | _ => exact List.mem_append_left _ (h.past hmain rfl)

/-- Only the handler's own step can add to its late calls. -/
theorem TaskTrace.flow_late {s : Service} {log es : List Event} {pc pc' : TaskPc} (h : TaskTrace s log pc)
    (hf : Flow s pc pc' es) (hlate : lateHandled log ≤ 1) : lateHandled (log ++ es) ≤ 1 := by
  cases hf with
  | hand error event e =>
    have hearly := h.early rfl
    have hsnoc := lateHandled_snoc log (.handled error e)
    rw [hearly] at hsnoc
    exact hsnoc
  | setup | main | teardown | give => exact Nat.le_trans (lateHandled_snoc log _) hlate
  | _ => rw [List.append_nil]; exact hlate

theorem TaskTrace.flow_ends {s : Service} {log es : List Event} {pc pc' : TaskPc} (h : TaskTrace s log pc)
    (hf : Flow s pc pc' es) (hmain : s.main = false) (hends : EndsAfterStop log) : EndsAfterStop (log ++ es) := by
  cases hf with
  | setup | main | hand =>
    refine hends.snoc ?_
    rintro (he | he) <;> cases he
  | teardown | give => exact hends.snoc fun _ => h.past hmain rfl
  | _ => rw [List.append_nil]; exact hends

theorem countP_isHandled_of_hook {e : Event} (he : e.hook = none) : [e].countP Event.isHandled = 0 := by
  cases e with
  | handled => cases he
  | _ => rfl

/-- An event of a call leaves the task where it is. -/
theorem TaskTrace.note {s : Service} {log : List Event} {pc : TaskPc} {e : Event} (h : TaskTrace s log pc)
    (he : e.hook = none) : TaskTrace s (log ++ [e]) pc := by
  have hhooks : hooks (log ++ [e]) = hooks log := by simp [hooks, he]
  have hcount := countP_isHandled_of_hook he
  refine ⟨by rw [hhooks]; exact h.trace, h.loop, h.main, fun hpc => ?_, fun hmain hpast => ?_⟩
  · have hsnoc := lateHandled_snoc log e
    rw [h.early hpc, hcount] at hsnoc
    exact Nat.le_zero.1 hsnoc
  · exact List.mem_append_left _ (h.past hmain hpast)

/-! ## The invariant -/

theorem setupTrace_keeps {w w' : World} (h : w.Keeps w') : setupTrace w'.service = setupTrace w.service := by
  rw [setupTrace, setupTrace, h.setupHook]

theorem bodyTrace_keeps {w w' : World} (h : w.Keeps w') (k : Nat) :
    bodyTrace w'.service k = bodyTrace w.service k := by
  rw [bodyTrace, bodyTrace, setupTrace_keeps h, h.main]

theorem fullTrace_keeps {w w' : World} (h : w.Keeps w') (k : Nat) :
    fullTrace w'.service k = fullTrace w.service k := by
  rw [fullTrace, fullTrace, teardownTrace, teardownTrace, bodyTrace_keeps h, h.teardownHook]

theorem traceAt_keeps {w w' : World} (h : w.Keeps w') (k : Nat) (pc : TaskPc) :
    traceAt w'.service k pc = traceAt w.service k pc := by
  cases pc with
  | entry => rfl
  | inSetup | body => exact setupTrace_keeps h
  | inTeardown | give =>
    show teardownTrace _ k = teardownTrace _ k
    rw [teardownTrace, teardownTrace, bodyTrace_keeps h, h.teardownHook]
  | deleteTask | deleteQueue | clearQueue | asleep | ended => exact fullTrace_keeps h k
  | _ => exact bodyTrace_keeps h k

theorem TaskTrace.keeps {w w' : World} {log : List Event} {pc : TaskPc} (hkeep : w.Keeps w')
    (h : TaskTrace w.service log pc) : TaskTrace w'.service log pc := by
  obtain ⟨⟨k, hk, htrace⟩, hloop, hmain, hearly, hpast⟩ := h
  refine ⟨⟨k, ?_, ?_⟩, ?_, ?_, hearly, ?_⟩
  · rw [hkeep.handler]; exact hk
  · rw [traceAt_keeps hkeep]; exact htrace
  · rw [hkeep.main]; exact hloop
  · rw [hkeep.main]; exact hmain
  · rw [hkeep.main]; exact hpast

namespace World

/-- With one `Service_Start`, how its state, its task and its log go together. -/
structure Ordered (w : World) : Prop extends Single w where
  stopped : .stopped ∈ w.log → w.service.state = .stopped
  /-- Until the `Service_Start` has set the state nothing can stop the service. -/
  before : w.fault = none → ∀ c : Nat, w.calls[c]? = some (.start .setRunning) →
    w.service.state = .stopped ∧ .stopped ∉ w.log ∧ ∀ d : Nat, w.calls[d]? ≠ some (.stop .setStopped)
  running : (w.tasks.map TaskObject.pc ≠ [] ∨ ∃ (c : Nat) (k : Call), w.calls[c]? = some k ∧ hasRun k = true) →
    w.service.state = .running ∨ .stopped ∈ w.log
  silent : w.tasks.map TaskObject.pc = [] → hooks w.log = []
  task : ∀ pc ∈ w.tasks.map TaskObject.pc, TaskTrace w.service w.log pc
  late : lateHandled w.log ≤ 1
  ends : w.service.main = false → EndsAfterStop w.log

theorem ordered_init (service : Service) : (init service).Ordered where
  toSingle := single_init service
  stopped := by rintro ⟨⟩
  before := by rintro - c ⟨⟩
  running := by
    rintro (hne | ⟨c, k, hc, -⟩)
    · exact absurd rfl hne
    · cases hc
  silent _ := rfl
  task := by rintro pc ⟨⟩
  late := Nat.zero_le _
  ends := by
    rintro - l₁ e l₂ heq -
    cases l₁ <;> cases heq

theorem Ordered.lifeCycle {w : World} (h : w.Ordered) : LifeCycle w.service w.log where
  order := by
    rcases htasks : w.tasks.map TaskObject.pc with _ | ⟨pc, rest⟩
    · exact ⟨0, fun _ => rfl, by rw [h.silent htasks]; exact List.nil_prefix⟩
    · obtain ⟨k, hk, htrace⟩ := (h.task pc (by rw [htasks]; exact List.mem_cons_self)).trace
      exact ⟨k, hk, by rw [htrace]; exact prefix_traceAt _ k pc⟩
  late l₁ l₂ heq := by
    have hlate := h.late
    rw [heq] at hlate
    exact Nat.le_trans (handled_after_le l₁ l₂) hlate
  ends := h.ends

/-! ### The steps of the task -/

theorem flow_not_stopped {s : Service} {pc pc' : TaskPc} {es : List Event} (hf : Flow s pc pc' es) :
    .stopped ∉ es := by
  cases hf <;> simp

/-- With one task, the points of the tasks are those of that one. -/
theorem Ordered.pcs {w : World} (h : w.Ordered) {i : Nat} {self : TaskObject} (ht : w.tasks[i]? = some self) :
    i = 0 ∧ w.tasks.map TaskObject.pc = [self.pc] := by
  obtain ⟨hi, htasks⟩ := h.task_eq ht
  exact ⟨hi, by rw [htasks]; rfl⟩

theorem Ordered.flows {w w' : World} {i : Nat} {self : TaskObject} (h : w.Ordered) (hfault : w.fault = none)
    (hsingle : w'.Single) (ht : w.tasks[i]? = some self) (hstep : w.TaskStep w')
    (hflows : w.Flows i self.pc w') : w'.Ordered := by
  obtain ⟨rfl, hpcs⟩ := h.pcs ht
  have hrun : w.service.state = .running ∨ .stopped ∈ w.log :=
    h.running (.inl (by rw [hpcs]; exact List.cons_ne_nil _ _))
  rcases hflows with ⟨hpcs', hlog⟩ | ⟨pc', es, hflow, hpcs', hlog⟩
  · rw [hpcs] at hpcs'
    refine ⟨hsingle, ?_, ?_, fun _ => ?_, ?_, ?_, ?_, ?_⟩
    · rw [hlog, hstep.state]; exact h.stopped
    · rw [hlog, hstep.state, hstep.calls]; exact fun _ => h.before hfault
    · rw [hlog, hstep.state]; exact hrun
    · rw [hpcs']; rintro ⟨⟩
    · rw [hpcs', hlog, ← hpcs]; exact fun pc hpc => (h.task pc hpc).keeps hstep.toKeeps
    · rw [hlog]; exact h.late
    · rw [hlog, hstep.main]; exact h.ends
  · rw [hpcs] at hpcs'
    have htask := h.task self.pc (by rw [hpcs]; exact List.mem_cons_self)
    have hmem : .stopped ∈ w'.log ↔ .stopped ∈ w.log := by
      rw [hlog, List.mem_append, or_iff_left (flow_not_stopped hflow)]
    refine ⟨hsingle, ?_, ?_, fun _ => ?_, ?_, ?_, ?_, ?_⟩
    · rw [hmem, hstep.state]; exact h.stopped
    · rw [hmem, hstep.state, hstep.calls]; exact fun _ => h.before hfault
    · rw [hmem, hstep.state]; exact hrun
    · rw [hpcs']; rintro ⟨⟩
    · intro pc hpc
      rw [hpcs'] at hpc
      obtain rfl : pc = pc' := by simpa using hpc
      rw [hlog]
      exact (htask.flow hflow h.stopped hrun).keeps hstep.toKeeps
    · rw [hlog]; exact htask.flow_late hflow h.late
    · rw [hlog, hstep.main]; exact fun hmain => htask.flow_ends hflow hmain (h.ends hmain)

/-! ### The steps of the calls -/

/-- What a step of a call adds to the log. -/
theorem CallEffect.log {w w' : World} {c : Nat} (h : w.CallEffect c w') :
    w'.log = w.log ∨ ∃ e, Event.hook e = none ∧ w'.log = w.log ++ [e] := by
  rcases h with ⟨-, hlog⟩ | ⟨e, hnote, -, hlog⟩ | ⟨-, -, hlog⟩ | ⟨-, -, hlog⟩
  · exact .inl hlog
  · refine .inr ⟨e, ?_, hlog⟩
    cases e <;> first | rfl | cases hnote
  · exact .inl hlog
  · exact .inr ⟨.stopped, rfl, hlog⟩

theorem CallEffect.hooks {w w' : World} {c : Nat} (h : w.CallEffect c w') : hooks w'.log = hooks w.log := by
  rcases h.log with hlog | ⟨e, he, hlog⟩
  · rw [hlog]
  · rw [hlog, hooks_append]
    simp [Service.hooks, he]

/-- Only the store of `SERVICE_STOPPED` puts its event in the log. -/
theorem CallEffect.stopped_mem {w w' : World} {c : Nat} (h : w.CallEffect c w')
    (hc : w.calls[c]? ≠ some (.stop .setStopped)) (hmem : .stopped ∈ w'.log) : .stopped ∈ w.log := by
  rcases h with ⟨-, hlog⟩ | ⟨e, hnote, -, hlog⟩ | ⟨-, -, hlog⟩ | ⟨hstop, -, -⟩
  · exact hlog ▸ hmem
  · rw [hlog, List.mem_append, List.mem_singleton] at hmem
    rcases hmem with hmem | rfl
    · exact hmem
    · cases hnote
  · exact hlog ▸ hmem
  · exact absurd hstop hc

/-- Where the calls are after a step of call `c`. -/
theorem CallStep.call_cases {w w' : World} {c : Nat} (h : w.CallStep c w') {d : Nat} {k : Call}
    (hd : w'.calls[d]? = some k) : w.calls[d]? = some k ∨ d = c ∧ w.NextCall c w' k := by
  rcases h.calls with ⟨hcalls, -⟩ | ⟨k', hk', hcalls⟩
  · rw [hcalls] at hd; exact .inl hd
  · rw [hcalls, List.getElem?_set] at hd
    split at hd
    · rename_i hcd
      split at hd
      · cases hd
        exact .inr ⟨hcd.symm, hk'⟩
      · cases hd
    · exact .inl hd

/-- A `Service_Start` about to set the state, after a step of call `c`: it is `c` and has just made its
check, or it was there before and `c` does not touch the state. -/
theorem Ordered.before_step {w w' : World} {c d : Nat} {ch : Choice} (h : w.Ordered)
    (hfirst : w.StartFirst (.caller c ch)) (hfault : w.fault = none) (hfault' : w'.fault = none)
    (hstep : w.CallStep c w') (hd : w'.calls[d]? = some (.start .setRunning)) :
    w'.service.state = .stopped ∧ .stopped ∉ w'.log ∧ ∀ e : Nat, w'.calls[e]? ≠ some (.stop .setStopped) := by
  have hold : w.service.state = .stopped ∧ .stopped ∉ w.log ∧
      (∀ e : Nat, w.calls[e]? ≠ some (.stop .setStopped)) ∧ w.calls[c]? ≠ some (.start .setRunning) := by
    rcases hstep.call_cases hd with hd' | ⟨rfl, hcheck⟩
    · obtain ⟨hstate, hlog, hcalls⟩ := h.before hfault d hd'
      refine ⟨hstate, hlog, hcalls, fun hc => ?_⟩
      -- the one call in progress would have left that point
      obtain rfl : c = d := h.once.progress c d (by rw [call_life hc]; rfl) (by rw [call_life hd']; rfl)
      rcases hstep.calls with ⟨-, hcrash⟩ | ⟨k, hk, hcalls'⟩
      · exact hcrash hfault'
      · rw [hcalls', List.getElem?_set_self (List.getElem?_eq_some_iff.1 hc).1] at hd
        cases hd
        exact absurd (hc.symm.trans hk) (by simp)
    · have hun := hfirst d ch rfl hcheck
      have hrest : ∀ e : Nat, w.calls[e]? ≠ some (.stop .setStopped) := fun e he => by
        cases hun.calls _ (List.mem_of_getElem? he)
      refine ⟨hun.state, ?_, hrest, ?_⟩
      · rw [hun.log]; rintro ⟨⟩
      · rw [show w.calls[d]? = some (.start .check) from hcheck]; simp
  obtain ⟨hstate, hlog, hcalls, hset⟩ := hold
  refine ⟨?_, fun hmem => hlog (hstep.effect.stopped_mem (hcalls c) hmem), fun e he => ?_⟩
  · rcases hstep.effect with ⟨hs, -⟩ | ⟨-, -, hs, -⟩ | ⟨hc, -, -⟩ | ⟨-, hs, -⟩
    · rw [hs]; exact hstate
    · rw [hs]; exact hstate
    · exact absurd hc hset
    · exact hs
  · rcases hstep.call_cases he with he | ⟨-, hrun⟩
    · exact hcalls e he
    · exact hrun hstate

/-- A `Service_Start` that has set the state to `SERVICE_RUNNING`, after a step of call `c`. -/
theorem Ordered.running_step {w w' : World} {c : Nat} (h : w.Ordered) (hstep : w.CallStep c w')
    (hrun : w'.tasks.map TaskObject.pc ≠ [] ∨ ∃ (d : Nat) (k : Call), w'.calls[d]? = some k ∧ hasRun k = true) :
    w'.service.state = .running ∨ .stopped ∈ w'.log := by
  have hold : w'.service.state = .running ∨ w.tasks.map TaskObject.pc ≠ [] ∨
      ∃ (d : Nat) (k : Call), w.calls[d]? = some k ∧ hasRun k = true := by
    rcases hrun with htasks | ⟨d, k, hd, hk⟩
    · rcases hstep.tasks with htasks' | ⟨⟨q, hc⟩, -⟩
      · rw [htasks'] at htasks
        exact .inr (.inl htasks)
      · exact .inr (.inr ⟨c, _, hc, rfl⟩)
    · rcases hstep.call_cases hd with hd | ⟨-, hnext⟩
      · exact .inr (.inr ⟨d, k, hd, hk⟩)
      · cases k with
        | start pc =>
          cases pc with
          | check | setRunning => cases hk
          | setDefaults => exact .inl hnext
          | _ =>
            obtain ⟨k, hc, hk⟩ := hnext
            exact .inr (.inr ⟨c, k, hc, hk⟩)
        | _ => cases hk
  rcases hold with hstate | hold
  · exact .inl hstate
  · have hw := h.running hold
    rcases hstep.effect with ⟨hs, hl⟩ | ⟨e, -, hs, hl⟩ | ⟨-, hs, -⟩ | ⟨-, -, hl⟩
    · rw [hs, hl]; exact hw
    · rw [hs, hl]; exact hw.imp_right (List.mem_append_left _)
    · exact .inl hs
    · exact .inr (by rw [hl]; simp)

theorem Ordered.caller {w w' : World} {c : Nat} {ch : Choice} (h : w.Ordered)
    (hfirst : w.StartFirst (.caller c ch)) (hfault : w.fault = none) (hsingle : w'.Single)
    (hstep : w.CallStep c w') : w'.Ordered := by
  refine ⟨hsingle, ?_, fun hfault' d hd => h.before_step hfirst hfault hfault' hstep hd,
    h.running_step hstep, ?_, ?_, ?_, ?_⟩
  · intro hmem
    rcases hstep.effect with ⟨hs, hl⟩ | ⟨e, hnote, hs, hl⟩ | ⟨hc, -, hl⟩ | ⟨-, hs, -⟩
    · rw [hs]; exact h.stopped (hl ▸ hmem)
    · rw [hl, List.mem_append, List.mem_singleton] at hmem
      rcases hmem with hmem | rfl
      · rw [hs]; exact h.stopped hmem
      · cases hnote
    · exact absurd (hl ▸ hmem) (h.before hfault c hc).2.1
    · exact hs
  · intro hnil
    rw [hstep.effect.hooks]
    rcases hstep.tasks with htasks | ⟨-, htasks⟩
    · exact h.silent (htasks ▸ hnil)
    · rw [htasks] at hnil
      simp at hnil
  · intro pc hpc
    have hkept : pc ∈ w.tasks.map TaskObject.pc → TaskTrace w'.service w'.log pc := fun hmem => by
      have htask := (h.task pc hmem).keeps hstep.toKeeps
      rcases hstep.effect.log with hlog | ⟨e, he, hlog⟩
      · rw [hlog]; exact htask
      · rw [hlog]; exact htask.note he
    rcases hstep.tasks with htasks | ⟨-, htasks⟩
    · exact hkept (htasks ▸ hpc)
    · rw [htasks, List.mem_append, List.mem_singleton] at hpc
      rcases hpc with hpc | rfl
      · exact hkept hpc
      · -- the new task is the only one, and no hook has been called
        have hlen := hsingle.tasks_le
        rw [← List.length_map TaskObject.pc, htasks, List.length_append] at hlen
        have hnil : w.tasks.map TaskObject.pc = [] := List.length_eq_zero_iff.1 (by simpa using hlen)
        refine ⟨⟨0, fun _ => rfl, ?_⟩, ?_, ?_, ?_, ?_⟩
        · rw [hstep.effect.hooks]; exact h.silent hnil
        · rintro ⟨⟩
        · rintro ⟨⟩
        · rintro ⟨⟩
        · rintro - ⟨⟩
  · rcases hstep.effect.log with hlog | ⟨e, he, hlog⟩
    · rw [hlog]; exact h.late
    · have hsnoc := lateHandled_snoc w.log e
      rw [countP_isHandled_of_hook he] at hsnoc
      rw [hlog]
      exact Nat.le_trans hsnoc h.late
  · rw [hstep.main]
    intro hmain
    rcases hstep.effect.log with hlog | ⟨e, he, hlog⟩
    · rw [hlog]; exact h.ends hmain
    · rw [hlog]
      refine (h.ends hmain).snoc ?_
      rintro (rfl | rfl) <;> cases he

/-! ### The other steps -/

/-- A call past its first step was there before. -/
theorem other_calls {w w' : World} {a : Act} (ha : Act.other a = true) (hs : w.Advance a w') {c : Nat}
    {k : Call} (hk : atRest k = false) (hc : w'.calls[c]? = some k) : w.calls[c]? = some k := by
  cases hs with
  | start | stop | notify | task | die => cases ha
  | call api =>
    rcases Nat.lt_or_ge c w.calls.length with hlt | hge
    · rwa [List.getElem?_append_left hlt] at hc
    · rw [List.getElem?_append_right hge] at hc
      have hmem := List.mem_singleton.1 (List.mem_of_getElem? hc)
      rw [hmem] at hk
      cases api <;> cases hk
  | wake | take | wakeTaker | retake => exact hc

theorem Ordered.other {w w' : World} {a : Act} (h : w.Ordered) (hfault : w.fault = none) (hsingle : w'.Single)
    (ha : Act.other a = true) (hs : w.Advance a w') : w'.Ordered := by
  have hstep := advance_otherStep ha hs
  refine ⟨hsingle, ?_, fun _ c hc => ?_, fun hrun => ?_, ?_, ?_, ?_, ?_⟩
  · rw [hstep.log, hstep.state]; exact h.stopped
  · obtain ⟨hstate, hlog, hcalls⟩ := h.before hfault c (other_calls ha hs rfl hc)
    rw [hstep.log, hstep.state]
    exact ⟨hstate, hlog, fun d hd => hcalls d (other_calls ha hs rfl hd)⟩
  · rw [hstep.log, hstep.state]
    rw [hstep.tasks] at hrun
    refine h.running (hrun.imp_right ?_)
    rintro ⟨c, k, hc, hk⟩
    refine ⟨c, k, other_calls ha hs ?_ hc, hk⟩
    cases k with
    | start pc =>
      cases pc with
      | check => cases hk
      | _ => rfl
    | _ => cases hk
  · rw [hstep.tasks, hstep.log]; exact h.silent
  · rw [hstep.tasks, hstep.log]; exact fun pc hpc => (h.task pc hpc).keeps hstep.toKeeps
  · rw [hstep.log]; exact h.late
  · rw [hstep.log, hstep.main]; exact h.ends

/-! ### Whole runs -/

theorem ordered_step {w w' : World} {a : Act} (h : w.Ordered) (hfirst : w.StartFirst a)
    (hs : w.step a = some w') : w'.Ordered := by
  have hsingle := single_step h.toSingle hfirst hs
  obtain ⟨hfault, hs⟩ := step_advance hs
  cases a with
  | caller c ch => exact h.caller hfirst hfault hsingle (caller_callStep hs)
  | task i ch =>
    have hstep := task_taskStep hs
    cases hs with
    | task ht hs => exact h.flows hfault hsingle ht hstep (serviceMain_flows hs)
  | die i =>
    have hstep := die_advance_taskStep hs
    cases hs with
    | die ht hs => exact h.flows hfault hsingle ht hstep (die_flows h.toSingle ht hs)
  | _ => exact h.other hfault hsingle rfl hs

theorem Keeps.trans {u v w : World} (h : u.Keeps v) (k : v.Keeps w) : u.Keeps w :=
  ⟨k.setupHook.trans h.setupHook, k.teardownHook.trans h.teardownHook, k.main.trans h.main,
    k.handler.trans h.handler, fun hnone => k.semaphore (h.semaphore hnone)⟩

/-- What a service shows of its life depends on what no step changes. -/
theorem lifeCycle_keeps {w w' : World} {log : List Event} (h : w.Keeps w') (hl : LifeCycle w'.service log) :
    LifeCycle w.service log := by
  obtain ⟨⟨k, hk, hprefix⟩, hlate, hends⟩ := hl
  refine ⟨⟨k, ?_, ?_⟩, hlate, ?_⟩
  · rw [← h.handler]; exact hk
  · rw [← fullTrace_keeps h]; exact hprefix
  · rw [← h.main]; exact hends

/-- In every run with at most one call of `Service_Start` the life of the service has its order. -/
theorem life_cycle_ordered (service : Service) (acts : List Act) (hone : acts.count (.call .start) ≤ 1) (w : World)
    (hw : exec step (init service) acts = some w) : LifeCycle service w.log := by
  have hordered : w.Ordered := exec_meets_invariant (I := Ordered)
    (fun u a v hu hc hs => ordered_step hu hc hs) hw (startFirst_of_count service acts hone)
    (ordered_init service)
  have hkeeps : (init service).Keeps w := exec_invariant (I := (init service).Keeps)
    (fun u a v hu hs => hu.trans (step_keeps hs)) hw (.same rfl)
  obtain ⟨horder, hlate, hends⟩ := lifeCycle_keeps hkeeps hordered.lifeCycle
  exact ⟨horder, hlate, hends⟩

/-- A service with its hooks, a handler and a semaphore. -/
def hookedService : Service :=
  { taskPriority := 0, taskStackSize := 0, queue := none, task := none, timeoutMs := 0, state := .stopped
    setupHook := true, teardownHook := true, main := false, handler := true
    terminationSemaphore := Semaphore.new true true }

/-- The service is started, handles one event, and is stopped while it does. -/
def handlerLife : List Act :=
  startCall 0 ++ Act.call (.notify 1 2) :: List.replicate 3 (Act.caller 1 plain) ++
    List.replicate 7 (Act.task 0 plain) ++ stopCall 2 ++ List.replicate 5 (Act.task 0 plain)

theorem handler_life_ordered : ∃ w, exec step (init hookedService) handlerLife = some w ∧
    hooks w.log = [.setup, .handler, .teardown, .give] ∧ LifeCycle hookedService w.log := by
  obtain ⟨w, hw⟩ := Option.isSome_iff_exists.1
    (show (exec step (init hookedService) handlerLife).isSome = true by decide)
  have hhooks : (exec step (init hookedService) handlerLife).map (fun w => hooks w.log) =
      some [.setup, .handler, .teardown, .give] := by decide
  rw [hw, Option.map_some, Option.some.injEq] at hhooks
  exact ⟨w, hw, hhooks, life_cycle_ordered hookedService handlerLife (by decide) w hw⟩

end World

end InfoWorkshop.Service
