/-
What the table `TASKS` says of the tasks: in the runs whose steps meet a condition every live task has one
entry, its thread finds it there, and no entry is that of a deleted task.
-/
import InfoWorkshop.Posix.Task

namespace InfoWorkshop.Posix.Tasks

open InfoWorkshop.Memory InfoWorkshop.CString InfoWorkshop.Steps

/-- The task that a call of `Task_Create` has yet to enter into the table. -/
@[simp] def Call.pending : Call → Option Nat
  | .spawn k | .test k _ | .store k _ => some k
  | .alloc _ | .look _ _ _ | .compare _ _ _ | .read _ _ _ _ | .load _ _ _ | .find _ _ _ | .clear _ _ _
  | .cancel _ _ | .free _ _ | .gotSelf _ _ | .gotName _ _ | .foundNone _ | .returned => none

/-- The task that a call of `Task_Delete` has yet to delete. -/
@[simp] def Call.deleting : Call → Option Nat
  | .look me .delete _ | .compare me .delete _ | .read me .delete _ _ => me
  | .load k .delete _ | .find _ k _ | .clear _ k _ | .cancel _ k | .free _ k => some k
  | .look _ .getSelf _ | .look _ .getName _ | .compare _ .getSelf _ | .compare _ .getName _
  | .read _ .getSelf _ _ | .read _ .getName _ _ | .load _ .getSelf _ | .load _ .getName _
  | .alloc _ | .spawn _ | .test _ _ | .store _ _ | .gotSelf _ _ | .gotName _ _ | .foundNone _ | .returned => none

/-- The task that a call of `Task_Delete` has taken out of the table. -/
@[simp] def Call.past : Call → Option Nat
  | .cancel _ k | .free _ k => some k
  | .alloc _ | .spawn _ | .test _ _ | .store _ _ | .look _ _ _ | .compare _ _ _ | .read _ _ _ _ | .load _ _ _
  | .find _ _ _ | .clear _ _ _ | .gotSelf _ _ | .gotName _ _ | .foundNone _ | .returned => none

/-- The task that a call looks for in the table, and the entry it has come to. -/
@[simp] def Call.seeks : Call → Option (Nat × Nat)
  | .look (some k) _ i | .compare (some k) _ i | .read (some k) _ i _ | .load k _ i | .find _ k i
  | .clear _ k i => some (k, i)
  | .look none _ _ | .compare none _ _ | .read none _ _ _ | .alloc _ | .spawn _ | .test _ _ | .store _ _
  | .cancel _ _ | .free _ _ | .gotSelf _ _ | .gotName _ _ | .foundNone _ | .returned => none

/-- The entry that a call of `Task_GetSelf` has found non-`NULL` and has yet to finish comparing. -/
@[simp] def Call.compares : Call → Option Nat
  | .compare _ _ i | .read _ _ i _ => some i
  | .alloc _ | .spawn _ | .test _ _ | .store _ _ | .look _ _ _ | .load _ _ _ | .find _ _ _ | .clear _ _ _
  | .cancel _ _ | .free _ _ | .gotSelf _ _ | .gotName _ _ | .foundNone _ | .returned => none

/-- The task that a call has read in the table and is about to use, and its entry. -/
@[simp] def Call.holds : Call → Option (Nat × Nat)
  | .read _ _ i k | .clear _ k i => some (k, i)
  | .alloc _ | .spawn _ | .test _ _ | .store _ _ | .look _ _ _ | .compare _ _ _ | .load _ _ _ | .find _ _ _
  | .cancel _ _ | .free _ _ | .gotSelf _ _ | .gotName _ _ | .foundNone _ | .returned => none

/-- The caller's own task, which a call of `Task_GetSelf` has found, and the entry it was found in. -/
@[simp] def Call.finds : Call → Option (Nat × Nat)
  | .load k _ i => some (k, i)
  | .alloc _ | .spawn _ | .test _ _ | .store _ _ | .look _ _ _ | .compare _ _ _ | .read _ _ _ _ | .find _ _ _
  | .clear _ _ _ | .cancel _ _ | .free _ _ | .gotSelf _ _ | .gotName _ _ | .foundNone _ | .returned => none

namespace Registry

/-- A task whose handle has been returned, or whose thread has begun, and which nobody has asked to delete. -/
def Live (s : Registry) (k : Nat) : Prop :=
  ((s.task k).handed = true ∨ (s.task k).begun = true) ∧ (s.task k).doomed = false

/-- What the registry knows of the live tasks. -/
structure Knows (s : Registry) : Prop where
  running : s.crashed = false
  self : ∀ c me r, s.call c = .gotSelf (some me) r → s.Live me → r = some me
  name : ∀ c me r, s.call c = .gotName (some me) r → s.Live me → r = some (s.task me).requested
  slot : ∀ k, s.Live k → ∃ i, i < MAX_TASKS ∧ s.slots i = some k ∧ ∀ j, s.slots j = some k → j = i
  deleted : ∀ i k, s.slots i = some k → (s.task k).freed = false
  /-- `Task_Delete(NULL)` finds a task, the caller's own. -/
  found : ∀ c me, s.call c ≠ .foundNone (some me)
  own : ∀ c me k i, s.call c = .find (some me) k i ∨ s.call c = .clear (some me) k i ∨
    s.call c = .cancel (some me) k ∨ s.call c = .free (some me) k → k = me

/-- A name fits its array; a thread begins after its `Task_Create` has returned; `Task_Create` finds an
entry that is free, and still free when it writes to it; `Task_Delete` clears no entry that a
`Task_GetSelf` has found and has yet to finish comparing. -/
def Orderly (s : Registry) : Act → Prop
  | .call _ => True
  | .begin k => (s.task k).handed = true
  | .step c _ =>
    match s.call c with
    | .alloc name => (cstr name 0).length < nameLength
    | .test _ i => i < MAX_TASKS
    | .store _ i => s.slots i = none
    | .clear _ _ i => ∀ d, d < s.calls → (s.call d).compares ≠ some i
    | _ => True

instance (s : Registry) (a : Act) : Decidable (s.Orderly a) := by
  unfold Orderly
  split
  · infer_instance
  · infer_instance
  · split <;> infer_instance

/-! ## What holds of every call, entry and task after an update -/

section Updates

variable {s : Registry} {c i k : Nat} {y : Call} {v : Option Nat} {t : Task}

theorem forall_call {P : Nat → Call → Prop} (hy : P c y) (h : ∀ d, d ≠ c → P d (s.call d)) (d : Nat) :
    P d ((s.goto c y).call d) := (Function.forall_update_iff s.call P).2 ⟨hy, h⟩ d

theorem forall_slot {P : Nat → Option Nat → Prop} (hv : P i v) (h : ∀ j, j ≠ i → P j (s.slots j)) (j : Nat) :
    P j ((s.setSlot i v).slots j) := (Function.forall_update_iff s.slots P).2 ⟨hv, h⟩ j

theorem forall_task {P : Nat → Task → Prop} (ht : P k t) (h : ∀ l, l ≠ k → P l (s.task l)) (l : Nat) :
    P l ((s.setTask k t).task l) := (Function.forall_update_iff s.task P).2 ⟨ht, h⟩ l

end Updates

/-! ## The tasks against the calls -/

structure Tidy (s : Registry) : Prop where
  running : s.crashed = false
  idle : ∀ c, s.calls ≤ c → s.call c = .returned
  begun : ∀ k, (s.task k).begun = true → (s.task k).handed = true
  doomed : ∀ k, (s.task k).doomed = true → (s.task k).handed = true
  freed : ∀ k, (s.task k).freed = true → (s.task k).doomed = true
  handed : ∀ k, (s.task k).handed = true → k < s.count
  fresh : ∀ c k, (s.call c).pending = some k → k < s.count ∧ (s.task k).handed = false
  pendingOne : ∀ c d k, (s.call c).pending = some k → (s.call d).pending = some k → c = d
  deleting : ∀ c k, (s.call c).deleting = some k → (s.task k).doomed = true ∧ (s.task k).freed = false
  deletingOne : ∀ c d k, (s.call c).deleting = some k → (s.call d).deleting = some k → c = d
  seeker : ∀ c k i, (s.call c).seeks = some (k, i) → (s.task k).handed = true
  named : ∀ k, k < s.count → cstr (s.task k).name 0 = (s.task k).requested

theorem tidy_init : init.Tidy := by
  constructor <;> simp [init, noTask]

/-- A call goes on with what it had, or takes up a task that no call has. -/
theorem Tidy.goto {s : Registry} (h : s.Tidy) {c : Nat} {y : Call} (hc : s.call c ≠ .returned)
    (hpending : ∀ k, y.pending = some k → (s.call c).pending = some k ∨
      k < s.count ∧ (s.task k).handed = false ∧ ∀ d, (s.call d).pending ≠ some k)
    (hdeleting : ∀ k, y.deleting = some k → (s.call c).deleting = some k)
    (hseeks : ∀ k i, y.seeks = some (k, i) → (s.task k).handed = true) : (s.goto c y).Tidy := by
  have hpend : ∀ d k, ((s.goto c y).call d).pending = some k → (s.call d).pending = some k ∨
      d = c ∧ k < s.count ∧ (s.task k).handed = false ∧ ∀ e, (s.call e).pending ≠ some k :=
    forall_call (P := fun d x => ∀ k, x.pending = some k → (s.call d).pending = some k ∨
      d = c ∧ k < s.count ∧ (s.task k).handed = false ∧ ∀ e, (s.call e).pending ≠ some k)
      (fun k hk => (hpending k hk).imp_right fun hnew => ⟨rfl, hnew⟩) fun _ _ _ => .inl
  have hdel : ∀ d k, ((s.goto c y).call d).deleting = some k → (s.call d).deleting = some k :=
    forall_call (P := fun d x => ∀ k, x.deleting = some k → (s.call d).deleting = some k) hdeleting fun _ _ _ => id
  refine ⟨h.running, fun d hd => ?_, h.begun, h.doomed, h.freed, h.handed, fun d k hk => ?_,
    fun d e k hd he => ?_, fun d k hk => h.deleting d k (hdel d k hk),
    fun d e k hd he => h.deletingOne d e k (hdel d k hd) (hdel e k he), ?_, h.named⟩
  · have hdc : d ≠ c := by
      rintro rfl
      exact hc (h.idle d hd)
    rw [goto_call, if_neg hdc]
    exact h.idle d hd
  · rcases hpend d k hk with hk | ⟨-, hcount, hhanded, -⟩
    · exact h.fresh d k hk
    · exact ⟨hcount, hhanded⟩
  · rcases hpend d k hd with hd | ⟨hdc, -, -, hno⟩ <;> rcases hpend e k he with he | ⟨hec, -, -, hno'⟩
    · exact h.pendingOne d e k hd he
    · exact absurd hd (hno' d)
    · exact absurd he (hno e)
    · rw [hdc, hec]
  · exact forall_call (P := fun _ x => ∀ k i, x.seeks = some (k, i) → (s.task k).handed = true) hseeks
      fun d _ => h.seeker d

/-- A new call, which may be the first to delete a task. -/
theorem Tidy.enter {s : Registry} (h : s.Tidy) {y : Call} (hpending : y.pending = none)
    (hdeleting : ∀ k, y.deleting = some k → (s.task k).doomed = true ∧ (s.task k).freed = false ∧
      ∀ c, (s.call c).deleting ≠ some k)
    (hseeks : ∀ k i, y.seeks = some (k, i) → (s.task k).handed = true) : (s.enter y).Tidy := by
  have hpend : ∀ d k, ((s.enter y).call d).pending = some k → (s.call d).pending = some k :=
    forall_call (s := s) (c := s.calls) (P := fun d x => ∀ k, x.pending = some k → (s.call d).pending = some k)
      (fun k hk => by rw [hpending] at hk; cases hk) fun _ _ _ => id
  have hdel : ∀ d k, ((s.enter y).call d).deleting = some k →
      d = s.calls ∧ y.deleting = some k ∨ (s.call d).deleting = some k :=
    forall_call (s := s) (c := s.calls)
      (P := fun d x => ∀ k, x.deleting = some k → d = s.calls ∧ y.deleting = some k ∨ (s.call d).deleting = some k)
      (fun k hk => .inl ⟨rfl, hk⟩) fun _ _ _ => .inr
  refine ⟨h.running, fun d hd => ?_, h.begun, h.doomed, h.freed, h.handed, fun d k hk => h.fresh d k (hpend d k hk),
    fun d e k hd he => h.pendingOne d e k (hpend d k hd) (hpend e k he), fun d k hk => ?_, fun d e k hd he => ?_,
    ?_, h.named⟩
  · have hlt : s.calls < d := hd
    rw [enter_call, if_neg (Nat.ne_of_gt hlt)]
    exact h.idle d (Nat.le_of_lt hlt)
  · rcases hdel d k hk with ⟨-, hy⟩ | hk
    · obtain ⟨hdoomed, hfreed, -⟩ := hdeleting k hy
      exact ⟨hdoomed, hfreed⟩
    · exact h.deleting d k hk
  · rcases hdel d k hd with ⟨rfl, hy⟩ | hd <;> rcases hdel e k he with ⟨rfl, hy'⟩ | he
    · rfl
    · exact absurd he ((hdeleting k hy).2.2 e)
    · exact absurd hd ((hdeleting k hy').2.2 d)
    · exact h.deletingOne d e k hd he
  · exact forall_call (s := s) (c := s.calls)
      (P := fun _ x => ∀ k i, x.seeks = some (k, i) → (s.task k).handed = true) hseeks fun d _ => h.seeker d

/-- A task changes, but not its name. -/
theorem Tidy.setTask {s : Registry} (h : s.Tidy) {k : Nat} {t : Task} (hbegun : t.begun = true → t.handed = true)
    (hdoomed : t.doomed = true → t.handed = true) (hfreed : t.freed = true → t.doomed = true)
    (hcount : k < s.count) (hhanded : (s.task k).handed = true → t.handed = true)
    (hfresh : ∀ c, (s.call c).pending = some k → t.handed = false)
    (hdel : ∀ c, (s.call c).deleting = some k → t.doomed = true ∧ t.freed = false)
    (hname : t.name = (s.task k).name) (hrequested : t.requested = (s.task k).requested) : (s.setTask k t).Tidy := by
  refine ⟨h.running, h.idle, ?_, ?_, ?_, ?_, fun d l hl => ⟨(h.fresh d l hl).1, ?_⟩, h.pendingOne, fun d => ?_,
    h.deletingOne, fun d l i hl => ?_, ?_⟩
  · exact forall_task (P := fun _ t => t.begun = true → t.handed = true) hbegun fun l _ => h.begun l
  · exact forall_task (P := fun _ t => t.doomed = true → t.handed = true) hdoomed fun l _ => h.doomed l
  · exact forall_task (P := fun _ t => t.freed = true → t.doomed = true) hfreed fun l _ => h.freed l
  · exact forall_task (P := fun l t => t.handed = true → l < s.count) (fun _ => hcount) fun l _ => h.handed l
  · exact forall_task (P := fun l t => (s.call d).pending = some l → t.handed = false) (hfresh d)
      (fun l _ hl => (h.fresh d l hl).2) l hl
  · exact forall_task (P := fun l t => (s.call d).deleting = some l → t.doomed = true ∧ t.freed = false) (hdel d)
      fun l _ => h.deleting d l
  · exact forall_task (P := fun l t => (s.task l).handed = true → t.handed = true) hhanded (fun _ _ => id) l
      (h.seeker d l i hl)
  · refine forall_task (P := fun l t => l < s.count → cstr t.name 0 = t.requested) (fun hk => ?_) fun l _ => h.named l
    rw [hname, hrequested]
    exact h.named k hk

theorem Tidy.setSlot {s : Registry} (h : s.Tidy) (i : Nat) (v : Option Nat) : (s.setSlot i v).Tidy :=
  ⟨h.running, h.idle, h.begun, h.doomed, h.freed, h.handed, h.fresh, h.pendingOne, h.deleting, h.deletingOne,
    h.seeker, h.named⟩

/-- A task that no call and no handle speaks of. -/
theorem Tidy.newTask {s : Registry} (h : s.Tidy) {t : Task} (hbegun : t.begun = false) (hdoomed : t.doomed = false)
    (hfreed : t.freed = false) (hhanded : t.handed = false) (hname : cstr t.name 0 = t.requested) :
    ({ s with count := s.count + 1 }.setTask s.count t : Registry).Tidy := by
  have hkept : ∀ l, l < s.count → ({ s with count := s.count + 1 }.setTask s.count t : Registry).task l = s.task l := by
    intro l hl
    rw [setTask_task, if_neg (Nat.ne_of_lt hl)]
  refine ⟨h.running, h.idle, ?_, ?_, ?_, ?_, fun d k hk => ?_, h.pendingOne, fun d k hk => ?_, h.deletingOne,
    fun d k i hk => ?_, ?_⟩
  · exact forall_task (P := fun _ t => t.begun = true → t.handed = true) (by simp [hbegun]) fun l _ => h.begun l
  · exact forall_task (P := fun _ t => t.doomed = true → t.handed = true) (by simp [hdoomed]) fun l _ => h.doomed l
  · exact forall_task (P := fun _ t => t.freed = true → t.doomed = true) (by simp [hfreed]) fun l _ => h.freed l
  · exact forall_task (P := fun l t => t.handed = true → l < s.count + 1) (by simp [hhanded])
      fun l _ hl => Nat.lt_succ_of_lt (h.handed l hl)
  · obtain ⟨hcount, hfresh⟩ := h.fresh d k hk
    rw [hkept k hcount]
    exact ⟨Nat.lt_succ_of_lt hcount, hfresh⟩
  · obtain ⟨hd, hf⟩ := h.deleting d k hk
    rw [hkept k (h.handed k (h.doomed k hd))]
    exact ⟨hd, hf⟩
  · have hh := h.seeker d k i hk
    rw [hkept k (h.handed k hh)]
    exact hh
  · refine forall_task (P := fun l t => l < s.count + 1 → cstr t.name 0 = t.requested) (fun _ => hname)
      fun l hl hlt => h.named l ?_
    omega

/-- `Task_Create` has copied the name into a new task. -/
theorem Tidy.alloc {s : Registry} (h : s.Tidy) {c : Nat} {name buf : Bytes} (hc : s.call c = .alloc name)
    (hbuf : strcpy (.replicate nameLength 0) (cstr name 0) = some buf) :
    (({ s with count := s.count + 1 }.setTask s.count
      { noTask with name := buf, requested := cstr name 0 }).goto c (.spawn s.count)).Tidy := by
  have hstr : cstr buf 0 = cstr name 0 := by
    refine (strcpy_strAt hbuf fun hmem => ?_).1.cstr_eq
    simpa using List.mem_takeWhile_imp hmem
  have hnew := h.newTask (t := { noTask with name := buf, requested := cstr name 0 }) rfl rfl rfl rfl hstr
  refine hnew.goto ?_ (fun k hk => .inr ?_) (by rintro k ⟨⟩) (by rintro k i ⟨⟩)
  · rw [setTask_call, hc]
    simp
  · cases hk
    refine ⟨Nat.lt_succ_self _, by rw [setTask_task, if_pos rfl]; rfl, fun d hd => ?_⟩
    exact Nat.lt_irrefl _ (h.fresh d _ hd).1

/-! ## The table against the calls -/

structure Sound (s : Registry) : Prop where
  range : ∀ i k, s.slots i = some k → i < MAX_TASKS
  distinct : ∀ i j k, s.slots i = some k → s.slots j = some k → i = j
  /-- No entry is that of a task that is yet to be entered, or has been taken out. -/
  pending : ∀ c i k, (s.call c).pending = some k → s.slots i ≠ some k
  past : ∀ c i k, (s.call c).past = some k → s.slots i ≠ some k
  kept : ∀ i k, s.slots i = some k → (s.task k).freed = false ∧ (s.task k).handed = true
  /-- A task that has been entered and not taken out is there. -/
  known : ∀ k, (s.task k).handed = true → (s.task k).freed = false → (∀ c, (s.call c).past ≠ some k) →
    ∃ i, s.slots i = some k
  seeks : ∀ c k i j, (s.call c).seeks = some (k, i) → s.slots j = some k → i ≤ j
  compares : ∀ c i, (s.call c).compares = some i → s.slots i ≠ none
  holds : ∀ c k i, (s.call c).holds = some (k, i) → s.slots i = some k
  /-- A task that has been found is in no other entry, should it still be in one. -/
  finds : ∀ c k i j, (s.call c).finds = some (k, i) → s.slots j = some k → j = i
  store : ∀ c k i, s.call c = .store k i → i < MAX_TASKS

theorem sound_init : init.Sound := by
  constructor <;> simp [init, noTask]

/-- A call goes on. -/
theorem Sound.goto {s : Registry} (h : s.Sound) {c : Nat} {y : Call}
    (hpending : ∀ i k, y.pending = some k → s.slots i ≠ some k)
    (hpast : ∀ i k, y.past = some k → s.slots i ≠ some k)
    (hknown : ∀ k, (s.call c).past = some k → y.past = some k ∨ (s.task k).freed = true)
    (hseeks : ∀ k i j, y.seeks = some (k, i) → s.slots j = some k → i ≤ j)
    (hcompares : ∀ i, y.compares = some i → s.slots i ≠ none)
    (hholds : ∀ k i, y.holds = some (k, i) → s.slots i = some k)
    (hfinds : ∀ k i j, y.finds = some (k, i) → s.slots j = some k → j = i)
    (hstore : ∀ k i, y = .store k i → i < MAX_TASKS) : (s.goto c y).Sound := by
  constructor
  · exact h.range
  · exact h.distinct
  · exact forall_call (P := fun _ x => ∀ i k, x.pending = some k → s.slots i ≠ some k) hpending
      fun d _ => h.pending d
  · exact forall_call (P := fun _ x => ∀ i k, x.past = some k → s.slots i ≠ some k) hpast fun d _ => h.past d
  · exact h.kept
  · intro k hhanded hfreed hno
    apply h.known k hhanded hfreed
    intro d hd
    by_cases hdc : d = c
    · subst hdc
      rcases hknown k hd with hy | hy
      · exact hno d (by simpa using hy)
      · rw [goto_task, hy] at hfreed; cases hfreed
    · exact hno d (by simpa [hdc] using hd)
  · exact forall_call (P := fun _ x => ∀ k i j, x.seeks = some (k, i) → s.slots j = some k → i ≤ j) hseeks
      fun d _ => h.seeks d
  · exact forall_call (P := fun _ x => ∀ i, x.compares = some i → s.slots i ≠ none) hcompares
      fun d _ => h.compares d
  · exact forall_call (P := fun _ x => ∀ k i, x.holds = some (k, i) → s.slots i = some k) hholds fun d _ => h.holds d
  · exact forall_call (P := fun _ x => ∀ k i j, x.finds = some (k, i) → s.slots j = some k → j = i) hfinds
      fun d _ => h.finds d
  · exact forall_call (P := fun _ x => ∀ k i, x = .store k i → i < MAX_TASKS) hstore fun d _ => h.store d

theorem Sound.setTask {s : Registry} (h : s.Sound) {k : Nat} {t : Task}
    (hkept : ∀ i, s.slots i = some k → t.freed = false ∧ t.handed = true)
    (hknown : t.handed = true → t.freed = false → (s.task k).handed = true ∧ (s.task k).freed = false) :
    (s.setTask k t).Sound := by
  constructor
  · exact h.range
  · exact h.distinct
  · exact h.pending
  · exact h.past
  · exact fun i l => forall_task (P := fun l t => s.slots i = some l → t.freed = false ∧ t.handed = true) (hkept i)
      (fun l _ => h.kept i l) l
  · intro l hhanded hfreed hno
    obtain ⟨hh, hf⟩ := forall_task
      (P := fun l t => t.handed = true → t.freed = false → (s.task l).handed = true ∧ (s.task l).freed = false)
      hknown (fun l _ hh hf => ⟨hh, hf⟩) l hhanded hfreed
    exact h.known l hh hf hno
  · exact h.seeks
  · exact h.compares
  · exact h.holds
  · exact h.finds
  · exact h.store

/-- A new call has nothing out of the table yet. -/
theorem Sound.enter {s : Registry} (h : s.Sound) (ht : s.Tidy) {y : Call} (hpending : y.pending = none)
    (hpast : y.past = none) (hseeks : ∀ k i j, y.seeks = some (k, i) → s.slots j = some k → i ≤ j)
    (hcompares : y.compares = none) (hholds : y.holds = none) (hfinds : y.finds = none)
    (hstore : ∀ k i, y ≠ .store k i) : (s.enter y).Sound := by
  have hidle := ht.idle s.calls (Nat.le_refl _)
  have hgoto : (s.goto s.calls y).Sound := by
    apply h.goto
    · rw [hpending]; rintro i k ⟨⟩
    · rw [hpast]; rintro i k ⟨⟩
    · rw [hidle]; rintro k ⟨⟩
    · exact hseeks
    · rw [hcompares]; rintro i ⟨⟩
    · rw [hholds]; rintro k i ⟨⟩
    · rw [hfinds]; rintro k i j ⟨⟩
    · exact fun k i heq => absurd heq (hstore k i)
  exact ⟨hgoto.range, hgoto.distinct, hgoto.pending, hgoto.past, hgoto.kept, hgoto.known, hgoto.seeks,
    hgoto.compares, hgoto.holds, hgoto.finds, hgoto.store⟩

theorem Sound.alloc {s : Registry} (h : s.Sound) (ht : s.Tidy) {c : Nat} {name : Bytes} (buf : Bytes)
    (hc : s.call c = .alloc name) :
    (({ s with count := s.count + 1 }.setTask s.count
      { noTask with name := buf, requested := cstr name 0 }).goto c (.spawn s.count)).Sound := by
  have hnew : ∀ i, s.slots i ≠ some s.count := fun i hi => Nat.lt_irrefl _ (ht.handed _ (h.kept i _ hi).2)
  have hcount : ({ s with count := s.count + 1 } : Registry).Sound :=
    ⟨h.range, h.distinct, h.pending, h.past, h.kept, h.known, h.seeks, h.compares, h.holds, h.finds, h.store⟩
  have htask := hcount.setTask (k := s.count) (t := { noTask with name := buf, requested := cstr name 0 })
    (fun i hi => absurd hi (hnew i)) (by rintro ⟨⟩)
  apply htask.goto
  · intro i k hk
    cases hk
    exact hnew i
  · rintro i k ⟨⟩
  · intro k hk
    have hpast : (s.call c).past = some k := hk
    rw [hc] at hpast
    cases hpast
  · rintro k i j ⟨⟩
  · rintro i ⟨⟩
  · rintro k i ⟨⟩
  · rintro k i j ⟨⟩
  · rintro k i ⟨⟩

/-- A task that is out of the table is being deleted. -/
theorem deleting_of_past {x : Call} {k : Nat} (h : x.past = some k) : x.deleting = some k := by
  cases x with
  | cancel | free => exact h
  | _ => cases h

theorem seeks_of_finds {x : Call} {k i : Nat} (h : x.finds = some (k, i)) : x.seeks = some (k, i) := by
  cases x with
  | load => exact h
  | _ => cases h

/-- A call that holds a task compares it, or is about to take it out. -/
theorem holds_cases {x : Call} {k i : Nat} (h : x.holds = some (k, i)) :
    x.compares = some i ∨ x.deleting = some k := by
  cases x with
  | read => cases h; exact .inl rfl
  | clear => cases h; exact .inr rfl
  | _ => cases h

/-- `Task_Create` enters its task and returns the handle. -/
theorem Sound.enterTask {s : Registry} (h : s.Sound) (ht : s.Tidy) {c k i : Nat} (hc : s.call c = .store k i)
    (hfree : s.slots i = none) : (((s.setSlot i (some k)).hand k).goto c .returned).Sound := by
  have hpending : (s.call c).pending = some k := by rw [hc]; rfl
  obtain ⟨-, hfresh⟩ := ht.fresh c k hpending
  have hdoomed : (s.task k).doomed ≠ true := fun hd => by rw [ht.doomed k hd] at hfresh; cases hfresh
  have hfreed : (s.task k).freed = false := Bool.eq_false_iff.2 fun hf => hdoomed (ht.freed k hf)
  have hpast : ∀ d, (s.call d).past ≠ some k := fun d hd =>
    hdoomed (ht.deleting d k (deleting_of_past hd)).1
  have hnone : ∀ j, s.slots j ≠ some k := fun j => h.pending c j k hpending
  have hslot : ∀ j l, (s.setSlot i (some k)).slots j = some l → j = i ∧ l = k ∨ s.slots j = some l :=
    forall_slot (P := fun j v => ∀ l, v = some l → j = i ∧ l = k ∨ s.slots j = some l)
      (fun l hl => .inl ⟨rfl, (Option.some.inj hl).symm⟩) fun _ _ _ => .inr
  constructor
  · intro j l hj
    rcases hslot j l hj with ⟨rfl, -⟩ | hj
    · exact h.store c k j hc
    · exact h.range j l hj
  · intro j j' l hj hj'
    rcases hslot j l hj with ⟨hji, hlk⟩ | hj <;> rcases hslot j' l hj' with ⟨hji', hlk'⟩ | hj'
    · rw [hji, hji']
    · exact absurd (hlk ▸ hj') (hnone j')
    · exact absurd (hlk' ▸ hj) (hnone j)
    · exact h.distinct j j' l hj hj'
  · refine fun d j l => forall_call
      (P := fun _ x => x.pending = some l → (s.setSlot i (some k)).slots j ≠ some l) (by rintro ⟨⟩)
      (fun d hdc hd hj => ?_) d
    rcases hslot j l hj with ⟨-, rfl⟩ | hj
    · exact hdc (ht.pendingOne d c l hd hpending)
    · exact h.pending d j l hd hj
  · refine fun d j l => forall_call
      (P := fun _ x => x.past = some l → (s.setSlot i (some k)).slots j ≠ some l) (by rintro ⟨⟩)
      (fun d _ hd hj => ?_) d
    rcases hslot j l hj with ⟨-, rfl⟩ | hj
    · exact hpast d hd
    · exact h.past d j l hd hj
  · intro j l hj
    rcases hslot j l hj with ⟨-, rfl⟩ | hold
    · simp [hand, hfreed]
    · have hlk : l ≠ k := by
        rintro rfl
        exact hnone j hold
      simpa [hand, hlk] using h.kept j l hold
  · intro l hl hlfreed hno
    by_cases hlk : l = k
    · subst hlk
      exact ⟨i, by simp [hand]⟩
    · have hno' : ∀ d, (s.call d).past ≠ some l := fun d hd => by
        by_cases hdc : d = c
        · rw [hdc, hc] at hd
          cases hd
        · exact hno d (by simpa [hand, hdc] using hd)
      obtain ⟨j, hj⟩ := h.known l (by simpa [hand, hlk] using hl) (by simpa [hand, hlk] using hlfreed) hno'
      refine ⟨j, ?_⟩
      have hji : j ≠ i := fun heq => by rw [heq, hfree] at hj; cases hj
      simp [hand, hji, hj]
  · refine fun d l j j' => forall_call
      (P := fun _ x => x.seeks = some (l, j) → (s.setSlot i (some k)).slots j' = some l → j ≤ j') (by rintro ⟨⟩)
      (fun d _ hd hj => ?_) d
    rcases hslot j' l hj with ⟨-, rfl⟩ | hj
    · rw [ht.seeker d l j hd] at hfresh
      cases hfresh
    · exact h.seeks d l j j' hd hj
  · refine forall_call (P := fun _ x => ∀ j, x.compares = some j → (s.setSlot i (some k)).slots j ≠ none)
      (by rintro j ⟨⟩) fun d _ j hd => ?_
    exact forall_slot (P := fun j v => s.slots j ≠ none → v ≠ none) (fun _ => by simp) (fun _ _ => id) j
      (h.compares d j hd)
  · refine forall_call (P := fun _ x => ∀ l j, x.holds = some (l, j) → (s.setSlot i (some k)).slots j = some l)
      (by rintro l j ⟨⟩) fun d _ l j hd => ?_
    have hj := h.holds d l j hd
    have hji : j ≠ i := by
      rintro rfl
      rw [hfree] at hj
      cases hj
    rw [setSlot_slots, if_neg hji]
    exact hj
  · refine fun d l j j' => forall_call
      (P := fun _ x => x.finds = some (l, j) → (s.setSlot i (some k)).slots j' = some l → j' = j) (by rintro ⟨⟩)
      (fun d _ hd hj => ?_) d
    rcases hslot j' l hj with ⟨-, rfl⟩ | hj
    · rw [ht.seeker d l j (seeks_of_finds hd)] at hfresh
      cases hfresh
    · exact h.finds d l j j' hd hj
  · exact forall_call (P := fun _ x => ∀ l j, x = .store l j → j < MAX_TASKS) (by rintro l j ⟨⟩)
      fun d _ => h.store d

/-- `Task_Delete` takes its task out. -/
theorem Sound.takeOut {s : Registry} (h : s.Sound) (ht : s.Tidy) {c k i : Nat} {caller : Option Nat}
    (hc : s.call c = .clear caller k i) (hno : ∀ d, (s.call d).compares ≠ some i) :
    ((s.setSlot i none).goto c (.cancel caller k)).Sound := by
  have hslot := h.holds c k i (by rw [hc]; rfl)
  have hdeleting : (s.call c).deleting = some k := by rw [hc]; rfl
  have hold : ∀ j l, (s.setSlot i none).slots j = some l → j ≠ i ∧ s.slots j = some l :=
    forall_slot (P := fun j v => ∀ l, v = some l → j ≠ i ∧ s.slots j = some l) (by rintro l ⟨⟩)
      fun _ hji _ hj => ⟨hji, hj⟩
  constructor
  · exact fun j l hj => h.range j l (hold j l hj).2
  · exact fun j j' l hj hj' => h.distinct j j' l (hold j l hj).2 (hold j' l hj').2
  · exact forall_call (P := fun _ x => ∀ j l, x.pending = some l → (s.setSlot i none).slots j ≠ some l)
      (by rintro j l ⟨⟩) fun d _ j l hd hj => h.pending d j l hd (hold j l hj).2
  · refine forall_call (P := fun _ x => ∀ j l, x.past = some l → (s.setSlot i none).slots j ≠ some l) ?_
      fun d _ j l hd hj => h.past d j l hd (hold j l hj).2
    intro j l hl hj
    cases hl
    obtain ⟨hji, hj⟩ := hold j k hj
    exact hji (h.distinct j i k hj hslot)
  · exact fun j l hj => h.kept j l (hold j l hj).2
  · intro l hl hlfreed hpast
    have hlk : l ≠ k := fun heq => hpast c (by simp [heq])
    have hpast' : ∀ d, (s.call d).past ≠ some l := fun d hd => by
      by_cases hdc : d = c
      · rw [hdc, hc] at hd
        cases hd
      · exact hpast d (by simpa [hdc] using hd)
    obtain ⟨j, hj⟩ := h.known l (by simpa using hl) (by simpa using hlfreed) hpast'
    refine ⟨j, ?_⟩
    have hji : j ≠ i := fun heq => by rw [heq, hslot] at hj; exact hlk (Option.some.inj hj).symm
    simp [hji, hj]
  · exact forall_call (P := fun _ x => ∀ l j j', x.seeks = some (l, j) → (s.setSlot i none).slots j' = some l → j ≤ j')
      (by rintro l j j' ⟨⟩) fun d _ l j j' hd hj => h.seeks d l j j' hd (hold j' l hj).2
  · refine forall_call (P := fun _ x => ∀ j, x.compares = some j → (s.setSlot i none).slots j ≠ none)
      (by rintro j ⟨⟩) fun d _ j hd => ?_
    have hji : j ≠ i := by
      rintro rfl
      exact hno d hd
    rw [setSlot_slots, if_neg hji]
    exact h.compares d j hd
  · refine forall_call (P := fun _ x => ∀ l j, x.holds = some (l, j) → (s.setSlot i none).slots j = some l)
      (by rintro l j ⟨⟩) fun d hdc l j hd => ?_
    have hj := h.holds d l j hd
    have hji : j ≠ i := by
      rintro rfl
      rw [hslot] at hj
      cases hj
      rcases holds_cases hd with hcompares | hdel
      · exact hno d hcompares
      · -- two calls would be deleting one task
        exact hdc (ht.deletingOne d c k hdel hdeleting)
    rw [setSlot_slots, if_neg hji]
    exact hj
  · exact forall_call (P := fun _ x => ∀ l j j', x.finds = some (l, j) → (s.setSlot i none).slots j' = some l → j' = j)
      (by rintro l j j' ⟨⟩) fun d _ l j j' hd hj => h.finds d l j j' hd (hold j' l hj).2
  · exact forall_call (P := fun _ x => ∀ l j, x = .store l j → j < MAX_TASKS) (by rintro l j ⟨⟩)
      fun d _ => h.store d

/-! ## What the calls return -/

/-- What a call that has found its task, or has returned, says of it. -/
def CallGood (s : Registry) : Call → Prop
  | .gotSelf (some me) r => r = some me ∨ (s.task me).doomed = true
  | .gotName (some me) r => (s.task me).handed = true ∧ (r = some (s.task me).requested ∨ (s.task me).doomed = true)
  | .foundNone (some _) => False
  | .find (some me) k _ | .clear (some me) k _ | .cancel (some me) k | .free (some me) k => k = me
  | _ => True

structure Good (s : Registry) : Prop extends Tidy s, Sound s where
  answers : ∀ c, s.CallGood (s.call c)

theorem good_init : init.Good := ⟨tidy_init, sound_init, fun _ => trivial⟩

/-- Tasks that keep what they were asked for, and stay doomed. -/
theorem callGood_mono {s s' : Registry} (h : ∀ k, (s.task k).handed = true → (s'.task k).handed = true ∧
    (s'.task k).requested = (s.task k).requested) (hd : ∀ k, (s.task k).doomed = true → (s'.task k).doomed = true)
    {x : Call} (hx : s.CallGood x) : s'.CallGood x := by
  unfold CallGood at hx ⊢
  split at hx
  · exact hx.imp_right (hd _)
  · obtain ⟨hhanded, hr⟩ := hx
    obtain ⟨hhanded', hreq⟩ := h _ hhanded
    exact ⟨hhanded', hreq ▸ hr.imp_right (hd _)⟩
  · cases hx
  all_goals exact hx

theorem answers_goto {s s' : Registry} (h : s.Good) {c : Nat} {y : Call} (hcall : s'.call = s.call)
    (hkeep : ∀ k, (s.task k).handed = true → (s'.task k).handed = true ∧
      (s'.task k).requested = (s.task k).requested)
    (hd : ∀ k, (s.task k).doomed = true → (s'.task k).doomed = true) (hy : s'.CallGood y) (d : Nat) :
    (s'.goto c y).CallGood ((s'.goto c y).call d) := by
  rw [goto_call]
  split
  · exact callGood_mono (fun _ hh => ⟨hh, rfl⟩) (fun _ => id) hy
  · rw [hcall]
    exact callGood_mono (s := s) hkeep hd (h.answers d)

/-- A call goes on with what it had, and what it says holds. -/
theorem Good.goto {s : Registry} (h : s.Good) {c : Nat} {x y : Call} (hc : s.call c = x) (hx : x ≠ .returned)
    (hpending : ∀ k, y.pending = some k → x.pending = some k)
    (hdeleting : ∀ k, y.deleting = some k → x.deleting = some k)
    (hpast : ∀ k, y.past = some k → x.past = some k ∨ ∀ i, s.slots i ≠ some k)
    (hknown : ∀ k, x.past = some k → y.past = some k ∨ (s.task k).freed = true)
    (hseeks : ∀ k i, y.seeks = some (k, i) → (∃ i', x.seeks = some (k, i')) ∧ ∀ j, s.slots j = some k → i ≤ j)
    (hcompares : ∀ i, y.compares = some i → s.slots i ≠ none)
    (hholds : ∀ k i, y.holds = some (k, i) → s.slots i = some k)
    (hfinds : ∀ k i, y.finds = some (k, i) → s.slots i = some k)
    (hstore : ∀ k i, y = .store k i → i < MAX_TASKS) (hy : s.CallGood y) : (s.goto c y).Good := by
  subst hc
  refine ⟨h.toTidy.goto hx (fun k hk => .inl (hpending k hk)) hdeleting fun k i hk => ?_,
    h.toSound.goto ?_ ?_ hknown ?_ hcompares hholds ?_ hstore,
    answers_goto h rfl (fun _ hh => ⟨hh, rfl⟩) (fun _ => id) hy⟩
  · obtain ⟨⟨i', hi'⟩, -⟩ := hseeks k i hk
    exact h.seeker c k i' hi'
  · exact fun i k hk => h.pending c i k (hpending k hk)
  · intro i k hk
    rcases hpast k hk with hx' | hno
    · exact h.past c i k hx'
    · exact hno i
  · exact fun k i j hk => (hseeks k i hk).2 j
  · exact fun k i j hk hj => h.distinct j i k hj (hfinds k i hk)

/-! ## The steps -/

/-- `Task_GetSelf` comes away without the caller's own task: it is not that of a live thread. -/
theorem Good.notFound {s : Registry} (h : s.Good) {c k : Nat} (hhanded : (s.task k).handed = true)
    (hno : ∀ j, s.slots j ≠ some k) (hpast : (s.call c).past = none) :
    (s.task k).doomed = true ∧ (s.call c).deleting ≠ some k := by
  -- it has been freed, or another call has taken it out of the table
  by_cases hfreed : (s.task k).freed = true
  · refine ⟨h.freed k hfreed, fun hdel => ?_⟩
    have hfalse := (h.deleting c k hdel).2
    rw [hfreed] at hfalse
    cases hfalse
  · have hout : ∃ d, (s.call d).past = some k := by
      by_contra hnone
      obtain ⟨j, hj⟩ := h.known k hhanded (Bool.eq_false_iff.2 hfreed) fun d hd => hnone ⟨d, hd⟩
      exact hno j hj
    obtain ⟨d, hd⟩ := hout
    refine ⟨(h.deleting d k (deleting_of_past hd)).1, fun hdel => ?_⟩
    have hdc := h.deletingOne c d k hdel (deleting_of_past hd)
    rw [← hdc, hpast] at hd
    cases hd

theorem Good.create {s s' : Registry} (h : s.Good) {c : Nat} {ok : Bool} {x : Call} (hc : s.call c = x)
    (ho : s.Orderly (.step c ok)) (hx : (∃ name, x = .alloc name) ∨ x.pending ≠ none)
    (hs : s.advance c ok x = some s') : s'.Good := by
  simp only [Orderly, hc] at ho
  cases x with
  | alloc name =>
    have hfits : ∃ buf, strcpy (.replicate nameLength 0) (cstr name 0) = some buf := by
      unfold strcpy
      rw [if_pos (by rw [List.length_replicate]; exact ho)]
      exact ⟨_, rfl⟩
    obtain ⟨buf, hbuf⟩ := hfits
    simp only [advance, hbuf] at hs
    cases hs
    have hnew : ∀ k, (s.task k).handed = true → k ≠ s.count := fun k hk => Nat.ne_of_lt (h.handed k hk)
    refine ⟨h.toTidy.alloc hc hbuf, h.toSound.alloc h.toTidy buf hc, answers_goto h rfl (fun k hk => ?_)
      (fun k hk => ?_) trivial⟩
    · have hne := hnew k hk
      simp [hne, hk]
    · have hne := hnew k (h.doomed k hk)
      simp [hne, hk]
  | spawn k =>
    have hpending : (s.call c).pending = some k := by rw [hc]; rfl
    obtain ⟨hcount, hfresh⟩ := h.fresh c k hpending
    simp only [advance] at hs
    split at hs <;> cases hs
    · have hspawned : (s.setTask k { s.task k with spawned := true }).Good := by
        refine ⟨h.toTidy.setTask (h.begun k) (h.doomed k) (h.freed k) hcount id (fun d hd => (h.fresh d k hd).2)
          (fun d hd => h.deleting d k hd) rfl rfl, h.toSound.setTask (fun i hi => h.kept i k hi)
          (fun hh hf => ⟨hh, hf⟩), fun d => callGood_mono (fun l hl => ?_) (fun l hl => ?_) (h.answers d)⟩
        · by_cases hlk : l = k <;> simp_all
        · by_cases hlk : l = k <;> simp_all
      refine hspawned.goto (x := .spawn k) hc (by simp) (fun _ => id) ?_ ?_ ?_ ?_ ?_ ?_ ?_ ?_ trivial <;> simp
    · refine h.goto hc (by simp) ?_ ?_ ?_ ?_ ?_ ?_ ?_ ?_ ?_ trivial <;> simp
  | test k i =>
    simp only [advance, if_pos (show i < MAX_TASKS from ho)] at hs
    split at hs <;> cases hs
    · refine h.goto hc (by simp) (fun _ => id) ?_ ?_ ?_ ?_ ?_ ?_ ?_ ?_ trivial <;> simp
      exact ho
    · refine h.goto hc (by simp) (fun _ => id) ?_ ?_ ?_ ?_ ?_ ?_ ?_ ?_ trivial <;> simp
  | store k i =>
    cases hs
    have hpending : (s.call c).pending = some k := by rw [hc]; rfl
    obtain ⟨hcount, -⟩ := h.fresh c k hpending
    refine ⟨?_, h.toSound.enterTask h.toTidy hc ho, answers_goto h rfl (fun l hl => ?_) (fun l hl => ?_) trivial⟩
    · -- the call lets go of the task before the handle is returned
      have hgone : ((s.setSlot i (some k)).goto c .returned).Tidy :=
        (h.toTidy.setSlot i (some k)).goto (by rw [setSlot_call, hc]; simp) (by simp) (by simp) (by simp)
      refine hgone.setTask (k := k) (t := { s.task k with handed := true }) (fun _ => rfl) (fun _ => rfl) (h.freed k)
        hcount (fun _ => rfl) (fun d hd => ?_) (fun d hd => hgone.deleting d k hd) rfl rfl
      have hdc : d = c := by
        by_contra hne
        refine hne (h.pendingOne d c k ?_ hpending)
        simpa [hne] using hd
      simp [hdc] at hd
    · by_cases hlk : l = k <;> simp_all [hand]
    · by_cases hlk : l = k <;> simp_all [hand]
  | _ => simp at hx

/-- A call of `Task_GetSelf` at entry `i`. -/
inductive Scans (me : Option Nat) (why : Purpose) (i : Nat) : Call → Prop
  | look : Scans me why i (.look me why i)
  | compare : Scans me why i (.compare me why i)
  | read (k : Nat) : Scans me why i (.read me why i k)
  | load (k : Nat) (hk : me = some k) : Scans me why i (.load k why i)

section Scans

variable {me : Option Nat} {why : Purpose} {i : Nat} {x : Call}

theorem Scans.idle (h : Scans me why i x) : x ≠ .returned ∧ x.pending = none ∧ x.past = none := by
  cases h <;> exact ⟨by simp, rfl, rfl⟩

theorem Scans.deleting (h : Scans me why i x) : x.deleting = if why = .delete then me else none := by
  cases h with
  | load k hk => subst hk; cases why <;> rfl
  | _ => cases why <;> rfl

theorem Scans.seeks (h : Scans me why i x) : x.seeks = me.map fun k => (k, i) := by
  cases h with
  | load k hk => subst hk; rfl
  | _ => cases me <;> rfl

theorem Scans.store (h : Scans me why i x) (k j : Nat) : x ≠ .store k j := by
  cases h <;> simp

theorem Scans.callGood (h : Scans me why i x) (s : Registry) : s.CallGood x := by
  cases h <;> trivial

end Scans

/-- The scan goes on at this entry, or at the next when this one is not that of the caller's task. -/
theorem Good.scanOn {s : Registry} (h : s.Good) {c i j : Nat} {me : Option Nat} {why : Purpose} {x y : Call}
    (hc : s.call c = x) (hx : Scans me why i x) (hy : Scans me why j y)
    (hj : j = i ∨ j = i + 1 ∧ ∀ k, me = some k → s.slots i ≠ some k)
    (hcompares : ∀ l, y.compares = some l → s.slots l ≠ none)
    (hholds : ∀ k l, y.holds = some (k, l) → s.slots l = some k)
    (hfinds : ∀ k l, y.finds = some (k, l) → s.slots l = some k) : (s.goto c y).Good := by
  obtain ⟨hreturned, -, hpast⟩ := hx.idle
  obtain ⟨-, hpending', hpast'⟩ := hy.idle
  refine h.goto hc hreturned ?_ ?_ ?_ ?_ (fun k l hk => ?_) hcompares hholds hfinds
    (fun k l he => absurd he (hy.store k l)) (hy.callGood s)
  · rw [hpending']; rintro k ⟨⟩
  · rw [hy.deleting, hx.deleting]; exact fun _ => id
  · rw [hpast']; rintro k ⟨⟩
  · rw [hpast]; rintro k ⟨⟩
  · rw [hy.seeks] at hk
    obtain ⟨m, hme, hm⟩ := Option.map_eq_some_iff.1 hk
    cases hm
    have hseeks : x.seeks = some (k, i) := by rw [hx.seeks, hme]; rfl
    refine ⟨⟨i, hseeks⟩, fun l hl => ?_⟩
    have hle : i ≤ l := h.toSound.seeks c k i l (by rw [hc]; exact hseeks) hl
    rcases hj with rfl | ⟨rfl, hne⟩
    · exact hle
    · rcases Nat.eq_or_lt_of_le hle with rfl | hlt
      · exact absurd hl (hne k hme)
      · exact hlt

/-- A call that has taken nothing out of the table comes back with a result. -/
theorem Good.ends {s : Registry} (h : s.Good) {c : Nat} {x y : Call} (hc : s.call c = x) (hx : x ≠ .returned)
    (hpast : x.past = none) (hend : (∃ me r, y = .gotSelf me r) ∨ (∃ me r, y = .gotName me r) ∨ ∃ me, y = .foundNone me)
    (hy : s.CallGood y) : (s.goto c y).Good := by
  have hknown : ∀ k, x.past = some k → y.past = some k ∨ (s.task k).freed = true := by
    rw [hpast]
    rintro k ⟨⟩
  rcases hend with ⟨me, r, rfl⟩ | ⟨me, r, rfl⟩ | ⟨me, rfl⟩
  all_goals
    exact h.goto hc hx (by simp) (by simp) (by simp) hknown (by simp) (by simp) (by simp) (by simp) (by simp) hy

/-- The caller has its answer: its own task, or it is not that of a live one. -/
theorem Good.answer {s : Registry} (h : s.Good) {c i : Nat} {x : Call} {me : Option Nat} {why : Purpose}
    {r : Option Nat} (hc : s.call c = x) (hx : Scans me why i x) (hnobody : me = none → r = none)
    (hself : ∀ k, me = some k → r = some k ∨ ∀ j, s.slots j ≠ some k) : (s.answer c me why r).Good := by
  obtain ⟨hreturned, -, hpast⟩ := hx.idle
  have hhanded : ∀ k, me = some k → (s.task k).handed = true := fun k hk =>
    h.seeker c k i (by rw [hc, hx.seeks, hk]; rfl)
  have hgood : ∀ k, me = some k → r = some k ∨ (s.task k).doomed = true ∧ why ≠ .delete := fun k hk =>
    (hself k hk).imp_right fun hno => by
      obtain ⟨hdoomed, hdel⟩ := h.notFound (c := c) (hhanded k hk) hno (by rw [hc]; exact hpast)
      refine ⟨hdoomed, fun hwhy => hdel ?_⟩
      rw [hc, hx.deleting, if_pos hwhy, hk]
  unfold Registry.answer
  split
  · refine h.ends hc hreturned hpast (.inl ⟨me, r, rfl⟩) ?_
    cases me with
    | none => trivial
    | some k => exact (hgood k rfl).imp_right And.left
  · refine h.ends hc hreturned hpast (.inr (.inl ⟨me, _, rfl⟩)) ?_
    cases me with
    | none => trivial
    | some k =>
      refine ⟨hhanded k rfl, (hgood k rfl).imp (fun hr => ?_) And.left⟩
      rw [hr, Option.map_some, h.named k (h.handed k (hhanded k rfl))]
  · -- the task that it goes on with is the caller's own
    rename_i k
    obtain ⟨m, rfl⟩ : ∃ m, me = some m := Option.ne_none_iff_exists'.1 fun hnone => by cases hnobody hnone
    obtain ⟨⟨⟩⟩ : some k = some m := (hgood m rfl).resolve_right fun hd => hd.2 rfl
    refine h.goto hc hreturned (by simp) (fun l hl => ?_) (by simp) (fun l hl => ?_) (fun l j hl => ?_) (by simp)
      (by simp) (by simp) (by simp) rfl
    · rw [hx.deleting]; exact hl
    · rw [hpast] at hl; cases hl
    · cases hl
      exact ⟨⟨i, hx.seeks⟩, fun j _ => Nat.zero_le j⟩
  · -- `Task_Delete(NULL)` of a started thread does not come back without a task
    refine h.ends hc hreturned hpast (.inr (.inr ⟨me, rfl⟩)) ?_
    cases me with
    | none => trivial
    | some k =>
      rcases hgood k rfl with hr | ⟨-, hwhy⟩
      · cases hr
      · exact absurd rfl hwhy

theorem Good.scan {s s' : Registry} (h : s.Good) {c i : Nat} {ok : Bool} {me : Option Nat} {why : Purpose} {x : Call}
    (hc : s.call c = x) (hx : Scans me why i x) (hs : s.advance c ok x = some s') : s'.Good := by
  cases hx with
  | look =>
    simp only [advance] at hs
    split at hs
    · split at hs <;> cases hs
      · rename_i hslot
        refine h.scanOn hc .look .look (.inr ⟨rfl, fun k _ => ?_⟩) ?_ ?_ ?_
        · rw [hslot]; simp
        all_goals simp
      · rename_i hslot
        refine h.scanOn hc .look .compare (.inl rfl) (fun l hl => ?_) ?_ ?_
        · cases hl
          exact hslot
        all_goals simp
    · rename_i hi
      cases hs
      refine h.answer hc .look (fun _ => rfl) fun k hk => .inr fun j hj => ?_
      subst hk
      have hle := h.toSound.seeks c k i j (by rw [hc]; rfl) hj
      have hlt := h.range j k hj
      omega
  | compare =>
    have hslot : s.slots i ≠ none := h.compares c i (by rw [hc]; rfl)
    simp only [advance] at hs
    split at hs <;> cases hs
    · rename_i hnull
      exact absurd hnull hslot
    · rename_i k hk
      refine h.scanOn hc .compare (.read k) (.inl rfl) (fun l hl => ?_) (fun m l hl => ?_) ?_
      · cases hl
        exact hslot
      · cases hl
        exact hk
      · simp
  | read k =>
    -- the entry has not been cleared since it was read, and a task in the table is not freed
    have hslot : s.slots i = some k := h.holds c k i (by rw [hc]; rfl)
    simp only [advance, if_neg (show ¬ (s.task k).freed = true by rw [(h.kept i k hslot).1]; simp)] at hs
    split at hs <;> cases hs
    · rename_i hme
      refine h.scanOn hc (.read k) (.load k hme) (.inl rfl) ?_ ?_ fun m l hl => ?_
      · simp
      · simp
      · cases hl
        exact hslot
    · rename_i hme
      refine h.scanOn hc (.read k) .look (.inr ⟨rfl, fun m hm hm' => hme ?_⟩) ?_ ?_ ?_
      · rw [hm, ← hm', hslot]
      all_goals simp
  | load k hk =>
    subst hk
    cases hs
    refine h.answer hc (.load k rfl) (by rintro ⟨⟩) fun m hm => ?_
    cases hm
    by_cases hslot : s.slots i = some k
    · exact .inl hslot
    · refine .inr fun j hj => hslot ?_
      rw [← h.finds c k i j (by rw [hc]; rfl) hj]
      exact hj

theorem Good.remove {s s' : Registry} (h : s.Good) {c : Nat} {ok : Bool} {x : Call} (hc : s.call c = x)
    (ho : s.Orderly (.step c ok))
    (hx : (∃ f k i, x = .find f k i ∨ x = .clear f k i) ∨ x.past ≠ none) (hs : s.advance c ok x = some s') :
    s'.Good := by
  have hgood := h.answers c
  rw [hc] at hgood
  simp only [Orderly, hc] at ho
  cases x with
  | find caller k i =>
    have hfrom : ∀ j, s.slots j = some k → i ≤ j := fun j hj =>
      h.toSound.seeks c k i j (by rw [hc]; rfl) hj
    have hcaller : ∀ y, (y = .find caller k (i + 1) ∨ y = .clear caller k i ∨ y = .cancel caller k) →
        s.CallGood y := by
      rintro y (rfl | rfl | rfl) <;> cases caller <;> exact hgood
    simp only [advance] at hs
    split at hs
    · split at hs <;> cases hs
      · rename_i hslot
        refine h.goto hc (by simp) (by simp) (fun _ => id) (by simp) (by simp) (fun l j hl => ?_) (by simp)
          (fun l j hl => ?_) (by simp) (by simp) (hcaller _ (.inr (.inl rfl)))
        · cases hl
          exact ⟨⟨i, rfl⟩, hfrom⟩
        · cases hl
          exact hslot
      · rename_i hslot
        refine h.goto hc (by simp) (by simp) (fun _ => id) (by simp) (by simp) (fun l j hl => ?_) (by simp) (by simp)
          (by simp) (by simp) (hcaller _ (.inl rfl))
        cases hl
        refine ⟨⟨i, rfl⟩, fun j hj => ?_⟩
        rcases Nat.eq_or_lt_of_le (hfrom j hj) with rfl | hlt
        · exact absurd hj hslot
        · exact hlt
    · rename_i hi
      cases hs
      refine h.goto hc (by simp) (by simp) (fun _ => id) (fun l hl => .inr fun j hj => ?_) (by simp) (by simp)
        (by simp) (by simp) (by simp) (by simp) (hcaller _ (.inr (.inr rfl)))
      cases hl
      have hle := hfrom j hj
      have hlt := h.range j k hj
      omega
  | clear caller k i =>
    cases hs
    have hno : ∀ d, (s.call d).compares ≠ some i := fun d hd => by
      rcases Nat.lt_or_ge d s.calls with hlt | hge
      · exact ho d hlt hd
      · rw [h.idle d hge] at hd
        cases hd
    refine ⟨(h.toTidy.setSlot i none).goto (by rw [setSlot_call, hc]; simp) (by simp) (fun l hl => ?_) (by simp),
      h.toSound.takeOut h.toTidy hc hno, answers_goto h rfl (fun _ hh => ⟨hh, rfl⟩) (fun _ => id) ?_⟩
    · rw [setSlot_call, hc]
      exact hl
    · cases caller <;> exact hgood
  | cancel caller k =>
    have hfreed := (h.deleting c k (by rw [hc]; rfl)).2
    simp only [advance, if_neg (show ¬ (s.task k).freed = true by rw [hfreed]; simp)] at hs
    cases hs
    refine h.goto hc (by simp) (by simp) (fun _ => id) (fun l hl => .inl hl) (fun l hl => .inl hl) (by simp) (by simp)
      (by simp) (by simp) (by simp) ?_
    cases caller <;> exact hgood
  | free caller k =>
    cases hs
    have hdeleting : (s.call c).deleting = some k := by rw [hc]; rfl
    obtain ⟨hdoomed, -⟩ := h.deleting c k hdeleting
    have hhanded := h.doomed k hdoomed
    have hgone : (s.goto c .returned).Tidy := h.toTidy.goto (by rw [hc]; simp) (by simp) (by simp) (by simp)
    have hno : ∀ i, s.slots i ≠ some k := fun i => h.past c i k (by rw [hc]; rfl)
    have hfreed : (s.setTask k { s.task k with freed := true }).Sound :=
      h.toSound.setTask (fun i hi => absurd hi (hno i)) (by rintro - ⟨⟩)
    refine ⟨?_, ?_, answers_goto h rfl (fun l hl => ?_) (fun l hl => ?_) trivial⟩
    · -- the call lets go of the task when it frees it
      refine hgone.setTask (k := k) (t := { s.task k with freed := true }) (h.begun k) (h.doomed k)
        (fun _ => hdoomed) (h.handed k hhanded) id (fun d hd => (hgone.fresh d k hd).2) (fun d hd => ?_) rfl rfl
      have hdc : d = c := by
        by_contra hne
        refine hne (h.deletingOne d c k ?_ hdeleting)
        simpa [hne] using hd
      simp [hdc] at hd
    · refine hfreed.goto (by simp) (by simp) (fun l hl => ?_) (by simp) (by simp) (by simp) (by simp) (by simp)
      rw [setTask_call, hc] at hl
      cases hl
      exact .inr (by simp)
    · by_cases hlk : l = k <;> simp_all
    · by_cases hlk : l = k <;> simp_all
  | _ => simp at hx

/-! ## New calls and threads -/

/-- A task is marked for its one deletion. -/
theorem Good.doom {s : Registry} (h : s.Good) {k : Nat} (hhanded : (s.task k).handed = true) : (s.doom k).Good := by
  refine ⟨h.toTidy.setTask (h.begun k) (fun _ => hhanded) (fun _ => rfl) (h.handed k hhanded) id
    (fun d hd => (h.fresh d k hd).2) (fun d hd => ⟨rfl, (h.deleting d k hd).2⟩) rfl rfl,
    h.toSound.setTask (fun i hi => h.kept i k hi) (fun hh hf => ⟨hh, hf⟩),
    fun d => callGood_mono (fun l hl => ?_) (fun l hl => ?_) (h.answers d)⟩
  · by_cases hlk : l = k <;> simp_all [Registry.doom]
  · by_cases hlk : l = k <;> simp_all [Registry.doom]

theorem Good.enter {s : Registry} (h : s.Good) {y : Call} (hpending : y.pending = none) (hpast : y.past = none)
    (hdeleting : ∀ k, y.deleting = some k → (s.task k).doomed = true ∧ (s.task k).freed = false ∧
      ∀ c, (s.call c).deleting ≠ some k)
    (hseeks : ∀ k i, y.seeks = some (k, i) → (s.task k).handed = true ∧ i = 0) (hcompares : y.compares = none)
    (hholds : y.holds = none) (hfinds : y.finds = none) (hstore : ∀ k i, y ≠ .store k i) (hy : s.CallGood y) :
    (s.enter y).Good := by
  refine ⟨h.toTidy.enter hpending hdeleting fun k i hk => (hseeks k i hk).1,
    h.toSound.enter h.toTidy hpending hpast (fun k i j hk _ => ?_) hcompares hholds hfinds hstore,
    fun d => ?_⟩
  · rw [(hseeks k i hk).2]
    exact Nat.zero_le j
  · exact answers_goto h rfl (fun _ hh => ⟨hh, rfl⟩) (fun _ => id) hy d

theorem Good.start {s s' : Registry} (h : s.Good) {api : Api} (hs : s.start api = some s') : s'.Good := by
  have hundoomed : ∀ k, (s.task k).doomed = false → (s.task k).freed = false ∧ ∀ c, (s.call c).deleting ≠ some k :=
    fun k hk => by
      refine ⟨Bool.eq_false_iff.2 fun hf => ?_, fun c hc => ?_⟩
      · rw [h.freed k hf] at hk; cases hk
      · rw [(h.deleting c k hc).1] at hk; cases hk
  cases api with
  | create name =>
    cases hs
    refine h.enter rfl rfl ?_ ?_ rfl rfl rfl ?_ trivial <;> simp
  | delete k =>
    simp only [Registry.start] at hs
    split at hs
    · rename_i hk
      obtain ⟨hhanded, hdoomed⟩ := hk
      obtain ⟨hfreed, hno⟩ := hundoomed k hdoomed
      cases hs
      refine (h.doom hhanded).enter rfl rfl (fun l hl => ?_) (fun l i hl => ?_) rfl rfl rfl (by simp) trivial
      · cases hl
        exact ⟨by simp [Registry.doom], by simp [Registry.doom, hfreed], hno⟩
      · cases hl
        exact ⟨by simp [Registry.doom, hhanded], rfl⟩
    · cases hs
  | self me why =>
    cases me with
    | none =>
      cases hs
      refine h.enter rfl rfl (fun l hl => ?_) (by simp) rfl rfl rfl (by simp) trivial
      cases why <;> cases hl
    | some k =>
      simp only [Registry.start] at hs
      split at hs
      · cases hs
      · rename_i hbegun
        have hhanded := h.begun k (by simpa using hbegun)
        split at hs
        · rename_i hwhy
          subst hwhy
          split at hs
          · cases hs
          · rename_i hdoomed
            obtain ⟨hfreed, hno⟩ := hundoomed k (by simpa using hdoomed)
            cases hs
            refine (h.doom hhanded).enter rfl rfl (fun l hl => ?_) (fun l i hl => ?_) rfl rfl rfl (by simp) trivial
            · cases hl
              exact ⟨by simp [Registry.doom], by simp [Registry.doom, hfreed], hno⟩
            · cases hl
              exact ⟨by simp [Registry.doom, hhanded], rfl⟩
        · rename_i hwhy
          cases hs
          refine h.enter rfl rfl (fun l hl => ?_) (fun l i hl => ?_) rfl rfl rfl (by simp) trivial
          · cases why with
            | delete => exact absurd rfl hwhy
            | _ => cases hl
          · cases hl
            exact ⟨hhanded, rfl⟩

theorem good_step {s s' : Registry} {a : Act} (h : s.Good) (ho : s.Orderly a) (hs : s.step a = some s') :
    s'.Good := by
  unfold Registry.step at hs
  rw [if_neg (by rw [h.running]; simp)] at hs
  cases a with
  | call api => exact h.start hs
  | step c ok =>
    simp only at hs
    rcases hc : s.call c with
      name | k | ⟨k, i⟩ | ⟨k, i⟩ | ⟨me, why, i⟩ | ⟨me, why, i⟩ | ⟨me, why, i, k⟩ | ⟨me, why, i⟩ | ⟨f, k, i⟩ |
      ⟨f, k, i⟩ | ⟨f, k⟩ | ⟨f, k⟩ | _ | _ | _ | _
    all_goals rw [hc] at hs
    · exact h.create hc ho (.inl ⟨name, rfl⟩) hs
    · exact h.create hc ho (.inr (by simp)) hs
    · exact h.create hc ho (.inr (by simp)) hs
    · exact h.create hc ho (.inr (by simp)) hs
    · exact h.scan hc .look hs
    · exact h.scan hc .compare hs
    · exact h.scan hc (.read k) hs
    · exact h.scan hc (.load me rfl) hs
    · exact h.remove hc ho (.inl ⟨f, k, i, .inl rfl⟩) hs
    · exact h.remove hc ho (.inl ⟨f, k, i, .inr rfl⟩) hs
    · exact h.remove hc ho (.inr (by simp)) hs
    · exact h.remove hc ho (.inr (by simp)) hs
    all_goals cases hs
  | begin k =>
    simp only at hs
    split at hs <;> cases hs
    have hhanded : (s.task k).handed = true := ho
    refine ⟨h.toTidy.setTask (fun _ => hhanded) (h.doomed k) (h.freed k) (h.handed k hhanded) id
      (fun d hd => (h.fresh d k hd).2) (fun d hd => h.deleting d k hd) rfl rfl,
      h.toSound.setTask (fun i hi => h.kept i k hi) (fun hh hf => ⟨hh, hf⟩),
      fun d => callGood_mono (fun l hl => ?_) (fun l hl => ?_) (h.answers d)⟩
    · by_cases hlk : l = k <;> simp_all
    · by_cases hlk : l = k <;> simp_all

/-! ## Whole runs -/

theorem Good.knows {s : Registry} (h : s.Good) : s.Knows where
  running := h.running
  self c me r hc hlive := by
    have hgood := h.answers c
    rw [hc] at hgood
    refine hgood.resolve_right fun hd => ?_
    rw [hlive.2] at hd
    cases hd
  name c me r hc hlive := by
    have hgood := h.answers c
    rw [hc] at hgood
    refine hgood.2.resolve_right fun hd => ?_
    rw [hlive.2] at hd
    cases hd
  slot k hlive := by
    obtain ⟨hhanded, hdoomed⟩ := hlive
    have hhanded' : (s.task k).handed = true := hhanded.elim id (h.begun k)
    have hfreed : (s.task k).freed = false := Bool.eq_false_iff.2 fun hf => by
      rw [h.freed k hf] at hdoomed
      cases hdoomed
    obtain ⟨i, hi⟩ := h.known k hhanded' hfreed fun c hc => by
      rw [(h.deleting c k (deleting_of_past hc)).1] at hdoomed
      cases hdoomed
    exact ⟨i, h.range i k hi, hi, fun j hj => h.distinct j i k hj hi⟩
  deleted i k hi := (h.kept i k hi).1
  found c me hc := by
    have hgood := h.answers c
    rw [hc] at hgood
    exact hgood
  own c me k i hc := by
    have hgood := h.answers c
    rcases hc with hc | hc | hc | hc <;> rw [hc] at hgood <;> exact hgood

/-- In every run whose steps are all orderly, with any number of tasks and calls, the registry knows every
live task. -/
theorem registry_knows_live_tasks (acts : List Act) (ho : Meets step Orderly init acts) :
    Always step Knows init acts :=
  always_of_meets (I := Good) (fun _ => Good.knows) (fun _ _ _ => good_step) good_init ho

/-- A task is created and begins; it asks for itself and for its name, and deletes itself. -/
def taskLife : List Act :=
  Act.call (.create [65, 0]) :: List.replicate 4 (Act.step 0 true) ++ [Act.begin 0] ++
    Act.call (.self (some 0) .getSelf) :: List.replicate 4 (Act.step 1 true) ++
    Act.call (.self (some 0) .getName) :: List.replicate 4 (Act.step 2 true) ++
    Act.call (.self (some 0) .delete) :: List.replicate 8 (Act.step 3 true)

theorem registry_knows_taskLife :
    (exec step init taskLife).map (fun s => (s.call 1, s.call 2, s.slots 0, (s.task 0).freed)) =
      some (.gotSelf (some 0) (some 0), .gotName (some 0) (some [65]), none, true) ∧
    Always step Knows init taskLife :=
  ⟨by decide +kernel, registry_knows_live_tasks taskLife (by decide +kernel)⟩

/-- `pthread_create` has returned, and the new thread begins before the table is written. -/
def earlyThread : List Act :=
  Act.call (.create [65, 0]) :: List.replicate 2 (Act.step 0 true) ++ [Act.begin 0] ++
    Act.call (.self (some 0) .getSelf) :: List.replicate 33 (Act.step 1 true)

/-- It does not find itself. -/
theorem early_thread_unknown : ¬ ∀ acts, Always step Knows init acts := by
  intro h
  obtain ⟨s, hs⟩ := Option.isSome_iff_exists.1 (show (exec step init earlyThread).isSome = true by decide +kernel)
  have hend : (exec step init earlyThread).map (fun s => (s.call 1, (s.task 0).begun, (s.task 0).doomed)) =
      some (.gotSelf (some 0) none, true, false) := by decide +kernel
  rw [hs, Option.map_some, Option.some.injEq] at hend
  simp only [Prod.mk.injEq] at hend
  obtain ⟨hcall, hbegun, hdoomed⟩ := hend
  have hself := (always_last (h earlyThread) hs).self 1 0 none hcall ⟨.inr hbegun, hdoomed⟩
  cases hself

end Registry

end InfoWorkshop.Posix.Tasks
