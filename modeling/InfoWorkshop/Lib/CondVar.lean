/-
Condition variables. A thread that waits is blocked until a signal or a spurious wake-up lets its
wait return 0, or the wait gives up with an error; from then on it is awake, and it resumes once it
holds the mutex again. `K` names threads, `W` is what a waiter keeps on its stack.
-/
import Mathlib.Data.List.Basic

namespace InfoWorkshop.CondVar

/-- What a timed wait returns: 0, `ETIMEDOUT` or another error number. -/
inductive WaitResult
  | ok
  | timedOut
  | failed (errno : Nat)
  deriving DecidableEq, Repr

/-- The threads inside a wait: those still blocked, and those whose wait will return the given
result as soon as they hold the mutex. -/
structure Waiters (K W : Type*) where
  blocked : List (K × W)
  awake : List (K × W × WaitResult)
  deriving DecidableEq, Repr

namespace Waiters

variable {K W : Type*}

def empty : Waiters K W := ⟨[], []⟩

/-- The number of awake threads whose wait returns 0. -/
def woken (c : Waiters K W) : Nat := c.awake.countP fun x => x.2.2 = .ok

/-- Thread `t` starts to wait. -/
def wait (c : Waiters K W) (t : K) (w : W) : Waiters K W := { c with blocked := c.blocked ++ [(t, w)] }

/-- A signal: if some thread is blocked, one of them, chosen by `pick`, is woken. -/
def signal (c : Waiters K W) (pick : Nat) : Waiters K W :=
  match c.blocked[pick % c.blocked.length]? with
  | some (t, w) => ⟨c.blocked.eraseIdx (pick % c.blocked.length), c.awake ++ [(t, w, .ok)]⟩
  | none => c

section Keyed

variable [DecidableEq K]

/-- Thread `t` is inside a wait. -/
def waiting (c : Waiters K W) (t : K) : Bool :=
  c.blocked.any (fun x => x.1 = t) || c.awake.any (fun x => x.1 = t)

/-- The wait of the blocked thread `t` ends with `r`, without a signal. -/
def wake (c : Waiters K W) (t : K) (r : WaitResult) : Option (Waiters K W) :=
  match c.blocked.find? (fun x => x.1 = t) with
  | some (_, w) => some ⟨c.blocked.eraseP (fun x => x.1 = t), c.awake ++ [(t, w, r)]⟩
  | none => none

/-- The awake thread `t` takes the mutex and leaves its wait. -/
def resume (c : Waiters K W) (t : K) : Option (W × WaitResult × Waiters K W) :=
  match c.awake.find? (fun x => x.1 = t) with
  | some (_, w, r) => some (w, r, { c with awake := c.awake.eraseP fun x => x.1 = t })
  | none => none

end Keyed

/-! ## What the operations do to the two lists -/

theorem split_of_find? {A : Type*} {p : A → Bool} : ∀ {l : List A} {x : A}, l.find? p = some x →
    ∃ l₁ l₂, l = l₁ ++ x :: l₂ ∧ l.eraseP p = l₁ ++ l₂ ∧ p x = true
  | y :: l, x, h => by
    rw [List.find?_cons] at h
    split at h
    · rename_i hy
      cases h
      exact ⟨[], l, rfl, by simp [List.eraseP_cons_of_pos hy], hy⟩
    · rename_i hy
      obtain ⟨l₁, l₂, rfl, he, hx⟩ := split_of_find? h
      exact ⟨y :: l₁, l₂, rfl, by rw [List.eraseP_cons_of_neg (by simp [hy]), he]; rfl, hx⟩

/-- A signal without blocked threads does nothing. -/
theorem signal_of_nil {c : Waiters K W} (h : c.blocked = []) (pick : Nat) : c.signal pick = c := by
  simp [signal, h]

/-- A signal with blocked threads moves exactly one of them to the woken ones. -/
theorem signal_split {c : Waiters K W} (h : c.blocked ≠ []) (pick : Nat) :
    ∃ l₁ l₂ t w, c.blocked = l₁ ++ (t, w) :: l₂ ∧
      c.signal pick = ⟨l₁ ++ l₂, c.awake ++ [(t, w, .ok)]⟩ := by
  have hlt : pick % c.blocked.length < c.blocked.length :=
    Nat.mod_lt _ (List.length_pos_of_ne_nil h)
  refine ⟨c.blocked.take (pick % c.blocked.length), c.blocked.drop (pick % c.blocked.length + 1),
    (c.blocked[pick % c.blocked.length]).1, (c.blocked[pick % c.blocked.length]).2, ?_, ?_⟩
  · show c.blocked = _ ++ c.blocked[pick % c.blocked.length] :: _
    rw [List.getElem_cons_drop, List.take_append_drop]
  · unfold signal
    rw [List.getElem?_eq_getElem hlt, List.eraseIdx_eq_take_drop_succ]

/-- With a thread blocked, a signal wakes one more. -/
theorem woken_signal {c : Waiters K W} (h : c.blocked ≠ []) (pick : Nat) :
    (c.signal pick).woken = c.woken + 1 := by
  obtain ⟨l₁, l₂, t, w, -, hs⟩ := signal_split h pick
  simp [woken, hs]

variable [DecidableEq K]

theorem wake_split {c d : Waiters K W} {t : K} {r : WaitResult} (h : c.wake t r = some d) :
    ∃ l₁ l₂ w, c.blocked = l₁ ++ (t, w) :: l₂ ∧ d = ⟨l₁ ++ l₂, c.awake ++ [(t, w, r)]⟩ := by
  unfold wake at h
  split at h
  · rename_i t' w hf
    obtain ⟨l₁, l₂, hb, he, ht⟩ := split_of_find? hf
    simp only [decide_eq_true_eq] at ht
    subst ht
    cases h
    exact ⟨l₁, l₂, w, hb, by rw [he]⟩
  · cases h

theorem resume_split {c d : Waiters K W} {t : K} {w : W} {r : WaitResult}
    (h : c.resume t = some (w, r, d)) :
    ∃ l₁ l₂, c.awake = l₁ ++ (t, w, r) :: l₂ ∧ d = ⟨c.blocked, l₁ ++ l₂⟩ := by
  unfold resume at h
  split at h
  · rename_i t' w' r' hf
    obtain ⟨l₁, l₂, hb, he, ht⟩ := split_of_find? hf
    simp only [decide_eq_true_eq] at ht
    subst ht
    cases h
    exact ⟨l₁, l₂, hb, by rw [he]⟩
  · cases h

theorem blocked_of_wake {c d : Waiters K W} {t : K} {r : WaitResult} (h : c.wake t r = some d) :
    c.blocked ≠ [] := by
  obtain ⟨l₁, l₂, w, hb, -⟩ := wake_split h
  simp [hb]

theorem wake_woken {c d : Waiters K W} {t : K} {r : WaitResult} (h : c.wake t r = some d) :
    d.woken = c.woken + if r = .ok then 1 else 0 := by
  obtain ⟨l₁, l₂, w, -, rfl⟩ := wake_split h
  simp [woken, List.countP_cons]

theorem resume_blocked {c d : Waiters K W} {t : K} {w : W} {r : WaitResult}
    (h : c.resume t = some (w, r, d)) : d.blocked = c.blocked := by
  obtain ⟨l₁, l₂, -, rfl⟩ := resume_split h; rfl

theorem resume_woken {c d : Waiters K W} {t : K} {w : W} {r : WaitResult}
    (h : c.resume t = some (w, r, d)) : c.woken = d.woken + if r = .ok then 1 else 0 := by
  obtain ⟨l₁, l₂, ha, rfl⟩ := resume_split h
  simp [woken, ha, List.countP_cons]; omega

/-! ## A property of what every waiter keeps -/

omit [DecidableEq K] in
theorem signal_perm (c : Waiters K W) (pick : Nat) :
    ∀ t w, ((t, w) ∈ (c.signal pick).blocked → (t, w) ∈ c.blocked) ∧
      ∀ r, (t, w, r) ∈ (c.signal pick).awake → (t, w, r) ∈ c.awake ∨ (t, w) ∈ c.blocked := by
  intro t w
  by_cases hb : c.blocked = []
  · rw [signal_of_nil hb]; exact ⟨id, fun _ => Or.inl⟩
  · obtain ⟨l₁, l₂, t', w', hs, hc⟩ := signal_split hb pick
    rw [hc, hs]
    refine ⟨fun h => ?_, fun r h => ?_⟩
    · rcases List.mem_append.1 h with h | h <;> simp [h]
    · rcases List.mem_append.1 h with h | h
      · exact Or.inl h
      · simp only [List.mem_singleton, Prod.mk.injEq] at h
        exact Or.inr (by simp [h])

/-- `P` holds of what every waiter keeps. -/
structure All (P : W → Prop) (c : Waiters K W) : Prop where
  blocked : ∀ t w, (t, w) ∈ c.blocked → P w
  awake : ∀ t w r, (t, w, r) ∈ c.awake → P w

variable {P : W → Prop} {c d : Waiters K W} {t : K} {w : W} {r : WaitResult}

omit [DecidableEq K] in
theorem All.imp {Q : W → Prop} (h : All P c) (hPQ : ∀ w, P w → Q w) : All Q c :=
  ⟨fun t w hm => hPQ w (h.blocked t w hm), fun t w r hm => hPQ w (h.awake t w r hm)⟩

omit [DecidableEq K] in
theorem All.empty : All P (Waiters.empty : Waiters K W) :=
  ⟨by simp [Waiters.empty], by simp [Waiters.empty]⟩

omit [DecidableEq K] in
theorem All.wait (h : All P c) (hw : P w) : All P (c.wait t w) := by
  refine ⟨fun t' w' hm => ?_, h.awake⟩
  rcases List.mem_append.1 hm with hm | hm
  · exact h.blocked t' w' hm
  · cases List.mem_singleton.1 hm; exact hw

omit [DecidableEq K] in
theorem All.signal (h : All P c) (pick : Nat) : All P (c.signal pick) := by
  refine ⟨fun t w hm => h.blocked t w ((signal_perm c pick t w).1 hm), fun t w r hm => ?_⟩
  rcases (signal_perm c pick t w).2 r hm with hm | hm
  · exact h.awake t w r hm
  · exact h.blocked t w hm

theorem All.wake (h : All P c) (hw : c.wake t r = some d) : All P d := by
  obtain ⟨l₁, l₂, w, hb, rfl⟩ := wake_split hw
  have hblocked : ∀ t' w', (t', w') ∈ l₁ ++ (t, w) :: l₂ → P w' := hb ▸ h.blocked
  refine ⟨fun t' w' hm => hblocked t' w' ?_, fun t' w' r' hm => ?_⟩
  · rcases List.mem_append.1 hm with hm | hm <;> simp [hm]
  · rcases List.mem_append.1 hm with hm | hm
    · exact h.awake t' w' r' hm
    · simp only [List.mem_singleton, Prod.mk.injEq] at hm
      exact hblocked t' w' (by simp [hm])

theorem All.resume (h : All P c) (hr : c.resume t = some (w, r, d)) : P w ∧ All P d := by
  obtain ⟨l₁, l₂, ha, rfl⟩ := resume_split hr
  refine ⟨h.awake t w r (by simp [ha]), h.blocked, fun t' w' r' hm => h.awake t' w' r' ?_⟩
  rw [ha]
  rcases List.mem_append.1 hm with hm | hm <;> simp [hm]

/-! ## A thread is inside one wait -/

/-- The threads inside a wait. -/
def threads (c : Waiters K W) : List K := c.blocked.map (fun x => x.1) ++ c.awake.map fun x => x.1

/-- No thread is inside two waits. -/
def Distinct (c : Waiters K W) : Prop := c.threads.Nodup

omit [DecidableEq K] in
theorem Distinct.empty : (Waiters.empty : Waiters K W).Distinct := List.nodup_nil

omit [DecidableEq K] in
/-- A thread that stops being blocked is awake. -/
theorem threads_moved {l₁ l₂ : List (K × W)} (hb : c.blocked = l₁ ++ (t, w) :: l₂) (r : WaitResult) :
    List.Perm (threads ⟨l₁ ++ l₂, c.awake ++ [(t, w, r)]⟩) c.threads := by
  unfold threads
  rw [hb]
  simp only [List.map_append, List.map_cons, List.map_nil]
  rw [← List.append_assoc]
  exact (List.perm_append_singleton t _).trans (List.perm_middle.symm.append_right _)

theorem Distinct.wait (h : c.Distinct) (ht : c.waiting t = false) (w : W) : (c.wait t w).Distinct := by
  have hnot : t ∉ c.threads := by
    simp only [waiting, Bool.or_eq_false_iff, List.any_eq_false] at ht
    intro hmem
    rcases List.mem_append.1 hmem with hm | hm
    · obtain ⟨x, hx, rfl⟩ := List.mem_map.1 hm
      exact ht.1 x hx (by simp)
    · obtain ⟨x, hx, rfl⟩ := List.mem_map.1 hm
      exact ht.2 x hx (by simp)
  have hperm : List.Perm (c.wait t w).threads (t :: c.threads) := by
    unfold threads Waiters.wait
    simp only [List.map_append, List.map_cons, List.map_nil, List.append_assoc]
    exact List.perm_middle
  exact hperm.nodup_iff.2 (List.nodup_cons.2 ⟨hnot, h⟩)

omit [DecidableEq K] in
theorem Distinct.signal (h : c.Distinct) (pick : Nat) : (c.signal pick).Distinct := by
  by_cases hb : c.blocked = []
  · rw [signal_of_nil hb]; exact h
  · obtain ⟨l₁, l₂, t, w, hs, hc⟩ := signal_split hb pick
    rw [hc]
    exact (threads_moved hs .ok).nodup_iff.2 h

theorem Distinct.wake (h : c.Distinct) (hw : c.wake t r = some d) : d.Distinct := by
  obtain ⟨l₁, l₂, w, hb, rfl⟩ := wake_split hw
  exact (threads_moved hb r).nodup_iff.2 h

theorem Distinct.resume (h : c.Distinct) (hr : c.resume t = some (w, r, d)) : d.Distinct := by
  obtain ⟨l₁, l₂, ha, rfl⟩ := resume_split hr
  refine List.Nodup.sublist ?_ h
  unfold threads
  rw [ha]
  exact (List.Sublist.refl _).append (((List.sublist_cons_self _ _).append_left l₁).map _)

/-- A thread that has resumed waits no more. -/
theorem Distinct.resume_waiting (h : c.Distinct) (hr : c.resume t = some (w, r, d)) : d.waiting t = false := by
  obtain ⟨l₁, l₂, ha, rfl⟩ := resume_split hr
  have hnodup : (c.blocked.map (fun x => x.1) ++ (l₁ ++ (t, w, r) :: l₂).map fun x => x.1).Nodup := ha ▸ h
  have hperm : List.Perm (c.blocked.map (fun x => x.1) ++ (l₁ ++ (t, w, r) :: l₂).map fun x => x.1)
      (t :: (threads ⟨c.blocked, l₁ ++ l₂⟩)) := by
    simp only [threads, List.map_append, List.map_cons]
    rw [← List.append_assoc, ← List.append_assoc]
    exact List.perm_middle
  have hnot := (List.nodup_cons.1 (hperm.nodup_iff.1 hnodup)).1
  simp only [threads, List.mem_append, List.mem_map, not_or, not_exists, not_and] at hnot
  simp only [waiting, Bool.or_eq_false_iff, List.any_eq_false, decide_eq_true_eq]
  exact ⟨hnot.1, fun x hx => hnot.2 x (List.mem_append.1 hx)⟩

/-- Every awake thread can resume. -/
theorem Distinct.resume_of_mem (h : c.Distinct) (hm : (t, w, r) ∈ c.awake) : ∃ d, c.resume t = some (w, r, d) := by
  obtain ⟨l₁, l₂, ha⟩ := List.append_of_mem hm
  have hnodup : (l₁ ++ (t, w, r) :: l₂).map (fun x => x.1) |>.Nodup := ha ▸ (List.nodup_append.1 h).2.1
  have hnot : ∀ x ∈ l₁, x.1 ≠ t := by
    rw [List.map_append, List.map_cons] at hnodup
    intro x hx he
    exact (List.nodup_append.1 hnodup).2.2 x.1 (List.mem_map_of_mem hx) t (List.mem_cons_self ..) he
  have hfind : c.awake.find? (fun x => x.1 = t) = some (t, w, r) := by
    rw [ha, List.find?_append, List.find?_eq_none.2 (by simpa using hnot)]
    simp
  refine ⟨{ c with awake := c.awake.eraseP fun x => x.1 = t }, ?_⟩
  simp only [Waiters.resume, hfind]

/-! ## A thread stays inside its wait -/

omit [DecidableEq K] in
theorem mem_threads_wait {u : K} (h : t ∈ c.threads) (w : W) : t ∈ (c.wait u w).threads := by
  rcases List.mem_append.1 h with h | h
  · exact List.mem_append_left _ (by rw [Waiters.wait, List.map_append]; exact List.mem_append_left _ h)
  · exact List.mem_append_right _ h

omit [DecidableEq K] in
theorem self_mem_threads_wait (c : Waiters K W) (t : K) (w : W) : t ∈ (c.wait t w).threads :=
  List.mem_append_left _ (by simp [Waiters.wait])

omit [DecidableEq K] in
theorem mem_threads_signal (h : t ∈ c.threads) (pick : Nat) : t ∈ (c.signal pick).threads := by
  by_cases hb : c.blocked = []
  · rw [signal_of_nil hb]; exact h
  · obtain ⟨l₁, l₂, u, w, hs, hc⟩ := signal_split hb pick
    rw [hc]
    exact (threads_moved hs .ok).mem_iff.2 h

theorem mem_threads_wake {u : K} (h : t ∈ c.threads) (hw : c.wake u r = some d) : t ∈ d.threads := by
  obtain ⟨l₁, l₂, w, hb, rfl⟩ := wake_split hw
  exact (threads_moved hb r).mem_iff.2 h

/-- Only the thread that resumes leaves its wait. -/
theorem mem_threads_resume {u : K} (h : t ∈ c.threads) (hne : t ≠ u) (hr : c.resume u = some (w, r, d)) :
    t ∈ d.threads := by
  obtain ⟨l₁, l₂, ha, rfl⟩ := resume_split hr
  unfold threads at h ⊢
  rw [ha, List.map_append, List.map_cons] at h
  rw [List.map_append]
  rcases List.mem_append.1 h with h | h
  · exact List.mem_append_left _ h
  · refine List.mem_append_right _ ?_
    rcases List.mem_append.1 h with h | h
    · exact List.mem_append_left _ h
    · exact List.mem_append_right _ ((List.mem_cons.1 h).resolve_left hne)

theorem resume_of_awake (h : (t, w, r) ∈ c.awake) : (c.resume t).isSome = true := by
  obtain ⟨x, hx⟩ := Option.isSome_iff_exists.1 (show (c.awake.find? fun x => x.1 = t).isSome = true from
    List.find?_isSome.2 ⟨_, h, by simp⟩)
  simp only [Waiters.resume, hx, Option.isSome_some]

/-- A thread inside a wait can resume, at once or once it is woken. -/
theorem resume_or_wake (h : t ∈ c.threads) (r : WaitResult) :
    (c.resume t).isSome = true ∨ ∃ d, c.wake t r = some d ∧ (d.resume t).isSome = true := by
  rcases List.mem_append.1 h with h | h
  · obtain ⟨x, hx⟩ := Option.isSome_iff_exists.1 (show (c.blocked.find? fun x => x.1 = t).isSome = true from
      List.find?_isSome.2 (by simpa using h))
    have hwake : c.wake t r = some ⟨c.blocked.eraseP (fun x => x.1 = t), c.awake ++ [(t, x.2, r)]⟩ := by
      simp only [Waiters.wake, hx]
    exact .inr ⟨_, hwake, resume_of_awake (List.mem_append_right _ (List.mem_singleton_self _))⟩
  · obtain ⟨⟨u, w, r⟩, hu, rfl⟩ := List.mem_map.1 h
    exact .inl (resume_of_awake hu)

/-! ## A property of the awake threads -/

/-- `P` holds of what every awake thread keeps and the result of its wait. -/
def AwakeAll (P : W → WaitResult → Prop) (c : Waiters K W) : Prop := ∀ t w r, (t, w, r) ∈ c.awake → P w r

instance (P : W → WaitResult → Prop) [∀ w r, Decidable (P w r)] (c : Waiters K W) : Decidable (c.AwakeAll P) :=
  decidable_of_iff (∀ x ∈ c.awake, P x.2.1 x.2.2)
    ⟨fun h t w r hm => h (t, w, r) hm, fun h x hm => h x.1 x.2.1 x.2.2 hm⟩

/-- What the blocked thread `t` keeps. -/
def blockedAt (c : Waiters K W) (t : K) : Option W := (c.blocked.find? fun x => x.1 = t).map fun x => x.2

theorem All.blockedAt (h : All P c) (hw : c.blockedAt t = some w) : P w := by
  obtain ⟨x, hx, rfl⟩ := Option.map_eq_some_iff.1 hw
  exact h.blocked x.1 x.2 (List.mem_of_find?_eq_some hx)

/-- A blocked thread can be woken with any result, and resumes with it. -/
theorem Distinct.wake_resume (h : c.Distinct) (hw : c.blockedAt t = some w) (r : WaitResult) :
    ∃ d e, c.wake t r = some d ∧ d.resume t = some (w, r, e) := by
  obtain ⟨⟨t', w'⟩, hf, rfl⟩ := Option.map_eq_some_iff.1 hw
  have hwake : c.wake t r = some ⟨c.blocked.eraseP (fun x => x.1 = t), c.awake ++ [(t, w', r)]⟩ := by
    simp only [Waiters.wake, hf]
  obtain ⟨e, hr⟩ := (h.wake hwake).resume_of_mem (List.mem_append_right _ (List.mem_singleton_self _))
  exact ⟨_, e, hwake, hr⟩

variable {Q : W → WaitResult → Prop}

omit [DecidableEq K] in
/-- A signal wakes threads with the result 0. -/
theorem awakeAll_signal (hok : ∀ w, Q w .ok) (pick : Nat) : (c.signal pick).AwakeAll Q ↔ c.AwakeAll Q := by
  by_cases hb : c.blocked = []
  · rw [signal_of_nil hb]
  · obtain ⟨l₁, l₂, t, w, -, hc⟩ := signal_split hb pick
    rw [hc]
    constructor
    · exact fun h t w r hm => h t w r (List.mem_append_left _ hm)
    · intro h t w r hm
      rcases List.mem_append.1 hm with hm | hm
      · exact h t w r hm
      · cases List.mem_singleton.1 hm
        exact hok w

theorem awakeAll_wake (hw : c.wake t r = some d) :
    ∃ w, c.blockedAt t = some w ∧ (d.AwakeAll Q ↔ c.AwakeAll Q ∧ Q w r) := by
  unfold Waiters.wake at hw
  split at hw
  · rename_i t' w hf
    cases hw
    refine ⟨w, by rw [blockedAt, hf]; rfl, ?_⟩
    constructor
    · intro h
      exact ⟨fun t w r hm => h t w r (List.mem_append_left _ hm), h t w r (by simp)⟩
    · rintro ⟨h, hq⟩ t w r hm
      rcases List.mem_append.1 hm with hm | hm
      · exact h t w r hm
      · cases List.mem_singleton.1 hm
        exact hq
  · cases hw

theorem awakeAll_resume (hr : c.resume t = some (w, r, d)) : c.AwakeAll Q ↔ Q w r ∧ d.AwakeAll Q := by
  obtain ⟨l₁, l₂, ha, rfl⟩ := resume_split hr
  unfold AwakeAll
  rw [ha]
  constructor
  · refine fun h => ⟨h t w r (by simp), fun t' w' r' hm => h t' w' r' ?_⟩
    rcases List.mem_append.1 hm with hm | hm <;> simp [hm]
  · rintro ⟨hq, h⟩ t' w' r' hm
    rcases List.mem_append.1 hm with hm | hm
    · exact h t' w' r' (List.mem_append_left _ hm)
    · rcases List.mem_cons.1 hm with hm | hm
      · cases hm; exact hq
      · exact h t' w' r' (List.mem_append_right _ hm)

/-- A property of all awake threads is one of those that can resume. -/
theorem Distinct.awakeAll_iff (h : c.Distinct) :
    c.AwakeAll Q ↔ ∀ t w r d, c.resume t = some (w, r, d) → Q w r := by
  constructor
  · exact fun hq t w r d hr => ((awakeAll_resume hr).1 hq).1
  · intro hq t w r hm
    obtain ⟨d, hr⟩ := h.resume_of_mem hm
    exact hq t w r d hr

end Waiters

end InfoWorkshop.CondVar
