/-
Systems given by a partial step function `step : σ → α → Option σ`: the state after a run of
actions, properties that hold in every state of a run, runs whose steps all meet a condition, and
the invariant rules that connect the two.
-/
import Mathlib.Data.List.Basic

namespace InfoWorkshop.Steps

section Runs

variable {σ α : Type*} (step : σ → α → Option σ)

/-- The state after the actions `as`; `none` when one of them is not enabled. -/
def exec : σ → List α → Option σ
  | s, [] => some s
  | s, a :: as =>
    match step s a with
    | some t => exec t as
    | none => none

/-- `P` holds in every state of the run of `as` from `s`. -/
def Always (P : σ → Prop) : σ → List α → Prop
  | s, [] => P s
  | s, a :: as => P s ∧
    match step s a with
    | some t => Always P t as
    | none => True

/-- Every step of the run of `as` from `s` is taken in a state that meets `C`. -/
def Meets (C : σ → α → Prop) : σ → List α → Prop
  | _, [] => True
  | s, a :: as =>
    match step s a with
    | some t => C s a ∧ Meets C t as
    | none => True

instance decidableAlways (P : σ → Prop) [DecidablePred P] : ∀ s as, Decidable (Always step P s as)
  | s, [] => inferInstanceAs (Decidable (P s))
  | s, a :: as =>
    match h : step s a with
    | some t =>
      have := decidableAlways P t as
      decidable_of_iff (P s ∧ Always step P t as) (by simp [Always, h])
    | none => decidable_of_iff (P s) (by simp [Always, h])

instance decidableMeets (C : σ → α → Prop) [∀ s a, Decidable (C s a)] :
    ∀ s as, Decidable (Meets step C s as)
  | _, [] => .isTrue trivial
  | s, a :: as =>
    match h : step s a with
    | some t =>
      have := decidableMeets C t as
      decidable_of_iff (C s a ∧ Meets step C t as) (by simp [Meets, h])
    | none => .isTrue (by simp [Meets, h])

end Runs

section Rules

variable {σ α : Type*} {step : σ → α → Option σ}

theorem exec_cons_some {s u : σ} {a : α} {as : List α} (h : exec step s (a :: as) = some u) :
    ∃ t, step s a = some t ∧ exec step t as = some u := by
  simp only [exec] at h
  split at h
  · exact ⟨_, by assumption, h⟩
  · cases h

theorem exec_append {s t : σ} {as bs : List α} (h : exec step s as = some t) :
    exec step s (as ++ bs) = exec step t bs := by
  induction as generalizing s with
  | nil => cases h; rfl
  | cons a as ih =>
    obtain ⟨u, hs, hu⟩ := exec_cons_some h
    simp only [List.cons_append, exec, hs]
    exact ih hu

theorem exec_snoc {s t u : σ} {as : List α} {a : α} (h : exec step s as = some t)
    (ha : step t a = some u) : exec step s (as ++ [a]) = some u := by
  rw [exec_append h]; simp [exec, ha]

theorem exec_append_some {s u : σ} {as bs : List α} (h : exec step s (as ++ bs) = some u) :
    ∃ t, exec step s as = some t ∧ exec step t bs = some u := by
  induction as generalizing s with
  | nil => exact ⟨s, rfl, h⟩
  | cons a as ih =>
    rw [List.cons_append] at h
    obtain ⟨t, hs, ht⟩ := exec_cons_some h
    obtain ⟨v, hv, hu⟩ := ih ht
    exact ⟨v, by simp only [exec, hs, hv], hu⟩

/-- The invariant rule for reachable states. -/
theorem exec_invariant {I : σ → Prop} (hI : ∀ s a t, I s → step s a = some t → I t) {s t : σ}
    {as : List α} (h : exec step s as = some t) (hs : I s) : I t := by
  induction as generalizing s with
  | nil => cases h; exact hs
  | cons a as ih =>
    obtain ⟨u, hu, ht⟩ := exec_cons_some h
    exact ih ht (hI s a u hs hu)

/-- The invariant rule for the last state of a run, with an invariant that may look at the steps to come. -/
theorem exec_rest_invariant {I : σ → List α → Prop}
    (hI : ∀ s a as t, I s (a :: as) → step s a = some t → I t as) {s t : σ} {as : List α} (hs : I s as)
    (h : exec step s as = some t) : I t [] := by
  induction as generalizing s with
  | nil => cases h; exact hs
  | cons a as ih =>
    obtain ⟨u, hu, ht⟩ := exec_cons_some h
    exact ih (hI s a as u hs hu) ht

/-- The invariant rule for the states of a run whose steps meet `C`. -/
theorem exec_meets_invariant {I : σ → Prop} {C : σ → α → Prop}
    (hI : ∀ s a t, I s → C s a → step s a = some t → I t) {s t : σ} {as : List α}
    (h : exec step s as = some t) (hC : Meets step C s as) (hs : I s) : I t := by
  induction as generalizing s with
  | nil => cases h; exact hs
  | cons a as ih =>
    obtain ⟨u, hu, ht⟩ := exec_cons_some h
    simp only [Meets, hu] at hC
    exact ih ht hC.2 (hI s a u hs hC.1 hu)

/-- A property of the invariant holds in every state of a run whose steps meet `C`. -/
theorem always_of_meets {I P : σ → Prop} {C : σ → α → Prop} (hP : ∀ s, I s → P s)
    (hI : ∀ s a t, I s → C s a → step s a = some t → I t) {s : σ} {as : List α}
    (hs : I s) (hC : Meets step C s as) : Always step P s as := by
  induction as generalizing s with
  | nil => exact hP s hs
  | cons a as ih =>
    simp only [Always]
    refine ⟨hP s hs, ?_⟩
    split
    · rename_i t ht
      simp only [Meets, ht] at hC
      exact ih (hI s a t hs hC.1 ht) hC.2
    · trivial

/-- What holds in every state of a run holds in its last one. -/
theorem always_last {P : σ → Prop} {s t : σ} {as : List α} (h : Always step P s as)
    (ht : exec step s as = some t) : P t := by
  induction as generalizing s with
  | nil => cases ht; exact h
  | cons a as ih =>
    obtain ⟨u, hu, ht⟩ := exec_cons_some ht
    simp only [Always, hu] at h
    exact ih h.2 ht

/-- When a step from a state satisfying the invariant and `P` keeps `P` exactly if it meets `C`, the runs
that stay in `P` are exactly the runs whose steps all meet `C`, among those whose steps meet `D`. -/
theorem always_iff_meets_of {I P : σ → Prop} {C D : σ → α → Prop}
    (hI : ∀ s a t, I s → D s a → step s a = some t → I t)
    (hC : ∀ s a t, I s → P s → D s a → step s a = some t → (P t ↔ C s a)) {s : σ} (hs : I s) (hp : P s)
    {as : List α} (hD : Meets step D s as) : Always step P s as ↔ Meets step C s as := by
  induction as generalizing s with
  | nil => exact ⟨fun _ => trivial, fun _ => hp⟩
  | cons a as ih =>
    simp only [Meets] at hD
    simp only [Always, Meets]
    rcases h : step s a with _ | t
    · simp [hp]
    · simp only [h] at hD
      simp only [hp, true_and]
      have ht := hI s a t hs hD.1 h
      constructor
      · intro ha
        have hpt : P t := by cases as with
          | nil => exact ha
          | cons b bs => exact ha.1
        exact ⟨(hC s a t hs hp hD.1 h).1 hpt, (ih ht hpt hD.2).1 ha⟩
      · rintro ⟨hc, hm⟩
        exact (ih ht ((hC s a t hs hp hD.1 h).2 hc) hD.2).2 hm

theorem meets_true (s : σ) (as : List α) : Meets step (fun _ _ => True) s as := by
  induction as generalizing s with
  | nil => trivial
  | cons a as ih =>
    simp only [Meets]
    split
    · exact ⟨trivial, ih _⟩
    · trivial

/-- The same rule without an invariant, for all runs. -/
theorem always_iff_meets {P : σ → Prop} {C : σ → α → Prop}
    (hC : ∀ s a t, P s → step s a = some t → (P t ↔ C s a)) {s : σ} (hs : P s) (as : List α) :
    Always step P s as ↔ Meets step C s as :=
  always_iff_meets_of (I := fun _ => True) (fun _ _ _ _ _ _ => trivial) (fun s a t _ hs _ h => hC s a t hs h)
    trivial hs (meets_true s as)

/-- The rule for a condition on the steps of a run, with an invariant that may look at the steps to
come. -/
theorem meets_of_rest {I : σ → List α → Prop} {C : σ → α → Prop}
    (hC : ∀ s a as t, I s (a :: as) → step s a = some t → C s a)
    (hI : ∀ s a as t, I s (a :: as) → step s a = some t → I t as) {s : σ} {as : List α} (h : I s as) :
    Meets step C s as := by
  induction as generalizing s with
  | nil => trivial
  | cons a as ih =>
    simp only [Meets]
    split
    · rename_i t ht
      exact ⟨hC s a as t h ht, ih (hI s a as t h ht)⟩
    · trivial

/-- A condition on the steps alone. -/
theorem meets_of_forall {C : α → Prop} {s : σ} {as : List α} (h : ∀ a ∈ as, C a) : Meets step (fun _ a => C a) s as :=
  meets_of_rest (I := fun _ as => ∀ a ∈ as, C a) (fun _ a _ _ h _ => h a List.mem_cons_self)
    (fun _ _ _ _ h _ b hb => h b (List.mem_cons_of_mem _ hb)) h

/-- Under an invariant two conditions that agree on every step hold of the same runs, among those whose
steps meet `E`. -/
theorem meets_congr_of {I : σ → Prop} {C D E : σ → α → Prop}
    (hI : ∀ s a t, I s → E s a → step s a = some t → I t)
    (hCD : ∀ s a t, I s → E s a → step s a = some t → (C s a ↔ D s a)) {s : σ} (hs : I s) {as : List α}
    (hE : Meets step E s as) : Meets step C s as ↔ Meets step D s as := by
  induction as generalizing s with
  | nil => exact Iff.rfl
  | cons a as ih =>
    simp only [Meets] at hE ⊢
    rcases h : step s a with _ | t
    · exact Iff.rfl
    · simp only [h] at hE
      exact and_congr (hCD s a t hs hE.1 h) (ih (hI s a t hs hE.1 h) hE.2)

/-- The same for all runs. -/
theorem meets_congr {I : σ → Prop} {C D : σ → α → Prop}
    (hI : ∀ s a t, I s → step s a = some t → I t)
    (hCD : ∀ s a t, I s → step s a = some t → (C s a ↔ D s a)) {s : σ} (hs : I s) (as : List α) :
    Meets step C s as ↔ Meets step D s as :=
  meets_congr_of (fun s a t hs _ h => hI s a t hs h) (fun s a t hs _ h => hCD s a t hs h) hs (meets_true s as)

/-- Two conditions on the steps of a run are one. -/
theorem meets_and {C D : σ → α → Prop} {s : σ} {as : List α} :
    Meets step (fun s a => C s a ∧ D s a) s as ↔ Meets step C s as ∧ Meets step D s as := by
  induction as generalizing s with
  | nil => exact ⟨fun _ => ⟨trivial, trivial⟩, fun _ => trivial⟩
  | cons a as ih =>
    simp only [Meets]
    split
    · rw [ih]
      exact and_and_and_comm
    · exact ⟨fun _ => ⟨trivial, trivial⟩, fun _ => trivial⟩

/-- The last step of a run that meets a condition meets it. -/
theorem meets_last {C : σ → α → Prop} {s t u : σ} {as : List α} {a : α}
    (h : Meets step C s (as ++ [a])) (ht : exec step s as = some t) (ha : step t a = some u) : C t a := by
  induction as generalizing s with
  | nil =>
    cases ht
    simp only [List.nil_append, Meets, ha] at h
    exact h.1
  | cons b as ih =>
    obtain ⟨v, hv, ht⟩ := exec_cons_some ht
    simp only [List.cons_append, Meets, hv] at h
    exact ih h.2 ht

/-- A run in two parts meets a condition when both parts do. -/
theorem meets_append {C : σ → α → Prop} {s t : σ} {as bs : List α} (h : exec step s as = some t) :
    Meets step C s (as ++ bs) ↔ Meets step C s as ∧ Meets step C t bs := by
  induction as generalizing s with
  | nil =>
    cases h
    exact ⟨fun hm => ⟨trivial, hm⟩, fun hm => hm.2⟩
  | cons a as ih =>
    obtain ⟨u, hu, ht⟩ := exec_cons_some h
    simp only [List.cons_append, Meets, hu, ih ht, and_assoc]

/-- In a run whose steps do not all meet a condition some step does not, and the run goes on after it. -/
theorem exec_of_not_meets {C : σ → α → Prop} {s t : σ} {as : List α} (h : exec step s as = some t)
    (hC : ¬ Meets step C s as) : ∃ bs u a v cs, exec step s bs = some u ∧ step u a = some v ∧ ¬ C u a ∧
      exec step v cs = some t ∧ as = bs ++ a :: cs := by
  induction as generalizing s with
  | nil => exact absurd trivial hC
  | cons a as ih =>
    obtain ⟨v, hv, ht⟩ := exec_cons_some h
    by_cases ha : C s a
    · have hrest : ¬ Meets step C v as := fun hm => hC (by simp only [Meets, hv]; exact ⟨ha, hm⟩)
      obtain ⟨bs, u, b, w, cs, hu, hw, hb, hcs, rfl⟩ := ih ht hrest
      exact ⟨a :: bs, u, b, w, cs, by simp only [exec, hv, hu], hw, hb, hcs, rfl⟩
    · exact ⟨[], s, a, v, as, rfl, hv, ha, ht, rfl⟩

/-- The simulation rule for a run whose steps meet `C`: another system makes the same run. -/
theorem exec_simulation {τ : Type*} {step' : τ → α → Option τ} {R : σ → τ → Prop} {C : σ → α → Prop}
    (hR : ∀ s u a t, R s u → C s a → step s a = some t → ∃ v, step' u a = some v ∧ R t v) {s t : σ} {u : τ}
    {as : List α} (h : exec step s as = some t) (hC : Meets step C s as) (hs : R s u) :
    ∃ v, exec step' u as = some v ∧ R t v := by
  induction as generalizing s u with
  | nil => cases h; exact ⟨u, rfl, hs⟩
  | cons a as ih =>
    obtain ⟨w, hw, ht⟩ := exec_cons_some h
    simp only [Meets, hw] at hC
    obtain ⟨v, hv, hr⟩ := hR s u a w hs hC.1 hw
    simp only [exec, hv]
    exact ih ht hC.2 hr

end Rules

end InfoWorkshop.Steps
