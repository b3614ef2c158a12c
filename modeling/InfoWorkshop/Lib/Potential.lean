/-
Runs against a potential, a number that is read off the state: what the steps of a run cost is paid by what
the potential loses and by what the steps bring in. Where every step of a kind takes something off, a run
has only so many of them, and where one can always be taken, the potential can be used up.
-/
import Mathlib.Algebra.Ring.Nat
import InfoWorkshop.Lib.Steps

namespace InfoWorkshop.Steps

variable {σ α : Type*} {step : σ → α → Option σ} {I : σ → Prop} {φ : σ → Nat}

/-- The potential rule: a run costs no more than it finds and brings in. -/
theorem exec_potential {cost gain : α → Nat} (hI : ∀ s a t, I s → step s a = some t → I t)
    (hφ : ∀ s a t, I s → step s a = some t → cost a + φ t ≤ φ s + gain a) {s t : σ} {as : List α}
    (h : exec step s as = some t) (hs : I s) : (as.map cost).sum + φ t ≤ φ s + (as.map gain).sum := by
  induction as generalizing s with
  | nil =>
    cases h
    simp
  | cons a as ih =>
    obtain ⟨u, hu, ht⟩ := exec_cons_some h
    have hfirst := hφ s a u hs hu
    have hrest := ih ht (hI s a u hs hu)
    rw [List.map_cons, List.sum_cons, List.map_cons, List.sum_cons]
    omega

/-- The same where what the steps bring in is read off the state as well. -/
theorem exec_balance {cost : α → Nat} {γ : σ → Nat} (hI : ∀ s a t, I s → step s a = some t → I t)
    (hφ : ∀ s a t, I s → step s a = some t → cost a + φ t + γ s ≤ φ s + γ t) {s t : σ} {as : List α}
    (h : exec step s as = some t) (hs : I s) : (as.map cost).sum + φ t + γ s ≤ φ s + γ t := by
  induction as generalizing s with
  | nil =>
    cases h
    simp
  | cons a as ih =>
    obtain ⟨u, hu, ht⟩ := exec_cons_some h
    have hfirst := hφ s a u hs hu
    have hrest := ih ht (hI s a u hs hu)
    rw [List.map_cons, List.sum_cons]
    omega

theorem sum_map_countP (p : α → Bool) (as : List α) :
    (as.map fun a => if p a = true then 1 else 0).sum = as.countP p := by
  induction as with
  | nil => rfl
  | cons a as ih => rw [List.map_cons, List.sum_cons, List.countP_cons, ih, Nat.add_comm]

/-- A sum over the parts of a state, one of which changes. -/
theorem sum_map_modify {A : Type*} {l : List A} {q : Nat} {x : A} (hx : l[q]? = some x) (f : A → Nat) (g : A → A) :
    ((l.modify q g).map f).sum + f x = (l.map f).sum + f (g x) := by
  induction l generalizing q with
  | nil => cases hx
  | cons y l ih =>
    cases q with
    | zero =>
      cases hx
      simp only [List.modify_zero_cons, List.map_cons, List.sum_cons]
      omega
    | succ q =>
      have hrest := ih (q := q) hx
      simp only [List.modify_succ_cons, List.map_cons, List.sum_cons]
      omega

/-- Steps that take something off the potential, while the others leave it, are so many at most. -/
theorem exec_countP_le {p : α → Bool} (hI : ∀ s a t, I s → step s a = some t → I t)
    (hp : ∀ s a t, I s → step s a = some t → p a = true → φ t < φ s)
    (hle : ∀ s a t, I s → step s a = some t → φ t ≤ φ s) {s t : σ} {as : List α} (h : exec step s as = some t)
    (hs : I s) : as.countP p + φ t ≤ φ s := by
  have hpays : ∀ s a t, I s → step s a = some t → (if p a = true then 1 else 0) + φ t ≤ φ s + 0 := by
    intro s a t hs hstep
    by_cases hpa : p a = true
    · have hfalls := hp s a t hs hstep hpa
      rw [if_pos hpa]
      omega
    · have hstays := hle s a t hs hstep
      rw [if_neg hpa]
      omega
  have hpay := exec_potential hI hpays h hs
  rw [sum_map_countP] at hpay
  simpa using hpay

/-- Where the steps of a kind lower the potential as long as it is not zero, in a run whose steps all meet `C`,
enough of them use it up. -/
theorem exec_countP_sub {C : σ → α → Prop} {p : α → Bool}
    (hI : ∀ s a t, I s → C s a → step s a = some t → I t ∧ φ t ≤ φ s)
    (hp : ∀ s a t, I s → C s a → step s a = some t → p a = true → φ t ≤ φ s - 1) {s t : σ} {as : List α}
    (h : exec step s as = some t) (hC : Meets step C s as) (hs : I s) : φ t ≤ φ s - as.countP p := by
  induction as generalizing s with
  | nil =>
    cases h
    exact Nat.le_refl _
  | cons a as ih =>
    obtain ⟨u, hu, ht⟩ := exec_cons_some h
    simp only [Meets, hu] at hC
    obtain ⟨hIu, hle⟩ := hI s a u hs hC.1 hu
    have hrest := ih ht hC.2 hIu
    rw [List.countP_cons]
    by_cases hpa : p a = true
    · have hfalls := hp s a u hs hC.1 hu hpa
      rw [if_pos hpa]
      omega
    · rw [if_neg hpa]
      omega

/-- A potential that can always be lowered, by at most `k` steps of a kind, can be used up by such steps. -/
theorem exec_usesUp_within {k : Nat} {q : α → Prop}
    (hp : ∀ s, I s → 0 < φ s → ∃ as t, as.length ≤ k ∧ (∀ a ∈ as, q a) ∧ exec step s as = some t ∧ I t ∧ φ t < φ s)
    {s : σ} (hs : I s) :
    ∃ as t, as.length ≤ k * φ s ∧ (∀ a ∈ as, q a) ∧ exec step s as = some t ∧ I t ∧ φ t = 0 := by
  induction hn : φ s using Nat.strongRecOn generalizing s with
  | ind n ih =>
    rcases Nat.eq_zero_or_pos n with hzero | hpos
    · exact ⟨[], s, Nat.zero_le _, nofun, rfl, hs, by omega⟩
    · obtain ⟨as, t, hshort, has, ht, hIt, hlt⟩ := hp s hs (by omega)
      obtain ⟨bs, u, hlen, hbs, hu, hIu, hzero⟩ := ih (φ t) (by omega) hIt rfl
      refine ⟨as ++ bs, u, ?_, fun a ha => (List.mem_append.1 ha).elim (has a) (hbs a), ?_, hIu, hzero⟩
      · have hmul : k * (φ t + 1) ≤ k * n := Nat.mul_le_mul_left k (by omega)
        rw [Nat.mul_add, Nat.mul_one] at hmul
        rw [List.length_append]
        omega
      · rw [exec_append ht, hu]

/-- The same where one step lowers it. -/
theorem exec_usesUp (hp : ∀ s, I s → 0 < φ s → ∃ a t, step s a = some t ∧ I t ∧ φ t < φ s) {s : σ} (hs : I s) :
    ∃ as t, as.length ≤ φ s ∧ exec step s as = some t ∧ I t ∧ φ t = 0 := by
  have hone : ∀ s, I s → 0 < φ s →
      ∃ as t, as.length ≤ 1 ∧ (∀ a ∈ as, True) ∧ exec step s as = some t ∧ I t ∧ φ t < φ s := by
    intro s hs hpos
    obtain ⟨a, t, hstep, ht, hlt⟩ := hp s hs hpos
    exact ⟨[a], t, Nat.le_refl 1, fun _ _ => trivial, by simp only [exec, hstep], ht, hlt⟩
  obtain ⟨as, t, hlen, -, hrun⟩ := exec_usesUp_within hone hs
  exact ⟨as, t, Nat.one_mul (φ s) ▸ hlen, hrun⟩

end InfoWorkshop.Steps
