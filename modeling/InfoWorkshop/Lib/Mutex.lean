/-
Mutexes: who owns each of them, against what each thread holds at its point of control. `L` names
mutexes, `K` threads; a thread holds at most one.
-/
import Mathlib.Logic.Function.Basic

namespace InfoWorkshop.Mutex

variable {L K : Type*}

/-- The owner of a mutex is the thread that holds it at its point of control. -/
def Owned (owner : L → Option K) (held : K → Option L) : Prop := ∀ l t, owner l = some t ↔ held t = some l

variable {owner : L → Option K} {held : K → Option L}

/-- Mutual exclusion: two threads that hold one mutex are one thread. -/
theorem Owned.exclusive (h : Owned owner held) {l : L} {t u : K} (ht : held t = some l)
    (hu : held u = some l) : t = u := by
  have h₁ : owner l = some t := (h l t).2 ht
  have h₂ : owner l = some u := (h l u).2 hu
  rw [h₁, Option.some.injEq] at h₂
  exact h₂

/-- Nobody holds a free mutex. -/
theorem Owned.free (h : Owned owner held) {l : L} (hl : owner l = none) (t : K) : held t ≠ some l := by
  intro ht
  rw [← h l t, hl] at ht
  cases ht

variable [DecidableEq L] [DecidableEq K]

/-- A thread that holds nothing locks a free mutex. -/
theorem Owned.lock (h : Owned owner held) {l : L} {t : K} (hl : owner l = none) (ht : held t = none) :
    Owned (Function.update owner l (some t)) (Function.update held t (some l)) := by
  intro l' t'
  by_cases hll : l' = l <;> by_cases htt : t' = t
  · subst hll htt; simp
  · subst hll
    have hfree : held t' ≠ some l' := h.free hl t'
    simp [htt, hfree, Ne.symm htt]
  · subst htt
    have hnot : owner l' ≠ some t' := by rw [Ne, h l' t', ht]; simp
    simp [hll, hnot, Ne.symm hll]
  · simp [hll, htt, h l' t']

/-- The thread that holds a mutex unlocks it. -/
theorem Owned.unlock (h : Owned owner held) {l : L} {t : K} (ht : held t = some l) :
    Owned (Function.update owner l none) (Function.update held t none) := by
  intro l' t'
  by_cases hll : l' = l <;> by_cases htt : t' = t
  · subst hll htt; simp
  · subst hll
    have hnot : held t' ≠ some l' := fun ht' => htt (h.exclusive ht' ht)
    simp [htt, hnot]
  · subst htt
    have hnot : owner l' ≠ some t' := by rw [Ne, h l' t', ht, Option.some.injEq]; exact Ne.symm hll
    simp [hll, hnot]
  · simp [hll, htt, h l' t']

end InfoWorkshop.Mutex
