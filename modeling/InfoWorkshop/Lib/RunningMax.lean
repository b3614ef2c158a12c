/-
The loop that keeps the greatest value seen so far, over a list of which not every element has a value.
-/
import Mathlib.Data.List.Fold
import Mathlib.Data.List.MinMax
import Mathlib.Data.List.Perm.Basic

namespace InfoWorkshop.RunningMax

variable {α β : Type*} [LinearOrder β] (read : α → Option β)

/-- The greatest of `m` and the values in the list. -/
def runningMax (m : β) : List α → β
  | [] => m
  | x :: xs =>
    match read x with
    | some b => runningMax (if m < b then b else m) xs
    | none => runningMax m xs

theorem runningMax_eq (m : β) (l : List α) : runningMax read m l = (l.filterMap read).foldl max m := by
  induction l generalizing m with
  | nil => rfl
  | cons x xs ih =>
    rcases hx : read x with _ | b
    · simp only [runningMax, hx, List.filterMap_cons_none hx, ih]
    · simp only [runningMax, hx, List.filterMap_cons_some hx, List.foldl_cons, ih, max_def_lt]

/-- The order of the list does not matter. -/
theorem runningMax_perm {l l' : List α} (h : l.Perm l') (m : β) : runningMax read m l = runningMax read m l' := by
  rw [runningMax_eq, runningMax_eq]
  exact (h.filterMap read).foldl_eq m

theorem runningMax_eq_foldr (m : β) (l : List α) : runningMax read m l = (l.filterMap read).foldr max m := by
  rw [runningMax_eq, List.foldl_eq_foldr]

variable {read} {m b : β} {l : List α}

theorem le_runningMax_init : m ≤ runningMax read m l := by
  induction l generalizing m with
  | nil => exact le_refl m
  | cons x xs ih =>
    rcases hx : read x with _ | b
    · simp only [runningMax, hx]
      exact ih
    · simp only [runningMax, hx]
      refine le_trans ?_ ih
      rw [← max_def_lt]
      exact le_max_left m b

theorem le_runningMax {x : α} (hx : x ∈ l) (hb : read x = some b) : b ≤ runningMax read m l := by
  rw [runningMax_eq_foldr]
  exact List.le_max_of_le' m (List.mem_filterMap.2 ⟨x, hx, hb⟩) (le_refl b)

/-- It is one of the values, or no value is greater than `m`. -/
theorem runningMax_cases : runningMax read m l = m ∨ ∃ x ∈ l, read x = some (runningMax read m l) := by
  induction l generalizing m with
  | nil => exact .inl rfl
  | cons x xs ih =>
    rcases hx : read x with _ | b
    · simp only [runningMax, hx]
      rcases ih with h | ⟨y, hy, h⟩
      · exact .inl h
      · exact .inr ⟨y, List.mem_cons_of_mem _ hy, h⟩
    · simp only [runningMax, hx]
      rcases ih with h | ⟨y, hy, h⟩
      · rw [h]
        by_cases hlt : m < b
        · rw [if_pos hlt]
          exact .inr ⟨x, List.mem_cons_self, hx⟩
        · rw [if_neg hlt]
          exact .inl rfl
      · exact .inr ⟨y, List.mem_cons_of_mem _ hy, h⟩

/-- A bound of all values bounds the greatest. -/
theorem runningMax_le (hm : m ≤ b) (h : ∀ x ∈ l, ∀ c, read x = some c → c ≤ b) : runningMax read m l ≤ b := by
  rcases @runningMax_cases _ _ _ read m l with hc | ⟨x, hx, hc⟩
  · rw [hc]
    exact hm
  · exact h x hx _ hc

end InfoWorkshop.RunningMax
