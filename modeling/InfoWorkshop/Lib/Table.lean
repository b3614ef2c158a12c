/-
A list read as a function on all numbers: `table l f d` is `f` of the entry at an index, and `d` at
the indices past the end. What the list operations do to it.
-/
import Mathlib.Data.List.Basic

namespace InfoWorkshop.Table

variable {α β : Type*}

def table (l : List α) (f : α → β) (d : β) : ℕ → β := fun i => (l[i]?).elim d f

variable {l : List α} {f : α → β} {d : β}

theorem table_eq {i : ℕ} {a : α} (h : l[i]? = some a) : table l f d i = f a := by
  unfold table; rw [h]; rfl

theorem table_of_le {i : ℕ} (h : l.length ≤ i) : table l f d i = d := by
  unfold table; rw [List.getElem?_eq_none h]; rfl

theorem table_set {i : ℕ} {a : α} (h : l[i]? = some a) (b : α) :
    table (l.set i b) f d = Function.update (table l f d) i (f b) := by
  have hi : i < l.length := (List.getElem?_eq_some_iff.1 h).1
  funext j
  by_cases hj : j = i
  · subst hj
    rw [Function.update_self, table, List.getElem?_set_self hi]; rfl
  · rw [Function.update_of_ne hj, table, List.getElem?_set_ne (Ne.symm hj)]; rfl

/-- Entering what is there. -/
theorem update_table {i : ℕ} {a : α} (h : l[i]? = some a) :
    Function.update (table l f d) i (f a) = table l f d := by
  rw [← table_eq (f := f) (d := d) h]
  exact Function.update_eq_self _ _

theorem update_table_of_le {i : ℕ} (h : l.length ≤ i) :
    Function.update (table l f d) i d = table l f d := by
  have hself := Function.update_eq_self i (table l f d)
  rwa [table_of_le h] at hself

theorem table_append (a : α) :
    table (l ++ [a]) f d = Function.update (table l f d) l.length (f a) := by
  funext j
  by_cases hj : j = l.length
  · subst hj
    rw [Function.update_self, table, List.getElem?_concat_length]; rfl
  · rw [Function.update_of_ne hj]
    rcases Nat.lt_or_gt_of_ne hj with hj | hj
    · unfold table
      rw [List.getElem?_append_left hj]
    · rw [table_of_le (Nat.le_of_lt hj), table_of_le (by simp; omega)]

theorem table_modify {i : ℕ} {a : α} (h : l[i]? = some a) (g : α → α) :
    table (l.modify i g) f d = Function.update (table l f d) i (f (g a)) := by
  funext j
  unfold table
  rw [List.getElem?_modify]
  by_cases hj : j = i
  · subst hj
    rw [Function.update_self, h]; simp
  · rw [Function.update_of_ne hj]
    simp [Ne.symm hj]

/-- Changes that `f` does not see. -/
theorem table_modify_same (i : ℕ) {g : α → α} (hg : ∀ a, f (g a) = f a) :
    table (l.modify i g) f d = table l f d := by
  funext j
  unfold table
  rw [List.getElem?_modify]
  rcases l[j]? with _ | a
  · rfl
  · show f (if i = j then g a else a) = f a
    split
    · exact hg a
    · rfl

theorem map_modify_same (i : ℕ) {g : α → α} (hg : ∀ a, f (g a) = f a) : (l.modify i g).map f = l.map f := by
  apply List.ext_getElem?
  intro j
  rw [List.getElem?_map, List.getElem?_map, List.getElem?_modify]
  rcases l[j]? with _ | a
  · rfl
  · show some (f (if i = j then g a else a)) = some (f a)
    split
    · rw [hg]
    · rfl

/-- What holds of every entry, and of the value past the end, holds everywhere. -/
theorem table_forall {P : β → Prop} (hl : ∀ a ∈ l, P (f a)) (hd : P d) (i : ℕ) : P (table l f d i) := by
  unfold table
  rcases h : l[i]? with _ | a
  · exact hd
  · exact hl a (List.mem_of_getElem? h)

/-- A value other than the one past the end comes from an entry. -/
theorem table_mem {i : ℕ} (h : table l f d i ≠ d) : ∃ a, l[i]? = some a ∧ f a = table l f d i := by
  unfold table at h ⊢
  rcases hi : l[i]? with _ | a
  · rw [hi] at h; exact absurd rfl h
  · exact ⟨a, rfl, rfl⟩

/-- Entries of a kind that never stand at two indices are at most one. -/
theorem countP_le_one {p : α → Bool} : ∀ {l : List α},
    (∀ (i j : ℕ) (a b : α), l[i]? = some a → l[j]? = some b → p a → p b → i = j) → l.countP p ≤ 1
  | [], _ => by simp
  | a :: l, h => by
    have htail : l.countP p ≤ 1 := countP_le_one fun i j b c hb hc hpb hpc =>
      Nat.succ.inj (h (i + 1) (j + 1) b c hb hc hpb hpc)
    by_cases ha : p a = true
    · have hnone : l.countP p = 0 := by
        rw [List.countP_eq_zero]
        intro b hb hpb
        obtain ⟨j, hj⟩ := List.mem_iff_getElem?.1 hb
        exact absurd (h 0 (j + 1) a b rfl hj ha hpb) (by omega)
      simp [List.countP_cons_of_pos ha, hnone]
    · rw [List.countP_cons_of_neg ha]
      exact htail

/-! ## Counting after an update -/

section Count

variable {α : Type*} {p : α → Bool} {l : List α} {c : ℕ} {a b : α}

/-- An entry that does not count, or replaces one that does, adds nothing. -/
theorem countP_set_le (h : p a = true → ∃ b, l[c]? = some b ∧ p b = true) : (l.set c a).countP p ≤ l.countP p := by
  rcases Nat.lt_or_ge c l.length with hlt | hge
  · rw [List.countP_set hlt]
    rcases hp : p a with _ | _
    · simp
    · obtain ⟨b, hb, hpb⟩ := h hp
      obtain ⟨hlt, rfl⟩ := List.getElem?_eq_some_iff.1 hb
      have hpos : 0 < l.countP p := List.countP_pos_iff.2 ⟨_, List.getElem_mem hlt, hpb⟩
      rw [if_pos hpb]
      show l.countP p - 1 + 1 ≤ l.countP p
      omega
  · exact Nat.le_of_eq (congrArg _ (List.set_eq_of_length_le hge))

/-- An entry that does not count replaces one that does. -/
theorem countP_set_lt (ha : p a = false) (hb : l[c]? = some b) (hpb : p b = true) :
    (l.set c a).countP p < l.countP p := by
  obtain ⟨hlt, rfl⟩ := List.getElem?_eq_some_iff.1 hb
  have hpos : 0 < l.countP p := List.countP_pos_iff.2 ⟨_, List.getElem_mem hlt, hpb⟩
  rw [List.countP_set hlt, ha, if_pos hpb]
  show l.countP p - 1 + 0 < l.countP p
  omega

end Count

end InfoWorkshop.Table
