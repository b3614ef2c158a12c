/-
Circular buffers: the slots `tail, tail + 1, …` of an array, indices taken modulo its length, read
as a list. Writing the slot after the last one appends, stepping `tail` drops the first.
-/
import Mathlib.Data.List.Basic
import Mathlib.Data.List.Range

namespace InfoWorkshop.Ring

variable {β : Type*}

/-- The `n` slots that start at `tail`, wrapping around at the end of the array. -/
def window (slots : List β) (tail n : Nat) : List (Option β) :=
  (List.range n).map fun i => slots[(tail + i) % slots.length]?

@[simp] theorem window_zero (slots : List β) (tail : Nat) : window slots tail 0 = [] := rfl

theorem window_getElem? {slots : List β} {tail n i : Nat} (hi : i < n) :
    (window slots tail n)[i]? = some slots[(tail + i) % slots.length]? := by
  simp [window, hi]

/-- Two positions less than a whole turn apart are different slots. -/
theorem mod_ne_of_lt {m tail i n : Nat} (hin : i < n) (hn : n < m) : (tail + i) % m ≠ (tail + n) % m := by
  intro h
  have hd : (tail + n - (tail + i)) % m = 0 := Nat.sub_mod_eq_zero_of_mod_eq h.symm
  have he : tail + n - (tail + i) = n - i := by omega
  rw [he, Nat.mod_eq_of_lt (by omega)] at hd
  omega

theorem succ_mod_add (m tail i : Nat) : ((tail + 1) % m + i) % m = (tail + (i + 1)) % m := by
  rw [Nat.mod_add_mod]; congr 1; omega

/-- Writing the slot after the window extends it. -/
theorem window_push {slots : List β} {tail n : Nat} (hn : n < slots.length) (x : β) :
    window (slots.set ((tail + n) % slots.length) x) tail (n + 1) = window slots tail n ++ [some x] := by
  have hpos : 0 < slots.length := by omega
  unfold window
  rw [List.range_succ, List.map_append, List.length_set]
  congr 1
  · refine List.map_congr_left fun i hi => ?_
    rw [List.getElem?_set_ne (mod_ne_of_lt (List.mem_range.1 hi) hn).symm]
  · simp [List.getElem?_set_self (Nat.mod_lt _ hpos)]

/-- The first slot of a window is the one at `tail`; the rest is the window one further. -/
theorem window_pop (slots : List β) (tail n : Nat) :
    window slots tail (n + 1) =
      slots[tail % slots.length]? :: window slots ((tail + 1) % slots.length) n := by
  unfold window
  rw [List.range_succ_eq_map, List.map_cons, List.map_map, Nat.add_zero]
  congr 1
  refine List.map_congr_left fun i _ => ?_
  rw [succ_mod_add]; rfl

end InfoWorkshop.Ring
