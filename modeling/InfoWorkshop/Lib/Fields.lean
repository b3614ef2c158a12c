/-
The fields of a string: an induction over them, what they hold and how long they are together, and that fields
which are joined by a delimiter are found again.
-/
import InfoWorkshop.Lib.CString
import InfoWorkshop.Lib.Separators
import Mathlib.Algebra.Ring.Nat

namespace InfoWorkshop.CString

open InfoWorkshop.Memory

/-- A token, in the string it is found in: delimiters before it, a delimiter or nothing after it. -/
theorem token_some {delim t u v : Bytes} (h : token delim t = some (u, v)) :
    u ≠ [] ∧ (∀ x ∈ u, x ∉ delim) ∧ ∃ sep w, t = sep ++ (u ++ w) ∧ v = w.tail := by
  rcases token_cases delim t with hsep | ⟨sep, u', w, rfl, hsep, hu, hud, hw⟩
  · rw [token_of_sep hsep] at h
    cases h
  · rw [token_of_split hsep hu hud hw] at h
    cases h
    exact ⟨hu, hud, sep, w, rfl, rfl⟩

/-- What holds of no fields, and of a field before others, holds of all fields of a string. -/
theorem fields_induction {delim : Bytes} {P : Bytes → List Bytes → Prop} (none : ∀ t, P t [])
    (some : ∀ sep u w us, u ≠ [] → (∀ x ∈ u, x ∉ delim) → P w.tail us → P (sep ++ (u ++ w)) (u :: us)) :
    ∀ t, P t (fields delim t) := by
  intro t
  induction hn : t.length using Nat.strong_induction_on generalizing t with
  | _ n ih =>
    subst hn
    rw [fields_eq]
    rcases ht : token delim t with _ | ⟨u, v⟩
    · exact none t
    · obtain ⟨hu, hud, sep, w, rfl, rfl⟩ := token_some ht
      refine some sep u w _ hu hud (ih _ ?_ _ rfl)
      have hpos := List.length_pos_iff.2 hu
      simp only [List.length_append, List.length_tail]
      omega

/-- A field is not empty, and it has its bytes from the string, none of them a delimiter. -/
theorem mem_fields {delim : Bytes} (t : Bytes) :
    ∀ u ∈ fields delim t, u ≠ [] ∧ ∀ x ∈ u, x ∉ delim ∧ x ∈ t := by
  refine fields_induction (P := fun t us => ∀ u ∈ us, u ≠ [] ∧ ∀ x ∈ u, x ∉ delim ∧ x ∈ t) ?_ ?_ t
  · intro t u hu
    cases hu
  · intro sep u w us hu hud ih v hv
    rcases List.mem_cons.1 hv with rfl | hv
    · exact ⟨hu, fun x hx => ⟨hud x hx, by simp [hx]⟩⟩
    · refine ⟨(ih v hv).1, fun x hx => ?_⟩
      obtain ⟨hxd, hxw⟩ := (ih v hv).2 x hx
      exact ⟨hxd, by simp [List.mem_of_mem_tail hxw]⟩

/-- The fields with a delimiter each are at most as long as the string and one delimiter. -/
theorem fields_length {delim : Bytes} (t : Bytes) :
    ((fields delim t).map fun u => u.length + 1).sum ≤ t.length + 1 := by
  refine (@fields_induction delim
    (fun t us => (us.map fun u => u.length + 1).sum ≤ t.length + 1 ∧ (t = [] → us = [])) ?_ ?_ t).1
  · exact fun t => ⟨Nat.zero_le _, fun _ => rfl⟩
  · rintro sep u w us hu - ⟨hlen, hnil⟩
    refine ⟨?_, fun h => absurd h (by simp [hu])⟩
    simp only [List.map_cons, List.sum_cons, List.length_append]
    cases w with
    | nil =>
      -- without a delimiter there is no other field
      rw [hnil rfl]
      simp
    | cons d w =>
      simp only [List.tail_cons, List.length_cons] at hlen ⊢
      omega

/-- Fields that are joined by a delimiter. -/
theorem fields_join {delim : Bytes} {d : UInt8} (hd : d ∈ delim) : ∀ {u : Bytes} {us : List Bytes},
    (∀ v ∈ u :: us, v ≠ [] ∧ ∀ x ∈ v, x ∉ delim) → fields delim (u ++ us.flatMap fun v => d :: v) = u :: us
  | u, [], h => by
    obtain ⟨hu, hud⟩ := h u List.mem_cons_self
    have hone := @fields_of_split delim [] u [] (by simp) hu hud (by simp)
    simpa [fields_of_sep] using hone
  | u, v :: us, h => by
    obtain ⟨hu, hud⟩ := h u List.mem_cons_self
    have hmore := @fields_of_split delim [] u (d :: (v ++ us.flatMap fun v => d :: v)) (by simp) hu hud
      (by simpa using hd)
    rw [List.nil_append, List.tail_cons, fields_join hd fun w hw => h w (List.mem_cons_of_mem _ hw)] at hmore
    simpa using hmore

end InfoWorkshop.CString
