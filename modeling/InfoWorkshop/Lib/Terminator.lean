/-
Texts that end in a terminator and contain it nowhere else. The terminator is `u ++ c :: v`, and the
byte `c` does not occur in `u`: where there is no `c`, no terminator begins or ends.
-/
import Mathlib.Data.List.DropRight

namespace InfoWorkshop.Terminator

variable {α : Type}

/-- The text `l` ends in `t`, and contains it only there. -/
structure EndsOnce (t l : List α) : Prop where
  suffix : t <:+ l
  only : ∀ i, t <+: l.drop i → i + t.length = l.length

/-- An occurrence of the terminator puts its `c` into the text. -/
theorem getElem?_of_prefix_drop {u v l : List α} {c : α} {i : Nat} (h : u ++ c :: v <+: l.drop i) :
    l[i + u.length]? = some c := by
  obtain ⟨w, hw⟩ := h
  rw [← List.getElem?_drop, ← hw, List.append_assoc, List.getElem?_append_right (Nat.le_refl _)]
  simp

theorem endsOnce_append {u v l : List α} {c : α} (hu : c ∉ u) (hv : c ∉ v) (hl : c ∉ l) :
    EndsOnce (u ++ c :: v) (l ++ (u ++ c :: v)) := by
  refine ⟨List.suffix_append _ _, fun i hi => ?_⟩
  have hc := getElem?_of_prefix_drop hi
  rw [← List.append_assoc] at hc
  rcases Nat.lt_trichotomy (i + u.length) (l ++ u).length with hlt | heq | hgt
  · -- an earlier one in `l` or `u`
    rw [List.getElem?_append_left hlt] at hc
    have hmem := List.mem_of_getElem? hc
    simp [hl, hu] at hmem
  · simp only [List.length_append, List.length_cons] at heq ⊢
    omega
  · -- a later `c` would lie in `v`
    rw [List.getElem?_append_right (Nat.le_of_lt hgt)] at hc
    obtain ⟨k, hk⟩ : ∃ k, i + u.length - (l ++ u).length = k + 1 :=
      ⟨i + u.length - (l ++ u).length - 1, by omega⟩
    rw [hk, List.getElem?_cons_succ] at hc
    exact absurd (List.mem_of_getElem? hc) hv

/-- One more element in front, not the first one of the terminator. -/
theorem EndsOnce.cons {t l : List α} {b : α} (h : EndsOnce t l) (hne : t ≠ []) (hb : b ∉ t.head?) :
    EndsOnce t (b :: l) := by
  refine ⟨h.suffix.trans (List.suffix_cons b l), fun i hi => ?_⟩
  cases i with
  | zero =>
    obtain ⟨c, t, rfl⟩ := List.exists_cons_of_ne_nil hne
    rw [List.drop_zero, List.cons_prefix_cons] at hi
    exact absurd (by simp [hi.1]) hb
  | succ i =>
    have hlen := h.only i hi
    rw [List.length_cons]
    omega

/-- A part up to a `c` in front, that is not the start of a terminator. -/
theorem EndsOnce.append {u v l w : List α} {c : α} (h : EndsOnce (u ++ c :: v) w) (hu : c ∉ u) (hl : c ∉ l)
    (hsuffix : ¬ u <:+ l) : EndsOnce (u ++ c :: v) (l ++ c :: w) := by
  refine ⟨h.suffix.trans ⟨l ++ [c], by simp⟩, fun i hi => ?_⟩
  have hc := getElem?_of_prefix_drop hi
  rcases Nat.lt_or_ge l.length i with hlt | hge
  · -- the occurrence lies in `w`
    obtain ⟨k, rfl⟩ : ∃ k, i = l.length + (k + 1) := ⟨i - l.length - 1, by omega⟩
    have hdrop : (l ++ c :: w).drop (l.length + (k + 1)) = w.drop k := by
      rw [List.drop_append, List.drop_of_length_le (by omega)]
      simp
    have hlen := h.only k (hdrop ▸ hi)
    simp only [List.length_append, List.length_cons] at hlen ⊢
    omega
  · obtain ⟨w', hw'⟩ := hi
    have hdrop : l.drop i ++ c :: w = u ++ c :: (v ++ w') := by
      rw [← List.drop_append_of_le_length hge, ← hw']; simp
    -- both sides begin with what precedes their first `c`
    have hl' : c ∉ l.drop i := fun hmem => hl (List.mem_of_mem_drop hmem)
    rcases List.append_eq_append_iff.1 hdrop with ⟨a, hua, ha⟩ | ⟨a, hla, ha⟩
    · cases a with
      | nil =>
        rw [List.append_nil] at hua
        exact absurd (hua ▸ List.drop_suffix i l) hsuffix
      | cons d a =>
        obtain ⟨rfl, -⟩ := List.cons.inj ha
        exact absurd (by simp [hua]) hu
    · cases a with
      | nil =>
        rw [List.append_nil] at hla
        exact absurd (hla ▸ List.drop_suffix i l) hsuffix
      | cons d a =>
        obtain ⟨rfl, -⟩ := List.cons.inj ha
        exact absurd (by simp [hla]) hl'

/-! ## The last line -/

/-- What follows the last `b` of the text, without the terminator. -/
def lastLine [DecidableEq α] (b : α) (t l : List α) : List α :=
  (l.take (l.length - t.length)).rtakeWhile fun x => x ≠ b

theorem lastLine_append [DecidableEq α] {b : α} {t l pre : List α} (hl : b ∉ l)
    (hpre : ∀ x ∈ pre.getLast?, x = b) :
    lastLine b t (pre ++ (l ++ t)) = l := by
  have htake : (pre ++ (l ++ t)).take ((pre ++ (l ++ t)).length - t.length) = pre ++ l := by
    rw [← List.append_assoc, List.length_append, Nat.add_sub_cancel, List.take_left]
  unfold lastLine
  rw [htake]
  rcases List.eq_nil_or_concat pre with rfl | ⟨pre, d, rfl⟩
  · rw [List.nil_append, List.rtakeWhile_eq_self_iff]
    intro x hx
    have hne : x ≠ b := fun he => hl (he ▸ hx)
    simpa using hne
  · have hd : d = b := hpre d (by simp)
    unfold List.rtakeWhile
    rw [List.reverse_append, List.takeWhile_append_of_pos]
    · simp [hd]
    · intro x hx
      have hne : x ≠ b := fun he => hl (by rw [← he]; simpa using hx)
      simpa using hne

end InfoWorkshop.Terminator
