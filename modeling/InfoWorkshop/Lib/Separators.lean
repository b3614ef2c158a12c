/-
Texts put together with separators, and how far they can be taken apart again.
-/
import Mathlib.Data.List.Basic

namespace InfoWorkshop.Separators

variable {α : Type*}

/-- The parts between separators hold none. -/
theorem splitOnP_part {p : α → Bool} {l u : List α} (h : u ∈ l.splitOnP p) : ∀ x ∈ u, p x = false := by
  induction l generalizing u with
  | nil =>
    rw [List.splitOnP_nil, List.mem_singleton] at h
    subst h
    exact fun x hx => absurd hx List.not_mem_nil
  | cons c cs ih =>
    rw [List.splitOnP_cons_eq_if_modifyHead] at h
    split at h
    · rcases List.mem_cons.1 h with rfl | h
      · exact fun x hx => absurd hx List.not_mem_nil
      · exact ih h
    · rename_i hc
      rcases hparts : cs.splitOnP p with _ | ⟨part, parts⟩
      · exact absurd hparts (List.splitOnP_ne_nil _ _)
      · rw [hparts] at h ih
        rcases List.mem_cons.1 h with rfl | h
        · rw [List.forall_mem_cons]
          exact ⟨by simpa using hc, ih List.mem_cons_self⟩
        · exact ih (List.mem_cons_of_mem _ h)

/-- Where two texts with a separator are equal, the separator is in the same place, or it occurs before one of
them and behind the other. -/
theorem append_cons_cases {s : α} {a b x y : List α} (h : a ++ s :: x = b ++ s :: y) :
    (a = b ∧ x = y) ∨ (∃ m, b = a ++ s :: m ∧ x = m ++ s :: y) ∨ ∃ m, a = b ++ s :: m ∧ y = m ++ s :: x := by
  rcases List.append_eq_append_iff.1 h with ⟨m, rfl, hm⟩ | ⟨m, rfl, hm⟩
  · rcases m with _ | ⟨c, m⟩
    · exact .inl ⟨(List.append_nil a).symm, (List.cons.inj hm).2⟩
    · obtain ⟨rfl, rfl⟩ := List.cons.inj hm
      exact .inr (.inl ⟨m, rfl, rfl⟩)
  · rcases m with _ | ⟨c, m⟩
    · exact .inl ⟨List.append_nil b, (List.cons.inj hm).2.symm⟩
    · obtain ⟨rfl, rfl⟩ := List.cons.inj hm
      exact .inr (.inr ⟨m, rfl, rfl⟩)

/-- A text that is empty or begins with the separator. -/
def Headed (s : α) (t : List α) : Prop := ∀ c ∈ t.head?, c = s

theorem Headed.nil (s : α) : Headed s [] := by
  intro c hc
  cases hc

theorem Headed.cons (s : α) (t : List α) : Headed s (s :: t) := by
  intro c hc
  cases hc
  rfl

/-- Before the first separator equal texts agree. -/
theorem append_inj_of_notMem {s : α} {a b x y : List α} (ha : s ∉ a) (hb : s ∉ b) (hx : Headed s x)
    (hy : Headed s y) (h : a ++ x = b ++ y) : a = b ∧ x = y := by
  rcases List.append_eq_append_iff.1 h with ⟨m, rfl, hm⟩ | ⟨m, rfl, hm⟩
  · rcases m with _ | ⟨c, m⟩
    · exact ⟨(List.append_nil a).symm, hm⟩
    · have hc : c = s := hx c (by rw [hm]; rfl)
      exact absurd (List.mem_append_right a List.mem_cons_self) (hc ▸ hb)
  · rcases m with _ | ⟨c, m⟩
    · exact ⟨List.append_nil b, hm.symm⟩
    · have hc : c = s := hy c (by rw [hm]; rfl)
      exact absurd (List.mem_append_right b List.mem_cons_self) (hc ▸ ha)

theorem headed_flatMap (s : α) (l : List (List α)) : Headed s (l.flatMap fun a => s :: a) := by
  cases l with
  | nil => exact Headed.nil s
  | cons a l => exact Headed.cons s _

/-- Parts without the separator can be read back. -/
theorem flatMap_cons_inj {s : α} {l l' : List (List α)} (h : ∀ a ∈ l, s ∉ a) (h' : ∀ a ∈ l', s ∉ a)
    (heq : (l.flatMap fun a => s :: a) = l'.flatMap fun a => s :: a) : l = l' := by
  induction l generalizing l' with
  | nil =>
    cases l' with
    | nil => rfl
    | cons b l' => cases heq
  | cons a l ih =>
    cases l' with
    | nil => cases heq
    | cons b l' =>
      obtain ⟨ha, hl⟩ := List.forall_mem_cons.1 h
      obtain ⟨hb, hl'⟩ := List.forall_mem_cons.1 h'
      rw [List.flatMap_cons, List.flatMap_cons] at heq
      obtain ⟨rfl, hrest⟩ := append_inj_of_notMem ha hb (headed_flatMap s l) (headed_flatMap s l') (List.cons.inj heq).2
      rw [ih hl hl' hrest]

end InfoWorkshop.Separators
