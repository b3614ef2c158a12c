/-
Regular expressions that are a sequence of character classes, each taken once, at least once or any
number of times, some of them captured. They match at the start of the input, as far as they can, and
give back what they took when what follows does not match.
-/
import Mathlib.Data.List.TakeWhile

namespace InfoWorkshop.Regex

variable {α β : Type*}

/-- How often a class is taken. -/
inductive Times
  | once
  | plus
  | star
  deriving DecidableEq, Repr

/-- A class of characters, and whether what it takes is captured. -/
structure Item (α : Type*) where
  accepts : α → Bool
  times : Times
  captured : Bool

/-- The first answer of `f` from `most` down to `least`. -/
def firstDown (f : ℕ → Option β) (least : ℕ) : ℕ → Option β
  | 0 => if least = 0 then f 0 else none
  | most + 1 =>
    if most + 1 < least then none
    else match f (most + 1) with
      | some b => some b
      | none => firstDown f least most

/-- The captured characters of the first match, and what is left of the input after it. -/
def matchStart : List (Item α) → List α → Option (List α × List α)
  | [], s => some ([], s)
  | it :: its, s =>
    let run := (s.takeWhile it.accepts).length
    let least := if it.times = .star then 0 else 1
    let most := if it.times = .once then min 1 run else run
    firstDown (fun n =>
      (matchStart its (s.drop n)).map fun r =>
        ((if it.captured = true then s.take n else []) ++ r.1, r.2)) least most

/-- A match is replaced by what it captured; without one the input stays as it is. -/
def replace (re : List (Item α)) (s : List α) : List α :=
  match matchStart re s with
  | some r => r.1 ++ r.2
  | none => s

/-! ## One item at a time -/

theorem firstDown_most {f : ℕ → Option β} {least most : ℕ} (h : least ≤ most) {b : β}
    (hb : f most = some b) : firstDown f least most = some b := by
  cases most with
  | zero =>
    rw [firstDown, if_pos (by omega)]
    exact hb
  | succ most => rw [firstDown, if_neg (by omega), hb]

theorem firstDown_none {f : ℕ → Option β} {least most : ℕ}
    (h : ∀ n, least ≤ n → n ≤ most → f n = none) : firstDown f least most = none := by
  induction most with
  | zero =>
    unfold firstDown
    split
    · exact h 0 (by omega) (by omega)
    · rfl
  | succ most ih =>
    unfold firstDown
    split
    · rfl
    · rw [h (most + 1) (by omega) (by omega)]
      exact ih fun n hn hm => h n hn (by omega)

theorem firstDown_top {f : ℕ → Option β} {least most : ℕ} (hl : least ≤ most)
    (h : ∀ n, least ≤ n → n < most → f n = none) : firstDown f least most = f most := by
  rcases hf : f most with _ | b
  · apply firstDown_none
    intro n hn hm
    rcases Nat.lt_or_eq_of_le hm with hlt | rfl
    · exact h n hn hlt
    · exact hf
  · exact firstDown_most hl hf

theorem matchStart_cons (it : Item α) (its : List (Item α)) (s : List α) :
    matchStart (it :: its) s =
      firstDown (fun n =>
        (matchStart its (s.drop n)).map fun r =>
          ((if it.captured = true then s.take n else []) ++ r.1, r.2))
        (if it.times = .star then 0 else 1)
        (if it.times = .once then min 1 (s.takeWhile it.accepts).length
          else (s.takeWhile it.accepts).length) := rfl

/-- A single character that is not captured. -/
theorem matchStart_once (p : α → Bool) (its : List (Item α)) (c : α) (cs : List α) :
    matchStart (⟨p, .once, false⟩ :: its) (c :: cs) =
      if p c = true then matchStart its cs else none := by
  rw [matchStart_cons]
  by_cases hc : p c = true
  · have hrun : min 1 ((c :: cs).takeWhile p).length = 1 := by
      rw [List.takeWhile_cons_of_pos hc, List.length_cons]
      omega
    simp only [hrun, reduceCtorEq, if_false, if_true, Bool.false_eq_true, if_pos hc]
    rw [firstDown_top (by omega) (by omega)]
    simp
  · have hrun : min 1 ((c :: cs).takeWhile p).length = 0 := by
      rw [List.takeWhile_cons_of_neg hc]
      rfl
    simp only [hrun, reduceCtorEq, if_false, if_true, if_neg hc]
    exact firstDown_none (by omega)

/-- Any characters to the end of the input. -/
theorem matchStart_rest (s : List α) : matchStart [⟨fun _ => true, .star, false⟩] s = some ([], []) := by
  have hrun : (s.takeWhile fun _ => true).length = s.length := by
    rw [List.takeWhile_eq_self_iff.2 (by simp)]
  rw [matchStart_cons]
  simp only [hrun, reduceCtorEq, if_false, if_true]
  exact firstDown_most (Nat.zero_le _) (by simp [matchStart])

theorem take_takeWhile (p : α → Bool) (s : List α) : s.take (s.takeWhile p).length = s.takeWhile p :=
  (List.prefix_iff_eq_take.1 (List.takeWhile_prefix p)).symm

theorem drop_takeWhile (p : α → Bool) (s : List α) : s.drop (s.takeWhile p).length = s.dropWhile p := by
  induction s with
  | nil => rfl
  | cons c cs ih =>
    by_cases hc : p c = true
    · rw [List.takeWhile_cons_of_pos hc, List.dropWhile_cons_of_pos hc]
      exact ih
    · rw [List.takeWhile_cons_of_neg hc, List.dropWhile_cons_of_neg hc]
      rfl

theorem drop_of_lt_takeWhile {p : α → Bool} {s : List α} {n : ℕ} (h : n < (s.takeWhile p).length) :
    ∃ c cs, s.drop n = c :: cs ∧ p c = true := by
  have hn : n < s.length := Nat.lt_of_lt_of_le h (List.takeWhile_prefix p).length_le
  refine ⟨s[n], s.drop (n + 1), List.drop_eq_getElem_cons hn, ?_⟩
  have hmem : (s.takeWhile p)[n] ∈ s.takeWhile p := List.getElem_mem h
  have heq : (s.takeWhile p)[n] = s[n] := (List.takeWhile_prefix p).getElem h
  rw [heq] at hmem
  exact List.mem_takeWhile_imp hmem

/-- A class that is taken at least once goes as far as it can, when what follows matches there or cannot
begin with a character of the class. -/
theorem matchStart_plus (p : α → Bool) (captured : Bool) (its : List (Item α)) (s : List α)
    (h : (matchStart its (s.dropWhile p)).isSome = true ∨
      ∀ c cs, p c = true → matchStart its (c :: cs) = none) :
    matchStart (⟨p, .plus, captured⟩ :: its) s =
      if s.takeWhile p = [] then none
      else (matchStart its (s.dropWhile p)).map fun r =>
        ((if captured = true then s.takeWhile p else []) ++ r.1, r.2) := by
  rw [matchStart_cons]
  simp only [reduceCtorEq, if_false]
  by_cases hrun : s.takeWhile p = []
  · rw [if_pos hrun, hrun]
    rfl
  · have hpos : 1 ≤ (s.takeWhile p).length := List.length_pos_iff.2 hrun
    rw [if_neg hrun]
    have htop : ∀ f : ℕ → Option (List α × List α), (f (s.takeWhile p).length).isSome = true ∨
        (∀ n, 1 ≤ n → n < (s.takeWhile p).length → f n = none) →
        firstDown f 1 (s.takeWhile p).length = f (s.takeWhile p).length := by
      rintro f (hsome | hnone)
      · obtain ⟨b, hb⟩ := Option.isSome_iff_exists.1 hsome
        rw [hb]
        exact firstDown_most hpos hb
      · exact firstDown_top hpos hnone
    rw [htop, take_takeWhile, drop_takeWhile]
    rcases h with h | h
    · left
      rw [drop_takeWhile, Option.isSome_map]
      exact h
    · right
      intro n _ hn
      obtain ⟨c, cs, hdrop, hc⟩ := drop_of_lt_takeWhile hn
      rw [hdrop, h c cs hc]
      rfl

end InfoWorkshop.Regex
