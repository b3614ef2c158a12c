/-
Decimal text: the lists of characters that `Nat.toDigits 10` writes are the non-empty lists of digits
without a leading zero, and `0` itself.
-/
import Mathlib.Data.List.TakeWhile
import Mathlib.Data.List.Induction

namespace InfoWorkshop.Decimal

/-- Every character is one of `0` to `9`. -/
def Digits (l : List Char) : Prop := ∀ c ∈ l, c.isDigit = true

/-- Decimal text without leading zeros. -/
def Canonical (l : List Char) : Prop :=
  l ≠ [] ∧ Digits l ∧ (l.head? = some '0' → l = ['0'])

instance (l : List Char) : Decidable (Digits l) :=
  List.decidableBAll (fun c : Char => c.isDigit = true) l

instance (l : List Char) : Decidable (Canonical l) :=
  inferInstanceAs (Decidable (_ ∧ _ ∧ _))

theorem digit_cases {c : Char} (h : c.isDigit = true) : ∃ d < 10, c = Nat.digitChar d := by
  simp only [Char.isDigit, Bool.and_eq_true, decide_eq_true_eq, UInt32.le_iff_toNat_le] at h
  have hlo : 48 ≤ c.toNat := h.1
  have hhi : c.toNat ≤ 57 := h.2
  refine ⟨c.toNat - 48, by omega, ?_⟩
  apply Char.ext
  apply UInt32.toNat_inj.1
  have hd := Nat.toNat_digitChar_of_lt_ten (show c.toNat - 48 < 10 by omega)
  show c.toNat = (Nat.digitChar (c.toNat - 48)).toNat
  omega

theorem toDigits_digits (n : Nat) : Digits (Nat.toDigits 10 n) :=
  fun _ hc => Nat.isDigit_of_mem_toDigits (by decide) (by decide) hc

theorem toDigits_head {n : Nat} (hn : 0 < n) : (Nat.toDigits 10 n).head? ≠ some '0' := by
  induction n using Nat.strongRecOn with
  | ind n ih =>
    by_cases hlt : n < 10
    · rw [Nat.toDigits_of_lt_base hlt]
      intro hcontra
      have hz : n.digitChar = '0' := Option.some.inj hcontra
      rw [Nat.digitChar_eq_zero] at hz
      omega
    · rw [Nat.toDigits_of_base_le (by decide) (by omega)]
      have hih := ih (n / 10) (by omega) (by omega)
      rcases hl : Nat.toDigits 10 (n / 10) with _ | ⟨c, cs⟩
      · exact absurd hl Nat.toDigits_ne_nil
      · rw [hl] at hih
        exact hih

theorem toDigits_canonical (n : Nat) : Canonical (Nat.toDigits 10 n) := by
  refine ⟨Nat.toDigits_ne_nil, toDigits_digits n, ?_⟩
  intro hhead
  rcases Nat.eq_zero_or_pos n with rfl | hn
  · rfl
  · exact absurd hhead (toDigits_head hn)

theorem toDigits_snoc {n d : Nat} (hn : 0 < n) (hd : d < 10) :
    Nat.toDigits 10 n ++ [d.digitChar] = Nat.toDigits 10 (10 * n + d) := by
  rw [← Nat.toDigits_append_toDigits (by decide) hn hd, Nat.toDigits_of_lt_base hd]

/-- Decimal text without leading zeros is the text of a number. -/
theorem exists_toDigits {l : List Char} (h : Canonical l) : ∃ n, l = Nat.toDigits 10 n := by
  induction l using List.reverseRecOn with
  | nil => exact absurd rfl h.1
  | append_singleton l c ih =>
    obtain ⟨-, hdig, hzero⟩ := h
    obtain ⟨d, hd, rfl⟩ := digit_cases (hdig c (by simp))
    rcases l with _ | ⟨c, cs⟩
    · exact ⟨d, (Nat.toDigits_of_lt_base hd).symm⟩
    · -- the first digit is not a zero, or the text would be longer than `0`
      have hc : c ≠ '0' := by
        rintro rfl
        have hlen := congrArg List.length (hzero rfl)
        simp at hlen
      obtain ⟨n, hn⟩ := ih ⟨by simp, fun x hx => hdig x (List.mem_append_left _ hx),
        fun hhead => absurd (Option.some.inj hhead) hc⟩
      have hpos : 0 < n := by
        rcases Nat.eq_zero_or_pos n with rfl | hpos
        · rw [Nat.toDigits_zero] at hn
          exact absurd (List.cons.inj hn).1 hc
        · exact hpos
      exact ⟨10 * n + d, by rw [hn, toDigits_snoc hpos hd]⟩

/-- Digits are the text of their own value if and only if they have no leading zero. -/
theorem toDigits_ofDigitChars_iff {l : List Char} (h : Digits l) :
    Nat.toDigits 10 (Nat.ofDigitChars 10 l 0) = l ↔ Canonical l := by
  constructor
  · intro hl
    rw [← hl]
    exact toDigits_canonical _
  · intro hl
    obtain ⟨n, rfl⟩ := exists_toDigits hl
    rw [Nat.ofDigitChars_ten_toDigits]

theorem ofDigitChars_eq_zero {l : List Char} (h : Digits l) (h0 : Nat.ofDigitChars 10 l 0 = 0) :
    ∀ c ∈ l, c = '0' := by
  induction l with
  | nil => simp
  | cons c l ih =>
    obtain ⟨d, hd, rfl⟩ := digit_cases (h c List.mem_cons_self)
    rw [Nat.ofDigitChars_cons_digitChar_of_lt_ten hd, Nat.ofDigitChars_eq_ofDigitChars_zero] at h0
    obtain ⟨hd0, -⟩ := Nat.add_eq_zero_iff.1 h0
    rw [Nat.mul_zero, Nat.zero_add] at hd0
    have hd0 : d = 0 := (Nat.mul_eq_zero.1 hd0).resolve_left (Nat.ne_of_gt (Nat.pow_pos (by decide)))
    subst hd0
    have hl := ih (fun x hx => h x (List.mem_cons_of_mem _ hx)) (by omega)
    rw [List.forall_mem_cons]
    exact ⟨rfl, hl⟩

/-- Further digits leave the value of decimal text as it is only if they are zeros after a zero. -/
theorem ofDigitChars_append_eq_iff {d e : List Char} (hd : Canonical d) (he : Digits e) :
    Nat.ofDigitChars 10 (d ++ e) 0 = Nat.ofDigitChars 10 d 0 ↔ ∀ c ∈ e, d = ['0'] ∧ c = '0' := by
  rw [Nat.ofDigitChars_append]
  constructor
  · intro h c hc
    rw [Nat.ofDigitChars_eq_ofDigitChars_zero] at h
    -- the value of `d` is multiplied by ten at least, and stays
    have hpow : 10 ≤ 10 ^ e.length := Nat.le_self_pow (by rintro h0; simp [List.length_eq_zero_iff.1 h0] at hc) 10
    have hmul := Nat.mul_le_mul_right (Nat.ofDigitChars 10 d 0) hpow
    have hzero : Nat.ofDigitChars 10 d 0 = 0 := by omega
    have hrest : Nat.ofDigitChars 10 e 0 = 0 := by omega
    have hd0 : d = ['0'] := by
      rw [← (toDigits_ofDigitChars_iff hd.2.1).2 hd, hzero]
      rfl
    exact ⟨hd0, ofDigitChars_eq_zero he hrest c hc⟩
  · intro h
    rcases e with _ | ⟨c, e⟩
    · rfl
    · have hd0 := (h c List.mem_cons_self).1
      rw [List.eq_replicate_of_mem fun x hx => (h x hx).2, Nat.ofDigitChars_replicate_zero, hd0]
      rfl

/-! ## Leading digits -/

theorem takeWhile_digits {l : List Char} (h : Digits l) : l.takeWhile Char.isDigit = l :=
  List.takeWhile_eq_self_iff.2 h

theorem digits_takeWhile (l : List Char) : Digits (l.takeWhile Char.isDigit) :=
  fun _ hc => List.mem_takeWhile_imp hc

/-- Leading digits that are followed by a character of another kind are untouched by what comes after. -/
theorem takeWhile_append {p : Char → Bool} {l r : List Char} (h : ∀ c, r.head? = some c → p c = false) :
    (l ++ r).takeWhile p = l.takeWhile p := by
  induction l with
  | nil =>
    rcases r with _ | ⟨c, cs⟩
    · rfl
    · rw [List.nil_append, List.takeWhile_cons_of_neg (by simp [h c rfl])]
      rfl
  | cons a l ih =>
    rw [List.cons_append, List.takeWhile_cons, List.takeWhile_cons, ih]

end InfoWorkshop.Decimal
