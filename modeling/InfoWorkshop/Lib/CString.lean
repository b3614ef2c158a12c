/-
C strings in byte buffers, and the functions of the C library on them: `strtok_r`, `strcasecmp`,
`strcpy` and `vsnprintf`. The strings a buffer holds are described by `StrAt`; what `strtok_r` finds in
a string by `token` and `fields`.
-/
import InfoWorkshop.Lib.Memory
import Mathlib.Data.List.TakeWhile

namespace InfoWorkshop.CString

open InfoWorkshop.Memory

/-- The bytes of a text in ASCII. -/
def bytes (s : String) : Bytes := s.toList.map fun c => UInt8.ofNat c.toNat

/-- The string at offset `s` of the buffer: its bytes up to the first NUL. -/
def cstr (buf : Bytes) (s : Nat) : Bytes := (buf.drop s).takeWhile fun x => x ≠ 0

/-- At offset `s` the buffer holds the string `t` and its NUL. -/
def StrAt (buf : Bytes) (s : Nat) (t : Bytes) : Prop :=
  0 ∉ t ∧ ∃ pre post, buf = pre ++ (t ++ 0 :: post) ∧ pre.length = s

theorem StrAt.cstr_eq {buf : Bytes} {s : Nat} {t : Bytes} (h : StrAt buf s t) : cstr buf s = t := by
  obtain ⟨h0, pre, post, rfl, rfl⟩ := h
  unfold cstr
  rw [List.drop_left, List.takeWhile_append_of_pos]
  · simp
  · intro a ha
    have hne : a ≠ 0 := fun he => h0 (he ▸ ha)
    simpa using hne

/-! ## `strtok_r` -/

def strspn (buf : Bytes) (s : Nat) (delim : Bytes) : Nat :=
  ((buf.drop s).takeWhile fun x => x ∈ delim).length

def strcspn (buf : Bytes) (s : Nat) (delim : Bytes) : Nat :=
  ((buf.drop s).takeWhile fun x => x ≠ 0 ∧ x ∉ delim).length

/-- `strtok_r`: the offset of the token, the buffer, and `*save_ptr`. -/
def strtokR (buf : Bytes) (s : Option Nat) (delim : Bytes) (save : Nat) : Option Nat × Bytes × Nat :=
  let s := s.getD save
  let s := s + strspn buf s delim
  if buf[s]?.getD 0 = 0 then (none, buf, s)
  else
    let e := s + strcspn buf s delim
    if buf[e]?.getD 0 = 0 then (some s, buf, e)
    else (some s, buf.set e 0, e + 1)

/-- The buffer keeps its length. -/
theorem strtokR_length (buf : Bytes) (s : Option Nat) (delim : Bytes) (save : Nat) :
    (strtokR buf s delim save).2.1.length = buf.length := by
  simp only [strtokR]
  split
  · rfl
  · split
    · rfl
    · exact List.length_set

/-- The first maximal non-empty run of bytes outside `delim`, and what follows the delimiter after
it. -/
def token (delim t : Bytes) : Option (Bytes × Bytes) :=
  match t.dropWhile fun x => x ∈ delim with
  | [] => none
  | u => some (u.takeWhile (fun x => x ∉ delim), (u.dropWhile fun x => x ∉ delim).tail)

/-- All maximal non-empty runs of bytes outside `delim`. -/
def fields (delim t : Bytes) : List Bytes := (t.splitOnP fun x => x ∈ delim).filter fun u => u ≠ []

theorem token_of_sep {delim t : Bytes} (h : ∀ x ∈ t, x ∈ delim) : token delim t = none := by
  unfold token
  rw [List.dropWhile_eq_nil_iff.2 (by simpa using h)]

/-- A string with a token: delimiters, the token, and a delimiter with the rest, or nothing more. -/
theorem token_of_split {delim sep u w : Bytes} (hsep : ∀ x ∈ sep, x ∈ delim) (hu : u ≠ [])
    (hud : ∀ x ∈ u, x ∉ delim) (hw : ∀ x ∈ w.head?, x ∈ delim) :
    token delim (sep ++ (u ++ w)) = some (u, w.tail) := by
  obtain ⟨c, u', rfl⟩ := List.exists_cons_of_ne_nil hu
  have hc : c ∉ delim := hud c (by simp)
  have hskip : (sep ++ (c :: u' ++ w)).dropWhile (fun x => x ∈ delim) = c :: u' ++ w := by
    rw [List.dropWhile_append_of_pos (by simpa using hsep)]
    simp [hc]
  have htake : (c :: u' ++ w).takeWhile (fun x => x ∉ delim) = c :: u' := by
    rw [List.takeWhile_append_of_pos (by simpa using hud)]
    cases w with
    | nil => simp
    | cons d w => simp [hw d (by simp)]
  have hdrop : (c :: u' ++ w).dropWhile (fun x => x ∉ delim) = w := by
    rw [List.dropWhile_append_of_pos (by simpa using hud)]
    cases w with
    | nil => simp
    | cons d w => simp [hw d (by simp)]
  unfold token
  rw [hskip]
  show some ((c :: u' ++ w).takeWhile _, ((c :: u' ++ w).dropWhile _).tail) = _
  rw [htake, hdrop]

/-- Every string is of one of these two forms. -/
theorem token_cases (delim t : Bytes) :
    (∀ x ∈ t, x ∈ delim) ∨ ∃ sep u w, t = sep ++ (u ++ w) ∧ (∀ x ∈ sep, x ∈ delim) ∧ u ≠ [] ∧
      (∀ x ∈ u, x ∉ delim) ∧ ∀ x ∈ w.head?, x ∈ delim := by
  have hsep : ∀ x ∈ t.takeWhile (fun x => x ∈ delim), x ∈ delim := fun x hx => by
    simpa using List.mem_takeWhile_imp hx
  rcases hskip : t.dropWhile (fun x => x ∈ delim) with _ | ⟨c, v⟩
  · exact .inl (by simpa using List.dropWhile_eq_nil_iff.1 hskip)
  · refine .inr ⟨t.takeWhile (fun x => x ∈ delim), (c :: v).takeWhile (fun x => x ∉ delim),
      (c :: v).dropWhile (fun x => x ∉ delim), ?_, hsep, ?_, fun x hx => ?_, fun x hx => ?_⟩
    · rw [List.takeWhile_append_dropWhile, ← hskip, List.takeWhile_append_dropWhile]
    · have hc := List.head_dropWhile_not (fun x => decide (x ∈ delim)) (l := t) (by rw [hskip]; simp)
      simp only [hskip, List.head_cons, decide_eq_false_iff_not] at hc
      simp [hc]
    · simpa using List.mem_takeWhile_imp hx
    · rcases hw : (c :: v).dropWhile (fun x => x ∉ delim) with _ | ⟨d, w⟩
      · rw [hw] at hx; cases hx
      · have hd := List.head_dropWhile_not (fun x => decide (x ∉ delim)) (l := c :: v) (by rw [hw]; simp)
        simp only [hw, List.head_cons, decide_eq_false_iff_not, not_not] at hd
        rw [hw] at hx
        cases hx
        exact hd

/-- Fields end at the first delimiter. -/
theorem splitOnP_delim {delim u : Bytes} {d : UInt8} (hu : ∀ x ∈ u, x ∉ delim) (hd : d ∈ delim) (t : Bytes) :
    (u ++ d :: t).splitOnP (fun x => x ∈ delim) = u :: t.splitOnP fun x => x ∈ delim :=
  List.splitOnP_append_cons_of_forall_mem (by simpa using hu) d (by simpa using hd) t

theorem fields_sep {delim sep : Bytes} (h : ∀ x ∈ sep, x ∈ delim) (t : Bytes) :
    fields delim (sep ++ t) = fields delim t := by
  induction sep with
  | nil => rfl
  | cons d sep ih =>
    have hnil : ∀ x ∈ ([] : Bytes), x ∉ delim := by simp
    have hd := splitOnP_delim hnil (h d (by simp)) (sep ++ t)
    rw [List.nil_append] at hd
    rw [← ih fun x hx => h x (by simp [hx])]
    simp only [fields, List.cons_append, hd]
    simp

theorem fields_of_sep {delim t : Bytes} (h : ∀ x ∈ t, x ∈ delim) : fields delim t = [] := by
  rw [← List.append_nil t, fields_sep h]
  rfl

theorem fields_of_split {delim sep u w : Bytes} (hsep : ∀ x ∈ sep, x ∈ delim) (hu : u ≠ [])
    (hud : ∀ x ∈ u, x ∉ delim) (hw : ∀ x ∈ w.head?, x ∈ delim) :
    fields delim (sep ++ (u ++ w)) = u :: fields delim w.tail := by
  rw [fields_sep hsep]
  cases w with
  | nil =>
    simp only [fields, List.append_nil, List.tail_nil]
    rw [List.splitOnP_eq_singleton (by simpa using hud)]
    simp [hu]
  | cons d w =>
    simp only [fields, splitOnP_delim hud (hw d (by simp)), List.tail_cons]
    simp [hu]

/-- The fields are the tokens one after the other. -/
theorem fields_eq (delim t : Bytes) : fields delim t =
    match token delim t with
    | none => []
    | some (u, v) => u :: fields delim v := by
  rcases token_cases delim t with h | ⟨sep, u, w, rfl, hsep, hu, hud, hw⟩
  · rw [token_of_sep h, fields_of_sep h]
  · rw [token_of_split hsep hu hud hw, fields_of_split hsep hu hud hw]

/-! ## `strtok_r` on a string -/

/-- A write past the end of a string leaves it alone. -/
theorem StrAt.set {buf : Bytes} {s e : Nat} {t : Bytes} (h : StrAt buf s t) (he : s + t.length < e) (b : UInt8) :
    StrAt (buf.set e b) s t := by
  obtain ⟨h0, pre, post, rfl, rfl⟩ := h
  obtain ⟨k, rfl⟩ : ∃ k, e = pre.length + (t.length + (k + 1)) := ⟨e - pre.length - t.length - 1, by omega⟩
  refine ⟨h0, pre, post.set k b, ?_, rfl⟩
  rw [List.set_append_right _ _ (by omega), Nat.add_sub_cancel_left,
    List.set_append_right _ _ (by omega), Nat.add_sub_cancel_left]
  rfl

theorem StrAt.drop {buf : Bytes} {s : Nat} {t : Bytes} (h : StrAt buf s t) :
    ∃ post, buf.drop s = t ++ 0 :: post := by
  obtain ⟨-, pre, post, rfl, rfl⟩ := h
  exact ⟨post, List.drop_left⟩

/-- The part of a string from one of its bytes on. -/
theorem StrAt.suffix {buf : Bytes} {s : Nat} {t v : Bytes} (h : StrAt buf s (t ++ v)) :
    StrAt buf (s + t.length) v := by
  obtain ⟨h0, pre, post, rfl, rfl⟩ := h
  exact ⟨fun hv => h0 (by simp [hv]), pre ++ t, post, by simp, by simp⟩

theorem StrAt.getElem? {buf : Bytes} {s : Nat} {t : Bytes} (h : StrAt buf s t) :
    buf[s]?.getD 0 = t.head?.getD 0 := by
  obtain ⟨-, pre, post, rfl, rfl⟩ := h
  rw [List.getElem?_append_right (Nat.le_refl _), Nat.sub_self]
  cases t <;> rfl

theorem StrAt.head_ne {buf : Bytes} {s : Nat} {t : Bytes} (h : StrAt buf s t) (ht : t ≠ []) :
    buf[s]?.getD 0 ≠ 0 := by
  rw [h.getElem?]
  obtain ⟨c, t, rfl⟩ := List.exists_cons_of_ne_nil ht
  exact fun hc => h.1 (by rw [← show c = 0 from hc]; simp)

/-- A NUL in place of the delimiter splits a string in two. -/
theorem StrAt.split {buf : Bytes} {s : Nat} {u v : Bytes} {d : UInt8} (h : StrAt buf s (u ++ d :: v)) :
    StrAt (buf.set (s + u.length) 0) s u ∧ StrAt (buf.set (s + u.length) 0) (s + u.length + 1) v := by
  obtain ⟨h0, pre, post, rfl, rfl⟩ := h
  have hset : (pre ++ (u ++ d :: v ++ 0 :: post)).set (pre.length + u.length) 0 =
      pre ++ (u ++ 0 :: (v ++ 0 :: post)) := by
    rw [List.set_append_right _ _ (by omega), Nat.add_sub_cancel_left, List.append_assoc,
      List.set_append_right _ _ (by omega), Nat.sub_self]
    rfl
  rw [hset]
  exact ⟨⟨fun hu => h0 (by simp [hu]), pre, _, rfl, rfl⟩,
    ⟨fun hv => h0 (by simp [hv]), pre ++ (u ++ [0]), post, by simp, by simp; omega⟩⟩

theorem strspn_eq {buf delim : Bytes} {s : Nat} {sep w : Bytes} (h : StrAt buf s (sep ++ w))
    (hsep : ∀ x ∈ sep, x ∈ delim) (hw : ∀ x ∈ w.head?, x ∉ delim) (h0 : 0 ∉ delim) :
    strspn buf s delim = sep.length := by
  obtain ⟨post, hd⟩ := h.drop
  unfold strspn
  rw [hd, List.append_assoc, List.takeWhile_append_of_pos (by simpa using hsep)]
  cases w with
  | nil => simp [h0]
  | cons c w => simp [hw c (by simp)]

theorem strcspn_eq {buf delim : Bytes} {s : Nat} {u w : Bytes} (h : StrAt buf s (u ++ w))
    (hu : ∀ x ∈ u, x ∉ delim) (hw : ∀ x ∈ w.head?, x ∈ delim) : strcspn buf s delim = u.length := by
  obtain ⟨post, hd⟩ := h.drop
  unfold strcspn
  rw [hd, List.append_assoc, List.takeWhile_append_of_pos]
  · cases w with
    | nil => simp
    | cons d w => simp [hw d (by simp)]
  · intro x hx
    have hne : x ≠ 0 := fun he => h.1 (by simp [← he, hx])
    simp [hne, hu x hx]

/-- What a successful `strtok_r` leaves: the token `u` at `p`, the rest `v` at `q`, and the strings
before `s` as they were. -/
structure Tokenized (buf buf' : Bytes) (s p q : Nat) (u v : Bytes) : Prop where
  token : StrAt buf' p u
  rest : StrAt buf' q v
  start : s ≤ p
  next : p + u.length < q ∨ v = []
  frame : ∀ i x, StrAt buf i x → i + x.length < s → StrAt buf' i x

theorem strtokR_none {buf delim t : Bytes} {s save : Nat} {arg : Option Nat} (h : StrAt buf s t)
    (harg : arg.getD save = s) (h0 : 0 ∉ delim) (ht : token delim t = none) :
    strtokR buf arg delim save = (none, buf, s + t.length) := by
  have hsep : ∀ x ∈ t, x ∈ delim := by
    rcases token_cases delim t with hsep | ⟨sep, u, w, rfl, hsep, hu, hud, hw⟩
    · exact hsep
    · rw [token_of_split hsep hu hud hw] at ht; cases ht
  have hstr : StrAt buf s (t ++ []) := by rwa [List.append_nil]
  have hend : buf[s + t.length]?.getD 0 = 0 := hstr.suffix.getElem?
  unfold strtokR
  simp only [harg, strspn_eq hstr hsep (by simp) h0, hend, if_true]

theorem strtokR_some {buf delim t u v : Bytes} {s save : Nat} {arg : Option Nat} (h : StrAt buf s t)
    (harg : arg.getD save = s) (h0 : 0 ∉ delim) (ht : token delim t = some (u, v)) :
    ∃ p buf' q, strtokR buf arg delim save = (some p, buf', q) ∧ Tokenized buf buf' s p q u v := by
  rcases token_cases delim t with hsep | ⟨sep, u', w, rfl, hsep, hu, hud, hw⟩
  · rw [token_of_sep hsep] at ht; cases ht
  · rw [token_of_split hsep hu hud hw] at ht
    cases ht
    have hhead : ∀ x ∈ (u ++ w).head?, x ∉ delim := by
      obtain ⟨c, u', rfl⟩ := List.exists_cons_of_ne_nil hu
      simpa using hud c (by simp)
    have hsuffix : StrAt buf (s + sep.length) (u ++ w) := h.suffix
    have hne := hsuffix.head_ne (by simp [hu])
    have hspan := strspn_eq h hsep hhead h0
    have hcspan := strcspn_eq hsuffix hud hw
    unfold strtokR
    simp only [harg, hspan, hne, hcspan, if_false]
    cases w with
    | nil =>
      -- the token ends the string, and nothing is written
      rw [List.append_nil] at hsuffix
      have hend : buf[s + sep.length + u.length]?.getD 0 = 0 :=
        (show StrAt buf _ (u ++ []) by rwa [List.append_nil]).suffix.getElem?
      refine ⟨_, _, _, if_pos hend, hsuffix, ?_, by omega, .inr rfl, fun i x hx _ => hx⟩
      exact (show StrAt buf _ (u ++ []) by rwa [List.append_nil]).suffix
    | cons d w =>
      -- the delimiter after the token becomes its NUL
      have hend : buf[s + sep.length + u.length]?.getD 0 ≠ 0 := hsuffix.suffix.head_ne (by simp)
      obtain ⟨htok, hrest⟩ := hsuffix.split
      exact ⟨_, _, _, if_neg hend, htok, hrest, by omega, .inl (by omega), fun i x hx hi => hx.set (by omega) 0⟩

/-! ## The other functions -/

/-- `tolower` in the C locale. -/
def tolower (c : UInt8) : UInt8 := if 65 ≤ c ∧ c ≤ 90 then c + 32 else c

/-- `strcasecmp` of two strings given without their NULs. -/
def strcasecmp : Bytes → Bytes → Int
  | [], [] => 0
  | [], b :: _ => -(tolower b).toNat
  | a :: _, [] => (tolower a).toNat
  -- the first two bytes that differ decide
  | a :: s, b :: t => if tolower a = tolower b then strcasecmp s t else (tolower a).toNat - (tolower b).toNat

theorem tolower_ne_zero {c : UInt8} (h : c ≠ 0) : (tolower c).toNat ≠ 0 := by
  unfold tolower
  split
  · rename_i hc
    have h1 : 65 ≤ c.toNat := hc.1
    have h2 : c.toNat ≤ 90 := hc.2
    rw [UInt8.toNat_add]
    show (c.toNat + 32) % 256 ≠ 0
    omega
  · exact fun h0 => h (UInt8.toNat_inj.1 h0)

/-- Two strings compare equal when they do ignoring case. -/
theorem strcasecmp_eq_zero : ∀ {s t : Bytes}, 0 ∉ s → 0 ∉ t →
    (strcasecmp s t = 0 ↔ s.map tolower = t.map tolower)
  | [], [], _, _ => by simp [strcasecmp]
  | [], b :: t, _, ht => by
    have hb := tolower_ne_zero (c := b) fun h => ht (by simp [h])
    simp only [strcasecmp, List.map_nil, List.map_cons]
    simp; omega
  | a :: s, [], hs, _ => by
    have ha := tolower_ne_zero (c := a) fun h => hs (by simp [h])
    simp only [strcasecmp, List.map_nil, List.map_cons]
    simp; omega
  | a :: s, b :: t, hs, ht => by
    have ih := strcasecmp_eq_zero (s := s) (t := t) (fun h => hs (by simp [h])) fun h => ht (by simp [h])
    simp only [strcasecmp, List.map_cons, List.cons.injEq]
    split
    · rename_i h; simp [h, ih]
    · rename_i h
      have hne : (tolower a).toNat ≠ (tolower b).toNat := fun he => h (UInt8.toNat_inj.1 he)
      simp only [h, false_and, iff_false]
      omega

/-- `strcpy` of the string `t` to the start of a buffer; `none` when it does not fit. -/
def strcpy (dst t : Bytes) : Option Bytes :=
  if t.length < dst.length then some (t ++ 0 :: dst.drop (t.length + 1)) else none

theorem strcpy_strAt {dst t dst' : Bytes} (h : strcpy dst t = some dst') (h0 : 0 ∉ t) :
    StrAt dst' 0 t ∧ dst'.length = dst.length := by
  unfold strcpy at h
  split at h
  · cases h
    exact ⟨⟨h0, [], _, rfl, rfl⟩, by simp; omega⟩
  · cases h

/-- `vsnprintf` of a formatted text into a whole buffer: what fits is stored with a NUL after it, and
the length of the whole text is returned. -/
def vsnprintf (dst text : Bytes) : Nat × Bytes :=
  (text.length, text.take (dst.length - 1) ++ 0 :: dst.drop (min text.length (dst.length - 1) + 1))

end InfoWorkshop.CString
