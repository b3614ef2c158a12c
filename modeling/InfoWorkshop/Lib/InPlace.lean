/-
`strtok_r` in a block of memory that ends: every byte it looks at is read from the block, and it yields
`none` when a byte past the end would be read. Where it succeeds it agrees with `strtokR`, and what lies
behind the block does not matter to it.
-/
import InfoWorkshop.Lib.CString

namespace InfoWorkshop.CString

open InfoWorkshop.Memory

/-- How many bytes at the start of `mem` satisfy `p`; `none` when the search for another one would leave
`mem`. -/
def spanIn (p : UInt8 → Bool) : Bytes → Option Nat
  | [] => none
  | c :: mem =>
    if p c then
      match spanIn p mem with
      | none => none
      | some n => some (n + 1)
    else some 0

def strspnIn (buf : Bytes) (s : Nat) (delim : Bytes) : Option Nat :=
  spanIn (fun x => x ∈ delim) (buf.drop s)

def strcspnIn (buf : Bytes) (s : Nat) (delim : Bytes) : Option Nat :=
  spanIn (fun x => x ≠ 0 ∧ x ∉ delim) (buf.drop s)

/-- `strtok_r` within `buf`. -/
def strtokRIn (buf : Bytes) (s : Option Nat) (delim : Bytes) (save : Nat) :
    Option (Option Nat × Bytes × Nat) :=
  let s := s.getD save
  match strspnIn buf s delim with
  | none => none
  | some n =>
    let s := s + n
    match buf[s]? with
    | none => none
    | some c =>
      if c = 0 then some (none, buf, s)
      else
        match strcspnIn buf s delim with
        | none => none
        | some m =>
          let e := s + m
          match buf[e]? with
          | none => none
          | some d => if d = 0 then some (some s, buf, e) else some (some s, buf.set e 0, e + 1)

/-! ## Searching -/

theorem spanIn_takeWhile {p : UInt8 → Bool} : ∀ {mem : Bytes} {n : Nat}, spanIn p mem = some n →
    (mem.takeWhile p).length = n ∧ ∃ c, mem[n]? = some c ∧ p c = false
  | c :: mem, n, h => by
    by_cases hc : p c = true
    · simp only [spanIn, hc, if_true] at h
      split at h
      · cases h
      · rename_i m hm
        cases h
        obtain ⟨hlen, d, hd, hp⟩ := spanIn_takeWhile hm
        refine ⟨?_, d, by simpa using hd, hp⟩
        rw [List.takeWhile_cons_of_pos hc, List.length_cons, hlen]
    · simp only [spanIn, hc] at h
      cases h
      have hfalse : p c = false := by simpa using hc
      exact ⟨by rw [List.takeWhile_cons_of_neg hc, List.length_nil], c, rfl, hfalse⟩

theorem spanIn_append {p : UInt8 → Bool} (junk : Bytes) : ∀ {mem : Bytes} {n : Nat}, spanIn p mem = some n →
    spanIn p (mem ++ junk) = some n
  | c :: mem, n, h => by
    by_cases hc : p c = true
    · simp only [spanIn, hc, if_true] at h
      split at h
      · cases h
      · rename_i m hm
        simp only [List.cons_append, spanIn, hc, if_true, spanIn_append junk hm]
        exact h
    · simp only [spanIn, hc] at h
      simp only [List.cons_append, spanIn, hc]
      exact h

/-- The search ends at a byte that does not satisfy `p`, if there is one. -/
theorem spanIn_of_getElem? {p : UInt8 → Bool} : ∀ {mem : Bytes} {k : Nat} {c : UInt8}, mem[k]? = some c →
    p c = false → ∃ n, n ≤ k ∧ spanIn p mem = some n
  | d :: mem, k, c, hc, hp => by
    by_cases hd : p d = true
    · cases k with
      | zero =>
        obtain rfl : d = c := by simpa using hc
        rw [hp] at hd; cases hd
      | succ k =>
        obtain ⟨n, hle, hn⟩ := spanIn_of_getElem? (by simpa using hc) hp
        exact ⟨n + 1, by omega, by simp only [spanIn, hd, if_true, hn]⟩
    · exact ⟨0, Nat.zero_le k, by simp only [spanIn, hd]; rfl⟩

/-- A search from offset `s` on that ends, ends within the block. -/
theorem spanIn_drop {p : UInt8 → Bool} {buf : Bytes} {s n : Nat} (h : spanIn p (buf.drop s) = some n) :
    ((buf.drop s).takeWhile p).length = n ∧ s + n < buf.length ∧ ∃ c, buf[s + n]? = some c ∧ p c = false := by
  obtain ⟨hlen, c, hc, hp⟩ := spanIn_takeWhile h
  rw [List.getElem?_drop] at hc
  exact ⟨hlen, (List.getElem?_eq_some_iff.1 hc).1, c, hc, hp⟩

/-- The bytes behind the block do not matter to a search that ends. -/
theorem spanIn_drop_append {p : UInt8 → Bool} {buf : Bytes} {s n : Nat} (junk : Bytes)
    (h : spanIn p (buf.drop s) = some n) : spanIn p ((buf ++ junk).drop s) = some n := by
  have hlt := (spanIn_drop h).2.1
  rw [List.drop_append_of_le_length (by omega)]
  exact spanIn_append junk h

/-! ## `strtok_r` -/

/-- What a call within the block can do. -/
theorem strtokRIn_cases {buf delim : Bytes} {arg : Option Nat} {save : Nat} {r : Option Nat × Bytes × Nat}
    (h : strtokRIn buf arg delim save = some r) :
    ∃ n, strspnIn buf (arg.getD save) delim = some n ∧
      ((buf[arg.getD save + n]? = some 0 ∧ r = (none, buf, arg.getD save + n)) ∨
        ∃ c m d, buf[arg.getD save + n]? = some c ∧ c ≠ 0 ∧
          strcspnIn buf (arg.getD save + n) delim = some m ∧ buf[arg.getD save + n + m]? = some d ∧
          ((d = 0 ∧ r = (some (arg.getD save + n), buf, arg.getD save + n + m)) ∨
            (d ≠ 0 ∧ r = (some (arg.getD save + n), buf.set (arg.getD save + n + m) 0,
              arg.getD save + n + m + 1)))) := by
  unfold strtokRIn at h
  rcases hn : strspnIn buf (arg.getD save) delim with _ | n
  · simp [hn] at h
  · simp only [hn] at h
    refine ⟨n, rfl, ?_⟩
    rcases hc : buf[arg.getD save + n]? with _ | c
    · simp [hc] at h
    · simp only [hc] at h
      split at h
      · rename_i h0
        cases h
        exact .inl ⟨by rw [h0], rfl⟩
      · rename_i h0
        rcases hm : strcspnIn buf (arg.getD save + n) delim with _ | m
        · simp [hm] at h
        · simp only [hm] at h
          rcases hd : buf[arg.getD save + n + m]? with _ | d
          · simp [hd] at h
          · simp only [hd] at h
            refine .inr ⟨c, m, d, rfl, h0, rfl, hd, ?_⟩
            split at h
            · rename_i hz; cases h; exact .inl ⟨hz, rfl⟩
            · rename_i hz; cases h; exact .inr ⟨hz, rfl⟩

/-- Where the call stays within the block it does what `strtokR` does. -/
theorem strtokRIn_eq {buf delim : Bytes} {arg : Option Nat} {save : Nat} {r : Option Nat × Bytes × Nat}
    (h : strtokRIn buf arg delim save = some r) : strtokR buf arg delim save = r := by
  obtain ⟨n, hn, hr⟩ := strtokRIn_cases h
  have hspn : strspn buf (arg.getD save) delim = n := (spanIn_drop hn).1
  unfold strtokR
  simp only [hspn]
  rcases hr with ⟨hc, rfl⟩ | ⟨c, m, d, hc, h0, hm, hd, hr⟩
  · simp [hc]
  · have hcspn : strcspn buf (arg.getD save + n) delim = m := (spanIn_drop hm).1
    simp only [hc, Option.getD_some, h0, if_false, hcspn, hd]
    rcases hr with ⟨hz, rfl⟩ | ⟨hz, rfl⟩
    · rw [if_pos hz]
    · rw [if_neg hz]

/-- What lies behind the block is neither read nor written. -/
theorem strtokRIn_append {buf buf' delim : Bytes} {arg res : Option Nat} {save q : Nat} (junk : Bytes)
    (h : strtokRIn buf arg delim save = some (res, buf', q)) :
    strtokRIn (buf ++ junk) arg delim save = some (res, buf' ++ junk, q) := by
  have hread : ∀ {i : Nat} {c : UInt8}, buf[i]? = some c → (buf ++ junk)[i]? = some c := fun hc => by
    rw [List.getElem?_append_left (List.getElem?_eq_some_iff.1 hc).1, hc]
  obtain ⟨n, hn, hr⟩ := strtokRIn_cases h
  have hspn : strspnIn (buf ++ junk) (arg.getD save) delim = some n := spanIn_drop_append junk hn
  unfold strtokRIn
  simp only [hspn]
  rcases hr with ⟨hc, hr⟩ | ⟨c, m, d, hc, h0, hm, hd, hr⟩
  · cases hr
    simp [hread hc]
  · have hcspn : strcspnIn (buf ++ junk) (arg.getD save + n) delim = some m := spanIn_drop_append junk hm
    simp only [hread hc, h0, if_false, hcspn, hread hd]
    rcases hr with ⟨hz, hr⟩ | ⟨hz, hr⟩
    · cases hr
      rw [if_pos hz]
    · cases hr
      rw [if_neg hz, List.set_append_left _ _ (List.getElem?_eq_some_iff.1 hd).1]

/-- On a string the call stays within the block: its NUL ends both searches. -/
theorem strtokRIn_of_strAt {buf delim t : Bytes} {arg : Option Nat} {s save : Nat} (h : StrAt buf s t)
    (harg : arg.getD save = s) (h0 : 0 ∉ delim) : ∃ r, strtokRIn buf arg delim save = some r := by
  obtain ⟨post, hdrop⟩ := h.drop
  have hnul : ∀ {i : Nat}, i ≤ t.length → (buf.drop (s + i))[t.length - i]? = some 0 := fun {i} hi => by
    have hi' : s + i + (t.length - i) = s + t.length := by omega
    rw [List.getElem?_drop, hi', ← List.getElem?_drop, hdrop, List.getElem?_append_right (Nat.le_refl _)]
    simp
  obtain ⟨n, hle, hn⟩ := spanIn_of_getElem? (p := fun x => x ∈ delim) (hnul (Nat.zero_le _)) (by simpa using h0)
  have hspn : strspnIn buf s delim = some n := hn
  obtain ⟨-, -, c, hc, -⟩ := spanIn_drop hspn
  unfold strtokRIn
  simp only [harg, hspn, hc]
  by_cases hz : c = 0
  · exact ⟨_, if_pos hz⟩
  · obtain ⟨m, -, hm⟩ := spanIn_of_getElem? (p := fun x => x ≠ 0 ∧ x ∉ delim)
      (hnul (show n ≤ t.length by omega)) (by simp)
    have hcspn : strcspnIn buf (s + n) delim = some m := hm
    obtain ⟨-, -, d, hd, -⟩ := spanIn_drop hcspn
    simp only [hcspn, hd]
    rw [if_neg hz]
    by_cases hzd : d = 0
    · exact ⟨_, if_pos hzd⟩
    · exact ⟨_, if_neg hzd⟩

/-! ## What is written -/

/-- `buf'` is `buf` with some bytes out of `delim` turned into NUL. -/
structure Cut (delim buf buf' : Bytes) : Prop where
  length : buf'.length = buf.length
  byte : ∀ (i : Nat) (b : UInt8), buf[i]? = some b → buf'[i]? = some b ∨ buf'[i]? = some 0 ∧ b ∈ delim

theorem Cut.refl (delim buf : Bytes) : Cut delim buf buf := ⟨rfl, fun _ _ h => .inl h⟩

theorem Cut.trans {delim buf buf' buf'' : Bytes} (h : Cut delim buf buf') (h' : Cut delim buf' buf'') :
    Cut delim buf buf'' := by
  refine ⟨h'.length.trans h.length, fun i b hb => ?_⟩
  rcases h.byte i b hb with hb' | ⟨hb', hd⟩
  · exact h'.byte i b hb'
  · rcases h'.byte i 0 hb' with h0 | ⟨h0, -⟩
    · exact .inr ⟨h0, hd⟩
    · exact .inr ⟨h0, hd⟩

theorem Cut.mono {delim delim' buf buf' : Bytes} (h : Cut delim buf buf') (hd : ∀ x ∈ delim, x ∈ delim') :
    Cut delim' buf buf' := by
  refine ⟨h.length, fun i b hb => ?_⟩
  rcases h.byte i b hb with hb' | ⟨hb', hmem⟩
  · exact .inl hb'
  · exact .inr ⟨hb', hd b hmem⟩

theorem strtokRIn_cut {buf buf' delim : Bytes} {arg res : Option Nat} {save q : Nat}
    (h : strtokRIn buf arg delim save = some (res, buf', q)) : Cut delim buf buf' := by
  obtain ⟨n, -, ⟨-, hr⟩ | ⟨c, m, d, -, -, hm, hd, ⟨-, hr⟩ | ⟨hz, hr⟩⟩⟩ := strtokRIn_cases h
  · cases hr; exact .refl ..
  · cases hr; exact .refl ..
  · cases hr
    obtain ⟨-, hlt, d', hd', hp⟩ := spanIn_drop hm
    obtain rfl : d' = d := Option.some.inj (hd'.symm.trans hd)
    have hmem : d' ∈ delim := by simpa [hz] using hp
    refine ⟨List.length_set, fun i b hb => ?_⟩
    by_cases hi : arg.getD save + n + m = i
    · subst hi
      obtain rfl : b = d' := Option.some.inj (hb.symm.trans hd)
      exact .inr ⟨List.getElem?_set_self hlt, hmem⟩
    · exact .inl (by rw [List.getElem?_set_ne hi, hb])

/-- The last byte of a block, when it is no delimiter, stays. -/
theorem Cut.concat {delim buf buf' : Bytes} {c : UInt8} (h : Cut delim (buf ++ [c]) buf') (hc : c ∉ delim) :
    ∃ buf'', buf' = buf'' ++ [c] ∧ Cut delim buf buf'' := by
  rcases List.eq_nil_or_concat' buf' with rfl | ⟨buf'', d, rfl⟩
  · have hlen := h.length
    simp at hlen
  · have hlen : buf''.length = buf.length := by simpa using h.length
    have hlast := h.byte buf.length c (by simp)
    rw [List.getElem?_append_right (by omega), hlen, Nat.sub_self] at hlast
    have hd : d = c := by simpa [hc] using hlast
    refine ⟨buf'', by rw [hd], hlen, fun i b hb => ?_⟩
    have hi : i < buf.length := (List.getElem?_eq_some_iff.1 hb).1
    have hbyte := h.byte i b (by rw [List.getElem?_append_left hi, hb])
    rwa [List.getElem?_append_left (by omega)] at hbyte

/-- A call on a string finds what `token` finds, within the block and whatever follows it. -/
theorem strtokRIn_token {buf delim t : Bytes} {arg : Option Nat} {s save : Nat} (h : StrAt buf s t)
    (harg : arg.getD save = s) (h0 : 0 ∉ delim) :
    (token delim t = none ∧ ∀ junk, strtokRIn (buf ++ junk) arg delim save =
        some (none, buf ++ junk, s + t.length)) ∨
      ∃ u v p buf' q, token delim t = some (u, v) ∧ strtokR buf arg delim save = (some p, buf', q) ∧
        Tokenized buf buf' s p q u v ∧ Cut delim buf buf' ∧
        ∀ junk, strtokRIn (buf ++ junk) arg delim save = some (some p, buf' ++ junk, q) := by
  obtain ⟨⟨res, buf', q⟩, hin⟩ := strtokRIn_of_strAt h harg h0
  have heq := strtokRIn_eq hin
  rcases ht : token delim t with _ | ⟨u, v⟩
  · refine .inl ⟨rfl, fun junk => ?_⟩
    rw [strtokR_none h harg h0 ht] at heq
    cases heq
    exact strtokRIn_append junk hin
  · obtain ⟨p, buf₁, q₁, htok, hT⟩ := strtokR_some h harg h0 ht
    obtain ⟨rfl, rfl, rfl⟩ : some p = res ∧ buf₁ = buf' ∧ q₁ = q := by simpa [htok] using heq
    exact .inr ⟨u, v, p, buf₁, q₁, rfl, htok, hT, strtokRIn_cut hin, fun junk => strtokRIn_append junk hin⟩

/-- A string stays where it is when bytes follow the block. -/
theorem StrAt.append {buf t : Bytes} {s : Nat} (h : StrAt buf s t) (junk : Bytes) : StrAt (buf ++ junk) s t := by
  obtain ⟨h0, pre, post, rfl, rfl⟩ := h
  exact ⟨h0, pre, post ++ junk, by simp, rfl⟩

end InfoWorkshop.CString
