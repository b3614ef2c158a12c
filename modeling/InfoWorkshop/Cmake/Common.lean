/-
`cmake/common.cmake`: the firmware version that the build reads from the output of `git describe`, and
when it is the version that the release script reads from the tag.
-/
import InfoWorkshop.Lib.Regex
import InfoWorkshop.Lib.Separators
import InfoWorkshop.Scripts.GitUtils

namespace InfoWorkshop.Cmake

open InfoWorkshop.Regex InfoWorkshop.Separators InfoWorkshop.Decimal InfoWorkshop.Scripts

/-- A character that stands for itself. -/
def lit (c : Char) : Item Char := ⟨(· == c), .once, false⟩

/-- `[0-9]+`, in parentheses when it is captured. -/
def digits (captured : Bool) : Item Char := ⟨Char.isDigit, .plus, captured⟩

/-- `.*`. -/
def rest : Item Char := ⟨fun _ => true, .star, false⟩

/-- `^v([0-9]+)\..*`. -/
def majorRegex : List (Item Char) := [lit 'v', digits true, lit '.', rest]

/-- `^v[0-9]+\.([0-9]+).*`. -/
def minorRegex : List (Item Char) := [lit 'v', digits false, lit '.', digits true, rest]

/-- `^v[0-9]+\.[0-9]+\.([0-9]+).*`. -/
def patchRegex : List (Item Char) :=
  [lit 'v', digits false, lit '.', digits false, lit '.', digits true, rest]

/-- `CFG_FW_VERSION`. -/
def cfgFwVersion (gitDescribeOut : List Char) : List Char :=
  replace majorRegex gitDescribeOut ++ '.' :: (replace minorRegex gitDescribeOut ++
    '.' :: replace patchRegex gitDescribeOut)

/-- The text `major.minor.patch`. -/
def versionText (v : Int × Int × Int) : List Char :=
  str v.1 ++ '.' :: (str v.2.1 ++ '.' :: str v.2.2)

/-- What `git describe` writes after the tag: nothing, or the number of commits since and the hash. -/
def DescribeSuffix (suffix : List Char) : Prop :=
  suffix = [] ∨ ∃ n hash : List Char, n ≠ [] ∧ Digits n ∧
    (∀ c ∈ hash, c.isDigit = true ∨ c ∈ ['a', 'b', 'c', 'd', 'e', 'f']) ∧
    suffix = '-' :: (n ++ '-' :: 'g' :: hash)

/-! ## What the expressions match -/

/-- The digits at the start of a text. -/
def leading (s : List Char) : List Char := s.takeWhile Char.isDigit

/-- The text after leading digits and a dot. -/
def afterDot (s : List Char) : Option (List Char) :=
  if leading s = [] then none
  else match s.dropWhile Char.isDigit with
    | [] => none
    | c :: cs => if c = '.' then some cs else none

theorem matchStart_digits_dot (captured : Bool) (its : List (Item Char)) (s : List Char) :
    matchStart (digits captured :: lit '.' :: its) s =
      (afterDot s).bind fun r => (matchStart its r).map fun x =>
        ((if captured = true then leading s else []) ++ x.1, x.2) := by
  have hdot : ∀ c cs, c.isDigit = true → matchStart (lit '.' :: its) (c :: cs) = none := by
    intro c cs hc
    unfold lit
    rw [matchStart_once, if_neg (by simpa using (digit_kind hc).2.2.2.2.1)]
  unfold digits afterDot leading
  rw [matchStart_plus _ _ _ _ (.inr hdot)]
  split
  · rfl
  · unfold lit
    rcases s.dropWhile Char.isDigit with _ | ⟨c, cs⟩
    · rfl
    · rw [matchStart_once]
      by_cases hc : c = '.'
      · simp [hc]
      · simp [hc]

theorem matchStart_digits_rest (s : List Char) :
    matchStart [digits true, rest] s = if leading s = [] then none else some (leading s, []) := by
  have hrest : matchStart [rest] (s.dropWhile Char.isDigit) = some ([], []) := matchStart_rest _
  unfold digits leading
  rw [matchStart_plus _ _ _ _ (.inl (by rw [hrest]; rfl)), hrest]
  simp

theorem matchStart_v (its : List (Item Char)) (t : List Char) :
    matchStart (lit 'v' :: its) ('v' :: t) = matchStart its t := by
  unfold lit
  rw [matchStart_once, if_pos (by decide)]

theorem replace_major (t : List Char) :
    replace majorRegex ('v' :: t) = if (afterDot t).isSome = true then leading t else 'v' :: t := by
  unfold replace majorRegex
  rw [matchStart_v, matchStart_digits_dot]
  rcases afterDot t with _ | r
  · rfl
  · have hrest : matchStart [rest] r = some ([], []) := matchStart_rest r
    simp [hrest]

theorem replace_minor (t : List Char) :
    replace minorRegex ('v' :: t) =
      match afterDot t with
      | none => 'v' :: t
      | some r => if leading r = [] then 'v' :: t else leading r := by
  unfold replace minorRegex
  rw [matchStart_v, matchStart_digits_dot]
  rcases afterDot t with _ | r
  · rfl
  · simp only [Option.bind_some, matchStart_digits_rest]
    by_cases hr : leading r = [] <;> simp [hr]

theorem replace_patch (t : List Char) :
    replace patchRegex ('v' :: t) =
      match (afterDot t).bind afterDot with
      | none => 'v' :: t
      | some r => if leading r = [] then 'v' :: t else leading r := by
  unfold replace patchRegex
  rw [matchStart_v, matchStart_digits_dot]
  rcases afterDot t with _ | r
  · rfl
  · simp only [Option.bind_some, matchStart_digits_dot]
    rcases afterDot r with _ | r'
    · rfl
    · simp only [Option.bind_some, matchStart_digits_rest]
      by_cases hr : leading r' = [] <;> simp [hr]

/-! ## Components between dots -/

theorem leading_append_dot (a r : List Char) : leading (a ++ '.' :: r) = leading a :=
  takeWhile_append fun c hc => by cases hc; rfl

/-- The dot after a component is reached if and only if the component is digits. -/
theorem afterDot_append {a : List Char} (ha : '.' ∉ a) (r : List Char) :
    afterDot (a ++ '.' :: r) = if a ≠ [] ∧ Digits a then some r else none := by
  unfold afterDot
  rw [leading_append_dot, List.dropWhile_append]
  by_cases hd : Digits a
  · have hlead : leading a = a := takeWhile_digits hd
    have hdrop : a.dropWhile Char.isDigit = [] := List.dropWhile_eq_nil_iff.2 hd
    rw [hlead, hdrop]
    by_cases hnil : a = []
    · simp [hnil]
    · have hdot : ('.' :: r).dropWhile Char.isDigit = '.' :: r := List.dropWhile_cons_of_neg (by decide)
      simp [hnil, hd, hdot]
  · rw [if_neg (show ¬ (a ≠ [] ∧ Digits a) from fun h => hd h.2)]
    rcases hdrop : a.dropWhile Char.isDigit with _ | ⟨c, cs⟩
    · exact absurd (List.dropWhile_eq_nil_iff.1 hdrop) hd
    · have hc : c ≠ '.' := by
        rintro rfl
        exact ha ((List.dropWhile_suffix _).subset (hdrop ▸ List.mem_cons_self))
      simp [hc]

theorem afterDot_none {s : List Char} (hs : '.' ∉ s) : afterDot s = none := by
  unfold afterDot
  split
  · rfl
  · split
    · rfl
    · rename_i c cs hdrop
      rw [if_neg]
      rintro rfl
      exact hs ((List.dropWhile_suffix _).subset (hdrop ▸ List.mem_cons_self))

theorem not_mem_splitOn {s part : List Char} (h : part ∈ s.splitOn '.') : '.' ∉ part := by
  rw [List.splitOn_eq_splitOnP] at h
  intro hdot
  exact absurd (splitOnP_part h '.' hdot) (by decide)

/-- Texts joined by dots are equal if and only if their components are. -/
theorem join_inj {a b c x y z : List Char} (ha : '.' ∉ a) (hb : '.' ∉ b) (hc : '.' ∉ c) (hx : '.' ∉ x)
    (hy : '.' ∉ y) (hz : '.' ∉ z) :
    a ++ '.' :: (b ++ '.' :: c) = x ++ '.' :: (y ++ '.' :: z) ↔ a = x ∧ b = y ∧ c = z := by
  constructor
  · intro h
    have hsplit := congrArg (List.splitOn '.') h
    rw [List.splitOn_append_cons_self_of_not_mem ha, List.splitOn_append_cons_self_of_not_mem hb,
      List.splitOn_eq_singleton hc, List.splitOn_append_cons_self_of_not_mem hx,
      List.splitOn_append_cons_self_of_not_mem hy, List.splitOn_eq_singleton hz] at hsplit
    simpa using hsplit
  · rintro ⟨rfl, rfl, rfl⟩
    rfl

theorem versionText_no_v (v : Int × Int × Int) : 'v' ∉ versionText v := by
  have hstr : ∀ n, 'v' ∉ str n := fun n hmem => (str_kind n 'v' hmem).2 rfl
  simp [versionText, hstr]

/-- When the expression for the patch number does not match, the version keeps the `v` of the text. -/
theorem cfgFwVersion_ne {t : List Char} (v : Int × Int × Int)
    (h : replace patchRegex ('v' :: t) = 'v' :: t) : cfgFwVersion ('v' :: t) ≠ versionText v := by
  intro heq
  apply versionText_no_v v
  rw [← heq]
  unfold cfgFwVersion
  rw [h]
  simp

/-! ## The two versions of a tag -/

/-- The text `t` after the decimal text `d` changes nothing: it is white space to `int`, or more zeros after
a zero, and does not begin with a digit. -/
def Idle (py : Python) (d t : List Char) : Prop :=
  leading t = [] ∧ ∀ c ∈ t.map (toAscii py), asciiSpace c = true ∨ d = ['0'] ∧ (c = '_' ∨ c = '0')

instance (py : Python) (d t : List Char) : Decidable (Idle py d t) := inferInstanceAs (Decidable (_ ∧ _))

/-- A tag of three components: two of decimal text without leading zeros, and a third that begins with such
text and goes on with nothing else of note. -/
def PlainTag (py : Python) (tag : List Char) : Prop :=
  ∃ a b d t, tag.tail.splitOn '.' = [a, b, d ++ t] ∧ Canonical a ∧ Canonical b ∧ Canonical d ∧ Idle py d t

theorem leading_append {d t : List Char} (hd : Digits d) (ht : leading t = []) : leading (d ++ t) = d := by
  unfold leading at ht ⊢
  rw [List.takeWhile_append_of_pos hd, ht, List.append_nil]

theorem leading_dropWhile (c : List Char) : leading (c.dropWhile Char.isDigit) = [] := by
  unfold leading
  rw [List.takeWhile_eq_nil_iff]
  intro hpos
  simpa using List.dropWhile_get_zero_not _ c hpos

theorem str_natCast (n : Nat) : str (n : Int) = Nat.toDigits 10 n := rfl

/-- The leading digits of a component are the text of what `int` reads from it. -/
theorem leading_eq_str_iff {py : Python} {c : List Char} {n : Int} (h : int py c = some n) :
    leading c = str n ↔ ∃ d t, c = d ++ t ∧ Canonical d ∧ Idle py d t := by
  constructor
  · intro hlead
    have hsplit : c = leading c ++ c.dropWhile Char.isDigit := List.takeWhile_append_dropWhile.symm
    have hdigits : Digits (leading c) := digits_takeWhile c
    have hne : leading c ≠ [] := hlead ▸ str_ne_nil n
    rw [hsplit] at h
    obtain ⟨u, r, hur, hu, hr, hnil, rfl⟩ := int_leading hne hdigits h
    rw [str_natCast] at hlead
    have hcanon : Canonical (leading c) := hlead ▸ toDigits_canonical _
    have hvalue := congrArg (fun l => Nat.ofDigitChars 10 l 0) hlead
    simp only [Nat.ofDigitChars_ten_toDigits] at hvalue
    have hzeros := (ofDigitChars_append_eq_iff hcanon fun x hx => (List.mem_filter.1 hx).2).1 hvalue.symm
    refine ⟨_, _, hsplit, hcanon, leading_dropWhile c, fun x hx => ?_⟩
    rw [hur, List.mem_append] at hx
    rcases hx with hx | hx
    · -- underscores stand between digits, so there is a digit
      obtain ⟨y, hy⟩ := List.exists_mem_of_ne_nil _ fun hnone => List.ne_nil_of_mem hx (hnil hnone)
      refine .inr ⟨(hzeros y hy).1, ?_⟩
      rcases hu x hx with hdigit | hunder
      · exact .inr (hzeros x (List.mem_filter.2 ⟨hx, hdigit⟩)).2
      · exact .inl hunder
    · exact .inl (hr x hx)
  · rintro ⟨d, t, rfl, hcanon, hlead, hidle⟩
    obtain ⟨u, r, hur, hu, hr, -, rfl⟩ := int_leading hcanon.1 hcanon.2.1 h
    rw [leading_append hcanon.2.1 hlead, str_natCast]
    have hzeros : ∀ x ∈ u.filter Char.isDigit, d = ['0'] ∧ x = '0' := by
      intro x hx
      obtain ⟨hxu, hdigit⟩ := List.mem_filter.1 hx
      obtain ⟨hspace, -, -, hunder, -⟩ := digit_kind hdigit
      rcases hidle x (hur ▸ List.mem_append_left _ hxu) with h | ⟨hd0, h | h⟩
      · rw [hspace] at h; cases h
      · exact absurd h hunder
      · exact ⟨hd0, h⟩
    rw [(ofDigitChars_append_eq_iff hcanon fun x hx => (List.mem_filter.1 hx).2).2 hzeros,
      (toDigits_ofDigitChars_iff hcanon.2.1).2 hcanon]

/-- No digit follows the last component. -/
theorem suffix_head {suffix : List Char} (hs : DescribeSuffix suffix) {c : Char}
    (hc : (suffix ++ ['\n']).head? = some c) : c.isDigit = false := by
  rcases hs with rfl | ⟨n, hash, -, -, -, rfl⟩
  · cases hc; rfl
  · cases hc; rfl

theorem suffix_no_dot {suffix : List Char} (hs : DescribeSuffix suffix) : '.' ∉ suffix ++ ['\n'] := by
  rcases hs with rfl | ⟨n, hash, -, hn, hhash, rfl⟩
  · decide
  · have hdot : '.' ∉ n := fun hmem => (digit_kind (hn _ hmem)).2.2.2.2.1 rfl
    have hdot' : '.' ∉ hash := by
      intro hmem
      rcases hhash _ hmem with h | h
      · exact absurd h (by decide)
      · exact absurd h (by decide)
    simp [hdot, hdot']

/-- The version of a text with three components, the third being what is left. -/
theorem cfgFwVersion_components {a b : List Char} (ha : a ≠ [] ∧ Digits a) (hb : b ≠ [] ∧ Digits b)
    (hda : '.' ∉ a) (hdb : '.' ∉ b) {r : List Char} (hr : leading r ≠ []) :
    cfgFwVersion ('v' :: (a ++ '.' :: (b ++ '.' :: r))) = a ++ '.' :: (b ++ '.' :: leading r) := by
  have hla : leading a = a := takeWhile_digits ha.2
  have hlb : leading b = b := takeWhile_digits hb.2
  unfold cfgFwVersion
  rw [replace_major, replace_minor, replace_patch, afterDot_append hda, if_pos ha]
  simp only [Option.isSome_some, if_true, Option.bind_some, afterDot_append hdb, if_pos hb, hr, if_false,
    leading_append_dot, hla, hlb, hb.1]

/-- Without three components that begin with digits the expression for the patch number does not match. -/
theorem replace_patch_components {a b : List Char} (hda : '.' ∉ a) (hdb : '.' ∉ b) {r : List Char}
    (h : ¬ ((a ≠ [] ∧ Digits a) ∧ (b ≠ [] ∧ Digits b) ∧ leading r ≠ [])) :
    replace patchRegex ('v' :: (a ++ '.' :: (b ++ '.' :: r))) = 'v' :: (a ++ '.' :: (b ++ '.' :: r)) := by
  rw [replace_patch, afterDot_append hda]
  by_cases ha : a ≠ [] ∧ Digits a
  · rw [if_pos ha, Option.bind_some, afterDot_append hdb]
    by_cases hb : b ≠ [] ∧ Digits b
    · have hr : leading r = [] := by
        by_contra hr
        exact h ⟨ha, hb, hr⟩
      rw [if_pos hb]
      exact if_pos hr
    · rw [if_neg hb]
  · rw [if_neg ha]
    rfl

/-- For a tag that `parse_version` accepts, as `git describe` writes it: the build gets the same version
if and only if the tag is plain. -/
theorem version_agrees_iff (py : Python) (tag suffix : List Char) (v : Int × Int × Int)
    (hv : parseVersion py tag = .ok v) (hs : DescribeSuffix suffix) :
    cfgFwVersion (tag ++ (suffix ++ ['\n'])) = versionText v ↔ PlainTag py tag := by
  obtain ⟨cs, rfl, hparts⟩ := parseVersion_ok hv
  have hdot : ∀ part ∈ cs.splitOn '.', '.' ∉ part := fun part hp => not_mem_splitOn hp
  have hjoin : (['.'] : List Char).intercalate (cs.splitOn '.') = cs := List.intercalate_splitOn '.'
  unfold PlainTag
  rw [List.cons_append, List.tail_cons]
  rcases hparts with ⟨a, b, hparts, -⟩ | ⟨a, b, c, hparts, hva, hvb, hvc⟩
  · -- two components: there is no second dot
    rw [hparts] at hdot hjoin ⊢
    have hcs : cs = a ++ '.' :: b := by rw [← hjoin]; simp [List.intercalate]
    rw [hcs, List.append_assoc, List.cons_append]
    constructor
    · intro heq
      refine absurd heq (cfgFwVersion_ne v ?_)
      have hb : '.' ∉ b ++ (suffix ++ ['\n']) := by
        rw [List.mem_append, not_or]
        exact ⟨hdot b (by simp), suffix_no_dot hs⟩
      rw [replace_patch, afterDot_append (hdot a (by simp))]
      split
      · rfl
      · rename_i r hr
        split at hr
        · rw [Option.bind_some, afterDot_none hb] at hr
          cases hr
        · cases hr
    · rintro ⟨_, _, _, _, hlen, _⟩
      cases hlen
  · rw [hparts] at hdot hjoin ⊢
    have hcs : cs = a ++ '.' :: (b ++ '.' :: c) := by rw [← hjoin]; simp [List.intercalate]
    have hda := hdot a (by simp)
    have hdb := hdot b (by simp)
    have hlead : leading (c ++ (suffix ++ ['\n'])) = leading c := takeWhile_append fun _ h => suffix_head hs h
    rw [hcs, List.append_assoc, List.cons_append, List.append_assoc, List.cons_append]
    by_cases hmatch : (a ≠ [] ∧ Digits a) ∧ (b ≠ [] ∧ Digits b) ∧ leading (c ++ (suffix ++ ['\n'])) ≠ []
    · obtain ⟨ha, hb, hr⟩ := hmatch
      have hkind : ∀ n, '.' ∉ str n := fun n hmem => (str_kind n '.' hmem).1 rfl
      have hdc : '.' ∉ leading c := fun hmem => (digit_kind (digits_takeWhile c _ hmem)).2.2.2.2.1 rfl
      rw [cfgFwVersion_components ha hb hda hdb hr, hlead, versionText,
        join_inj hda hdb hdc (hkind _) (hkind _) (hkind _), int_digits ha.2 hva, int_digits hb.2 hvb]
      constructor
      · rintro ⟨hae, hbe, hce⟩
        obtain ⟨d, t, rfl, hcd, hidle⟩ := (leading_eq_str_iff hvc).1 hce
        exact ⟨a, b, d, t, rfl, (toDigits_ofDigitChars_iff ha.2).1 hae.symm,
          (toDigits_ofDigitChars_iff hb.2).1 hbe.symm, hcd, hidle⟩
      · rintro ⟨a', b', d, t, heq, hca, hcb, hcd, hidle⟩
        cases heq
        exact ⟨((toDigits_ofDigitChars_iff ha.2).2 hca).symm, ((toDigits_ofDigitChars_iff hb.2).2 hcb).symm,
          (leading_eq_str_iff hvc).2 ⟨d, t, rfl, hcd, hidle⟩⟩
    · constructor
      · intro heq
        exact absurd heq (cfgFwVersion_ne v (replace_patch_components hda hdb hmatch))
      · rintro ⟨a', b', d, t, heq, hca, hcb, hcd, hidle⟩
        cases heq
        refine absurd ⟨⟨hca.1, hca.2.1⟩, ⟨hcb.1, hcb.2.1⟩, ?_⟩ hmatch
        rw [hlead, leading_append hcd.2.1 hidle.1]
        exact hcd.1

/-- An interpreter that knows the digits of ASCII only, with the default limit. -/
def asciiPython : Python := ⟨fun _ => false, fun _ => none, 4300⟩

/-- Two commits after the tag `v1.20.3`. -/
theorem version_agrees_three :
    cfgFwVersion ("v1.20.3".toList ++ ("-2-gab12".toList ++ ['\n'])) = versionText (1, 20, 3) := by
  apply (version_agrees_iff asciiPython "v1.20.3".toList "-2-gab12".toList (1, 20, 3) rfl ?_).2
  · exact ⟨['1'], ['2', '0'], ['3'], [], rfl, by decide, by decide, by decide, rfl, by simp⟩
  · exact .inr ⟨['2'], ['a', 'b', '1', '2'], by decide, by decide, by simp, rfl⟩

/-- On the tag `v1.2` itself the patch number is 0 for the script and the whole text for the build. -/
theorem two_components_disagree :
    ¬ ∀ (py : Python) (tag suffix : List Char) (v : Int × Int × Int), parseVersion py tag = .ok v →
      DescribeSuffix suffix → cfgFwVersion (tag ++ (suffix ++ ['\n'])) = versionText v := by
  intro h
  have heq := h asciiPython "v1.2".toList [] (1, 2, 0) rfl (.inl rfl)
  revert heq
  decide

end InfoWorkshop.Cmake
