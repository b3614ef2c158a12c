/-
The firmware version in the answer of `SYS_FW_VER`: `Console_CmdFwVer` copies the `VERSION` that
`cmake/common.cmake` takes from `git describe --tags --abbrev=100 --always` into the response buffer.
-/
import InfoWorkshop.Cmake.Common
import InfoWorkshop.Console.Dispatch

namespace InfoWorkshop.Cmake

open InfoWorkshop.Regex InfoWorkshop.Decimal InfoWorkshop.Scripts
open InfoWorkshop.Core InfoWorkshop.Memory InfoWorkshop.CString InfoWorkshop.Console

/-- `VERSION`, the string of `CFG_FW_VERSION` that the sources are compiled with. -/
def VERSION (gitDescribeOut : List Char) : Bytes := bytes (String.ofList (cfgFwVersion gitDescribeOut))

/-! ## What `git describe` writes -/

/-- A component of a tag: at most five digits. -/
structure Component (part : List Char) : Prop where
  ne_nil : part ≠ []
  digits : Digits part
  length_le : part.length ≤ 5

/-- A tag that `parse_version` accepts, with components of at most five digits. -/
structure Tag (py : Python) where
  text : List Char
  version : Int × Int × Int
  accepted : parseVersion py text = .ok version
  digits : ∀ part ∈ text.tail.splitOn '.', Digits part ∧ part.length ≤ 5

/-- The hash of a commit. -/
structure Hash where
  text : List Char
  hex : ∀ c ∈ text, c.isDigit = true ∨ c ∈ ['a', 'b', 'c', 'd', 'e', 'f']
  length_eq : text.length = 40

/-- What is described: the commit of a tag, the `n`th commit after a tag, or a commit that no tag comes
before. -/
inductive Describe (py : Python)
  | tagged (tag : Tag py)
  | after (tag : Tag py) (n : Nat) (hash : Hash)
  | untagged (hash : Hash)

/-- The number of commits since the tag, and the hash. -/
def since (n : Nat) (hash : Hash) : List Char := '-' :: (Nat.toDigits 10 n ++ '-' :: 'g' :: hash.text)

/-- The output of the command. -/
def Describe.text {py : Python} : Describe py → List Char
  | .tagged tag => tag.text ++ ([] ++ ['\n'])
  | .after tag n hash => tag.text ++ (since n hash ++ ['\n'])
  | .untagged hash => hash.text ++ ['\n']

/-- The commit has a tag, or comes after one of three components. -/
def Describe.Fits {py : Python} : Describe py → Prop
  | .tagged _ => True
  | .after tag _ _ => (tag.text.tail.splitOn '.').length = 3
  | .untagged _ => False

instance {py : Python} : (d : Describe py) → Decidable d.Fits
  | .tagged _ => inferInstanceAs (Decidable True)
  | .after _ _ _ => inferInstanceAs (Decidable (_ = 3))
  | .untagged _ => inferInstanceAs (Decidable False)

/-- The version and its NUL fit the response buffer, and no command writes past the end of it. -/
structure ResponsesFit (VERSION : Bytes) : Prop where
  length_le : VERSION.length + 1 ≤ CMD_RESPONSE_MAX_LENGTH
  inBounds : ∀ (s : State) (line junk : Bytes), Sized s → 0 ∉ line →
    consoleRunCommand (gCommands VERSION) s (line ++ 0 :: junk) ≠ none

/-! ## The length of the version -/

theorem VERSION_length (out : List Char) : (VERSION out).length = (cfgFwVersion out).length := by
  simp [VERSION, bytes]

/-- A text that does not begin with `v` is the version three times over. -/
theorem cfgFwVersion_of_ne {c : Char} (hc : c ≠ 'v') (t : List Char) :
    cfgFwVersion (c :: t) = (c :: t) ++ '.' :: ((c :: t) ++ '.' :: (c :: t)) := by
  have hno : ∀ its : List (Item Char), matchStart (lit 'v' :: its) (c :: t) = none := by
    intro its
    unfold lit
    rw [matchStart_once, if_neg (by simpa using hc)]
  have hreplace : ∀ its : List (Item Char), replace (lit 'v' :: its) (c :: t) = c :: t := by
    intro its
    unfold replace
    rw [hno its]
  unfold cfgFwVersion majorRegex minorRegex patchRegex
  rw [hreplace, hreplace, hreplace]

/-- Two components and no third: the whole text stands for the patch number. -/
theorem cfgFwVersion_two {a b r : List Char} (ha : Component a) (hb : Component b) (hda : '.' ∉ a)
    (hdr : '.' ∉ b ++ r) (hr : ∀ c, r.head? = some c → c.isDigit = false) :
    cfgFwVersion ('v' :: (a ++ '.' :: (b ++ r))) = a ++ '.' :: (b ++ '.' :: ('v' :: (a ++ '.' :: (b ++ r)))) := by
  have hla : leading a = a := takeWhile_digits ha.digits
  have hlb : leading (b ++ r) = b := (takeWhile_append hr).trans (takeWhile_digits hb.digits)
  have hfirst : afterDot (a ++ '.' :: (b ++ r)) = some (b ++ r) := by
    rw [afterDot_append hda, if_pos ⟨ha.ne_nil, ha.digits⟩]
  have hsecond : afterDot (b ++ r) = none := afterDot_none hdr
  unfold cfgFwVersion
  rw [replace_major, replace_minor, replace_patch, hfirst]
  simp only [Option.isSome_some, if_true, Option.bind_some, hsecond, leading_append_dot, hla, hlb, hb.ne_nil,
    if_false]

theorem int_nil (py : Python) : int py [] = none := rfl

/-- The components of a tag. -/
theorem Tag.components {py : Python} (tag : Tag py) :
    (∃ a b, Component a ∧ Component b ∧ '.' ∉ a ∧ '.' ∉ b ∧ tag.text.tail.splitOn '.' = [a, b] ∧
        tag.text = 'v' :: (a ++ '.' :: b)) ∨
      ∃ a b c, Component a ∧ Component b ∧ Component c ∧ '.' ∉ a ∧ '.' ∉ b ∧
        tag.text.tail.splitOn '.' = [a, b, c] ∧ tag.text = 'v' :: (a ++ '.' :: (b ++ '.' :: c)) := by
  obtain ⟨cs, htext, hparts⟩ := parseVersion_ok tag.accepted
  have hdigits := tag.digits
  rw [htext, List.tail_cons] at hdigits ⊢
  have hdot : ∀ part ∈ cs.splitOn '.', '.' ∉ part := fun part hp => not_mem_splitOn hp
  have hjoin : (['.'] : List Char).intercalate (cs.splitOn '.') = cs := List.intercalate_splitOn '.'
  have hcomponent : ∀ part ∈ cs.splitOn '.', ∀ n, int py part = some n → Component part := by
    intro part hp n hn
    refine ⟨?_, (hdigits part hp).1, (hdigits part hp).2⟩
    rintro rfl
    rw [int_nil] at hn
    cases hn
  rcases hparts with ⟨a, b, hparts, ha, hb, -⟩ | ⟨a, b, c, hparts, ha, hb, hc⟩
  · rw [hparts] at hdot hjoin hcomponent ⊢
    refine .inl ⟨a, b, hcomponent a (by simp) _ ha, hcomponent b (by simp) _ hb, hdot a (by simp),
      hdot b (by simp), rfl, ?_⟩
    rw [← hjoin]
    simp [List.intercalate]
  · rw [hparts] at hdot hjoin hcomponent ⊢
    refine .inr ⟨a, b, c, hcomponent a (by simp) _ ha, hcomponent b (by simp) _ hb, hcomponent c (by simp) _ hc,
      hdot a (by simp), hdot b (by simp), rfl, ?_⟩
    rw [← hjoin]
    simp [List.intercalate]

theorem since_suffix (n : Nat) (hash : Hash) : DescribeSuffix (since n hash) :=
  .inr ⟨_, hash.text, Nat.toDigits_ne_nil, toDigits_digits n, hash.hex, rfl⟩

/-- With three components the version is theirs, whatever follows them. -/
theorem cfgFwVersion_length_three {a b c suffix : List Char} (ha : Component a) (hb : Component b)
    (hc : Component c) (hda : '.' ∉ a) (hdb : '.' ∉ b) (hs : DescribeSuffix suffix) :
    (cfgFwVersion ('v' :: (a ++ '.' :: (b ++ '.' :: c)) ++ (suffix ++ ['\n']))).length ≤ 17 := by
  have hlead : leading (c ++ (suffix ++ ['\n'])) = c :=
    (takeWhile_append fun _ h => suffix_head hs h).trans (takeWhile_digits hc.digits)
  have hversion := cfgFwVersion_components ⟨ha.ne_nil, ha.digits⟩ ⟨hb.ne_nil, hb.digits⟩ hda hdb
    (r := c ++ (suffix ++ ['\n'])) (by rw [hlead]; exact hc.ne_nil)
  rw [List.cons_append, List.append_assoc, List.cons_append, List.append_assoc, List.cons_append, hversion, hlead]
  have hla := ha.length_le
  have hlb := hb.length_le
  have hlc := hc.length_le
  simp only [List.length_append, List.length_cons]
  omega

/-- With two, the components stand in it twice, and what follows them once. -/
theorem cfgFwVersion_length_two {a b suffix : List Char} (ha : Component a) (hb : Component b) (hda : '.' ∉ a)
    (hdb : '.' ∉ b) (hs : DescribeSuffix suffix) :
    (cfgFwVersion ('v' :: (a ++ '.' :: b) ++ (suffix ++ ['\n']))).length =
      2 * (a.length + b.length) + suffix.length + 5 := by
  have hdr : '.' ∉ b ++ (suffix ++ ['\n']) := by
    rw [List.mem_append, not_or]
    exact ⟨hdb, suffix_no_dot hs⟩
  have hversion := cfgFwVersion_two ha hb hda hdr fun _ h => suffix_head hs h
  rw [List.cons_append, List.append_assoc, List.cons_append, hversion]
  simp only [List.length_append, List.length_cons, List.length_nil]
  omega

theorem since_length (n : Nat) (hash : Hash) : 44 ≤ (since n hash).length := by
  have hdigits : 0 < (Nat.toDigits 10 n).length := List.length_pos_iff.2 Nat.toDigits_ne_nil
  have hhash := hash.length_eq
  unfold since
  simp only [List.length_cons, List.length_append]
  omega

theorem untagged_length (hash : Hash) : (cfgFwVersion (hash.text ++ ['\n'])).length = 125 := by
  have hlen := hash.length_eq
  have hhex := hash.hex
  rcases htext : hash.text with _ | ⟨c, t⟩
  · rw [htext] at hlen
    cases hlen
  · have hc : c ≠ 'v' := by
      rintro rfl
      rw [htext] at hhex
      rcases hhex 'v' List.mem_cons_self with h | h
      · exact absurd h (by decide)
      · exact absurd h (by decide)
    rw [htext, List.length_cons] at hlen
    rw [List.cons_append, cfgFwVersion_of_ne hc]
    simp only [List.length_append, List.length_cons, List.length_nil]
    omega

/-- The version from a tag, with what follows the tag. -/
theorem Tag.version_length {py : Python} (tag : Tag py) {suffix : List Char} (hs : DescribeSuffix suffix) :
    ((tag.text.tail.splitOn '.').length = 3 ∧ (cfgFwVersion (tag.text ++ (suffix ++ ['\n']))).length ≤ 17) ∨
      ((tag.text.tail.splitOn '.').length = 2 ∧
        suffix.length + 9 ≤ (cfgFwVersion (tag.text ++ (suffix ++ ['\n']))).length ∧
        (cfgFwVersion (tag.text ++ (suffix ++ ['\n']))).length ≤ suffix.length + 25) := by
  rcases tag.components with ⟨a, b, ha, hb, hda, hdb, hparts, htext⟩ |
    ⟨a, b, c, ha, hb, hc, hda, hdb, hparts, htext⟩
  · have hla : 0 < a.length := List.length_pos_iff.2 ha.ne_nil
    have hlb : 0 < b.length := List.length_pos_iff.2 hb.ne_nil
    have hla' := ha.length_le
    have hlb' := hb.length_le
    have hlen := cfgFwVersion_length_two ha hb hda hdb hs
    rw [hparts, htext, hlen]
    exact .inr ⟨rfl, by omega, by omega⟩
  · rw [hparts, htext]
    exact .inl ⟨rfl, cfgFwVersion_length_three ha hb hc hda hdb hs⟩

theorem version_length_iff {py : Python} (d : Describe py) :
    (VERSION d.text).length + 1 ≤ CMD_RESPONSE_MAX_LENGTH ↔ d.Fits := by
  rw [VERSION_length]
  unfold CMD_RESPONSE_MAX_LENGTH
  cases d with
  | tagged tag =>
    have hlen := @Tag.version_length py tag [] (.inl rfl)
    rw [List.length_nil] at hlen
    simp only [Describe.text, Describe.Fits]
    exact iff_of_true (by omega) trivial
  | after tag n hash =>
    -- the hash alone leaves no room for two components
    have hlen := tag.version_length (since_suffix n hash)
    have hlong := since_length n hash
    simp only [Describe.text, Describe.Fits]
    omega
  | untagged hash =>
    have hlen := untagged_length hash
    simp only [Describe.text, Describe.Fits]
    exact iff_of_false (by omega) id

/-! ## The response buffer -/

/-- A version that fits is copied, and every line is answered. -/
theorem responsesFit_of_length {V : Bytes} (h : V.length + 1 ≤ CMD_RESPONSE_MAX_LENGTH) : ResponsesFit V := by
  refine ⟨h, fun s line junk hs _ => consoleRunCommand_ne_none ?_ _⟩
  intro cmd hcmd n args
  simp only [gCommands, List.mem_cons, List.not_mem_nil, or_false] at hcmd
  rcases hcmd with rfl | rfl
  · obtain ⟨s', hrun, -, -⟩ := consoleCmdHelp_prints hs n args []
    exact Option.ne_none_iff_exists'.2 ⟨_, hrun⟩
  · have hfit : V.length < s.responseBuffer.length := by
      rw [hs.response]
      exact h
    have hcopy : strcpy s.responseBuffer V = some (V ++ 0 :: s.responseBuffer.drop (V.length + 1)) := if_pos hfit
    simp only [consoleCmdFwVer, respond, hcopy]
    exact Option.some_ne_none _

/-- Every response fits its buffer exactly for the commits that have a tag, or come after one of three
components: otherwise the text of `git describe` is in the version, with the hash. -/
theorem responses_fit_iff (py : Python) (d : Describe py) : ResponsesFit (VERSION d.text) ↔ d.Fits := by
  rw [← version_length_iff]
  constructor
  · exact ResponsesFit.length_le
  · exact responsesFit_of_length

theorem tagTwo_digits : ∀ part ∈ "v1.2".toList.tail.splitOn '.', Digits part ∧ part.length ≤ 5 := by decide

/-- A tag of two components. -/
def tagTwo : Tag asciiPython := ⟨"v1.2".toList, (1, 2, 0), rfl, tagTwo_digits⟩

theorem zeros_hex : ∀ c ∈ List.replicate 40 '0', c.isDigit = true ∨ c ∈ ['a', 'b', 'c', 'd', 'e', 'f'] := by
  intro c hc
  rw [List.eq_of_mem_replicate hc]
  exact .inl rfl

def zeros : Hash := ⟨List.replicate 40 '0', zeros_hex, List.length_replicate⟩

/-- One commit after the tag `v1.2` the version has 52 characters and a newline. -/
theorem version_after_two_components :
    ¬ ∀ (py : Python) (d : Describe py), ResponsesFit (VERSION d.text) := by
  intro h
  have hfits := (h asciiPython (.after tagTwo 1 zeros)).length_le
  rw [version_length_iff] at hfits
  exact absurd hfits (by decide)

end InfoWorkshop.Cmake
