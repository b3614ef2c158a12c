/-
`scripts/ci/bump_version.py`, with what it calls of `actions_utils.py`: the version that it exports, and
when it is the one of the algorithm that its comment describes.
-/
import InfoWorkshop.Lib.RunningMax
import InfoWorkshop.Scripts.GitUtils
import Mathlib.Data.Int.Order.Basic
import Mathlib.Data.Prod.Lex

namespace InfoWorkshop.Scripts

open InfoWorkshop.RunningMax

/-! ## The script -/

/-- `os.environ`, and the lines that are appended to the file that `GITHUB_ENV` names. -/
structure World where
  environ : List (String × List Char)
  envFile : List (List Char)
  deriving DecidableEq, Repr

/-- `set_env_variable`. -/
def setEnvVariable (w : World) (name : String) (value : List Char) : World :=
  if w.environ.lookup name = some name.toList then w
  else
    let envFile :=
      if (w.environ.lookup "GITHUB_ENV").isSome = true then w.envFile ++ [name.toList ++ '=' :: value]
      else w.envFile
    ⟨(name, value) :: w.environ, envFile⟩

/-- `require_env_variable`, with `export` false. -/
def requireEnvVariable (w : World) (name : String) : Except ScriptError Unit :=
  if (w.environ.lookup name).isSome = true then .ok () else .error (.systemExit 1)

/-- `current_tag`. -/
def currentTag (lastTag : Int × Int × Int) : Int × Int × Int := (lastTag.1, lastTag.2.1, lastTag.2.2 + 1)

/-- The version after the latest tag. -/
def bumpVersion (py : Python) (lines : List (Option (List Char))) : Except ScriptError (List Char) :=
  match getLatestTag py lines with
  | .error e => .error e
  | .ok lastTag => versionToString py (currentTag lastTag)

/-- `main` of `bump_version.py`, `lines` being the output of `git tag`. -/
def main (py : Python) (lines : List (Option (List Char))) (w : World) : Except ScriptError Unit × World :=
  match requireEnvVariable w "GITHUB_TOKEN" with
  | .error e => (.error e, w)
  | .ok () =>
    match w.environ.lookup "VERSION" with
    | some version => (.ok (), setEnvVariable w "VERSION" version)
    | none =>
      match bumpVersion py lines with
      | .error e => (.error e, w)
      | .ok version => (.ok (), setEnvVariable w "VERSION" version)

/-! ## The order of versions -/

/-- The lexicographic order of the three numbers. -/
def order (v : Int × Int × Int) : Lex (Int × Lex (Int × Int)) := toLex (v.1, toLex (v.2.1, v.2.2))

theorem order_lt {a b : Int × Int × Int} :
    order a < order b ↔ a.1 < b.1 ∨ a.1 = b.1 ∧ (a.2.1 < b.2.1 ∨ a.2.1 = b.2.1 ∧ a.2.2 < b.2.2) := by
  unfold order
  rw [Prod.Lex.toLex_lt_toLex, Prod.Lex.toLex_lt_toLex]

theorem order_inj {a b : Int × Int × Int} : order a = order b ↔ a = b := by
  constructor
  · intro h
    have hfirst := Prod.mk.inj (toLex.injective h)
    have hrest := Prod.mk.inj (toLex.injective hfirst.2)
    exact Prod.ext hfirst.1 (Prod.ext hrest.1 hrest.2)
  · rintro rfl
    rfl

/-- The comparison of tuples is that order. -/
theorem greater_iff {a b : Int × Int × Int} : greater a b = true ↔ order b < order a := by
  rw [order_lt]
  unfold greater
  split
  · rw [decide_eq_true_iff]
    omega
  · split
    · rw [decide_eq_true_iff]
      omega
    · rw [decide_eq_true_iff]
      omega

theorem lt_currentTag (v : Int × Int × Int) : order v < order (currentTag v) := by
  rw [order_lt]
  exact .inr ⟨rfl, .inr ⟨rfl, Int.lt_succ v.2.2⟩⟩

/-! ## The latest tag -/

/-- The version of a line. -/
def versionOf (py : Python) (line : Option (List Char)) : Option (Int × Int × Int) :=
  line.bind fun tag => (parseVersion py tag).toOption

/-- Its place in the order. -/
def rank (py : Python) (line : Option (List Char)) : Option (Lex (Int × Lex (Int × Int))) :=
  (versionOf py line).map order

/-- A line that the loop can handle. -/
def Readable (line : Option (List Char)) : Prop := ∃ tag, line = some tag ∧ tag ≠ []

theorem readable_iff (line : Option (List Char)) : line ≠ none ∧ line ≠ some [] ↔ Readable line := by
  cases line <;> simp [Readable]

instance (line : Option (List Char)) : Decidable (Readable line) := decidable_of_iff _ (readable_iff line)

theorem versionOf_some_iff {py : Python} {line : Option (List Char)} {v : Int × Int × Int} :
    versionOf py line = some v ↔ ∃ tag, line = some tag ∧ parseVersion py tag = .ok v := by
  unfold versionOf
  rcases line with _ | tag
  · simp
  · rcases hp : parseVersion py tag with e | w
    · simp [hp, Except.toOption]
    · simp [hp, Except.toOption]

theorem rank_some_iff {py : Python} {line : Option (List Char)} {v : Int × Int × Int} :
    rank py line = some (order v) ↔ versionOf py line = some v := by
  unfold rank
  rw [Option.map_eq_some_iff]
  constructor
  · rintro ⟨w, hw, ho⟩
    rw [hw, order_inj.1 ho]
  · exact fun h => ⟨v, h, rfl⟩

theorem exists_of_rank {py : Python} {line : Option (List Char)} {r : Lex (Int × Lex (Int × Int))}
    (h : rank py line = some r) : ∃ v, versionOf py line = some v ∧ order v = r := Option.map_eq_some_iff.1 h

/-- One turn of the loop is one of the running maximum. -/
theorem latestTagLoop_cons (py : Python) {tag : List Char} (htag : tag ≠ []) (latest : Int × Int × Int)
    (lines : List (Option (List Char))) :
    ∃ next, latestTagLoop py latest (some tag :: lines) = latestTagLoop py next lines ∧
      runningMax (rank py) (order latest) (some tag :: lines) = runningMax (rank py) (order next) lines := by
  rcases hp : parseVersion py tag with e | w
  · have hrank : rank py (some tag) = none := by simp [rank, versionOf, hp, Except.toOption]
    simp only [latestTagLoop, hp, runningMax, hrank]
    cases e with
    | indexError => exact absurd (parseVersion_indexError_iff.1 hp) htag
    | valueError text => exact ⟨latest, rfl, rfl⟩
    | invalidLiteral part => exact ⟨latest, rfl, rfl⟩
  · have hrank : rank py (some tag) = some (order w) := by simp [rank, versionOf, hp, Except.toOption]
    have hnext : (if order latest < order w then order w else order latest) =
        order (if greater w latest = true then w else latest) := by
      simp only [← greater_iff]
      split <;> rfl
    simp only [latestTagLoop, hp, runningMax, hrank, hnext]
    exact ⟨_, rfl, rfl⟩

/-- The loop is the running maximum. -/
theorem latestTagLoop_ok {py : Python} {lines : List (Option (List Char))} (h : ∀ line ∈ lines, Readable line)
    (latest : Int × Int × Int) : ∃ v, latestTagLoop py latest lines = .ok v ∧
      order v = runningMax (rank py) (order latest) lines := by
  induction lines generalizing latest with
  | nil => exact ⟨latest, rfl, rfl⟩
  | cons line lines ih =>
    obtain ⟨⟨tag, rfl, htag⟩, hlines⟩ := List.forall_mem_cons.1 h
    obtain ⟨next, hloop, hmax⟩ := latestTagLoop_cons py htag latest lines
    rw [hloop, hmax]
    exact ih hlines next

/-- Any other line ends the script. -/
theorem latestTagLoop_error {py : Python} {lines : List (Option (List Char))} (h : ¬ ∀ line ∈ lines, Readable line)
    (latest : Int × Int × Int) : ∃ e, latestTagLoop py latest lines = .error e := by
  induction lines generalizing latest with
  | nil => exact absurd (fun _ hl => absurd hl List.not_mem_nil) h
  | cons line lines ih =>
    rcases line with _ | tag
    · exact ⟨_, rfl⟩
    · by_cases htag : tag = []
      · subst htag
        exact ⟨.indexError, rfl⟩
      · have hlines : ¬ ∀ line ∈ lines, Readable line := fun hall =>
          h (List.forall_mem_cons.2 ⟨⟨tag, rfl, htag⟩, hall⟩)
        obtain ⟨next, hloop, -⟩ := latestTagLoop_cons py htag latest lines
        rw [hloop]
        exact ih hlines next

theorem getLatestTag_ok {py : Python} {lines : List (Option (List Char))} (h : ∀ line ∈ lines, Readable line) :
    ∃ v, getLatestTag py lines = .ok v ∧ order v = runningMax (rank py) (order (0, 0, 0)) lines :=
  latestTagLoop_ok h _

/-- Every tag is below the version after the latest. -/
theorem lt_of_mem {py : Python} {lines : List (Option (List Char))} {line : Option (List Char)}
    {latest v : Int × Int × Int} (hlatest : order latest = runningMax (rank py) (order (0, 0, 0)) lines)
    (hline : line ∈ lines) (hv : versionOf py line = some v) : order v < order (currentTag latest) := by
  refine lt_of_le_of_lt ?_ (lt_currentTag latest)
  rw [hlatest]
  exact le_runningMax hline (rank_some_iff.2 hv)

/-! ## A fresh version -/

/-- Without a limit on digits every number is written. -/
theorem printable_of_limit {py : Python} (h : py.intMaxStrDigits = 0) (n : Int) : Printable py n := .inl h

theorem versionToString_of_limit {py : Python} (h : py.intMaxStrDigits = 0) (v : Int × Int × Int) :
    versionToString py v = .ok (tagText v) :=
  if_pos ⟨printable_of_limit h _, printable_of_limit h _, printable_of_limit h _⟩

/-- The version `v` with its `text` comes after the tags: it is computed for them in any order, is greater than
all that are well formed, is read back from its text, and is none of them. -/
structure Fresh (py : Python) (tags : List (List Char)) (v : Int × Int × Int) (text : List Char) : Prop where
  computed : ∀ tags' : List (List Char), tags'.Perm tags → bumpVersion py (tags'.map some) = .ok text
  maximal : ∀ tag ∈ tags, ∀ w, parseVersion py tag = .ok w → order w < order v
  parses : parseVersion py text = .ok v
  unused : text ∉ tags

theorem readable_of_ne_nil {tags : List (List Char)} (h : ∀ tag ∈ tags, tag ≠ []) :
    ∀ line ∈ tags.map some, Readable line := by
  intro line hline
  obtain ⟨tag, htag, rfl⟩ := List.mem_map.1 hline
  exact ⟨tag, rfl, h tag htag⟩

/-- The bumped version is fresh, and every version is read back from its text. -/
theorem bumpVersion_fresh (py : Python) (hlimit : py.intMaxStrDigits = 0) (tags : List (List Char))
    (htags : ∀ tag ∈ tags, tag ≠ []) :
    (∃ latest text, getLatestTag py (tags.map some) = .ok latest ∧ Fresh py tags (currentTag latest) text) ∧
      ∀ v, ∃ text, versionToString py v = .ok text ∧ parseVersion py text = .ok v := by
  have hwrite := versionToString_of_limit hlimit
  have hparse : ∀ v, parseVersion py (tagText v) = .ok v := fun v => (versionToString_ok (hwrite v)).2
  constructor
  · obtain ⟨latest, hlatest, horder⟩ := @getLatestTag_ok py _ (readable_of_ne_nil htags)
    have hmaximal : ∀ tag ∈ tags, ∀ w, parseVersion py tag = .ok w → order w < order (currentTag latest) :=
      fun tag htag w hw => lt_of_mem horder (List.mem_map_of_mem htag) (versionOf_some_iff.2 ⟨tag, rfl, hw⟩)
    refine ⟨latest, tagText (currentTag latest), hlatest, ?_, hmaximal, hparse _, ?_⟩
    · intro tags' hperm
      have htags' : ∀ tag ∈ tags', tag ≠ [] := fun tag htag => htags tag (hperm.mem_iff.1 htag)
      obtain ⟨latest', hlatest', horder'⟩ := @getLatestTag_ok py _ (readable_of_ne_nil htags')
      rw [runningMax_perm _ (hperm.map some), ← horder, order_inj] at horder'
      subst horder'
      simp only [bumpVersion, hlatest', hwrite]
    · intro hmem
      exact lt_irrefl _ (hmaximal _ hmem _ (hparse _))
  · exact fun v => ⟨_, hwrite v, hparse v⟩

/-- An interpreter that knows the digits of ASCII only, without a limit on their number. -/
def plainPython : Python := ⟨fun _ => false, fun _ => none, 0⟩

theorem bumpVersion_fresh_mixed :
    (∃ latest text, getLatestTag plainPython (["v1.10".toList, "release".toList, "v1.9.3".toList].map some) =
        .ok latest ∧
      Fresh plainPython ["v1.10".toList, "release".toList, "v1.9.3".toList] (currentTag latest) text) ∧
      ∀ v, ∃ text, versionToString plainPython v = .ok text ∧ parseVersion plainPython text = .ok v :=
  bumpVersion_fresh plainPython rfl _ (by decide)

/-! ## The documented algorithm -/

/-- The number of components of a tag. -/
def components (tag : List Char) : Nat := (tag.tail.splitOn '.').length

/-- A tag with a value that no other tag exceeds. -/
structure Greatest (py : Python) (lines : List (Option (List Char))) (tag : List Char) (v : Int × Int × Int) :
    Prop where
  mem : some tag ∈ lines
  value : parseVersion py tag = .ok v
  max : ∀ other u, some other ∈ lines → parseVersion py other = .ok u → order u ≤ order v

/-- The script ends well and exports the version, to the processes it starts and, where there is such a file,
to the steps that follow. -/
structure Exports (w : World) (result : Except ScriptError Unit × World) (version : List Char) : Prop where
  ok : result.1 = .ok ()
  environ : result.2.environ.lookup "VERSION" = some version
  envFile : result.2.envFile = w.envFile ++
    if (w.environ.lookup "GITHUB_ENV").isSome = true then ["VERSION=".toList ++ version] else []

/-- No line is a tag that `parse_version` accepts. -/
def NoTag (py : Python) (lines : List (Option (List Char))) : Prop :=
  ∀ tag v, some tag ∈ lines → parseVersion py tag ≠ .ok v

/-- The algorithm in the comment of `main`: it fails without a tag, and otherwise the shape of the greatest one
decides. -/
structure FollowsAlgorithm (py : Python) (lines : List (Option (List Char))) (w : World) : Prop where
  noTag : NoTag py lines → ∃ e, main py lines w = (.error e, w)
  three : ∀ tag v, Greatest py lines tag v → components tag = 3 →
    Exports w (main py lines w) (tagText (v.1, v.2.1, v.2.2 + 1))
  two : ∀ tag v, Greatest py lines tag v → components tag = 2 →
    (∀ other u, some other ∈ lines → parseVersion py other = .ok u → components other = 3 → order u < order v) →
    Exports w (main py lines w) (tagText (v.1, v.2.1, 0))

theorem tagText_inj {v u : Int × Int × Int} (h : tagText v = tagText u) : v = u := by
  have hparse : ∀ v, parseVersion plainPython (tagText v) = .ok v :=
    fun v => parseVersion_tagText ⟨.inl rfl, .inl rfl, .inl rfl⟩
  have hv := hparse v
  rw [h, hparse u] at hv
  cases hv
  rfl

/-- Where there is a tag there is a greatest one. -/
theorem exists_greatest {py : Python} {lines : List (Option (List Char))} (h : ¬ NoTag py lines) :
    ∃ tag v, Greatest py lines tag v := by
  obtain ⟨tag, v, hmem, hv⟩ : ∃ tag v, some tag ∈ lines ∧ parseVersion py tag = .ok v := by
    unfold NoTag at h
    push Not at h
    exact h
  have hbound : ∀ other u, some other ∈ lines → parseVersion py other = .ok u →
      order u ≤ runningMax (rank py) (order v) lines := fun other u ho hu =>
    le_runningMax ho (rank_some_iff.2 (versionOf_some_iff.2 ⟨other, rfl, hu⟩))
  rcases @runningMax_cases _ _ _ (rank py) (order v) lines with hm | ⟨line, hline, hm⟩
  · exact ⟨tag, v, hmem, hv, fun other u ho hu => hm ▸ hbound other u ho hu⟩
  · obtain ⟨u, hu, hrank⟩ := exists_of_rank hm
    obtain ⟨tag', rfl, hu'⟩ := versionOf_some_iff.1 hu
    exact ⟨tag', u, hline, hu', fun other x ho hx => hrank ▸ hbound other x ho hx⟩

theorem components_of_ok {py : Python} {tag : List Char} {v : Int × Int × Int} (h : parseVersion py tag = .ok v) :
    (components tag = 2 ∧ v.2.2 = 0) ∨ components tag = 3 := by
  obtain ⟨cs, rfl, ⟨a, b, hparts, -, -, hz⟩ | ⟨a, b, c, hparts, -⟩⟩ := parseVersion_ok h
  · exact .inl ⟨by rw [components, List.tail_cons, hparts]; rfl, hz⟩
  · exact .inr (by rw [components, List.tail_cons, hparts]; rfl)

/-! ## What `main` does -/

/-- The script ends before it has a version: the token is missing, or a line is not UTF-8 or empty. -/
def EndsEarly (lines : List (Option (List Char))) (w : World) : Prop :=
  w.environ.lookup "GITHUB_TOKEN" = none ∨ ¬ ∀ line ∈ lines, Readable line

section Main

variable {py : Python} {lines : List (Option (List Char))} {w : World}

theorem main_endsEarly (h : EndsEarly lines w) (hversion : w.environ.lookup "VERSION" = none) :
    ∃ e, main py lines w = (.error e, w) := by
  rcases ht : w.environ.lookup "GITHUB_TOKEN" with _ | token
  · exact ⟨.systemExit 1, by simp [main, requireEnvVariable, ht]⟩
  · have hlines : ¬ ∀ line ∈ lines, Readable line := h.resolve_left (by simp [ht])
    obtain ⟨e, he⟩ : ∃ e, getLatestTag py lines = .error e := latestTagLoop_error hlines _
    exact ⟨e, by simp [main, requireEnvVariable, ht, hversion, bumpVersion, he]⟩

/-- Otherwise the version after the latest tag is exported, if it can be written. -/
theorem main_of_not_endsEarly (h : ¬ EndsEarly lines w) (hversion : w.environ.lookup "VERSION" = none) :
    ∃ latest, order latest = runningMax (rank py) (order (0, 0, 0)) lines ∧
      main py lines w =
        match versionToString py (currentTag latest) with
        | .error e => (.error e, w)
        | .ok text => (.ok (), setEnvVariable w "VERSION" text) := by
  unfold EndsEarly at h
  push Not at h
  obtain ⟨htoken, hlines⟩ := h
  obtain ⟨latest, hlatest, horder⟩ := @getLatestTag_ok py _ hlines
  refine ⟨latest, horder, ?_⟩
  simp only [main, requireEnvVariable, Option.isSome_iff_ne_none.2 htoken, if_true, hversion, bumpVersion, hlatest]

theorem setEnvVariable_eq {text : List Char} (hversion : w.environ.lookup "VERSION" = none) :
    setEnvVariable w "VERSION" text = ⟨("VERSION", text) :: w.environ, w.envFile ++
      if (w.environ.lookup "GITHUB_ENV").isSome = true then ["VERSION=".toList ++ text] else []⟩ := by
  unfold setEnvVariable
  rw [if_neg (by simp [hversion])]
  split
  · rfl
  · rw [List.append_nil]

theorem exports_setEnvVariable {text : List Char} (hversion : w.environ.lookup "VERSION" = none) :
    Exports w (.ok (), setEnvVariable w "VERSION" text) text := by
  rw [setEnvVariable_eq hversion]
  exact ⟨rfl, List.lookup_cons_self, rfl⟩

/-- What is exported is the version after the latest tag. -/
theorem exports_main {v : Int × Int × Int} (hversion : w.environ.lookup "VERSION" = none)
    (h : Exports w (main py lines w) (tagText v)) : ¬ EndsEarly lines w ∧
      ∃ latest, order latest = runningMax (rank py) (order (0, 0, 0)) lines ∧ currentTag latest = v ∧
        Printable py v.1 ∧ Printable py v.2.1 ∧ Printable py v.2.2 := by
  have hearly : ¬ EndsEarly lines w := by
    intro hearly
    obtain ⟨e, he⟩ := @main_endsEarly py _ _ hearly hversion
    have hok := h.ok
    rw [he] at hok
    cases hok
  obtain ⟨latest, horder, hmain⟩ := @main_of_not_endsEarly py _ _ hearly hversion
  refine ⟨hearly, latest, horder, ?_⟩
  rw [hmain] at h
  unfold versionToString at h
  split at h
  · cases h.ok
  · rename_i text htext
    split at htext
    · rename_i hprintable
      cases htext
      have henv := h.environ
      rw [setEnvVariable_eq hversion] at henv
      have htag : tagText (currentTag latest) = tagText v := by simpa using henv
      have hv := tagText_inj htag
      subst hv
      exact ⟨rfl, hprintable⟩
    · cases htext

theorem runningMax_noTag (h : NoTag py lines) (m : Lex (Int × Lex (Int × Int))) :
    runningMax (rank py) m lines = m := by
  rcases @runningMax_cases _ _ _ (rank py) m lines with hm | ⟨line, hline, hm⟩
  · exact hm
  · obtain ⟨v, hv, -⟩ := exists_of_rank hm
    obtain ⟨tag, rfl, hok⟩ := versionOf_some_iff.1 hv
    exact absurd hok (h tag v hline)

theorem printable_digit {n : Int} (h : (Nat.toDigits 10 n.natAbs).length = 1) : Printable py n := by
  unfold Printable
  omega

/-- Without a tag `v0.0.1` is exported. -/
theorem main_noTag (h : NoTag py lines) (hearly : ¬ EndsEarly lines w)
    (hversion : w.environ.lookup "VERSION" = none) :
    main py lines w = (.ok (), setEnvVariable w "VERSION" (tagText (0, 0, 1))) := by
  obtain ⟨latest, horder, hmain⟩ := @main_of_not_endsEarly py _ _ hearly hversion
  rw [runningMax_noTag h, order_inj] at horder
  subst horder
  have hwrite : versionToString py (currentTag (0, 0, 0)) = .ok (tagText (0, 0, 1)) :=
    if_pos ⟨printable_digit rfl, printable_digit rfl, printable_digit rfl⟩
  rw [hmain, hwrite]

/-- The version after a tag with the greatest value, from `(0, 0, 0)` on. -/
theorem main_greatest {tag : List Char} {v : Int × Int × Int} (hg : Greatest py lines tag v)
    (hpos : order (0, 0, 0) ≤ order v) (hprintable : Printable py v.1 ∧ Printable py v.2.1 ∧ Printable py (v.2.2 + 1))
    (hearly : ¬ EndsEarly lines w) (hversion : w.environ.lookup "VERSION" = none) :
    main py lines w = (.ok (), setEnvVariable w "VERSION" (tagText (v.1, v.2.1, v.2.2 + 1))) := by
  obtain ⟨latest, horder, hmain⟩ := @main_of_not_endsEarly py _ _ hearly hversion
  have hle : runningMax (rank py) (order (0, 0, 0)) lines ≤ order v := by
    apply runningMax_le hpos
    intro line hline r hr
    obtain ⟨u, hu, rfl⟩ := exists_of_rank hr
    obtain ⟨other, rfl, hother⟩ := versionOf_some_iff.1 hu
    exact hg.max other u hline hother
  have hge : order v ≤ runningMax (rank py) (order (0, 0, 0)) lines :=
    le_runningMax hg.mem (rank_some_iff.2 (versionOf_some_iff.2 ⟨tag, rfl, hg.value⟩))
  rw [le_antisymm hle hge, order_inj] at horder
  subst horder
  have hwrite : versionToString py (currentTag latest) = .ok (tagText (currentTag latest)) := if_pos hprintable
  rw [hmain, hwrite]
  rfl

theorem Greatest.unique {tag tag' : List Char} {v v' : Int × Int × Int} (h : Greatest py lines tag v)
    (h' : Greatest py lines tag' v') : v' = v :=
  order_inj.1 (le_antisymm (h.max tag' v' h'.mem h'.value) (h'.max tag v h.mem h.value))

/-- The next patch version is exported only after a version from `(0, 0, 0)` on. -/
theorem exports_next {v : Int × Int × Int} (hversion : w.environ.lookup "VERSION" = none)
    (h : Exports w (main py lines w) (tagText (v.1, v.2.1, v.2.2 + 1))) :
    ¬ EndsEarly lines w ∧ order (0, 0, 0) ≤ order v ∧
      Printable py v.1 ∧ Printable py v.2.1 ∧ Printable py (v.2.2 + 1) := by
  obtain ⟨hearly, latest, horder, hcur, hprintable⟩ := exports_main hversion h
  obtain rfl : latest = v := by
    obtain ⟨h1, h2, h3⟩ : latest.1 = v.1 ∧ latest.2.1 = v.2.1 ∧ latest.2.2 + 1 = v.2.2 + 1 := by
      simpa [currentTag] using hcur
    exact Prod.ext h1 (Prod.ext h2 (by omega))
  refine ⟨hearly, ?_, hprintable⟩
  rw [horder]
  exact le_runningMax_init

/-- What is exported is greater than the greatest tag, so it is not `vX.Y.0` after `vX.Y`. -/
theorem not_exports_two {tag : List Char} {v : Int × Int × Int} (hversion : w.environ.lookup "VERSION" = none)
    (hg : Greatest py lines tag v) (hz : v.2.2 = 0) : ¬ Exports w (main py lines w) (tagText (v.1, v.2.1, 0)) := by
  intro h
  obtain ⟨-, latest, horder, hcur, -⟩ := exports_main hversion h
  have hlt := lt_of_mem horder hg.mem (versionOf_some_iff.2 ⟨tag, rfl, hg.value⟩)
  rw [hcur, ← hz] at hlt
  exact lt_irrefl _ hlt

end Main

/-- Without a `VERSION` in the environment the algorithm is followed in two cases. There is no tag, and the
script ends early; or it does not, a tag of three components has the greatest value, this is at least
`(0, 0, 0)`, and the next version can be written. -/
theorem follows_algorithm_iff (py : Python) (lines : List (Option (List Char))) (w : World)
    (hversion : w.environ.lookup "VERSION" = none) :
    FollowsAlgorithm py lines w ↔ (NoTag py lines ∧ EndsEarly lines w) ∨
      (¬ EndsEarly lines w ∧ ∃ tag v, Greatest py lines tag v ∧ components tag = 3 ∧
        order (0, 0, 0) ≤ order v ∧ Printable py v.1 ∧ Printable py v.2.1 ∧ Printable py (v.2.2 + 1)) := by
  constructor
  · intro h
    by_cases hno : NoTag py lines
    · refine .inl ⟨hno, ?_⟩
      by_contra hearly
      obtain ⟨e, he⟩ := h.noTag hno
      rw [main_noTag hno hearly hversion] at he
      cases he
    · obtain ⟨tag, v, hg⟩ := exists_greatest hno
      by_cases hthree : ∃ tag v, Greatest py lines tag v ∧ components tag = 3
      · obtain ⟨tag, v, hg, h3⟩ := hthree
        obtain ⟨hearly, hnext⟩ := exports_next hversion (h.three tag v hg h3)
        exact .inr ⟨hearly, tag, v, hg, h3, hnext⟩
      · obtain ⟨h2, hz⟩ := (components_of_ok hg.value).resolve_right fun h3 => hthree ⟨tag, v, hg, h3⟩
        have hbelow : ∀ other u, some other ∈ lines → parseVersion py other = .ok u → components other = 3 →
            order u < order v := by
          intro other u ho hu h3
          refine lt_of_le_of_ne (hg.max other u ho hu) fun heq => hthree ⟨other, u, ⟨ho, hu, ?_⟩, h3⟩
          exact fun x r hx hr => heq ▸ hg.max x r hx hr
        exact absurd (h.two tag v hg h2 hbelow) (not_exports_two hversion hg hz)
  · rintro (⟨hno, hearly⟩ | ⟨hearly, tag, v, hg, h3, hpos, hprintable⟩)
    · exact ⟨fun _ => main_endsEarly hearly hversion, fun tag v hg => absurd hg.value (hno tag v hg.mem),
        fun tag v hg => absurd hg.value (hno tag v hg.mem)⟩
    · refine ⟨fun hno => absurd hg.value (hno tag v hg.mem), fun tag' v' hg' _ => ?_, fun tag' v' hg' _ hbelow => ?_⟩
      · obtain rfl := hg.unique hg'
        rw [main_greatest hg hpos hprintable hearly hversion]
        exact exports_setEnvVariable hversion
      · exact absurd (hbelow tag v hg.mem hg.value h3) (not_lt_of_ge (hg.max tag' v' hg'.mem hg'.value))

/-- The environment of the workflow, with a token and the file for the steps that follow. -/
def workflow : World := ⟨[("GITHUB_TOKEN", ['t']), ("GITHUB_ENV", ['f'])], []⟩

theorem workflow_runs {lines : List (Option (List Char))} (h : ∀ line ∈ lines, Readable line) :
    ¬ EndsEarly lines workflow := by
  rintro (ht | hl)
  · cases ht
  · exact hl h

theorem follows_algorithm_iff_three :
    FollowsAlgorithm plainPython [some "v1.2".toList, some "v1.2.3".toList, some "latest".toList] workflow := by
  have hall : ∀ line ∈ [some "v1.2".toList, some "v1.2.3".toList, some "latest".toList],
      ∀ u ∈ versionOf plainPython line, greater u (1, 2, 3) = false := by decide
  refine (follows_algorithm_iff plainPython _ workflow rfl).2 (.inr ⟨workflow_runs (by decide), "v1.2.3".toList,
    (1, 2, 3), ⟨by decide, rfl, fun other u ho hu => ?_⟩, rfl, ?_, .inl rfl, .inl rfl, .inl rfl⟩)
  · rw [← not_lt, ← greater_iff, hall _ ho u (versionOf_some_iff.2 ⟨other, rfl, hu⟩)]
    exact Bool.false_ne_true
  · rw [← not_lt, ← greater_iff]
    decide

/-- Without a tag `v0.0.1` is exported, and after the one tag `v1.2` the version `v1.2.1`. -/
theorem no_tag_exports :
    ¬ FollowsAlgorithm plainPython [] workflow ∧
      ¬ FollowsAlgorithm plainPython [some "v1.2".toList] workflow := by
  constructor
  · intro h
    obtain ⟨e, he⟩ := h.noTag fun tag v hmem => absurd hmem List.not_mem_nil
    have hmain : (main plainPython [] workflow).2.environ.lookup "VERSION" = some "v0.0.1".toList := by decide
    rw [he] at hmain
    cases hmain
  · intro h
    have hgreatest : Greatest plainPython [some "v1.2".toList] "v1.2".toList (1, 2, 0) := by
      refine ⟨List.mem_singleton_self _, rfl, fun other u ho hu => ?_⟩
      cases List.mem_singleton.1 ho
      cases hu
      exact le_refl _
    have hexports := h.two _ _ hgreatest rfl fun other u ho hu h3 => by
      cases List.mem_singleton.1 ho
      exact absurd h3 (by decide)
    exact absurd hexports.environ (by decide)

end InfoWorkshop.Scripts
