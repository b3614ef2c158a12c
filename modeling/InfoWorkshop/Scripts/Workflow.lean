/-
The release steps of `.github/workflows/ci.yaml`: a job for each push checks the repository out with its tags, runs
`bump_version.py`, tags its commit with the version that the script exports, and pushes the tags. Jobs of different
pushes run at the same time, and maintainers push tags of their own. Git and the runner of GitHub are parameters,
with what their documentation says of the commands that the workflow uses.
-/
import InfoWorkshop.Lib.Steps
import InfoWorkshop.Scripts.BumpVersion
import Mathlib.Data.List.Nodup
import Mathlib.Data.List.Perm.Basic

namespace InfoWorkshop.Scripts.Workflow

open InfoWorkshop.Decimal InfoWorkshop.Steps InfoWorkshop.RunningMax

/-! ## Git and the runner -/

/-- A name that is one word to the shell, and no option to Git. -/
structure Word (name : List Char) : Prop where
  head : name.head? ≠ some '-'
  ne_nil : name ≠ []
  plain : ∀ c ∈ name, c.isAlphanum = true ∨ c = '.' ∨ c = '-'

/-- Git, with `R` for a repository; its tags are names with the numbers of the commits that they are on.
`checkout` is the clone that `actions/checkout` makes with `fetch-depth: 0`, `listing` the lines of `git tag`, `tag`
is `git tag $VERSION` on the commit that is checked out, `push` is `git push --tags` to the first repository from
the second one, and `describe` is `git describe --tags --abbrev=100 --always` on a commit. -/
structure Git (R : Type*) where
  tags : R → List (List Char × Nat)
  checkout : R → R
  listing : R → List (List Char)
  tag : R → Option (List Char) → Nat → Option R
  push : R → R → Bool × R
  describe : R → Nat → List Char
  tags_nodup : ∀ r, ((tags r).map Prod.fst).Nodup
  tags_named : ∀ r, ∀ x ∈ tags r, x.1 ≠ []
  mem_checkout : ∀ r x, x ∈ tags (checkout r) ↔ x ∈ tags r
  listing_perm : ∀ r, (listing r).Perm ((tags r).map Prod.fst)
  tag_some : ∀ r name commit r', Word name → tag r (some name) commit = some r' →
    ∀ x, x ∈ tags r' ↔ x ∈ tags r ∨ x = (name, commit)
  -- a tag of the other repository is neither moved nor deleted
  push_keeps : ∀ remote r, tags remote ⊆ tags (push remote r).2
  push_sends : ∀ remote r, (push remote r).1 = true → tags r ⊆ tags (push remote r).2
  describe_tag : ∀ r name commit, (name, commit) ∈ tags r → (∀ other, (other, commit) ∈ tags r → other = name) →
    describe r commit = name ++ ['\n']

/-- The environment of the script in a job, and what the steps after it find as `VERSION`: each step has a file of
its own, which is empty at first, and a line `NAME=value` in it is a variable of the steps that follow. -/
structure Runner where
  world : World
  exported : List (List Char) → Option (List Char)
  noVersion : world.environ.lookup "VERSION" = none
  githubEnv : (world.environ.lookup "GITHUB_ENV").isSome = true
  newFile : world.envFile = []
  exported_line : ∀ text, Word text → exported ["VERSION=".toList ++ text] = some text

namespace Git

variable {R : Type*} (git : Git R)

def names (r : R) : List (List Char) := (git.tags r).map Prod.fst

variable {git}

/-- A name stands for one commit. -/
theorem unique {r : R} {name : List Char} {commit commit' : Nat} (h : (name, commit) ∈ git.tags r)
    (h' : (name, commit') ∈ git.tags r) : commit = commit' :=
  congrArg Prod.snd (List.inj_on_of_nodup_map (git.tags_nodup r) h h' rfl)

theorem listing_ne_nil {r : R} {name : List Char} (h : name ∈ git.listing r) : name ≠ [] := by
  obtain ⟨tag, htag, rfl⟩ := List.mem_map.1 ((git.listing_perm r).mem_iff.1 h)
  exact git.tags_named r tag htag

end Git

/-! ## Jobs -/

/-- What a job has done, with the repository that it has checked out. -/
inductive Stage (R : Type*)
  | queued
  | checkedOut (checkout : R)
  | bumped (checkout : R) (version : Option (List Char))
  | tagged (checkout checkout' : R) (version : Option (List Char))
  | released (checkout : R) (version : Option (List Char))
  | scriptFailed (error : ScriptError)
  | tagFailed (checkout : R) (version : Option (List Char))
  | pushFailed (checkout : R) (version : Option (List Char))
  | stopped
  deriving DecidableEq, Repr

/-- The job has come to its end. -/
def Stage.ended {R : Type*} : Stage R → Bool
  | .queued | .checkedOut _ | .bumped _ _ | .tagged _ _ _ => false
  | .released _ _ | .scriptFailed _ | .tagFailed _ _ | .pushFailed _ _ | .stopped => true

/-- A job, for the commit that was pushed. -/
structure Job (R : Type*) where
  commit : Nat
  stage : Stage R
  deriving DecidableEq, Repr

/-- The remote repository, and the jobs. -/
structure Repository (R : Type*) where
  remote : R
  jobs : List (Job R)
  deriving DecidableEq, Repr

/-- A commit is pushed, a maintainer pushes the tags of a repository, or a job goes on; it stops where another of its
steps fails, such as the build. A push of a job that breaks off half-way is one of a maintainer, and a `stop`. -/
inductive Act (R : Type*)
  | push (commit : Nat)
  | publish (source : R)
  | checkout (job : Nat)
  | bump (job : Nat)
  | tag (job : Nat)
  | pushTags (job : Nat)
  | stop (job : Nat)
  deriving DecidableEq, Repr

section Step

variable {R : Type*} (git : Git R) (py : Python) (runner : Runner)

def Repository.goto (s : Repository R) (i : Nat) (commit : Nat) (stage : Stage R) : Repository R :=
  { s with jobs := s.jobs.set i ⟨commit, stage⟩ }

/-- The step `Get new version`. -/
def getNewVersion (checkout : R) : Stage R :=
  match main py ((git.listing checkout).map some) runner.world with
  | (.ok (), w) => .bumped checkout (runner.exported w.envFile)
  | (.error e, _) => .scriptFailed e

/-- One step. -/
def step (s : Repository R) : Act R → Option (Repository R)
  | .push commit => some { s with jobs := s.jobs ++ [⟨commit, .queued⟩] }
  | .publish source => some { s with remote := (git.push s.remote source).2 }
  | .checkout i =>
    match s.jobs[i]? with
    | some ⟨commit, .queued⟩ => some (s.goto i commit (.checkedOut (git.checkout s.remote)))
    | _ => none
  | .bump i =>
    match s.jobs[i]? with
    | some ⟨commit, .checkedOut checkout⟩ => some (s.goto i commit (getNewVersion git py runner checkout))
    | _ => none
  | .tag i =>
    match s.jobs[i]? with
    | some ⟨commit, .bumped checkout version⟩ =>
      match git.tag checkout version commit with
      | some checkout' => some (s.goto i commit (.tagged checkout checkout' version))
      | none => some (s.goto i commit (.tagFailed checkout version))
    | _ => none
  | .pushTags i =>
    match s.jobs[i]? with
    | some ⟨commit, .tagged checkout checkout' version⟩ =>
      match git.push s.remote checkout' with
      | (true, remote) => some ({ s with remote }.goto i commit (.released checkout version))
      | (false, remote) => some ({ s with remote }.goto i commit (.pushFailed checkout version))
    | _ => none
  | .stop i =>
    match s.jobs[i]? with
    | some ⟨commit, stage⟩ => if stage.ended = true then none else some (s.goto i commit .stopped)
    | none => none

/-- How a step of a job goes, with the remote repository before and after it. -/
inductive Moves : R → Nat → Stage R → Stage R → R → Prop
  | checkout {remote : R} {commit : Nat} : Moves remote commit .queued (.checkedOut (git.checkout remote)) remote
  | bump {remote checkout : R} {commit : Nat} :
    Moves remote commit (.checkedOut checkout) (getNewVersion git py runner checkout) remote
  | tag {remote checkout checkout' : R} {commit : Nat} {version : Option (List Char)}
    (htag : git.tag checkout version commit = some checkout') :
    Moves remote commit (.bumped checkout version) (.tagged checkout checkout' version) remote
  | tagFails {remote checkout : R} {commit : Nat} {version : Option (List Char)}
    (htag : git.tag checkout version commit = none) :
    Moves remote commit (.bumped checkout version) (.tagFailed checkout version) remote
  | release {remote checkout checkout' remote' : R} {commit : Nat} {version : Option (List Char)}
    (hpush : git.push remote checkout' = (true, remote')) :
    Moves remote commit (.tagged checkout checkout' version) (.released checkout version) remote'
  | pushFails {remote checkout checkout' remote' : R} {commit : Nat} {version : Option (List Char)}
    (hpush : git.push remote checkout' = (false, remote')) :
    Moves remote commit (.tagged checkout checkout' version) (.pushFailed checkout version) remote'
  | stop {remote : R} {commit : Nat} {stage : Stage R} (hended : stage.ended = false) :
    Moves remote commit stage .stopped remote

/-- The steps of the system. -/
inductive Step (s : Repository R) : Repository R → Prop
  | push (commit : Nat) : Step s { s with jobs := s.jobs ++ [⟨commit, .queued⟩] }
  | publish (source : R) : Step s { s with remote := (git.push s.remote source).2 }
  | move {i commit : Nat} {stage stage' : Stage R} {remote : R} (hjob : s.jobs[i]? = some ⟨commit, stage⟩)
    (hmove : Moves git py runner s.remote commit stage stage' remote) :
    Step s ⟨remote, s.jobs.set i ⟨commit, stage'⟩⟩

variable {git py runner}

theorem step_cases {s t : Repository R} {a : Act R} (h : step git py runner s a = some t) :
    Step git py runner s t := by
  cases a with
  | push commit =>
    cases h
    exact .push commit
  | publish source =>
    cases h
    exact .publish source
  | checkout i =>
    simp only [step] at h
    split at h
    · rename_i commit hjob
      cases h
      exact .move hjob .checkout
    · cases h
  | bump i =>
    simp only [step] at h
    split at h
    · rename_i commit checkout hjob
      cases h
      exact .move hjob .bump
    · cases h
  | tag i =>
    simp only [step] at h
    split at h
    · rename_i commit checkout version hjob
      split at h
      · rename_i checkout' htag
        cases h
        exact .move hjob (.tag htag)
      · rename_i htag
        cases h
        exact .move hjob (.tagFails htag)
    · cases h
  | pushTags i =>
    simp only [step] at h
    split at h
    · rename_i commit checkout checkout' version hjob
      split at h
      · rename_i remote hpush
        cases h
        exact .move hjob (.release hpush)
      · rename_i remote hpush
        cases h
        exact .move hjob (.pushFails hpush)
    · cases h
  | stop i =>
    simp only [step] at h
    split at h
    · rename_i commit stage hjob
      split at h
      · cases h
      · rename_i hended
        cases h
        exact .move hjob (.stop (Bool.eq_false_iff.2 hended))
    · cases h

end Step

/-! ## The version of a job -/

/-- The greatest version of the tags, or `(0, 0, 0)` where none of them is greater. -/
structure Latest (py : Python) (names : List (List Char)) (latest : Int × Int × Int) : Prop where
  value : latest = (0, 0, 0) ∨ ∃ name ∈ names, parseVersion py name = .ok latest
  max : ∀ name ∈ names, ∀ v, parseVersion py name = .ok v → order v ≤ order latest
  least : order (0, 0, 0) ≤ order latest

/-- The version is the one after the latest of the tags. -/
structure Follows (py : Python) (names : List (List Char)) (version : List Char) (v : Int × Int × Int) : Prop where
  text : version = tagText v
  parses : parseVersion py version = .ok v
  successor : ∃ latest, Latest py names latest ∧ v = currentTag latest

theorem Follows.greater {py : Python} {names : List (List Char)} {version name : List Char} {v u : Int × Int × Int}
    (h : Follows py names version v) (hname : name ∈ names) (hu : parseVersion py name = .ok u) :
    order u < order v := by
  obtain ⟨latest, hlatest, rfl⟩ := h.successor
  exact lt_of_le_of_lt (hlatest.max name hname u hu) (lt_currentTag latest)

/-- What the loop over the tags finds is the latest. -/
theorem latest_of_runningMax {py : Python} {names listing : List (List Char)} {latest : Int × Int × Int}
    (hperm : listing.Perm names)
    (horder : order latest = runningMax (rank py) (order (0, 0, 0)) (listing.map some)) : Latest py names latest where
  value := by
    rcases @runningMax_cases _ _ _ (rank py) (order (0, 0, 0)) (listing.map some) with hzero | ⟨line, hline, hrank⟩
    · exact .inl (order_inj.1 (horder.trans hzero))
    · obtain ⟨v, hv, hmax⟩ := exists_of_rank hrank
      obtain ⟨name, rfl, hparse⟩ := versionOf_some_iff.1 hv
      obtain ⟨name', hname, heq⟩ := List.mem_map.1 hline
      cases heq
      obtain rfl : v = latest := order_inj.1 (hmax.trans horder.symm)
      exact .inr ⟨name, hperm.mem_iff.1 hname, hparse⟩
  max name hname v hv := by
    rw [horder]
    exact le_runningMax (List.mem_map_of_mem (hperm.mem_iff.2 hname))
      (rank_some_iff.2 (versionOf_some_iff.2 ⟨name, rfl, hv⟩))
  least := by
    rw [horder]
    exact le_runningMax_init

/-- The text of a version is a word. -/
theorem tagText_word (v : Int × Int × Int) : Word (tagText v) where
  head := by rw [tagText, List.head?_cons]; decide
  ne_nil := List.cons_ne_nil _ _
  plain := by
    have hdigits : ∀ n : Nat, ∀ c ∈ Nat.toDigits 10 n, c.isAlphanum = true := fun n c hc => by
      rw [Char.isAlphanum, toDigits_digits n c hc, Bool.or_true]
    have hstr : ∀ n : Int, ∀ c ∈ str n, c.isAlphanum = true ∨ c = '.' ∨ c = '-' := by
      intro n c hc
      cases n with
      | ofNat n => exact .inl (hdigits n c hc)
      | negSucc n =>
        rcases List.mem_cons.1 hc with rfl | hc
        · exact .inr (.inr rfl)
        · exact .inl (hdigits (n + 1) c hc)
    intro c hc
    simp only [tagText, List.mem_cons, List.mem_append] at hc
    rcases hc with rfl | hc | rfl | hc | rfl | hc
    · exact .inl (by decide)
    · exact hstr _ c hc
    · exact .inr (.inl rfl)
    · exact hstr _ c hc
    · exact .inr (.inl rfl)
    · exact hstr _ c hc

section Jobs

variable {R : Type*} (git : Git R) (py : Python) (runner : Runner)

/-- The script exported the version after the tags of the checkout. -/
def Bumped (checkout : R) (version : Option (List Char)) : Prop :=
  ∃ name v, version = some name ∧ Follows py (git.names checkout) name v

/-- What holds of a job, with the remote repository: the tags of its checkout are still there, and its version is the
one after them; a version that is released is at the remote, on the commit of the job. -/
def Stage.Sound (remote : R) (commit : Nat) : Stage R → Prop
  | .queued | .stopped => True
  | .checkedOut checkout => git.tags checkout ⊆ git.tags remote
  | .bumped checkout version | .tagFailed checkout version | .pushFailed checkout version =>
    git.tags checkout ⊆ git.tags remote ∧ Bumped git py checkout version
  | .tagged checkout checkout' version => git.tags checkout ⊆ git.tags remote ∧
      ∃ name v, version = some name ∧ Follows py (git.names checkout) name v ∧
        ∀ x, x ∈ git.tags checkout' ↔ x ∈ git.tags checkout ∨ x = (name, commit)
  | .released checkout version => git.tags checkout ⊆ git.tags remote ∧
      ∃ name v, version = some name ∧ Follows py (git.names checkout) name v ∧ (name, commit) ∈ git.tags remote
  | .scriptFailed _ => runner.world.environ.lookup "GITHUB_TOKEN" = none ∨ py.intMaxStrDigits ≠ 0

variable {git py runner}

/-- The script exports the version after the tags, or fails for want of a token or at the limit on digits. -/
theorem getNewVersion_cases (checkout : R) :
    (∃ version, getNewVersion git py runner checkout = .bumped checkout version ∧ Bumped git py checkout version) ∨
      ∃ e, getNewVersion git py runner checkout = .scriptFailed e ∧
        (runner.world.environ.lookup "GITHUB_TOKEN" = none ∨ py.intMaxStrDigits ≠ 0) := by
  unfold getNewVersion
  by_cases htoken : runner.world.environ.lookup "GITHUB_TOKEN" = none
  · -- the script ends before it lists the tags
    obtain ⟨e, he⟩ := @main_endsEarly py ((git.listing checkout).map some) _ (.inl htoken) runner.noVersion
    rw [he]
    exact .inr ⟨e, rfl, .inl htoken⟩
  · have hearly : ¬ EndsEarly ((git.listing checkout).map some) runner.world := by
      rintro (hnone | hlines)
      · exact htoken hnone
      · exact hlines (readable_of_ne_nil fun name hname => git.listing_ne_nil hname)
    obtain ⟨latest, horder, hmain⟩ := @main_of_not_endsEarly py _ _ hearly runner.noVersion
    rw [hmain]
    -- `str` fails only where numbers are limited in their digits
    rcases hwrite : versionToString py (currentTag latest) with e | text
    · refine .inr ⟨e, rfl, .inr fun hlimit => ?_⟩
      rw [versionToString_of_limit hlimit] at hwrite
      cases hwrite
    · obtain ⟨rfl, hparses⟩ := versionToString_ok hwrite
      have hexported := runner.exported_line _ (tagText_word (currentTag latest))
      refine .inl ⟨some (tagText (currentTag latest)), ?_, _, currentTag latest, rfl, rfl, hparses, latest,
        latest_of_runningMax (git.listing_perm checkout) horder, rfl⟩
      simp only [setEnvVariable_eq runner.noVersion, if_pos runner.githubEnv, runner.newFile, List.nil_append,
        hexported]

theorem Stage.Sound.mono {remote remote' : R} {commit : Nat} {stage : Stage R}
    (hsub : git.tags remote ⊆ git.tags remote') (h : stage.Sound git py runner remote commit) :
    stage.Sound git py runner remote' commit := by
  cases stage with
  | queued | stopped => trivial
  | checkedOut checkout => exact List.Subset.trans h hsub
  | bumped | tagFailed | pushFailed | tagged => exact ⟨List.Subset.trans h.1 hsub, h.2⟩
  | released checkout version =>
    obtain ⟨hkept, name, v, hversion, hfollows, hmem⟩ := h
    exact ⟨List.Subset.trans hkept hsub, name, v, hversion, hfollows, hsub hmem⟩
  | scriptFailed error => exact h

theorem Moves.subset {remote remote' : R} {commit : Nat} {stage stage' : Stage R}
    (h : Moves git py runner remote commit stage stage' remote') : git.tags remote ⊆ git.tags remote' := by
  cases h with
  | checkout | bump | tag | tagFails | stop => exact List.Subset.refl _
  | @release _ checkout' _ _ _ hpush | @pushFails _ checkout' _ _ _ hpush =>
    have hkept := git.push_keeps remote checkout'
    rw [hpush] at hkept
    exact hkept

theorem Moves.sound {remote remote' : R} {commit : Nat} {stage stage' : Stage R}
    (h : Moves git py runner remote commit stage stage' remote') (hs : stage.Sound git py runner remote commit) :
    stage'.Sound git py runner remote' commit := by
  have hsub := h.subset
  cases h with
  | checkout => exact fun x hx => (git.mem_checkout remote x).1 hx
  | @bump checkout =>
    rcases @getNewVersion_cases _ git py runner checkout with ⟨version, hnew, hbumped⟩ | ⟨e, hnew, hwhy⟩
    · rw [hnew]
      exact ⟨hs, hbumped⟩
    · rw [hnew]
      exact hwhy
  | tag htag =>
    obtain ⟨hkept, name, v, rfl, hfollows⟩ := hs
    have hword : Word name := hfollows.text ▸ tagText_word v
    exact ⟨hkept, name, v, rfl, hfollows, git.tag_some _ _ _ _ hword htag⟩
  | tagFails htag => exact hs
  | @release _ checkout' _ _ _ hpush =>
    obtain ⟨hkept, name, v, hversion, hfollows, htags⟩ := hs
    -- the new tag is one of those that were sent
    have hsent := git.push_sends remote checkout' (by rw [hpush])
    rw [hpush] at hsent
    exact ⟨List.Subset.trans hkept hsub, name, v, hversion, hfollows, hsent ((htags _).2 (.inr rfl))⟩
  | pushFails hpush =>
    obtain ⟨hkept, name, v, hversion, hfollows, -⟩ := hs
    exact ⟨List.Subset.trans hkept hsub, name, v, hversion, hfollows⟩
  | stop => trivial

/-! ## All jobs -/

/-- No job has run. -/
def Repository.start (remote : R) : Repository R := ⟨remote, []⟩

/-- Every job is sound. -/
def Repository.Sound (git : Git R) (py : Python) (runner : Runner) (s : Repository R) : Prop :=
  ∀ job ∈ s.jobs, job.stage.Sound git py runner s.remote job.commit

theorem step_subset {s t : Repository R} {a : Act R} (h : step git py runner s a = some t) :
    git.tags s.remote ⊆ git.tags t.remote := by
  cases step_cases h with
  | push commit => exact List.Subset.refl _
  | publish source => exact git.push_keeps s.remote source
  | move _ hmove => exact hmove.subset

theorem step_sound {s t : Repository R} {a : Act R} (hs : s.Sound git py runner)
    (h : step git py runner s a = some t) : t.Sound git py runner := by
  have hsub := step_subset h
  have hmono : ∀ job ∈ s.jobs, job.stage.Sound git py runner t.remote job.commit :=
    fun job hjob => (hs job hjob).mono hsub
  cases step_cases h with
  | push commit =>
    intro job hjob
    rcases List.mem_append.1 hjob with hjob | hjob
    · exact hmono job hjob
    · rw [List.mem_singleton.1 hjob]
      trivial
  | publish source => exact hmono
  | move hget hmove =>
    intro job hjob
    rcases List.mem_or_eq_of_mem_set hjob with hjob | rfl
    · exact hmono job hjob
    · exact hmove.sound (hs _ (List.mem_of_getElem? hget))

theorem exec_sound {remote : R} {s : Repository R} {as : List (Act R)}
    (h : exec (step git py runner) (.start remote) as = some s) : s.Sound git py runner :=
  exec_invariant (I := (·.Sound git py runner)) (fun _ _ _ hs hstep => step_sound hs hstep) h
    fun _ hjob => absurd hjob List.not_mem_nil

/-- In any order of the jobs and of the tags that maintainers push: every job is sound, and jobs that released one
version have one commit. -/
theorem releases_sound (git : Git R) (py : Python) (runner : Runner) (remote : R) (as : List (Act R)) :
    Always (step git py runner) (fun s => s.Sound git py runner ∧
      ∀ commit commit' checkout checkout' version, ⟨commit, .released checkout version⟩ ∈ s.jobs →
        ⟨commit', .released checkout' version⟩ ∈ s.jobs → commit = commit') (.start remote) as := by
  refine always_of_meets (I := (·.Sound git py runner)) (fun s hs => ⟨hs, ?_⟩)
    (fun _ _ _ hs _ hstep => step_sound hs hstep) (fun _ hjob => absurd hjob List.not_mem_nil) (meets_true _ _)
  intro commit commit' checkout checkout' version hjob hjob'
  -- the one version is a tag of the remote on either commit
  obtain ⟨-, name, -, hversion, -, hmem⟩ := hs _ hjob
  obtain ⟨-, name', -, hversion', -, hmem'⟩ := hs _ hjob'
  obtain rfl : name = name' := Option.some.inj (hversion.symm.trans hversion')
  exact git.unique hmem hmem'

/-! ## Jobs that follow one another -/

/-- The checkout, if there was one, came when the tags of `base` were at the remote. -/
def Stage.SeesAll (git : Git R) (base : R) : Stage R → Prop
  | .checkedOut checkout | .bumped checkout _ | .tagged checkout _ _ | .released checkout _ | .tagFailed checkout _
  | .pushFailed checkout _ => git.tags base ⊆ git.tags checkout
  | .queued | .scriptFailed _ | .stopped => True

theorem Moves.seesAll {base remote remote' : R} {commit : Nat} {stage stage' : Stage R}
    (h : Moves git py runner remote commit stage stage' remote') (hsub : git.tags base ⊆ git.tags remote)
    (hs : stage.SeesAll git base) : stage'.SeesAll git base := by
  cases h with
  | checkout => exact fun x hx => (git.mem_checkout remote x).2 (hsub hx)
  | @bump checkout =>
    rcases @getNewVersion_cases _ git py runner checkout with ⟨version, hnew, -⟩ | ⟨e, hnew, -⟩
    · rw [hnew]
      exact hs
    · rw [hnew]
      trivial
  | tag | tagFails | release | pushFails => exact hs
  | stop => trivial

theorem step_seesAll {base : R} {s t : Repository R} {a : Act R} {j : Nat}
    (hs : git.tags base ⊆ git.tags s.remote ∧ ∀ job, s.jobs[j]? = some job → job.stage.SeesAll git base)
    (h : step git py runner s a = some t) :
    git.tags base ⊆ git.tags t.remote ∧ ∀ job, t.jobs[j]? = some job → job.stage.SeesAll git base := by
  obtain ⟨hsub, hjobs⟩ := hs
  refine ⟨List.Subset.trans hsub (step_subset h), ?_⟩
  cases step_cases h with
  | push commit =>
    intro job hjob
    rcases Nat.lt_or_ge j s.jobs.length with hlt | hge
    · rw [List.getElem?_append_left hlt] at hjob
      exact hjobs job hjob
    · rw [List.getElem?_append_right hge] at hjob
      rw [List.mem_singleton.1 (List.mem_of_getElem? hjob)]
      trivial
  | publish source => exact hjobs
  | @move i commit stage stage' remote hget hmove =>
    intro job hjob
    by_cases hij : i = j
    · subst hij
      rw [List.getElem?_set_self (List.getElem?_eq_some_iff.1 hget).1] at hjob
      cases hjob
      exact hmove.seesAll hsub (hjobs _ hget)
    · rw [List.getElem?_set_ne hij] at hjob
      exact hjobs job hjob

/-- A job that is checked out after a version was released can only release a greater one, whatever the other jobs do
and whatever tags maintainers push. -/
theorem releases_increase {remote : R} {s t : Repository R} {as bs : List (Act R)} {j commit commit' : Nat}
    {checkout checkout' : R} {version version' : Option (List Char)}
    (hs : exec (step git py runner) (.start remote) as = some s) (ht : exec (step git py runner) s bs = some t)
    (hreleased : ⟨commit, .released checkout version⟩ ∈ s.jobs)
    (hqueued : ∀ job, s.jobs[j]? = some job → job.stage = .queued)
    (hreleased' : t.jobs[j]? = some ⟨commit', .released checkout' version'⟩) :
    ∃ name name' v v', version = some name ∧ version' = some name' ∧ parseVersion py name = .ok v ∧
      parseVersion py name' = .ok v' ∧ order v < order v' := by
  obtain ⟨-, name, v, hversion, hfollows, hmem⟩ := exec_sound hs _ hreleased
  have hlast : exec (step git py runner) (.start remote) (as ++ bs) = some t := by rw [exec_append hs, ht]
  obtain ⟨-, name', v', hversion', hfollows', -⟩ := exec_sound hlast _ (List.mem_of_getElem? hreleased')
  have hsees := exec_invariant
    (I := fun t => git.tags s.remote ⊆ git.tags t.remote ∧
      ∀ job, t.jobs[j]? = some job → job.stage.SeesAll git s.remote)
    (fun _ _ _ hs hstep => step_seesAll hs hstep) ht
    ⟨List.Subset.refl _, fun job hjob => by rw [hqueued job hjob]; trivial⟩
  -- the released tag is one of those of the later checkout
  have hname : name ∈ git.names checkout' := List.mem_map_of_mem (hsees.2 _ hreleased' hmem)
  exact ⟨name, name', v, v', hversion, hversion', hfollows.parses, hfollows'.parses,
    hfollows'.greater hname hfollows.parses⟩

end Jobs

/-! ## Repositories that are lists of tags -/

/-- The tags of a repository. -/
structure Tags where
  list : List (List Char × Nat)
  nodup : (list.map Prod.fst).Nodup
  named : ∀ tag ∈ list, tag.1 ≠ []
  deriving DecidableEq, Repr

namespace Tags

def names (tags : Tags) : List (List Char) := tags.list.map Prod.fst

/-- What a tag needs to be added: a name, which is not taken. -/
def Takes (tags : Tags) (name : List Char) : Prop := name ≠ [] ∧ name ∉ tags.names

instance (tags : Tags) (name : List Char) : Decidable (tags.Takes name) := inferInstanceAs (Decidable (_ ∧ _))

theorem nodup_append {tags : Tags} {name : List Char} (h : tags.Takes name) (commit : Nat) :
    ((tags.list ++ [(name, commit)]).map Prod.fst).Nodup := by
  rw [List.map_append, List.nodup_append]
  refine ⟨tags.nodup, List.nodup_singleton _, ?_⟩
  rintro taken htaken added hadded rfl
  rw [List.map_singleton, List.mem_singleton] at hadded
  subst hadded
  exact h.2 htaken

theorem named_append {tags : Tags} {name : List Char} (h : tags.Takes name) (commit : Nat) :
    ∀ tag ∈ tags.list ++ [(name, commit)], tag.1 ≠ [] := by
  intro tag htag
  rcases List.mem_append.1 htag with htag | htag
  · exact tags.named tag htag
  · rw [List.mem_singleton.1 htag]
    exact h.1

/-- A new tag; `none` for a name that is taken. -/
def add (tags : Tags) (name : List Char) (commit : Nat) : Option Tags :=
  if h : tags.Takes name then
    some ⟨tags.list ++ [(name, commit)], nodup_append h commit, named_append h commit⟩
  else none

theorem add_list {tags tags' : Tags} {name : List Char} {commit : Nat} (h : tags.add name commit = some tags') :
    tags'.list = tags.list ++ [(name, commit)] := by
  unfold add at h
  split at h <;> cases h
  rfl

/-- Whether each of the tags is there afterwards, on its commit. -/
def addAll (tags : Tags) : List (List Char × Nat) → Bool × Tags
  | [] => (true, tags)
  | (name, commit) :: l =>
    match tags.add name commit with
    | some tags => tags.addAll l
    | none => (decide ((name, commit) ∈ tags.list) && (tags.addAll l).1, (tags.addAll l).2)

theorem addAll_keeps (tags : Tags) (l : List (List Char × Nat)) : tags.list ⊆ (tags.addAll l).2.list := by
  induction l generalizing tags with
  | nil => exact List.Subset.refl _
  | cons tag l ih =>
    simp only [addAll]
    split
    · rename_i tags' hadd
      refine List.Subset.trans ?_ (ih tags')
      rw [add_list hadd]
      exact List.subset_append_left _ _
    · exact ih tags

theorem addAll_sends {tags : Tags} {l : List (List Char × Nat)} (h : (tags.addAll l).1 = true) :
    l ⊆ (tags.addAll l).2.list := by
  induction l generalizing tags with
  | nil => exact List.nil_subset _
  | cons tag l ih =>
    obtain ⟨name, commit⟩ := tag
    rw [List.cons_subset]
    rcases hadd : tags.add name commit with _ | added
    · simp only [addAll, hadd] at h ⊢
      rw [Bool.and_eq_true, decide_eq_true_iff] at h
      exact ⟨addAll_keeps tags l h.1, ih h.2⟩
    · simp only [addAll, hadd] at h ⊢
      have hkept := addAll_keeps added l
      rw [add_list hadd] at hkept
      exact ⟨hkept (by simp), ih h⟩

/-- The tag on a commit. -/
def on (tags : Tags) (commit : Nat) : Option (List Char) := (tags.list.find? fun tag => tag.2 = commit).map Prod.fst

/-- `git describe` of the commit with this hash, where the parent of each commit is the one before it. -/
def describe (tags : Tags) (hash : List Char) : Nat → Nat → List Char
  | since, commit =>
    match tags.on commit, commit with
    | some name, _ => if since = 0 then name else name ++ '-' :: (Nat.toDigits 10 since ++ '-' :: 'g' :: hash)
    | none, 0 => hash
    | none, commit + 1 => tags.describe hash (since + 1) commit

end Tags

/-- Git over lists of tags, where all commits have one hash. -/
def tagLists (hash : List Char) : Git Tags where
  tags := Tags.list
  checkout tags := tags
  listing := Tags.names
  tag tags version commit :=
    match version with
    | none => some tags
    | some name => tags.add name commit
  push remote tags := remote.addAll tags.list
  describe tags commit := tags.describe hash 0 commit ++ ['\n']
  tags_nodup := Tags.nodup
  tags_named := Tags.named
  mem_checkout _ _ := Iff.rfl
  listing_perm _ := .refl _
  tag_some tags name commit tags' _ h x := by
    rw [Tags.add_list h, List.mem_append, List.mem_singleton]
  push_keeps remote tags := Tags.addAll_keeps remote tags.list
  push_sends _ _ h := Tags.addAll_sends h
  describe_tag tags name commit hmem honly := by
    have hsome : (tags.list.find? fun tag => tag.2 = commit).isSome = true :=
      List.find?_isSome.2 ⟨_, hmem, decide_eq_true rfl⟩
    obtain ⟨⟨other, c⟩, hfind⟩ := Option.isSome_iff_exists.1 hsome
    obtain rfl : c = commit := by simpa using List.find?_some hfind
    obtain rfl : other = name := honly other (List.mem_of_find?_eq_some hfind)
    have hon : tags.on c = some other := by rw [Tags.on, hfind]; rfl
    unfold Tags.describe
    simp only [hon, if_true]

/-- The environment of the workflow; of the file that the script writes, the lines for `VERSION` are read. -/
def workflowRunner : Runner where
  world := workflow
  exported file := (file.filterMap fun line => line.dropPrefix? "VERSION=".toList).getLast?
  noVersion := rfl
  githubEnv := rfl
  newFile := rfl
  exported_line text _ := by
    have hline : ("VERSION=".toList ++ text).dropPrefix? "VERSION=".toList = some text :=
      List.dropPrefix?_append_of_beq text (beq_self_eq_true _)
    simp only [List.filterMap_cons, hline, List.filterMap_nil, List.getLast?_singleton]

/-- The tag `v1.2.3`. -/
def oneTag : Tags := ⟨[("v1.2.3".toList, 0)], by decide, by decide⟩

/-- A repository of a maintainer, with a tag of its own. -/
def ownTag : Tags := ⟨[("v1.2.3".toList, 0), ("v1.2".toList, 1)], by decide, by decide⟩

/-- A job. -/
def firstJob : List (Act Tags) := [.push 1, .checkout 0, .bump 0, .tag 0, .pushTags 0]

/-- A job after it, and the tag of a maintainer. -/
def secondJob : List (Act Tags) := [.push 2, .publish ownTag, .checkout 1, .bump 1, .tag 1, .pushTags 1]

theorem releases_increase_two : ∃ name name' v v', some "v1.2.4".toList = some name ∧
    some "v1.2.5".toList = some name' ∧ parseVersion plainPython name = .ok v ∧
    parseVersion plainPython name' = .ok v' ∧ order v < order v' :=
  @releases_increase _ (tagLists []) plainPython workflowRunner oneTag _ _ firstJob secondJob 1 1 2 _ _ _ _ rfl rfl
    List.mem_cons_self (fun _ hjob => by cases hjob) rfl

-- of two jobs with one checkout the push of the slower one fails
example : ∃ s ∈ exec (step (tagLists []) plainPython workflowRunner) (.start oneTag) [.push 1, .push 2, .checkout 0,
    .checkout 1, .bump 1, .bump 0, .tag 0, .tag 1, .pushTags 1, .pushTags 0],
    ∃ job ∈ s.jobs, job.stage = .pushFailed oneTag (some "v1.2.4".toList) := by decide +kernel

end InfoWorkshop.Scripts.Workflow
