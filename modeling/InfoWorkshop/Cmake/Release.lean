/-
From the release to the device: the firmware that `cmake/common.cmake` builds from a version that the workflow
released answers `SYS_FW_VER` with this version.
-/
import InfoWorkshop.Cmake.FirmwareVersion
import InfoWorkshop.Console.Respond
import InfoWorkshop.Scripts.Workflow

namespace InfoWorkshop.Cmake

open InfoWorkshop.Decimal InfoWorkshop.Scripts InfoWorkshop.Steps
open InfoWorkshop.Core InfoWorkshop.Memory InfoWorkshop.CString InfoWorkshop.Console

/-! ## The version of the tag -/

theorem str_digits {n : Int} (h : '-' ∉ str n) : Digits (str n) := by
  cases n with
  | ofNat n => exact toDigits_digits n
  | negSucc n => exact absurd List.mem_cons_self h

theorem mem_versionText {v : Int × Int × Int} {c : Char} :
    c ∈ versionText v ↔ c ∈ str v.1 ∨ c = '.' ∨ c ∈ str v.2.1 ∨ c = '.' ∨ c ∈ str v.2.2 := by
  simp only [versionText, List.mem_append, List.mem_cons]

/-- Without a sign the components are digits. -/
theorem versionText_digits {v : Int × Int × Int} (hsign : '-' ∉ versionText v) :
    Digits (str v.1) ∧ Digits (str v.2.1) ∧ Digits (str v.2.2) := by
  rw [mem_versionText] at hsign
  push Not at hsign
  exact ⟨str_digits hsign.1, str_digits hsign.2.2.1, str_digits hsign.2.2.2.2⟩

/-- The build takes such a version as it is in the tag. -/
theorem cfgFwVersion_tagText {v : Int × Int × Int} (hsign : '-' ∉ versionText v) {suffix : List Char}
    (hs : DescribeSuffix suffix) : cfgFwVersion (tagText v ++ (suffix ++ ['\n'])) = versionText v := by
  obtain ⟨hmajor, hminor, hpatch⟩ := versionText_digits hsign
  have hdot : ∀ n, '.' ∉ str n := fun n hmem => (str_kind n '.' hmem).1 rfl
  have hlead : leading (str v.2.2 ++ (suffix ++ ['\n'])) = str v.2.2 :=
    (takeWhile_append fun _ h => suffix_head hs h).trans (takeWhile_digits hpatch)
  have hversion := cfgFwVersion_components ⟨str_ne_nil _, hmajor⟩ ⟨str_ne_nil _, hminor⟩ (hdot v.1) (hdot v.2.1)
    (r := str v.2.2 ++ (suffix ++ ['\n'])) (by rw [hlead]; exact str_ne_nil _)
  unfold tagText versionText
  rw [List.cons_append, List.append_assoc, List.cons_append, List.append_assoc, List.cons_append, hversion, hlead]

theorem digit_byte {c : Char} (h : c.isDigit = true) : UInt8.ofNat c.toNat ≠ 0 := by
  obtain ⟨d, hd, rfl⟩ := digit_cases h
  have hbytes : ∀ d < 10, UInt8.ofNat (Nat.digitChar d).toNat ≠ 0 := by decide
  exact hbytes d hd

/-- It is a string of C. -/
theorem versionText_bytes {v : Int × Int × Int} (hsign : '-' ∉ versionText v) :
    0 ∉ bytes (String.ofList (versionText v)) := by
  obtain ⟨hmajor, hminor, hpatch⟩ := versionText_digits hsign
  unfold bytes
  rw [String.toList_ofList]
  intro hmem
  obtain ⟨c, hc, hzero⟩ := List.mem_map.1 hmem
  rcases mem_versionText.1 hc with hc | rfl | hc | rfl | hc
  · exact digit_byte (hmajor c hc) hzero
  · exact absurd hzero (by decide)
  · exact digit_byte (hminor c hc) hzero
  · exact absurd hzero (by decide)
  · exact digit_byte (hpatch c hc) hzero

/-! ## The answer of the device -/

/-- `git describe` names the commit by the tag: alone, or with the commits since and the hash. -/
def NamedBy {R : Type*} (git : Workflow.Git R) (r : R) (commit : Nat) (name : List Char) : Prop :=
  ∃ suffix, DescribeSuffix suffix ∧ git.describe r commit = name ++ (suffix ++ ['\n'])

/-- A released version without a sign, which fits the response buffer, is what the firmware answers, without its
`v`, when it is built on a commit that `git describe` names by the tag, and from whatever the buffers of the console
held before. The commit of the release is named by its tag when it has no other. -/
theorem release_reported {R : Type*} {git : Workflow.Git R} {py : Python} {runner : Workflow.Runner}
    {remote checkout : R} {s : Workflow.Repository R} {as : List (Workflow.Act R)} {commit : Nat} {name : List Char}
    {console : State} {line word : Bytes} (hrun : exec (Workflow.step git py runner) (.start remote) as = some s)
    (hreleased : ⟨commit, .released checkout (some name)⟩ ∈ s.jobs) (hsign : '-' ∉ name)
    (hlen : name.length ≤ CMD_RESPONSE_MAX_LENGTH) (hsized : Sized console) (hline : 0 ∉ line)
    (hword : outcome line = .fwVer word) (junk : Bytes) :
    (∀ r built, NamedBy git r built name → ∃ text console', name = 'v' :: text ∧
      consoleRunCommand (gCommands (VERSION (git.describe r built))) console (line ++ 0 :: junk) =
        some (.success, console') ∧
      Prints console console' (word ++ (bytes ":" ++ bytes (String.ofList text)) ++ CMD_RESPONSE_LINE_TERMINATOR)) ∧
    ∀ r, git.tags s.remote ⊆ git.tags r → (∀ other, (other, commit) ∈ git.tags r → other = name) →
      NamedBy git r commit name := by
  -- the released version is the text of numbers, and a tag on the commit of the job
  obtain ⟨-, name', v, hname, hfollows, hmem⟩ := Workflow.exec_sound hrun _ hreleased
  cases hname
  constructor
  · rintro r built ⟨suffix, hsuffix, hdescribe⟩
    have htext : name = 'v' :: versionText v := hfollows.text
    rw [htext] at hsign hlen
    have hsign' : '-' ∉ versionText v := fun hmem => hsign (List.mem_cons_of_mem _ hmem)
    have hversion : VERSION (git.describe r built) = bytes (String.ofList (versionText v)) := by
      unfold VERSION
      rw [hdescribe, hfollows.text, cfgFwVersion_tagText hsign' hsuffix]
    have hfits : (bytes (String.ofList (versionText v))).length < CMD_RESPONSE_MAX_LENGTH := by
      unfold bytes
      rw [String.toList_ofList, List.length_map]
      exact hlen
    obtain ⟨console', hcommand, hprints⟩ :=
      consoleRunCommand_prints hsized hfits (versionText_bytes hsign') hline junk
    rw [hword] at hcommand hprints
    rw [hversion]
    exact ⟨versionText v, console', htext, hcommand, hprints⟩
  · exact fun r hkept honly => ⟨[], .inl rfl, git.describe_tag r name commit (hkept hmem) honly⟩

/-- The hash of the commits. -/
def someHash : List Char := List.replicate 40 'a'

/-- Two commits after the release of `v1.2.4`. -/
theorem release_reported_two : ∃ s ∈ exec (Workflow.step (Workflow.tagLists someHash) plainPython
      Workflow.workflowRunner) (.start Workflow.oneTag) Workflow.firstJob,
    ∃ text console', "v1.2.4".toList = 'v' :: text ∧
    consoleRunCommand (gCommands (VERSION ((Workflow.tagLists someHash).describe s.remote 3))) .init
        (bytes "sys_fw_ver\r" ++ 0 :: []) = some (.success, console') ∧
      Prints .init console' (bytes "sys_fw_ver" ++ (bytes ":" ++ bytes (String.ofList text)) ++
        CMD_RESPONSE_LINE_TERMINATOR) := by
  refine ⟨_, rfl, (@release_reported _ (Workflow.tagLists someHash) plainPython Workflow.workflowRunner
    Workflow.oneTag _ _ Workflow.firstJob 1 _ _ _ _ rfl List.mem_cons_self (by decide) (by decide) sized_init
    (by decide) (by decide +kernel) []).1 _ 3 ⟨'-' :: '2' :: '-' :: 'g' :: someHash, ?_, by decide +kernel⟩⟩
  exact .inr ⟨['2'], someHash, by decide, by decide, by simp [someHash], rfl⟩

end InfoWorkshop.Cmake
