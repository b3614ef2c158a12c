/-
What `Console_ParseCommand` finds in a command line: `command` reads the line as the grammar does, and
the buffer then holds the name and the first arguments as strings.
-/
import InfoWorkshop.Console.Console
import Mathlib.Data.List.Forall2

namespace InfoWorkshop.Console

open InfoWorkshop.Core InfoWorkshop.Memory InfoWorkshop.CString

/-- The command in a line: in the first non-empty part between newlines, the first non-empty part
between `=` signs is the name, and the non-empty parts between semicolons of what follows the `=` after
the name are the arguments. -/
def command (line : Bytes) : Option (Bytes × List Bytes) :=
  match token NEWLINE line with
  | none => none
  | some (segment, _) =>
    match token (bytes "=") segment with
    | none => none
    | some (name, rest) => some (name, fields [CMD_ARGS_SEPARATOR] rest)

/-- The loop finds the first `n` fields, and leaves the strings before them as they are. -/
theorem parseArgs_spec : ∀ (n : Nat) {buf t : Bytes} {ptr : Nat}, StrAt buf ptr t →
    ∃ args buf', parseArgs n buf ptr = (args, buf') ∧
      List.Forall₂ (StrAt buf') args ((fields [CMD_ARGS_SEPARATOR] t).take n) ∧
      ∀ i x, StrAt buf i x → i + x.length < ptr ∨ t = [] → StrAt buf' i x
  | 0, buf, t, ptr, _ => ⟨[], buf, rfl, by simp, fun _ _ hx _ => hx⟩
  | n + 1, buf, t, ptr, h => by
    have harg : Option.getD none ptr = ptr := rfl
    rw [fields_eq]
    rcases ht : token [CMD_ARGS_SEPARATOR] t with _ | ⟨u, v⟩
    · have hnone := strtokR_none h harg (by decide) ht
      exact ⟨[], buf, by simp only [parseArgs, hnone], by simp, fun _ _ hx _ => hx⟩
    · obtain ⟨p, buf₁, q, htok, hT⟩ := strtokR_some h harg (by decide) ht
      obtain ⟨args, buf', hrec, hargs, hframe⟩ := parseArgs_spec n hT.rest
      refine ⟨p :: args, buf', by simp only [parseArgs, htok, hrec], ?_, fun i x hx hi => ?_⟩
      · exact .cons (hframe p u hT.token hT.next) hargs
      · have hlt : i + x.length < ptr := by
          rcases hi with hi | rfl
          · exact hi
          · cases ht
        refine hframe i x (hT.frame i x hx hlt) ?_
        rcases hT.next with hq | hv
        · have hp := hT.start
          exact .inl (by omega)
        · exact .inr hv

/-- The arguments that the loop finds, read back from the buffer. -/
theorem map_cstr_of_forall₂ {buf : Bytes} {offs : List Nat} {args : List Bytes}
    (h : List.Forall₂ (StrAt buf) offs args) : offs.map (cstr buf) = args := by
  induction h with
  | nil => rfl
  | cons hx _ ih => rw [List.map_cons, hx.cstr_eq, ih]

/-- A line without a name: one without a part between newlines, or whose first has none between `=`. -/
theorem consoleParseCommand_none {buf line : Bytes} (h : StrAt buf 0 line) (hc : command line = none) :
    (consoleParseCommand buf).1 = none := by
  have harg : Option.getD (some 0) 0 = 0 := rfl
  unfold command at hc
  unfold consoleParseCommand
  rcases hs : token NEWLINE line with _ | ⟨segment, v⟩
  · -- the second call goes on at the end of the line
    have hend : StrAt buf (0 + line.length) [] := StrAt.suffix (by rwa [List.append_nil])
    have hnone : Option.getD none (0 + line.length) = 0 + line.length := rfl
    simp only [strtokR_none h harg (by decide) hs,
      strtokR_none hend hnone (show 0 ∉ bytes "=" by decide) rfl]
  · obtain ⟨p, buf₁, q, htok, hT⟩ := strtokR_some h harg (by decide) hs
    rcases hn : token (bytes "=") segment with _ | ⟨name, rest⟩
    · have hp : Option.getD (some p) q = p := rfl
      simp only [htok, strtokR_none hT.token hp (by decide) hn]
    · simp [hs, hn] at hc

/-- A line with a name: the buffer holds the name and the arguments at the offsets found. -/
theorem consoleParseCommand_strAt {buf line name : Bytes} {args : List Bytes} (h : StrAt buf 0 line)
    (hc : command line = some (name, args)) :
    ∃ p offs buf', consoleParseCommand buf = (some (p, offs), buf') ∧ StrAt buf' p name ∧
      List.Forall₂ (StrAt buf') offs (args.take CMD_ARGS_MAX_LENGTH) := by
  have harg : Option.getD (some 0) 0 = 0 := rfl
  unfold command at hc
  unfold consoleParseCommand
  rcases hs : token NEWLINE line with _ | ⟨segment, v⟩
  · simp [hs] at hc
  · rcases hn : token (bytes "=") segment with _ | ⟨name', rest⟩
    · simp [hs, hn] at hc
    · simp only [hs, hn, Option.some.injEq, Prod.mk.injEq] at hc
      obtain ⟨rfl, rfl⟩ := hc
      obtain ⟨p, buf₁, q, htok, hT⟩ := strtokR_some h harg (by decide) hs
      have hp : Option.getD (some p) q = p := rfl
      obtain ⟨p', buf₂, q', htok', hT'⟩ := strtokR_some hT.token hp (by decide) hn
      obtain ⟨offs, buf', hargs, hall, hframe⟩ := parseArgs_spec CMD_ARGS_MAX_LENGTH hT'.rest
      refine ⟨p', offs, buf', ?_, hframe p' _ hT'.token hT'.next, hall⟩
      simp only [htok, htok', hargs]

/-- The arguments found in such a line are read back from the buffer. -/
theorem consoleParseCommand_some {buf line name : Bytes} {args : List Bytes} (h : StrAt buf 0 line)
    (hc : command line = some (name, args)) :
    ∃ p offs buf', consoleParseCommand buf = (some (p, offs), buf') ∧ StrAt buf' p name ∧
      offs.map (cstr buf') = args.take CMD_ARGS_MAX_LENGTH := by
  obtain ⟨p, offs, buf', hparse, hname, hall⟩ := consoleParseCommand_strAt h hc
  exact ⟨p, offs, buf', hparse, hname, map_cstr_of_forall₂ hall⟩

end InfoWorkshop.Console
