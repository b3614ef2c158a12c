/-
`Console_RunCommand` cut in two: `dispatch` refuses a line or chooses the handler it calls, and `answer`
is the call of `Console_SerializeResponse` that follows. The handler of an entry is called for the lines
with its name and its number of arguments, and for those with more than `CMD_ARGS_MAX_LENGTH` arguments
where the entry takes that many.
-/
import InfoWorkshop.Console.Respond
import Mathlib.Data.List.Pairwise

namespace InfoWorkshop.Console

open InfoWorkshop.Core InfoWorkshop.Memory InfoWorkshop.CString

/-- What a command line comes to: a refusal with its text, or a call of the handler of `cmd`, `name` being
the name as it stands in the line. -/
inductive Dispatch
  | refuse (text : Bytes)
  | call (cmd : ConsoleCmd) (name : Bytes) (args : List Bytes)

/-- `Console_RunCommand` up to the refusal or the call of a handler. -/
def dispatch (cmds : List ConsoleCmd) (cmdLine : Bytes) : Dispatch :=
  match consoleParseCommand cmdLine with
  | (none, _) => .refuse (bytes "PARSE_ERROR")
  | (some (cmdName, cmdArgs), buf) =>
    match cmds.find? fun cmd => strcasecmp cmd.name (cstr buf cmdName) = 0 with
    | none => .refuse (bytes "CMD_NOT_FOUND")
    | some cmd =>
      if cmd.expectedArgs ≠ cmdArgs.length then .refuse (bytes "CMD_INVALID_ARGS")
      else .call cmd (cstr buf cmdName) (cmdArgs.map (cstr buf))

/-- A call of `Console_SerializeResponse`, and the state it is made in. -/
structure Answer where
  state : State
  cmd : Bytes
  args : List Bytes
  response : Bytes

/-- The state after the call. -/
def Answer.serialize (a : Answer) : State := consoleSerializeResponse a.state a.cmd a.args a.response

/-- What `Console_RunCommand` returns and the call that ends it; `none` when a handler writes past the
response. -/
def Dispatch.answer (s : State) : Dispatch → Option (ErrorCode × Answer)
  | .refuse text => some (.failure, ⟨s, text, [], CMD_RESPONSE_FAILURE⟩)
  | .call cmd name args =>
    match cmd.handler s args.length args with
    | none => none
    | some (_, s) => some (.success, ⟨s, name, args, cstr s.responseBuffer 0⟩)

/-- The two parts are `Console_RunCommand`. -/
theorem consoleRunCommand_eq (cmds : List ConsoleCmd) (s : State) (cmdLine : Bytes) :
    consoleRunCommand cmds s cmdLine =
      ((dispatch cmds cmdLine).answer s).map fun (code, a) => (code, a.serialize) := by
  unfold consoleRunCommand dispatch
  rcases consoleParseCommand cmdLine with ⟨_ | ⟨cmdName, cmdArgs⟩, buf⟩
  · rfl
  · rcases hf : cmds.find? (fun cmd => strcasecmp cmd.name (cstr buf cmdName) = 0) with _ | cmd
    · simp only [hf]
      rfl
    · simp only [hf]
      by_cases ha : cmd.expectedArgs ≠ cmdArgs.length
      · rw [if_pos ha, if_pos ha]
        rfl
      · rw [if_neg ha, if_neg ha]
        simp only [Dispatch.answer, List.length_map]
        rcases cmd.handler s cmdArgs.length (cmdArgs.map (cstr buf)) with _ | ⟨e, s'⟩ <;> rfl

/-- A handler that is called is in the table. -/
theorem mem_of_call {cmds : List ConsoleCmd} {cmdLine name : Bytes} {args : List Bytes} {cmd : ConsoleCmd}
    (h : dispatch cmds cmdLine = .call cmd name args) : cmd ∈ cmds := by
  unfold dispatch at h
  split at h
  · cases h
  · split at h
    · cases h
    · rename_i hf
      split at h
      · cases h
      · cases h
        exact List.mem_of_find?_eq_some hf

/-- A table whose handlers stay inside the response buffer answers every line. -/
theorem consoleRunCommand_ne_none {cmds : List ConsoleCmd} {s : State}
    (h : ∀ cmd ∈ cmds, ∀ n args, cmd.handler s n args ≠ none) (cmdLine : Bytes) :
    consoleRunCommand cmds s cmdLine ≠ none := by
  rw [consoleRunCommand_eq]
  rcases hd : dispatch cmds cmdLine with text | ⟨cmd, name, args⟩
  · exact Option.some_ne_none _
  · obtain ⟨⟨e, s'⟩, hrun⟩ := Option.ne_none_iff_exists'.1 (h cmd (mem_of_call hd) args.length args)
    simp only [Dispatch.answer, hrun]
    exact Option.some_ne_none _

/-- The entry of a name: the first one with that name. -/
def entry (cmds : List ConsoleCmd) (name : Bytes) : Option ConsoleCmd :=
  cmds.find? fun cmd => strcasecmp cmd.name name = 0

/-- A line is dispatched by the command in it, of whose arguments at most `CMD_ARGS_MAX_LENGTH` are
found. -/
theorem dispatch_eq (cmds : List ConsoleCmd) {line : Bytes} (h0 : 0 ∉ line) (junk : Bytes) :
    dispatch cmds (line ++ 0 :: junk) =
      match command line with
      | none => .refuse (bytes "PARSE_ERROR")
      | some (name, args) =>
        match entry cmds name with
        | none => .refuse (bytes "CMD_NOT_FOUND")
        | some cmd =>
          if cmd.expectedArgs ≠ (args.take CMD_ARGS_MAX_LENGTH).length then .refuse (bytes "CMD_INVALID_ARGS")
          else .call cmd name (args.take CMD_ARGS_MAX_LENGTH) := by
  have hstr : StrAt (line ++ 0 :: junk) 0 line := ⟨h0, [], junk, rfl, rfl⟩
  unfold dispatch entry
  rcases hc : command line with _ | ⟨name, args⟩
  · have hnone := consoleParseCommand_none hstr hc
    rcases hp : consoleParseCommand (line ++ 0 :: junk) with ⟨found, buf⟩
    rw [hp] at hnone
    obtain rfl : found = none := hnone
    rfl
  · obtain ⟨p, offs, buf, hp, hname, hargs⟩ := consoleParseCommand_some hstr hc
    have hlen : offs.length = (args.take CMD_ARGS_MAX_LENGTH).length := by rw [← hargs, List.length_map]
    simp only [hp, hname.cstr_eq, hargs, hlen]

/-- The line names an entry and has as many arguments as are expected there, as far as they are found. -/
structure Reaches (cmds : List ConsoleCmd) (line name : Bytes) (args : List Bytes) (cmd : ConsoleCmd) : Prop where
  command : command line = some (name, args)
  entry : entry cmds name = some cmd
  arity : cmd.expectedArgs = (args.take CMD_ARGS_MAX_LENGTH).length

/-- The texts of the refusals. -/
def refusals : List Bytes := [bytes "PARSE_ERROR", bytes "CMD_NOT_FOUND", bytes "CMD_INVALID_ARGS"]

/-- A line is refused, or reaches the handler that is called. -/
theorem dispatch_cases (cmds : List ConsoleCmd) {line : Bytes} (h0 : 0 ∉ line) (junk : Bytes) :
    ((∃ text ∈ refusals, dispatch cmds (line ++ 0 :: junk) = .refuse text) ∧
        ∀ name args cmd, ¬ Reaches cmds line name args cmd) ∨
      ∃ name args cmd, Reaches cmds line name args cmd ∧
        dispatch cmds (line ++ 0 :: junk) = .call cmd name (args.take CMD_ARGS_MAX_LENGTH) := by
  rw [dispatch_eq cmds h0 junk]
  rcases hc : command line with _ | ⟨name, args⟩
  · refine .inl ⟨⟨_, by simp [refusals], rfl⟩, fun name args cmd h => ?_⟩
    rw [h.command] at hc; cases hc
  · rcases he : entry cmds name with _ | cmd
    · refine .inl ⟨⟨bytes "CMD_NOT_FOUND", by simp [refusals], by simp only [he]⟩, fun name' args' cmd h => ?_⟩
      obtain ⟨rfl, rfl⟩ : name' = name ∧ args' = args := by simpa [h.command] using hc
      rw [h.entry] at he; cases he
    · simp only [he]
      by_cases ha : cmd.expectedArgs = (args.take CMD_ARGS_MAX_LENGTH).length
      · exact .inr ⟨name, args, cmd, ⟨hc, he, ha⟩, if_neg (not_not.2 ha)⟩
      · refine .inl ⟨⟨bytes "CMD_INVALID_ARGS", by simp [refusals], if_pos ha⟩, fun name' args' cmd' h => ?_⟩
        obtain ⟨rfl, rfl⟩ : name' = name ∧ args' = args := by simpa [h.command] using hc
        obtain rfl : cmd' = cmd := by simpa [h.entry] using he
        exact ha h.arity

/-! ## The arity of a command -/

/-- A command table: its names are strings and distinct ignoring case, and no entry expects more arguments
than are found. -/
structure CommandTable where
  cmds : List ConsoleCmd
  string : ∀ cmd ∈ cmds, 0 ∉ cmd.name
  distinct : cmds.Pairwise fun a b => ¬ SameName a.name b.name
  arity : ∀ cmd ∈ cmds, 0 ≤ cmd.expectedArgs ∧ cmd.expectedArgs ≤ CMD_ARGS_MAX_LENGTH

theorem command_notMem {line name : Bytes} {args : List Bytes} (h0 : 0 ∉ line)
    (hc : command line = some (name, args)) : 0 ∉ name := by
  have hstr : StrAt (line ++ [0]) 0 line := ⟨h0, [], [], rfl, rfl⟩
  obtain ⟨p, offs, buf, -, hname, -⟩ := consoleParseCommand_some hstr hc
  exact hname.1

/-- The entry of a name is the one with that name. -/
theorem CommandTable.entry_eq (table : CommandTable) {name : Bytes} (h0 : 0 ∉ name) (cmd : ConsoleCmd) :
    entry table.cmds name = some cmd ↔ cmd ∈ table.cmds ∧ SameName cmd.name name := by
  have hsame : ∀ c ∈ table.cmds, (strcasecmp c.name name = 0 ↔ SameName c.name name) := fun c hc =>
    strcasecmp_eq_zero (table.string c hc) h0
  constructor
  · intro h
    have hmem := List.mem_of_find?_eq_some h
    exact ⟨hmem, (hsame cmd hmem).1 (by simpa using List.find?_some h)⟩
  · rintro ⟨hmem, hname⟩
    rcases hf : entry table.cmds name with _ | cmd'
    · have hno := List.find?_eq_none.1 hf cmd hmem
      exact absurd ((hsame cmd hmem).2 hname) (by simpa using hno)
    · have hmem' := List.mem_of_find?_eq_some hf
      have hname' : SameName cmd'.name name := (hsame cmd' hmem').1 (by simpa using List.find?_some hf)
      have : Std.Symm fun a b : ConsoleCmd => ¬ SameName a.name b.name := ⟨fun a b h h' => h h'.symm⟩
      by_contra hne
      have hdiff := table.distinct.forall hmem' hmem fun he => hne (congrArg some he)
      exact hdiff (hname'.trans hname.symm)

/-- What it means for the line, and what follows its NUL, that the arity of the commands is enforced. -/
structure ArityEnforced (cmds : List ConsoleCmd) (line junk : Bytes) : Prop where
  /-- The handler of an entry is called exactly for the lines with its name and number of arguments. -/
  calls : ∀ cmd ∈ cmds, (∃ name args, dispatch cmds (line ++ 0 :: junk) = .call cmd name args) ↔
    ∃ name args, command line = some (name, args) ∧ SameName cmd.name name ∧ cmd.expectedArgs = args.length
  /-- Any other number of arguments is refused. -/
  refuses : ∀ cmd ∈ cmds, ∀ name args, command line = some (name, args) → SameName cmd.name name →
    cmd.expectedArgs ≠ args.length → dispatch cmds (line ++ 0 :: junk) = .refuse (bytes "CMD_INVALID_ARGS")
  /-- A handler gets the name and all the arguments of the line. -/
  keeps : ∀ cmd name args, dispatch cmds (line ++ 0 :: junk) = .call cmd name args →
    command line = some (name, args)

/-- A line whose command is no entry, or has not the entry's number of arguments, calls no handler. -/
theorem CommandTable.dispatch_entry (table : CommandTable) {line name : Bytes} {args : List Bytes}
    (h0 : 0 ∉ line) (junk : Bytes) (hc : command line = some (name, args)) {cmd : ConsoleCmd}
    (hmem : cmd ∈ table.cmds) (hname : SameName cmd.name name) :
    dispatch table.cmds (line ++ 0 :: junk) =
      if cmd.expectedArgs ≠ (args.take CMD_ARGS_MAX_LENGTH).length then .refuse (bytes "CMD_INVALID_ARGS")
      else .call cmd name (args.take CMD_ARGS_MAX_LENGTH) := by
  have he := (table.entry_eq (command_notMem h0 hc) cmd).2 ⟨hmem, hname⟩
  simp only [dispatch_eq table.cmds h0 junk, hc, he]

/-- A call of a handler, read back. -/
theorem CommandTable.call_iff (table : CommandTable) {line : Bytes} (h0 : 0 ∉ line) (junk : Bytes)
    (cmd : ConsoleCmd) (name : Bytes) (args : List Bytes) :
    dispatch table.cmds (line ++ 0 :: junk) = .call cmd name args ↔
      ∃ words, command line = some (name, words) ∧ args = words.take CMD_ARGS_MAX_LENGTH ∧
        cmd ∈ table.cmds ∧ SameName cmd.name name ∧ cmd.expectedArgs = args.length := by
  constructor
  · intro h
    rw [dispatch_eq table.cmds h0 junk] at h
    rcases hc : command line with _ | ⟨name', words⟩
    · simp [hc] at h
    · simp only [hc] at h
      rcases he : entry table.cmds name' with _ | cmd'
      · simp [he] at h
      · simp only [he] at h
        split at h
        · cases h
        · rename_i ha
          simp only [Dispatch.call.injEq] at h
          obtain ⟨rfl, rfl, rfl⟩ := h
          obtain ⟨hmem, hname⟩ := (table.entry_eq (command_notMem h0 hc) _).1 he
          exact ⟨words, rfl, rfl, hmem, hname, by simpa using ha⟩
  · rintro ⟨words, hc, rfl, hmem, hname, ha⟩
    rw [table.dispatch_entry h0 junk hc hmem hname, if_neg (by simpa using ha)]

/-- The arity of the commands is enforced on a line exactly when it has not more arguments than are found
for an entry that takes that many. -/
theorem arityEnforced_iff (table : CommandTable) (line junk : Bytes) (h0 : 0 ∉ line) :
    ArityEnforced table.cmds line junk ↔
      ∀ cmd ∈ table.cmds, ∀ name args, command line = some (name, args) → SameName cmd.name name →
        cmd.expectedArgs = CMD_ARGS_MAX_LENGTH → args.length ≤ CMD_ARGS_MAX_LENGTH := by
  constructor
  · intro h cmd hmem name args hc hname hten
    by_contra hmore
    have htake : (args.take CMD_ARGS_MAX_LENGTH).length = CMD_ARGS_MAX_LENGTH := by
      rw [List.length_take]; omega
    have hcall := (table.call_iff h0 junk cmd name (args.take CMD_ARGS_MAX_LENGTH)).2
      ⟨args, hc, rfl, hmem, hname, by rw [htake, hten]⟩
    have hkeeps := h.keeps _ _ _ hcall
    rw [hc] at hkeeps
    have hargs : args = args.take CMD_ARGS_MAX_LENGTH := by simpa using hkeeps
    rw [← hargs] at htake
    omega
  · intro hfit
    -- with as many arguments found as expected, none were left out
    have hall : ∀ {cmd : ConsoleCmd} {name : Bytes} {words : List Bytes}, cmd ∈ table.cmds →
        command line = some (name, words) → SameName cmd.name name →
        cmd.expectedArgs = (words.take CMD_ARGS_MAX_LENGTH).length → words.take CMD_ARGS_MAX_LENGTH = words := by
      intro cmd name words hmem hc hname ha
      apply List.take_of_length_le
      by_contra hmore
      refine hmore (hfit cmd hmem name words hc hname ?_)
      rw [ha, List.length_take, Nat.min_eq_left (by omega)]
    refine ⟨fun cmd hmem => ⟨?_, ?_⟩, fun cmd hmem name args hc hname ha => ?_, fun cmd name args h => ?_⟩
    · rintro ⟨name, args, h⟩
      obtain ⟨words, hc, rfl, -, hname, ha⟩ := (table.call_iff h0 junk cmd name args).1 h
      rw [hall hmem hc hname ha] at ha
      exact ⟨name, words, hc, hname, ha⟩
    · rintro ⟨name, args, hc, hname, ha⟩
      have hle := (table.arity cmd hmem).2
      have htake : args.take CMD_ARGS_MAX_LENGTH = args := List.take_of_length_le (by omega)
      refine ⟨name, args, (table.call_iff h0 junk cmd name args).2 ⟨args, hc, htake.symm, hmem, hname, ha⟩⟩
    · rw [table.dispatch_entry h0 junk hc hmem hname, if_pos]
      intro htake
      rw [hall hmem hc hname htake] at htake
      exact ha htake
    · obtain ⟨words, hc, rfl, hmem, hname, ha⟩ := (table.call_iff h0 junk cmd name args).1 h
      rw [hall hmem hc hname ha]
      exact hc

/-- A command with ten arguments. -/
def setCmd : ConsoleCmd :=
  ⟨bytes "SET", 10, fun s _ _ => (respond s CMD_RESPONSE_SUCCESS).map (ErrorCode.success, ·), bytes "set"⟩

theorem setCmd_string : ∀ cmd ∈ [setCmd], 0 ∉ cmd.name := by decide

theorem setCmd_arity : ∀ cmd ∈ [setCmd], 0 ≤ cmd.expectedArgs ∧ cmd.expectedArgs ≤ CMD_ARGS_MAX_LENGTH := by
  decide

def setTen : CommandTable := ⟨[setCmd], setCmd_string, List.pairwise_singleton _ _, setCmd_arity⟩

theorem arityEnforced_iff_ten :
    ArityEnforced setTen.cmds (bytes "set=a;b;c;d;e;f;g;h;i;j\n") [7] := by
  refine (arityEnforced_iff setTen _ [7] (by decide)).2 fun cmd _ name args hc _ _ => ?_
  have hargs : (command (bytes "set=a;b;c;d;e;f;g;h;i;j\n")).map (fun c => c.2.length) = some 10 := by decide
  rw [hc, Option.map_some, Option.some.injEq] at hargs
  exact Nat.le_of_eq hargs

/-- The eleventh argument of a line is dropped, and the handler called with ten. -/
theorem eleventh_argument_dropped : ¬ ArityEnforced setTen.cmds (bytes "SET=a;b;c;d;e;f;g;h;i;j;k") [] := by
  intro h
  have hten : ∀ cmd ∈ setTen.cmds, cmd.expectedArgs = 10 ∧ SameName cmd.name (bytes "SET") := by
    intro cmd hcmd
    rw [List.mem_singleton.1 hcmd]
    exact ⟨rfl, rfl⟩
  obtain ⟨cmd, hmem⟩ : ∃ cmd, cmd ∈ setTen.cmds := ⟨_, List.mem_singleton_self _⟩
  have hcall := (setTen.call_iff (show 0 ∉ bytes "SET=a;b;c;d;e;f;g;h;i;j;k" by decide) [] cmd (bytes "SET") _).2
    ⟨["a", "b", "c", "d", "e", "f", "g", "h", "i", "j", "k"].map bytes, by decide, rfl, hmem, (hten cmd hmem).2,
      (hten cmd hmem).1⟩
  exact absurd (h.keeps _ _ _ hcall) (by decide)

end InfoWorkshop.Console
