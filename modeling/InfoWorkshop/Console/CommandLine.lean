/-
Command lines as a format. A command is what `Console_ParseCommand` can find in a line; its text is a line in
which exactly that command is found, and the console treats every line, and every read, as it treats the text
of the command in it.
-/
import InfoWorkshop.Console.ServerAnswers
import InfoWorkshop.Lib.Fields

namespace InfoWorkshop.Console

open InfoWorkshop.Core InfoWorkshop.Memory InfoWorkshop.CString

/-! ## Commands and their texts -/

/-- A byte of a text that holds no byte of `delim`. -/
def Plain (delim : Bytes) (x : UInt8) : Prop := x ≠ 0 ∧ x ∉ NEWLINE ∧ x ∉ delim

instance (delim : Bytes) (x : UInt8) : Decidable (Plain delim x) := inferInstanceAs (Decidable (_ ∧ _))

/-- A command: a name, and at most `CMD_ARGS_MAX_LENGTH` arguments. -/
structure Command where
  name : Bytes
  args : List Bytes
  named : name ≠ []
  name_plain : ∀ x ∈ name, Plain (bytes "=") x
  args_plain : ∀ arg ∈ args, arg ≠ [] ∧ ∀ x ∈ arg, Plain [CMD_ARGS_SEPARATOR] x
  few : args.length ≤ CMD_ARGS_MAX_LENGTH
  deriving DecidableEq, Repr

/-- The arguments, each behind what separates it from the text before. -/
def argsText : List Bytes → Bytes
  | [] => []
  | arg :: args => 61 :: (arg ++ args.flatMap fun a => CMD_ARGS_SEPARATOR :: a)

/-- The text of a command. -/
def commandLine (name : Bytes) (args : List Bytes) : Bytes := name ++ argsText args

def Command.text (c : Command) : Bytes := commandLine c.name c.args

/-- What `Console_ParseCommand` finds in a buffer. -/
def parsed (cmdLine : Bytes) : Option (Bytes × List Bytes) :=
  match consoleParseCommand cmdLine with
  | (none, _) => none
  | (some (cmdName, cmdArgs), buf) => some (cstr buf cmdName, cmdArgs.map (cstr buf))

theorem argsText_length (args : List Bytes) : (argsText args).length = (args.map fun a => a.length + 1).sum := by
  cases args with
  | nil => rfl
  | cons arg args =>
    simp only [argsText, List.length_cons, List.length_append, List.length_flatMap, List.map_cons, List.sum_cons]
    exact Nat.add_right_comm _ _ _

theorem mem_argsText {args : List Bytes} {x : UInt8} (h : x ∈ argsText args) :
    x = 61 ∨ x = CMD_ARGS_SEPARATOR ∨ ∃ arg ∈ args, x ∈ arg := by
  cases args with
  | nil => cases h
  | cons arg args =>
    simp only [argsText, List.mem_cons, List.mem_append, List.mem_flatMap] at h
    rcases h with h | h | ⟨a, ha, h | h⟩
    · exact .inl h
    · exact .inr (.inr ⟨arg, List.mem_cons_self, h⟩)
    · exact .inr (.inl h)
    · exact .inr (.inr ⟨a, List.mem_cons_of_mem _ ha, h⟩)

namespace Command

variable (c : Command)

/-- The text is one line, and a string. -/
theorem text_plain : ∀ x ∈ c.text, x ≠ 0 ∧ x ∉ NEWLINE := by
  intro x hx
  rcases List.mem_append.1 hx with hname | hargs
  · exact ⟨(c.name_plain x hname).1, (c.name_plain x hname).2.1⟩
  · rcases mem_argsText hargs with rfl | rfl | ⟨arg, harg, hx⟩
    · decide
    · decide
    · have hplain := (c.args_plain arg harg).2 x hx
      exact ⟨hplain.1, hplain.2.1⟩

theorem text_string : 0 ∉ c.text := fun h => (c.text_plain 0 h).1 rfl

/-- The command is found in its text. -/
theorem command_text : command c.text = some (c.name, c.args) := by
  have hne : c.text ≠ [] := by simp [text, commandLine, c.named]
  have hline := @token_of_split NEWLINE [] c.text [] (by simp) hne (fun x hx => (c.text_plain x hx).2) (by simp)
  have hname := @token_of_split (bytes "=") [] c.name (argsText c.args) (by simp) c.named
    (fun x hx => (c.name_plain x hx).2.2) (by cases c.args <;> simp [argsText, show 61 ∈ bytes "=" by decide])
  have hargs : fields [CMD_ARGS_SEPARATOR] (argsText c.args).tail = c.args := by
    have hplain := c.args_plain
    cases h : c.args with
    | nil => rfl
    | cons arg args =>
      rw [h] at hplain
      exact fields_join (List.mem_singleton_self _) fun a ha =>
        ⟨(hplain a ha).1, fun x hx => ((hplain a ha).2 x hx).2.2⟩
  rw [List.nil_append, List.append_nil] at hline
  rw [List.nil_append] at hname
  unfold command
  simp only [hline]
  simp only [text, commandLine, hname, hargs]

end Command

/-! ## What the parser accepts -/

/-- The parser finds the command in the line, with its first arguments. -/
theorem parsed_eq {line : Bytes} (h0 : 0 ∉ line) (junk : Bytes) :
    parsed (line ++ 0 :: junk) = (command line).map fun p => (p.1, p.2.take CMD_ARGS_MAX_LENGTH) := by
  have hstr : StrAt (line ++ 0 :: junk) 0 line := ⟨h0, [], junk, rfl, rfl⟩
  unfold parsed
  rcases hc : command line with _ | ⟨name, args⟩
  · have hnone := consoleParseCommand_none hstr hc
    rcases hp : consoleParseCommand (line ++ 0 :: junk) with ⟨found, buf⟩
    rw [hp] at hnone
    obtain rfl : found = none := hnone
    rfl
  · obtain ⟨p, offs, buf, hp, hname, hargs⟩ := consoleParseCommand_some hstr hc
    simp only [hp, hname.cstr_eq, hargs, Option.map_some]

/-- A name and the first of the fields behind what follows it. -/
theorem commandLine_length (name w : Bytes) :
    (commandLine name ((fields [CMD_ARGS_SEPARATOR] w.tail).take CMD_ARGS_MAX_LENGTH)).length ≤
      name.length + w.length := by
  have hfields := @fields_length [CMD_ARGS_SEPARATOR] w.tail
  rw [← List.take_append_drop CMD_ARGS_MAX_LENGTH (fields _ _), List.map_append, List.sum_append] at hfields
  simp only [commandLine, List.length_append, argsText_length]
  cases w with
  | nil => simp [fields_of_sep]
  | cons d w =>
    simp only [List.tail_cons, List.length_cons] at hfields ⊢
    omega

/-- What is found in a line is a command, and its text is not longer than the line. -/
theorem command_of_line {line name : Bytes} {args : List Bytes} (h0 : 0 ∉ line)
    (hc : command line = some (name, args)) :
    ∃ c : Command, c.name = name ∧ c.args = args.take CMD_ARGS_MAX_LENGTH ∧ c.text.length ≤ line.length := by
  unfold command at hc
  split at hc
  · cases hc
  · rename_i segment v hs
    split at hc
    · cases hc
    · rename_i name' rest hn
      cases hc
      obtain ⟨-, hsegment, sep, w, rfl, -⟩ := token_some hs
      obtain ⟨hname, hnamed, sep', w', rfl, rfl⟩ := token_some hn
      have hplain : ∀ x ∈ sep' ++ (name ++ w'), x ≠ 0 ∧ x ∉ NEWLINE := fun x hx =>
        ⟨fun h => h0 (List.mem_append_right _ (List.mem_append_left _ (h ▸ hx))), hsegment x hx⟩
      refine ⟨⟨name, _, hname, fun x hx => ?_, fun arg harg => ?_, List.length_take_le _ _⟩, rfl, rfl, ?_⟩
      · obtain ⟨hx0, hxn⟩ := hplain x (by simp [hx])
        exact ⟨hx0, hxn, hnamed x hx⟩
      · obtain ⟨hne, hfield⟩ := mem_fields _ arg (List.mem_of_mem_take harg)
        refine ⟨hne, fun x hx => ?_⟩
        obtain ⟨hsep, hrest⟩ := hfield x hx
        obtain ⟨hx0, hxn⟩ := hplain x (by simp [List.mem_of_mem_tail hrest])
        exact ⟨hx0, hxn, hsep⟩
      · have hlen := commandLine_length name w'
        simp only [Command.text, List.length_append]
        omega

/-- A buffer with the text of a command is parsed to that command; and what is found in a line is a command,
whose text is not longer than the line. -/
theorem command_lines_round_trip (line : Bytes) (h0 : 0 ∉ line) (junk : Bytes) :
    (∀ c : Command, parsed (c.text ++ 0 :: junk) = some (c.name, c.args)) ∧
      ∀ name args, parsed (line ++ 0 :: junk) = some (name, args) →
        ∃ c : Command, c.name = name ∧ c.args = args ∧ c.text.length ≤ line.length := by
  constructor
  · intro c
    rw [parsed_eq c.text_string, c.command_text, Option.map_some, List.take_of_length_le c.few]
  · intro name args h
    rw [parsed_eq h0] at h
    obtain ⟨⟨name', args'⟩, hc, he⟩ := Option.map_eq_some_iff.1 h
    cases he
    exact command_of_line h0 hc

theorem messy_string : 0 ∉ bytes "\r=SET==a;;b=;\n" := by decide

theorem command_lines_round_trip_messy :
    ∃ c : Command, c.name = bytes "SET" ∧ c.args = [bytes "=a", bytes "b="] ∧ c.text.length ≤ 14 :=
  (command_lines_round_trip (bytes "\r=SET==a;;b=;\n") messy_string [7]).2 (bytes "SET") [bytes "=a", bytes "b="]
    (by decide +kernel)

/-! ## The console treats lines alike -/

/-- What is dispatched depends on what is parsed. -/
theorem dispatch_parsed (cmds : List ConsoleCmd) (cmdLine : Bytes) :
    dispatch cmds cmdLine =
      match parsed cmdLine with
      | none => .refuse (bytes "PARSE_ERROR")
      | some (name, args) =>
        match entry cmds name with
        | none => .refuse (bytes "CMD_NOT_FOUND")
        | some cmd =>
          if cmd.expectedArgs ≠ args.length then .refuse (bytes "CMD_INVALID_ARGS") else .call cmd name args := by
  unfold dispatch parsed entry
  rcases consoleParseCommand cmdLine with ⟨_ | ⟨cmdName, cmdArgs⟩, buf⟩
  · rfl
  · rcases hf : cmds.find? (fun cmd => strcasecmp cmd.name (cstr buf cmdName) = 0) with _ | cmd
    · simp only [hf]
    · simp only [hf, List.length_map]

theorem consoleRunCommand_parsed {cmds : List ConsoleCmd} {a b : Bytes} (h : parsed a = parsed b) (s : State) :
    consoleRunCommand cmds s a = consoleRunCommand cmds s b := by
  rw [consoleRunCommand_eq, consoleRunCommand_eq, dispatch_parsed, dispatch_parsed, h]

/-- The text of the command in a line, with the arguments that are found. -/
def normalLine (line : Bytes) : Bytes :=
  match command line with
  | none => []
  | some (name, args) => commandLine name (args.take CMD_ARGS_MAX_LENGTH)

/-- A read with the text of the command in it, and its newline. -/
def normalRead (r : Bytes) : Bytes := if r = [] then [] else normalLine (lineOf r) ++ [10]

/-- A line without a command, or one with the command that its text is the text of. -/
theorem normalLine_cases {line : Bytes} (h0 : 0 ∉ line) :
    command line = none ∧ normalLine line = [] ∨
      ∃ c : Command, ∃ args, command line = some (c.name, args) ∧ c.args = args.take CMD_ARGS_MAX_LENGTH ∧
        normalLine line = c.text ∧ c.text.length ≤ line.length := by
  unfold normalLine
  rcases hc : command line with _ | ⟨name, args⟩
  · exact .inl ⟨rfl, rfl⟩
  · obtain ⟨c, rfl, hargs, hlen⟩ := command_of_line h0 hc
    exact .inr ⟨c, args, rfl, hargs, by rw [Command.text, hargs], hlen⟩

theorem normalLine_string {line : Bytes} (h0 : 0 ∉ line) : 0 ∉ normalLine line := by
  rcases normalLine_cases h0 with ⟨-, ht⟩ | ⟨c, -, -, -, ht, -⟩
  · rw [ht]
    exact List.not_mem_nil
  · rw [ht]
    exact c.text_string

/-- A line and its normal form are parsed alike. -/
theorem parsed_normalLine {line : Bytes} (h0 : 0 ∉ line) (junk junk' : Bytes) :
    parsed (normalLine line ++ 0 :: junk) = parsed (line ++ 0 :: junk') := by
  rw [parsed_eq (normalLine_string h0), parsed_eq h0]
  rcases normalLine_cases h0 with ⟨hc, ht⟩ | ⟨c, args, hc, hargs, ht, -⟩
  · rw [hc, ht]
    rfl
  · rw [hc, ht, c.command_text, Option.map_some, Option.map_some, hargs, List.take_take, min_self]

theorem normalLine_length {line : Bytes} (h0 : 0 ∉ line) : (normalLine line).length ≤ line.length := by
  rcases normalLine_cases h0 with ⟨-, ht⟩ | ⟨c, -, -, -, ht, hlen⟩
  · rw [ht]
    exact Nat.zero_le _
  · rw [ht]
    exact hlen

theorem normalLine_idem {line : Bytes} (h0 : 0 ∉ line) : normalLine (normalLine line) = normalLine line := by
  rcases normalLine_cases h0 with ⟨-, ht⟩ | ⟨c, -, -, -, ht, -⟩
  · rw [ht]
    rfl
  · rw [ht]
    simp only [normalLine, c.command_text]
    rw [Command.text, List.take_of_length_le c.few]

/-! ## The console treats reads alike -/

/-- What a read that ends in a newline makes of a string before it. -/
theorem lineOf_append {line : Bytes} (h0 : 0 ∉ line) : lineOf (line ++ [10]) = line := by
  rw [lineOf, List.dropLast_concat, List.takeWhile_eq_self_iff]
  intro x hx
  have hne : x ≠ 0 := fun h => h0 (h ▸ hx)
  simpa using hne

theorem lineOf_length {r : Bytes} (hr : r ≠ []) : (lineOf r).length + 1 ≤ r.length := by
  have hle := (List.takeWhile_prefix (l := r.dropLast) (p := (· ≠ 0))).length_le
  have hpos := List.length_pos_iff.2 hr
  rw [List.length_dropLast] at hle
  unfold lineOf
  omega

theorem normalRead_line {r : Bytes} (hr : r ≠ []) : normalRead r = normalLine (lineOf r) ++ [10] := if_neg hr

theorem normalRead_length (r : Bytes) : (normalRead r).length ≤ r.length := by
  by_cases hr : r = []
  · rw [hr]
    exact Nat.le_refl _
  · rw [normalRead_line hr, List.length_append]
    exact (Nat.add_le_add_right (normalLine_length (lineOf_string r)) 1).trans (lineOf_length hr)

theorem normalRead_idem (r : Bytes) : normalRead (normalRead r) = normalRead r := by
  by_cases hr : r = []
  · rw [hr]
    rfl
  · rw [normalRead_line hr, normalRead_line (by simp), lineOf_append (normalLine_string (lineOf_string r)),
      normalLine_idem (lineOf_string r)]

/-- A read and its normal form are run alike, whatever is in the buffer. -/
theorem run_normalRead (cmds : List ConsoleCmd) (s : State) (cmd cmd' : Bytes) {r : Bytes} (hr : r ≠ []) :
    consoleRunCommand cmds s ((memcpy cmd r r.length).set (r.length - 1) 0) =
      consoleRunCommand cmds s
        ((memcpy cmd' (normalRead r) (normalRead r).length).set ((normalRead r).length - 1) 0) := by
  have hne : normalRead r ≠ [] := by simp [normalRead_line hr]
  obtain ⟨junk, hjunk⟩ := line_in_buffer cmd hr
  obtain ⟨junk', hjunk'⟩ := line_in_buffer cmd' hne
  have hline : lineOf (normalRead r) = normalLine (lineOf r) := by
    rw [normalRead_line hr, lineOf_append (normalLine_string (lineOf_string r))]
  rw [hjunk, hjunk', hline]
  exact consoleRunCommand_parsed (parsed_normalLine (lineOf_string r) _ _).symm s

/-- A turn of the loop of `Console_GetCommand`, as far as the state goes. -/
theorem loop_cons {cmds : List ConsoleCmd} (s : State) (cmd : Bytes) {r : Bytes} (hr : r ≠ []) (reads : List Bytes) :
    (consoleGetCommand cmds s cmd (r :: reads)).map Prod.snd =
      (consoleRunCommand cmds s ((memcpy cmd r r.length).set (r.length - 1) 0)).bind fun p =>
        (consoleGetCommand cmds p.2 (consoleParseCommand ((memcpy cmd r r.length).set (r.length - 1) 0)).2 reads).map
          Prod.snd := by
  simp only [consoleGetCommand, if_pos (List.length_pos_iff.2 hr)]
  generalize (memcpy cmd r r.length).set (r.length - 1) 0 = buf
  rcases consoleRunCommand cmds s buf with _ | ⟨code, s'⟩
  · rfl
  · simp only [Option.bind_some]
    rcases consoleGetCommand cmds s' (consoleParseCommand buf).2 reads with _ | ⟨calls, t⟩ <;> rfl

/-- The loop leaves the same state after reads and after their normal forms. -/
theorem loop_normalRead (cmds : List ConsoleCmd) : ∀ (reads : List Bytes) (s : State) (cmd cmd' : Bytes),
    (consoleGetCommand cmds s cmd reads).map Prod.snd =
      (consoleGetCommand cmds s cmd' (reads.map normalRead)).map Prod.snd
  | [], _, _, _ => rfl
  | r :: reads, s, cmd, cmd' => by
    by_cases hr : r = []
    · rw [hr]
      rfl
    · have hne : normalRead r ≠ [] := by simp [normalRead_line hr]
      rw [List.map_cons, loop_cons s cmd hr, loop_cons s cmd' hne, run_normalRead cmds s cmd cmd' hr]
      exact congrArg _ (funext fun p => loop_normalRead cmds reads p.2 _ _)

/-- `Console_GetCommand` leaves the buffers of the console, and has written, the same after reads and after their
normal forms, which are fixed and not longer, whatever the stack holds. -/
theorem reads_normal (cmds : List ConsoleCmd) (s : State) (cmd cmd' : Bytes) (reads : List Bytes) :
    (consoleGetCommand cmds s cmd reads).map Prod.snd =
        (consoleGetCommand cmds s cmd' (reads.map normalRead)).map Prod.snd ∧
      ∀ r, normalRead (normalRead r) = normalRead r ∧ (normalRead r).length ≤ r.length :=
  ⟨loop_normalRead cmds reads s cmd cmd', fun r => ⟨normalRead_idem r, normalRead_length r⟩⟩

example : normalRead (bytes "\r==SET==a;;b=;\r\nHELP\n") = bytes "SET==a;b=\n" := by decide +kernel

end InfoWorkshop.Console
