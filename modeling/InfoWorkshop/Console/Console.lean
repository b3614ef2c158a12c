/-
`console/console.c` and `console/cmd_system.c`: the command table, the parser, the two handlers and
`Console_RunCommand`. A command line is a buffer that `strtok_r` cuts up in place, a string in it an
offset; the two static buffers and the calls of `writeFunction` are the state.
-/
import InfoWorkshop.Core.Defines
import InfoWorkshop.Lib.CString

namespace InfoWorkshop.Console

open InfoWorkshop.Core InfoWorkshop.Memory InfoWorkshop.CString

def CMD_ARGS_MAX_LENGTH : Nat := 10

def CMD_RESPONSE_MAX_LENGTH : Nat := 50

def NEWLINE : Bytes := bytes "\r\n"

def CMD_ARGS_SEPARATOR : UInt8 := 59

def CMD_RESPONSE_LINE_TERMINATOR : Bytes := bytes "*END\r\n"

def CMD_RESPONSE_SUCCESS : Bytes := bytes "SUCCESS"

def CMD_RESPONSE_FAILURE : Bytes := bytes "FAIL"

/-- A call of `ctx->writeFunction`: its length and the buffer its data points to. -/
structure Write where
  length : Nat
  data : Bytes
  deriving DecidableEq, Repr

/-- The bytes that are written. -/
def Write.bytes (x : Write) : Bytes := x.data.take x.length

/-- The write stays inside the buffer. -/
def Write.InBounds (x : Write) : Prop := x.length ≤ x.data.length

/-- The static buffers of `Console_RunCommand` and `Console_Printf`, and the writes so far. -/
structure State where
  responseBuffer : Bytes
  buffer : Bytes
  writes : List Write
  deriving DecidableEq, Repr

/-- The buffers at the start, all zero. -/
def State.init : State := ⟨List.replicate CMD_RESPONSE_MAX_LENGTH 0, List.replicate 256 0, []⟩

/-- `ConsoleCommandHandler`, its `response` being the response buffer; `none` when it writes past the
end of it. -/
abbrev ConsoleCommandHandler := State → Nat → List Bytes → Option (ErrorCode × State)

/-- `struct ConsoleCmd`. -/
structure ConsoleCmd where
  name : Bytes
  expectedArgs : Int
  handler : ConsoleCommandHandler
  help : Bytes

/-- `Console_Printf` of the formatted text. -/
def consolePrintf (s : State) (text : Bytes) : State :=
  let (length, buffer) := vsnprintf s.buffer text
  if length > 0 then { s with buffer, writes := s.writes ++ [⟨length, buffer⟩] }
  else { s with buffer }

/-- `strcpy(response, text)`. -/
def respond (s : State) (text : Bytes) : Option State :=
  match strcpy s.responseBuffer text with
  | none => none
  | some responseBuffer => some { s with responseBuffer }

/-- `%-15s`. -/
def padRight (width : Nat) (text : Bytes) : Bytes := text ++ List.replicate (width - text.length) 32

/-- A line of the help. -/
def helpLine (name help : Bytes) : Bytes := bytes "* " ++ padRight 15 name ++ bytes " - " ++ help ++ NEWLINE

/-- The names and help texts of `gCommands`. -/
def commandTexts : List (Bytes × Bytes) :=
  [(bytes "HELP", bytes "show this help message"), (bytes "SYS_FW_VER", bytes "get firmware version")]

/-- `Console_CmdHelp`. -/
def consoleCmdHelp : ConsoleCommandHandler := fun s _ _ =>
  let s := consolePrintf s (bytes "Available commands:" ++ NEWLINE)
  let s := commandTexts.foldl (fun s (name, help) => consolePrintf s (helpLine name help)) s
  match respond s CMD_RESPONSE_SUCCESS with
  | none => none
  | some s => some (.success, s)

/-- `Console_CmdFwVer`, built with `VERSION`. -/
def consoleCmdFwVer (VERSION : Bytes) : ConsoleCommandHandler := fun s _ _ =>
  match respond s VERSION with
  | none => none
  | some s => some (.success, s)

/-- `gCommands`. -/
def gCommands (VERSION : Bytes) : List ConsoleCmd :=
  [⟨bytes "HELP", 0, consoleCmdHelp, bytes "show this help message"⟩,
    ⟨bytes "SYS_FW_VER", 0, consoleCmdFwVer VERSION, bytes "get firmware version"⟩]

example (VERSION : Bytes) : (gCommands VERSION).map (fun cmd => (cmd.name, cmd.help)) = commandTexts := rfl

/-- The loop of `Console_ParseCommand`, with `n` places left in `args`: the arguments found and the
buffer. -/
def parseArgs : Nat → Bytes → Nat → List Nat × Bytes
  | 0, buf, _ => ([], buf)
  | n + 1, buf, ptr =>
    match strtokR buf none [CMD_ARGS_SEPARATOR] ptr with
    | (none, buf, _) => ([], buf)
    | (some arg, buf, ptr) =>
      let (args, buf) := parseArgs n buf ptr
      (arg :: args, buf)

/-- `Console_ParseCommand`: the offsets of the name and of the arguments, whose number it returns, or
`none` for -1; and the buffer. -/
def consoleParseCommand (cmdLine : Bytes) : Option (Nat × List Nat) × Bytes :=
  let (line, buf, ptr) := strtokR cmdLine (some 0) NEWLINE 0
  match strtokR buf line (bytes "=") ptr with
  | (none, buf, _) => (none, buf)
  | (some name, buf, ptr) =>
    let (args, buf) := parseArgs CMD_ARGS_MAX_LENGTH buf ptr
    (some (name, args), buf)

/-- The arguments of a response, from the argument at index `i` on. -/
def serializeArgs (s : State) : Nat → List Bytes → State
  | _, [] => s
  | i, arg :: args =>
    serializeArgs (consolePrintf s ((if i = 0 then 95 else CMD_ARGS_SEPARATOR) :: arg)) (i + 1) args

/-- `Console_SerializeResponse`. -/
def consoleSerializeResponse (s : State) (cmd : Bytes) (args : List Bytes) (response : Bytes) : State :=
  let s := consolePrintf s cmd
  let s := serializeArgs s 0 args
  consolePrintf s (bytes ":" ++ response ++ CMD_RESPONSE_LINE_TERMINATOR)

/-- `Console_RunCommand` with the table `cmds`; `none` when a handler writes past the response. -/
def consoleRunCommand (cmds : List ConsoleCmd) (s : State) (cmdLine : Bytes) : Option (ErrorCode × State) :=
  match consoleParseCommand cmdLine with
  | (none, _) => some (.failure, consoleSerializeResponse s (bytes "PARSE_ERROR") [] CMD_RESPONSE_FAILURE)
  | (some (cmdName, cmdArgs), buf) =>
    match cmds.find? fun cmd => strcasecmp cmd.name (cstr buf cmdName) = 0 with
    | none => some (.failure, consoleSerializeResponse s (bytes "CMD_NOT_FOUND") [] CMD_RESPONSE_FAILURE)
    | some cmd =>
      if cmd.expectedArgs ≠ cmdArgs.length then
        some (.failure, consoleSerializeResponse s (bytes "CMD_INVALID_ARGS") [] CMD_RESPONSE_FAILURE)
      else
        match cmd.handler s cmdArgs.length (cmdArgs.map (cstr buf)) with
        | none => none
        | some (_, s) =>
          some (.success,
            consoleSerializeResponse s (cstr buf cmdName) (cmdArgs.map (cstr buf)) (cstr s.responseBuffer 0))

end InfoWorkshop.Console
