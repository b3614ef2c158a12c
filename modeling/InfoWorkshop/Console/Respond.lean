/-
The answer of `Console_RunCommand`: `Outcome` says what a line comes to and which text answers it, and the
console writes exactly that text, whatever its static buffers hold.
-/
import InfoWorkshop.Console.Parse
import InfoWorkshop.Lib.Terminator

namespace InfoWorkshop.Console

open InfoWorkshop.Core InfoWorkshop.Memory InfoWorkshop.CString InfoWorkshop.Terminator

/-! ## Printing -/

/-- The static buffers have their sizes. -/
structure Sized (s : State) : Prop where
  response : s.responseBuffer.length = CMD_RESPONSE_MAX_LENGTH
  buffer : s.buffer.length = 256

theorem sized_init : Sized .init := ⟨List.length_replicate, List.length_replicate⟩

/-- What the buffer holds after the text is formatted. -/
def stored (s : State) (text : Bytes) : Bytes := (vsnprintf s.buffer text).2

theorem stored_eq {s : State} (hs : s.buffer.length = 256) (text : Bytes) :
    ∃ rest, stored s text = text.take 255 ++ 0 :: rest ∧ (stored s text).length = 256 := by
  refine ⟨s.buffer.drop (min text.length 255 + 1), by simp only [stored, vsnprintf, hs], ?_⟩
  simp only [stored, vsnprintf, hs, List.length_append, List.length_take, List.length_cons, List.length_drop]
  omega

/-- A text that the buffer holds whole can be read back from it. -/
theorem stored_fits {s : State} (hs : s.buffer.length = 256) {text : Bytes} (ht : text.length ≤ 255) :
    (⟨text.length, stored s text⟩ : Write).InBounds ∧ (⟨text.length, stored s text⟩ : Write).bytes = text := by
  obtain ⟨rest, hstored, hlen⟩ := stored_eq hs text
  constructor
  · show text.length ≤ (stored s text).length
    omega
  · show (stored s text).take text.length = text
    rw [hstored, List.take_of_length_le ht, List.take_left]

/-- The text is written from the buffer, an empty one not at all. -/
theorem consolePrintf_eq (s : State) (text : Bytes) :
    consolePrintf s text = { s with
      buffer := stored s text
      writes := s.writes ++ if text = [] then [] else [⟨text.length, stored s text⟩] } := by
  cases text with
  | nil =>
    rw [if_pos rfl, List.append_nil]
    rfl
  | cons c text => simp [consolePrintf, vsnprintf, stored]

/-- From `s` to `s'` the bytes `out` are written, all of them from inside a buffer. -/
structure Prints (s s' : State) (out : Bytes) : Prop where
  sized : Sized s → Sized s'
  writes : ∃ ws, s'.writes = s.writes ++ ws ∧ ws.flatMap Write.bytes = out ∧ ∀ x ∈ ws, x.InBounds

theorem Prints.trans {s s' s'' : State} {out out' : Bytes} (h : Prints s s' out) (h' : Prints s' s'' out') :
    Prints s s'' (out ++ out') := by
  obtain ⟨ws, hws, hout, hin⟩ := h.writes
  obtain ⟨ws', hws', hout', hin'⟩ := h'.writes
  refine ⟨fun hs => h'.sized (h.sized hs), ws ++ ws', ?_, ?_, ?_⟩
  · rw [hws', hws, List.append_assoc]
  · rw [List.flatMap_append, hout, hout']
  · intro x hx
    rcases List.mem_append.1 hx with hx | hx
    · exact hin x hx
    · exact hin' x hx

/-- A text that fits the buffer is written as it is. -/
theorem consolePrintf_prints {s : State} {text : Bytes} (hs : Sized s) (ht : text.length < 256) :
    Prints s (consolePrintf s text) text := by
  obtain ⟨-, -, hlen⟩ := stored_eq hs.buffer text
  obtain ⟨hin, hbytes⟩ := stored_fits hs.buffer (Nat.le_of_lt_succ ht)
  rw [consolePrintf_eq]
  refine ⟨fun _ => ⟨hs.response, hlen⟩, _, rfl, ?_⟩
  by_cases hnil : text = []
  · rw [if_pos hnil, hnil]
    exact ⟨rfl, fun x hx => absurd hx List.not_mem_nil⟩
  · rw [if_neg hnil, List.flatMap_singleton]
    exact ⟨hbytes, fun x hx => List.mem_singleton.1 hx ▸ hin⟩

theorem consoleSerializeResponse_prints {s : State} {cmd response : Bytes} (hs : Sized s)
    (hcmd : cmd.length < 256) (hresponse : response.length < CMD_RESPONSE_MAX_LENGTH) :
    Prints s (consoleSerializeResponse s cmd [] response)
      (cmd ++ (bytes ":" ++ response) ++ CMD_RESPONSE_LINE_TERMINATOR) := by
  have hcolon : (bytes ":").length = 1 := rfl
  have hterm : CMD_RESPONSE_LINE_TERMINATOR.length = 6 := rfl
  have hlen : (bytes ":" ++ response ++ CMD_RESPONSE_LINE_TERMINATOR).length < 256 := by
    unfold CMD_RESPONSE_MAX_LENGTH at hresponse
    simp only [List.length_append, hcolon, hterm]
    omega
  have hfirst := consolePrintf_prints hs hcmd
  rw [List.append_assoc]
  exact hfirst.trans (consolePrintf_prints (hfirst.sized hs) hlen)

/-- A text that fits is the response afterwards, and nothing is written. -/
theorem respond_spec {s : State} {text : Bytes} (hs : Sized s) (h0 : 0 ∉ text)
    (ht : text.length < CMD_RESPONSE_MAX_LENGTH) :
    ∃ s', respond s text = some s' ∧ Prints s s' [] ∧ cstr s'.responseBuffer 0 = text := by
  have hfit : text.length < s.responseBuffer.length := by rw [hs.response]; exact ht
  obtain ⟨buf, hbuf⟩ : ∃ buf, strcpy s.responseBuffer text = some buf := ⟨_, if_pos hfit⟩
  obtain ⟨hstr, hlen⟩ := strcpy_strAt hbuf h0
  refine ⟨{ s with responseBuffer := buf }, by simp only [respond, hbuf], ⟨fun _ => ?_, [], ?_⟩, hstr.cstr_eq⟩
  · exact ⟨hlen.trans hs.response, hs.buffer⟩
  · simp

/-! ## What a line comes to -/

/-- The same name, ignoring case. -/
abbrev SameName (a b : Bytes) : Prop := a.map tolower = b.map tolower

/-- What a line comes to. A command that is run keeps its name as it stands in the line. -/
inductive Outcome
  | parseError
  | notFound
  | invalidArgs
  | help (name : Bytes)
  | fwVer (name : Bytes)
  deriving DecidableEq, Repr

def outcome (line : Bytes) : Outcome :=
  match command line with
  | none => .parseError
  | some (name, args) =>
    if SameName (bytes "HELP") name then if args = [] then .help name else .invalidArgs
    else if SameName (bytes "SYS_FW_VER") name then if args = [] then .fwVer name else .invalidArgs
    else .notFound

def Outcome.code : Outcome → ErrorCode
  | .parseError | .notFound | .invalidArgs => .failure
  | .help _ | .fwVer _ => .success

/-- The lines before the last one. -/
def Outcome.info : Outcome → List Bytes
  | .help _ => bytes "Available commands:" ::
      commandTexts.map fun (name, text) => bytes "* " ++ padRight 15 name ++ bytes " - " ++ text
  | _ => []

/-- The last line, up to its terminator. -/
def Outcome.last (VERSION : Bytes) : Outcome → Bytes
  | .parseError => bytes "PARSE_ERROR:FAIL"
  | .notFound => bytes "CMD_NOT_FOUND:FAIL"
  | .invalidArgs => bytes "CMD_INVALID_ARGS:FAIL"
  | .help name => name ++ (bytes ":" ++ CMD_RESPONSE_SUCCESS)
  | .fwVer name => name ++ (bytes ":" ++ VERSION)

/-- The whole answer. -/
def Outcome.text (VERSION : Bytes) (o : Outcome) : Bytes :=
  o.info.flatMap (· ++ NEWLINE) ++ (o.last VERSION ++ CMD_RESPONSE_LINE_TERMINATOR)

example : (outcome (bytes "help=;\r")).text (bytes "1.0") =
    bytes "Available commands:\r\n* HELP            - show this help message\r\n" ++
      bytes "* SYS_FW_VER      - get firmware version\r\nhelp:SUCCESS*END\r\n" := by decide +kernel

/-! ## The console writes it -/

/-- Printing one text after the other. -/
theorem foldl_prints {β : Type} (f : β → Bytes) : ∀ {l : List β} {s : State}, Sized s →
    (∀ x ∈ l, (f x).length < 256) → Prints s (l.foldl (fun s x => consolePrintf s (f x)) s) (l.flatMap f)
  | [], s, _, _ => ⟨id, [], by simp⟩
  | x :: l, s, hs, hl => by
    have hfirst := consolePrintf_prints hs (hl x (by simp))
    have hrest := foldl_prints f (l := l) (hfirst.sized hs) fun y hy => hl y (by simp [hy])
    rw [List.foldl_cons, List.flatMap_cons]
    exact hfirst.trans hrest

theorem consoleCmdHelp_prints {s : State} (hs : Sized s) (n : Nat) (args : List Bytes) (name : Bytes) :
    ∃ s', consoleCmdHelp s n args = some (.success, s') ∧
      Prints s s' ((Outcome.help name).info.flatMap (· ++ NEWLINE)) ∧
      cstr s'.responseBuffer 0 = CMD_RESPONSE_SUCCESS := by
  have h1 := consolePrintf_prints hs (show (bytes "Available commands:" ++ NEWLINE).length < 256 by decide)
  have h2 := foldl_prints (fun (name, text) => helpLine name text) (l := commandTexts) (h1.sized hs) (by decide)
  obtain ⟨s', hs', h3, hresponse⟩ := respond_spec (h2.sized (h1.sized hs))
    (show 0 ∉ CMD_RESPONSE_SUCCESS by decide) (by decide)
  refine ⟨s', ?_, ?_, hresponse⟩
  · simp only [consoleCmdHelp, hs']
  · have hinfo : (Outcome.help name).info.flatMap (· ++ NEWLINE) = (bytes "Available commands:" ++ NEWLINE) ++
        commandTexts.flatMap (fun (name, text) => helpLine name text) ++ [] := rfl
    rw [hinfo]
    exact (h1.trans h2).trans h3

theorem consoleCmdFwVer_prints {VERSION : Bytes} {s : State} (hs : Sized s)
    (hlen : VERSION.length < CMD_RESPONSE_MAX_LENGTH) (hV : 0 ∉ VERSION) (n : Nat) (args : List Bytes) :
    ∃ s', consoleCmdFwVer VERSION s n args = some (.success, s') ∧ Prints s s' [] ∧
      cstr s'.responseBuffer 0 = VERSION := by
  obtain ⟨s', hs', hprints, hresponse⟩ := respond_spec hs hV hlen
  exact ⟨s', by simp only [consoleCmdFwVer, hs'], hprints, hresponse⟩

theorem find?_gCommands {VERSION name : Bytes} (h0 : 0 ∉ name) :
    (gCommands VERSION).find? (fun cmd => strcasecmp cmd.name name = 0) =
      if SameName (bytes "HELP") name then
        some ⟨bytes "HELP", 0, consoleCmdHelp, bytes "show this help message"⟩
      else if SameName (bytes "SYS_FW_VER") name then
        some ⟨bytes "SYS_FW_VER", 0, consoleCmdFwVer VERSION, bytes "get firmware version"⟩
      else none := by
  have hhelp := strcasecmp_eq_zero (s := bytes "HELP") (by decide) h0
  have hver := strcasecmp_eq_zero (s := bytes "SYS_FW_VER") (by decide) h0
  simp only [gCommands, List.find?_cons, List.find?_nil, hhelp, hver]
  by_cases h1 : SameName (bytes "HELP") name
  · simp [h1]
  · by_cases h2 : SameName (bytes "SYS_FW_VER") name
    · simp [h1, h2]
    · simp [h1, h2]

theorem SameName.length_eq {a b : Bytes} (h : SameName a b) : b.length = a.length := by
  simpa using (congrArg List.length h).symm

/-- The answer to a line is the text of its outcome, from whatever the buffers held before. -/
theorem consoleRunCommand_prints {VERSION line : Bytes} {s : State} (hs : Sized s)
    (hlen : VERSION.length < CMD_RESPONSE_MAX_LENGTH) (hV : 0 ∉ VERSION) (hline : 0 ∉ line) (junk : Bytes) :
    ∃ s', consoleRunCommand (gCommands VERSION) s (line ++ 0 :: junk) = some ((outcome line).code, s') ∧
      Prints s s' ((outcome line).text VERSION) := by
  have hstr : StrAt (line ++ 0 :: junk) 0 line := ⟨hline, [], junk, rfl, rfl⟩
  unfold consoleRunCommand outcome
  rcases hc : command line with _ | ⟨name, args⟩
  · rcases hp : consoleParseCommand (line ++ 0 :: junk) with ⟨found, buf⟩
    have hnone : found = none := by rw [← consoleParseCommand_none hstr hc, hp]
    subst hnone
    exact ⟨_, rfl, consoleSerializeResponse_prints hs (by decide) (by decide)⟩
  · obtain ⟨p, offs, buf, hp, hname, hargs⟩ := consoleParseCommand_some hstr hc
    have hinvalid := consoleSerializeResponse_prints (s := s) hs
      (show (bytes "CMD_INVALID_ARGS").length < 256 by decide)
      (show CMD_RESPONSE_FAILURE.length < CMD_RESPONSE_MAX_LENGTH by decide)
    -- ten arguments at most are found, but some are exactly when the line has some
    have hoffs : offs = [] ↔ args = [] := by
      rw [← List.map_eq_nil_iff (f := cstr buf), hargs]
      simp [CMD_ARGS_MAX_LENGTH]
    have hne : args ≠ [] → (0 : Int) ≠ offs.length := fun ha => by
      have hpos := List.length_pos_iff.2 (mt hoffs.1 ha)
      omega
    simp only [hp, hname.cstr_eq, find?_gCommands hname.1]
    by_cases h1 : SameName (bytes "HELP") name
    · rw [if_pos h1, if_pos h1]
      by_cases ha : args = []
      · obtain rfl := hoffs.2 ha
        obtain ⟨s', hrun, hprints, hresponse⟩ := consoleCmdHelp_prints hs 0 [] name
        have hcmd : name.length < 256 := by rw [h1.length_eq]; decide
        have hsuccess : CMD_RESPONSE_SUCCESS.length < CMD_RESPONSE_MAX_LENGTH := by decide
        have hanswer := consoleSerializeResponse_prints (hprints.sized hs) hcmd hsuccess
        rw [if_pos ha]
        refine ⟨_, ?_, hprints.trans hanswer⟩
        simp [hrun, hresponse, Outcome.code]
      · rw [if_neg ha]
        exact ⟨_, if_pos (hne ha), hinvalid⟩
    · rw [if_neg h1, if_neg h1]
      by_cases h2 : SameName (bytes "SYS_FW_VER") name
      · rw [if_pos h2, if_pos h2]
        by_cases ha : args = []
        · obtain rfl := hoffs.2 ha
          obtain ⟨s', hrun, hprints, hresponse⟩ := consoleCmdFwVer_prints hs hlen hV 0 []
          have hcmd : name.length < 256 := by rw [h2.length_eq]; decide
          have hanswer := consoleSerializeResponse_prints (hprints.sized hs) hcmd hlen
          rw [if_pos ha]
          refine ⟨_, ?_, hprints.trans hanswer⟩
          simp [hrun, hresponse, Outcome.code]
        · rw [if_neg ha]
          exact ⟨_, if_pos (hne ha), hinvalid⟩
      · rw [if_neg h2, if_neg h2]
        exact ⟨_, rfl, consoleSerializeResponse_prints hs (by decide) (by decide)⟩

/-! ## The form of an answer -/

theorem SameName.notMem {a b : Bytes} {c : UInt8} (h : SameName a b) (hc : tolower c ∉ a.map tolower) : c ∉ b :=
  fun hmem => hc (h ▸ List.mem_map_of_mem hmem)

theorem endsOnce_lines {last : Bytes} (hlast : 13 ∉ last) : ∀ {lines : List Bytes},
    (∀ l ∈ lines, 13 ∉ l ∧ ¬ bytes "*END" <:+ l) →
    EndsOnce CMD_RESPONSE_LINE_TERMINATOR
      (lines.flatMap (· ++ NEWLINE) ++ (last ++ CMD_RESPONSE_LINE_TERMINATOR))
  | [], _ => endsOnce_append (u := bytes "*END") (v := [10]) (by decide) (by decide) hlast
  | l :: lines, h => by
    obtain ⟨hl, hsuffix⟩ := h l (by simp)
    have hlines : ∀ l ∈ lines, 13 ∉ l ∧ ¬ bytes "*END" <:+ l := fun l hl => h l (by simp [hl])
    have hrest := endsOnce_lines hlast hlines
    have hnewline : EndsOnce (bytes "*END" ++ 13 :: [10]) (10 :: _) := hrest.cons (by decide) (by decide)
    rw [List.flatMap_cons, List.append_assoc, List.append_assoc]
    exact hnewline.append (by decide) hl hsuffix

theorem getLast?_lines {lines : List Bytes} : ∀ x ∈ (lines.flatMap (· ++ NEWLINE)).getLast?, x = 10 := by
  intro x hx
  rcases List.eq_nil_or_concat' lines with rfl | ⟨lines, l, rfl⟩
  · cases hx
  · have hlast : (l ++ NEWLINE).getLast? = some 10 := by
      rw [List.getLast?_append]
      rfl
    rw [List.flatMap_append, List.flatMap_singleton, List.getLast?_append, hlast] at hx
    simpa using hx.symm

/-- A refused line, and the last line of the answer to it. -/
inductive Refused (cmds : List ConsoleCmd) (line : Bytes) : Bytes → Prop
  | parseError : command line = none → Refused cmds line (bytes "PARSE_ERROR:FAIL")
  | notFound {name : Bytes} {args : List Bytes} : command line = some (name, args) →
      (∀ cmd ∈ cmds, ¬ SameName cmd.name name) → Refused cmds line (bytes "CMD_NOT_FOUND:FAIL")
  | invalidArgs {name : Bytes} {args : List Bytes} {cmd : ConsoleCmd} : command line = some (name, args) →
      cmd ∈ cmds → SameName cmd.name name → args ≠ [] → Refused cmds line (bytes "CMD_INVALID_ARGS:FAIL")

/-- A line whose command is run, and the last line of the answer to it. -/
inductive Granted (VERSION line : Bytes) : Bytes → Prop
  | help {name : Bytes} : command line = some (name, []) → SameName (bytes "HELP") name →
      Granted VERSION line (name ++ (bytes ":" ++ CMD_RESPONSE_SUCCESS))
  | fwVer {name : Bytes} : command line = some (name, []) → SameName (bytes "SYS_FW_VER") name →
      Granted VERSION line (name ++ (bytes ":" ++ VERSION))

theorem mem_gCommands {VERSION : Bytes} {cmd : ConsoleCmd} (h : cmd ∈ gCommands VERSION) :
    cmd.name = bytes "HELP" ∨ cmd.name = bytes "SYS_FW_VER" := by
  simp only [gCommands, List.mem_cons, List.not_mem_nil, or_false] at h
  rcases h with rfl | rfl
  · exact .inl rfl
  · exact .inr rfl

theorem Refused.outcome {VERSION line text : Bytes} (h : Refused (gCommands VERSION) line text) :
    (outcome line).code = .failure ∧ (outcome line).last VERSION = text := by
  cases h with
  | parseError hc => simp [Console.outcome, hc, Outcome.code, Outcome.last]
  | notFound hc hno =>
    have h1 := hno _ (List.mem_cons_self ..)
    have h2 := hno _ (List.mem_cons_of_mem _ (List.mem_cons_self ..))
    simp only [Console.outcome, hc, if_neg h1, if_neg h2]
    exact ⟨rfl, rfl⟩
  | invalidArgs hc hcmd hname ha =>
    simp only [Console.outcome, hc, if_neg ha]
    rcases mem_gCommands hcmd with he | he
    · rw [he] at hname
      simp only [if_pos hname]
      exact ⟨rfl, rfl⟩
    · rw [he] at hname
      simp only [if_pos hname, ite_self]
      exact ⟨rfl, rfl⟩

theorem Granted.outcome {VERSION line text : Bytes} (h : Granted VERSION line text) :
    (outcome line).code = .success ∧ (outcome line).last VERSION = text := by
  cases h with
  | help hc hname =>
    simp only [Console.outcome, hc, if_pos hname, if_true]
    exact ⟨rfl, rfl⟩
  | fwVer hc hname =>
    have hother : ¬ SameName (bytes "HELP") _ := fun h => absurd (h.trans hname.symm) (by decide)
    simp only [Console.outcome, hc, if_neg hother, if_pos hname, if_true]
    exact ⟨rfl, rfl⟩

/-- Every line is refused or granted. -/
theorem refused_or_granted (VERSION line : Bytes) :
    (∃ text, Refused (gCommands VERSION) line text) ∨ ∃ text, Granted VERSION line text := by
  rcases hc : command line with _ | ⟨name, args⟩
  · exact .inl ⟨_, .parseError hc⟩
  · by_cases h : ∃ cmd ∈ gCommands VERSION, SameName cmd.name name
    · obtain ⟨cmd, hcmd, hname⟩ := h
      by_cases ha : args = []
      · subst ha
        rcases mem_gCommands hcmd with he | he
        · exact .inr ⟨_, .help hc (he ▸ hname)⟩
        · exact .inr ⟨_, .fwVer hc (he ▸ hname)⟩
      · exact .inl ⟨_, .invalidArgs hc hcmd hname ha⟩
    · exact .inl ⟨_, .notFound hc fun cmd hcmd hname => h ⟨cmd, hcmd, hname⟩⟩

/-- The lines that say that a line is refused. -/
def failureLines : List Bytes :=
  [bytes "PARSE_ERROR:FAIL", bytes "CMD_NOT_FOUND:FAIL", bytes "CMD_INVALID_ARGS:FAIL"]

theorem Refused.mem {cmds : List ConsoleCmd} {line text : Bytes} (h : Refused cmds line text) :
    text ∈ failureLines := by
  cases h <;> simp [failureLines]

theorem SameName.head? {a b : Bytes} (h : SameName a b) (ha : a ≠ []) (r : Bytes) :
    ((b ++ r).map tolower).head? = (a.map tolower).head? := by
  rw [List.map_append, ← h, List.head?_append_of_ne_nil _ (by simpa using ha)]

/-- They begin with other letters than the names in the table. -/
theorem Granted.notMem {VERSION line text : Bytes} (h : Granted VERSION line text) : text ∉ failureLines := by
  have hfirst : ∀ t ∈ failureLines, (t.map tolower).head? = some 112 ∨ (t.map tolower).head? = some 99 := by
    decide
  intro hmem
  have hhead := hfirst text hmem
  cases h with
  | help hc hname =>
    rw [hname.head? (by decide)] at hhead
    exact absurd hhead (by decide)
  | fwVer hc hname =>
    rw [hname.head? (by decide)] at hhead
    exact absurd hhead (by decide)

/-- The last line of an answer has a byte of a line end only from the version. -/
theorem last_notMem {VERSION : Bytes} {c : UInt8} (hc : c = 13 ∨ c = 10) (hV : c ∉ VERSION) (line : Bytes) :
    c ∉ (outcome line).last VERSION := by
  -- the name is that of a table entry up to case
  have hname : ∀ {name : Bytes}, SameName (bytes "HELP") name ∨ SameName (bytes "SYS_FW_VER") name → c ∉ name := by
    rintro name (hn | hn)
    · exact hn.notMem (by rcases hc with rfl | rfl <;> decide)
    · exact hn.notMem (by rcases hc with rfl | rfl <;> decide)
  rcases refused_or_granted VERSION line with ⟨text, h⟩ | ⟨text, h⟩
  · rw [h.outcome.2]
    have hlines : ∀ t ∈ failureLines, 13 ∉ t ∧ 10 ∉ t := by decide
    rcases hc with rfl | rfl
    · exact (hlines text h.mem).1
    · exact (hlines text h.mem).2
  · rw [h.outcome.2]
    cases h with
    | help _ hn =>
      simp only [List.mem_append, hname (.inl hn), false_or]
      rcases hc with rfl | rfl <;> decide
    | fwVer _ hn =>
      simp only [List.mem_append, hname (.inr hn), hV, false_or, or_false]
      rcases hc with rfl | rfl <;> decide

/-- The text of an outcome ends in the terminator, and has it only there. -/
theorem text_endsOnce {VERSION : Bytes} (hV : 13 ∉ VERSION) (line : Bytes) :
    EndsOnce CMD_RESPONSE_LINE_TERMINATOR ((outcome line).text VERSION) := by
  refine endsOnce_lines (last_notMem (.inl rfl) hV line) ?_
  cases outcome line with
  | help name => exact show ∀ l ∈ (Outcome.help []).info, 13 ∉ l ∧ ¬ bytes "*END" <:+ l by decide
  | _ => exact fun l hl => absurd hl List.not_mem_nil

theorem lastLine_text {VERSION : Bytes} (hV : 10 ∉ VERSION) (line : Bytes) :
    lastLine 10 CMD_RESPONSE_LINE_TERMINATOR ((outcome line).text VERSION) = (outcome line).last VERSION :=
  lastLine_append (last_notMem (.inr rfl) hV line) getLast?_lines

/-! ## The answer to a line -/

/-- What the answer `out` to a line and the returned `code` are. -/
structure Answers (VERSION line : Bytes) (code : ErrorCode) (out : Bytes) : Prop where
  terminated : EndsOnce CMD_RESPONSE_LINE_TERMINATOR out
  failure : code = .failure ↔ ∃ text, Refused (gCommands VERSION) line text
  failureLine : code = .failure ↔ lastLine 10 CMD_RESPONSE_LINE_TERMINATOR out ∈ failureLines
  refused : ∀ text, Refused (gCommands VERSION) line text →
    lastLine 10 CMD_RESPONSE_LINE_TERMINATOR out = text
  success : code = .success ↔ ∃ text, Granted VERSION line text
  granted : ∀ text, Granted VERSION line text → lastLine 10 CMD_RESPONSE_LINE_TERMINATOR out = text
  code : code = .success ∨ code = .failure

theorem outcome_answers {VERSION : Bytes} (hV : ∀ x ∈ VERSION, x ≠ 13 ∧ x ≠ 10) (line : Bytes) :
    Answers VERSION line (outcome line).code ((outcome line).text VERSION) := by
  have hends := text_endsOnce (fun hmem => (hV 13 hmem).1 rfl) line
  have hlast := lastLine_text (fun hmem => (hV 10 hmem).2 rfl) line
  rcases refused_or_granted VERSION line with ⟨text, h⟩ | ⟨text, h⟩
  · obtain ⟨hcode, htext⟩ := h.outcome
    have hno : ¬ ∃ text, Granted VERSION line text := fun ⟨_, hg⟩ => by
      rw [hg.outcome.1] at hcode; cases hcode
    refine ⟨hends, iff_of_true hcode ⟨text, h⟩, ?_, fun t ht => hlast.trans ht.outcome.2, ?_,
      fun t ht => absurd ⟨t, ht⟩ hno, .inr hcode⟩
    · rw [hlast, htext]
      simp [hcode, h.mem]
    · simp [hcode, hno]
  · obtain ⟨hcode, htext⟩ := h.outcome
    have hno : ¬ ∃ text, Refused (gCommands VERSION) line text := fun ⟨_, hr⟩ => by
      rw [hr.outcome.1] at hcode; cases hcode
    refine ⟨hends, by simp [hcode, hno], ?_, fun t ht => absurd ⟨t, ht⟩ hno, ?_,
      fun t ht => hlast.trans ht.outcome.2, .inl hcode⟩
    · rw [hlast, htext]
      simp [hcode, h.notMem]
    · exact iff_of_true hcode ⟨text, h⟩

/-- Every command line gets one answer with one terminator, at its end, whatever came before: the same
bytes and code for all contents of the two static buffers. -/
theorem consoleRunCommand_answers {VERSION line : Bytes} (hlen : VERSION.length < CMD_RESPONSE_MAX_LENGTH)
    (hV : ∀ x ∈ VERSION, x ≠ 0 ∧ x ≠ 13 ∧ x ≠ 10) (hline : 0 ∉ line) :
    ∃ code out, Answers VERSION line code out ∧ ∀ s junk, Sized s →
      ∃ s', consoleRunCommand (gCommands VERSION) s (line ++ 0 :: junk) = some (code, s') ∧
        Prints s s' out := by
  refine ⟨_, _, outcome_answers (fun x hx => (hV x hx).2) line, fun s junk hs => ?_⟩
  exact consoleRunCommand_prints hs hlen (fun h0 => (hV 0 h0).1 rfl) hline junk

theorem consoleRunCommand_answers_version :
    ∃ code out, Answers (bytes "1.2.3") (bytes "Sys_fw_ver\r\n") code out ∧
      ∃ s', consoleRunCommand (gCommands (bytes "1.2.3")) .init (bytes "Sys_fw_ver\r\n" ++ [0, 7]) =
        some (code, s') ∧ Prints .init s' out := by
  have hV : (bytes "1.2.3").all (fun x => x ≠ 0 ∧ x ≠ 13 ∧ x ≠ 10) = true := by decide
  obtain ⟨code, out, hanswers, hrun⟩ := consoleRunCommand_answers
    (show (bytes "1.2.3").length < CMD_RESPONSE_MAX_LENGTH by decide) (by simpa using hV)
    (show 0 ∉ bytes "Sys_fw_ver\r\n" by decide)
  exact ⟨code, out, hanswers, hrun .init [7] sized_init⟩

end InfoWorkshop.Console
