/-
What the clients of `Console_NetConsoleMain` receive: every read is answered, each client by the answers to
its own reads alone, and a client that cuts what arrives at the line terminators gets one answer after the
other, whatever the segments of the stream are and wherever it breaks off.
-/
import InfoWorkshop.Console.Server

namespace InfoWorkshop.Console

open InfoWorkshop.Core InfoWorkshop.Memory InfoWorkshop.CString InfoWorkshop.Steps InfoWorkshop.Frames
  InfoWorkshop.Terminator

/-! ## The line in a read -/

/-- The bytes of a read that are interpreted: all but the last one, up to a NUL. -/
def lineOf (r : Bytes) : Bytes := r.dropLast.takeWhile (· ≠ 0)

/-- The answer to a read. -/
def answerTo (VERSION r : Bytes) : Bytes := (outcome (lineOf r)).text VERSION

theorem lineOf_string (r : Bytes) : 0 ∉ lineOf r := fun h => by
  have hne := List.mem_takeWhile_imp h
  simp at hne

theorem line_in_buffer (cmd : Bytes) {r : Bytes} (hr : r ≠ []) :
    ∃ junk, (memcpy cmd r r.length).set (r.length - 1) 0 = lineOf r ++ 0 :: junk := by
  rw [memcpy_set hr]
  have hsplit := List.takeWhile_append_dropWhile (p := fun x : UInt8 => decide (x ≠ 0)) (l := r.dropLast)
  rcases hrest : r.dropLast.dropWhile (fun x : UInt8 => decide (x ≠ 0)) with _ | ⟨x, rest⟩
  · rw [hrest, List.append_nil] at hsplit
    exact ⟨_, by rw [lineOf, hsplit]⟩
  · have hx : x = 0 := by
      have hhead := List.head?_dropWhile_not (fun x : UInt8 => decide (x ≠ 0)) r.dropLast
      rw [hrest] at hhead
      simpa using hhead
    rw [hrest, hx] at hsplit
    refine ⟨rest ++ 0 :: cmd.drop r.length, ?_⟩
    rw [← hsplit, List.append_assoc]
    rfl

theorem parseArgs_length : ∀ (n : Nat) (buf : Bytes) (ptr : Nat), (parseArgs n buf ptr).2.length = buf.length
  | 0, _, _ => rfl
  | n + 1, buf, ptr => by
    have htok := strtokR_length buf none [CMD_ARGS_SEPARATOR] ptr
    unfold parseArgs
    rcases h : strtokR buf none [CMD_ARGS_SEPARATOR] ptr with ⟨_ | arg, buf', ptr'⟩
    · rw [h] at htok
      exact htok
    · rw [h] at htok
      exact (parseArgs_length n buf' ptr').trans htok

/-- The parser cuts up the line in place. -/
theorem consoleParseCommand_length (cmdLine : Bytes) : (consoleParseCommand cmdLine).2.length = cmdLine.length := by
  have hline := strtokR_length cmdLine (some 0) NEWLINE 0
  unfold consoleParseCommand
  rcases hl : strtokR cmdLine (some 0) NEWLINE 0 with ⟨line, buf, ptr⟩
  have hname := strtokR_length buf line (bytes "=") ptr
  rw [hl] at hline
  rcases hn : strtokR buf line (bytes "=") ptr with ⟨_ | name, buf', ptr'⟩
  · rw [hn] at hname
    simp only [hn]
    exact hname.trans hline
  · rw [hn] at hname
    simp only [hn]
    exact (parseArgs_length _ _ _).trans (hname.trans hline)

/-- A read that fits the buffer leaves its length. -/
theorem read_length {cmd data : Bytes} (hcmd : cmd.length = CMD_SIZE) (hdata : data.length ≤ CMD_SIZE) :
    ((memcpy cmd data data.length).set (data.length - 1) 0).length = CMD_SIZE := by
  unfold memcpy
  rw [List.length_set, List.length_append, List.take_length, List.length_drop]
  omega

/-! ## The clients -/

/-- What is written to a client is the answers to its reads, from inside the buffers. -/
structure Connection.Answered (VERSION : Bytes) (c : Connection) : Prop where
  answers : intended c.writes = c.reads.flatMap (answerTo VERSION)
  inBounds : ∀ x ∈ c.writes, x.InBounds

/-- One more read is answered. -/
theorem Connection.Answered.command {VERSION : Bytes} {c : Connection} (h : c.Answered VERSION) {s s' : State}
    {data : Bytes} (hprints : Prints s s' (answerTo VERSION data)) :
    Connection.Answered VERSION
      { c with reads := c.reads ++ [data], writes := c.writes ++ writesSince s s' } := by
  obtain ⟨-, hout, hin⟩ := hprints.since
  constructor
  · have hanswers : intended c.writes = c.reads.flatMap (answerTo VERSION) := h.answers
    simp only [intended] at hanswers hout ⊢
    rw [List.flatMap_append, hanswers, hout, List.flatMap_append, List.flatMap_singleton]
  · intro x hx
    rcases List.mem_append.1 hx with hx | hx
    · exact h.inBounds x hx
    · exact hin x hx

/-- What is written to a client in whose last answer the process has ended: the answers to its other reads, and the
beginning of this one. -/
structure Connection.CutOff (VERSION : Bytes) (c : Connection) : Prop where
  answers : ∃ reads data part, c.reads = reads ++ [data] ∧ part <+: answerTo VERSION data ∧
    intended c.writes = reads.flatMap (answerTo VERSION) ++ part
  inBounds : ∀ x ∈ c.writes, x.InBounds

/-- The process ends after `n` writes of an answer. -/
theorem Connection.Answered.kill {VERSION : Bytes} {c : Connection} (h : c.Answered VERSION) {s s' : State}
    {data : Bytes} (hprints : Prints s s' (answerTo VERSION data)) (n : Nat) :
    Connection.CutOff VERSION
      { c with reads := c.reads ++ [data], writes := c.writes ++ (writesSince s s').take n } := by
  obtain ⟨-, hout, hin⟩ := hprints.since
  refine ⟨⟨c.reads, data, intended ((writesSince s s').take n), rfl, ?_, ?_⟩, fun x hx => ?_⟩
  · rw [← hout, ← List.take_append_drop n (writesSince s s'), intended, intended, List.flatMap_append,
      List.take_append_drop]
    exact List.prefix_append _ _
  · show intended (c.writes ++ (writesSince s s').take n) = _
    rw [← h.answers, intended, intended, intended, List.flatMap_append]
  · rcases List.mem_append.1 hx with hx | hx
    · exact h.inBounds x hx
    · exact hin x (List.mem_of_mem_take hx)

/-- All that was written to the client is a beginning of its answers. -/
theorem Connection.CutOff.part {VERSION : Bytes} {c : Connection} (h : c.CutOff VERSION) :
    intended c.writes <+: c.reads.flatMap (answerTo VERSION) := by
  obtain ⟨reads, data, part, hreads, hpart, hwrites⟩ := h.answers
  rw [hreads, hwrites, List.flatMap_append, List.flatMap_singleton]
  exact (List.prefix_append_right_inj _).2 hpart

namespace Server

/-- What the environment may reply, the end of the process in a write apart. -/
def Offered (s : Server) : Reply → Prop
  | .result r =>
    match s.pc with
    | .socket | .accept _ => r < 0 ∨ r ∉ s.opened
    | .keepAlive _ _ options => options ≠ []
    | .read _ _ _ => r ≤ 0
    | .returned | .killed _ _ => False
    | _ => True
  | .bytes data =>
    match s.pc with
    | .read _ _ _ => data ≠ [] ∧ data.length ≤ CMD_SIZE
    | _ => False
  | .stack junk =>
    match s.pc with
    | .keepAlive _ _ [] => junk.length = CMD_SIZE
    | _ => False
  | .sigpipe _ _ => False

/-- Every client so far was answered read by read, but for the end of an answer in which the process has ended;
nothing else was written since the server was called with the buffers `console`, and whatever the environment
replies the server can go on. -/
structure Answers (VERSION : Bytes) (console : State) (s : Server) : Prop where
  clients : ∀ c ∈ s.connections, c.Answered VERSION
  cutOff : ∀ c ∈ s.pc.cutOff, c.CutOff VERSION
  nothingElse : s.console.writes = console.writes ++ (s.connections ++ s.pc.cutOff.toList).flatMap Connection.writes
  goesOn : ∀ reply, s.Offered reply → (s.step (gCommands VERSION) reply).isSome = true

section Steps

variable {VERSION : Bytes} {console : State}

/-- The invariant: the static buffers keep their sizes and `cmd` its own. -/
structure Serves (VERSION : Bytes) (console : State) (s : Server) : Prop where
  clients : ∀ c ∈ s.connections, c.Answered VERSION
  cutOff : ∀ c ∈ s.pc.cutOff, c.CutOff VERSION
  nothingElse : s.console.writes = console.writes ++ (s.connections ++ s.pc.cutOff.toList).flatMap Connection.writes
  sized : Sized s.console
  cmd : ∀ server client cmd, s.pc = .read server client cmd → cmd.length = CMD_SIZE

theorem serves_boot (hs : Sized console) : Serves VERSION console (boot console) where
  clients := fun c hc => absurd hc List.not_mem_nil
  cutOff := fun c hc => by cases hc
  nothingElse := (List.append_nil _).symm
  sized := hs
  cmd := fun _ _ _ h => by cases h

/-- What the server does with a read. -/
theorem command_spec (hlen : VERSION.length < CMD_RESPONSE_MAX_LENGTH) (hV : 0 ∉ VERSION) {s : State} (hs : Sized s)
    (cmd : Bytes) {data : Bytes} (hdata : data ≠ []) :
    ∃ code s', consoleRunCommand (gCommands VERSION) s ((memcpy cmd data data.length).set (data.length - 1) 0) =
      some (code, s') ∧ Prints s s' (answerTo VERSION data) := by
  obtain ⟨junk, hbuf⟩ := line_in_buffer cmd hdata
  obtain ⟨s', hrun, hprints⟩ := consoleRunCommand_prints hs hlen hV (lineOf_string data) junk
  exact ⟨_, s', by rw [hbuf, hrun], hprints⟩

theorem Serves.goesOn (h : Serves VERSION console s) (hlen : VERSION.length < CMD_RESPONSE_MAX_LENGTH)
    (hV : 0 ∉ VERSION) {reply : Reply} (hreply : s.Offered reply) :
    (s.step (gCommands VERSION) reply).isSome = true := by
  cases reply with
  | result r =>
    simp only [Offered] at hreply
    simp only [step, onResult]
    cases hpc : s.pc with
    | socket | accept =>
      rw [hpc] at hreply
      dsimp only at hreply ⊢
      split
      · rfl
      · -- the descriptor is none of the open ones
        rw [opening, if_neg (hreply.resolve_left ‹_›)]
        rfl
    | keepAlive server client options =>
      rw [hpc] at hreply
      cases options with
      | nil => exact absurd rfl hreply
      | cons option options => rfl
    | read =>
      rw [hpc] at hreply
      dsimp only at hreply ⊢
      rw [if_neg (Int.not_lt.2 hreply)]
      rfl
    | returned | killed => rw [hpc] at hreply; exact hreply.elim
    | _ => rfl
  | bytes data =>
    simp only [Offered] at hreply
    cases hpc : s.pc with
    | read server client cmd =>
      rw [hpc] at hreply
      -- no handler writes past the response
      obtain ⟨code, s', hrun, -⟩ := command_spec hlen hV h.sized cmd hreply.1
      simp only [step, onBytes, hpc, if_pos hreply, hrun]
      rfl
    | _ => rw [hpc] at hreply; exact hreply.elim
  | stack junk =>
    simp only [Offered] at hreply
    split at hreply
    · rename_i hpc
      simp only [step, hpc, if_pos hreply]
      rfl
    · exact hreply.elim
  | sigpipe => exact hreply.elim

/-- A step that keeps the clients and the buffers. -/
theorem Serves.same {s t : Server} (h : Serves VERSION console s) (hc : t.connections = s.connections)
    (hcut : t.pc.cutOff = s.pc.cutOff) (hconsole : t.console = s.console)
    (hcmd : ∀ server client cmd, t.pc = .read server client cmd → cmd.length = CMD_SIZE) :
    Serves VERSION console t where
  clients := hc ▸ h.clients
  cutOff := hcut ▸ h.cutOff
  nothingElse := by rw [hconsole, hc, hcut, h.nothingElse]
  sized := hconsole ▸ h.sized
  cmd := hcmd

/-- A new client. -/
theorem Serves.accept {s t : Server} (h : Serves VERSION console s) {fd : Int}
    (hc : t.connections = s.connections ++ [⟨fd, [], []⟩]) (hcut : t.pc.cutOff = none)
    (hcut' : s.pc.cutOff = none) (hconsole : t.console = s.console)
    (hcmd : ∀ server client cmd, t.pc = .read server client cmd → cmd.length = CMD_SIZE) :
    Serves VERSION console t where
  clients := fun c hmem => by
    rw [hc] at hmem
    rcases List.mem_append.1 hmem with hmem | hmem
    · exact h.clients c hmem
    · rw [List.mem_singleton.1 hmem]
      exact ⟨rfl, fun x hx => absurd hx List.not_mem_nil⟩
  cutOff := fun c hmem => by rw [hcut] at hmem; cases hmem
  nothingElse := by
    rw [hconsole, hc, hcut, h.nothingElse, hcut']
    simp
  sized := hconsole ▸ h.sized
  cmd := hcmd

theorem Serves.nothing_read (h : Serves VERSION console s) {server : Int} {client : Connection} {cmd : Bytes}
    (hpc : s.pc = .read server client cmd) :
    s.console.writes = console.writes ++ (s.finished.flatMap Connection.writes ++ client.writes) := by
  rw [h.nothingElse, connections, hpc]
  simp [ServerPc.client, ServerPc.cutOff]

/-- The client at whose read the server is gets its answer. -/
theorem Serves.command {s : Server} (h : Serves VERSION console s) {server : Int} {client : Connection}
    {cmd cmd' data : Bytes} {s' : State} (hpc : s.pc = .read server client cmd) (hcmd : cmd'.length = CMD_SIZE)
    (hprints : Prints s.console s' (answerTo VERSION data)) :
    Serves VERSION console { s with
      console := s'
      pc := .read server
        { client with
          reads := client.reads ++ [data]
          writes := client.writes ++ writesSince s.console s' } cmd' } := by
  have hbefore : s.connections = s.finished ++ [client] := by rw [connections, hpc]; rfl
  have hmem : client ∈ s.connections := by simp [hbefore]
  obtain ⟨hwrites, -, -⟩ := hprints.since
  have hnothing := h.nothing_read hpc
  refine ⟨fun c hc => ?_, fun c hc => (by cases hc), ?_, hprints.sized h.sized, fun _ _ _ hread => ?_⟩
  · rcases List.mem_append.1 hc with hc | hc
    · exact h.clients c (by rw [hbefore]; exact List.mem_append_left _ hc)
    · rw [List.mem_singleton.1 hc]
      exact (h.clients client hmem).command hprints
  · show s'.writes = console.writes ++ (s.finished ++ [_] ++ []).flatMap Connection.writes
    rw [List.append_nil, List.flatMap_append, List.flatMap_singleton, hwrites, hnothing]
    simp only [List.append_assoc]
  · cases hread
    exact hcmd

/-- The process ends in the answer to the client at whose read the server is. -/
theorem Serves.kill {s : Server} (h : Serves VERSION console s) {server : Int} {client : Connection}
    {cmd data : Bytes} {n : Nat} {s' : State} (hpc : s.pc = .read server client cmd)
    (hprints : Prints s.console s' (answerTo VERSION data)) :
    Serves VERSION console { s with
      console := { s.console with writes := s.console.writes ++ (writesSince s.console s').take n }
      pc := .killed server
        { client with
          reads := client.reads ++ [data]
          writes := client.writes ++ (writesSince s.console s').take n } } := by
  have hbefore : s.connections = s.finished ++ [client] := by rw [connections, hpc]; rfl
  refine ⟨fun c hc => ?_, fun c hc => ?_, ?_, ⟨h.sized.response, h.sized.buffer⟩, fun _ _ _ hread => by cases hread⟩
  · refine h.clients c ?_
    rw [hbefore]
    exact List.mem_append_left _ ((List.append_nil s.finished) ▸ hc)
  · cases hc
    exact (h.clients client (by simp [hbefore])).kill hprints n
  · show s.console.writes ++ _ = console.writes ++ ((s.finished ++ []) ++ [_]).flatMap Connection.writes
    rw [List.append_nil, List.flatMap_append, List.flatMap_singleton, h.nothing_read hpc]
    simp only [List.append_assoc]

theorem Serves.step (hlen : VERSION.length < CMD_RESPONSE_MAX_LENGTH) (hV : 0 ∉ VERSION) {s t : Server} {reply : Reply}
    (h : Serves VERSION console s) (hs : Step (gCommands VERSION) s reply t) : Serves VERSION console t := by
  cases hs with
  | @accept r server hpc =>
    have hbefore : s.connections = s.finished := by
      rw [connections, hpc]
      exact List.append_nil _
    refine h.accept (show _ = s.connections ++ [⟨r, [], []⟩] from ?_) rfl (by rw [hpc]; rfl) rfl
      fun _ _ _ hread => by cases hread
    rw [hbefore]
    rfl
  | enter hpc hjunk =>
    refine h.same (by rw [connections, connections, hpc]; rfl) (by rw [hpc]; rfl) rfl fun _ _ _ hread => ?_
    cases hread
    exact hjunk
  | command hpc hdata hfit hrun =>
    obtain ⟨code, s', hrun', hprints⟩ := command_spec hlen hV h.sized _ hdata
    rw [hrun] at hrun'
    cases hrun'
    refine h.command hpc ?_ hprints
    rw [consoleParseCommand_length, read_length (h.cmd _ _ _ hpc) hfit]
  | kill hpc hdata _ hrun =>
    obtain ⟨code, s', hrun', hprints⟩ := command_spec hlen hV h.sized _ hdata
    rw [hrun] at hrun'
    cases hrun'
    exact h.kill hpc hprints
  | close hpc =>
    refine h.same ?_ (by rw [hpc]; rfl) rfl fun _ _ _ hread => by cases hread
    rw [connections, connections, hpc]
    exact List.append_nil _
  | _ hpc =>
    exact h.same (by rw [connections, connections, hpc]; rfl) (by rw [hpc]; rfl) rfl
      fun _ _ _ hread => by cases hread

end Steps

/-- In every run, whatever the clients before have sent and left in the static buffers, and whatever the stack
holds: each client is answered read by read, by the answers to what it has sent, and the server goes on after each
of them, unless a write ends the process. -/
theorem clients_answered (VERSION : Bytes) (hlen : VERSION.length < CMD_RESPONSE_MAX_LENGTH) (hV : 0 ∉ VERSION)
    (console : State) (hs : Sized console) (replies : List Reply) :
    Always (step (gCommands VERSION)) (Answers VERSION console) (boot console) replies := by
  refine always_of_meets (I := Serves VERSION console) (C := fun _ _ => True) (fun s h => ?_)
    (fun _ _ _ h _ hstep => h.step hlen hV (step_cases hstep)) (serves_boot hs) (meets_true _ _)
  exact ⟨h.clients, h.cutOff, h.nothingElse, fun _ hreply => h.goesOn hlen hV hreply⟩

/-- The first client asks for the version and leaves, the second one sends a line of its own and resets its connection
before it has read the answer to the next one. -/
def twoClients : List Reply :=
  [.result 3, .result 0, .result 0, .result 0] ++
    ([.result 4, .result 0, .result 0, .result 0, .result (-1), .stack (List.replicate CMD_SIZE 7),
      .bytes (bytes "SYS_FW_VER\r\n"), .result 0, .result 0, .result 0] ++
    [.result 4, .result 0, .result 0, .result 0, .result 0, .stack (List.replicate CMD_SIZE 7), .bytes (bytes "x\n"),
      .sigpipe (bytes "HELP\n") 2])

theorem clients_answered_two :
    Always (step (gCommands (bytes "1.0"))) (Answers (bytes "1.0") .init) (boot .init) twoClients :=
  clients_answered (bytes "1.0") (by decide) (by decide) .init sized_init twoClients

/-- The reads of one client are a run of `consoleGetCommand`. -/
theorem reads_consoleGetCommand {cmds : List ConsoleCmd} {reads : List Bytes} : ∀ {s t : Server} {server : Int}
    {client : Connection} {cmd : Bytes}, s.pc = .read server client cmd →
    exec (step cmds) s (reads.map .bytes) = some t →
    ∃ calls, consoleGetCommand cmds s.console cmd reads = some (calls, t.console) := by
  induction reads with
  | nil =>
    intro s t server client cmd _ h
    cases h
    exact ⟨[], rfl⟩
  | cons r reads ih =>
    intro s t server client cmd hpc h
    obtain ⟨u, hu, ht⟩ := exec_cons_some h
    cases step_cases hu with
    | command hpc' hr hfit hrun =>
      rw [hpc] at hpc'
      cases hpc'
      obtain ⟨calls, hcalls⟩ := ih rfl ht
      refine ⟨(memcpy cmd r r.length).set (r.length - 1) 0 :: calls, ?_⟩
      simp only [consoleGetCommand, if_pos (List.length_pos_iff.2 hr), hrun, hcalls]

/-! ## What a client reads -/

/-- A client that cuts what arrives at the line terminators. -/
def clientReads (chunks : List Bytes) : Reader UInt8 :=
  chunks.foldl (Reader.feed CMD_RESPONSE_LINE_TERMINATOR) .init

/-- When every write is accepted whole, the response arrives. -/
theorem delivered_whole (ws : List Write) : delivered ws (ws.map fun x => (x.length : Int)) = intended ws := by
  induction ws with
  | nil => rfl
  | cons x ws ih =>
    have hfirst : x.accepted x.length = x.bytes := rfl
    unfold delivered intended at ih ⊢
    rw [List.map_cons, List.zip_cons_cons, List.flatMap_cons, List.flatMap_cons, ih, hfirst]

/-- For every client in every run: when the connection is lost at some write, or the process ends in one, the frames
that the client has are the answers to its first reads, in their order and none twice; otherwise they are all of
them. The segments in which the bytes arrive do not matter. -/
theorem client_reads_answers (VERSION : Bytes) (hlen : VERSION.length < CMD_RESPONSE_MAX_LENGTH)
    (hV : ∀ x ∈ VERSION, x ≠ 0 ∧ x ≠ 13) (console : State) (hs : Sized console) (replies : List Reply)
    (s : Server) (hrun : exec (step (gCommands VERSION)) (boot console) replies = some s) (c : Connection)
    (hc : c ∈ s.connections ∨ c ∈ s.pc.cutOff) (rs : List Int) (hrs : ∀ p ∈ c.writes.zip rs, p.1.MayReturn p.2)
    (hshort : EndsShort c.writes rs) (chunks : List Bytes) (hchunks : chunks.flatten = delivered c.writes rs) :
    (clientReads chunks).frames <+: c.reads.map (answerTo VERSION) ∧
      (c ∈ s.connections → (rs = c.writes.map fun x => (x.length : Int)) →
        clientReads chunks = ⟨c.reads.map (answerTo VERSION), []⟩) := by
  have h0 : 0 ∉ VERSION := fun hmem => (hV 0 hmem).1 rfl
  have hserves : Serves VERSION console s :=
    exec_invariant (fun _ _ _ h hstep => h.step hlen h0 (step_cases hstep)) hrun (serves_boot hs)
  have hbeginning : intended c.writes <+: c.reads.flatMap (answerTo VERSION) ∧ ∀ x ∈ c.writes, x.InBounds := by
    rcases hc with hc | hc
    · have hanswered := hserves.clients c hc
      exact ⟨hanswered.answers ▸ List.prefix_rfl, hanswered.inBounds⟩
    · have hcut := hserves.cutOff c hc
      exact ⟨hcut.part, hcut.inBounds⟩
  obtain ⟨hanswers, hin⟩ := hbeginning
  rw [List.flatMap_def] at hanswers
  -- every answer ends in the only terminator it has
  have hframes : ∀ l ∈ c.reads.map (answerTo VERSION), EndsOnce CMD_RESPONSE_LINE_TERMINATOR l := by
    intro l hl
    obtain ⟨r, -, rfl⟩ := List.mem_map.1 hl
    exact text_endsOnce (fun hmem => (hV 13 hmem).2 rfl) (lineOf r)
  have hpart : delivered c.writes rs <+: intended c.writes :=
    delivered_part hrs ((nothingLater_iff hin hrs).2 hshort)
  have hterm : CMD_RESPONSE_LINE_TERMINATOR ≠ [] := by decide
  unfold clientReads
  rw [Reader.feed_flatten, hchunks]
  constructor
  · exact Reader.feed_brokenOff hterm hframes (hpart.trans hanswers)
  · intro hmem hall
    have hwhole : delivered c.writes rs = (c.reads.map (answerTo VERSION)).flatten := by
      rw [hall, delivered_whole, (hserves.clients c hmem).answers, List.flatMap_def]
    rw [hwhole]
    exact Reader.feed_texts hterm hframes []

/-- The connection of the first client is lost in the middle of its answer. -/
theorem client_reads_answers_lost :
    ∃ s c, exec (step (gCommands (bytes "1.0"))) (boot .init) twoClients = some s ∧ c ∈ s.connections ∧
      c.reads = [bytes "SYS_FW_VER\r\n"] ∧
      (clientReads [delivered c.writes [10, 4]]).frames <+: c.reads.map (answerTo (bytes "1.0")) := by
  have hcheck : ∃ s ∈ exec (step (gCommands (bytes "1.0"))) (boot .init) twoClients, ∃ c ∈ s.connections,
      c.reads = [bytes "SYS_FW_VER\r\n"] ∧ (∀ p ∈ c.writes.zip [10, 4], p.1.MayReturn p.2) ∧
        EndsShort c.writes [10, 4] := by decide +kernel
  obtain ⟨s, hs, c, hc, hreads, hrs, hshort⟩ := hcheck
  exact ⟨s, c, hs, hc, hreads, (client_reads_answers (bytes "1.0") (by decide) (by decide +kernel) .init sized_init
    twoClients s hs c (.inl hc) [10, 4] hrs hshort [delivered c.writes [10, 4]] (by simp)).1⟩

end Server

end InfoWorkshop.Console
