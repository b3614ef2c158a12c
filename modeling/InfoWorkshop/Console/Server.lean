/-
`Console_NetConsoleMain` of `console/net_console.c`, one system call at a time: the listening socket, the
loop that accepts one client after the other, and for each client the loop of `Console_GetCommand`. What
the calls return is chosen by the environment. The log texts and the address in them are left out.

A `write` to a connection that the client has reset raises `SIGPIPE` on POSIX. Nothing in the program handles it,
so it ends the process there. The sockets of the ESP32 raise no signal.
-/
import InfoWorkshop.Console.NetConsole
import InfoWorkshop.Console.Socket
import InfoWorkshop.Lib.Frames
import InfoWorkshop.Lib.Steps

namespace InfoWorkshop.Console

open InfoWorkshop.Core InfoWorkshop.Memory InfoWorkshop.CString InfoWorkshop.Steps InfoWorkshop.Frames

def CONSOLE_PORT : Nat := 3333

def CONSOLE_KEEPALIVE_IDLE : Int := 5

def CONSOLE_KEEPALIVE_INTERVAL : Int := 5

def CONSOLE_KEEPALIVE_COUNT : Int := 3

/-- The options of `setsockopt`. -/
inductive SockOpt
  | reuseAddr
  | keepAlive
  | keepIdle
  | keepInterval
  | keepCount
  deriving DecidableEq, Repr

/-- The options of a client socket, in the order in which they are set. -/
def keepAliveOptions : List (SockOpt × Int) :=
  [(.keepAlive, 1), (.keepIdle, CONSOLE_KEEPALIVE_IDLE), (.keepInterval, CONSOLE_KEEPALIVE_INTERVAL),
    (.keepCount, CONSOLE_KEEPALIVE_COUNT)]

/-- A system call, the writes of a command apart: these go to the client that the command was read from. -/
inductive SysCall
  | socket
  | setsockopt (fd : Int) (option : SockOpt) (value : Int)
  | bind (fd : Int) (port : Nat)
  | listen (fd : Int) (backlog : Nat)
  | accept (fd : Int)
  | read (fd : Int) (size : Nat)
  | shutdown (fd : Int) (how : Int)
  | close (fd : Int)
  deriving DecidableEq, Repr

/-- The descriptor that the call is made on. -/
def SysCall.fd : SysCall → Option Int
  | .socket => none
  | .setsockopt fd _ _ | .bind fd _ | .listen fd _ | .accept fd | .read fd _ | .shutdown fd _ | .close fd => some fd

/-- A client: its socket, what was read from it and what was written to it. -/
structure Connection where
  fd : Int
  reads : List Bytes
  writes : List Write
  deriving DecidableEq, Repr

/-- Where the server is. In `keepAlive` the options that are still to be set, in `read` what the stack holds
for `cmd`; `killed` is the end of the process in a write to the client. -/
inductive ServerPc
  | socket
  | setReuse (server : Int)
  | bind (server : Int)
  | listen (server : Int)
  | accept (server : Int)
  | keepAlive (server : Int) (client : Connection) (options : List (SockOpt × Int))
  | read (server : Int) (client : Connection) (cmd : Bytes)
  | shutdown (server : Int) (client : Connection)
  | close (server : Int) (client : Connection)
  | failure (server : Int)
  | returned
  | killed (server : Int) (client : Connection)
  deriving DecidableEq, Repr

namespace ServerPc

/-- The next call. Without one `Console_GetCommand` is entered, or the server is at its end. -/
def call : ServerPc → Option SysCall
  | .socket => some .socket
  | .setReuse server => some (.setsockopt server .reuseAddr 1)
  | .bind server => some (.bind server CONSOLE_PORT)
  | .listen server => some (.listen server 1)
  | .accept server => some (.accept server)
  | .keepAlive _ client ((option, value) :: _) => some (.setsockopt client.fd option value)
  | .keepAlive _ _ [] => none
  | .read _ client _ => some (.read client.fd CMD_SIZE)
  | .shutdown _ client => some (.shutdown client.fd 0)
  | .close _ client => some (.close client.fd)
  | .failure server => some (.close server)
  | .returned | .killed _ _ => none

/-- The client that is being served. -/
def client : ServerPc → Option Connection
  | .keepAlive _ client _ | .read _ client _ | .shutdown _ client | .close _ client => some client
  | _ => none

/-- The client in a write to which the process has ended. -/
def cutOff : ServerPc → Option Connection
  | .killed _ client => some client
  | _ => none

/-- The descriptors that are still to be closed. -/
def held : ServerPc → List Int
  | .socket | .returned => []
  | .setReuse server | .bind server | .listen server | .accept server | .failure server => [server]
  | .keepAlive server client _ | .read server client _ | .shutdown server client | .close server client
  | .killed server client => [server, client.fd]

end ServerPc

/-- The server, with the static buffers of the console; the descriptors that it was given, that it closed
and that are open, and the clients that have left. -/
structure Server where
  pc : ServerPc
  console : State
  given : List Int
  closed : List Int
  opened : List Int
  finished : List Connection
  deriving DecidableEq, Repr

/-- What the environment decides: the result of a call, the bytes of a `read`, what the stack holds when
`Console_GetCommand` is entered, and that after the bytes of a `read` and `n` writes the next one raises
`SIGPIPE`. -/
inductive Reply
  | result (r : Int)
  | bytes (data : Bytes)
  | stack (junk : Bytes)
  | sigpipe (data : Bytes) (n : Nat)
  deriving DecidableEq, Repr

namespace Server

/-- `Console_NetConsoleMain` is called. -/
def boot (console : State) : Server := ⟨.socket, console, [], [], [], []⟩

/-- The process has ended in a write. -/
def killed (s : Server) : Bool := s.pc.cutOff.isSome

/-- All clients so far, but for the one in a write to which the process has ended. -/
def connections (s : Server) : List Connection := s.finished ++ s.pc.client.toList

/-- A new descriptor, which is none of the open ones. -/
def opening (s : Server) (fd : Int) (pc : ServerPc) : Option Server :=
  if fd ∈ s.opened then none
  else some { s with pc, given := s.given ++ [fd], opened := s.opened ++ [fd] }

/-- `close`, whose result is not looked at. -/
def closing (s : Server) (fd : Int) (pc : ServerPc) : Server :=
  { s with pc, closed := s.closed ++ [fd], opened := s.opened.erase fd }

/-- A call returns the number `r`. -/
def onResult (s : Server) (r : Int) : Option Server :=
  match s.pc with
  | .socket => if r < 0 then some { s with pc := .returned } else s.opening r (.setReuse r)
  | .setReuse server => some { s with pc := .bind server }
  | .bind server => some { s with pc := if r < 0 then .failure server else .listen server }
  | .listen server => some { s with pc := if r < 0 then .failure server else .accept server }
  | .accept server =>
    if r < 0 then some { s with pc := .failure server }
    else s.opening r (.keepAlive server ⟨r, [], []⟩ keepAliveOptions)
  | .keepAlive server client (_ :: options) => some { s with pc := .keepAlive server client options }
  | .read server client _ => if r > 0 then none else some { s with pc := .shutdown server client }
  | .shutdown server client => some { s with pc := .close server client }
  | .close server client =>
    some ({ s with finished := s.finished ++ [client] }.closing client.fd (.accept server))
  | .failure server => some (s.closing server .returned)
  | _ => none

/-- `read` returns bytes, and the loop of `Console_GetCommand` goes round; `none` also when a handler writes
past the response. -/
def onBytes (cmds : List ConsoleCmd) (s : Server) (data : Bytes) : Option Server :=
  match s.pc with
  | .read server client cmd =>
    if data ≠ [] ∧ data.length ≤ CMD_SIZE then
      let cmd := (memcpy cmd data data.length).set (data.length - 1) 0
      match consoleRunCommand cmds s.console cmd with
      | none => none
      | some (_, console) =>
        let writes := client.writes ++ writesSince s.console console
        some { s with
          console
          pc := .read server { client with reads := client.reads ++ [data], writes } (consoleParseCommand cmd).2 }
    else none
  | _ => none

/-- `read` returns bytes, and the process ends in the command, after `n` of its writes. -/
def onSigpipe (cmds : List ConsoleCmd) (s : Server) (data : Bytes) (n : Nat) : Option Server :=
  match s.pc with
  | .read server client cmd =>
    if data ≠ [] ∧ data.length ≤ CMD_SIZE then
      match consoleRunCommand cmds s.console ((memcpy cmd data data.length).set (data.length - 1) 0) with
      | none => none
      | some (_, console) =>
        -- what the command has written before is sent
        let out := (writesSince s.console console).take n
        if n < (writesSince s.console console).length then
          some { s with
            console := { s.console with writes := s.console.writes ++ out }
            pc := .killed server { client with reads := client.reads ++ [data], writes := client.writes ++ out } }
        else none
    else none
  | _ => none

/-- One step. -/
def step (cmds : List ConsoleCmd) (s : Server) : Reply → Option Server
  | .result r => s.onResult r
  | .bytes data => s.onBytes cmds data
  | .sigpipe data n => s.onSigpipe cmds data n
  | .stack junk =>
    match s.pc with
    | .keepAlive server client [] =>
      if junk.length = CMD_SIZE then some { s with pc := .read server client junk } else none
    | _ => none

/-! ## What a step can do -/

/-- The steps, each with what it finds and what it does. -/
inductive Step (cmds : List ConsoleCmd) (s : Server) : Reply → Server → Prop
  | noSocket {r : Int} : s.pc = .socket → r < 0 → Step cmds s (.result r) { s with pc := .returned }
  | socket {r : Int} : s.pc = .socket → 0 ≤ r → r ∉ s.opened →
      Step cmds s (.result r) { s with pc := .setReuse r, given := s.given ++ [r], opened := s.opened ++ [r] }
  | setReuse {r server : Int} : s.pc = .setReuse server → Step cmds s (.result r) { s with pc := .bind server }
  | bindFails {r server : Int} : s.pc = .bind server → r < 0 →
      Step cmds s (.result r) { s with pc := .failure server }
  | bind {r server : Int} : s.pc = .bind server → 0 ≤ r → Step cmds s (.result r) { s with pc := .listen server }
  | listenFails {r server : Int} : s.pc = .listen server → r < 0 →
      Step cmds s (.result r) { s with pc := .failure server }
  | listen {r server : Int} : s.pc = .listen server → 0 ≤ r →
      Step cmds s (.result r) { s with pc := .accept server }
  | acceptFails {r server : Int} : s.pc = .accept server → r < 0 →
      Step cmds s (.result r) { s with pc := .failure server }
  | accept {r server : Int} : s.pc = .accept server → 0 ≤ r → r ∉ s.opened →
      Step cmds s (.result r)
        { s with
          pc := .keepAlive server ⟨r, [], []⟩ keepAliveOptions
          given := s.given ++ [r], opened := s.opened ++ [r] }
  | keepAlive {r server : Int} {client : Connection} {option : SockOpt × Int} {options : List (SockOpt × Int)} :
      s.pc = .keepAlive server client (option :: options) →
      Step cmds s (.result r) { s with pc := .keepAlive server client options }
  | enter {server : Int} {client : Connection} {junk : Bytes} : s.pc = .keepAlive server client [] →
      junk.length = CMD_SIZE → Step cmds s (.stack junk) { s with pc := .read server client junk }
  | command {server : Int} {client : Connection} {cmd data : Bytes} {code : ErrorCode} {console : State} :
      s.pc = .read server client cmd → data ≠ [] → data.length ≤ CMD_SIZE →
      consoleRunCommand cmds s.console ((memcpy cmd data data.length).set (data.length - 1) 0) = some (code, console) →
      Step cmds s (.bytes data)
        { s with
          console
          pc := .read server
            { client with reads := client.reads ++ [data], writes := client.writes ++ writesSince s.console console }
            (consoleParseCommand ((memcpy cmd data data.length).set (data.length - 1) 0)).2 }
  | kill {server : Int} {client : Connection} {cmd data : Bytes} {n : Nat} {code : ErrorCode} {console : State} :
      s.pc = .read server client cmd → data ≠ [] → data.length ≤ CMD_SIZE →
      consoleRunCommand cmds s.console ((memcpy cmd data data.length).set (data.length - 1) 0) = some (code, console) →
      n < (writesSince s.console console).length →
      Step cmds s (.sigpipe data n)
        { s with
          console := { s.console with writes := s.console.writes ++ (writesSince s.console console).take n }
          pc := .killed server
            { client with
              reads := client.reads ++ [data]
              writes := client.writes ++ (writesSince s.console console).take n } }
  | leave {r server : Int} {client : Connection} {cmd : Bytes} : s.pc = .read server client cmd → r ≤ 0 →
      Step cmds s (.result r) { s with pc := .shutdown server client }
  | shutdown {r server : Int} {client : Connection} : s.pc = .shutdown server client →
      Step cmds s (.result r) { s with pc := .close server client }
  | close {r server : Int} {client : Connection} : s.pc = .close server client →
      Step cmds s (.result r) ({ s with finished := s.finished ++ [client] }.closing client.fd (.accept server))
  | failure {r server : Int} : s.pc = .failure server → Step cmds s (.result r) (s.closing server .returned)

theorem opening_some {s t : Server} {fd : Int} {pc : ServerPc} (h : s.opening fd pc = some t) :
    fd ∉ s.opened ∧ t = { s with pc, given := s.given ++ [fd], opened := s.opened ++ [fd] } := by
  unfold opening at h
  split at h
  · cases h
  · cases h
    exact ⟨by assumption, rfl⟩

theorem onResult_step {cmds : List ConsoleCmd} {s t : Server} {r : Int} (h : s.onResult r = some t) :
    Step cmds s (.result r) t := by
  unfold onResult at h
  split at h
  · split at h
    · cases h; exact .noSocket ‹_› ‹_›
    · obtain ⟨hnew, rfl⟩ := opening_some h
      exact .socket ‹_› (by omega) hnew
  · cases h; exact .setReuse ‹_›
  · cases h
    split
    · exact .bindFails ‹_› ‹_›
    · exact .bind ‹_› (by omega)
  · cases h
    split
    · exact .listenFails ‹_› ‹_›
    · exact .listen ‹_› (by omega)
  · split at h
    · cases h; exact .acceptFails ‹_› ‹_›
    · obtain ⟨hnew, rfl⟩ := opening_some h
      exact .accept ‹_› (by omega) hnew
  · cases h; exact .keepAlive ‹_›
  · split at h
    · cases h
    · cases h; exact .leave ‹_› (by omega)
  · cases h; exact .shutdown ‹_›
  · cases h; exact .close ‹_›
  · cases h; exact .failure ‹_›
  · cases h

theorem step_cases {cmds : List ConsoleCmd} {s t : Server} {reply : Reply} (h : s.step cmds reply = some t) :
    Step cmds s reply t := by
  cases reply with
  | result r => exact onResult_step h
  | bytes data =>
    simp only [step, onBytes] at h
    split at h
    · split at h
      · rename_i hdata
        split at h
        · cases h
        · cases h; exact .command ‹_› hdata.1 hdata.2 ‹_›
      · cases h
    · cases h
  | sigpipe data n =>
    simp only [step, onSigpipe] at h
    split at h
    · split at h
      · rename_i hdata
        split at h
        · cases h
        · split at h
          · cases h; exact .kill ‹_› hdata.1 hdata.2 ‹_› ‹_›
          · cases h
      · cases h
    · cases h
  | stack junk =>
    simp only [step] at h
    split at h
    · split at h
      · cases h; exact .enter ‹_› ‹_›
      · cases h
    · cases h

/-- Nothing else ends the process in a write. -/
theorem Step.killed {cmds : List ConsoleCmd} {s t : Server} {reply : Reply} (h : Step cmds s reply t)
    (hkilled : t.killed = true) : ∃ data n, reply = .sigpipe data n := by
  cases h with
  | kill => exact ⟨_, _, rfl⟩
  | _ => cases hkilled

/-! ## Descriptors -/

/-- The descriptors that are open are those that are still to be closed, and each one that was given is open
or was closed. -/
structure Ledger (s : Server) : Prop where
  held : s.opened = s.pc.held
  apart : s.opened.Nodup
  account : s.given.Perm (s.closed ++ s.opened)

theorem ledger_boot (console : State) : (boot console).Ledger := ⟨rfl, List.nodup_nil, .nil⟩

/-- A step that opens and closes nothing. -/
theorem Ledger.same {s t : Server} (h : s.Ledger) (hopened : t.opened = s.opened) (hheld : t.pc.held = s.pc.held)
    (hgiven : t.given = s.given) (hclosed : t.closed = s.closed) : t.Ledger := by
  refine ⟨?_, ?_, ?_⟩
  · rw [hopened, hheld, h.held]
  · rw [hopened]
    exact h.apart
  · rw [hgiven, hclosed, hopened]
    exact h.account

theorem Ledger.opens {s t : Server} {fd : Int} (h : s.Ledger) (hnew : fd ∉ s.opened)
    (hopened : t.opened = s.opened ++ [fd]) (hheld : t.pc.held = s.pc.held ++ [fd])
    (hgiven : t.given = s.given ++ [fd]) (hclosed : t.closed = s.closed) : t.Ledger := by
  refine ⟨?_, ?_, ?_⟩
  · rw [hopened, hheld, h.held]
  · rw [hopened]
    refine List.nodup_append.2 ⟨h.apart, by simp, fun a ha b hb hab => hnew ?_⟩
    rw [← List.mem_singleton.1 hb, ← hab]
    exact ha
  · rw [hgiven, hclosed, hopened, ← List.append_assoc]
    exact h.account.append_right [fd]

theorem Ledger.closes {s : Server} {fd : Int} (h : s.Ledger) {pc : ServerPc} (hheld : s.pc.held = pc.held ++ [fd]) :
    (s.closing fd pc).Ledger := by
  have hopened : s.opened = pc.held ++ [fd] := h.held.trans hheld
  have hapart : (pc.held ++ [fd]).Nodup := hopened ▸ h.apart
  have hnot : fd ∉ pc.held := fun hmem => (List.nodup_append.1 hapart).2.2 fd hmem fd (by simp) rfl
  have herase : s.opened.erase fd = pc.held := by
    rw [hopened, List.erase_append_right _ hnot, List.erase_cons_head, List.append_nil]
  refine ⟨herase, ?_, ?_⟩
  · show (s.opened.erase fd).Nodup
    exact h.apart.erase fd
  · show s.given.Perm (s.closed ++ [fd] ++ s.opened.erase fd)
    rw [herase, List.append_assoc]
    exact h.account.trans ((hopened ▸ List.perm_append_comm).append_left s.closed)

theorem Ledger.step {cmds : List ConsoleCmd} {s t : Server} {reply : Reply} (h : s.Ledger)
    (hs : Step cmds s reply t) : t.Ledger := by
  cases hs with
  | socket hpc _ hnew => exact h.opens hnew rfl (by rw [hpc]; rfl) rfl rfl
  | accept hpc _ hnew => exact h.opens hnew rfl (by rw [hpc]; rfl) rfl rfl
  | @close r server client hpc =>
    have hfinished : ({ s with finished := s.finished ++ [client] } : Server).Ledger := h.same rfl rfl rfl rfl
    exact hfinished.closes (show s.pc.held = _ by rw [hpc]; rfl)
  | failure hpc => exact h.closes (by rw [hpc]; rfl)
  | _ hpc => exact h.same rfl (by rw [hpc]; rfl) rfl rfl

/-- What the server does with its descriptors: the next call is made on an open one, and so are the writes to a
client; it has two at most, and it closes each one as often as it is given it, all but the listening socket
before the next `accept`, and that one before it returns. -/
structure Balanced (s : Server) : Prop where
  onOpen : ∀ call ∈ s.pc.call, ∀ fd ∈ call.fd, fd ∈ s.opened
  writesOpen : ∀ client ∈ s.pc.client, client.fd ∈ s.opened
  few : s.opened.Nodup ∧ s.opened.length ≤ 2
  account : ∀ fd, s.given.count fd = s.closed.count fd + s.opened.count fd
  atAccept : ∀ server, s.pc = .accept server → s.opened = [server]
  atReturn : s.pc = .returned → s.opened = []

theorem fd_mem_held {pc : ServerPc} {call : SysCall} {fd : Int} (hcall : call ∈ pc.call) (hfd : fd ∈ call.fd) :
    fd ∈ pc.held := by
  cases pc with
  | keepAlive server client options =>
    cases options with
    | nil => cases hcall
    | cons option options => cases hcall; cases hfd; simp [ServerPc.held]
  | socket => cases hcall; cases hfd
  | returned | killed => cases hcall
  | _ => cases hcall; cases hfd; simp [ServerPc.held]

theorem client_mem_held {pc : ServerPc} {client : Connection} (h : client ∈ pc.client) : client.fd ∈ pc.held := by
  cases pc with
  | keepAlive | read | shutdown | close => cases h; simp [ServerPc.held]
  | _ => cases h

theorem length_held (pc : ServerPc) : pc.held.length ≤ 2 := by
  cases pc <;> simp [ServerPc.held]

theorem Ledger.balanced {s : Server} (h : s.Ledger) : s.Balanced where
  onOpen := fun call hcall fd hfd => h.held ▸ fd_mem_held hcall hfd
  writesOpen := fun client hclient => h.held ▸ client_mem_held hclient
  few := ⟨h.apart, h.held ▸ length_held s.pc⟩
  account := fun fd => by rw [h.account.count_eq, List.count_append]
  atAccept := fun server hpc => by rw [h.held, hpc]; rfl
  atReturn := fun hpc => by rw [h.held, hpc]; rfl

/-- Whatever the system calls return, the server uses open descriptors and leaks none; those of a process that
ends in a write are left to the system. -/
theorem descriptors_balanced (cmds : List ConsoleCmd) (console : State) (replies : List Reply) :
    Always (step cmds) Balanced (boot console) replies :=
  always_of_meets (I := Ledger) (C := fun _ _ => True) (fun _ h => h.balanced)
    (fun _ _ _ h _ hs => h.step (step_cases hs)) (ledger_boot console) (meets_true _ _)

end Server

end InfoWorkshop.Console
