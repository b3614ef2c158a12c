/-
Whose result `Console_RunCommand` reports: it returns `SUCCESS` whatever its handler returns, and sends
what the static response buffer holds when the handler is done. `Reflects` compares two runs that differ
in what was left in the buffer before.
-/
import InfoWorkshop.Console.Output
import InfoWorkshop.Lib.Steps

namespace InfoWorkshop.Console

open InfoWorkshop.Core InfoWorkshop.Memory InfoWorkshop.CString InfoWorkshop.Steps

/-- A command line is run, whichever client it is from. -/
def step (cmds : List ConsoleCmd) (s : State) (cmdLine : Bytes) : Option State :=
  (consoleRunCommand cmds s cmdLine).map Prod.snd

/-- The result of a command line, and the texts printed after its handler. -/
def sent (cmds : List ConsoleCmd) (s : State) (cmdLine : Bytes) : Option (ErrorCode × List Bytes) :=
  ((dispatch cmds cmdLine).answer s).map fun (code, a) => (code, a.pieces)

/-- What was in the response buffer before is replaced. -/
def State.withResponse (s : State) (old : Bytes) : State := { s with responseBuffer := old }

/-- If the line reaches a handler, the result is that of the handler: `SUCCESS` is its own, and what is
sent would be the same, had the commands before left something else in the response buffer. -/
structure Reflects (cmds : List ConsoleCmd) (s : State) (cmdLine : Bytes) : Prop where
  success : ∀ cmd name args s', dispatch cmds cmdLine = .call cmd name args →
    consoleRunCommand cmds s cmdLine = some (.success, s') →
    ∃ s₁, cmd.handler s args.length args = some (.success, s₁)
  own : ∀ cmd name args old, dispatch cmds cmdLine = .call cmd name args →
    old.length = s.responseBuffer.length → sent cmds (s.withResponse old) cmdLine = sent cmds s cmdLine

/-- The handler writes its response: what it leaves is a text of its own, whatever was there before. -/
def ConsoleCmd.WritesResponse (cmd : ConsoleCmd) (s : State) (args : List Bytes) : Prop :=
  ∃ text, ∀ old, old.length = s.responseBuffer.length →
    ∃ e s', cmd.handler (s.withResponse old) args.length args = some (e, s') ∧ cstr s'.responseBuffer 0 = text

/-- If the line reaches a handler, the handler returns `SUCCESS` and writes its response. -/
def Answered (cmds : List ConsoleCmd) (s : State) (cmdLine : Bytes) : Prop :=
  ∀ cmd name args, dispatch cmds cmdLine = .call cmd name args →
    (∃ s', cmd.handler s args.length args = some (.success, s')) ∧ cmd.WritesResponse s args

/-! ## One command -/

/-- The printed texts tell the response. -/
theorem pieces_inj {s s' : State} {name : Bytes} {args : List Bytes} {r r' : Bytes} :
    (⟨s, name, args, r⟩ : Answer).pieces = (⟨s', name, args, r'⟩ : Answer).pieces ↔ r = r' := by
  unfold Answer.pieces
  simp

/-- What a line that reaches a handler sends, by what the handler does. -/
theorem sent_of_call {cmds : List ConsoleCmd} {s : State} {cmdLine name : Bytes} {args : List Bytes}
    {cmd : ConsoleCmd} (hd : dispatch cmds cmdLine = .call cmd name args) :
    sent cmds s cmdLine = (cmd.handler s args.length args).map fun (_, s') =>
      (.success, (⟨s', name, args, cstr s'.responseBuffer 0⟩ : Answer).pieces) := by
  unfold sent
  rw [hd, Dispatch.answer]
  rcases cmd.handler s args.length args with _ | ⟨e, s'⟩ <;> rfl

theorem step_of_call {cmds : List ConsoleCmd} {s t : State} {cmdLine name : Bytes} {args : List Bytes}
    {cmd : ConsoleCmd} (hd : dispatch cmds cmdLine = .call cmd name args) (h : step cmds s cmdLine = some t) :
    consoleRunCommand cmds s cmdLine = some (.success, t) ∧ ∃ e s', cmd.handler s args.length args = some (e, s') := by
  unfold step at h
  rw [consoleRunCommand_eq, hd, Dispatch.answer] at h ⊢
  rcases hh : cmd.handler s args.length args with _ | ⟨e, s'⟩
  · simp [hh] at h
  · simp only [hh, Option.map_some, Option.some.injEq] at h ⊢
    exact ⟨by rw [h], e, s', rfl⟩

/-- The result of a command is its handler's exactly when the handler succeeds and writes its response. -/
theorem reflects_iff_answered {cmds : List ConsoleCmd} {s t : State} {cmdLine : Bytes}
    (h : step cmds s cmdLine = some t) : Reflects cmds s cmdLine ↔ Answered cmds s cmdLine := by
  constructor
  · intro hr cmd name args hd
    obtain ⟨hrun, e, s₁, hh⟩ := step_of_call hd h
    refine ⟨hr.success cmd name args t hd hrun, cstr s₁.responseBuffer 0, fun old hold => ?_⟩
    have hown := hr.own cmd name args old hd hold
    rw [sent_of_call hd, sent_of_call hd, hh, Option.map_some] at hown
    obtain ⟨⟨e', s₂⟩, hh', he⟩ := Option.map_eq_some_iff.1 hown
    exact ⟨e', s₂, hh', pieces_inj.1 (congrArg Prod.snd he)⟩
  · intro ha
    refine ⟨fun cmd name args s' hd _ => (ha cmd name args hd).1, fun cmd name args old hd hold => ?_⟩
    obtain ⟨text, hwrites⟩ := (ha cmd name args hd).2
    obtain ⟨e, s₁, hh, htext⟩ := hwrites s.responseBuffer rfl
    obtain ⟨e', s₂, hh', htext'⟩ := hwrites old hold
    have hsame : s.withResponse s.responseBuffer = s := rfl
    rw [hsame] at hh
    rw [sent_of_call hd, sent_of_call hd, hh, hh', Option.map_some, Option.map_some]
    exact congrArg some (Prod.ext rfl (pieces_inj.2 (htext'.trans htext.symm)))

/-! ## Runs -/

/-- In a run of commands of any clients the results are those of the handlers exactly when every handler
that is called returns `SUCCESS` and writes its response. -/
theorem run_reflects_iff (cmds : List ConsoleCmd) (s : State) (lines : List Bytes) :
    Meets (step cmds) (Reflects cmds) s lines ↔ Meets (step cmds) (Answered cmds) s lines :=
  meets_congr (I := fun _ => True) (fun _ _ _ _ _ => trivial) (fun _ _ _ _ h => reflects_iff_answered h)
    trivial lines

/-- A handler that fails without a word. -/
def silentFailure : ConsoleCmd := ⟨bytes "BAD", 0, fun s _ _ => some (.failure, s), bytes "fails"⟩

/-- After a `HELP`, its answer is sent for the command that failed, with `SUCCESS` for both. -/
theorem stale_response_sent :
    ¬ Meets (step (silentFailure :: gCommands (bytes "1.0")))
      (Reflects (silentFailure :: gCommands (bytes "1.0"))) .init [bytes "HELP" ++ [0], bytes "BAD" ++ [0]] := by
  obtain ⟨t, ht⟩ := Option.isSome_iff_exists.1
    (show (exec (step (silentFailure :: gCommands (bytes "1.0"))) .init [bytes "HELP" ++ [0]]).isSome = true by decide)
  have hd : dispatch (silentFailure :: gCommands (bytes "1.0")) (bytes "BAD" ++ [0]) =
      .call silentFailure (bytes "BAD") [] := rfl
  have hrun : consoleRunCommand (silentFailure :: gCommands (bytes "1.0")) t (bytes "BAD" ++ [0]) =
      some (.success, (⟨t, bytes "BAD", [], cstr t.responseBuffer 0⟩ : Answer).serialize) := by
    rw [consoleRunCommand_eq, hd]
    rfl
  intro h
  have hlast : Meets (step (silentFailure :: gCommands (bytes "1.0")))
      (Reflects (silentFailure :: gCommands (bytes "1.0"))) .init ([bytes "HELP" ++ [0]] ++ [bytes "BAD" ++ [0]]) := h
  have hreflects := meets_last hlast ht (congrArg (Option.map Prod.snd) hrun)
  obtain ⟨s₁, hh⟩ := hreflects.success _ _ _ _ hd hrun
  exact absurd hh (by simp [silentFailure])

/-! ## The commands of the source -/

theorem Sized.withResponse {s : State} (hs : Sized s) {old : Bytes} (hold : old.length = s.responseBuffer.length) :
    Sized (s.withResponse old) := ⟨hold.trans hs.response, hs.buffer⟩

/-- Both handlers of the table succeed and write their responses. -/
theorem gCommands_answered {VERSION : Bytes} (hlen : VERSION.length < CMD_RESPONSE_MAX_LENGTH) (hV : 0 ∉ VERSION)
    {s : State} (hs : Sized s) (cmdLine : Bytes) : Answered (gCommands VERSION) s cmdLine := by
  intro cmd name args hd
  have hmem := mem_of_call hd
  simp only [gCommands, List.mem_cons, List.not_mem_nil, or_false] at hmem
  rcases hmem with rfl | rfl
  · obtain ⟨s', hrun, -, -⟩ := consoleCmdHelp_prints hs args.length args name
    refine ⟨⟨s', hrun⟩, CMD_RESPONSE_SUCCESS, fun old hold => ?_⟩
    obtain ⟨s₂, hrun₂, -, htext⟩ := consoleCmdHelp_prints (hs.withResponse hold) args.length args name
    exact ⟨.success, s₂, hrun₂, htext⟩
  · obtain ⟨s', hrun, -, -⟩ := consoleCmdFwVer_prints hs hlen hV args.length args
    refine ⟨⟨s', hrun⟩, VERSION, fun old hold => ?_⟩
    obtain ⟨s₂, hrun₂, -, htext⟩ := consoleCmdFwVer_prints (hs.withResponse hold) hlen hV args.length args
    exact ⟨.success, s₂, hrun₂, htext⟩

theorem gCommands_keepsSizes (VERSION : Bytes) : ∀ cmd ∈ gCommands VERSION, cmd.KeepsSizes := by
  intro cmd hcmd s n args e s' hs h
  obtain ⟨out, hprints⟩ := gCommands_prints hcmd hs h
  exact hprints.sized hs

theorem Answer.serialize_sized {a : Answer} (h : Sized a.state) : Sized a.serialize := by
  rw [a.serialize_eq]
  refine List.foldlRecOn a.pieces consolePrintf h fun s hs text _ => ?_
  rw [consolePrintf_eq]
  exact ⟨hs.response, (stored_eq hs.buffer text).choose_spec.2⟩

/-- The static buffers keep their sizes when the handlers keep them. -/
theorem step_sized {cmds : List ConsoleCmd} (hk : ∀ cmd ∈ cmds, cmd.KeepsSizes) {s t : State} {cmdLine : Bytes}
    (hs : Sized s) (h : step cmds s cmdLine = some t) : Sized t := by
  unfold step at h
  rw [consoleRunCommand_eq] at h
  rcases hd : dispatch cmds cmdLine with text | ⟨cmd, name, args⟩
  · rw [hd] at h
    cases h
    exact Answer.serialize_sized hs
  · rw [hd, Dispatch.answer] at h
    rcases hh : cmd.handler s args.length args with _ | ⟨e, s'⟩
    · simp [hh] at h
    · simp only [hh, Option.map_some, Option.some.injEq] at h
      rw [← h]
      exact Answer.serialize_sized (hk cmd (mem_of_call hd) s args.length args e s' hs hh)

/-- With the command table of the source every result is the handler's own, in every run. -/
theorem gCommands_reflects {VERSION : Bytes} (hlen : VERSION.length < CMD_RESPONSE_MAX_LENGTH) (hV : 0 ∉ VERSION)
    {s : State} (hs : Sized s) (lines : List Bytes) :
    Meets (step (gCommands VERSION)) (Reflects (gCommands VERSION)) s lines := by
  refine meets_of_rest (I := fun s _ => Sized s) (fun s line _ t hs h => ?_) (fun s line _ t hs h => ?_) hs
  · exact (reflects_iff_answered h).2 (gCommands_answered hlen hV hs line)
  · exact step_sized (gCommands_keepsSizes VERSION) hs h

end InfoWorkshop.Console
