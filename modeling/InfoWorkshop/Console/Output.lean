/-
What `Console_Printf` passes to `writeFunction`: the length of the formatted text, of which the static
buffer holds 255 bytes at most.
-/
import InfoWorkshop.Console.Dispatch

namespace InfoWorkshop.Console

open InfoWorkshop.Core InfoWorkshop.Memory InfoWorkshop.CString

/-- The write stays among the bytes of the text that are stored in the buffer, and is a part of the text
from its beginning. -/
structure Write.Faithful (text : Bytes) (x : Write) : Prop where
  stored : x.length ≤ min text.length 255
  inBounds : x.InBounds
  prefixOf : x.bytes <+: text

/-- `Console_Printf` of the text writes bytes of the text alone. -/
def PrintsFaithfully (s : State) (text : Bytes) : Prop :=
  ∃ ws, (consolePrintf s text).writes = s.writes ++ ws ∧ ∀ x ∈ ws, x.Faithful text

/-- So does each call of `Console_Printf` for the texts, one after the other. -/
def AllFaithful : State → List Bytes → Prop
  | _, [] => True
  | s, text :: texts => PrintsFaithfully s text ∧ AllFaithful (consolePrintf s text) texts

/-- The arguments of a response with what stands before each, from index `i` on. -/
def argPieces : Nat → List Bytes → List Bytes
  | _, [] => []
  | i, arg :: args => ((if i = 0 then 95 else CMD_ARGS_SEPARATOR) :: arg) :: argPieces (i + 1) args

/-- The texts that `Console_SerializeResponse` prints. -/
def Answer.pieces (a : Answer) : List Bytes :=
  a.cmd :: argPieces 0 a.args ++ [bytes ":" ++ a.response ++ CMD_RESPONSE_LINE_TERMINATOR]

theorem serializeArgs_eq : ∀ (args : List Bytes) (s : State) (i : Nat),
    serializeArgs s i args = (argPieces i args).foldl consolePrintf s
  | [], _, _ => rfl
  | arg :: args, s, i => by
    rw [serializeArgs, argPieces, List.foldl_cons]
    exact serializeArgs_eq args _ (i + 1)

/-- `Console_SerializeResponse` prints its pieces. -/
theorem Answer.serialize_eq (a : Answer) : a.serialize = a.pieces.foldl consolePrintf a.state := by
  have hargs := serializeArgs_eq a.args (consolePrintf a.state a.cmd) 0
  simp only [Answer.serialize, consoleSerializeResponse, Answer.pieces, hargs, List.cons_append, List.foldl_cons,
    List.foldl_append, List.foldl_nil]

/-! ## One text -/

/-- The write of a text is faithful when the buffer holds all of it, and passes the stored bytes
otherwise. -/
theorem faithful_iff {s : State} (hs : s.buffer.length = 256) (text : Bytes) :
    (⟨text.length, stored s text⟩ : Write).Faithful text ↔ text.length ≤ 255 := by
  constructor
  · intro h
    have hle : text.length ≤ min text.length 255 := h.stored
    omega
  · intro h
    obtain ⟨hin, hbytes⟩ := stored_fits hs h
    exact ⟨Nat.le_min.2 ⟨Nat.le_refl _, h⟩, hin, ⟨[], by rw [hbytes, List.append_nil]⟩⟩

theorem printsFaithfully_iff {s : State} (hs : s.buffer.length = 256) (text : Bytes) :
    PrintsFaithfully s text ↔ text.length ≤ 255 := by
  rw [← faithful_iff hs text]
  unfold PrintsFaithfully
  rw [consolePrintf_eq]
  constructor
  · rintro ⟨ws, hws, hall⟩
    obtain rfl := List.append_cancel_left hws
    by_cases hnil : text = []
    · subst hnil
      exact (faithful_iff hs []).2 (Nat.zero_le _)
    · exact hall _ (by rw [if_neg hnil]; exact List.mem_singleton_self _)
  · intro h
    refine ⟨_, rfl, fun x hx => ?_⟩
    split at hx
    · cases hx
    · rw [List.mem_singleton.1 hx]
      exact h

/-! ## The pieces of a response -/

theorem allFaithful_iff : ∀ {texts : List Bytes} {s : State}, s.buffer.length = 256 →
    (AllFaithful s texts ↔ ∀ text ∈ texts, text.length ≤ 255)
  | [], _, _ => iff_of_true trivial fun _ h => absurd h List.not_mem_nil
  | text :: texts, s, hs => by
    have hs' : (consolePrintf s text).buffer.length = 256 := by
      rw [consolePrintf_eq]
      exact (stored_eq hs text).choose_spec.2
    rw [AllFaithful, printsFaithfully_iff hs, allFaithful_iff hs', List.forall_mem_cons]

theorem argPieces_iff : ∀ {args : List Bytes} (i : Nat),
    (∀ text ∈ argPieces i args, text.length ≤ 255) ↔ ∀ arg ∈ args, arg.length ≤ 254
  | [], _ => iff_of_true (fun _ h => absurd h List.not_mem_nil) fun _ h => absurd h List.not_mem_nil
  | arg :: args, i => by
    rw [argPieces, List.forall_mem_cons, List.forall_mem_cons, argPieces_iff (i + 1), List.length_cons]
    exact and_congr_left' (by omega)

/-- The handler keeps the sizes of the static buffers. -/
def ConsoleCmd.KeepsSizes (cmd : ConsoleCmd) : Prop :=
  ∀ s n args e s', Sized s → cmd.handler s n args = some (e, s') → Sized s'

/-- The response always fits: it is at most what the response buffer holds. -/
theorem pieces_iff {a : Answer} (hresponse : a.response.length ≤ CMD_RESPONSE_MAX_LENGTH) :
    (∀ text ∈ a.pieces, text.length ≤ 255) ↔ a.cmd.length ≤ 255 ∧ ∀ arg ∈ a.args, arg.length ≤ 254 := by
  have hlast : (bytes ":" ++ a.response ++ CMD_RESPONSE_LINE_TERMINATOR).length ≤ 255 := by
    have hcolon : (bytes ":").length = 1 := rfl
    have hterm : CMD_RESPONSE_LINE_TERMINATOR.length = 6 := rfl
    unfold CMD_RESPONSE_MAX_LENGTH at hresponse
    simp only [List.length_append, hcolon, hterm]
    omega
  unfold Answer.pieces
  rw [List.forall_mem_append, List.forall_mem_cons, argPieces_iff]
  constructor
  · rintro ⟨h, -⟩
    exact h
  · intro h
    refine ⟨h, fun text htext => ?_⟩
    rw [List.mem_singleton.1 htext]
    exact hlast

/-- A handler that answers with a text. -/
theorem respond_sized {s s' : State} {text : Bytes} (h : respond s text = some s') (hs : Sized s) : Sized s' := by
  unfold respond strcpy at h
  split at h
  · cases h
  · rename_i buf hbuf
    split at hbuf
    · cases h
      cases hbuf
      refine ⟨?_, hs.buffer⟩
      have hresponse := hs.response
      simp only [List.length_append, List.length_cons, List.length_drop]
      omega
    · cases hbuf

theorem cstr_length_le (buf : Bytes) : (cstr buf 0).length ≤ buf.length := by
  unfold cstr
  exact (List.takeWhile_sublist _).length_le

theorem respond_prints {s s' : State} {text : Bytes} (h : respond s text = some s') : Prints s s' [] := by
  refine ⟨respond_sized h, [], ?_, rfl, fun x hx => absurd hx List.not_mem_nil⟩
  unfold respond at h
  split at h
  · cases h
  · cases h
    rw [List.append_nil]

/-- The handlers of the source write from inside the buffers, whatever the version. -/
theorem gCommands_prints {VERSION : Bytes} {cmd : ConsoleCmd} (hcmd : cmd ∈ gCommands VERSION) {s s' : State}
    (hs : Sized s) {n : Nat} {args : List Bytes} {e : ErrorCode} (h : cmd.handler s n args = some (e, s')) :
    ∃ out, Prints s s' out := by
  simp only [gCommands, List.mem_cons, List.not_mem_nil, or_false] at hcmd
  rcases hcmd with rfl | rfl
  · obtain ⟨t, hrun, hprints, -⟩ := consoleCmdHelp_prints hs n args []
    cases hrun.symm.trans h
    exact ⟨_, hprints⟩
  · simp only [consoleCmdFwVer] at h
    split at h
    · cases h
    · rename_i t ht
      cases h
      exact ⟨_, respond_prints ht⟩

/-- Pieces that fit the buffer are written one after the other. -/
theorem Answer.serialize_prints {a : Answer} (hs : Sized a.state) (h : ∀ text ∈ a.pieces, text.length ≤ 255) :
    Prints a.state a.serialize a.pieces.flatten := by
  have hprints := foldl_prints id hs fun text htext => Nat.lt_succ_of_le (h text htext)
  rw [a.serialize_eq, ← List.flatMap_id]
  exact hprints

/-- `Console_Printf` writes bytes of its text alone exactly when the text has at most 255 bytes. The pieces
of the response to a line are written so exactly when the line reaches no handler, or its name and
arguments are short enough. -/
theorem printf_faithful_iff (cmds : List ConsoleCmd) (hk : ∀ cmd ∈ cmds, cmd.KeepsSizes) (s : State)
    (hs : Sized s) :
    (∀ text, PrintsFaithfully s text ↔ text.length ≤ 255) ∧
    ∀ (line junk : Bytes) (code : ErrorCode) (a : Answer), 0 ∉ line →
      (dispatch cmds (line ++ 0 :: junk)).answer s = some (code, a) →
      consoleRunCommand cmds s (line ++ 0 :: junk) = some (code, a.pieces.foldl consolePrintf a.state) ∧
      (AllFaithful a.state a.pieces ↔ ∀ name args cmd, Reaches cmds line name args cmd →
        name.length ≤ 255 ∧ ∀ arg ∈ args.take CMD_ARGS_MAX_LENGTH, arg.length ≤ 254) := by
  refine ⟨fun text => printsFaithfully_iff hs.buffer text, ?_⟩
  intro line junk code a h0 ha
  refine ⟨by rw [consoleRunCommand_eq, ha, ← a.serialize_eq]; rfl, ?_⟩
  rcases dispatch_cases cmds h0 junk with ⟨⟨text, htext, hd⟩, hno⟩ | ⟨name, args, cmd, hr, hd⟩
  · rw [hd] at ha
    cases ha
    have hlen : text.length ≤ 255 := (show ∀ t ∈ refusals, t.length ≤ 255 by decide) text htext
    have hpieces := pieces_iff (a := ⟨s, text, [], CMD_RESPONSE_FAILURE⟩)
      (show CMD_RESPONSE_FAILURE.length ≤ CMD_RESPONSE_MAX_LENGTH by decide)
    rw [allFaithful_iff hs.buffer, hpieces]
    exact iff_of_true ⟨hlen, fun _ h => absurd h List.not_mem_nil⟩ fun name args cmd h => absurd h (hno name args cmd)
  · rw [hd] at ha
    simp only [Dispatch.answer] at ha
    split at ha
    · cases ha
    · rename_i e s' hhandler
      cases ha
      have hmem : cmd ∈ cmds := List.mem_of_find?_eq_some hr.entry
      have hs' := hk cmd hmem s _ _ e s' hs hhandler
      have hresponse : (cstr s'.responseBuffer 0).length ≤ CMD_RESPONSE_MAX_LENGTH := by
        rw [← hs'.response]
        exact cstr_length_le s'.responseBuffer
      rw [allFaithful_iff hs'.buffer, pieces_iff hresponse]
      constructor
      · intro h name' args' cmd' hr'
        have hc := hr.command.symm.trans hr'.command
        simp only [Option.some.injEq, Prod.mk.injEq] at hc
        obtain ⟨rfl, rfl⟩ := hc
        exact h
      · intro h
        exact h name args cmd hr

/-- A command with one argument. -/
def echo : ConsoleCmd :=
  ⟨bytes "ECHO", 1, fun s _ _ => (respond s CMD_RESPONSE_SUCCESS).map (ErrorCode.success, ·), bytes "echo"⟩

theorem echo_keepsSizes : ∀ cmd ∈ [echo], cmd.KeepsSizes := by
  intro cmd hcmd s n args e s' hs h
  rw [List.mem_singleton.1 hcmd] at h
  obtain ⟨t, ht, he⟩ := Option.map_eq_some_iff.1 h
  cases he
  exact respond_sized ht hs

theorem printf_faithful_iff_echo :
    PrintsFaithfully .init (bytes "hello") ∧ ∃ (code : ErrorCode) (a : Answer),
      consoleRunCommand [echo] .init (bytes "echo=hello\r" ++ 0 :: [7]) =
        some (code, a.pieces.foldl consolePrintf a.state) ∧ AllFaithful a.state a.pieces := by
  obtain ⟨htext, hline⟩ := printf_faithful_iff [echo] echo_keepsSizes .init sized_init
  refine ⟨(htext (bytes "hello")).2 (by decide), ?_⟩
  obtain ⟨⟨code, a⟩, ha⟩ := Option.isSome_iff_exists.1
    (show ((dispatch [echo] (bytes "echo=hello\r" ++ 0 :: [7])).answer .init).isSome = true by decide)
  obtain ⟨hrun, hiff⟩ := hline (bytes "echo=hello\r") [7] code a (by decide) ha
  refine ⟨code, a, hrun, hiff.2 fun name args cmd hr => ?_⟩
  have hc : command (bytes "echo=hello\r") = some (bytes "echo", [bytes "hello"]) := by decide
  rw [hr.command, Option.some.injEq, Prod.mk.injEq] at hc
  obtain ⟨rfl, rfl⟩ := hc
  decide

/-- A text of 256 bytes is written with a length that the buffer does not have of it; so is the argument of
a line of 305 bytes. -/
theorem long_text_leaves_buffer :
    ¬ PrintsFaithfully .init (List.replicate 256 97) ∧ ∃ code a,
      (dispatch [echo] ((bytes "ECHO=" ++ List.replicate 300 97) ++ 0 :: [])).answer .init = some (code, a) ∧
        ¬ AllFaithful a.state a.pieces := by
  refine ⟨?_, ?_⟩
  · rw [printsFaithfully_iff sized_init.buffer, List.length_replicate]
    decide
  · obtain ⟨⟨code, a⟩, ha⟩ := Option.isSome_iff_exists.1
      (show ((dispatch [echo] ((bytes "ECHO=" ++ List.replicate 300 97) ++ 0 :: [])).answer .init).isSome = true by
        decide +kernel)
    have hargs : ((dispatch [echo] ((bytes "ECHO=" ++ List.replicate 300 97) ++ 0 :: [])).answer .init).map
        (fun x => (x.2.args, x.2.state.buffer.length)) = some ([List.replicate 300 97], 256) := by decide +kernel
    rw [ha, Option.map_some, Option.some.injEq, Prod.mk.injEq] at hargs
    refine ⟨code, a, ha, ?_⟩
    rw [allFaithful_iff hargs.2]
    intro hall
    have hmem : (95 :: List.replicate 300 97) ∈ argPieces 0 a.args := by
      rw [show a.args = [List.replicate 300 97] from hargs.1]
      exact List.mem_singleton_self _
    have hlen := hall _ (List.mem_append_left _ (List.mem_cons_of_mem _ hmem))
    rw [List.length_cons, List.length_replicate] at hlen
    omega

end InfoWorkshop.Console
