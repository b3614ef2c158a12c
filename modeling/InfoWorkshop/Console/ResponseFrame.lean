/-
What a response frame says of its request: the name, the arguments and the response in it can be read back
as long as the bytes that `Console_SerializeResponse` puts between them do not stand for themselves.
-/
import InfoWorkshop.Console.Socket
import InfoWorkshop.Lib.Separators

namespace InfoWorkshop.Console

open InfoWorkshop.Core InfoWorkshop.Memory InfoWorkshop.CString InfoWorkshop.Separators

/-! ## Requests and frames -/

/-- A command line that is accepted, with a name in the table and the number of arguments that is expected. -/
structure Request (cmds : List ConsoleCmd) where
  line : Bytes
  junk : Bytes
  cmd : ConsoleCmd
  name : Bytes
  args : List Bytes
  string : 0 ∉ line
  accepted : dispatch cmds (line ++ 0 :: junk) = .call cmd name args

/-- The bytes that `Console_SerializeResponse` writes for the request, from the state `s`. -/
def Request.frame {cmds : List ConsoleCmd} (q : Request cmds) (s : State) (response : Bytes) : Bytes :=
  intended (writesSince s (consoleSerializeResponse s q.name q.args response))

/-- No piece of the frame is truncated. -/
def Request.Fits {cmds : List ConsoleCmd} (q : Request cmds) (response : Bytes) : Prop :=
  ∀ text ∈ (⟨.init, q.name, q.args, response⟩ : Answer).pieces, text.length ≤ 255

instance {cmds : List ConsoleCmd} (q : Request cmds) (response : Bytes) : Decidable (q.Fits response) :=
  inferInstanceAs (Decidable (∀ text ∈ _, _))

/-- A colon occurs in the name or in an argument. -/
def HasColon (name : Bytes) (args : List Bytes) : Prop := 58 ∈ name ∨ ∃ arg ∈ args, 58 ∈ arg

instance (name : Bytes) (args : List Bytes) : Decidable (HasColon name args) :=
  inferInstanceAs (Decidable (_ ∨ _))

/-- The second name goes on where the arguments of the first may begin. -/
def Continues (name : Bytes) (args : List Bytes) (name' : Bytes) : Prop := args ≠ [] ∧ name ++ [95] <+: name'

instance (name : Bytes) (args : List Bytes) (name' : Bytes) : Decidable (Continues name args name') :=
  inferInstanceAs (Decidable (_ ∧ _))

/-! ## The text of a frame -/

/-- What stands before the colon. -/
def header (name : Bytes) (args : List Bytes) : Bytes := name ++ (argPieces 0 args).flatten

theorem argPieces_flatten (i : Nat) (args : List Bytes) :
    (argPieces (i + 1) args).flatten = args.flatMap fun arg => CMD_ARGS_SEPARATOR :: arg := by
  induction args generalizing i with
  | nil => rfl
  | cons arg args ih =>
    rw [argPieces, List.flatten_cons, ih, List.flatMap_cons, if_neg (Nat.succ_ne_zero i)]

theorem header_nil (name : Bytes) : header name [] = name := List.append_nil name

theorem header_cons (name arg : Bytes) (args : List Bytes) :
    header name (arg :: args) = name ++ 95 :: (arg ++ args.flatMap fun arg => CMD_ARGS_SEPARATOR :: arg) := by
  unfold header
  rw [argPieces, List.flatten_cons, argPieces_flatten, if_pos rfl]
  rfl

theorem pieces_flatten (a : Answer) : a.pieces.flatten =
    header a.cmd a.args ++ 58 :: (a.response ++ CMD_RESPONSE_LINE_TERMINATOR) := by
  have hcolon : bytes ":" = [58] := by decide
  unfold Answer.pieces header
  rw [hcolon]
  simp

theorem Request.frame_eq {cmds : List ConsoleCmd} (q : Request cmds) {s : State} (hs : Sized s) {response : Bytes}
    (h : q.Fits response) :
    q.frame s response = header q.name q.args ++ 58 :: (response ++ CMD_RESPONSE_LINE_TERMINATOR) := by
  have hprints := (⟨s, q.name, q.args, response⟩ : Answer).serialize_prints hs h
  unfold Request.frame
  exact hprints.since.2.1.trans (pieces_flatten _)

/-! ## Reading it back -/

/-- A colon before the one of the frame is in the name or in an argument. -/
theorem hasColon_of_mem {name : Bytes} {args : List Bytes} (h : 58 ∈ header name args) : HasColon name args := by
  cases args with
  | nil => exact .inl (header_nil name ▸ h)
  | cons arg args =>
    rw [header_cons] at h
    simp only [List.mem_append, List.mem_cons, List.mem_flatMap] at h
    rcases h with h | h | h | ⟨arg', harg', h | h⟩
    · exact .inl h
    · exact absurd h (by decide)
    · exact .inr ⟨arg, List.mem_cons_self, h⟩
    · exact absurd h (by decide)
    · exact .inr ⟨arg', List.mem_cons_of_mem _ harg', h⟩

/-- A header that goes on behind another name belongs to a name that does so. -/
theorem header_name {name name' : Bytes} {args args' : List Bytes} (hno : ¬ Continues name args name')
    (hno' : ¬ Continues name' args' name) (h : header name args = header name' args') : name = name' := by
  have hcut : ∀ {a b : Bytes} {as bs : List Bytes} {m : Bytes}, ¬ Continues a as b → header a as = header b bs →
      b = a ++ m → m = [] := by
    rintro a _ as bs m hno h rfl
    rcases m with _ | ⟨c, m⟩
    · rfl
    · refine absurd ?_ hno
      cases as with
      | nil =>
        have hlen := congrArg List.length h
        rw [header_nil, header] at hlen
        simp only [List.length_append, List.length_cons] at hlen
        omega
      | cons arg as =>
        rw [header_cons, header, List.append_assoc] at h
        have hc : (95 : UInt8) = c := (List.cons.inj (List.append_cancel_left h)).1
        rw [← hc]
        exact ⟨List.cons_ne_nil _ _, m, by simp⟩
  have hall : name ++ (argPieces 0 args).flatten = name' ++ (argPieces 0 args').flatten := h
  rcases List.append_eq_append_iff.1 hall with ⟨m, hm, -⟩ | ⟨m, hm, -⟩
  · rw [hm, hcut hno h hm, List.append_nil]
  · rw [hm, hcut hno' h.symm hm, List.append_nil]

theorem header_args {name : Bytes} {args args' : List Bytes} (ha : ∀ arg ∈ args, CMD_ARGS_SEPARATOR ∉ arg)
    (ha' : ∀ arg ∈ args', CMD_ARGS_SEPARATOR ∉ arg) (h : header name args = header name args') : args = args' := by
  cases args with
  | nil =>
    cases args' with
    | nil => rfl
    | cons arg' args' =>
      rw [header_nil, header_cons] at h
      simp at h
  | cons arg args =>
    cases args' with
    | nil =>
      rw [header_nil, header_cons] at h
      simp at h
    | cons arg' args' =>
      rw [header_cons, header_cons] at h
      have htail := (List.cons.inj (List.append_cancel_left h)).2
      -- behind the first argument every argument has a separator before it
      apply flatMap_cons_inj ha ha'
      rw [List.flatMap_cons, List.flatMap_cons, List.cons_append, List.cons_append, htail]

/-- The three parts of a frame, read back. -/
theorem frameText_inj {name name' r r' : Bytes} {args args' : List Bytes}
    (ha : ∀ arg ∈ args, CMD_ARGS_SEPARATOR ∉ arg) (ha' : ∀ arg ∈ args', CMD_ARGS_SEPARATOR ∉ arg)
    (hcolon : HasColon name args → 58 ∉ r') (hcolon' : HasColon name' args' → 58 ∉ r)
    (hname : ¬ Continues name args name') (hname' : ¬ Continues name' args' name)
    (h : header name args ++ 58 :: (r ++ CMD_RESPONSE_LINE_TERMINATOR) =
      header name' args' ++ 58 :: (r' ++ CMD_RESPONSE_LINE_TERMINATOR)) : name = name' ∧ args = args' ∧ r = r' := by
  -- a colon in one header would be in the response of the other frame
  have hbehind : ∀ {n n' x y : Bytes} {as as' : List Bytes} {m : Bytes}, (HasColon n' as' → 58 ∉ x) →
      header n' as' = header n as ++ 58 :: m → x ++ CMD_RESPONSE_LINE_TERMINATOR =
        m ++ 58 :: (y ++ CMD_RESPONSE_LINE_TERMINATOR) → False := by
    intro n n' x y as as' m hc hheader hrest
    have hx : x = m ++ 58 :: y := by
      rw [← List.cons_append, ← List.append_assoc] at hrest
      exact List.append_cancel_right hrest
    apply hc (hasColon_of_mem _)
    · rw [hx]
      exact List.mem_append_right m List.mem_cons_self
    · rw [hheader]
      exact List.mem_append_right _ List.mem_cons_self
  rcases append_cons_cases h with ⟨hheader, hrest⟩ | ⟨m, hheader, hrest⟩ | ⟨m, hheader, hrest⟩
  · have hn := header_name hname hname' hheader
    subst hn
    exact ⟨rfl, header_args ha ha' hheader, List.append_cancel_right hrest⟩
  · exact (hbehind hcolon' hheader hrest).elim
  · exact (hbehind hcolon hheader hrest).elim

/-- What the parser makes of the line of a request. -/
theorem Request.reaches {cmds : List ConsoleCmd} (q : Request cmds) :
    ∃ words, Reaches cmds q.line q.name words q.cmd ∧ q.args = words.take CMD_ARGS_MAX_LENGTH := by
  rcases dispatch_cases cmds q.string q.junk with ⟨⟨text, -, hd⟩, -⟩ | ⟨name, words, cmd, hr, hd⟩
  · rw [q.accepted] at hd
    cases hd
  · rw [q.accepted, Dispatch.call.injEq] at hd
    obtain ⟨rfl, rfl, hargs⟩ := hd
    exact ⟨words, hr, hargs⟩

/-- An argument holds no separator. -/
theorem Request.args_separator {cmds : List ConsoleCmd} (q : Request cmds) :
    ∀ arg ∈ q.args, CMD_ARGS_SEPARATOR ∉ arg := by
  obtain ⟨words, hr, hargs⟩ := q.reaches
  intro arg harg hsep
  rw [hargs] at harg
  have hword : arg ∈ words := List.mem_of_mem_take harg
  have hc := hr.command
  unfold command at hc
  split at hc
  · cases hc
  · split at hc
    · cases hc
    · cases hc
      have hpart := splitOnP_part (List.mem_of_mem_filter hword) _ hsep
      exact absurd hpart (by decide)

/-- Two frames are equal only if the names, the arguments and the responses are, unless a colon stands in the
name or the arguments of one and in the response of the other, or one name goes on where the other's arguments
begin. -/
theorem frames_identify (cmds : List ConsoleCmd) (p q : Request cmds) (r r' : Bytes) (s t : State) (hs : Sized s)
    (ht : Sized t) (hp : p.Fits r) (hq : q.Fits r') (hcolon : HasColon p.name p.args → 58 ∉ r')
    (hcolon' : HasColon q.name q.args → 58 ∉ r) (hname : ¬ Continues p.name p.args q.name)
    (hname' : ¬ Continues q.name q.args p.name) (h : p.frame s r = q.frame t r') :
    p.name = q.name ∧ p.args = q.args ∧ r = r' := by
  rw [p.frame_eq hs hp, q.frame_eq ht hq] at h
  exact frameText_inj p.args_separator q.args_separator hcolon hcolon' hname hname' h

theorem tagged_string : 0 ∉ bytes "ECHO=hello\r" := by decide

theorem padded_string : 0 ∉ bytes "ECHO=;hello;" := by decide

/-- Two lines with the same command. -/
def tagged : Request [echo] :=
  ⟨bytes "ECHO=hello\r", [7], echo, bytes "ECHO", [bytes "hello"], tagged_string, rfl⟩

def padded : Request [echo] := ⟨bytes "ECHO=;hello;", [], echo, bytes "ECHO", [bytes "hello"], padded_string, rfl⟩

theorem frames_identify_echo : tagged.name = padded.name ∧ tagged.args = padded.args ∧ bytes "a:b" = bytes "a:b" := by
  refine frames_identify [echo] tagged padded (bytes "a:b") (bytes "a:b") .init .init sized_init sized_init (by decide)
    (by decide) (fun h => absurd h (by decide)) (fun h => absurd h (by decide)) (by decide) (by decide) ?_
  rw [tagged.frame_eq sized_init (by decide), padded.frame_eq sized_init (by decide)]
  rfl

/-- A client reads the name, the arguments and the response from the frame. -/
def FramesIdentify (cmds : List ConsoleCmd) : Prop :=
  ∀ (p q : Request cmds) (r r' : Bytes) (s t : State), Sized s → Sized t → 13 ∉ r ∧ 10 ∉ r → 13 ∉ r' ∧ 10 ∉ r' →
    p.Fits r → q.Fits r' → p.frame s r = q.frame t r' → p.name = q.name ∧ p.args = q.args ∧ r = r'

/-- The second name begins with the first and an underscore. -/
def setTable : List ConsoleCmd :=
  [{ echo with name := bytes "SET" }, { echo with name := bytes "SET_TIME", expectedArgs := 0 }]

/-- The lines `SET=TIME` and `SET_TIME` have one frame, and so have `ECHO=a:b`, answered with `c`, and `ECHO=a`,
answered with `b:c`. -/
theorem frames_collide : ¬ FramesIdentify setTable ∧ ¬ FramesIdentify [echo] := by
  constructor
  · intro h
    let p : Request setTable := ⟨bytes "SET=TIME", [], _, bytes "SET", [bytes "TIME"], by decide, rfl⟩
    let q : Request setTable := ⟨bytes "SET_TIME", [], _, bytes "SET_TIME", [], by decide, rfl⟩
    have hframe : p.frame .init (bytes "x") = q.frame .init (bytes "x") := by
      rw [p.frame_eq sized_init (by decide), q.frame_eq sized_init (by decide)]
      rfl
    have hsame := h p q (bytes "x") (bytes "x") .init .init sized_init sized_init (by decide) (by decide) (by decide)
      (by decide) hframe
    exact absurd hsame.1 (by decide)
  · intro h
    let p : Request [echo] := ⟨bytes "ECHO=a:b", [], _, bytes "ECHO", [bytes "a:b"], by decide, rfl⟩
    let q : Request [echo] := ⟨bytes "ECHO=a", [], _, bytes "ECHO", [bytes "a"], by decide, rfl⟩
    have hframe : p.frame .init (bytes "c") = q.frame .init (bytes "b:c") := by
      rw [p.frame_eq sized_init (by decide), q.frame_eq sized_init (by decide)]
      rfl
    have hsame := h p q (bytes "c") (bytes "b:c") .init .init sized_init sized_init (by decide) (by decide) (by decide)
      (by decide) hframe
    exact absurd hsame.2.2 (by decide)

/-- With the table of the source every frame identifies its request, which has no arguments. -/
theorem gCommands_frames {VERSION : Bytes} (p q : Request (gCommands VERSION)) {r r' : Bytes} {s t : State}
    (hs : Sized s) (ht : Sized t) (hp : p.Fits r) (hq : q.Fits r') (h : p.frame s r = q.frame t r') :
    p.name = q.name ∧ p.args = q.args ∧ r = r' := by
  have hplain : ∀ q : Request (gCommands VERSION), q.args = [] ∧ 58 ∉ q.name := by
    intro q
    obtain ⟨words, hr, hwords⟩ := q.reaches
    obtain ⟨hmem, hsame, hargs⟩ := reaches_gCommands q.string hr
    refine ⟨hwords.trans hargs, hsame.notMem ?_⟩
    rcases mem_gCommands hmem with hn | hn <;> rw [hn] <;> decide
  have hcolon : ∀ q : Request (gCommands VERSION), ¬ HasColon q.name q.args := by
    rintro q (hname | ⟨arg, harg, -⟩)
    · exact (hplain q).2 hname
    · rw [(hplain q).1] at harg
      cases harg
  rw [p.frame_eq hs hp, q.frame_eq ht hq] at h
  exact frameText_inj p.args_separator q.args_separator (fun hc => absurd hc (hcolon p))
    (fun hc => absurd hc (hcolon q)) (fun hc => hc.1 (hplain p).1) (fun hc => hc.1 (hplain q).1) h

end InfoWorkshop.Console
