/-
What a client of the network console receives: `Console_WriteFd` passes each write to the socket and returns
what `write` returns, and `Console_Printf` does not look at it.
-/
import InfoWorkshop.Console.Output

namespace InfoWorkshop.Console

open InfoWorkshop.Core InfoWorkshop.Memory InfoWorkshop.CString

/-! ## The socket -/

/-- What `write` may return for a write: -1, or a number of bytes up to its length. -/
def Write.MayReturn (x : Write) (r : Int) : Prop := r = -1 ∨ 0 ≤ r ∧ r ≤ x.length

instance (x : Write) (r : Int) : Decidable (x.MayReturn r) := inferInstanceAs (Decidable (_ ∨ _))

/-- The bytes that the socket accepts when `write` returns `r`. -/
def Write.accepted (x : Write) (r : Int) : Bytes := x.data.take r.toNat

/-- The writes from the state `s` to the state `s'`. -/
def writesSince (s s' : State) : List Write := s'.writes.drop s.writes.length

/-- The bytes of the response that is meant. -/
def intended (ws : List Write) : Bytes := ws.flatMap Write.bytes

/-- The bytes that arrive, the writes returning `rs`. -/
def delivered (ws : List Write) (rs : List Int) : Bytes := (ws.zip rs).flatMap fun p => p.1.accepted p.2

/-- No hole is in what arrives: it is the beginning of the response, and after a piece that was not accepted
whole nothing of a later one is. -/
structure NoHole (ws : List Write) (rs : List Int) : Prop where
  isPrefix : delivered ws rs <+: intended ws
  nothingLater : (ws.zip rs).Pairwise fun p q => p.1.accepted p.2 ≠ p.1.bytes → q.1.accepted q.2 = []

/-- After a write that fails, or returns less than its length, the others return 0 or -1. -/
def EndsShort (ws : List Write) (rs : List Int) : Prop :=
  (ws.zip rs).Pairwise fun p q => p.2.toNat < p.1.length → q.2 ≤ 0

instance (ws : List Write) (rs : List Int) : Decidable (EndsShort ws rs) :=
  inferInstanceAs (Decidable (List.Pairwise _ _))

/-! ## One write -/

theorem Write.length_accepted {x : Write} {r : Int} (hx : x.InBounds) (hr : x.MayReturn r) :
    (x.accepted r).length = r.toNat := by
  unfold Write.InBounds at hx
  unfold Write.accepted
  rw [List.length_take]
  rcases hr with rfl | ⟨-, hle⟩
  · exact Nat.zero_min _
  · omega

theorem Write.accepted_part {x : Write} {r : Int} (hr : x.MayReturn r) : x.accepted r <+: x.bytes := by
  unfold Write.accepted Write.bytes
  apply List.take_prefix_take_left
  rcases hr with rfl | ⟨-, hle⟩
  · exact Nat.zero_le _
  · omega

theorem Write.accepted_eq_bytes_iff {x : Write} {r : Int} (hx : x.InBounds) (hr : x.MayReturn r) :
    x.accepted r = x.bytes ↔ ¬ r.toNat < x.length := by
  have hbytes : x.bytes.length = x.length := List.length_take_of_le hx
  constructor
  · intro h
    have hlen := x.length_accepted hx hr
    rw [h, hbytes] at hlen
    omega
  · intro h
    obtain rfl | ⟨hnonneg, hle⟩ := hr
    · have hzero : x.length = 0 := by
        rw [show (-1 : Int).toNat = 0 from rfl] at h
        omega
      unfold Write.accepted Write.bytes
      rw [hzero]
      rfl
    · unfold Write.accepted Write.bytes
      rw [show r.toNat = x.length by omega]

theorem Write.accepted_eq_nil_iff {x : Write} {r : Int} (hx : x.InBounds) (hr : x.MayReturn r) :
    x.accepted r = [] ↔ r ≤ 0 := by
  rw [← List.length_eq_zero_iff, x.length_accepted hx hr]
  omega

/-! ## A response -/

/-- The two conditions speak of the same pairs of writes. -/
theorem nothingLater_iff {ws : List Write} {rs : List Int} (hws : ∀ x ∈ ws, x.InBounds)
    (hrs : ∀ p ∈ ws.zip rs, p.1.MayReturn p.2) :
    ((ws.zip rs).Pairwise fun p q => p.1.accepted p.2 ≠ p.1.bytes → q.1.accepted q.2 = []) ↔ EndsShort ws rs := by
  unfold EndsShort
  have hin : ∀ p ∈ ws.zip rs, p.1.InBounds := fun p hp => hws p.1 (List.of_mem_zip hp).1
  apply List.Pairwise.iff_of_mem
  intro p q hp hq
  rw [Ne, Write.accepted_eq_bytes_iff (hin p hp) (hrs p hp), Write.accepted_eq_nil_iff (hin q hq) (hrs q hq), not_not]

/-- When nothing comes after a short write, what arrives is the beginning of the response. -/
theorem delivered_part {ws : List Write} {rs : List Int} (hrs : ∀ p ∈ ws.zip rs, p.1.MayReturn p.2)
    (h : (ws.zip rs).Pairwise fun p q => p.1.accepted p.2 ≠ p.1.bytes → q.1.accepted q.2 = []) :
    delivered ws rs <+: intended ws := by
  induction ws generalizing rs with
  | nil => exact List.nil_prefix
  | cons x ws ih =>
    rcases rs with _ | ⟨r, rs⟩
    · exact List.nil_prefix
    · rw [List.zip_cons_cons] at h hrs
      obtain ⟨hlater, hrest⟩ := List.pairwise_cons.1 h
      obtain ⟨hr, hrs⟩ := List.forall_mem_cons.1 hrs
      have hdelivered : delivered (x :: ws) (r :: rs) = x.accepted r ++ delivered ws rs := rfl
      have hintended : intended (x :: ws) = x.bytes ++ intended ws := rfl
      rw [hdelivered, hintended]
      by_cases hfull : x.accepted r = x.bytes
      · rw [hfull]
        exact (List.prefix_append_right_inj _).2 (ih hrs hrest)
      · have hnothing : delivered ws rs = [] := List.flatMap_eq_nil_iff.2 fun q hq => hlater q hq hfull
        rw [hnothing, List.append_nil]
        exact (Write.accepted_part hr).trans (List.prefix_append _ _)

theorem noHole_iff {ws : List Write} {rs : List Int} (hws : ∀ x ∈ ws, x.InBounds)
    (hrs : ∀ p ∈ ws.zip rs, p.1.MayReturn p.2) : NoHole ws rs ↔ EndsShort ws rs := by
  rw [← nothingLater_iff hws hrs]
  exact ⟨NoHole.nothingLater, fun h => ⟨delivered_part hrs h, h⟩⟩

/-! ## One command -/

theorem gCommands_string (VERSION : Bytes) : ∀ cmd ∈ gCommands VERSION, 0 ∉ cmd.name := by
  intro cmd hcmd
  rcases mem_gCommands hcmd with h | h
  · rw [h]
    decide
  · rw [h]
    decide

/-- A line that reaches a handler of the source has a name of the table and no arguments. -/
theorem reaches_gCommands {VERSION line name : Bytes} {args : List Bytes} {cmd : ConsoleCmd} (h0 : 0 ∉ line)
    (hr : Reaches (gCommands VERSION) line name args cmd) :
    cmd ∈ gCommands VERSION ∧ SameName cmd.name name ∧ args.take CMD_ARGS_MAX_LENGTH = [] := by
  have hmem : cmd ∈ gCommands VERSION := List.mem_of_find?_eq_some hr.entry
  refine ⟨hmem, ?_, ?_⟩
  · apply (strcasecmp_eq_zero (gCommands_string VERSION cmd hmem) (command_notMem h0 hr.command)).1
    simpa using List.find?_some hr.entry
  · have harity : cmd.expectedArgs = 0 := by
      simp only [gCommands, List.mem_cons, List.not_mem_nil, or_false] at hmem
      rcases hmem with rfl | rfl <;> rfl
    rw [← List.length_eq_zero_iff]
    have hlen := hr.arity
    omega

/-- Whatever a line comes to, its answer is printed from inside the buffers, in pieces that fit. -/
theorem answer_fits {VERSION line : Bytes} {s : State} (hs : Sized s) (h0 : 0 ∉ line) {junk : Bytes} {code : ErrorCode}
    {a : Answer} (h : (dispatch (gCommands VERSION) (line ++ 0 :: junk)).answer s = some (code, a)) :
    (∃ out, Prints s a.state out) ∧ ∀ text ∈ a.pieces, text.length ≤ 255 := by
  rcases dispatch_cases (gCommands VERSION) h0 junk with ⟨⟨text, htext, hd⟩, -⟩ | ⟨name, args, cmd, hr, hd⟩
  · rw [hd] at h
    cases h
    have hlen : text.length ≤ 255 := (show ∀ t ∈ refusals, t.length ≤ 255 by decide) text htext
    refine ⟨⟨[], ⟨id, [], by simp⟩⟩, (pieces_iff ?_).2 ⟨hlen, fun _ h => absurd h List.not_mem_nil⟩⟩
    exact show CMD_RESPONSE_FAILURE.length ≤ CMD_RESPONSE_MAX_LENGTH by decide
  · obtain ⟨hmem, hsame, hargs⟩ := reaches_gCommands h0 hr
    rw [hd, Dispatch.answer, hargs] at h
    split at h
    · cases h
    · rename_i e s' hh
      cases h
      obtain ⟨out, hprints⟩ := gCommands_prints hmem hs hh
      have hresponse : (cstr s'.responseBuffer 0).length ≤ CMD_RESPONSE_MAX_LENGTH := by
        rw [← (hprints.sized hs).response]
        exact cstr_length_le s'.responseBuffer
      refine ⟨⟨out, hprints⟩, (pieces_iff hresponse).2 ⟨?_, fun _ h => absurd h List.not_mem_nil⟩⟩
      rw [hsame.length_eq]
      rcases mem_gCommands hmem with hn | hn <;> rw [hn] <;> decide

/-- What is printed is written from inside the buffers, after what was written before. -/
theorem Prints.since {s s' : State} {out : Bytes} (h : Prints s s' out) :
    s'.writes = s.writes ++ writesSince s s' ∧ intended (writesSince s s') = out ∧
      ∀ x ∈ writesSince s s', x.InBounds := by
  obtain ⟨ws, hws, hout, hin⟩ := h.writes
  have hsince : writesSince s s' = ws := by rw [writesSince, hws, List.drop_left]
  rw [hsince]
  exact ⟨hws, hout, hin⟩

/-- The writes of a command are inside the buffers. -/
theorem writesSince_inBounds {VERSION line : Bytes} {s s' : State} (hs : Sized s) (h0 : 0 ∉ line) {junk : Bytes}
    {code : ErrorCode} (h : consoleRunCommand (gCommands VERSION) s (line ++ 0 :: junk) = some (code, s')) :
    ∀ x ∈ writesSince s s', x.InBounds := by
  rw [consoleRunCommand_eq] at h
  obtain ⟨⟨code', a⟩, ha, he⟩ := Option.map_eq_some_iff.1 h
  obtain ⟨rfl, rfl⟩ := Prod.mk.inj he
  obtain ⟨⟨out, hprints⟩, hfits⟩ := answer_fits hs h0 ha
  exact (hprints.trans (a.serialize_prints (hprints.sized hs) hfits)).since.2.2

/-- For every line of a client, whatever the socket returns: the response arrives without a hole exactly when
nothing is accepted any more after a write that is not accepted whole. -/
theorem response_noHole_iff (VERSION line junk : Bytes) (s s' : State) (code : ErrorCode) (rs : List Int)
    (hs : Sized s) (h0 : 0 ∉ line)
    (hrun : consoleRunCommand (gCommands VERSION) s (line ++ 0 :: junk) = some (code, s'))
    (hrs : ∀ p ∈ (writesSince s s').zip rs, p.1.MayReturn p.2) :
    NoHole (writesSince s s') rs ↔ EndsShort (writesSince s s') rs :=
  noHole_iff (writesSince_inBounds hs h0 hrun) hrs

/-- The connection is lost after half of the name. -/
theorem response_noHole_iff_lost :
    ∃ code s', consoleRunCommand (gCommands (bytes "1.0")) .init (bytes "SYS_FW_VER" ++ 0 :: []) = some (code, s') ∧
      NoHole (writesSince .init s') [4, -1] := by
  refine ⟨_, _, rfl, (response_noHole_iff (bytes "1.0") (bytes "SYS_FW_VER") [] .init _ _ [4, -1] sized_init
    (by decide) rfl (by decide)).2 (by decide)⟩

/-- With four bytes of the name accepted, and then the rest of the response, the client reads
`SYS_:1.0*END`. -/
theorem short_write_leaves_hole :
    ¬ ∀ (VERSION line junk : Bytes) (s s' : State) (code : ErrorCode) (rs : List Int), Sized s → 0 ∉ line →
      consoleRunCommand (gCommands VERSION) s (line ++ 0 :: junk) = some (code, s') →
      (∀ p ∈ (writesSince s s').zip rs, p.1.MayReturn p.2) → NoHole (writesSince s s') rs := by
  intro h
  have hhole := h (bytes "1.0") (bytes "SYS_FW_VER") [] .init _ _ [4, 10] sized_init (by decide) rfl (by decide)
  exact absurd hhole.isPrefix (by decide +kernel)

end InfoWorkshop.Console
