/-
`Console_GetCommand` of `console/net_console.c`: the loop that hands each read to `Console_RunCommand`.
The command texts that are interpreted are the lines of the stream exactly when every read holds the
whole text of one line and its CR.
-/
import InfoWorkshop.Console.Respond

namespace InfoWorkshop.Console

open InfoWorkshop.Core InfoWorkshop.Memory InfoWorkshop.CString InfoWorkshop.Terminator

/-! ## The loop -/

/-- `sizeof(cmd)`. -/
def CMD_SIZE : Nat := 500

/-- The loop of `Console_GetCommand`, `reads` being what the reads return until one returns nothing: the
buffers that `Console_RunCommand` is called with, and the state at the end. -/
def consoleGetCommand (cmds : List ConsoleCmd) : State → Bytes → List Bytes → Option (List Bytes × State)
  | s, _, [] => some ([], s)
  | s, cmd, r :: reads =>
    if r.length > 0 then
      let cmd := (memcpy cmd r r.length).set (r.length - 1) 0
      match consoleRunCommand cmds s cmd with
      | none => none
      | some (_, s) =>
        -- the parser has cut up the line in place
        match consoleGetCommand cmds s (consoleParseCommand cmd).2 reads with
        | none => none
        | some (calls, s) => some (cmd :: calls, s)
    else some ([], s)

/-- The text that `Console_ParseCommand` goes on with after its first `strtok_r`. -/
def commandText (cmdLine : Bytes) : Option Bytes :=
  let (line, buf, _) := strtokR cmdLine (some 0) NEWLINE 0
  line.map (cstr buf)

/-- The first line in a read without its last byte. -/
def firstLine (r : Bytes) : Option Bytes := (token NEWLINE r.dropLast).map Prod.fst

theorem commandText_eq {buf line : Bytes} (h : StrAt buf 0 line) :
    commandText buf = (token NEWLINE line).map Prod.fst := by
  have harg : Option.getD (some 0) 0 = 0 := rfl
  unfold commandText
  rcases ht : token NEWLINE line with _ | ⟨u, v⟩
  · simp only [strtokR_none h harg (by decide) ht, Option.map_none]
  · obtain ⟨p, buf', q, htok, hT⟩ := strtokR_some h harg (by decide) ht
    simp only [htok, Option.map_some, hT.token.cstr_eq]

/-- The buffer that is handed over: the read without its last byte, as a string. -/
theorem memcpy_set {cmd r : Bytes} (hr : r ≠ []) :
    (memcpy cmd r r.length).set (r.length - 1) 0 = r.dropLast ++ 0 :: cmd.drop r.length := by
  obtain ⟨r, x, rfl⟩ := (List.eq_nil_or_concat' r).resolve_left hr
  unfold memcpy
  rw [List.take_length, List.length_append, List.length_singleton, Nat.add_sub_cancel, List.append_assoc,
    List.set_append_right _ _ (Nat.le_refl _), Nat.sub_self, List.dropLast_concat]
  rfl

/-- Each read is answered, as the line it is without its last byte. -/
theorem consoleGetCommand_spec {VERSION : Bytes} (hlen : VERSION.length < CMD_RESPONSE_MAX_LENGTH)
    (hV : 0 ∉ VERSION) : ∀ {reads : List Bytes} {s : State} (cmd : Bytes), Sized s →
    (∀ r ∈ reads, r ≠ [] ∧ 0 ∉ r) →
    ∃ calls s', consoleGetCommand (gCommands VERSION) s cmd reads = some (calls, s') ∧
      calls.map commandText = reads.map firstLine ∧
      Prints s s' (reads.flatMap fun r => (outcome r.dropLast).text VERSION)
  | [], s, _, _, _ => ⟨[], s, rfl, rfl, id, [], by simp⟩
  | r :: reads, s, cmd, hs, h => by
    obtain ⟨hr, h0⟩ := h r (by simp)
    have hline : 0 ∉ r.dropLast := fun hmem => h0 (List.dropLast_subset r hmem)
    obtain ⟨s₁, hrun, hprints⟩ := consoleRunCommand_prints hs hlen hV hline (cmd.drop r.length)
    obtain ⟨calls, s', hloop, htexts, hprints'⟩ := consoleGetCommand_spec hlen hV
      (consoleParseCommand (r.dropLast ++ 0 :: cmd.drop r.length)).2 (hprints.sized hs)
      fun x hx => h x (List.mem_cons_of_mem r hx)
    refine ⟨(r.dropLast ++ 0 :: cmd.drop r.length) :: calls, s', ?_, ?_, hprints.trans hprints'⟩
    · simp only [consoleGetCommand, if_pos (List.length_pos_iff.2 hr), memcpy_set hr, hrun, hloop]
    · have htext : commandText (r.dropLast ++ 0 :: cmd.drop r.length) = firstLine r :=
        commandText_eq ⟨hline, [], _, rfl, rfl⟩
      rw [List.map_cons, List.map_cons, htext, htexts]

/-! ## Reads and lines -/

/-- The reads, while `pre` is left of the line end before: each has what is left, one whole line, its CR,
and its LF or not. -/
inductive Aligned : Bytes → List Bytes → List Bytes → Prop
  | nil : Aligned [] [] []
  | whole {pre l : Bytes} {lines reads : List Bytes} : Aligned [] lines reads →
      Aligned pre (l :: lines) ((pre ++ (l ++ [13, 10])) :: reads)
  | short {pre l : Bytes} {lines reads : List Bytes} : Aligned [10] lines reads →
      Aligned pre (l :: lines) ((pre ++ (l ++ [13])) :: reads)

/-- A byte of a line. -/
abbrev Text (x : UInt8) : Prop := x ∉ NEWLINE

/-- The LF alone, left of a line end. -/
theorem newline_lf : ∀ x ∈ ([10] : Bytes), x ∈ NEWLINE := fun x hx => by
  rw [List.mem_singleton.1 hx]
  decide

theorem Aligned.firstLine {pre : Bytes} {lines reads : List Bytes} (h : Aligned pre lines reads)
    (hpre : ∀ x ∈ pre, x ∈ NEWLINE) (hlines : ∀ l ∈ lines, l ≠ [] ∧ ∀ x ∈ l, Text x) :
    reads.map Console.firstLine = lines.map some := by
  induction h with
  | nil => rfl
  | @whole pre l lines reads _ ih =>
    obtain ⟨hl, htext⟩ := hlines l (by simp)
    have hdrop : (pre ++ (l ++ [13, 10])).dropLast = pre ++ (l ++ [13]) := by
      rw [← List.append_assoc, List.dropLast_append_of_ne_nil (by simp), ← List.append_assoc]
      rfl
    rw [List.map_cons, List.map_cons, ih (by simp) fun l hl => hlines l (by simp [hl])]
    rw [Console.firstLine, hdrop, token_of_split hpre hl htext fun x hx => by cases hx; decide]
    rfl
  | @short pre l lines reads _ ih =>
    obtain ⟨hl, htext⟩ := hlines l (by simp)
    have hdrop : (pre ++ (l ++ [13])).dropLast = pre ++ (l ++ []) := by
      rw [← List.append_assoc, List.dropLast_concat, List.append_nil]
    rw [List.map_cons, List.map_cons, ih newline_lf fun l hl => hlines l (by simp [hl])]
    rw [Console.firstLine, hdrop, token_of_split hpre hl htext (by simp)]
    rfl

/-! ## Counting the bytes of lines -/

theorem countP_text {l : Bytes} (h : ∀ x ∈ l, Text x) : l.countP (Text ·) = l.length :=
  List.countP_eq_length.2 (by simpa using h)

/-- The first line of a read takes its bytes from the read, the last byte apart. -/
theorem firstLine_le {r l : Bytes} (h : firstLine r = some l) : l.length ≤ r.dropLast.countP (Text ·) := by
  unfold firstLine at h
  rcases token_cases NEWLINE r.dropLast with hsep | ⟨sep, u, w, hr, hsep, hu, hud, hw⟩
  · rw [token_of_sep hsep] at h; cases h
  · rw [hr, token_of_split hsep hu hud hw] at h
    obtain rfl : u = l := Option.some.inj h
    rw [hr, List.countP_append, List.countP_append, countP_text hud]
    omega

/-- The lines interpreted are not longer together than the lines in the reads. -/
theorem firstLines_le : ∀ {lines reads : List Bytes}, reads.map firstLine = lines.map some →
    lines.flatten.length ≤ reads.flatten.countP (Text ·)
  | [], _, _ => Nat.zero_le _
  | l :: lines, [], h => by cases h
  | l :: lines, r :: reads, h => by
    obtain ⟨hr, hreads⟩ := List.cons.inj h
    have hfirst := firstLine_le hr
    have hrest := firstLines_le hreads
    have hdrop := (List.dropLast_sublist r).countP_le (p := fun x => decide (Text x))
    rw [List.flatten_cons, List.flatten_cons, List.length_append, List.countP_append]
    omega

theorem countP_lines {lines : List Bytes} (h : ∀ l ∈ lines, ∀ x ∈ l, Text x) :
    (lines.flatMap (· ++ NEWLINE)).countP (Text ·) = lines.flatten.length := by
  induction lines with
  | nil => rfl
  | cons l lines ih =>
    have hnewline : NEWLINE.countP (Text ·) = 0 := by decide
    rw [List.flatMap_cons, List.countP_append, List.countP_append, countP_text (h l (by simp)), hnewline,
      ih fun l hl => h l (by simp [hl]), List.flatten_cons, List.length_append, Nat.add_zero]

/-- The text of lines begins with a byte of a line. -/
theorem one_le_countP {lines : List Bytes} {w v : Bytes} (h : ∀ l ∈ lines, l ≠ [] ∧ ∀ x ∈ l, Text x)
    (hw : w ≠ []) (hcut : w ++ v = lines.flatMap (· ++ NEWLINE)) : 1 ≤ w.countP (Text ·) := by
  obtain ⟨x, w, rfl⟩ := List.exists_cons_of_ne_nil hw
  cases lines with
  | nil => cases hcut
  | cons l lines =>
    obtain ⟨hl, htext⟩ := h l (by simp)
    obtain ⟨y, l, rfl⟩ := List.exists_cons_of_ne_nil hl
    obtain ⟨rfl, -⟩ := List.cons.inj hcut
    have hx : Text x := htext x (by simp)
    rw [List.countP_cons_of_pos (by simpa using hx)]
    omega

/-! ## One read for each line -/

/-- Of a read that ends within the line, the last byte is not interpreted, or a part of the line is
still to come. -/
theorem firstLine_ne {pre l r a : Bytes} (hpre : ∀ x ∈ pre, x ∈ NEWLINE) (hl : ∀ x ∈ l, Text x) (hne : l ≠ [])
    (hr : r ≠ []) (hcut : pre ++ l = r ++ a) : firstLine r ≠ some l := by
  intro hfirst
  obtain ⟨r, x, rfl⟩ := (List.eq_nil_or_concat' r).resolve_left hr
  obtain ⟨l, y, rfl⟩ := (List.eq_nil_or_concat' l).resolve_left hne
  have hle := firstLine_le hfirst
  have hcount := congrArg (List.countP (Text ·)) hcut
  have hprecount : pre.countP (Text ·) = 0 := List.countP_eq_zero.2 (by simpa using hpre)
  rw [List.dropLast_concat] at hle
  rw [List.countP_append, hprecount, countP_text hl, List.append_assoc, List.countP_append] at hcount
  have hlast : 1 ≤ ([x] ++ a).countP (Text ·) := by
    have hend := congrArg List.getLast? hcut
    rw [← List.append_assoc, List.getLast?_concat, List.append_assoc,
      List.getLast?_append_of_ne_nil _ (by simp)] at hend
    exact List.one_le_countP_iff.2 ⟨y, List.mem_of_getLast? hend.symm, by simpa using hl y (by simp)⟩
  omega

/-- A read that begins where a line does, or with what is left of the line end before, and interprets
that line has all of it and its CR. -/
theorem read_eq {pre l r v t : Bytes} (hpre : ∀ x ∈ pre, x ∈ NEWLINE) (hl : ∀ x ∈ l, Text x) (hne : l ≠ [])
    (hr : r ≠ []) (hcut : r ++ v = pre ++ (l ++ 13 :: t)) (hfirst : firstLine r = some l) :
    ∃ w, r = pre ++ (l ++ 13 :: w) ∧ w ++ v = t := by
  rw [← List.append_assoc] at hcut
  rcases List.append_eq_append_iff.1 hcut with ⟨a, ha, hv⟩ | ⟨a, ha, ht⟩
  · exact absurd hfirst (firstLine_ne hpre hl hne hr ha)
  · cases a with
    | nil => exact absurd hfirst (firstLine_ne (a := []) hpre hl hne hr (by simpa using ha.symm))
    | cons c w =>
      obtain ⟨rfl, rfl⟩ := List.cons.inj ht
      exact ⟨w, by rw [ha, List.append_assoc], rfl⟩

/-- Reads that interpret the lines have one line each. The induction is on the lines; a read that takes
bytes of a second line leaves too few for the reads after it. -/
theorem aligned_of_firstLine : ∀ {lines reads : List Bytes} {pre : Bytes}, (∀ x ∈ pre, x ∈ NEWLINE) →
    (∀ l ∈ lines, l ≠ [] ∧ ∀ x ∈ l, Text x) → (∀ r ∈ reads, r ≠ []) →
    reads.flatten = pre ++ lines.flatMap (· ++ NEWLINE) → reads.map firstLine = lines.map some →
    Aligned pre lines reads
  | [], reads, pre, _, _, _, hcut, hfirst => by
    obtain rfl := List.map_eq_nil_iff.1 hfirst
    obtain rfl : pre = [] := by simpa using hcut.symm
    exact .nil
  | l :: lines, [], _, _, _, _, _, hfirst => by cases hfirst
  | l :: lines, r :: reads, pre, hpre, hlines, hreads, hcut, hfirst => by
    obtain ⟨hr, hrest⟩ := List.cons.inj hfirst
    obtain ⟨hl, htext⟩ := hlines l (by simp)
    have hlines' : ∀ l ∈ lines, l ≠ [] ∧ ∀ x ∈ l, Text x := fun l hl => hlines l (by simp [hl])
    have hreads' : ∀ r ∈ reads, r ≠ [] := fun r hr => hreads r (by simp [hr])
    have hcut' : r ++ reads.flatten = pre ++ (l ++ 13 :: (10 :: lines.flatMap (· ++ NEWLINE))) := by
      rw [← List.flatten_cons, hcut, List.flatMap_cons, List.append_assoc]
      rfl
    obtain ⟨w, rfl, hw⟩ := read_eq hpre htext hl (hreads r (by simp)) hcut' hr
    cases w with
    | nil =>
      -- the LF is in the next read
      exact .short (aligned_of_firstLine newline_lf hlines' hreads' hw hrest)
    | cons c w =>
      obtain ⟨rfl, hw'⟩ := List.cons.inj hw
      cases w with
      | nil => exact .whole (aligned_of_firstLine (by simp) hlines' hreads' hw' hrest)
      | cons x w =>
        -- the read goes on into the next line
        have hsome := one_le_countP hlines' (List.cons_ne_nil x w) hw'
        have hle := firstLines_le hrest
        have hcount : (x :: w ++ reads.flatten).countP (Text ·) = _ := congrArg _ hw'
        rw [List.countP_append, countP_lines fun l hl => (hlines' l hl).2] at hcount
        omega

/-! ## The whole session -/

/-- A stream of command lines, each with a CR and an LF after it, as it is cut into reads. -/
structure Stream (lines reads : List Bytes) : Prop where
  line : ∀ l ∈ lines, l ≠ [] ∧ l.length ≤ 498 ∧ 0 ∉ l ∧ 13 ∉ l ∧ 10 ∉ l
  read : ∀ r ∈ reads, r ≠ [] ∧ r.length ≤ CMD_SIZE
  cut : reads.flatten = lines.flatMap (· ++ NEWLINE)

theorem Stream.text {lines reads : List Bytes} (h : Stream lines reads) :
    ∀ l ∈ lines, l ≠ [] ∧ ∀ x ∈ l, Text x := by
  intro l hl
  obtain ⟨hne, -, -, h13, h10⟩ := h.line l hl
  refine ⟨hne, fun x hx hmem => ?_⟩
  have hx' : x = 13 ∨ x = 10 := by simpa [NEWLINE, bytes] using hmem
  rcases hx' with rfl | rfl
  · exact h13 hx
  · exact h10 hx

theorem Stream.no_nul {lines reads : List Bytes} (h : Stream lines reads) : ∀ r ∈ reads, 0 ∉ r := by
  intro r hr h0
  have hmem : 0 ∈ lines.flatMap (· ++ NEWLINE) := h.cut ▸ List.mem_flatten.2 ⟨r, hr, h0⟩
  obtain ⟨l, hl, hmem⟩ := List.mem_flatMap.1 hmem
  rcases List.mem_append.1 hmem with hmem | hmem
  · exact (h.line l hl).2.2.1 hmem
  · exact absurd hmem (by decide)

/-- The command texts interpreted are the lines of the stream if and only if each read holds one line
with its CR. -/
theorem consoleGetCommand_texts_iff {VERSION : Bytes} (hlen : VERSION.length < CMD_RESPONSE_MAX_LENGTH)
    (hV : 0 ∉ VERSION) {lines reads : List Bytes} (h : Stream lines reads) {s : State} (hs : Sized s)
    (cmd : Bytes) :
    (∃ calls s', consoleGetCommand (gCommands VERSION) s cmd reads = some (calls, s') ∧
      calls.map commandText = lines.map some) ↔ Aligned [] lines reads := by
  obtain ⟨calls, s', hrun, htexts, -⟩ := consoleGetCommand_spec hlen hV cmd hs
    fun r hr => ⟨(h.read r hr).1, h.no_nul r hr⟩
  constructor
  · rintro ⟨calls', s'', hrun', htexts'⟩
    obtain ⟨rfl, -⟩ : calls' = calls ∧ s'' = s' := by
      rw [hrun] at hrun'
      simpa [eq_comm] using hrun'
    exact aligned_of_firstLine (by simp) h.text (fun r hr => (h.read r hr).1) h.cut (htexts ▸ htexts')
  · intro haligned
    exact ⟨calls, s', hrun, htexts.trans (haligned.firstLine (by simp) h.text)⟩

theorem consoleGetCommand_texts_iff_lateNewline :
    ∃ calls s', consoleGetCommand (gCommands (bytes "1.0")) .init (List.replicate CMD_SIZE 0)
      [bytes "HELP\r", bytes "\nSYS_FW_VER\r\n"] = some (calls, s') ∧
      calls.map commandText = [bytes "HELP", bytes "SYS_FW_VER"].map some := by
  have hstream : Stream [bytes "HELP", bytes "SYS_FW_VER"] [bytes "HELP\r", bytes "\nSYS_FW_VER\r\n"] :=
    ⟨by decide, by decide, by decide⟩
  have haligned : Aligned [] [bytes "HELP", bytes "SYS_FW_VER"] [bytes "HELP\r", bytes "\nSYS_FW_VER\r\n"] :=
    .short (.whole .nil)
  exact (consoleGetCommand_texts_iff (show (bytes "1.0").length < CMD_RESPONSE_MAX_LENGTH by decide) (by decide)
    hstream sized_init _).2 haligned

/-- A line in two reads: neither of them interprets it, and the last byte of the first one is lost. -/
theorem split_line_not_interpreted :
    Stream [bytes "HELP"] [bytes "HE", bytes "LP\r\n"] ∧
      ¬ ∃ calls s', consoleGetCommand (gCommands (bytes "1.0")) .init (List.replicate CMD_SIZE 0)
        [bytes "HE", bytes "LP\r\n"] = some (calls, s') ∧ calls.map commandText = [bytes "HELP"].map some := by
  refine ⟨⟨by decide, by decide, by decide⟩, ?_⟩
  rintro ⟨calls, s', hrun, htexts⟩
  obtain ⟨calls', s'', hrun', htexts', -⟩ := consoleGetCommand_spec
    (show (bytes "1.0").length < CMD_RESPONSE_MAX_LENGTH by decide) (by decide) (List.replicate CMD_SIZE 0) sized_init
    (show ∀ r ∈ [bytes "HE", bytes "LP\r\n"], r ≠ [] ∧ 0 ∉ r by decide)
  rw [hrun] at hrun'
  cases hrun'
  rw [htexts] at htexts'
  exact absurd htexts' (by decide)

end InfoWorkshop.Console
