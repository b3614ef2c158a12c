/-
`Console_ParseCommand` with its memory: the buffer of the line ends at its NUL, the array `args` has its
length, and a call that reads or writes outside of them yields `none`. The parser accepts what `grammar`
says, and all it does to the buffer is to turn delimiters into NUL.
-/
import InfoWorkshop.Console.Parse
import InfoWorkshop.Lib.InPlace

namespace InfoWorkshop.Console

open InfoWorkshop.Core InfoWorkshop.Memory InfoWorkshop.CString

/-- What `Console_ParseCommand` returns, and `*name`, `args` and the buffer when it does. A string is the
offset of its first byte, a `NULL` is `none`. -/
structure Parsed where
  ret : Int
  name : Option Nat
  args : List (Option Nat)
  buf : Bytes
  deriving DecidableEq, Repr

/-- The loop of `Console_ParseCommand` from index `i` on, with `n` turns left: the index it ends with,
`args` and the buffer. -/
def parseArgsIn : Nat → Nat → Bytes → Nat → List (Option Nat) → Option (Nat × List (Option Nat) × Bytes)
  | 0, i, buf, _, args => some (i, args, buf)
  | n + 1, i, buf, ptr, args =>
    match strtokRIn buf none [CMD_ARGS_SEPARATOR] ptr with
    | none => none
    | some (arg, buf, ptr) =>
      if i < args.length then
        let args := args.set i arg
        if arg = none then some (i, args, buf) else parseArgsIn n (i + 1) buf ptr args
      else none

/-- `Console_ParseCommand`, with the buffer of the line and the array `args` it is given. -/
def consoleParseCommandIn (cmdLine : Bytes) (args : List (Option Nat)) : Option Parsed :=
  match strtokRIn cmdLine (some 0) NEWLINE 0 with
  | none => none
  | some (line, buf, ptr) =>
    match strtokRIn buf line (bytes "=") ptr with
    | none => none
    | some (none, buf, _) => some ⟨-1, none, args, buf⟩
    | some (some name, buf, ptr) =>
      match parseArgsIn CMD_ARGS_MAX_LENGTH 0 buf ptr args with
      | none => none
      | some (i, args, buf) => some ⟨i, some name, args, buf⟩

example : consoleParseCommandIn (bytes "\r=SET==a;;b=\n" ++ [0]) (List.replicate 10 (some 77)) =
    some ⟨2, some 2, [some 6, some 10, none] ++ List.replicate 7 (some 77),
      bytes "\r=SET" ++ 0 :: bytes "=a" ++ 0 :: bytes ";b=" ++ [0, 0]⟩ := by decide

/-! ## The grammar -/

/-- The first maximal non-empty run of bytes other than CR and LF, without the `=` signs it begins
with. -/
def commandPart (line : Bytes) : Bytes :=
  ((line.dropWhile fun x => x ∈ NEWLINE).takeWhile fun x => x ∉ NEWLINE).dropWhile fun x => x = 61

/-- The name is what stands before the first `=` of the command, the arguments are the maximal non-empty
runs of bytes other than `;` after it. -/
def grammar (line : Bytes) : Option (Bytes × List Bytes) :=
  let t := commandPart line
  if t = [] then none
  else some (t.takeWhile (fun x => x ≠ 61), fields [CMD_ARGS_SEPARATOR] (t.dropWhile fun x => x ≠ 61).tail)

theorem mem_equals (x : UInt8) : x ∈ bytes "=" ↔ x = 61 := by
  rw [show bytes "=" = [61] from rfl, List.mem_singleton]

/-- A token and its rest are cut from what follows the delimiters. -/
theorem token_eq (delim t : Bytes) : token delim t =
    if t.dropWhile (fun x => x ∈ delim) = [] then none
    else some ((t.dropWhile fun x => x ∈ delim).takeWhile (fun x => x ∉ delim),
      ((t.dropWhile fun x => x ∈ delim).dropWhile fun x => x ∉ delim).tail) := by
  unfold token
  rcases t.dropWhile (fun x => x ∈ delim) with _ | ⟨c, u⟩ <;> rfl

theorem command_eq_grammar (line : Bytes) : command line = grammar line := by
  unfold command grammar commandPart
  rw [token_eq NEWLINE line]
  by_cases hnil : line.dropWhile (fun x => x ∈ NEWLINE) = []
  · simp [hnil]
  · rw [if_neg hnil]
    simp only [token_eq (bytes "="), mem_equals]
    split
    · rename_i h
      split at h
      · rename_i h'; rw [if_pos h']
      · cases h
    · rename_i name rest h
      split at h
      · cases h
      · rename_i h'
        cases h
        rw [if_neg h']

/-! ## The arguments -/

/-- The array after a loop of at most `n` turns that found `offs`: their offsets, and a `NULL` after them
if a turn was left. -/
def filled (n : Nat) (offs : List Nat) (array : List (Option Nat)) : List (Option Nat) :=
  offs.map some ++
    if offs.length < n then none :: array.drop (offs.length + 1) else array.drop offs.length

/-- The loop does what `parseArgs` does, and writes what it finds into the array. -/
theorem parseArgsIn_spec : ∀ (n : Nat) {buf t : Bytes} {ptr : Nat} (front array : List (Option Nat)),
    StrAt buf ptr t → n ≤ array.length →
    ∃ offs buf', parseArgs n buf ptr = (offs, buf') ∧ Cut [CMD_ARGS_SEPARATOR] buf buf' ∧ ∀ junk,
      parseArgsIn n front.length (buf ++ junk) ptr (front ++ array) =
        some (front.length + offs.length, front ++ filled n offs array, buf' ++ junk)
  | 0, buf, _, _, _, _, _, _ => ⟨[], buf, rfl, .refl .., fun _ => by simp [parseArgsIn, filled]⟩
  | n + 1, buf, t, ptr, front, [], _, hn => absurd hn (Nat.not_succ_le_zero n)
  | n + 1, buf, t, ptr, front, old :: array, h, hn => by
    have harg : Option.getD none ptr = ptr := rfl
    have hin : front.length < (front ++ old :: array).length := by simp
    have hset : ∀ arg, (front ++ old :: array).set front.length arg = front ++ arg :: array := fun arg => by simp
    rcases strtokRIn_token h harg (show 0 ∉ [CMD_ARGS_SEPARATOR] by decide) with
      ⟨ht, hnone⟩ | ⟨u, v, p, buf₁, q, -, htok, hT, hcut, hsome⟩
    · refine ⟨[], buf, by simp only [parseArgs, strtokR_none h harg (by decide) ht], .refl .., fun junk => ?_⟩
      simp only [parseArgsIn, hnone, if_pos hin, hset, if_true]
      simp [filled]
    · obtain ⟨offs, buf', hargs, hcut', hloop⟩ :=
        parseArgsIn_spec n (front ++ [some p]) array hT.rest (by simpa using hn)
      refine ⟨p :: offs, buf', by simp only [parseArgs, htok, hargs], hcut.trans hcut', fun junk => ?_⟩
      have hturn := hloop junk
      rw [List.length_append, List.append_assoc, List.append_assoc] at hturn
      simp only [parseArgsIn, hsome, if_pos hin, hset]
      rw [if_neg (by simp)]
      refine hturn.trans ?_
      simp only [filled, List.map_cons, List.length_cons, List.cons_append, List.nil_append, List.length_nil,
        Nat.add_lt_add_iff_right, List.drop_succ_cons]
      rw [show front.length + (0 + 1) + offs.length = front.length + (offs.length + 1) by omega]

/-! ## The parser -/

/-- The bytes that the parser turns into NUL. -/
def delimiters : Bytes := NEWLINE ++ bytes "=" ++ [CMD_ARGS_SEPARATOR]

/-- What the call leaves of a line with a name and arguments: `array` was in `args` before. -/
structure Accepted (name : Bytes) (args : List Bytes) (array : List (Option Nat)) (r : Parsed) : Prop where
  ret : r.ret = min CMD_ARGS_MAX_LENGTH args.length
  name : ∃ p, r.name = some p ∧ StrAt r.buf p name
  args : ∀ i (hi : i < args.length), i < CMD_ARGS_MAX_LENGTH →
    ∃ p, r.args[i]? = some (some p) ∧ StrAt r.buf p args[i]
  length : r.args.length = array.length
  others : ∀ i, CMD_ARGS_MAX_LENGTH ≤ i → r.args[i]? = array[i]?

theorem filled_length {n : Nat} {offs : List Nat} {array : List (Option Nat)} (ho : offs.length ≤ n)
    (hn : n ≤ array.length) : (filled n offs array).length = array.length := by
  unfold filled
  split <;> simp <;> omega

theorem filled_others {n i : Nat} {offs : List Nat} {array : List (Option Nat)} (ho : offs.length ≤ n)
    (hi : n ≤ i) : (filled n offs array)[i]? = array[i]? := by
  unfold filled
  rw [List.getElem?_append_right (by simp; omega), List.length_map]
  split
  · obtain ⟨k, hk⟩ : ∃ k, i - offs.length = k + 1 := ⟨i - offs.length - 1, by omega⟩
    rw [hk, List.getElem?_cons_succ, List.getElem?_drop]
    congr 1
    omega
  · rw [List.getElem?_drop]
    congr 1
    omega

/-- The offsets found in a buffer that holds the arguments there. -/
theorem filled_args {n : Nat} {buf : Bytes} {offs : List Nat} {args : List Bytes} {array : List (Option Nat)}
    (h : List.Forall₂ (StrAt buf) offs (args.take n)) (i : Nat) (hi : i < args.length) (hn : i < n) :
    ∃ p, (filled n offs array)[i]? = some (some p) ∧ StrAt buf p args[i] := by
  have hlen := h.length_eq
  rw [List.length_take] at hlen
  have ho : i < offs.length := by omega
  refine ⟨offs[i], ?_, ?_⟩
  · unfold filled
    rw [List.getElem?_append_left (by simpa using ho)]
    simp [ho]
  · have hget := (List.forall₂_iff_get.1 h).2 i ho (by rw [List.length_take]; omega)
    simpa using hget

/-- On a string the parser stays within its memory and does what `consoleParseCommand` does. -/
theorem consoleParseCommandIn_spec {buf line : Bytes} (h : StrAt buf 0 line) {array : List (Option Nat)}
    (hlen : CMD_ARGS_MAX_LENGTH ≤ array.length) :
    ∃ found buf', consoleParseCommand buf = (found, buf') ∧ Cut delimiters buf buf' ∧ ∀ junk,
      consoleParseCommandIn (buf ++ junk) array = some
        (match found with
        | none => ⟨-1, none, array, buf' ++ junk⟩
        | some (p, offs) => ⟨offs.length, some p, filled CMD_ARGS_MAX_LENGTH offs array, buf' ++ junk⟩) := by
  have harg : Option.getD (some 0) 0 = 0 := rfl
  have hnewline : ∀ x ∈ NEWLINE, x ∈ delimiters := fun x hx => by simp [delimiters, hx]
  have hequals : ∀ x ∈ bytes "=", x ∈ delimiters := fun x hx => by simp [delimiters, hx]
  have hsep : ∀ x ∈ [CMD_ARGS_SEPARATOR], x ∈ delimiters := fun x hx => by simp [delimiters, List.mem_singleton.1 hx]
  unfold consoleParseCommand
  rcases strtokRIn_token h harg (show 0 ∉ NEWLINE by decide) with
    ⟨ht, hnone⟩ | ⟨seg, v, p, buf₁, q, -, htok, hT, hcut, hsome⟩
  · -- the second call goes on at the end of the line
    have hend : StrAt buf (0 + line.length) [] := StrAt.suffix (by rwa [List.append_nil])
    have hnarg : Option.getD none (0 + line.length) = 0 + line.length := rfl
    rcases strtokRIn_token hend hnarg (show 0 ∉ bytes "=" by decide) with
      ⟨ht', hnone'⟩ | ⟨u, v, p, buf₁, q, ht', -⟩
    · refine ⟨none, buf, ?_, .refl .., fun junk => ?_⟩
      · simp only [strtokR_none h harg (by decide) ht, strtokR_none hend hnarg (by decide) ht']
      · simp only [consoleParseCommandIn, hnone, hnone']
    · cases ht'
  · have hp : Option.getD (some p) q = p := rfl
    rcases strtokRIn_token hT.token hp (show 0 ∉ bytes "=" by decide) with
      ⟨ht', hnone'⟩ | ⟨name, rest, p', buf₂, q', -, htok', hT', hcut', hsome'⟩
    · refine ⟨none, buf₁, ?_, hcut.mono hnewline, fun junk => ?_⟩
      · simp only [htok, strtokR_none hT.token hp (by decide) ht']
      · simp only [consoleParseCommandIn, hsome, hnone']
    · obtain ⟨offs, buf', hargs, hcut'', hloop⟩ :=
        parseArgsIn_spec CMD_ARGS_MAX_LENGTH [] array hT'.rest hlen
      refine ⟨some (p', offs), buf', ?_, ?_, fun junk => ?_⟩
      · simp only [htok, htok', hargs]
      · exact (hcut.mono hnewline).trans ((hcut'.mono hequals).trans (hcut''.mono hsep))
      · have hturns := hloop junk
        simp only [List.length_nil, List.nil_append, Nat.zero_add] at hturns
        simp only [consoleParseCommandIn, hsome, hsome', hturns]

/-- `Console_ParseCommand` accepts exactly its grammar, in place: for every string and whatever follows
its NUL, which is neither read nor written. -/
theorem consoleParseCommandIn_grammar (line : Bytes) (h0 : 0 ∉ line) (array : List (Option Nat))
    (hlen : CMD_ARGS_MAX_LENGTH ≤ array.length) :
    ∃ ret name args line', Cut delimiters line line' ∧
      (∀ junk, consoleParseCommandIn (line ++ 0 :: junk) array = some ⟨ret, name, args, line' ++ 0 :: junk⟩) ∧
      match grammar line with
      | none => ret = -1 ∧ args = array
      | some (cmd, words) => Accepted cmd words array ⟨ret, name, args, line' ++ [0]⟩ := by
  have hstr : StrAt (line ++ [0]) 0 line := ⟨h0, [], [], rfl, rfl⟩
  obtain ⟨found, buf', hparse, hcut, hin⟩ := consoleParseCommandIn_spec hstr hlen
  obtain ⟨line', rfl, hcut'⟩ := hcut.concat (show 0 ∉ delimiters by decide)
  have hjunk : ∀ junk : Bytes, (line ++ [0]) ++ junk = line ++ 0 :: junk := fun junk => by simp
  have hjunk' : ∀ junk : Bytes, (line' ++ [0]) ++ junk = line' ++ 0 :: junk := fun junk => by simp
  simp only [hjunk, hjunk'] at hin
  rw [← command_eq_grammar]
  rcases hc : command line with _ | ⟨cmd, words⟩
  · have hnone := consoleParseCommand_none hstr hc
    rw [hparse] at hnone
    obtain rfl : found = none := hnone
    exact ⟨-1, none, array, line', hcut', hin, rfl, rfl⟩
  · obtain ⟨p, offs, buf', hparse', hname, hargs⟩ := consoleParseCommand_strAt hstr hc
    rw [hparse, Prod.mk.injEq] at hparse'
    obtain ⟨rfl, rfl⟩ := hparse'
    have hoffs := hargs.length_eq
    rw [List.length_take] at hoffs
    refine ⟨offs.length, some p, filled CMD_ARGS_MAX_LENGTH offs array, line', hcut', hin, ?_⟩
    refine ⟨by rw [hoffs], ⟨p, rfl, hname⟩, fun i hi hn => filled_args hargs i hi hn, ?_, fun i hi => ?_⟩
    · exact filled_length (by omega) hlen
    · exact filled_others (by omega) hi

theorem consoleParseCommandIn_grammar_eleven :
    ∃ ret name args line', Cut delimiters (bytes "\r==K=a;;=;c;d;e;f;g;h;i;j;k\n") line' ∧
      (∀ junk, consoleParseCommandIn (bytes "\r==K=a;;=;c;d;e;f;g;h;i;j;k\n" ++ 0 :: junk)
        (List.replicate 10 none) = some ⟨ret, name, args, line' ++ 0 :: junk⟩) ∧
      Accepted (bytes "K") ((["a", "=", "c", "d", "e", "f", "g", "h", "i", "j", "k"]).map bytes)
        (List.replicate 10 none) ⟨ret, name, args, line' ++ [0]⟩ := by
  have hgrammar : grammar (bytes "\r==K=a;;=;c;d;e;f;g;h;i;j;k\n") =
      some (bytes "K", (["a", "=", "c", "d", "e", "f", "g", "h", "i", "j", "k"]).map bytes) := by decide
  have h := consoleParseCommandIn_grammar (bytes "\r==K=a;;=;c;d;e;f;g;h;i;j;k\n") (by decide)
    (List.replicate 10 none) (by decide)
  rw [hgrammar] at h
  exact h

end InfoWorkshop.Console
