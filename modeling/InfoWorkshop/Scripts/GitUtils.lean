/-
`scripts/ci/git_utils.py`: `parse_version`, `get_latest_tag` and `version_to_string`, over Python's `int`
of a string and `str` of an integer. Texts are lists of characters.
-/
import InfoWorkshop.Lib.Decimal

namespace InfoWorkshop.Scripts

open InfoWorkshop.Decimal

/-! ## Python -/

/-- What `int` and `str` take from the interpreter: which characters outside ASCII are white space or
decimal digits, and the limit on the number of digits (0 for none). -/
structure Python where
  isSpace : Char → Bool
  decimal : Char → Option (Fin 10)
  intMaxStrDigits : Nat

/-- The white space of ASCII. -/
def asciiSpace (c : Char) : Bool :=
  c == ' ' || c == '\t' || c == '\n' || c == '\x0b' || c == '\x0c' || c == '\r'

/-- The digits and spaces outside ASCII are replaced by those of ASCII before a number is read. -/
def toAscii (py : Python) (c : Char) : Char :=
  if c.toNat < 128 then c
  else if py.isSpace c = true then ' '
  else match py.decimal c with
    | some d => d.val.digitChar
    | none => '?'

/-- Underscores after the character `prev` stand between digits. -/
def separated (prev : Char) : List Char → Bool
  | [] => prev != '_'
  | c :: cs => (c != '_' || prev != '_') && separated c cs

/-- The sign of a number, and the text after it. -/
def sign : List Char → Bool × List Char
  | '-' :: s => (true, s)
  | '+' :: s => (false, s)
  | s => (false, s)

/-- `int(s)`; `none` for a `ValueError`. -/
def int (py : Python) (s : List Char) : Option Int :=
  let signed := sign ((s.map (toAscii py)).dropWhile asciiSpace)
  let body := signed.2.takeWhile fun c => c.isDigit || c == '_'
  let rest := signed.2.dropWhile fun c => c.isDigit || c == '_'
  let digits := body.filter Char.isDigit
  let value := Nat.ofDigitChars 10 digits 0
  if body ≠ [] ∧ separated '_' body = true ∧ rest.all asciiSpace = true ∧
      (py.intMaxStrDigits = 0 ∨ digits.length ≤ py.intMaxStrDigits) then
    some (if signed.1 = true then -(value : Int) else value)
  else none

/-- `str(n)` of an integer. -/
def str : Int → List Char
  | .ofNat n => Nat.toDigits 10 n
  | .negSucc n => '-' :: Nat.toDigits 10 (n + 1)

/-! ## `parse_version` -/

/-- The exceptions of `parse_version`: the `IndexError` of the empty text, its own `ValueError`s, and the
`ValueError` of `int` for a part. -/
inductive PyError
  | indexError
  | valueError (text : String)
  | invalidLiteral (part : List Char)
  deriving DecidableEq, Repr

/-- `list(map(int, parts))`. -/
def mapInt (py : Python) : List (List Char) → Except PyError (List Int)
  | [] => .ok []
  | part :: parts =>
    match int py part with
    | none => .error (.invalidLiteral part)
    | some n =>
      match mapInt py parts with
      | .error e => .error e
      | .ok ns => .ok (n :: ns)

/-- `parse_version`. -/
def parseVersion (py : Python) (version : List Char) : Except PyError (Int × Int × Int) :=
  match version with
  | [] => .error .indexError
  | c :: cs =>
    if c ≠ 'v' then .error (.valueError "Tag should begin with `v` character")
    else match mapInt py (cs.splitOn '.') with
      | .error e => .error e
      | .ok [major, minor] => .ok (major, minor, 0)
      | .ok [major, minor, patch] => .ok (major, minor, patch)
      | .ok _ => .error (.valueError "Tag format is not correct")

/-! ## `get_latest_tag` and `version_to_string` -/

/-- What ends a script: an exception that is not caught, or `sys.exit`. -/
inductive ScriptError
  | unicodeDecodeError
  | indexError
  | valueError
  | systemExit (code : Nat)
  deriving DecidableEq, Repr

/-- `a > b` of tuples: the first components that differ decide. -/
def greater (a b : Int × Int × Int) : Bool :=
  if a.1 ≠ b.1 then a.1 > b.1
  else if a.2.1 ≠ b.2.1 then a.2.1 > b.2.1
  else a.2.2 > b.2.2

/-- The loop of `get_latest_tag` over the lines that `git tag` writes, `none` being a line that is not UTF-8.
It goes on after a `ValueError`. -/
def latestTagLoop (py : Python) (latestTag : Int × Int × Int) :
    List (Option (List Char)) → Except ScriptError (Int × Int × Int)
  | [] => .ok latestTag
  | none :: _ => .error .unicodeDecodeError
  | some line :: lines =>
    match parseVersion py line with
    | .ok tagVersion => latestTagLoop py (if greater tagVersion latestTag then tagVersion else latestTag) lines
    | .error .indexError => .error .indexError
    | .error (.valueError _) | .error (.invalidLiteral _) => latestTagLoop py latestTag lines

/-- `get_latest_tag`. -/
def getLatestTag (py : Python) (lines : List (Option (List Char))) : Except ScriptError (Int × Int × Int) :=
  latestTagLoop py (0, 0, 0) lines

/-- The number has no more digits than `str` writes. -/
def Printable (py : Python) (n : Int) : Prop :=
  py.intMaxStrDigits = 0 ∨ (Nat.toDigits 10 n.natAbs).length ≤ py.intMaxStrDigits

instance (py : Python) (n : Int) : Decidable (Printable py n) := inferInstanceAs (Decidable (_ ∨ _))

/-- `v` and the three numbers with dots between them. -/
def tagText (version : Int × Int × Int) : List Char :=
  'v' :: (str version.1 ++ '.' :: (str version.2.1 ++ '.' :: str version.2.2))

/-- `version_to_string`, with a `ValueError` of `str` for a number that is too long. -/
def versionToString (py : Python) (version : Int × Int × Int) : Except ScriptError (List Char) :=
  if Printable py version.1 ∧ Printable py version.2.1 ∧ Printable py version.2.2 then .ok (tagText version)
  else .error .valueError

/-! ## What is accepted -/

theorem mapInt_ok {py : Python} {parts : List (List Char)} {ns : List Int}
    (h : mapInt py parts = .ok ns) : List.Forall₂ (fun part n => int py part = some n) parts ns := by
  induction parts generalizing ns with
  | nil => cases h; exact .nil
  | cons part parts ih =>
    simp only [mapInt] at h
    rcases hn : int py part with _ | n
    · rw [hn] at h; cases h
    · rw [hn] at h
      rcases hns : mapInt py parts with e | ns'
      · rw [hns] at h; cases h
      · rw [hns] at h
        cases h
        exact .cons hn (ih hns)

/-- An accepted tag has two components or three, which `int` reads. -/
theorem parseVersion_ok {py : Python} {tag : List Char} {v : Int × Int × Int}
    (h : parseVersion py tag = .ok v) :
    ∃ cs, tag = 'v' :: cs ∧
      ((∃ a b, cs.splitOn '.' = [a, b] ∧ int py a = some v.1 ∧ int py b = some v.2.1 ∧ v.2.2 = 0) ∨
        ∃ a b c, cs.splitOn '.' = [a, b, c] ∧ int py a = some v.1 ∧ int py b = some v.2.1 ∧
          int py c = some v.2.2) := by
  unfold parseVersion at h
  split at h
  · cases h
  · rename_i c cs
    split at h
    · cases h
    · rename_i hc
      rw [not_not] at hc
      subst hc
      refine ⟨cs, rfl, ?_⟩
      split at h
      · cases h
      · rename_i major minor hparts
        cases h
        generalize cs.splitOn '.' = parts at hparts ⊢
        rcases mapInt_ok hparts with _ | ⟨ha, _ | ⟨hb, _ | _⟩⟩
        exact .inl ⟨_, _, rfl, ha, hb, rfl⟩
      · rename_i major minor patch hparts
        cases h
        generalize cs.splitOn '.' = parts at hparts ⊢
        rcases mapInt_ok hparts with _ | ⟨ha, _ | ⟨hb, _ | ⟨hc, _ | _⟩⟩⟩
        exact .inr ⟨_, _, _, rfl, ha, hb, hc⟩
      · cases h

theorem mapInt_ne_indexError {py : Python} {parts : List (List Char)} : mapInt py parts ≠ .error .indexError := by
  induction parts with
  | nil => simp [mapInt]
  | cons part parts ih =>
    unfold mapInt
    split
    · simp
    · split
      · rename_i e he
        rintro ⟨⟩
        exact ih he
      · simp

/-- Only the empty text has no first character to look at. -/
theorem parseVersion_indexError_iff {py : Python} {tag : List Char} :
    parseVersion py tag = .error .indexError ↔ tag = [] := by
  constructor
  · intro h
    unfold parseVersion at h
    split at h
    · rfl
    · split at h
      · cases h
      · split at h
        · rename_i he
          cases h
          exact absurd he mapInt_ne_indexError
        all_goals cases h
  · rintro rfl
    rfl

/-! ## Decimal text -/

theorem digit_ascii {c : Char} (h : c.isDigit = true) : c.toNat < 128 := by
  obtain ⟨d, hd, rfl⟩ := digit_cases h
  rw [Nat.toNat_digitChar_of_lt_ten hd]
  omega

theorem digit_kind {c : Char} (h : c.isDigit = true) :
    asciiSpace c = false ∧ c ≠ '-' ∧ c ≠ '+' ∧ c ≠ '_' ∧ c ≠ '.' ∧ c ≠ 'v' := by
  obtain ⟨d, hd, rfl⟩ := digit_cases h
  have hall : (List.range 10).all (fun d => asciiSpace d.digitChar == false && d.digitChar != '-' &&
    d.digitChar != '+' && d.digitChar != '_' && d.digitChar != '.' && d.digitChar != 'v') = true := by decide
  have hd' := List.all_eq_true.1 hall d (List.mem_range.2 hd)
  simpa [and_assoc] using hd'

theorem separated_digits {l : List Char} (h : Digits l) {prev : Char} (hp : prev ≠ '_' ∨ l ≠ []) :
    separated prev l = true := by
  induction l generalizing prev with
  | nil =>
    rcases hp with hp | hp
    · simpa [separated] using hp
    · exact absurd rfl hp
  | cons c cs ih =>
    have hc : c ≠ '_' := (digit_kind (h c List.mem_cons_self)).2.2.2.1
    have hrest := ih (fun x hx => h x (List.mem_cons_of_mem _ hx)) (.inl hc)
    simp [separated, hc, hrest]

theorem map_toAscii {py : Python} {s : List Char} (h : ∀ c ∈ s, c.toNat < 128) : s.map (toAscii py) = s := by
  rw [List.map_congr_left (g := id) fun c hc => by unfold toAscii; rw [if_pos (h c hc)]; rfl]
  exact List.map_id s

/-- What `int` makes of a sign and digits. -/
theorem int_signed {py : Python} {s l : List Char} {neg : Bool} (hascii : ∀ c ∈ s, c.toNat < 128)
    (hspace : s.dropWhile asciiSpace = s) (hsign : sign s = (neg, l)) (hl : Digits l) :
    int py s = if l ≠ [] ∧ (py.intMaxStrDigits = 0 ∨ l.length ≤ py.intMaxStrDigits) then
      some (if neg = true then -(Nat.ofDigitChars 10 l 0 : Int) else Nat.ofDigitChars 10 l 0) else none := by
  have hmap : s.map (toAscii py) = s := map_toAscii hascii
  have hbody : l.takeWhile (fun c => c.isDigit || c == '_') = l :=
    List.takeWhile_eq_self_iff.2 fun c hc => by rw [hl c hc]; rfl
  have hrest : l.dropWhile (fun c => c.isDigit || c == '_') = [] :=
    List.dropWhile_eq_nil_iff.2 fun c hc => by rw [hl c hc]; rfl
  have hdigits : l.filter Char.isDigit = l := List.filter_eq_self.2 hl
  unfold int
  simp only [hmap, hspace, hsign, hbody, hrest, hdigits]
  by_cases hnil : l = []
  · simp [hnil]
  · simp [hnil, separated_digits hl (.inr hnil)]

theorem dropWhile_space {c : Char} (h : asciiSpace c = false) (cs : List Char) :
    (c :: cs).dropWhile asciiSpace = c :: cs := List.dropWhile_cons_of_neg (by simp [h])

theorem int_of_digits {py : Python} {l : List Char} (h : Digits l) :
    int py l = if l ≠ [] ∧ (py.intMaxStrDigits = 0 ∨ l.length ≤ py.intMaxStrDigits) then
      some (Nat.ofDigitChars 10 l 0 : Int) else none := by
  have hspace : l.dropWhile asciiSpace = l := by
    rcases l with _ | ⟨c, cs⟩
    · rfl
    · exact dropWhile_space (digit_kind (h c List.mem_cons_self)).1 cs
  have hsign : sign l = (false, l) := by
    rcases l with _ | ⟨c, cs⟩
    · rfl
    · obtain ⟨-, hminus, hplus, -⟩ := digit_kind (h c List.mem_cons_self)
      unfold sign
      split
      · rename_i heq; exact absurd (List.cons.inj heq).1 hminus
      · rename_i heq; exact absurd (List.cons.inj heq).1 hplus
      · rfl
  simpa using int_signed (fun c hc => digit_ascii (h c hc)) hspace hsign h

/-- What `int` reads from digits is the number they are the text of. -/
theorem int_digits {py : Python} {l : List Char} (h : Digits l) {n : Int} (hn : int py l = some n) :
    n = Nat.ofDigitChars 10 l 0 := by
  rw [int_of_digits h] at hn
  split at hn
  · simpa using hn.symm
  · cases hn

theorem separated_underscores {l : List Char} (hne : l ≠ []) (h : ∀ c ∈ l, c = '_') (prev : Char) (pre : List Char) :
    separated prev (pre ++ l) = false := by
  induction pre generalizing prev with
  | nil =>
    rcases l with _ | ⟨c, _ | ⟨d, l⟩⟩
    · exact absurd rfl hne
    · simp [separated, h c (by simp)]
    · simp [separated, h c (by simp), h d (by simp)]
  | cons c pre ih => simp [separated, ih]

/-- What `int` reads from a text that begins with digits: more digits, with underscores between them, and
then white space. -/
theorem int_leading {py : Python} {d t : List Char} {n : Int} (hne : d ≠ []) (hd : Digits d)
    (h : int py (d ++ t) = some n) :
    ∃ u r, t.map (toAscii py) = u ++ r ∧ (∀ c ∈ u, c.isDigit = true ∨ c = '_') ∧
      (∀ c ∈ r, asciiSpace c = true) ∧ (u.filter Char.isDigit = [] → u = []) ∧
      n = Nat.ofDigitChars 10 (d ++ u.filter Char.isDigit) 0 := by
  let part (c : Char) : Bool := c.isDigit || c == '_'
  have hpart : ∀ c ∈ d, part c = true := fun c hc => by simp [part, hd c hc]
  have hstart : (d ++ t.map (toAscii py)).dropWhile asciiSpace = d ++ t.map (toAscii py) ∧
      sign (d ++ t.map (toAscii py)) = (false, d ++ t.map (toAscii py)) := by
    rcases d with _ | ⟨c, d⟩
    · exact absurd rfl hne
    · obtain ⟨hspace, hminus, hplus, -⟩ := digit_kind (hd c List.mem_cons_self)
      refine ⟨dropWhile_space hspace _, ?_⟩
      rw [List.cons_append]
      unfold sign
      split
      · rename_i heq; exact absurd (List.cons.inj heq).1 hminus
      · rename_i heq; exact absurd (List.cons.inj heq).1 hplus
      · rfl
  unfold int at h
  simp only [List.map_append, map_toAscii fun c hc => digit_ascii (hd c hc), hstart] at h
  rw [List.takeWhile_append_of_pos hpart, List.dropWhile_append_of_pos hpart] at h
  split at h
  · rename_i hok
    obtain ⟨-, hsep, hrest, -⟩ := hok
    refine ⟨(t.map (toAscii py)).takeWhile part, (t.map (toAscii py)).dropWhile part,
      List.takeWhile_append_dropWhile.symm, fun c hc => ?_, List.all_eq_true.1 hrest, fun hnone => ?_, ?_⟩
    · simpa [part] using List.mem_takeWhile_imp hc
    · by_contra hu
      rw [separated_underscores hu (fun c hc => ?_)] at hsep
      · cases hsep
      · have hnot : c.isDigit ≠ true := List.filter_eq_nil_iff.1 hnone c hc
        simpa [part, hnot] using List.mem_takeWhile_imp hc
    · rw [List.filter_append, List.filter_eq_self.2 hd] at h
      simpa using h.symm
  · cases h

/-- `int` and `str` are inverse, within the limit on digits. -/
theorem int_str {py : Python} {n : Int} (hn : Printable py n) : int py (str n) = some n := by
  cases n with
  | ofNat n =>
    have hdigits := toDigits_digits n
    show int py (Nat.toDigits 10 n) = _
    rw [int_of_digits hdigits, if_pos ⟨Nat.toDigits_ne_nil, hn⟩, Nat.ofDigitChars_ten_toDigits]
    rfl
  | negSucc n =>
    have hdigits := toDigits_digits (n + 1)
    have hascii : ∀ c ∈ '-' :: Nat.toDigits 10 (n + 1), c.toNat < 128 := by
      rw [List.forall_mem_cons]
      exact ⟨by decide, fun c hc => digit_ascii (hdigits c hc)⟩
    show int py ('-' :: Nat.toDigits 10 (n + 1)) = _
    rw [int_signed hascii (dropWhile_space rfl _) rfl hdigits, if_pos ⟨Nat.toDigits_ne_nil, hn⟩,
      Nat.ofDigitChars_ten_toDigits, if_pos rfl]
    rfl

theorem str_kind (n : Int) : ∀ c ∈ str n, c ≠ '.' ∧ c ≠ 'v' := by
  have hdigits : ∀ n : Nat, ∀ c ∈ Nat.toDigits 10 n, c ≠ '.' ∧ c ≠ 'v' :=
    fun n c hc => (digit_kind (toDigits_digits n c hc)).2.2.2.2
  cases n with
  | ofNat n => exact hdigits n
  | negSucc n =>
    intro c hc
    rcases List.mem_cons.1 hc with rfl | hc
    · decide
    · exact hdigits (n + 1) c hc

theorem str_ne_nil (n : Int) : str n ≠ [] := by
  cases n with
  | ofNat n => exact Nat.toDigits_ne_nil
  | negSucc n => exact List.cons_ne_nil _ _

/-- A rendered version is read back. -/
theorem parseVersion_tagText {py : Python} {v : Int × Int × Int}
    (h : Printable py v.1 ∧ Printable py v.2.1 ∧ Printable py v.2.2) : parseVersion py (tagText v) = .ok v := by
  have hdot : ∀ n, '.' ∉ str n := fun n hmem => (str_kind n '.' hmem).1 rfl
  have hsplit : (str v.1 ++ '.' :: (str v.2.1 ++ '.' :: str v.2.2)).splitOn '.' =
      [str v.1, str v.2.1, str v.2.2] := by
    rw [List.splitOn_append_cons_self_of_not_mem (hdot _), List.splitOn_append_cons_self_of_not_mem (hdot _),
      List.splitOn_eq_singleton (hdot _)]
  have hparts : mapInt py [str v.1, str v.2.1, str v.2.2] = .ok [v.1, v.2.1, v.2.2] := by
    simp only [mapInt, int_str h.1, int_str h.2.1, int_str h.2.2]
  simp only [tagText, parseVersion, hsplit, hparts, ne_eq, not_true, if_false]

theorem versionToString_ok {py : Python} {v : Int × Int × Int} {text : List Char}
    (h : versionToString py v = .ok text) : text = tagText v ∧ parseVersion py text = .ok v := by
  unfold versionToString at h
  split at h
  · rename_i hp
    cases h
    exact ⟨rfl, parseVersion_tagText hp⟩
  · cases h

end InfoWorkshop.Scripts
