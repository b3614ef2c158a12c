/-
A stream that is cut into frames at the terminators in it. A reader keeps the elements since the last
frame, and the element that completes a terminator ends the next one. It does not matter in which chunks
the stream arrives, and a stream of texts that contain the terminator only at their ends is cut into
these texts.
-/
import InfoWorkshop.Lib.Terminator

namespace InfoWorkshop.Frames

open InfoWorkshop.Terminator

variable {α : Type} [DecidableEq α]

/-- The frames read so far, and the elements since the last one. -/
structure Reader (α : Type) where
  frames : List (List α)
  part : List α
  deriving DecidableEq, Repr

namespace Reader

def init : Reader α := ⟨[], []⟩

/-- One element arrives. -/
def push (t : List α) (r : Reader α) (x : α) : Reader α :=
  if t <:+ r.part ++ [x] then ⟨r.frames ++ [r.part ++ [x]], []⟩ else ⟨r.frames, r.part ++ [x]⟩

/-- A chunk arrives. -/
def feed (t : List α) (r : Reader α) (chunk : List α) : Reader α := chunk.foldl (push t) r

theorem feed_append (t : List α) (r : Reader α) (a b : List α) : r.feed t (a ++ b) = (r.feed t a).feed t b :=
  List.foldl_append

/-- The chunks do not matter. -/
theorem feed_flatten (t : List α) (chunks : List (List α)) (r : Reader α) :
    chunks.foldl (feed t) r = r.feed t chunks.flatten := by
  induction chunks generalizing r with
  | nil => rfl
  | cons c chunks ih => rw [List.foldl_cons, ih, List.flatten_cons, feed_append]

/-- A frame that was read stays. -/
theorem feed_frames (t : List α) (l : List α) (r : Reader α) : r.frames <+: (r.feed t l).frames := by
  induction l generalizing r with
  | nil => exact List.prefix_rfl
  | cons x l ih =>
    have hpush : r.frames <+: (r.push t x).frames := by
      unfold push
      split
      · exact List.prefix_append _ _
      · exact List.prefix_rfl
    exact hpush.trans (ih (r.push t x))

end Reader

/-! ## Texts with one terminator -/

omit [DecidableEq α] in
/-- The terminator is complete only when the whole text is there. -/
theorem eq_of_suffix {t l p : List α} (h : EndsOnce t l) (hp : p <+: l) (ht : t <:+ p) : p = l := by
  obtain ⟨w, rfl⟩ := ht
  obtain ⟨rest, rfl⟩ := hp
  have hocc : t <+: (w ++ t ++ rest).drop w.length := by
    rw [List.append_assoc, List.drop_left]
    exact List.prefix_append t rest
  have hlen := h.only w.length hocc
  have hrest : rest.length = 0 := by
    simp only [List.length_append] at hlen
    omega
  rw [List.length_eq_zero_iff.1 hrest, List.append_nil]

namespace Reader

/-- The beginning of such a text stays in the part. -/
theorem feed_beginning {t l : List α} (h : EndsOnce t l) (frames : List (List α)) {p : List α} (hp : p <+: l)
    (hne : p ≠ l) : (⟨frames, []⟩ : Reader α).feed t p = ⟨frames, p⟩ := by
  induction p using List.reverseRecOn with
  | nil => rfl
  | append_singleton p x ih =>
    have hp' : p <+: l := (List.prefix_append p [x]).trans hp
    have hne' : p ≠ l := by
      rintro rfl
      have hlen := hp.length_le
      rw [List.length_append, List.length_singleton] at hlen
      omega
    have hopen : ¬ t <:+ p ++ [x] := fun ht => hne (eq_of_suffix h hp ht)
    rw [feed_append, ih hp' hne']
    exact if_neg hopen

/-- The whole text is one frame. -/
theorem feed_text {t l : List α} (ht : t ≠ []) (h : EndsOnce t l) (frames : List (List α)) :
    (⟨frames, []⟩ : Reader α).feed t l = ⟨frames ++ [l], []⟩ := by
  obtain ⟨l, x, rfl⟩ := (List.eq_nil_or_concat' l).resolve_left (h.suffix.ne_nil ht)
  have hbeginning := feed_beginning h frames (List.prefix_append l [x]) (by simp)
  rw [feed_append, hbeginning]
  exact if_pos h.suffix

/-- The texts are the frames. -/
theorem feed_texts {t : List α} (ht : t ≠ []) {ls : List (List α)} (h : ∀ l ∈ ls, EndsOnce t l)
    (frames : List (List α)) : (⟨frames, []⟩ : Reader α).feed t ls.flatten = ⟨frames ++ ls, []⟩ := by
  induction ls generalizing frames with
  | nil =>
    rw [List.append_nil]
    rfl
  | cons l ls ih =>
    obtain ⟨hl, hls⟩ := List.forall_mem_cons.1 h
    rw [List.flatten_cons, feed_append, feed_text ht hl, ih hls, List.append_assoc]
    rfl

/-- Of a stream that breaks off the frames are the first texts. -/
theorem feed_brokenOff {t : List α} (ht : t ≠ []) {ls : List (List α)} (h : ∀ l ∈ ls, EndsOnce t l) {p : List α}
    (hp : p <+: ls.flatten) : ((init : Reader α).feed t p).frames <+: ls := by
  obtain ⟨rest, hrest⟩ := hp
  have hall := feed_texts ht h []
  rw [← hrest, feed_append] at hall
  have hmono := feed_frames t rest ((init : Reader α).feed t p)
  rw [show (init : Reader α) = ⟨[], []⟩ from rfl, hall] at hmono
  exact hmono

end Reader

end InfoWorkshop.Frames
