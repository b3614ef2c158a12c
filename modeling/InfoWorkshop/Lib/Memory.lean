/-
Byte buffers and a heap of byte blocks. An address is the position of its block in the order of
allocation and is not handed out again, so a stale pointer never names another block.
-/
import Mathlib.Data.List.Basic

namespace InfoWorkshop.Memory

abbrev Bytes := List UInt8

/-- The buffer `dst` after `memcpy(dst, src, n)`. -/
def memcpy (dst src : Bytes) (n : Nat) : Bytes := src.take n ++ dst.drop n

theorem memcpy_all {dst src : Bytes} {n : Nat} (hs : src.length = n) (hd : dst.length = n) :
    memcpy dst src n = src := by
  unfold memcpy
  rw [List.take_of_length_le (by omega), List.drop_of_length_le (by omega), List.append_nil]

abbrev Addr := Nat

/-- Every block ever allocated, `none` once it is freed. -/
structure Heap where
  blocks : List (Option Bytes)
  deriving DecidableEq, Repr

namespace Heap

def empty : Heap := ⟨[]⟩

/-- A block of `size` bytes. -/
def alloc (h : Heap) (size : Nat) : Addr × Heap :=
  (h.blocks.length, ⟨h.blocks ++ [some (List.replicate size 0)]⟩)

/-- The bytes of a live block. -/
def read (h : Heap) (p : Addr) : Option Bytes := h.blocks[p]?.join

def write (h : Heap) (p : Addr) (b : Bytes) : Heap := ⟨h.blocks.set p (some b)⟩

def free (h : Heap) (p : Addr) : Heap := ⟨h.blocks.set p none⟩

/-- The addresses of the blocks that are not freed. -/
def live (h : Heap) : List Addr := (List.range h.blocks.length).filter fun p => (h.read p).isSome

theorem read_lt {h : Heap} {p : Addr} {b : Bytes} (hr : h.read p = some b) : p < h.blocks.length := by
  by_contra hp
  simp [read, List.getElem?_eq_none (Nat.le_of_not_lt hp)] at hr

theorem read_alloc_of_read {h : Heap} {p : Addr} {b : Bytes} (size : Nat) (hr : h.read p = some b) :
    (h.alloc size).2.read p = some b := by
  have := read_lt hr
  simpa [read, alloc, List.getElem?_append, this] using hr

theorem read_alloc_new (h : Heap) (size : Nat) :
    (h.alloc size).2.read (h.alloc size).1 = some (List.replicate size 0) := by
  simp [read, alloc]

theorem read_write_ne {h : Heap} {p q : Addr} (hpq : q ≠ p) (b : Bytes) : (h.write p b).read q = h.read q := by
  simp [read, write, List.getElem?_set_ne hpq.symm]

theorem read_write_self {h : Heap} {p : Addr} (hp : p < h.blocks.length) (b : Bytes) :
    (h.write p b).read p = some b := by
  simp [read, write, List.getElem?_set_self hp]

/-- A block that is live before an allocation is not the new one. -/
theorem ne_alloc_of_read {h : Heap} {p : Addr} {b : Bytes} (size : Nat) (hr : h.read p = some b) :
    p ≠ (h.alloc size).1 := by
  have hlt := read_lt hr
  show p ≠ h.blocks.length
  exact Nat.ne_of_lt hlt

/-! ## Live blocks -/

theorem mem_live {h : Heap} {p : Addr} : p ∈ h.live ↔ ∃ b, h.read p = some b := by
  unfold live
  rw [List.mem_filter, List.mem_range, Option.isSome_iff_exists]
  exact ⟨fun hp => hp.2, fun ⟨b, hb⟩ => ⟨read_lt hb, b, hb⟩⟩

theorem live_snoc (bs : List (Option Bytes)) (b : Bytes) :
    live ⟨bs ++ [some b]⟩ = live ⟨bs⟩ ++ [bs.length] := by
  unfold live
  rw [List.length_append, List.length_singleton, List.range_succ, List.filter_append]
  congr 1
  · refine List.filter_congr fun p hp => ?_
    have hlt : p < bs.length := List.mem_range.1 hp
    simp [read, List.getElem?_append, hlt]
  · simp [read]

/-- A new block, once it is written, comes after the other live ones. -/
theorem live_alloc_write (h : Heap) (size : Nat) (b : Bytes) :
    ((h.alloc size).2.write (h.alloc size).1 b).live = h.live ++ [(h.alloc size).1] := by
  have hset : (h.alloc size).2.write (h.alloc size).1 b = ⟨h.blocks ++ [some b]⟩ := by
    simp [alloc, write]
  rw [hset, live_snoc]
  rfl

theorem read_free_self (h : Heap) (p : Addr) : (h.free p).read p = none := by
  unfold read free
  rw [List.getElem?_set]
  simp only [if_true]
  split <;> rfl

theorem read_free_ne {h : Heap} {p q : Addr} (hqp : q ≠ p) : (h.free p).read q = h.read q := by
  simp [read, free, List.getElem?_set_ne hqp.symm]

theorem mem_live_free {h : Heap} {p q : Addr} : q ∈ (h.free p).live ↔ q ∈ h.live ∧ q ≠ p := by
  rw [mem_live, mem_live]
  by_cases hqp : q = p
  · subst hqp
    simp [read_free_self]
  · simp [read_free_ne hqp, hqp]

end Heap

end InfoWorkshop.Memory
