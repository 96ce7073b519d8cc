import Mathlib

/-!
# Blocks read slot by slot

Blocks of unequal length are sent one slot of each at a time: first the slots that all of them have,
then the one that only the long blocks have, then the rest. `Weave.index`: where in the stream a slot of
a block is, so the blocks are read back from it (`stream_slot`).
-/

namespace Coding

section
variable {α : Type*}

/-- `a` rows of `n` items each, one after the other. -/
def rows (a n : Nat) (f : Nat → Nat → α) : List α :=
  (List.range a).flatMap fun i => (List.range n).map (f i)

@[simp] theorem rows_length (a n : Nat) (f : Nat → Nat → α) : (rows a n f).length = a * n := by
  simp [rows, List.length_flatMap]

theorem rows_getElem? {a n i j : Nat} (f : Nat → Nat → α) (hi : i < a) (hj : j < n) :
    (rows a n f)[i * n + j]? = some (f i j) := by
  induction a with
  | zero => exact absurd hi (Nat.not_lt_zero i)
  | succ a ih =>
    have hsplit : rows (a + 1) n f = rows a n f ++ (List.range n).map (f a) := by
      simp [rows, List.range_succ, List.flatMap_append]
    rw [hsplit]
    rcases Nat.lt_succ_iff_lt_or_eq.mp hi with hlt | rfl
    · have hin : i * n + j < a * n := by nlinarith
      rw [List.getElem?_append_left (by rw [rows_length]; exact hin), ih hlt]
    · rw [List.getElem?_append_right (by simp), rows_length, Nat.add_sub_cancel_left]
      simp [hj]

end

/-- `count` blocks: of the first `short` ones, slot `pad` is left out; `tail` slots follow it. -/
structure Weave where
  count : Nat
  short : Nat
  pad : Nat
  tail : Nat
  short_le : short ≤ count

namespace Weave

variable {α : Type*} (w : Weave)

/-- The slot is one that is left out. -/
def skips (j i : Nat) : Bool := i == w.pad && decide (j < w.short)

/-- The slots of the blocks, one of each at a time. -/
def stream (block : Nat → Nat → α) : List α :=
  (List.range (w.pad + 1 + w.tail)).flatMap fun i =>
    ((List.range w.count).filter fun j => !w.skips j i).map fun j => block j i

/-- The number of slots before those that follow the one left out. -/
def head : Nat := w.pad * w.count + (w.count - w.short)

/-- The length of a block before the slots that follow the one left out. -/
def front (j : Nat) : Nat := if j < w.short then w.pad else w.pad + 1

/-- Where slot `i` of block `j` is. -/
def index (j i : Nat) : Nat :=
  if i < w.pad then i * w.count + j
  else if i = w.pad then w.pad * w.count + (j - w.short)
  else w.head + ((i - (w.pad + 1)) * w.count + j)

/-- The slots of a block: those in front, and those that follow. -/
def slots (j : Nat) : List Nat :=
  List.range (w.front j) ++ (List.range w.tail).map (w.pad + 1 + ·)

theorem stream_eq (block : Nat → Nat → α) : w.stream block =
    rows w.pad w.count (fun i j => block j i) ++
      ((List.range' w.short (w.count - w.short)).map (fun j => block j w.pad) ++
        rows w.tail w.count fun i j => block j (w.pad + 1 + i)) := by
  have hall : ∀ i ≠ w.pad, ((List.range w.count).filter fun j => !w.skips j i) =
      List.range w.count := by
    intro i hi
    refine List.filter_eq_self.mpr fun j _ => ?_
    simp [skips, hi]
  have hlong : ((List.range w.count).filter fun j => !w.skips j w.pad) =
      List.range' w.short (w.count - w.short) := by
    have hrange : List.range w.count =
        List.range w.short ++ List.range' w.short (w.count - w.short) := by
      have h := List.range'_append_1 (s := 0) (m := w.short) (n := w.count - w.short)
      rw [Nat.zero_add, Nat.add_sub_cancel' w.short_le] at h
      rw [List.range_eq_range', ← h, List.range_eq_range']
    rw [hrange, List.filter_append, List.filter_eq_nil_iff.mpr, List.nil_append,
      List.filter_eq_self.mpr]
    · intro j hj
      have hj := (List.mem_range'_1.mp hj).1
      simp [skips, hj]
    · intro j hj
      simp [skips, List.mem_range.mp hj]
  rw [stream, List.range_add, List.range_succ, List.flatMap_append, List.flatMap_append,
    List.flatMap_singleton, hlong, List.append_assoc, List.flatMap_map]
  congr 1
  · refine List.flatMap_congr fun i hi => ?_
    rw [hall i (List.mem_range.mp hi).ne]
  · congr 1
    refine List.flatMap_congr fun i _ => ?_
    rw [hall _ (by omega)]

theorem stream_length (block : Nat → Nat → α) :
    (w.stream block).length = w.head + w.tail * w.count := by
  rw [stream_eq]
  simp [head, Nat.add_assoc]

/-- Every slot of a block is where the reader looks for it. -/
theorem stream_slot (block : Nat → Nat → α) {j i : Nat} (hj : j < w.count) (hi : i ∈ w.slots j) :
    (w.stream block)[w.index j i]? = some (block j i) := by
  rw [stream_eq]
  rcases List.mem_append.mp hi with hi | hi
  · have hi : i < w.front j := List.mem_range.mp hi
    unfold front at hi
    unfold Weave.index
    by_cases hlt : i < w.pad
    · have hin : i * w.count + j < w.pad * w.count := by nlinarith
      rw [if_pos hlt, List.getElem?_append_left (by rw [rows_length]; exact hin),
        rows_getElem? _ hlt hj]
    · have hlong : ¬j < w.short := by
        intro hs
        rw [if_pos hs] at hi
        exact hlt hi
      have hpad : i = w.pad := by
        rw [if_neg hlong] at hi
        omega
      subst hpad
      have hin : j - w.short < w.count - w.short := by omega
      rw [if_neg hlt, if_pos rfl, List.getElem?_append_right (by rw [rows_length]; omega), rows_length,
        Nat.add_sub_cancel_left, List.getElem?_append_left (by simpa using hin)]
      simp [hin, Nat.add_sub_cancel' (not_lt.mp hlong)]
  · obtain ⟨e, he, rfl⟩ := List.mem_map.mp hi
    have he : e < w.tail := List.mem_range.mp he
    have hlen : (rows w.pad w.count (fun i j => block j i)).length +
        ((List.range' w.short (w.count - w.short)).map (fun j => block j w.pad)).length = w.head := by
      simp [head]
    have hat : w.index j (w.pad + 1 + e) = w.head + (e * w.count + j) := by
      rw [Weave.index, if_neg (by omega), if_neg (by omega), Nat.add_sub_cancel_left]
    rw [hat, ← List.append_assoc, List.getElem?_append_right (by rw [List.length_append, hlen]; omega),
      List.length_append, hlen, Nat.add_sub_cancel_left, rows_getElem? _ he hj]

theorem map_getD {α : Type*} (d : α) (pre mid post : List α) :
    (List.range mid.length).map (fun i => (pre ++ mid ++ post).getD (pre.length + i) d) = mid := by
  refine List.ext_getElem (by simp) fun i hi hi' => ?_
  have hin : pre.length + i < (pre ++ mid).length := by
    rw [List.length_append]
    omega
  rw [List.getElem_map, List.getElem_range, List.getD_append _ _ _ _ hin,
    List.getD_append_right _ _ _ _ (Nat.le_add_right ..), Nat.add_sub_cancel_left,
    List.getD_eq_getElem _ _ hi']

/-- The slots of a padded block are the block. -/
theorem map_slots {d a : α} {j : Nat} {front back : List α} (hfront : front.length = w.front j)
    (hback : back.length = w.tail) :
    (w.slots j).map (fun i => ((if j < w.short then front ++ [a] else front) ++ back).getD i d) =
      front ++ back := by
  have hlen : (if j < w.short then front ++ [a] else front).length = w.pad + 1 := by
    unfold Weave.front at hfront
    split at hfront
    · rw [if_pos ‹_›, List.length_append, hfront, List.length_singleton]
    · rw [if_neg ‹_›, hfront]
  have hpre : ∃ rest, (if j < w.short then front ++ [a] else front) ++ back = [] ++ front ++ rest := by
    split
    · exact ⟨[a] ++ back, by rw [List.nil_append, List.append_assoc]⟩
    · exact ⟨back, by rw [List.nil_append]⟩
  rw [slots, List.map_append, List.map_map]
  congr 1
  · obtain ⟨rest, hrest⟩ := hpre
    have h := map_getD d [] front rest
    rw [← hrest, hfront] at h
    simpa using h
  · have h := map_getD d (if j < w.short then front ++ [a] else front) back []
    rw [hlen, hback, List.append_nil] at h
    exact h

end Weave

end Coding
