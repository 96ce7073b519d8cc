import Mathlib

/-!
# Square grids of cells

A grid is written a cell at a time. Of the cells a list paints at one place the last one stays
(`cellAt_paint`), and what is written along a path of distinct places stays there (`last?_along`).
The rows written one after another are told apart again (`rowsOf_flatten`). Boxes of places that
are apart are counted by their areas (`card_cover`).
-/

namespace Coding

/-- What is written, and where. -/
structure Cell (α : Type*) where
  x : Nat
  y : Nat
  val : α

section
variable {α : Type*}

/-- The cell is at a place. -/
def Cell.isAt (c : Cell α) (x y : Nat) : Bool := c.x == x && c.y == y

@[simp] theorem Cell.isAt_iff (c : Cell α) (x y : Nat) : c.isAt x y = true ↔ c.x = x ∧ c.y = y := by
  simp [isAt]

/-- A grid of `n` rows, each of `n` cells. -/
structure IsSquare (n : Nat) (g : List (List α)) : Prop where
  rows : g.length = n
  cols : ∀ row ∈ g, row.length = n

def put (g : List (List α)) (x y : Nat) (a : α) : List (List α) := g.modify y fun row => row.set x a

def paint (cells : List (Cell α)) (g : List (List α)) : List (List α) :=
  cells.foldl (fun g c => put g c.x c.y c.val) g

/-- What a list of cells leaves at a place. -/
def last? (cells : List (Cell α)) (x y : Nat) : Option α :=
  (cells.reverse.find? fun c => c.isAt x y).map Cell.val

/-- Rows of `n` cells, from a list of cells. -/
def rowsOf (n : Nat) (l : List α) : List (List α) :=
  (List.range n).map fun y => (l.drop (y * n)).take n

variable {n : Nat} {g g' : List (List α)}

theorem isSquare_replicate (n : Nat) (a : α) : IsSquare n (List.replicate n (List.replicate n a)) :=
  ⟨List.length_replicate, fun row hrow => by
    rw [List.eq_of_mem_replicate hrow, List.length_replicate]⟩

/-- The rows written one after another are told apart again. -/
theorem IsSquare.rowsOf_flatten (hg : IsSquare n g) : rowsOf n g.flatten = g := by
  have hrows : ∀ g : List (List α), (∀ row ∈ g, row.length = n) →
      ((List.range g.length).map fun y => (g.flatten.drop (y * n)).take n) = g := by
    intro g
    induction g with
    | nil => intro; rfl
    | cons row g ih =>
      intro hcols
      obtain ⟨hrow, hcols⟩ := List.forall_mem_cons.mp hcols
      have hrest : ∀ y, (row ++ g.flatten).drop ((y + 1) * n) = g.flatten.drop (y * n) := by
        intro y
        rw [Nat.succ_mul, Nat.add_comm, ← hrow, List.drop_length_add_append]
      rw [List.length_cons, List.range_succ_eq_map, List.map_cons, List.map_map, Nat.zero_mul,
        List.drop_zero, List.flatten_cons, List.take_left' hrow]
      refine congrArg _ (Eq.trans (List.map_congr_left fun y _ => ?_) (ih hcols))
      rw [Function.comp_apply, hrest]
  have hall := hrows g hg.cols
  rwa [hg.rows] at hall

theorem IsSquare.put (hg : IsSquare n g) (x y : Nat) (a : α) : IsSquare n (put g x y a) := by
  refine ⟨by rw [Coding.put, List.length_modify, hg.rows], fun row hrow => ?_⟩
  obtain ⟨i, hi, rfl⟩ := List.mem_iff_getElem.mp hrow
  simp only [Coding.put, List.getElem_modify]
  split
  · rw [List.length_set]
    exact hg.cols _ (List.getElem_mem _)
  · exact hg.cols _ (List.getElem_mem _)

theorem IsSquare.paint (hg : IsSquare n g) (cells : List (Cell α)) :
    IsSquare n (paint cells g) := by
  induction cells generalizing g with
  | nil => exact hg
  | cons c cells ih => exact ih (hg.put c.x c.y c.val)

theorem paint_append (as bs : List (Cell α)) (g : List (List α)) :
    paint (as ++ bs) g = paint bs (paint as g) := List.foldl_append

/-! ## What is left at a place -/

theorem last?_append (as bs : List (Cell α)) (x y : Nat) :
    last? (as ++ bs) x y = (last? bs x y).or (last? as x y) := by
  simp [last?, List.find?_append, Option.map_or]

theorem last?_eq_none {cells : List (Cell α)} {x y : Nat} :
    last? cells x y = none ↔ ∀ c ∈ cells, ¬(c.x = x ∧ c.y = y) := by
  simp [last?]

/-- Cells that agree about a place leave what they agree on. -/
theorem last?_eq_some {cells : List (Cell α)} {x y : Nat} {a : α}
    (hmem : ∃ c ∈ cells, c.x = x ∧ c.y = y)
    (hval : ∀ c ∈ cells, c.x = x → c.y = y → c.val = a) : last? cells x y = some a := by
  cases h : last? cells x y with
  | none =>
    obtain ⟨c, hc, hat⟩ := hmem
    exact absurd hat (last?_eq_none.mp h c hc)
  | some b =>
    obtain ⟨c, hfind, rfl⟩ := Option.map_eq_some_iff.mp h
    have hat := List.find?_some hfind
    obtain ⟨hx, hy⟩ := (c.isAt_iff x y).mp hat
    rw [hval c (List.mem_reverse.mp (List.mem_of_find?_eq_some hfind)) hx hy]

end

section
variable {α : Type*} [Inhabited α]

def cellAt (g : List (List α)) (x y : Nat) : α := (g.getD y []).getD x default

variable {n : Nat} {g g' : List (List α)}

theorem IsSquare.cellAt_eq (hg : IsSquare n g) {x y : Nat} (hx : x < n) (hy : y < n) :
    ∃ hy : y < g.length, ∃ hx : x < g[y].length, cellAt g x y = g[y][x] := by
  have hy' : y < g.length := hg.rows ▸ hy
  have hx' : x < g[y].length := by
    rw [hg.cols _ (List.getElem_mem hy')]
    exact hx
  refine ⟨hy', hx', ?_⟩
  rw [cellAt, List.getD_eq_getElem _ _ hy', List.getD_eq_getElem _ _ hx']

theorem IsSquare.ext (hg : IsSquare n g) (hg' : IsSquare n g')
    (h : ∀ x < n, ∀ y < n, cellAt g x y = cellAt g' x y) : g = g' := by
  refine List.ext_getElem (by rw [hg.rows, hg'.rows]) fun y hy hy' => ?_
  have hrow : g[y].length = n := hg.cols _ (List.getElem_mem hy)
  have hrow' : g'[y].length = n := hg'.cols _ (List.getElem_mem hy')
  refine List.ext_getElem (by rw [hrow, hrow']) fun x hx hx' => ?_
  have hxn : x < n := hrow ▸ hx
  have hyn : y < n := hg.rows ▸ hy
  obtain ⟨_, _, heq⟩ := hg.cellAt_eq hxn hyn
  obtain ⟨_, _, heq'⟩ := hg'.cellAt_eq hxn hyn
  rw [← heq, ← heq', h x hxn y hyn]

/-- A grid is made of its cells. -/
theorem IsSquare.map_cellAt (hg : IsSquare n g) :
    ((List.range n).map fun y => (List.range n).map fun x => cellAt g x y) = g := by
  refine IsSquare.ext ⟨by simp, ?_⟩ hg fun x hx y hy => ?_
  · simp
  · simp [cellAt, hx, hy]

theorem IsSquare.cellAt_put (hg : IsSquare n g) {x' y' : Nat} (hx : x' < n) (hy : y' < n)
    (x y : Nat) (a : α) :
    cellAt (Coding.put g x y a) x' y' = if x' = x ∧ y' = y then a else cellAt g x' y' := by
  obtain ⟨hy₀, hx₀, heq⟩ := hg.cellAt_eq hx hy
  obtain ⟨hy₁, hx₁, heq₁⟩ := (hg.put x y a).cellAt_eq hx hy
  rw [heq, heq₁]
  simp only [Coding.put, List.getElem_modify]
  by_cases hyy : y = y'
  · subst hyy
    simp only [if_true, List.getElem_set]
    by_cases hxx : x = x'
    · subst hxx
      simp
    · simp [hxx, Ne.symm hxx]
  · simp [hyy, Ne.symm hyy]

theorem IsSquare.cellAt_paint (hg : IsSquare n g) {x y : Nat} (hx : x < n) (hy : y < n)
    (cells : List (Cell α)) :
    cellAt (Coding.paint cells g) x y = (last? cells x y).getD (cellAt g x y) := by
  induction cells using List.reverseRecOn with
  | nil => rfl
  | append_singleton cells c ih =>
    rw [paint_append, last?_append]
    refine ((hg.paint cells).cellAt_put hx hy c.x c.y c.val).trans ?_
    by_cases hat : x = c.x ∧ y = c.y
    · rw [if_pos hat]
      simp [last?, Cell.isAt, hat.1, hat.2]
    · have hnot : c.isAt x y = false := by
        rw [← Bool.not_eq_true, Cell.isAt_iff]
        exact fun h => hat ⟨h.1.symm, h.2.symm⟩
      rw [if_neg hat, ih]
      simp [last?, hnot]

/-! ## Writing along a path -/

/-- The cells that write letters along a path, one at each place. -/
def along (places : List (Nat × Nat)) (as : List α) : List (Cell α) :=
  List.zipWith (fun p a => ⟨p.1, p.2, a⟩) places as

omit [Inhabited α] in
theorem last?_along {places : List (Nat × Nat)} (hnodup : places.Nodup) {as : List α} {i : Nat}
    (hi : i < places.length) : last? (along places as) places[i].1 places[i].2 = as[i]? := by
  induction places generalizing as i with
  | nil => exact absurd hi (Nat.not_lt_zero i)
  | cons p places ih => cases as with
    | nil => simp [along, last?]
    | cons a as =>
      obtain ⟨hp, hrest⟩ := List.nodup_cons.mp hnodup
      have hsplit : along (p :: places) (a :: as) = [⟨p.1, p.2, a⟩] ++ along places as := rfl
      rw [hsplit, last?_append]
      cases i with
      | zero =>
        have hnone : last? (along places as) p.1 p.2 = none := by
          refine last?_eq_none.mpr fun c hc hat => hp ?_
          rw [along, ← List.map_uncurry_zip_eq_zipWith] at hc
          obtain ⟨q, hq, rfl⟩ := List.mem_map.mp hc
          have hqp : q.1 = p := Prod.ext hat.1 hat.2
          exact hqp ▸ (List.of_mem_zip hq).1
        rw [List.getElem_cons_zero, hnone]
        simp [last?, Cell.isAt]
      | succ i =>
        have hi : i < places.length := Nat.lt_of_succ_lt_succ hi
        have hne : p ≠ places[i] := fun h => hp (h ▸ List.getElem_mem hi)
        have hnone : last? [(⟨p.1, p.2, a⟩ : Cell α)] places[i].1 places[i].2 = none := by
          refine last?_eq_none.mpr fun c hc hat => hne ?_
          rw [List.mem_singleton.mp hc] at hat
          exact Prod.ext hat.1 hat.2
        rw [List.getElem_cons_succ, ih hrest hi, hnone, Option.or_none, List.getElem?_cons_succ]

omit [Inhabited α] in
theorem last?_along_of_notMem {places : List (Nat × Nat)} {x y : Nat} (h : (x, y) ∉ places)
    (as : List α) : last? (along places as) x y = none := by
  refine last?_eq_none.mpr fun c hc hat => h ?_
  rw [along, ← List.map_uncurry_zip_eq_zipWith] at hc
  obtain ⟨q, hq, rfl⟩ := List.mem_map.mp hc
  have hqp : q.1 = (x, y) := Prod.ext hat.1 hat.2
  exact hqp ▸ (List.of_mem_zip hq).1

end

/-! ## Boxes -/

/-- A box of places: its corner, its width and its height. -/
structure Box where
  x : Nat
  y : Nat
  w : Nat
  h : Nat

namespace Box

def contains (b : Box) (x y : Nat) : Prop := b.x ≤ x ∧ x < b.x + b.w ∧ b.y ≤ y ∧ y < b.y + b.h

/-- The boxes have no place in common. -/
def apart (a b : Box) : Prop :=
  a.x + a.w ≤ b.x ∨ b.x + b.w ≤ a.x ∨ a.y + a.h ≤ b.y ∨ b.y + b.h ≤ a.y

/-- A check of `List.Pairwise apart`. -/
def allApart : List Box → Bool
  | [] => true
  | b :: bs => (bs.all fun c => Nat.ble (b.x + b.w) c.x || (Nat.ble (c.x + c.w) b.x ||
      (Nat.ble (b.y + b.h) c.y || Nat.ble (c.y + c.h) b.y))) && allApart bs

theorem pairwise_of_allApart {bs : List Box} (h : allApart bs = true) : bs.Pairwise apart := by
  induction bs with
  | nil => exact List.Pairwise.nil
  | cons b bs ih =>
    rw [allApart, Bool.and_eq_true, List.all_eq_true] at h
    refine List.pairwise_cons.mpr ⟨fun c hc => ?_, ih h.2⟩
    simpa only [Bool.or_eq_true, Nat.ble_eq, apart] using h.1 c hc

def places (b : Box) : Finset (Nat × Nat) :=
  Finset.Ico b.x (b.x + b.w) ×ˢ Finset.Ico b.y (b.y + b.h)

@[simp] theorem mem_places (b : Box) (x y : Nat) : (x, y) ∈ b.places ↔ b.contains x y := by
  simp [places, contains, and_assoc]

/-- The places of some box. -/
def cover : List Box → Finset (Nat × Nat)
  | [] => ∅
  | b :: bs => b.places ∪ cover bs

theorem mem_cover {bs : List Box} {x y : Nat} : (x, y) ∈ cover bs ↔ ∃ b ∈ bs, b.contains x y := by
  induction bs with
  | nil => simp [cover]
  | cons b bs ih => simp [cover, ih]

/-- Boxes that are apart have as many places as their areas say. -/
theorem card_cover {bs : List Box} (h : bs.Pairwise apart) :
    (cover bs).card = (bs.map fun b => b.w * b.h).sum := by
  induction bs with
  | nil => rfl
  | cons b bs ih =>
    obtain ⟨hb, hbs⟩ := List.pairwise_cons.mp h
    have hdisj : Disjoint b.places (cover bs) := by
      refine Finset.disjoint_left.mpr ?_
      rintro ⟨x, y⟩ hin hcov
      obtain ⟨c, hc, hx, hx', hy, hy'⟩ := mem_cover.mp hcov
      obtain ⟨hbx, hbx', hby, hby'⟩ := (b.mem_places x y).mp hin
      rcases hb c hc with h | h | h | h <;> omega
    have harea : b.places.card = b.w * b.h := by simp [places, Finset.card_product]
    rw [cover, Finset.card_union_of_disjoint hdisj, ih hbs, harea, List.map_cons, List.sum_cons]

end Box

end Coding
