import EthWalletUi.QrGen.Path
import EthWalletUi.QrGen.Symbol

/-!
# What stands at each module

A symbol with a mask (`candidate`) has the cells of its function patterns, and on the modules that are left
the bits of the codewords along the path, inverted by the mask (`candidate_function`,
`candidate_data`).
-/

namespace EthWalletUi.QrGen

open Coding

/-! ## The drawing functions -/

section
variable (qr : Qr) (cells : List (Cell Bool))

theorem draw_eq : draw qr cells = { qr with
    modules := paint cells qr.modules
    isFunction := paint (cells.map fun c => { c with val := true }) qr.isFunction } := by
  induction cells generalizing qr with
  | nil => rfl
  | cons c cells ih =>
    rw [draw, List.foldl_cons]
    exact ih _

@[simp] theorem draw_size : (draw qr cells).size = qr.size := by rw [draw_eq]

@[simp] theorem draw_version : (draw qr cells).version = qr.version := by rw [draw_eq]

@[simp] theorem draw_ecl : (draw qr cells).ecl = qr.ecl := by rw [draw_eq]

theorem draw_modules : (draw qr cells).modules = paint cells qr.modules := by rw [draw_eq]

theorem draw_isFunction : (draw qr cells).isFunction =
    paint (cells.map fun c => { c with val := true }) qr.isFunction := by rw [draw_eq]

theorem draw_append (cells' : List (Cell Bool)) :
    draw qr (cells ++ cells') = draw (draw qr cells) cells' := List.foldl_append

end

/-- The grids of a symbol are as large as it says. -/
structure Shaped (version ecl : Nat) (qr : Qr) : Prop where
  size_eq : qr.size = qrSize version
  version_eq : qr.version = version
  ecl_eq : qr.ecl = ecl
  modules : IsSquare (qrSize version) qr.modules
  isFunction : IsSquare (qrSize version) qr.isFunction

variable {version ecl : Nat} {qr : Qr}

theorem shaped_emptyQr (version ecl : Nat) : Shaped version ecl (emptyQr version ecl) :=
  ⟨rfl, rfl, rfl, isSquare_replicate _ _, isSquare_replicate _ _⟩

theorem Shaped.draw (h : Shaped version ecl qr) (cells : List (Cell Bool)) :
    Shaped version ecl (draw qr cells) := by
  refine ⟨by rw [draw_size, h.size_eq], by rw [draw_version, h.version_eq], by rw [draw_ecl, h.ecl_eq], ?_, ?_⟩
  · rw [draw_modules]
    exact h.modules.paint _
  · rw [draw_isFunction]
    exact h.isFunction.paint _

theorem Shaped.withMask (h : Shaped version ecl qr) (mask : Int) :
    Shaped version ecl (qr.withMask mask) :=
  ⟨h.size_eq, h.version_eq, h.ecl_eq, h.modules, h.isFunction⟩

theorem drawFunctionPatterns_eq (h : Shaped version ecl qr) :
    drawFunctionPatterns qr = draw qr (functionCells version ecl 0) := by
  have halign : ∀ (ps : List (Nat × Nat)) (qr : Qr),
      ps.foldl (fun qr p => drawAlignmentPattern qr p.1 p.2) qr =
        draw qr (ps.flatMap fun p => alignmentCells p.1 p.2) := by
    intro ps
    induction ps with
    | nil => exact fun _ => rfl
    | cons p ps ih =>
      intro qr
      rw [List.foldl_cons, ih, List.flatMap_cons, draw_append]
      rfl
  simp only [drawFunctionPatterns, drawFinderPattern, drawFormatBits, drawVersion, halign, draw_size,
    draw_version, draw_ecl, h.size_eq, h.version_eq, h.ecl_eq, functionCells, draw_append]

/-- A cell is marked as one of a function pattern when one is drawn on it. -/
theorem Shaped.draw_isFunction_at (h : Shaped version ecl qr) (cells : List (Cell Bool)) {x y : Nat}
    (hx : x < qrSize version) (hy : y < qrSize version) :
    cellAt (QrGen.draw qr cells).isFunction x y =
      (decide (∃ c ∈ cells, c.x = x ∧ c.y = y) || cellAt qr.isFunction x y) := by
  rw [draw_isFunction, h.isFunction.cellAt_paint hx hy]
  by_cases hmem : ∃ c ∈ cells, c.x = x ∧ c.y = y
  · have hlast : last? (cells.map fun c => { c with val := true }) x y = some true := by
      refine last?_eq_some ?_ ?_
      · obtain ⟨c, hc, hat⟩ := hmem
        exact ⟨_, List.mem_map_of_mem hc, hat⟩
      · intro c hc _ _
        obtain ⟨c, -, rfl⟩ := List.mem_map.mp hc
        rfl
    rw [hlast, decide_eq_true hmem]
    rfl
  · have hlast : last? (cells.map fun c => { c with val := true }) x y = none := by
      refine last?_eq_none.mpr fun c hc hat => hmem ?_
      obtain ⟨c', hc', rfl⟩ := List.mem_map.mp hc
      exact ⟨c', hc', hat⟩
    rw [hlast, decide_eq_false hmem]
    rfl

/-- A format changes no place of a function pattern. -/
theorem exists_functionCells_iff (hv : IsVersion version) (ecl mask x y : Nat) :
    (∃ c ∈ functionCells version ecl mask, c.x = x ∧ c.y = y) ↔ IsFunctionAt version x y := by
  simp only [IsFunctionAt, functionCells, List.mem_append, or_and_right, exists_or,
    formatCells_at _ x y hv.size.2]

/-- The function patterns mark their modules, and no others. -/
theorem isFunction_drawFunctionPatterns (hv : IsVersion version) {x y : Nat}
    (hx : x < qrSize version) (hy : y < qrSize version) :
    cellAt (drawFunctionPatterns (emptyQr version ecl)).isFunction x y =
      decide (IsFunctionAt version x y) := by
  have hempty := shaped_emptyQr version ecl
  have hblank : cellAt (emptyQr version ecl).isFunction x y = false := by
    obtain ⟨_, _, heq⟩ := hempty.isFunction.cellAt_eq hx hy
    rw [heq]
    simp [emptyQr, newRow]
  rw [drawFunctionPatterns_eq hempty, hempty.draw_isFunction_at _ hx hy, hblank, Bool.or_false]
  exact decide_eq_decide.mpr (exists_functionCells_iff hv ecl 0 x y)

/-! ## The codewords -/

/-- The bits of the codewords, in the order in which they are drawn. -/
def dataBits (data : List Nat) : List Bool := (List.range (data.length * 8)).map (dataBit data)

@[simp] theorem dataBits_length (data : List Nat) : (dataBits data).length = data.length * 8 := by
  simp [dataBits]

theorem drawCodewords_eq (qr : Qr) (data : List Nat) : drawCodewords qr data = { qr with
    modules := paint (along ((path qr.size).filter fun p => !cellAt qr.isFunction p.1 p.2)
      (dataBits data)) qr.modules } := by
  have hloop : ∀ (ps : List (Nat × Nat)) (g : List (List Bool)) (i : Nat),
      (ps.foldl (fun s p =>
        if !cellAt qr.isFunction p.1 p.2 && decide (s.2 < data.length * 8) then
          (put s.1 p.1 p.2 (dataBit data s.2), s.2 + 1)
        else s) (g, i)).1 =
      paint (along (ps.filter fun p => !cellAt qr.isFunction p.1 p.2) ((dataBits data).drop i)) g := by
    intro ps
    induction ps with
    | nil => exact fun _ _ => rfl
    | cons p ps ih =>
      intro g i
      rw [List.foldl_cons]
      cases hfun : cellAt qr.isFunction p.1 p.2 with
      | true => rw [List.filter_cons_of_neg (by simp [hfun])]; exact ih g i
      | false =>
        rw [List.filter_cons_of_pos (by simp [hfun])]
        by_cases hi : i < data.length * 8
        · have hdrop : (dataBits data).drop i = dataBit data i :: (dataBits data).drop (i + 1) := by
            rw [List.drop_eq_getElem_cons (by simpa using hi)]
            simp [dataBits]
          rw [hdrop, if_pos (by simp [hi]), ih]
          rfl
        · have hdrop : ∀ j, i ≤ j → (dataBits data).drop j = [] := by
            intro j hj
            exact List.drop_eq_nil_of_le (by rw [dataBits_length]; omega)
          rw [if_neg (by simp [hi]), ih, hdrop i (Nat.le_refl i)]
          simp [along]
  rw [drawCodewords, hloop, List.drop_zero]

theorem drawCodewords_isFunction (qr : Qr) (data : List Nat) :
    (drawCodewords qr data).isFunction = qr.isFunction := rfl

theorem Shaped.drawCodewords (h : Shaped version ecl qr) (data : List Nat) :
    Shaped version ecl (drawCodewords qr data) := by
  rw [drawCodewords_eq]
  exact ⟨h.size_eq, h.version_eq, h.ecl_eq, h.modules.paint _, h.isFunction⟩

/-! ## The masks -/

theorem applyMask_isFunction (qr : Qr) (mask : Nat) : (applyMask qr mask).isFunction = qr.isFunction :=
  rfl

theorem Shaped.applyMask (h : Shaped version ecl qr) (mask : Nat) :
    Shaped version ecl (applyMask qr mask) := by
  refine ⟨h.size_eq, h.version_eq, h.ecl_eq, ⟨?_, fun row hrow => ?_⟩, h.isFunction⟩
  · simp [QrGen.applyMask, h.size_eq]
  · obtain ⟨y, -, rfl⟩ := List.mem_map.mp hrow
    simp [h.size_eq]

theorem Shaped.applyMask_at (h : Shaped version ecl qr) (mask : Nat) {x y : Nat}
    (hx : x < qrSize version) (hy : y < qrSize version) :
    cellAt (QrGen.applyMask qr mask).modules x y =
      (cellAt qr.modules x y ^^ (!cellAt qr.isFunction x y && inverts mask x y)) := by
  obtain ⟨_, _, heq⟩ := (h.applyMask mask).modules.cellAt_eq hx hy
  rw [heq]
  simp only [QrGen.applyMask, List.getElem_map, List.getElem_range]
  cases cellAt qr.isFunction x y <;> cases inverts mask x y <;> simp

/-! ## A symbol with a mask -/

/-- The symbol before it is masked. -/
def drawn (data : List Nat) (version ecl : Nat) : Qr :=
  drawCodewords (drawFunctionPatterns (emptyQr version ecl)) (addEccAndInterleave version ecl data)

/-- The symbol with a mask. -/
def candidate (data : List Nat) (version ecl mask : Nat) : Qr :=
  drawFormatBits (applyMask ((drawn data version ecl).withMask mask) mask) mask

section
variable (data : List Nat) (version ecl : Nat)

theorem shaped_drawn : Shaped version ecl (drawn data version ecl) := by
  have hempty := shaped_emptyQr version ecl
  rw [drawn, drawFunctionPatterns_eq hempty]
  exact (hempty.draw _).drawCodewords _

theorem shaped_candidate (mask : Nat) : Shaped version ecl (candidate data version ecl mask) := by
  exact (((shaped_drawn data version ecl).withMask mask).applyMask mask).draw _

end

section
variable {version : Nat} (hv : IsVersion version) {ecl : Nat} (data : List Nat) {x y : Nat}
  (hx : x < qrSize version) (hy : y < qrSize version)
include hv hx hy

theorem drawn_isFunction : cellAt (drawn data version ecl).isFunction x y =
    decide (IsFunctionAt version x y) := by
  rw [drawn, drawCodewords_isFunction]
  exact isFunction_drawFunctionPatterns hv hx hy

omit hx hy in
theorem dataPlaces_eq : (path (qrSize version)).filter (fun p =>
    !cellAt (drawFunctionPatterns (emptyQr version ecl)).isFunction p.1 p.2) = dataPlaces version := by
  refine List.filter_congr fun p hp => ?_
  obtain ⟨hodd, hsize⟩ := hv.size
  obtain ⟨-, hx, hy⟩ := (mem_path hodd (by omega)).mp hp
  rw [isFunction_drawFunctionPatterns hv hx hy, decide_not]

theorem drawn_at : cellAt (drawn data version ecl).modules x y =
    (last? (along (dataPlaces version) (dataBits (addEccAndInterleave version ecl data))) x y).getD
      ((last? (functionCells version ecl 0) x y).getD false) := by
  have hempty := shaped_emptyQr version ecl
  have hpatterns := hempty.draw (functionCells version ecl 0)
  have hsize : (drawFunctionPatterns (emptyQr version ecl)).size = qrSize version := by
    rw [drawFunctionPatterns_eq hempty]
    exact hpatterns.size_eq
  have hblank : cellAt (emptyQr version ecl).modules x y = false := by
    obtain ⟨_, _, heq⟩ := hempty.modules.cellAt_eq hx hy
    rw [heq]
    simp [emptyQr, newRow]
  rw [drawn, drawCodewords_eq, hsize, dataPlaces_eq hv, drawFunctionPatterns_eq hempty]
  dsimp only
  rw [hpatterns.modules.cellAt_paint hx hy, draw_modules, hempty.modules.cellAt_paint hx hy, hblank]

theorem candidate_at (mask : Nat) : cellAt (candidate data version ecl mask).modules x y =
    (last? (formatCells (qrSize version) (formatBits ecl mask)) x y).getD
      (cellAt (drawn data version ecl).modules x y ^^
        (!decide (IsFunctionAt version x y) && inverts mask x y)) := by
  have hmask := (shaped_drawn data version ecl).withMask mask
  have hmasked := hmask.applyMask mask
  rw [candidate, drawFormatBits, draw_modules, hmasked.modules.cellAt_paint hx hy, hmasked.size_eq,
    hmasked.ecl_eq, hmask.applyMask_at mask hx hy, Qr.withMask_modules, Qr.withMask_isFunction]
  have hmarks : _ = decide (IsFunctionAt version x y) := @drawn_isFunction _ hv ecl data _ _ hx hy
  rw [hmarks]

omit hx hy in
/-- The format is drawn where no later pattern is. -/
theorem last?_functionCells (mask : Nat) : last? (functionCells version ecl mask) x y =
    (last? (formatCells (qrSize version) (formatBits ecl mask)) x y).or
      (last? (functionCells version ecl 0) x y) := by
  have hformat : ∀ bits, last? (formatCells (qrSize version) bits) x y = none ↔
      ¬IsFormatAt (qrSize version) x y := by
    intro bits
    rw [last?_eq_none, ← formatCells_at bits x y hv.size.2]
    simp
  have hversion : IsFormatAt (qrSize version) x y →
      last? (versionCells (qrSize version) version) x y = none := by
    intro h
    refine last?_eq_none.mpr fun c hc hat => ?_
    have hat := (versionCells_at version x y).mp ⟨c, hc, hat⟩
    have hsize := hv.size
    unfold IsFormatAt at h
    unfold IsVersionAt at hat
    omega
  simp only [functionCells, last?_append]
  by_cases h : IsFormatAt (qrSize version) x y
  · rw [hversion h, Option.none_or, Option.none_or]
    cases hmask : last? (formatCells (qrSize version) (formatBits ecl mask)) x y with
    | none => exact absurd h ((hformat _).mp hmask)
    | some a => rfl
  · rw [(hformat (formatBits ecl mask)).mpr h, (hformat (formatBits ecl 0)).mpr h, Option.none_or,
      Option.none_or]

/-- The function patterns stand as they are drawn, with the format of the mask. -/
theorem candidate_function (mask : Nat) (hfun : IsFunctionAt version x y) :
    some (cellAt (candidate data version ecl mask).modules x y) =
      last? (functionCells version ecl mask) x y := by
  have hdata : last? (along (dataPlaces version)
      (dataBits (addEccAndInterleave version ecl data))) x y = none :=
    last?_along_of_notMem (fun hmem => (hv.mem_dataPlaces.mp hmem).2.2 hfun) _
  rw [candidate_at hv data hx hy, drawn_at hv data hx hy, hdata, last?_functionCells hv mask,
    decide_eq_true hfun]
  cases hlast : last? (functionCells version ecl 0) x y with
  | none =>
    obtain ⟨c, hc, hat⟩ := (exists_functionCells_iff hv ecl 0 x y).mpr hfun
    exact absurd hat (last?_eq_none.mp hlast c hc)
  | some a => cases last? (formatCells (qrSize version) (formatBits ecl mask)) x y <;> simp

/-- On the other modules are the codewords, inverted by the mask. -/
theorem candidate_data (mask : Nat) (hfun : ¬IsFunctionAt version x y) :
    cellAt (candidate data version ecl mask).modules x y =
      ((last? (along (dataPlaces version) (dataBits (addEccAndInterleave version ecl data))) x y).getD
        false ^^ inverts mask x y) := by
  have hnone : ∀ mask, last? (functionCells version ecl mask) x y = none := by
    intro mask
    refine last?_eq_none.mpr fun c hc hat => hfun ?_
    exact (exists_functionCells_iff hv ecl mask x y).mp ⟨c, hc, hat⟩
  have hformat : last? (formatCells (qrSize version) (formatBits ecl mask)) x y = none := by
    refine last?_eq_none.mpr fun c hc hat => hfun (hv.isFunctionAt_iff.mpr ?_)
    exact .inr (.inr (.inr (.inl ((formatCells_at _ x y hv.size.2).mp ⟨c, hc, hat⟩))))
  rw [candidate_at hv data hx hy, hformat, drawn_at hv data hx hy, hnone 0, decide_eq_false hfun]
  simp

end

end EthWalletUi.QrGen
