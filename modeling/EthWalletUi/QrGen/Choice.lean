import EthWalletUi.QrGen.Parts

/-!
# The choice of a mask (`makeQr` of `qrcodegen.js`)

The loop over the masks draws each of them on the symbol at hand, measures it and takes it back. What is
left of an earlier mask are the modules of the format, which the next one draws anew, so each symbol
that is measured is the one that would be returned (`makeQr_eq`).
-/

namespace EthWalletUi.QrGen

open Coding

/-- The symbol is the one before the masks, but for the format on it. -/
structure Untouched (version ecl : Nat) (base qr : Qr) : Prop where
  shaped : Shaped version ecl qr
  mask_eq : qr.mask = base.mask
  isFunction_eq : qr.isFunction = base.isFunction
  modules_eq : ∀ x < qrSize version, ∀ y < qrSize version, ¬IsFormatAt (qrSize version) x y →
    cellAt qr.modules x y = cellAt base.modules x y

section
variable {version ecl : Nat} (hv : IsVersion version) {base qr : Qr}
  (h : Untouched version ecl base qr) (mask : Nat)
include hv h

/-- Whatever format is on the symbol, a mask comes out the same. -/
theorem Untouched.masked_eq (hbase : Shaped version ecl base) :
    drawFormatBits (applyMask qr mask) mask = drawFormatBits (applyMask base mask) mask := by
  have hmasked := h.shaped.applyMask mask
  have hmasked' := hbase.applyMask mask
  have hcells : formatCells (applyMask qr mask).size (formatBits (applyMask qr mask).ecl mask) =
      formatCells (qrSize version) (formatBits ecl mask) := by
    rw [hmasked.size_eq, hmasked.ecl_eq]
  have hcells' : formatCells (applyMask base mask).size
      (formatBits (applyMask base mask).ecl mask) =
      formatCells (qrSize version) (formatBits ecl mask) := by
    rw [hmasked'.size_eq, hmasked'.ecl_eq]
  rw [drawFormatBits, drawFormatBits, hcells, hcells']
  have hdrawn := hmasked.draw (formatCells (qrSize version) (formatBits ecl mask))
  have hdrawn' := hmasked'.draw (formatCells (qrSize version) (formatBits ecl mask))
  refine Qr.ext (by rw [hdrawn.size_eq, hdrawn'.size_eq])
    (by rw [hdrawn.version_eq, hdrawn'.version_eq])
    (by rw [hdrawn.ecl_eq, hdrawn'.ecl_eq]) ?_ ?_ ?_
  · rw [draw_eq, draw_eq]
    exact h.mask_eq
  · refine hdrawn.modules.ext hdrawn'.modules fun x hx y hy => ?_
    rw [draw_modules, draw_modules, hmasked.modules.cellAt_paint hx hy,
      hmasked'.modules.cellAt_paint hx hy]
    by_cases hformat : IsFormatAt (qrSize version) x y
    · cases hlast : last? (formatCells (qrSize version) (formatBits ecl mask)) x y with
      | none =>
        obtain ⟨c, hc, hat⟩ := (formatCells_at _ x y hv.size.2).mpr hformat
        exact absurd hat (last?_eq_none.mp hlast c hc)
      | some a => rfl
    · rw [h.shaped.applyMask_at mask hx hy, hbase.applyMask_at mask hx hy, h.isFunction_eq,
        h.modules_eq x hx y hy hformat]
  · rw [draw_isFunction, draw_isFunction, applyMask_isFunction, applyMask_isFunction,
      h.isFunction_eq]

/-- A mask that is taken back leaves nothing but its format. -/
theorem Untouched.undo (hbase : ∀ x < qrSize version, ∀ y < qrSize version,
      IsFormatAt (qrSize version) x y → cellAt base.isFunction x y = true) :
    Untouched version ecl base (applyMask (drawFormatBits (applyMask qr mask) mask) mask) := by
  have hmasked := h.shaped.applyMask mask
  have hdrawn := hmasked.draw
    (formatCells (applyMask qr mask).size (formatBits (applyMask qr mask).ecl mask))
  have hmarks : (drawFormatBits (applyMask qr mask) mask).isFunction = qr.isFunction := by
    refine hdrawn.isFunction.ext h.shaped.isFunction fun x hx y hy => ?_
    have hsize : 21 ≤ (applyMask qr mask).size := by
      rw [hmasked.size_eq]
      exact hv.size.2
    rw [hmasked.draw_isFunction_at _ hx hy, applyMask_isFunction]
    by_cases hformat : IsFormatAt (qrSize version) x y
    · rw [h.isFunction_eq, hbase x hx y hy hformat, Bool.or_true]
    · rw [decide_eq_false, Bool.false_or]
      rw [formatCells_at _ x y hsize, hmasked.size_eq]
      exact hformat
  refine ⟨hdrawn.applyMask mask, ?_, ?_, fun x hx y hy hformat => ?_⟩
  · rw [drawFormatBits, draw_eq]
    exact h.mask_eq
  · rw [applyMask_isFunction, hmarks, h.isFunction_eq]
  · have hlast : last? (formatCells (applyMask qr mask).size
        (formatBits (applyMask qr mask).ecl mask)) x y = none := by
      refine last?_eq_none.mpr fun c hc hat => hformat ?_
      rw [hmasked.size_eq] at hc
      exact (formatCells_at _ x y hv.size.2).mp ⟨c, hc, hat⟩
    have hcell : cellAt (drawFormatBits (applyMask qr mask) mask).modules x y =
        cellAt (applyMask qr mask).modules x y := by
      rw [drawFormatBits, draw_modules, hmasked.modules.cellAt_paint hx hy, hlast, Option.getD_none]
    have hundo := hdrawn.applyMask_at mask hx hy
    rw [← drawFormatBits, hcell, hmarks, h.shaped.applyMask_at mask hx hy] at hundo
    rw [hundo, Bool.xor_assoc, Bool.xor_self, Bool.xor_false, h.modules_eq x hx y hy hformat]

end

/-! ## The loop -/

theorem drawFormatBits_withMask (qr : Qr) (mask : Int) (m : Nat) :
    drawFormatBits (applyMask (qr.withMask mask) m) m =
      (drawFormatBits (applyMask qr m) m).withMask mask := by
  rw [drawFormatBits, drawFormatBits, draw_eq, draw_eq]
  rfl

theorem getPenaltyScore_withMask (qr : Qr) (mask : Int) :
    getPenaltyScore (qr.withMask mask) = getPenaltyScore qr := rfl

/-- The penalty of the symbol with a mask. -/
def penaltyOf (data : List Nat) (version ecl mask : Nat) : Int :=
  getPenaltyScore (candidate data version ecl mask)

/-- The loop has tried the masks below `n`. -/
structure Tried (data : List Nat) (version ecl n : Nat) (s : Choice) : Prop where
  untouched : Untouched version ecl (drawn data version ecl) s.qr
  start : n = 0 → s.minPenalty = none
  lt : 0 < n → s.mask < n
  least : 0 < n → s.minPenalty = some (penaltyOf data version ecl s.mask)
  le : ∀ m < n, penaltyOf data version ecl s.mask ≤ penaltyOf data version ecl m
  first : 0 < n → ∀ m < s.mask, penaltyOf data version ecl s.mask < penaltyOf data version ecl m

section
variable {version : Nat} (hv : IsVersion version) {ecl : Nat} {data : List Nat}
include hv

/-- The symbol that is measured is the one with the mask. -/
theorem Untouched.penalty_eq {qr : Qr} (h : Untouched version ecl (drawn data version ecl) qr)
    (mask : Nat) :
    getPenaltyScore (drawFormatBits (applyMask qr mask) mask) =
      penaltyOf data version ecl mask := by
  rw [h.masked_eq hv mask (shaped_drawn data version ecl), penaltyOf, candidate,
    drawFormatBits_withMask, getPenaltyScore_withMask]

theorem drawn_isFunction_format : ∀ x < qrSize version, ∀ y < qrSize version,
    IsFormatAt (qrSize version) x y → cellAt (drawn data version ecl).isFunction x y = true := by
  intro x hx y hy hformat
  rw [drawn_isFunction hv data hx hy, decide_eq_true_eq]
  exact hv.isFunctionAt_iff.mpr (.inr (.inr (.inr (.inl hformat))))

/-- One mask is tried. -/
theorem Tried.step {n : Nat} {s : Choice} (h : Tried data version ecl n s) :
    Tried data version ecl (n + 1) (tryMask s n) := by
  have hpenalty := h.untouched.penalty_eq hv n
  have hundo := h.untouched.undo hv n (drawn_isFunction_format hv)
  cases hmin : s.minPenalty with
  | none =>
    have hn : n = 0 := by
      by_contra hne
      rw [h.least (Nat.pos_of_ne_zero hne)] at hmin
      exact Option.some_ne_none _ hmin
    subst hn
    have hstep : tryMask s 0 = ⟨applyMask (drawFormatBits (applyMask s.qr 0) 0) 0, 0,
        some (penaltyOf data version ecl 0)⟩ := by
      rw [tryMask, hmin, hpenalty]
      rfl
    rw [hstep]
    refine ⟨hundo, by simp, by simp, fun _ => rfl, fun m hm => ?_, by simp⟩
    obtain rfl : m = 0 := by omega
    exact le_refl _
  | some least =>
    have hn : 0 < n := by
      by_contra hne
      rw [h.start (by omega)] at hmin
      exact Option.some_ne_none _ hmin.symm
    have hleast : least = penaltyOf data version ecl s.mask :=
      Option.some.inj (hmin.symm.trans (h.least hn))
    by_cases hlt : penaltyOf data version ecl n < least
    · have hstep : tryMask s n = ⟨applyMask (drawFormatBits (applyMask s.qr n) n) n, n,
          some (penaltyOf data version ecl n)⟩ := by
        simp [tryMask, hmin, hpenalty, hlt]
      rw [hstep]
      refine ⟨hundo, by simp, by simp, fun _ => rfl, fun m hm => ?_, fun _ m hm => ?_⟩
      · rcases Nat.lt_succ_iff_lt_or_eq.mp hm with hm | rfl
        · exact (hlt.le.trans_eq hleast).trans (h.le m hm)
        · exact le_refl _
      · exact (hlt.trans_eq hleast).trans_le (h.le m hm)
    · have hstep : tryMask s n = ⟨applyMask (drawFormatBits (applyMask s.qr n) n) n, s.mask,
          some least⟩ := by
        simp [tryMask, hmin, hpenalty, hlt]
      rw [hstep]
      refine ⟨hundo, by simp, fun _ => Nat.lt_succ_of_lt (h.lt hn), fun _ => congrArg some hleast,
        fun m hm => ?_, fun _ => h.first hn⟩
      rcases Nat.lt_succ_iff_lt_or_eq.mp hm with hm | rfl
      · exact h.le m hm
      · rw [← hleast]
        exact not_lt.mp hlt

variable (ecl data)

/-- The symbol that is made is the one with the mask that the loop has chosen. -/
theorem makeQr_tried : ∃ s, Tried data version ecl 8 s ∧
    makeQr data version ecl = candidate data version ecl s.mask := by
  have hrun : ∀ n, Tried data version ecl n
      ((List.range n).foldl tryMask { qr := drawn data version ecl }) := by
    intro n
    induction n with
    | zero =>
      exact ⟨⟨shaped_drawn .., rfl, rfl, fun _ _ _ _ _ => rfl⟩, fun _ => rfl, by simp, by simp,
        by simp, by simp⟩
    | succ n ih =>
      rw [List.range_succ, List.foldl_append]
      exact ih.step hv
  have h := hrun 8
  refine ⟨_, h, ?_⟩
  rw [makeQr, ← drawn, candidate, drawFormatBits_withMask, drawFormatBits_withMask,
    h.untouched.masked_eq hv _ (shaped_drawn ..)]

theorem exists_mask : ∃ mask < 8, makeQr data version ecl = candidate data version ecl mask := by
  obtain ⟨s, h, heq⟩ := makeQr_tried hv ecl data
  exact ⟨s.mask, h.lt (by decide), heq⟩

/-- The mask that is chosen has the least penalty, and is the first that has it. -/
theorem makeQr_eq : ∃ mask < 8, makeQr data version ecl = candidate data version ecl mask ∧
    (∀ m < 8, penaltyOf data version ecl mask ≤ penaltyOf data version ecl m) ∧
    ∀ m < mask, penaltyOf data version ecl mask < penaltyOf data version ecl m := by
  obtain ⟨s, h, heq⟩ := makeQr_tried hv ecl data
  exact ⟨s.mask, h.lt (by decide), heq, h.le, h.first (by decide)⟩

end

theorem makeQr_eq_smallest : ∃ mask < 8, makeQr [0x10] 1 1 = candidate [0x10] 1 1 mask ∧
    (∀ m < 8, penaltyOf [0x10] 1 1 mask ≤ penaltyOf [0x10] 1 1 m) ∧
    ∀ m < mask, penaltyOf [0x10] 1 1 mask < penaltyOf [0x10] 1 1 m :=
  makeQr_eq ⟨by decide, by decide⟩ 1 [0x10]

end EthWalletUi.QrGen
