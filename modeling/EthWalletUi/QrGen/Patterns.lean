import EthWalletUi.QrGen.Read

/-!
# The function patterns of a finished symbol

What a scanner looks for first: the finder, timing and alignment patterns, the two copies of the format
and those of the version. No later pattern spoils an earlier one (`hasPatterns_makeQr`).
-/

namespace EthWalletUi.QrGen

open Coding

/-- The patterns of the standard, with the format of a level and a mask. -/
structure HasPatterns (version ecl mask : Nat) (g : List (List Bool)) : Prop where
  finder : ∀ c ∈ [(3, 3), (qrSize version - 4, 3), (3, qrSize version - 4)],
    ∀ x < qrSize version, ∀ y < qrSize version, ring c.1 c.2 x y ≤ 4 →
      cellAt g x y = (ring c.1 c.2 x y != 2 && ring c.1 c.2 x y != 4)
  timing : ∀ i, 8 ≤ i → i + 8 < qrSize version →
    cellAt g i 6 = (i % 2 == 0) ∧ cellAt g 6 i = (i % 2 == 0)
  alignment : ∀ c ∈ alignmentCentres version, ∀ x y, ring c.1 c.2 x y ≤ 2 →
    cellAt g x y = (ring c.1 c.2 x y != 1)
  format : ∀ i < 15, cellAt g (formatPlace i).1 (formatPlace i).2 = getBit (formatBits ecl mask) i ∧
    cellAt g (formatPlace' (qrSize version) i).1 (formatPlace' (qrSize version) i).2 =
      getBit (formatBits ecl mask) i
  dark : cellAt g 8 (qrSize version - 8) = true
  version : 7 ≤ version → ∀ i < 18,
    cellAt g (qrSize version - 11 + i % 3) (i / 3) = getBit (versionBits version) i ∧
      cellAt g (i / 3) (qrSize version - 11 + i % 3) = getBit (versionBits version) i

/-! ## One pattern -/

section
variable {x y : Nat}

theorem last?_finder {size x' y' : Nat} (hx : x < size) (hy : y < size)
    (hring : ring x' y' x y ≤ 4) :
    last? (finderCells size x' y') x y = some (ring x' y' x y != 2 && ring x' y' x y != 4) := by
  refine last?_eq_some ⟨⟨x, y, ring x' y' x y != 2 && ring x' y' x y != 4⟩,
    mem_finderCells.mpr ⟨hx, hy, hring, rfl⟩, rfl, rfl⟩ ?_
  rintro c hc rfl rfl
  exact (mem_finderCells.mp hc).2.2.2

theorem last?_finder_none {size x' y' : Nat} (hring : 4 < ring x' y' x y) :
    last? (finderCells size x' y') x y = none := by
  refine last?_eq_none.mpr ?_
  rintro c hc ⟨rfl, rfl⟩
  exact absurd (mem_finderCells.mp hc).2.2.1 (not_le.mpr hring)

theorem last?_format_none {size : Nat} (bits : Nat) (hsize : 21 ≤ size)
    (h : ¬IsFormatAt size x y) : last? (formatCells size bits) x y = none :=
  last?_eq_none.mpr fun c hc hat => h ((formatCells_at bits x y hsize).mp ⟨c, hc, hat⟩)

theorem last?_version_none {version : Nat} (h : ¬IsVersionAt version x y) :
    last? (versionCells (qrSize version) version) x y = none :=
  last?_eq_none.mpr fun c hc hat => h ((versionCells_at version x y).mp ⟨c, hc, hat⟩)

variable {version : Nat} (hv : IsVersion version)
include hv

theorem last?_alignment_none (h : ¬IsAlignmentAt version x y) :
    last? ((alignmentCentres version).flatMap fun p => alignmentCells p.1 p.2) x y = none := by
  refine last?_eq_none.mpr ?_
  rintro c hc ⟨rfl, rfl⟩
  obtain ⟨p, hp, hc⟩ := List.mem_flatMap.mp hc
  have hcentre := hv.centre hp
  exact h ⟨p, hp, ((mem_alignmentCells (by omega) (by omega)).mp hc).1⟩

/-- Alignment patterns do not meet. -/
theorem IsVersion.centre_eq {p q : Nat × Nat} (hp : p ∈ alignmentCentres version)
    (hq : q ∈ alignmentCentres version) (hpx : ring p.1 p.2 x y ≤ 2) (hqx : ring q.1 q.2 x y ≤ 2) :
    p = q := by
  have hall : ∀ v < 41, 1 ≤ v → ∀ a ∈ getAlignmentPatternPositions v,
      ∀ b ∈ getAlignmentPatternPositions v, a + 5 ≤ b ∨ b + 5 ≤ a ∨ (a ≤ b ∧ b ≤ a) := by
    decide +kernel
  have hpos : ∀ {p : Nat × Nat}, p ∈ alignmentCentres version →
      p.1 ∈ getAlignmentPatternPositions version ∧ p.2 ∈ getAlignmentPatternPositions version := by
    intro p hp
    obtain ⟨i, hi, hp⟩ := List.mem_flatMap.mp hp
    obtain ⟨j, hj, hp⟩ := List.mem_filterMap.mp hp
    have hmem : ∀ {i}, i ∈ List.range (getAlignmentPatternPositions version).length →
        (getAlignmentPatternPositions version).getD i 0 ∈ getAlignmentPatternPositions version := by
      intro i hi
      rw [List.getD_eq_getElem _ _ (List.mem_range.mp hi)]
      exact List.getElem_mem _
    dsimp only at hp
    split at hp
    · exact absurd hp (by simp)
    · obtain rfl := Option.some.inj hp
      exact ⟨hmem hi, hmem hj⟩
  have hlt := Nat.lt_succ_of_le hv.high
  have hx := hall version hlt hv.low _ (hpos hp).1 _ (hpos hq).1
  have hy := hall version hlt hv.low _ (hpos hp).2 _ (hpos hq).2
  unfold ring at hpx hqx
  exact Prod.ext (by omega) (by omega)

theorem last?_alignment {p : Nat × Nat} (hp : p ∈ alignmentCentres version)
    (hring : ring p.1 p.2 x y ≤ 2) :
    last? ((alignmentCentres version).flatMap fun p => alignmentCells p.1 p.2) x y =
      some (ring p.1 p.2 x y != 1) := by
  have hcentre := hv.centre hp
  refine last?_eq_some ⟨⟨x, y, ring p.1 p.2 x y != 1⟩, List.mem_flatMap.mpr ⟨p, hp,
    (mem_alignmentCells (by omega) (by omega)).mpr ⟨hring, rfl⟩⟩, rfl, rfl⟩ ?_
  rintro c hc rfl rfl
  obtain ⟨q, hq, hc⟩ := List.mem_flatMap.mp hc
  have hcentre := hv.centre hq
  obtain ⟨hringq, hval⟩ := (mem_alignmentCells (by omega) (by omega)).mp hc
  rw [hval, hv.centre_eq hq hp hringq hring]

omit hv in
theorem last?_timing {size i : Nat} (hi : 8 ≤ i) (hi' : i < size) :
    last? (timingCells size) i 6 = some (i % 2 == 0) ∧
      last? (timingCells size) 6 i = some (i % 2 == 0) := by
  refine ⟨last?_eq_some ⟨⟨i, 6, i % 2 == 0⟩, mem_timingCells.mpr (.inr ⟨rfl, hi', rfl⟩), rfl,
      rfl⟩ ?_,
    last?_eq_some ⟨⟨6, i, i % 2 == 0⟩, mem_timingCells.mpr (.inl ⟨rfl, hi', rfl⟩), rfl, rfl⟩ ?_⟩
  · rintro c hc rfl hy
    rcases mem_timingCells.mp hc with ⟨h, -, -⟩ | ⟨-, -, hval⟩
    · omega
    · exact hval
  · rintro c hc hx rfl
    rcases mem_timingCells.mp hc with ⟨-, -, hval⟩ | ⟨h, -, -⟩
    · exact hval
    · omega

omit hv in
theorem last?_dark {size : Nat} (bits : Nat) (hsize : 21 ≤ size) :
    last? (formatCells size bits) 8 (size - 8) = some true := by
  refine last?_eq_some ⟨⟨8, size - 8, true⟩, by simp [formatCells], rfl, rfl⟩ fun c hc hx hy => ?_
  have hat : (c.x, c.y) = (8, size - 8) := Prod.ext hx hy
  rcases mem_formatCells hc with ⟨k, hk, hval, h | h⟩ | rfl
  · exact absurd (h.symm.trans hat) (formatPlace_inj hsize hk hk).2.2.2.1
  · exact absurd (h.symm.trans hat) (formatPlace_inj hsize hk hk).2.2.2.2
  · rfl

omit hv in
theorem last?_version (h7 : 7 ≤ version) {i : Nat} (hi : i < 18) :
    last? (versionCells (qrSize version) version) (qrSize version - 11 + i % 3) (i / 3) =
        some (getBit (versionBits version) i) ∧
      last? (versionCells (qrSize version) version) (i / 3) (qrSize version - 11 + i % 3) =
        some (getBit (versionBits version) i) := by
  have hsize : qrSize version = version * 4 + 17 := rfl
  have hcells : ∀ c ∈ versionCells (qrSize version) version,
      ∃ k < 18, c.val = getBit (versionBits version) k ∧
        (c.x = qrSize version - 11 + k % 3 ∧ c.y = k / 3 ∨
          c.x = k / 3 ∧ c.y = qrSize version - 11 + k % 3) := by
    intro c hc
    rw [versionCells, if_neg (by omega)] at hc
    obtain ⟨k, hk, hc⟩ := List.mem_flatMap.mp hc
    refine ⟨k, List.mem_range.mp hk, ?_⟩
    rcases List.mem_cons.mp hc with rfl | hc
    · exact ⟨rfl, .inl ⟨rfl, rfl⟩⟩
    · obtain rfl := List.mem_singleton.mp hc
      exact ⟨rfl, .inr ⟨rfl, rfl⟩⟩
  constructor
  · refine last?_eq_some ((versionCells_at ..).mpr ⟨h7, .inl (by omega)⟩) fun c hc hx hy => ?_
    obtain ⟨k, hk, hval, hat⟩ := hcells c hc
    rw [hval, show k = i by omega]
  · refine last?_eq_some ((versionCells_at ..).mpr ⟨h7, .inr (by omega)⟩) fun c hc hx hy => ?_
    obtain ⟨k, hk, hval, hat⟩ := hcells c hc
    rw [hval, show k = i by omega]

end

/-! ## All patterns -/

section
variable {version : Nat} (hv : IsVersion version) (data : List Nat) {ecl mask : Nat}
include hv

/-- What the drawing of the patterns leaves at a place is what stands there. -/
theorem candidate_last {x y : Nat} (hx : x < qrSize version) (hy : y < qrSize version) {v : Bool}
    (h : last? (functionCells version ecl mask) x y = some v) :
    cellAt (candidate data version ecl mask).modules x y = v := by
  have hfun : IsFunctionAt version x y := by
    by_contra hnot
    rw [last?_eq_none.mpr] at h
    · exact Option.some_ne_none _ h.symm
    · exact fun c hc hat => hnot ((exists_functionCells_iff hv ecl mask x y).mp ⟨c, hc, hat⟩)
  exact Option.some.inj ((candidate_function hv data hx hy mask hfun).trans h)

omit data in
/-- Away from the format and the version, an alignment pattern or the earlier patterns stand. -/
theorem last?_functionCells_rest {x y : Nat} (hformat : ¬IsFormatAt (qrSize version) x y)
    (hversion : ¬IsVersionAt version x y) : last? (functionCells version ecl mask) x y =
      (last? ((alignmentCentres version).flatMap fun p => alignmentCells p.1 p.2) x y).or
        ((last? (finderCells (qrSize version) 3 (qrSize version - 4)) x y).or
          ((last? (finderCells (qrSize version) (qrSize version - 4) 3) x y).or
            ((last? (finderCells (qrSize version) 3 3) x y).or
              (last? (timingCells (qrSize version)) x y)))) := by
  simp only [functionCells, last?_append, last?_format_none _ hv.size.2 hformat,
    last?_version_none hversion, Option.none_or]

/-- A finder pattern is spoilt by nothing. -/
theorem candidate_finder {c : Nat × Nat}
    (hc : c ∈ [(3, 3), (qrSize version - 4, 3), (3, qrSize version - 4)]) {x y : Nat}
    (hx : x < qrSize version) (hy : y < qrSize version) (hring : ring c.1 c.2 x y ≤ 4) :
    cellAt (candidate data version ecl mask).modules x y =
      (ring c.1 c.2 x y != 2 && ring c.1 c.2 x y != 4) := by
  have hsize := hv.size.2
  have hcorner : IsFinderAt (qrSize version) x y := by
    unfold IsFinderAt
    unfold ring at hring
    rcases List.mem_cons.mp hc with rfl | hc
    · omega
    · rcases List.mem_cons.mp hc with rfl | hc
      · omega
      · obtain rfl := List.mem_singleton.mp hc
        omega
  have hformat : ¬IsFormatAt (qrSize version) x y := by
    unfold IsFinderAt at hcorner
    unfold IsFormatAt
    omega
  have hversion : ¬IsVersionAt version x y := by
    unfold IsFinderAt at hcorner
    unfold IsVersionAt
    omega
  have halign : ¬IsAlignmentAt version x y := by
    rintro ⟨p, hp, hnear⟩
    have hcentre := hv.centre hp
    unfold IsFinderAt at hcorner
    unfold ring at hnear
    omega
  refine candidate_last hv data hx hy ?_
  rw [last?_functionCells_rest hv hformat hversion, last?_alignment_none hv halign, Option.none_or]
  have hnear : ∀ {a b}, ring a b x y ≤ 4 → x ≤ a + 4 ∧ a ≤ x + 4 ∧ y ≤ b + 4 ∧ b ≤ y + 4 := by
    intro a b h
    unfold ring at h
    omega
  have hfar : ∀ {a b}, (a + 4 < x ∨ x + 4 < a ∨ b + 4 < y ∨ y + 4 < b) → 4 < ring a b x y := by
    intro a b h
    unfold ring
    omega
  have hplace := hnear hring
  rcases List.mem_cons.mp hc with rfl | hc
  · rw [last?_finder_none (hfar (by omega)), last?_finder_none (hfar (by omega)), Option.none_or,
      Option.none_or, last?_finder hx hy hring, Option.some_or]
  · rcases List.mem_cons.mp hc with rfl | hc
    · rw [last?_finder_none (hfar (by omega)), Option.none_or, last?_finder hx hy hring,
        Option.some_or]
    · obtain rfl := List.mem_singleton.mp hc
      rw [last?_finder hx hy hring, Option.some_or]

/-- A timing pattern goes on through the alignment patterns on it. -/
theorem candidate_timing {x y i : Nat} (hi : 8 ≤ i) (hi' : i + 8 < qrSize version)
    (hat : x = i ∧ y = 6 ∨ x = 6 ∧ y = i) :
    cellAt (candidate data version ecl mask).modules x y = (i % 2 == 0) := by
  have hformat : ¬IsFormatAt (qrSize version) x y := by
    unfold IsFormatAt
    omega
  have hversion : ¬IsVersionAt version x y := by
    unfold IsVersionAt
    omega
  have hfinder : ∀ c ∈ [(3, 3), (qrSize version - 4, 3), (3, qrSize version - 4)],
      4 < ring c.1 c.2 x y := by
    intro c hc
    unfold ring
    rcases List.mem_cons.mp hc with rfl | hc
    · omega
    · rcases List.mem_cons.mp hc with rfl | hc
      · omega
      · obtain rfl := List.mem_singleton.mp hc
        omega
  have htiming : last? (timingCells (qrSize version)) x y = some (i % 2 == 0) := by
    obtain ⟨hrow, hcol⟩ := last?_timing hi (show i < qrSize version by omega)
    rcases hat with ⟨rfl, rfl⟩ | ⟨rfl, rfl⟩
    · exact hrow
    · exact hcol
  refine candidate_last hv data (by omega) (by omega) ?_
  rw [last?_functionCells_rest hv hformat hversion,
    last?_finder_none (hfinder (3, qrSize version - 4) (by simp)),
    last?_finder_none (hfinder (qrSize version - 4, 3) (by simp)),
    last?_finder_none (hfinder (3, 3) (by simp)), htiming]
  simp only [Option.none_or]
  by_cases halign : IsAlignmentAt version x y
  · obtain ⟨p, hp, hring⟩ := halign
    have hcentre := hv.centre hp
    have hcolor : (ring p.1 p.2 x y != 1) = (i % 2 == 0) := by
      unfold ring at hring ⊢
      rw [Bool.eq_iff_iff, bne_iff_ne, beq_iff_eq]
      omega
    rw [last?_alignment hv hp hring, hcolor, Option.some_or]
  · rw [last?_alignment_none hv halign, Option.none_or]

/-- The patterns of a symbol with a mask. -/
theorem hasPatterns_candidate :
    HasPatterns version ecl mask (candidate data version ecl mask).modules := by
  have hsize := hv.size.2
  refine ⟨fun c hc x hx y hy hring => candidate_finder hv data hc hx hy hring,
    fun i hi hi' => ⟨candidate_timing hv data hi hi' (.inl ⟨rfl, rfl⟩),
      candidate_timing hv data hi hi' (.inr ⟨rfl, rfl⟩)⟩,
    fun c hc x y hring => ?_, fun i hi => ?_, ?_, fun h7 i hi => ?_⟩
  · have hcentre := hv.centre hc
    have hin : x < qrSize version ∧ y < qrSize version := by
      unfold ring at hring
      omega
    have hformat : ¬IsFormatAt (qrSize version) x y := by
      unfold IsFormatAt
      unfold ring at hring
      omega
    have hversion : ¬IsVersionAt version x y := by
      unfold IsVersionAt
      unfold ring at hring
      omega
    refine candidate_last hv data hin.1 hin.2 ?_
    rw [last?_functionCells_rest hv hformat hversion, last?_alignment hv hc hring, Option.some_or]
  · obtain ⟨hfirst, hsecond⟩ := last?_formatCells (formatBits ecl mask) hsize hi
    constructor
    · refine candidate_last hv data ?_ ?_ (by rw [last?_functionCells hv, hfirst, Option.some_or])
      all_goals
        unfold formatPlace
        split_ifs <;> dsimp only <;> omega
    · refine candidate_last hv data ?_ ?_ (by rw [last?_functionCells hv, hsecond, Option.some_or])
      all_goals
        unfold formatPlace'
        split_ifs <;> dsimp only <;> omega
  · refine candidate_last hv data (by omega) (by omega) ?_
    rw [last?_functionCells hv, last?_dark _ hsize, Option.some_or]
  · obtain ⟨hfirst, hsecond⟩ := last?_version h7 hi
    constructor
    · refine candidate_last hv data (by omega) (by omega) ?_
      rw [functionCells, last?_append, hfirst, Option.some_or]
    · refine candidate_last hv data (by omega) (by omega) ?_
      rw [functionCells, last?_append, hsecond, Option.some_or]

/-- The patterns of the symbol that is made, with the format of its mask. -/
theorem hasPatterns_makeQr (ecl : Nat) : ∃ mask : Nat, mask < 8 ∧
    (makeQr data version ecl).mask = mask ∧
    HasPatterns version ecl mask (makeQr data version ecl).modules := by
  obtain ⟨mask, hmask, heq⟩ := exists_mask hv ecl data
  refine ⟨mask, hmask, ?_, ?_⟩
  · rw [heq, candidate, drawFormatBits_withMask, Qr.withMask_mask]
  · rw [heq]
    exact hasPatterns_candidate hv data

end

theorem hasPatterns_makeQr_version : ∃ mask : Nat, mask < 8 ∧
    (makeQr [0x10] 7 1).mask = mask ∧ HasPatterns 7 1 mask (makeQr [0x10] 7 1).modules :=
  hasPatterns_makeQr ⟨by decide, by decide⟩ [0x10] 1

end EthWalletUi.QrGen
