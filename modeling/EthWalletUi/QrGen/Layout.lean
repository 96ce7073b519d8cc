import EthWalletUi.QrGen.Drawing

/-!
# The modules of a symbol

Which modules the function patterns take.

* `IsVersion.isFunctionAt_iff`: the modules of the function patterns, pattern by pattern.
* `IsVersion.mem_boxes`: they are those of boxes that are apart, so they are counted.
-/

namespace EthWalletUi.QrGen

open Coding

/-- The versions of a QR code. -/
structure IsVersion (version : Nat) : Prop where
  low : 1 ≤ version
  high : version ≤ 40

/-- The width of a symbol. -/
def qrSize (version : Nat) : Nat := version * 4 + 17

/-- Everything `drawFunctionPatterns` sets, with the format of a mask. -/
def functionCells (version ecl mask : Nat) : List (Cell Bool) :=
  timingCells (qrSize version) ++ finderCells (qrSize version) 3 3 ++
    finderCells (qrSize version) (qrSize version - 4) 3 ++
    finderCells (qrSize version) 3 (qrSize version - 4) ++
    (alignmentCentres version).flatMap (fun p => alignmentCells p.1 p.2) ++
    formatCells (qrSize version) (formatBits ecl mask) ++ versionCells (qrSize version) version

/-- The module is one of a function pattern. -/
def IsFunctionAt (version x y : Nat) : Prop := ∃ c ∈ functionCells version 0 0, c.x = x ∧ c.y = y

instance (version x y : Nat) : Decidable (IsFunctionAt version x y) :=
  inferInstanceAs (Decidable (∃ c ∈ functionCells version 0 0, c.x = x ∧ c.y = y))

/-! ## The cells of the patterns -/

theorem mem_around {r : Nat} {d : Int} : d ∈ around r ↔ -(r : Int) ≤ d ∧ d ≤ r := by
  simp only [around, List.mem_map, List.mem_range]
  constructor
  · rintro ⟨i, hi, rfl⟩
    omega
  · rintro ⟨hlo, hhi⟩
    exact ⟨(d + r).toNat, by omega, by omega⟩

/-- How far a module is from a centre: the rings around it are counted from 0. -/
def ring (x' y' x y : Nat) : Nat := max ((x : Int) - x').natAbs ((y : Int) - y').natAbs

theorem mem_finderCells {size x y : Nat} {c : Cell Bool} : c ∈ finderCells size x y ↔
    c.x < size ∧ c.y < size ∧ ring x y c.x c.y ≤ 4 ∧
      c.val = (ring x y c.x c.y != 2 && ring x y c.x c.y != 4) := by
  simp only [ring, finderCells, List.mem_flatMap, List.mem_filterMap, mem_around]
  constructor
  · rintro ⟨dy, hdy, dx, hdx, hc⟩
    split at hc
    · obtain rfl := Option.some.inj hc
      have hx : ((x + dx).toNat : Int) - x = dx := by omega
      have hy : ((y + dy).toNat : Int) - y = dy := by omega
      simp only [hx, hy]
      refine ⟨?_, ?_, ?_, trivial⟩ <;> omega
    · exact absurd hc (by simp)
  · rintro ⟨hx, hy, hring, hval⟩
    refine ⟨(c.y : Int) - y, by omega, (c.x : Int) - x, by omega, ?_⟩
    rw [if_pos (by omega)]
    have hcx : ((x : Int) + ((c.x : Int) - x)).toNat = c.x := by omega
    have hcy : ((y : Int) + ((c.y : Int) - y)).toNat = c.y := by omega
    rw [hcx, hcy, ← hval]

theorem mem_alignmentCells {x y : Nat} (hx : 2 ≤ x) (hy : 2 ≤ y) {c : Cell Bool} :
    c ∈ alignmentCells x y ↔ ring x y c.x c.y ≤ 2 ∧ c.val = (ring x y c.x c.y != 1) := by
  simp only [ring, alignmentCells, List.mem_flatMap, List.mem_map, mem_around]
  constructor
  · rintro ⟨dy, hdy, dx, hdx, rfl⟩
    have hx' : ((x + dx).toNat : Int) - x = dx := by omega
    have hy' : ((y + dy).toNat : Int) - y = dy := by omega
    simp only [hx', hy']
    refine ⟨?_, trivial⟩
    omega
  · rintro ⟨hring, hval⟩
    refine ⟨(c.y : Int) - y, by omega, (c.x : Int) - x, by omega, ?_⟩
    have hcx : ((x : Int) + ((c.x : Int) - x)).toNat = c.x := by omega
    have hcy : ((y : Int) + ((c.y : Int) - y)).toNat = c.y := by omega
    rw [hcx, hcy, ← hval]

theorem mem_timingCells {size : Nat} {c : Cell Bool} : c ∈ timingCells size ↔
    (c.x = 6 ∧ c.y < size ∧ c.val = (c.y % 2 == 0)) ∨
      (c.y = 6 ∧ c.x < size ∧ c.val = (c.x % 2 == 0)) := by
  obtain ⟨x, y, val⟩ := c
  simp only [timingCells, List.mem_flatMap, List.mem_range, List.mem_cons, List.not_mem_nil, or_false,
    Cell.mk.injEq]
  constructor
  · rintro ⟨i, hi, ⟨rfl, rfl, rfl⟩ | ⟨rfl, rfl, rfl⟩⟩
    · exact .inl ⟨rfl, hi, rfl⟩
    · exact .inr ⟨rfl, hi, rfl⟩
  · rintro (⟨rfl, hi, rfl⟩ | ⟨rfl, hi, rfl⟩)
    · exact ⟨y, hi, .inl ⟨rfl, rfl, rfl⟩⟩
    · exact ⟨x, hi, .inr ⟨rfl, rfl, rfl⟩⟩

/-- The two copies of the format, and the dark module beside the second. -/
def IsFormatAt (size x y : Nat) : Prop :=
  (x = 8 ∧ y < size ∧ (y ≤ 8 ∧ y ≠ 6 ∨ size - 8 ≤ y)) ∨
    (y = 8 ∧ x < size ∧ (x ≤ 8 ∧ x ≠ 6 ∨ size - 8 ≤ x))

theorem formatCells_at {size : Nat} (bits x y : Nat) (hsize : 21 ≤ size) :
    (∃ c ∈ formatCells size bits, c.x = x ∧ c.y = y) ↔ IsFormatAt size x y := by
  simp only [formatCells, List.mem_append, List.mem_map, List.mem_range'_1, List.mem_cons,
    List.not_mem_nil, or_false, IsFormatAt]
  constructor
  · rintro ⟨c, (((((⟨i, hi, rfl⟩ | rfl | rfl | rfl) | ⟨i, hi, rfl⟩) | ⟨i, hi, rfl⟩) |
      ⟨i, hi, rfl⟩) | rfl), rfl, rfl⟩ <;> dsimp only <;> omega
  · rintro (⟨rfl, hy, ⟨hle, hne⟩ | hge⟩ | ⟨rfl, hx, ⟨hle, hne⟩ | hge⟩)
    · obtain hy | rfl | rfl : y < 6 ∨ y = 7 ∨ y = 8 := by omega
      · exact ⟨_, .inl (.inl (.inl (.inl (.inl ⟨y, by omega, rfl⟩)))), rfl, rfl⟩
      · exact ⟨_, .inl (.inl (.inl (.inl (.inr (.inl rfl))))), rfl, rfl⟩
      · exact ⟨_, .inl (.inl (.inl (.inl (.inr (.inr (.inl rfl)))))), rfl, rfl⟩
    · obtain rfl | hlt : y = size - 8 ∨ size - 8 < y := by omega
      · exact ⟨_, .inr rfl, rfl, rfl⟩
      · exact ⟨_, .inl (.inr ⟨15 + y - size, by omega, rfl⟩), rfl, by dsimp only; omega⟩
    · obtain hx | rfl | rfl : x < 6 ∨ x = 7 ∨ x = 8 := by omega
      · exact ⟨_, .inl (.inl (.inl (.inr ⟨14 - x, by omega, rfl⟩))), by dsimp only; omega, rfl⟩
      · exact ⟨_, .inl (.inl (.inl (.inl (.inr (.inr (.inr rfl)))))), rfl, rfl⟩
      · exact ⟨_, .inl (.inl (.inl (.inl (.inr (.inr (.inl rfl)))))), rfl, rfl⟩
    · exact ⟨_, .inl (.inl (.inr ⟨size - 1 - x, by omega, rfl⟩)), by dsimp only; omega, rfl⟩

/-- The two copies of the version. -/
def IsVersionAt (version x y : Nat) : Prop := 7 ≤ version ∧
  ((qrSize version - 11 ≤ x ∧ x < qrSize version - 8 ∧ y < 6) ∨
    (qrSize version - 11 ≤ y ∧ y < qrSize version - 8 ∧ x < 6))

theorem versionCells_at (version x y : Nat) :
    (∃ c ∈ versionCells (qrSize version) version, c.x = x ∧ c.y = y) ↔ IsVersionAt version x y := by
  unfold versionCells IsVersionAt qrSize
  split
  · simp only [List.not_mem_nil, false_and, exists_false, false_iff]
    omega
  · simp only [List.mem_flatMap, List.mem_range, List.mem_cons, List.not_mem_nil, or_false]
    constructor
    · rintro ⟨c, ⟨i, hi, rfl | rfl⟩, rfl, rfl⟩ <;> dsimp only <;> omega
    · rintro ⟨-, ⟨hx, hx', hy⟩ | ⟨hy, hy', hx⟩⟩
      · refine ⟨_, ⟨3 * y + (x - (version * 4 + 17 - 11)), by omega, .inl rfl⟩, ?_, ?_⟩ <;> dsimp only <;>
          omega
      · refine ⟨_, ⟨3 * x + (y - (version * 4 + 17 - 11)), by omega, .inr rfl⟩, ?_, ?_⟩ <;> dsimp only <;>
          omega

/-! ## The boxes of the function patterns -/

/-- An alignment pattern, without the modules it shares with a timing pattern. -/
def alignmentBoxes (p : Nat × Nat) : List Box :=
  if p.2 = 6 then [⟨p.1 - 2, 4, 5, 2⟩, ⟨p.1 - 2, 7, 5, 2⟩]
  else if p.1 = 6 then [⟨4, p.2 - 2, 2, 5⟩, ⟨7, p.2 - 2, 2, 5⟩]
  else [⟨p.1 - 2, p.2 - 2, 5, 5⟩]

def functionBoxes (version : Nat) : List Box :=
  let size := qrSize version
  [⟨0, 0, 9, 9⟩, ⟨size - 8, 0, 8, 9⟩, ⟨0, size - 8, 9, 8⟩, ⟨9, 6, size - 17, 1⟩, ⟨6, 9, 1, size - 17⟩] ++
    (if version < 7 then [] else [⟨size - 11, 0, 3, 6⟩, ⟨0, size - 11, 6, 3⟩]) ++
    (alignmentCentres version).flatMap alignmentBoxes

section
variable {version : Nat} (hv : IsVersion version)
include hv

/-- The centres are in even rows and columns. Alignment patterns keep off the edges; those in row 6
or column 6 keep off the corners. -/
theorem IsVersion.centre {p : Nat × Nat} (hp : p ∈ alignmentCentres version) :
    (6 ≤ p.1 ∧ p.1 + 7 ≤ qrSize version ∧ p.1 % 2 < 1) ∧
      (6 ≤ p.2 ∧ p.2 + 7 ≤ qrSize version ∧ p.2 % 2 < 1) ∧
      (11 ≤ p.1 ∨ p.1 ≤ 6 ∧ 11 ≤ p.2 ∧ p.2 + 13 < qrSize version) ∧
      (11 ≤ p.2 ∨ p.2 ≤ 6 ∧ 11 ≤ p.1 ∧ p.1 + 13 < qrSize version) := by
  have hplace : ∀ v < 41, 1 ≤ v → ∀ p ∈ alignmentCentres v,
      (6 ≤ p.1 ∧ p.1 + 7 ≤ qrSize v ∧ p.1 % 2 < 1) ∧
        (6 ≤ p.2 ∧ p.2 + 7 ≤ qrSize v ∧ p.2 % 2 < 1) := by decide +kernel
  have hoff : ∀ v < 41, 1 ≤ v → ∀ p ∈ alignmentCentres v,
      (11 ≤ p.1 ∨ p.1 ≤ 6 ∧ 11 ≤ p.2 ∧ p.2 + 13 < qrSize v) ∧
        (11 ≤ p.2 ∨ p.2 ≤ 6 ∧ 11 ≤ p.1 ∧ p.1 + 13 < qrSize v) := by decide +kernel
  have hlt := Nat.lt_succ_of_le hv.high
  obtain ⟨hx, hy⟩ := hplace version hlt hv.low p hp
  exact ⟨hx, hy, hoff version hlt hv.low p hp⟩

/-- The boxes are apart, and leave as many modules as the source says. -/
theorem IsVersion.boxes : (functionBoxes version).Pairwise Box.apart ∧
    ((functionBoxes version).map fun b => b.w * b.h).sum + getNumRawDataModules version =
      qrSize version * qrSize version := by
  have hall : ∀ v < 41, 1 ≤ v → Box.allApart (functionBoxes v) = true ∧
      Nat.beq (((functionBoxes v).map fun b => b.w * b.h).sum + getNumRawDataModules v)
        (qrSize v * qrSize v) = true := by decide +kernel
  obtain ⟨hapart, hsum⟩ := hall version (Nat.lt_succ_of_le hv.high) hv.low
  exact ⟨Box.pairwise_of_allApart hapart, Nat.eq_of_beq_eq_true hsum⟩

/-- The module is near the centre of an alignment pattern. -/
def IsAlignmentAt (version x y : Nat) : Prop :=
  ∃ p ∈ alignmentCentres version, ring p.1 p.2 x y ≤ 2

omit hv in
/-- The module is in a corner that has a finder pattern, with its margin. -/
def IsFinderAt (size x y : Nat) : Prop :=
  (x < 8 ∧ y < 8) ∨ (size - 8 ≤ x ∧ x < size ∧ y < 8) ∨ (x < 8 ∧ size - 8 ≤ y ∧ y < size)

/-- The modules of the function patterns, pattern by pattern. -/
theorem IsVersion.isFunctionAt_iff {x y : Nat} : IsFunctionAt version x y ↔
    (x = 6 ∧ y < qrSize version ∨ y = 6 ∧ x < qrSize version) ∨ IsFinderAt (qrSize version) x y ∨
      IsAlignmentAt version x y ∨ IsFormatAt (qrSize version) x y ∨ IsVersionAt version x y := by
  have hlow := hv.low
  have hsize : 21 ≤ qrSize version := by
    unfold qrSize
    omega
  have htiming : (∃ c ∈ timingCells (qrSize version), c.x = x ∧ c.y = y) ↔
      (x = 6 ∧ y < qrSize version ∨ y = 6 ∧ x < qrSize version) := by
    constructor
    · rintro ⟨c, hc, rfl, rfl⟩
      rcases mem_timingCells.mp hc with ⟨h, h', -⟩ | ⟨h, h', -⟩
      · exact .inl ⟨h, h'⟩
      · exact .inr ⟨h, h'⟩
    · rintro (⟨h, h'⟩ | ⟨h, h'⟩)
      · exact ⟨⟨x, y, y % 2 == 0⟩, mem_timingCells.mpr (.inl ⟨h, h', rfl⟩), rfl, rfl⟩
      · exact ⟨⟨x, y, x % 2 == 0⟩, mem_timingCells.mpr (.inr ⟨h, h', rfl⟩), rfl, rfl⟩
  have hfinder : ∀ x' y', (∃ c ∈ finderCells (qrSize version) x' y', c.x = x ∧ c.y = y) ↔
      x < qrSize version ∧ y < qrSize version ∧ ring x' y' x y ≤ 4 := by
    intro x' y'
    constructor
    · rintro ⟨c, hc, rfl, rfl⟩
      obtain ⟨hx, hy, hring, -⟩ := mem_finderCells.mp hc
      exact ⟨hx, hy, hring⟩
    · rintro ⟨hx, hy, hring⟩
      exact ⟨⟨x, y, ring x' y' x y != 2 && ring x' y' x y != 4⟩,
        mem_finderCells.mpr ⟨hx, hy, hring, rfl⟩, rfl, rfl⟩
  have halign : (∃ c ∈ (alignmentCentres version).flatMap fun p => alignmentCells p.1 p.2,
      c.x = x ∧ c.y = y) ↔ IsAlignmentAt version x y := by
    constructor
    · rintro ⟨c, hc, rfl, rfl⟩
      obtain ⟨p, hp, hc⟩ := List.mem_flatMap.mp hc
      have hcentre := hv.centre hp
      exact ⟨p, hp, ((mem_alignmentCells (by omega) (by omega)).mp hc).1⟩
    · rintro ⟨p, hp, hring⟩
      have hcentre := hv.centre hp
      exact ⟨⟨x, y, ring p.1 p.2 x y != 1⟩, List.mem_flatMap.mpr ⟨p, hp,
        (mem_alignmentCells (by omega) (by omega)).mpr ⟨hring, rfl⟩⟩, rfl, rfl⟩
  have htop : (x < qrSize version ∧ y < qrSize version ∧ ring 3 3 x y ≤ 4) ↔ x < 8 ∧ y < 8 := by
    unfold ring
    omega
  have hright : (x < qrSize version ∧ y < qrSize version ∧ ring (qrSize version - 4) 3 x y ≤ 4) ↔
      qrSize version - 8 ≤ x ∧ x < qrSize version ∧ y < 8 := by
    unfold ring
    omega
  have hleft : (x < qrSize version ∧ y < qrSize version ∧ ring 3 (qrSize version - 4) x y ≤ 4) ↔
      x < 8 ∧ qrSize version - 8 ≤ y ∧ y < qrSize version := by
    unfold ring
    omega
  simp only [IsFunctionAt, functionCells, List.mem_append, or_and_right, exists_or, htiming, hfinder,
    halign, formatCells_at _ x y hsize, versionCells_at, IsFinderAt, or_assoc, htop, hright, hleft]

omit hv in
/-- The boxes of an alignment pattern leave out what a timing pattern has. -/
theorem contains_alignmentBoxes {p : Nat × Nat} (hx : 2 ≤ p.1) (hy : 2 ≤ p.2) {x y : Nat} :
    (∃ b ∈ alignmentBoxes p, b.contains x y) ↔
      ring p.1 p.2 x y ≤ 2 ∧ (p.2 = 6 → y ≠ 6) ∧ (p.2 ≠ 6 → p.1 = 6 → x ≠ 6) := by
  unfold alignmentBoxes Box.contains ring
  split
  · simp only [List.mem_cons, List.not_mem_nil, or_false, exists_eq_or_imp, exists_eq_left]
    omega
  · split <;>
      simp only [List.mem_cons, List.not_mem_nil, or_false, exists_eq_or_imp, exists_eq_left] <;>
      omega

/-- The modules of the function patterns are those of the boxes. -/
theorem IsVersion.mem_boxes {x y : Nat} :
    IsFunctionAt version x y ↔ ∃ b ∈ functionBoxes version, b.contains x y := by
  have hlow := hv.low
  have hsize : qrSize version = version * 4 + 17 := rfl
  have hversion : (∃ b ∈ if version < 7 then []
      else [(⟨qrSize version - 11, 0, 3, 6⟩ : Box), ⟨0, qrSize version - 11, 6, 3⟩], b.contains x y) ↔
        IsVersionAt version x y := by
    unfold IsVersionAt Box.contains
    split
    · simp only [List.not_mem_nil, false_and, exists_false, false_iff]
      omega
    · simp only [List.mem_cons, List.not_mem_nil, or_false, exists_eq_or_imp, exists_eq_left]
      omega
  have hfixed : (∃ b ∈ [(⟨0, 0, 9, 9⟩ : Box), ⟨qrSize version - 8, 0, 8, 9⟩,
      ⟨0, qrSize version - 8, 9, 8⟩, ⟨9, 6, qrSize version - 17, 1⟩, ⟨6, 9, 1, qrSize version - 17⟩],
        b.contains x y) ↔
      (x < 9 ∧ y < 9) ∨ (qrSize version - 8 ≤ x ∧ x < qrSize version ∧ y < 9) ∨
        (x < 9 ∧ qrSize version - 8 ≤ y ∧ y < qrSize version) ∨
        (9 ≤ x ∧ x < qrSize version - 8 ∧ y = 6) ∨ (x = 6 ∧ 9 ≤ y ∧ y < qrSize version - 8) := by
    simp only [Box.contains, List.mem_cons, List.not_mem_nil, or_false, exists_eq_or_imp,
      exists_eq_left]
    omega
  simp only [hv.isFunctionAt_iff, functionBoxes, List.mem_append, or_and_right, exists_or, hfixed,
    hversion, List.mem_flatMap]
  constructor
  · rintro (htiming | hfinder | ⟨p, hp, hring⟩ | hformat | hver)
    · exact .inl (.inl (by omega))
    · unfold IsFinderAt at hfinder
      exact .inl (.inl (by omega))
    · have hcentre := hv.centre hp
      by_cases hshared : (p.2 = 6 → y ≠ 6) ∧ (p.2 ≠ 6 → p.1 = 6 → x ≠ 6)
      · obtain ⟨b, hb, hcontains⟩ :=
          (contains_alignmentBoxes (by omega) (by omega)).mpr ⟨hring, hshared⟩
        exact .inr ⟨b, ⟨p, hp, hb⟩, hcontains⟩
      · unfold ring at hring
        exact .inl (.inl (by omega))
    · unfold IsFormatAt at hformat
      exact .inl (.inl (by omega))
    · exact .inl (.inr hver)
  · rintro ((hfixed | hver) | ⟨b, ⟨p, hp, hb⟩, hcontains⟩)
    · have hcases : (x = 6 ∧ y < qrSize version ∨ y = 6 ∧ x < qrSize version) ∨
          IsFinderAt (qrSize version) x y ∨ IsFormatAt (qrSize version) x y := by
        unfold IsFinderAt IsFormatAt
        omega
      rcases hcases with h | h | h
      · exact .inl h
      · exact .inr (.inl h)
      · exact .inr (.inr (.inr (.inl h)))
    · exact .inr (.inr (.inr (.inr hver)))
    · have hcentre := hv.centre hp
      have hring := (contains_alignmentBoxes (by omega) (by omega)).mp ⟨b, hb, hcontains⟩
      exact .inr (.inr (.inl ⟨p, hp, hring.1⟩))

/-- The function patterns are inside the symbol. -/
theorem IsVersion.isFunctionAt_lt {x y : Nat} (h : IsFunctionAt version x y) :
    x < qrSize version ∧ y < qrSize version := by
  have hlow := hv.low
  have hsize : qrSize version = version * 4 + 17 := rfl
  rcases hv.isFunctionAt_iff.mp h with htiming | hfinder | ⟨p, hp, hring⟩ | hformat | hver
  · omega
  · unfold IsFinderAt at hfinder
    omega
  · have hcentre := hv.centre hp
    unfold ring at hring
    omega
  · unfold IsFormatAt at hformat
    omega
  · unfold IsVersionAt at hver
    omega

end

end EthWalletUi.QrGen
