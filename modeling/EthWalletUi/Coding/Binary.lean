import Mathlib

/-!
# Numbers as polynomials over two elements

The bits of a number are the coefficients of a polynomial: XOR adds two of them, a shift to the left
multiplies by the variable. A shift register that gives up its top bit for `g` (`reduceStep`)
multiplies by the variable as long as the variable is a root of `g`. The polynomials are evaluated in
any ring of characteristic two, so the same lemmas serve a field of bytes and a check word.
-/

namespace Coding

open Finset

section
variable {R : Type*} [CommRing R] (x : R)

/-- The polynomial whose coefficients are the `w` low bits of `n`, at `x`. -/
def ofBits (w n : ℕ) : R := ∑ i ∈ range w, if n.testBit i then x ^ i else 0

@[simp] theorem ofBits_zero (w : ℕ) : ofBits x w 0 = 0 := by simp [ofBits]

/-- Higher bits than a number has add nothing. -/
theorem ofBits_widen {w w' n : ℕ} (hn : n < 2 ^ w) (hw : w ≤ w') : ofBits x w' n = ofBits x w n := by
  symm
  refine sum_subset (range_subset_range.mpr hw) fun i _ hi => ?_
  have hlt : n < 2 ^ i :=
    hn.trans_le (Nat.pow_le_pow_right (by decide) (not_lt.mp fun h => hi (mem_range.mpr h)))
  rw [Nat.testBit_lt_two_pow hlt, if_neg Bool.false_ne_true]

theorem ofBits_one {w : ℕ} (hw : 0 < w) : ofBits x w 1 = 1 := by
  rw [ofBits_widen x (by decide : 1 < 2 ^ 1) hw]
  simp [ofBits]

/-- A shift to the left multiplies by the variable. -/
theorem ofBits_shiftLeft (w n : ℕ) : ofBits x (w + 1) (n <<< 1) = x * ofBits x w n := by
  rw [ofBits, sum_range_succ', ofBits, mul_sum]
  have h0 : (n <<< 1).testBit 0 = false := by simp
  rw [h0, if_neg Bool.false_ne_true, add_zero]
  refine sum_congr rfl fun i _ => ?_
  have hi : (n <<< 1).testBit (i + 1) = n.testBit i := by simp
  rw [hi, pow_succ']
  split <;> simp

/-- XOR adds the polynomials. -/
theorem ofBits_xor [CharP R 2] (w a b : ℕ) :
    ofBits x w (a ^^^ b) = ofBits x w a + ofBits x w b := by
  rw [ofBits, ofBits, ofBits, ← sum_add_distrib]
  refine sum_congr rfl fun i _ => ?_
  rw [Nat.testBit_xor]
  cases a.testBit i <;> cases b.testBit i <;> simp [CharTwo.add_self_eq_zero]

end

/-! ## The shift register -/

/-- A register of `w` bits shifts to the left and gives up its top bit for `g`. -/
def reduceStep (w g z : ℕ) : ℕ := (z <<< 1) ^^^ ((z >>> (w - 1)) * g)

variable {w g z : ℕ}

/-- The top bit of a register. -/
theorem topBit_cases (hw : 0 < w) (hz : z < 2 ^ w) :
    (z < 2 ^ (w - 1) ∧ z >>> (w - 1) = 0) ∨ (2 ^ (w - 1) ≤ z ∧ z >>> (w - 1) = 1) := by
  have hpow : 2 ^ w = 2 * 2 ^ (w - 1) := by
    rw [← Nat.pow_succ', Nat.succ_eq_add_one, Nat.sub_add_cancel hw]
  rw [Nat.shiftRight_eq_div_pow]
  rcases lt_or_ge z (2 ^ (w - 1)) with hlt | hge
  · exact .inl ⟨hlt, Nat.div_eq_of_lt hlt⟩
  · refine .inr ⟨hge, Nat.div_eq_of_lt_le ?_ ?_⟩ <;> omega

/-- Two numbers whose top bit is bit `w` lose it in their XOR. -/
theorem xor_lt_of_topBit {a b : ℕ} (ha : 2 ^ w ≤ a) (ha' : a < 2 ^ (w + 1)) (hb : 2 ^ w ≤ b)
    (hb' : b < 2 ^ (w + 1)) : a ^^^ b < 2 ^ w := by
  have htop : ∀ n, 2 ^ w ≤ n → n < 2 ^ (w + 1) → n.testBit w = true := by
    intro n hn hn'
    rw [Nat.testBit_eq_decide_div_mod_eq, decide_eq_true_eq, Nat.div_eq_of_lt_le (k := 1)]
    · omega
    · rw [Nat.pow_succ] at hn'
      omega
  refine Nat.lt_pow_two_of_testBit _ fun i hi => ?_
  rw [Nat.testBit_xor]
  rcases eq_or_lt_of_le hi with rfl | hlt
  · rw [htop a ha ha', htop b hb hb', Bool.xor_self]
  · have hle : 2 ^ (w + 1) ≤ 2 ^ i := Nat.pow_le_pow_right (by decide) hlt
    rw [Nat.testBit_lt_two_pow (ha'.trans_le hle), Nat.testBit_lt_two_pow (hb'.trans_le hle),
      Bool.xor_self]

/-- The register keeps its width. -/
theorem reduceStep_lt (hw : 0 < w) (hg : 2 ^ w ≤ g) (hg' : g < 2 ^ (w + 1)) (hz : z < 2 ^ w) :
    reduceStep w g z < 2 ^ w := by
  have hpow : 2 ^ w = 2 * 2 ^ (w - 1) := by
    rw [← Nat.pow_succ', Nat.succ_eq_add_one, Nat.sub_add_cancel hw]
  have hshift : z <<< 1 = 2 * z := by rw [Nat.shiftLeft_eq, pow_one, Nat.mul_comm]
  unfold reduceStep
  rcases topBit_cases hw hz with ⟨hlt, h⟩ | ⟨hge, h⟩
  · rw [h, Nat.zero_mul, Nat.xor_zero, hshift]
    omega
  · rw [h, Nat.one_mul, hshift]
    refine xor_lt_of_topBit ?_ ?_ hg hg'
    · omega
    · rw [Nat.pow_succ]
      omega

/-- One step multiplies by a root of `g`. -/
theorem ofBits_reduceStep {R : Type*} [CommRing R] [CharP R 2] {x : R} (hw : 0 < w)
    (hg : 2 ^ w ≤ g) (hg' : g < 2 ^ (w + 1)) (hroot : ofBits x (w + 1) g = 0) (hz : z < 2 ^ w) :
    ofBits x w (reduceStep w g z) = x * ofBits x w z := by
  rw [← ofBits_widen x (reduceStep_lt hw hg hg' hz) (Nat.le_succ w), reduceStep, ofBits_xor,
    ofBits_shiftLeft]
  rcases topBit_cases hw hz with ⟨-, h⟩ | ⟨-, h⟩
  · rw [h, Nat.zero_mul, ofBits_zero, add_zero]
  · rw [h, Nat.one_mul, hroot, add_zero]

/-! ## Sets of numbers -/

/-- The number whose bits are the members of a list. -/
def bitSet (ns : List ℕ) : ℕ := ns.foldl (fun m n => m ||| 1 <<< n) 0

theorem testBit_bitSet (ns : List ℕ) (k : ℕ) : (bitSet ns).testBit k = decide (k ∈ ns) := by
  have hfrom : ∀ (ns : List ℕ) (m : ℕ),
      (ns.foldl (fun m n => m ||| 1 <<< n) m).testBit k = (m.testBit k || decide (k ∈ ns)) := by
    intro ns
    induction ns with
    | nil => simp
    | cons n ns ih =>
      intro m
      rw [List.foldl_cons, ih, Nat.testBit_or, Nat.one_shiftLeft, Nat.testBit_two_pow, Bool.or_assoc]
      congr 1
      rw [Bool.eq_iff_iff, Bool.or_eq_true, decide_eq_true_eq, decide_eq_true_eq, decide_eq_true_eq,
        List.mem_cons]
      exact or_congr_left eq_comm
  rw [bitSet, hfrom, Nat.zero_testBit, Bool.false_or]

end Coding
