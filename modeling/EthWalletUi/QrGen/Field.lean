import EthWalletUi.Coding.Binary
import EthWalletUi.QrGen.Blocks

/-!
# The field of bytes (`reedSolomonMultiply` of `qrcodegen.js`)

A byte is a polynomial over two elements, and `reedSolomonMultiply` multiplies two of them modulo
`0x11D`. At a root `α` of that modulus, in a field of characteristic two, XOR is the sum and
`reedSolomonMultiply` is the product (`byte_xor`, `byte_multiply`), no byte but 0 is zero there
(`byte_eq_zero`), and the 255 others are the powers of 2, each once.
-/

namespace EthWalletUi.QrGen

open Coding Polynomial

/-- One bit of `y` in the loop of `reedSolomonMultiply`. -/
def multiplyStep (x y z i : Nat) : Nat := reduceStep 8 0x11D z ^^^ (((y >>> i) &&& 1) * x)

/-- `root = reedSolomonMultiply(root, 0x02)`. -/
def double (root : Nat) : Nat := reedSolomonMultiply root 0x02

theorem reedSolomonMultiply_eq (x y : Nat) :
    reedSolomonMultiply x y = (List.range 8).reverse.foldl (multiplyStep x y) 0 &&& 0xFF := rfl

theorem reedSolomonMultiply_lt (x y : Nat) : reedSolomonMultiply x y < 256 :=
  Nat.and_lt_two_pow (n := 8) _ (by decide)

theorem double_iterate_lt (i : Nat) : double^[i] 1 < 256 := by
  cases i with
  | zero => decide
  | succ i =>
    rw [Function.iterate_succ_apply']
    exact reedSolomonMultiply_lt ..

/-! ## Bytes in a field -/

theorem multiplyStep_lt {x z : Nat} (y i : Nat) (hx : x < 256) (hz : z < 256) :
    multiplyStep x y z i < 256 := by
  have hbit : ((y >>> i) &&& 1) * x < 2 ^ 8 := by
    have h := Nat.mod_lt (y >>> i) (by decide : 0 < 2)
    rw [Nat.and_one_is_mod]
    nlinarith
  exact Nat.xor_lt_two_pow (n := 8) (reduceStep_lt (by decide) (by decide) (by decide) hz) hbit

section
variable {F : Type*} [Field F] {α : F}

/-- A byte as a polynomial in `α`. -/
def byte (α : F) (n : Nat) : F := ofBits α 8 n

@[simp] theorem byte_zero : byte α 0 = 0 := ofBits_zero α 8

@[simp] theorem byte_one : byte α 1 = 1 := ofBits_one α (by decide)

theorem byte_two : byte α 2 = α := by
  have h := ofBits_shiftLeft α 7 1
  rw [ofBits_one α (by decide), mul_one] at h
  exact h

variable [CharP F 2]

theorem byte_xor (x y : Nat) : byte α (x ^^^ y) = byte α x + byte α y := ofBits_xor α 8 x y

variable (hα : ofBits α 9 0x11D = 0)
include hα

theorem byte_multiplyStep {x z : Nat} (y i : Nat) (hz : z < 256) :
    byte α (multiplyStep x y z i) = α * byte α z + (if y.testBit i then byte α x else 0) := by
  have hshift := ofBits_reduceStep (x := α) (by decide) (by decide) (by decide) hα hz
  rw [multiplyStep, byte_xor]
  congr 1
  rw [Nat.testBit_eq_decide_div_mod_eq, bit_eq]
  rcases Nat.mod_two_eq_zero_or_one (y / 2 ^ i) with h | h <;> simp [h]

/-- `reedSolomonMultiply` multiplies. -/
theorem byte_multiply {x : Nat} (hx : x < 256) (y : Nat) :
    byte α (reedSolomonMultiply x y) = byte α x * byte α y := by
  have hloop : ∀ n z, z < 256 →
      (List.range n).reverse.foldl (multiplyStep x y) z < 256 ∧
      byte α ((List.range n).reverse.foldl (multiplyStep x y) z) =
        α ^ n * byte α z + ofBits α n y * byte α x := by
    intro n
    induction n with
    | zero =>
      intro z hz
      refine ⟨hz, ?_⟩
      simp [ofBits]
    | succ n ih =>
      intro z hz
      obtain ⟨hlt, heq⟩ := ih _ (multiplyStep_lt y n hx hz)
      rw [List.range_succ, List.reverse_append, List.reverse_singleton, List.singleton_append,
        List.foldl_cons]
      refine ⟨hlt, ?_⟩
      rw [heq, byte_multiplyStep hα y n hz, ofBits, ofBits, Finset.sum_range_succ]
      split <;> ring
  obtain ⟨hlt, heq⟩ := hloop 8 0 (by decide)
  rw [reedSolomonMultiply_eq, Nat.and_two_pow_sub_one_of_lt_two_pow (n := 8) hlt, heq, byte_zero,
    mul_zero, zero_add, mul_comm]
  rfl

theorem byte_double_iterate (i : Nat) : byte α (double^[i] 1) = α ^ i := by
  induction i with
  | zero => rw [Function.iterate_zero_apply, byte_one, pow_zero]
  | succ i ih =>
    rw [Function.iterate_succ_apply', double, byte_multiply hα (double_iterate_lt i), ih,
      byte_two, pow_succ]

end

/-! ## The powers of 2 -/

theorem double_iterate_255 : double^[255] 1 = 1 := by decide +kernel

/-- The first 255 powers of 2 are the bytes but 0. -/
theorem mem_powers {n : Nat} : n ∈ List.iterate double 1 255 ↔ 1 ≤ n ∧ n < 256 := by
  have hset : bitSet (List.iterate double 1 255) = 2 ^ 256 - 2 := by decide +kernel
  have hbit := testBit_bitSet (List.iterate double 1 255) n
  have hone : (2 ^ 0 : Nat).testBit n = decide (0 = n) := Nat.testBit_two_pow
  rw [pow_zero] at hone
  rw [hset, show (2 : Nat) ^ 256 - 2 = 2 ^ 256 - (1 + 1) from rfl,
    Nat.testBit_two_pow_sub_succ (by decide), hone] at hbit
  rw [← decide_eq_true_iff (p := n ∈ _), ← hbit]
  simp
  omega

theorem powers_nodup : (List.iterate double 1 255).Nodup := by
  have hsub : List.range' 1 255 ⊆ List.iterate double 1 255 := by
    intro n hn
    have hn := List.mem_range'_1.mp hn
    exact mem_powers.mpr ⟨hn.1, by omega⟩
  have hperm := (List.subperm_of_subset List.nodup_range' hsub).perm_of_length_le
    (by rw [List.length_iterate, List.length_range'])
  exact hperm.nodup_iff.mp List.nodup_range'

theorem exists_power {n : Nat} (h : n ≠ 0) (h' : n < 256) : ∃ i < 255, double^[i] 1 = n := by
  obtain ⟨i, hi, heq⟩ := List.mem_iterate.mp (mem_powers.mpr ⟨Nat.pos_of_ne_zero h, h'⟩)
  exact ⟨i, hi, heq.symm⟩

theorem power_inj {i j : Nat} (hi : i < 255) (hj : j < 255) (h : double^[i] 1 = double^[j] 1) :
    i = j := by
  have hnodup := powers_nodup
  rw [← List.range_map_iterate] at hnodup
  exact List.inj_on_of_nodup_map hnodup (List.mem_range.mpr hi) (List.mem_range.mpr hj) h

section
variable {F : Type*} [Field F] [CharP F 2] {α : F} (hα : ofBits α 9 0x11D = 0)
include hα

theorem root_ne_zero : α ≠ 0 := by
  rintro rfl
  have h := byte_double_iterate hα 255
  rw [double_iterate_255, byte_one, zero_pow (by decide)] at h
  exact one_ne_zero h

/-- No byte but 0 is zero. -/
theorem byte_eq_zero {n : Nat} (hn : n < 256) : byte α n = 0 ↔ n = 0 := by
  refine ⟨fun h => ?_, fun h => by rw [h, byte_zero]⟩
  by_contra hne
  obtain ⟨i, -, rfl⟩ := exists_power hne hn
  rw [byte_double_iterate hα] at h
  exact pow_ne_zero i (root_ne_zero hα) h

theorem byte_inj {m n : Nat} (hm : m < 256) (hn : n < 256) : byte α m = byte α n ↔ m = n := by
  rw [← sub_eq_zero, CharTwo.sub_eq_add, ← byte_xor,
    byte_eq_zero hα (Nat.xor_lt_two_pow (n := 8) hm hn), Nat.xor_eq_zero_iff]

/-- The powers of the root differ, up to 255 of them. -/
theorem root_pow_inj {i j : Nat} (hi : i < 255) (hj : j < 255) (h : α ^ i = α ^ j) : i = j := by
  rw [← byte_double_iterate hα, ← byte_double_iterate hα,
    byte_inj hα (double_iterate_lt i) (double_iterate_lt j)] at h
  exact power_inj hi hj h

end

/-- There is a field of characteristic two with a root of the modulus. -/
theorem exists_root : ∃ α : AlgebraicClosure (ZMod 2), ofBits α 9 0x11D = 0 := by
  let p : (AlgebraicClosure (ZMod 2))[X] := X ^ 8 + X ^ 4 + X ^ 3 + X ^ 2 + 1
  have hdeg : p.degree = 8 := by
    simp only [p]
    compute_degree!
  obtain ⟨α, hα⟩ := IsAlgClosed.exists_root p (by rw [hdeg]; decide)
  refine ⟨α, ?_⟩
  rw [← hα.eq_zero]
  simp [p, ofBits, Finset.sum_range_succ, Nat.testBit]
  ring

/-! ## The laws of the bytes -/

/-- With XOR and `reedSolomonMultiply` the bytes are a field, and the powers of 2 run through it. -/
theorem reedSolomonMultiply_field {x y z : Nat} (hx : x < 256) (hy : y < 256) :
    reedSolomonMultiply x y < 256 ∧
      reedSolomonMultiply x y = reedSolomonMultiply y x ∧
      reedSolomonMultiply (reedSolomonMultiply x y) z =
        reedSolomonMultiply x (reedSolomonMultiply y z) ∧
      reedSolomonMultiply x (y ^^^ z) = reedSolomonMultiply x y ^^^ reedSolomonMultiply x z ∧
      reedSolomonMultiply x 1 = x ∧
      (x ≠ 0 → (∃ w < 256, reedSolomonMultiply x w = 1) ∧ ∃! i, i < 255 ∧ double^[i] 1 = x) := by
  obtain ⟨α, hα⟩ := exists_root
  have hlt := reedSolomonMultiply_lt
  have hxor : reedSolomonMultiply x y ^^^ reedSolomonMultiply x z < 256 :=
    Nat.xor_lt_two_pow (n := 8) (hlt ..) (hlt ..)
  refine ⟨hlt .., ?_, ?_, ?_, ?_, fun hne => ⟨?_, ?_⟩⟩
  · rw [← byte_inj hα (hlt ..) (hlt ..), byte_multiply hα hx, byte_multiply hα hy, mul_comm]
  · rw [← byte_inj hα (hlt ..) (hlt ..), byte_multiply hα (hlt ..), byte_multiply hα hx,
      byte_multiply hα hx, byte_multiply hα hy, mul_assoc]
  · rw [← byte_inj hα (hlt ..) hxor, byte_xor, byte_multiply hα hx, byte_multiply hα hx,
      byte_multiply hα hx, byte_xor, mul_add]
  · rw [← byte_inj hα (hlt ..) hx, byte_multiply hα hx, byte_one, mul_one]
  · obtain ⟨i, hi, rfl⟩ := exists_power hne hx
    refine ⟨double^[255 - i] 1, double_iterate_lt _, ?_⟩
    rw [← byte_inj hα (hlt ..) (by decide), byte_multiply hα (double_iterate_lt i),
      byte_double_iterate hα, byte_double_iterate hα, ← pow_add, Nat.add_sub_cancel' hi.le,
      ← byte_double_iterate hα, double_iterate_255]
  · obtain ⟨i, hi, hpow⟩ := exists_power hne hx
    refine ⟨i, ⟨hi, hpow⟩, ?_⟩
    rintro j ⟨hj, hj'⟩
    exact power_inj hj hi (hj'.trans hpow.symm)

theorem reedSolomonMultiply_field_case :
    reedSolomonMultiply (reedSolomonMultiply 0x80 0x1D) 3 =
      reedSolomonMultiply 0x80 (reedSolomonMultiply 0x1D 3) :=
  (reedSolomonMultiply_field (by decide : 0x80 < 256) (by decide : 0x1D < 256)).2.2.1

end EthWalletUi.QrGen
