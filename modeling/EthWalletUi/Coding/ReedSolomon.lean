import Mathlib

/-!
# Check words by division (Reed–Solomon codes)

A word is a polynomial, its highest coefficient first. Its check word is the remainder of a division
by the polynomial whose roots are the first powers of `α`, so that data and check word together
vanish there (`horner_codeword`). A word that vanishes at `d` powers of `α` and is not zero has more than
`d` places that are not (`eq_zero_of_weight_le`), so two codewords differ in more than `d`.
-/

namespace Coding

section
variable {F : Type*} [CommRing F] (x : F)

/-- The polynomial of a word, at `x`. -/
def horner (cs : List F) : F := cs.foldl (fun a c => a * x + c) 0

theorem horner_append (as bs : List F) :
    horner x (as ++ bs) = horner x as * x ^ bs.length + horner x bs := by
  have hfrom : ∀ (bs : List F) (a : F),
      bs.foldl (fun a c => a * x + c) a = a * x ^ bs.length + horner x bs := by
    intro bs
    induction bs with
    | nil => intro a; simp [horner]
    | cons b bs ih =>
      intro a
      have hb : horner x (b :: bs) = b * x ^ bs.length + horner x bs := by
        rw [horner, List.foldl_cons, ih]
        ring
      rw [List.foldl_cons, ih, hb, List.length_cons]
      ring
  rw [horner, List.foldl_append, hfrom]
  rfl

theorem horner_cons (c : F) (cs : List F) : horner x (c :: cs) = c * x ^ cs.length + horner x cs := by
  have h := horner_append x [c] cs
  simpa [horner] using h

@[simp] theorem horner_nil : horner x ([] : List F) = 0 := rfl

@[simp] theorem horner_replicate_zero (n : ℕ) : horner x (List.replicate n (0 : F)) = 0 := by
  induction n with
  | zero => rfl
  | succ n ih => rw [List.replicate_succ, horner_cons, ih, zero_mul, add_zero]

theorem horner_zipWith (f : F) {as bs : List F} (h : as.length = bs.length) :
    horner x (List.zipWith (fun a b => a + b * f) as bs) = horner x as + horner x bs * f := by
  induction as generalizing bs with
  | nil => cases bs with
    | nil => simp
    | cons b bs => exact absurd h (Nat.succ_ne_zero _).symm
  | cons a as ih => cases bs with
    | nil => exact absurd h (Nat.succ_ne_zero _)
    | cons b bs =>
      have hlen : as.length = bs.length := Nat.succ.inj h
      rw [List.zipWith_cons_cons, horner_cons, ih hlen, horner_cons, horner_cons, List.length_zipWith,
        hlen, Nat.min_self]
      ring

/-! ## The remainder -/

/-- One letter goes into the remainder of a division by `divisor`, whose leading one is left out. -/
def divideStep (divisor result : List F) (b : F) : List F :=
  List.zipWith (fun r d => r + d * (b + result.headD 0)) (result.tail ++ [0]) divisor

def remainder (data divisor : List F) : List F :=
  data.foldl (divideStep divisor) (divisor.map fun _ => 0)

variable {x} {divisor : List F}

theorem divideStep_length {result : List F} (b : F) (h : result.length = divisor.length)
    (hpos : 0 < divisor.length) : (divideStep divisor result b).length = divisor.length := by
  rw [divideStep, List.length_zipWith, List.length_append, List.length_tail, List.length_singleton, h]
  omega

theorem horner_divideStep [CharP F 2] (hroot : x ^ divisor.length + horner x divisor = 0)
    {result : List F} (b : F) (h : result.length = divisor.length) (hpos : 0 < divisor.length) :
    horner x (divideStep divisor result b) = horner x result * x + b * x ^ divisor.length := by
  obtain ⟨r, rs, rfl⟩ := List.exists_cons_of_ne_nil (List.length_pos_iff.mp (h ▸ hpos))
  have hdiv : horner x divisor = x ^ divisor.length := by
    rw [← sub_eq_zero, CharTwo.sub_eq_add, add_comm]
    exact hroot
  have hpow : x ^ divisor.length = x ^ rs.length * x := by
    rw [← h, List.length_cons, pow_succ]
  rw [divideStep, List.tail_cons, List.headD_cons, horner_zipWith x _ (by simpa using h), hdiv,
    horner_append, horner_cons x r, hpow]
  simp only [List.length_singleton, pow_one, horner_cons, horner_nil, zero_mul, add_zero]
  ring

/-- What a remainder is at a root of the divisor. -/
theorem horner_remainder [CharP F 2] (hroot : x ^ divisor.length + horner x divisor = 0)
    (hpos : 0 < divisor.length) (data : List F) :
    (remainder data divisor).length = divisor.length ∧
      horner x (remainder data divisor) = horner x data * x ^ divisor.length := by
  induction data using List.reverseRecOn with
  | nil => exact ⟨List.length_map _, by simp [remainder, List.map_const']⟩
  | append_singleton data b ih =>
    obtain ⟨hlen, hval⟩ := ih
    have hstep : remainder (data ++ [b]) divisor = divideStep divisor (remainder data divisor) b := by
      rw [remainder, List.foldl_append]
      rfl
    rw [hstep]
    refine ⟨divideStep_length b hlen hpos, ?_⟩
    rw [horner_divideStep hroot b hlen hpos, hval, horner_append, horner_cons]
    simp only [List.length_singleton, List.length_nil, pow_one, pow_zero, horner_nil]
    ring

/-- Data and check word together vanish at every root of the divisor. -/
theorem horner_codeword [CharP F 2] (hroot : x ^ divisor.length + horner x divisor = 0)
    (hpos : 0 < divisor.length) (data : List F) :
    horner x (data ++ remainder data divisor) = 0 := by
  obtain ⟨hlen, hval⟩ := horner_remainder hroot hpos data
  rw [horner_append, hlen, hval]
  exact CharTwo.add_self_eq_zero _

end

/-! ## The divisor -/

section
variable {F : Type*} [CommRing F]

/-- The word times `X + root`, its first letter going out. -/
def timesRoot (root : F) : List F → List F
  | c :: d :: cs => (c * root + d) :: timesRoot root (d :: cs)
  | [c] => [c * root]
  | [] => []

@[simp] theorem timesRoot_length (root : F) (cs : List F) :
    (timesRoot root cs).length = cs.length := by
  fun_induction timesRoot root cs with
  | case1 c d cs ih => simpa using ih
  | case2 c => rfl
  | case3 => rfl

theorem horner_timesRoot (x root : F) (cs : List F) :
    cs.headD 0 * x ^ cs.length + horner x (timesRoot root cs) = (x + root) * horner x cs := by
  fun_induction timesRoot root cs with
  | case1 c d cs ih =>
    rw [List.headD_cons] at ih ⊢
    rw [horner_cons, horner_cons x c, timesRoot_length, List.length_cons]
    linear_combination ih
  | case2 c => simp only [List.headD_cons, List.length_singleton, horner_cons, horner_nil,
      List.length_nil]; ring
  | case3 => simp

/-- The coefficients after the leading one, of the product of `X + α ^ i` for `i < n`. -/
def divisorStep (α : F) (s : List F × F) : List F × F := (timesRoot s.2 s.1, s.2 * α)

/-- The generator of `degree` check letters, its leading one left out. -/
def generator (α : F) (degree : ℕ) : List F :=
  ((divisorStep α)^[degree] (List.replicate (degree - 1) 0 ++ [1], 1)).1

theorem timesRoot_zeros (root : F) (k : ℕ) (c : F) (cs : List F) :
    timesRoot root (List.replicate (k + 1) 0 ++ c :: cs) =
      List.replicate k 0 ++ c :: timesRoot root (c :: cs) := by
  induction k with
  | zero =>
    rw [List.replicate_one, List.singleton_append, timesRoot, zero_mul, zero_add]
    rfl
  | succ k ih =>
    have htail : List.replicate (k + 2) (0 : F) ++ c :: cs =
        0 :: 0 :: (List.replicate k 0 ++ c :: cs) := rfl
    rw [htail, timesRoot, zero_mul, zero_add]
    exact congrArg (0 :: ·) ih

theorem divisorStep_iterate (α : F) {degree i : ℕ} (h : i < degree) :
    ∃ cs : List F, (divisorStep α)^[i] (List.replicate (degree - 1) 0 ++ [1], 1) =
        (List.replicate (degree - 1 - i) 0 ++ 1 :: cs, α ^ i) ∧ cs.length = i ∧
      ∀ x, horner x (1 :: cs) = ∏ k ∈ Finset.range i, (x + α ^ k) := by
  induction i with
  | zero => exact ⟨[], by simp, rfl, fun x => by simp [horner]⟩
  | succ i ih =>
    obtain ⟨cs, heq, hlen, hprod⟩ := ih (by omega)
    refine ⟨timesRoot (α ^ i) (1 :: cs), ?_, by rw [timesRoot_length, List.length_cons, hlen], ?_⟩
    · rw [Function.iterate_succ_apply', heq, divisorStep,
        show degree - 1 - i = degree - 1 - (i + 1) + 1 by omega, timesRoot_zeros, pow_succ]
    · intro x
      have h := horner_timesRoot x (α ^ i) (1 :: cs)
      rw [List.headD_cons, one_mul] at h
      rw [horner_cons, timesRoot_length, one_mul, h, hprod, Finset.prod_range_succ, mul_comm]

/-- The generator's roots are the first powers of `α`. -/
theorem generator_root [CharP F 2] (α : F) {degree j : ℕ} (h : j < degree) :
    (generator α degree).length = degree ∧
      (α ^ j) ^ degree + horner (α ^ j) (generator α degree) = 0 := by
  obtain ⟨n, rfl⟩ := Nat.exists_eq_succ_of_ne_zero (Nat.ne_zero_of_lt h)
  obtain ⟨cs, heq, hlen, hprod⟩ := divisorStep_iterate α (Nat.lt_succ_self n)
  have hgen : generator α (n + 1) = timesRoot (α ^ n) (1 :: cs) := by
    rw [generator, Function.iterate_succ_apply', heq, divisorStep]
    simp
  have hlen' : (generator α (n + 1)).length = n + 1 := by
    rw [hgen, timesRoot_length, List.length_cons, hlen]
  have hval := horner_timesRoot (α ^ j) (α ^ n) (1 :: cs)
  rw [List.headD_cons, one_mul, List.length_cons, hlen, ← hgen] at hval
  refine ⟨hlen', ?_⟩
  rw [hval, hprod, mul_comm, ← Finset.prod_range_succ]
  refine Finset.prod_eq_zero (Finset.mem_range.mpr h) ?_
  exact CharTwo.add_self_eq_zero _

end

/-! ## The distance -/

section
variable {F : Type*} [Field F] [DecidableEq F]

/-- The letters that are not zero, each with its exponent. -/
def terms : List F → List (F × ℕ)
  | [] => []
  | c :: cs => if c = 0 then terms cs else (c, cs.length) :: terms cs

theorem terms_length (cs : List F) : (terms cs).length = cs.countP fun c => c ≠ 0 := by
  fun_induction terms cs with
  | case1 => rfl
  | case2 cs ih => simpa using ih
  | case3 c cs hc ih => simp [hc, ih]

theorem terms_ne_zero {cs : List F} {t : F × ℕ} (ht : t ∈ terms cs) : t.1 ≠ 0 := by
  fun_induction terms cs with
  | case1 => exact absurd ht List.not_mem_nil
  | case2 cs ih => exact ih ht
  | case3 c cs hc ih =>
    rcases List.mem_cons.mp ht with rfl | ht
    · exact hc
    · exact ih ht

theorem terms_lt {cs : List F} {t : F × ℕ} (ht : t ∈ terms cs) : t.2 < cs.length := by
  fun_induction terms cs with
  | case1 => exact absurd ht List.not_mem_nil
  | case2 cs ih => exact (ih ht).trans (Nat.lt_succ_self _)
  | case3 c cs hc ih =>
    rcases List.mem_cons.mp ht with rfl | ht
    · exact Nat.lt_succ_self _
    · exact (ih ht).trans (Nat.lt_succ_self _)

theorem terms_nodup (cs : List F) : ((terms cs).map Prod.snd).Nodup := by
  fun_induction terms cs with
  | case1 => exact List.nodup_nil
  | case2 cs ih => exact ih
  | case3 c cs hc ih =>
    refine List.nodup_cons.mpr ⟨fun hmem => ?_, ih⟩
    obtain ⟨t, ht, hlen⟩ := List.mem_map.mp hmem
    exact (terms_lt ht).ne hlen

theorem horner_eq_terms (x : F) (cs : List F) :
    horner x cs = ((terms cs).map fun t => t.1 * x ^ t.2).sum := by
  fun_induction terms cs with
  | case1 => rfl
  | case2 cs ih => rw [horner_cons, zero_mul, zero_add, ih]
  | case3 c cs hc ih => rw [horner_cons, ih, List.map_cons, List.sum_cons]

/-- A word that vanishes at the first `d` powers of `α` and has at most `d` letters that are not zero
has none. -/
theorem eq_zero_of_weight_le {α : F} {cs : List F} {d : ℕ}
    (hα : ∀ i < cs.length, ∀ j < cs.length, α ^ i = α ^ j → i = j)
    (hvan : ∀ j < d, horner (α ^ j) cs = 0) (hw : cs.countP (fun c => c ≠ 0) ≤ d) :
    ∀ c ∈ cs, c = 0 := by
  have hinj : Function.Injective fun i : Fin (terms cs).length => α ^ ((terms cs).get i).2 := by
    intro i j hij
    have hexp := hα _ (terms_lt ((terms cs).get_mem i)) _ (terms_lt ((terms cs).get_mem j)) hij
    have hnodup := List.nodup_iff_injective_get.mp (terms_nodup cs)
    have hi : ∀ k : Fin (terms cs).length, k.val < ((terms cs).map Prod.snd).length := by
      intro k
      rw [List.length_map]
      exact k.isLt
    have := @hnodup ⟨i, hi i⟩ ⟨j, hi j⟩ (by simpa using hexp)
    exact Fin.ext (Fin.mk.inj this)
  have hsum : ∀ j : Fin (terms cs).length,
      ∑ i, ((terms cs).get i).1 * (α ^ ((terms cs).get i).2) ^ (j : ℕ) = 0 := by
    intro j
    have hj : (j : ℕ) < d := j.isLt.trans_le ((terms_length cs).trans_le hw)
    rw [← hvan j hj, horner_eq_terms, ← List.sum_ofFn]
    congr 1
    refine List.ext_get (by simp) fun n h₁ h₂ => ?_
    simp [← pow_mul, Nat.mul_comm]
  have hzero := Matrix.eq_zero_of_forall_pow_sum_mul_pow_eq_zero hinj hsum
  have hnone : (terms cs).length = 0 := by
    by_contra hpos
    have hfirst := congrFun hzero ⟨0, Nat.pos_of_ne_zero hpos⟩
    exact terms_ne_zero ((terms cs).get_mem _) hfirst
  rw [terms_length, List.countP_eq_zero] at hnone
  intro c hc
  simpa using hnone c hc

end

/-- The number of places in which two words differ. -/
def differ {α : Type*} [DecidableEq α] (as bs : List α) : ℕ :=
  (List.zip as bs).countP fun p => p.1 ≠ p.2

section
variable {α : Type*} [DecidableEq α]

theorem differ_cons (a b : α) (as bs : List α) :
    differ (a :: as) (b :: bs) = differ as bs + if a ≠ b then 1 else 0 := by
  simp [differ, List.countP_cons]

theorem differ_comm (as bs : List α) : differ as bs = differ bs as := by
  induction as generalizing bs with
  | nil => simp [differ]
  | cons a as ih => cases bs with
    | nil => simp [differ]
    | cons b bs =>
      rw [differ_cons, differ_cons, ih]
      exact congrArg _ (if_congr ne_comm rfl rfl)

theorem differ_triangle {as bs cs : List α} (h : as.length = bs.length) :
    differ as cs ≤ differ as bs + differ bs cs := by
  induction as generalizing bs cs with
  | nil => simp [differ]
  | cons a as ih => cases bs with
    | nil => exact absurd h (Nat.succ_ne_zero _)
    | cons b bs => cases cs with
      | nil => simp [differ]
      | cons c cs =>
        have htail : differ as cs ≤ differ as bs + differ bs cs := ih (Nat.succ.inj h)
        have hhead : (if a ≠ c then 1 else 0) ≤ (if a ≠ b then 1 else 0) + if b ≠ c then 1 else 0 := by
          by_cases hab : a = b
          · simp [hab]
          · rw [if_pos hab]
            split <;> omega
        rw [differ_cons, differ_cons, differ_cons]
        omega

theorem differ_le (as bs : List α) : differ as bs ≤ bs.length := by
  refine List.countP_le_length.trans ?_
  rw [List.length_zip]
  exact Nat.min_le_right ..

theorem differ_append_left (as bs cs : List α) : differ (as ++ bs) (as ++ cs) = differ bs cs := by
  induction as with
  | nil => rfl
  | cons a as ih => rw [List.cons_append, List.cons_append, differ_cons, ih]; simp

end

end Coding
