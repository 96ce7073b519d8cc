import EthWalletUi.Coding.ReedSolomon
import EthWalletUi.QrGen.Field

/-!
# The codewords of a block (`reedSolomonComputeRemainder` of `qrcodegen.js`)

In a field where bytes add and multiply as `qrcodegen.js` has it, the divisor and the remainder are
those of a Reed–Solomon code.

* `syndrome_iff`: the sums a scanner checks vanish for the blocks the code makes, and for no others.
* `codeword_distance`: the blocks of two data differ in more places than there are check codewords.
-/

namespace EthWalletUi.QrGen

open Coding

/-- Every word is a byte. -/
def IsBytes (ws : List Nat) : Prop := ∀ w ∈ ws, w < 256

/-- The sum a scanner checks: the block as a polynomial, at the `j`-th power of 2. -/
def syndrome (j : Nat) (ws : List Nat) : Nat :=
  ws.foldl (fun a w => reedSolomonMultiply a (double^[j] 1) ^^^ w) 0

/-! ## Words stay bytes -/

theorem IsBytes.append {as bs : List Nat} (ha : IsBytes as) (hb : IsBytes bs) :
    IsBytes (as ++ bs) :=
  List.forall_mem_append.mpr ⟨ha, hb⟩

theorem IsBytes.tail {as : List Nat} (ha : IsBytes as) : IsBytes as.tail :=
  fun w hw => ha w (List.mem_of_mem_tail hw)

theorem IsBytes.headD {as : List Nat} (ha : IsBytes as) : as.headD 0 < 256 := by
  cases as with
  | nil => decide
  | cons a as => exact ha a (List.mem_cons_self ..)

theorem isBytes_multiplyRoot (root : Nat) {cs : List Nat} (h : IsBytes cs) :
    IsBytes (multiplyRoot root cs) := by
  fun_induction multiplyRoot root cs with
  | case1 c d cs ih =>
    refine List.forall_mem_cons.mpr ⟨Nat.xor_lt_two_pow (n := 8) (reedSolomonMultiply_lt ..) ?_,
      ih h.tail⟩
    exact h d (List.mem_cons_of_mem _ (List.mem_cons_self ..))
  | case2 c => exact List.forall_mem_singleton.mpr (reedSolomonMultiply_lt ..)
  | case3 => exact h

theorem isBytes_remainderStep (divisor : List Nat) {result : List Nat} (b : Nat)
    (h : IsBytes result) : IsBytes (remainderStep divisor result b) := by
  intro w hw
  obtain ⟨r, d, hmem, rfl⟩ : ∃ r d, (r, d) ∈ (result.tail ++ [0]).zip divisor ∧
      r ^^^ reedSolomonMultiply d (b ^^^ result.headD 0) = w := by
    rw [remainderStep, ← List.map_uncurry_zip_eq_zipWith] at hw
    obtain ⟨p, hp, hpw⟩ := List.mem_map.mp hw
    exact ⟨p.1, p.2, hp, hpw⟩
  have hr : r < 256 := by
    have hzero : IsBytes [0] := List.forall_mem_singleton.mpr (by decide)
    exact (h.tail.append hzero) r (List.of_mem_zip hmem).1
  exact Nat.xor_lt_two_pow (n := 8) hr (reedSolomonMultiply_lt ..)

theorem isBytes_remainder (data divisor : List Nat) :
    IsBytes (reedSolomonComputeRemainder data divisor) := by
  have hfold : ∀ (data result : List Nat), IsBytes result →
      IsBytes (data.foldl (remainderStep divisor) result) := by
    intro data
    induction data with
    | nil => exact fun _ h => h
    | cons b data ih => exact fun _ h => ih _ (isBytes_remainderStep divisor b h)
  refine hfold data _ fun w hw => ?_
  obtain ⟨-, -, rfl⟩ := List.mem_map.mp hw
  decide

theorem isBytes_codeword (degree : Nat) {data : List Nat} (h : IsBytes data) :
    IsBytes (codeword degree data) := h.append (isBytes_remainder _ _)

/-! ## The code in a field -/

section
variable {F : Type*} [Field F] [CharP F 2] {α : F} (hα : ofBits α 9 0x11D = 0)
include hα

theorem map_multiplyRoot (root : Nat) {cs : List Nat} (h : IsBytes cs) :
    (multiplyRoot root cs).map (byte α) = timesRoot (byte α root) (cs.map (byte α)) := by
  fun_induction multiplyRoot root cs with
  | case1 c d cs ih =>
    have hc : c < 256 := h c (List.mem_cons_self ..)
    rw [List.map_cons, ih h.tail, byte_xor, byte_multiply hα hc]
    rfl
  | case2 c => rw [List.map_singleton, byte_multiply hα (h c (List.mem_cons_self ..))]; rfl
  | case3 => rfl

/-- The divisor is the generator of the code. -/
theorem map_divisor (degree : Nat) :
    IsBytes (reedSolomonComputeDivisor degree) ∧
      (reedSolomonComputeDivisor degree).map (byte α) = generator α degree := by
  have hiter : ∀ n, ∃ s : List Nat × Nat,
      (fun s : List Nat × Nat => (multiplyRoot s.2 s.1, reedSolomonMultiply s.2 0x02))^[n]
        (List.replicate (degree - 1) 0 ++ [1], 1) = s ∧ IsBytes s.1 ∧ s.2 < 256 ∧
      (s.1.map (byte α), byte α s.2) =
        (divisorStep α)^[n] (List.replicate (degree - 1) 0 ++ [1], 1) := by
    intro n
    induction n with
    | zero =>
      refine ⟨_, rfl, ?_, Nat.one_lt_two_pow (n := 8) (by decide), by simp⟩
      intro w hw
      rcases List.mem_append.mp hw with hw | hw
      · rw [List.eq_of_mem_replicate hw]
        decide
      · rw [List.mem_singleton.mp hw]
        decide
    | succ n ih =>
      obtain ⟨s, hs, hbytes, hroot, heq⟩ := ih
      refine ⟨_, by rw [Function.iterate_succ_apply', hs], isBytes_multiplyRoot _ hbytes,
        reedSolomonMultiply_lt .., ?_⟩
      rw [Function.iterate_succ_apply', ← heq, divisorStep, map_multiplyRoot hα _ hbytes,
        byte_multiply hα hroot, byte_two]
  obtain ⟨s, hs, hbytes, -, heq⟩ := hiter degree
  have hdiv : reedSolomonComputeDivisor degree = s.1 := by
    rw [reedSolomonComputeDivisor, List.foldl_const, List.length_range, hs]
  exact ⟨hdiv ▸ hbytes, by rw [hdiv, generator, ← heq]⟩

theorem map_remainderStep {divisor result : List Nat} {b : Nat} (hdiv : IsBytes divisor) :
    (remainderStep divisor result b).map (byte α) =
      divideStep (divisor.map (byte α)) (result.map (byte α)) (byte α b) := by
  have hhead : byte α (result.headD 0) = (result.map (byte α)).headD 0 := by
    cases result with
    | nil => exact byte_zero
    | cons r rs => rfl
  have htail : (result.tail ++ [0]).map (byte α) = (result.map (byte α)).tail ++ [0] := by
    rw [List.map_append, List.map_tail, List.map_singleton, byte_zero]
  rw [remainderStep, divideStep, List.map_zipWith, ← htail, ← hhead, List.zipWith_map]
  rw [← List.map_uncurry_zip_eq_zipWith, ← List.map_uncurry_zip_eq_zipWith]
  refine List.map_congr_left fun p hp => ?_
  have hd : p.2 < 256 := hdiv p.2 (List.of_mem_zip hp).2
  rw [Function.uncurry, Function.uncurry, byte_xor, byte_multiply hα hd, byte_xor]

theorem map_remainder {data divisor : List Nat} (hdiv : IsBytes divisor) :
    (reedSolomonComputeRemainder data divisor).map (byte α) =
      remainder (data.map (byte α)) (divisor.map (byte α)) := by
  have hfold : ∀ data result : List Nat, (data.foldl (remainderStep divisor) result).map (byte α) =
      (data.map (byte α)).foldl (divideStep (divisor.map (byte α))) (result.map (byte α)) := by
    intro data
    induction data with
    | nil => exact fun _ => rfl
    | cons b data ih =>
      intro result
      rw [List.foldl_cons, ih, map_remainderStep hα hdiv]
      rfl
  rw [reedSolomonComputeRemainder, hfold, remainder]
  simp [List.map_map, Function.comp_def]

theorem byte_syndrome (j : Nat) {ws : List Nat} (h : IsBytes ws) :
    byte α (syndrome j ws) = horner (α ^ j) (ws.map (byte α)) := by
  have hfold : ∀ (ws : List Nat), IsBytes ws → ∀ a < 256,
      byte α (ws.foldl (fun a w => reedSolomonMultiply a (double^[j] 1) ^^^ w) a) =
        (ws.map (byte α)).foldl (fun a c => a * α ^ j + c) (byte α a) := by
    intro ws
    induction ws with
    | nil => exact fun _ _ _ => rfl
    | cons w ws ih =>
      intro h a ha
      have hlt : reedSolomonMultiply a (double^[j] 1) ^^^ w < 256 :=
        Nat.xor_lt_two_pow (n := 8) (reedSolomonMultiply_lt ..) (h w (List.mem_cons_self ..))
      rw [List.foldl_cons, ih h.tail _ hlt, byte_xor, byte_multiply hα ha, byte_double_iterate hα]
      rfl
  rw [syndrome, hfold ws h 0 (by decide), byte_zero, horner]

/-- A block vanishes at the first powers of the root. -/
theorem horner_map_codeword {degree j : Nat} (hj : j < degree) (data : List Nat) :
    horner (α ^ j) ((codeword degree data).map (byte α)) = 0 := by
  obtain ⟨hdiv, hgen⟩ := map_divisor hα degree
  obtain ⟨hlen, hroot⟩ := generator_root α hj
  rw [codeword, List.map_append, map_remainder hα hdiv, hgen]
  refine horner_codeword ?_ ?_ _
  · rw [hlen]
    exact hroot
  · rw [hlen]
    exact Nat.zero_lt_of_lt hj

end

/-! ## The distance -/

theorem syndrome_lt (j : Nat) {ws : List Nat} (h : IsBytes ws) : syndrome j ws < 256 := by
  have hfold : ∀ (ws : List Nat), IsBytes ws → ∀ a < 256,
      ws.foldl (fun a w => reedSolomonMultiply a (double^[j] 1) ^^^ w) a < 256 := by
    intro ws
    induction ws with
    | nil => exact fun _ _ ha => ha
    | cons w ws ih =>
      intro h a _
      exact ih h.tail _ (Nat.xor_lt_two_pow (n := 8) (reedSolomonMultiply_lt ..)
        (h w (List.mem_cons_self ..)))
  exact hfold ws h 0 (by decide)

theorem syndrome_codeword {degree j : Nat} (hj : j < degree) {data : List Nat} (h : IsBytes data) :
    syndrome j (codeword degree data) = 0 := by
  obtain ⟨α, hα⟩ := exists_root
  have hbytes := isBytes_codeword degree h
  rw [← byte_eq_zero hα (syndrome_lt j hbytes), byte_syndrome hα j hbytes]
  exact horner_map_codeword hα hj data

/-- Two words with the same sums that differ in no more places than there are sums are the same. -/
theorem eq_of_syndromes {d : Nat} {ws ws' : List Nat} (hlen : ws.length = ws'.length)
    (h255 : ws.length ≤ 255) (hws : IsBytes ws) (hws' : IsBytes ws')
    (hsyn : ∀ j < d, syndrome j ws = syndrome j ws') (hdiff : differ ws ws' ≤ d) :
    ws = ws' := by
  classical
  obtain ⟨α, hα⟩ := exists_root
  let sum := List.zipWith (fun a b => a + b * 1) (ws.map (byte α)) (ws'.map (byte α))
  have hmaps : (ws.map (byte α)).length = (ws'.map (byte α)).length := by
    rw [List.length_map, List.length_map, hlen]
  have hsum : sum.length = ws.length := by
    rw [List.length_zipWith, ← hmaps, Nat.min_self, List.length_map]
  have hvan : ∀ j < d, horner (α ^ j) sum = 0 := by
    intro j hj
    rw [horner_zipWith _ _ hmaps, ← byte_syndrome hα j hws, ← byte_syndrome hα j hws', hsyn j hj,
      mul_one]
    exact CharTwo.add_self_eq_zero _
  have hplace : ∀ p ∈ ws.zip ws', byte α p.1 + byte α p.2 * 1 = 0 ↔ p.1 = p.2 := by
    intro p hp
    obtain ⟨h₁, h₂⟩ := List.of_mem_zip hp
    rw [mul_one, ← CharTwo.sub_eq_add, sub_eq_zero, byte_inj hα (hws _ h₁) (hws' _ h₂)]
  have hzip : sum = (ws.zip ws').map fun p => byte α p.1 + byte α p.2 * 1 := by
    simp only [sum, ← List.map_uncurry_zip_eq_zipWith, List.zip_map, List.map_map]
    rfl
  have hcount : sum.countP (fun c => c ≠ 0) ≤ d := by
    refine le_trans (le_of_eq ?_) hdiff
    rw [hzip, List.countP_map, differ]
    refine List.countP_congr fun p hp => ?_
    rw [Function.comp_apply, decide_eq_true_eq, decide_eq_true_eq, Ne, hplace p hp]
  have hpow : ∀ i < sum.length, ∀ j < sum.length, α ^ i = α ^ j → i = j :=
    fun i hi j hj hij => root_pow_inj hα (by omega) (by omega) hij
  have hzero := eq_zero_of_weight_le hpow hvan hcount
  rw [hzip] at hzero
  refine List.ext_getElem hlen fun i hi hi' => ?_
  have hmem : (ws[i], ws'[i]) ∈ ws.zip ws' := List.mem_iff_getElem.mpr
    ⟨i, by rw [List.length_zip, ← hlen, Nat.min_self]; exact hi, List.getElem_zip ..⟩
  exact (hplace _ hmem).mp (hzero _ (List.mem_map_of_mem hmem))

/-- The sums vanish for the blocks that the code makes, and for no others. -/
theorem syndrome_iff {degree : Nat} {ws : List Nat} (hpos : 0 < degree) (hle : degree ≤ ws.length)
    (h255 : ws.length ≤ 255) (hws : IsBytes ws) :
    (∀ j < degree, syndrome j ws = 0) ↔ ws = codeword degree (ws.take (ws.length - degree)) := by
  have htake : IsBytes (ws.take (ws.length - degree)) := fun w hw => hws w (List.mem_of_mem_take hw)
  refine ⟨fun hsyn => ?_, fun heq j hj => heq ▸ syndrome_codeword hj htake⟩
  refine eq_of_syndromes (d := degree) ?_ h255 hws (isBytes_codeword degree htake)
    (fun j hj => ?_) ?_
  · rw [codeword_length hpos, List.length_take]
    omega
  · rw [hsyn j hj, syndrome_codeword hj htake]
  · have hsplit := differ_append_left (ws.take (ws.length - degree)) (ws.drop (ws.length - degree))
      (reedSolomonComputeRemainder (ws.take (ws.length - degree))
        (reedSolomonComputeDivisor degree))
    rw [List.take_append_drop] at hsplit
    rw [codeword, hsplit, differ_comm]
    refine (differ_le ..).trans ?_
    rw [List.length_drop]
    omega

theorem syndrome_iff_zero : (∀ j < 10, syndrome j (List.replicate 12 0) = 0) ↔
    List.replicate 12 0 = codeword 10 ((List.replicate 12 0).take 2) :=
  syndrome_iff (by decide) (by decide) (by decide) fun w hw => by
    rw [List.eq_of_mem_replicate hw]
    decide

/-- The blocks of two data differ in more places than there are check codewords, so no word is
within half as many places of both. -/
theorem codeword_distance {degree : Nat} {data data' : List Nat} (hpos : 0 < degree)
    (hlen : data.length = data'.length) (h255 : data.length + degree ≤ 255) (hdata : IsBytes data)
    (hdata' : IsBytes data') (hne : data ≠ data') :
    degree < differ (codeword degree data) (codeword degree data') ∧
      ∀ ws : List Nat, ws.length = data.length + degree →
        2 * differ (codeword degree data) ws ≤ degree →
        degree < 2 * differ (codeword degree data') ws := by
  have hfar : degree < differ (codeword degree data) (codeword degree data') := by
    by_contra hle
    have heq := eq_of_syndromes (d := degree)
      (by rw [codeword_length hpos, codeword_length hpos, hlen])
      (by rw [codeword_length hpos]; exact h255) (isBytes_codeword degree hdata)
      (isBytes_codeword degree hdata')
      (fun j hj => by rw [syndrome_codeword hj hdata, syndrome_codeword hj hdata']) (not_lt.mp hle)
    exact hne (List.append_inj heq hlen).1
  refine ⟨hfar, fun ws hws hnear => ?_⟩
  have hlength : (codeword degree data).length = ws.length := by
    rw [codeword_length hpos, hws]
  have htriangle : differ (codeword degree data) (codeword degree data') ≤
      differ (codeword degree data) ws + differ ws (codeword degree data') :=
    differ_triangle hlength
  rw [differ_comm ws] at htriangle
  omega

theorem codeword_distance_bytes : 10 < differ (codeword 10 [0x41]) (codeword 10 [0x42]) ∧
    ∀ ws : List Nat, ws.length = 11 → 2 * differ (codeword 10 [0x41]) ws ≤ 10 →
      10 < 2 * differ (codeword 10 [0x42]) ws :=
  codeword_distance (by decide) rfl (by decide) (List.forall_mem_singleton.mpr (by decide))
    (List.forall_mem_singleton.mpr (by decide)) (by decide)

end EthWalletUi.QrGen
