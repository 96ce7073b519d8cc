import Mathlib

/-!
# Words of bits, the highest bit first

`bitsOf len val` are the `len` low bits of a number and `value` reads them back; a stream of bits is
read from its front, a word at a time (`readWord`, `readWords`).
-/

namespace Coding

/-- The `len` low bits of `val`, the highest first. -/
def bitsOf (len val : Nat) : List Nat := (List.range len).reverse.map fun i => (val >>> i) &&& 1

/-- The number that bits stand for, the highest first. -/
def value (bits : List Nat) : Nat := bits.foldl (fun n b => 2 * n + b) 0

/-- Every bit is 0 or 1. -/
def IsBits (bits : List Nat) : Prop := ∀ b ∈ bits, b < 2

theorem bitsOf_succ (len val : Nat) :
    bitsOf (len + 1) val = ((val >>> len) &&& 1) :: bitsOf len val := by
  simp [bitsOf, List.range_succ]

@[simp] theorem bitsOf_length (len val : Nat) : (bitsOf len val).length = len := by simp [bitsOf]

theorem bit_eq (val i : Nat) : (val >>> i) &&& 1 = val / 2 ^ i % 2 := by
  rw [Nat.and_one_is_mod, Nat.shiftRight_eq_div_pow]

theorem isBits_bitsOf (len val : Nat) : IsBits (bitsOf len val) := by
  intro b hb
  obtain ⟨i, -, rfl⟩ := List.mem_map.mp hb
  rw [bit_eq]
  exact Nat.mod_lt _ (by decide)

theorem IsBits.append {as bs : List Nat} (ha : IsBits as) (hb : IsBits bs) : IsBits (as ++ bs) :=
  List.forall_mem_append.mpr ⟨ha, hb⟩

theorem value_append (as bs : List Nat) :
    value (as ++ bs) = value as * 2 ^ bs.length + value bs := by
  have hfrom : ∀ (bs : List Nat) (n : Nat),
      bs.foldl (fun n b => 2 * n + b) n = n * 2 ^ bs.length + value bs := by
    intro bs
    induction bs with
    | nil => simp [value]
    | cons b bs ih =>
      intro n
      have hb : value (b :: bs) = b * 2 ^ bs.length + value bs := by
        rw [value, List.foldl_cons, ih]
        simp
      rw [List.foldl_cons, ih, hb, List.length_cons, Nat.pow_succ]
      ring
  rw [value, List.foldl_append, hfrom]
  rfl

theorem value_cons (b : Nat) (bs : List Nat) : value (b :: bs) = b * 2 ^ bs.length + value bs := by
  have h := value_append [b] bs
  simpa [value] using h

/-- What is written of a number is read back. -/
theorem value_bitsOf (len val : Nat) : value (bitsOf len val) = val % 2 ^ len := by
  induction len with
  | zero => simp [bitsOf, value, Nat.mod_one]
  | succ len ih =>
    rw [bitsOf_succ, value_cons, ih, bitsOf_length, bit_eq, Nat.mod_pow_succ]
    ring

theorem value_lt {bits : List Nat} (h : IsBits bits) : value bits < 2 ^ bits.length := by
  induction bits with
  | nil => decide
  | cons b bs ih =>
    have hb : b < 2 := h b (List.mem_cons_self ..)
    have hbs := ih fun c hc => h c (List.mem_cons_of_mem _ hc)
    rw [value_cons, List.length_cons, Nat.pow_succ]
    nlinarith

/-- Bits are those of their number. -/
theorem bitsOf_value {bits : List Nat} (h : IsBits bits) : bitsOf bits.length (value bits) = bits := by
  induction bits with
  | nil => rfl
  | cons b bs ih =>
    have hb : b < 2 := h b (List.mem_cons_self ..)
    have hbs : IsBits bs := fun c hc => h c (List.mem_cons_of_mem _ hc)
    have hlow : ∀ {a n : Nat}, bitsOf bs.length (a * 2 ^ bs.length + n) = bitsOf bs.length n := by
      intro a n
      refine List.map_congr_left fun i hi => ?_
      have hi : i < bs.length := by simpa using hi
      rw [bit_eq, bit_eq]
      obtain ⟨k, hk⟩ := Nat.exists_eq_add_of_lt hi
      have hpow : 2 ^ bs.length = 2 * 2 ^ k * 2 ^ i := by
        rw [hk, show i + k + 1 = 1 + k + i by omega, Nat.pow_add, Nat.pow_add]
      rw [hpow, ← Nat.mul_assoc, Nat.add_comm, Nat.add_mul_div_right _ _ (Nat.two_pow_pos i)]
      have hmul : a * (2 * 2 ^ k) = 2 * (a * 2 ^ k) := by ring
      rw [hmul]
      omega
    rw [value_cons, List.length_cons, bitsOf_succ, hlow, ih hbs, bit_eq]
    congr 1
    rw [Nat.add_comm, Nat.add_mul_div_right _ _ (Nat.two_pow_pos _),
      Nat.div_eq_of_lt (value_lt hbs), Nat.zero_add, Nat.mod_eq_of_lt hb]

/-! ## Streams -/

/-- A number of `len` bits from the front of a stream. -/
def readWord (len : Nat) (bits : List Nat) : Option (Nat × List Nat) :=
  if bits.length < len then none else some (value (bits.take len), bits.drop len)

/-- `n` numbers of `len` bits each. -/
def readWords (len : Nat) : Nat → List Nat → Option (List Nat)
  | 0, _ => some []
  | n + 1, bits => do
    let (w, bits) ← readWord len bits
    let ws ← readWords len n bits
    return w :: ws

theorem readWord_bitsOf {len val : Nat} (h : val < 2 ^ len) (rest : List Nat) :
    readWord len (bitsOf len val ++ rest) = some (val, rest) := by
  have hlen : (bitsOf len val).length = len := bitsOf_length len val
  rw [readWord, if_neg (by simp), List.take_left' hlen, List.drop_left' hlen, value_bitsOf,
    Nat.mod_eq_of_lt h]

/-- Words written one after the other are read back, whatever follows them. -/
theorem readWords_bitsOf {len : Nat} {ws : List Nat} (h : ∀ w ∈ ws, w < 2 ^ len) (rest : List Nat) :
    readWords len ws.length (ws.flatMap (bitsOf len) ++ rest) = some ws := by
  induction ws with
  | nil => rfl
  | cons w ws ih =>
    rw [List.flatMap_cons, List.append_assoc, List.length_cons, readWords,
      readWord_bitsOf (h w (List.mem_cons_self ..))]
    simp only [Option.pure_def, Option.bind_eq_bind, Option.bind_some]
    rw [ih fun v hv => h v (List.mem_cons_of_mem _ hv)]
    rfl

/-- A stream whose length is a multiple of the word's is a sequence of words. -/
theorem exists_words {len n : Nat} {bits : List Nat} (h : IsBits bits) (hn : bits.length = n * len) :
    ∃ ws : List Nat, ws.length = n ∧ (∀ w ∈ ws, w < 2 ^ len) ∧ bits = ws.flatMap (bitsOf len) := by
  induction n generalizing bits with
  | zero => exact ⟨[], rfl, by simp, by simpa using hn⟩
  | succ n ih =>
    have hlen : (bits.take len).length = len := by
      rw [List.length_take, hn, Nat.succ_mul]
      omega
    have htake : IsBits (bits.take len) := fun b hb => h b (List.mem_of_mem_take hb)
    have hdrop : IsBits (bits.drop len) := fun b hb => h b (List.mem_of_mem_drop hb)
    obtain ⟨ws, hws, hlt, heq⟩ := ih hdrop (by rw [List.length_drop, hn, Nat.succ_mul]; omega)
    have hval := value_lt htake
    have hfirst := bitsOf_value htake
    rw [hlen] at hval hfirst
    refine ⟨value (bits.take len) :: ws, by rw [List.length_cons, hws], ?_, ?_⟩
    · intro w hw
      rcases List.mem_cons.mp hw with rfl | hw
      · exact hval
      · exact hlt w hw
    · rw [List.flatMap_cons, hfirst, ← heq, List.take_append_drop]

end Coding
