import EthWalletUi.Coding.Word
import EthWalletUi.QrGen.Text

/-!
# The data codewords of a symbol (`encodeBytes` of `qrcodegen.js`)

The smallest version that holds the bytes is chosen, and they are written as one segment: the mode,
the count, the bytes, then padding up to the capacity of the version.

* `chooseVersion`, `dataCodewords`: what `encodeBytes` hands to `makeQr`.
* `readSegment_dataCodewords`: the segment is read back from the codewords.
-/

namespace EthWalletUi.QrGen

open Coding

/-- `ECL_MEDIUM`. -/
def eclMedium : Nat := 1

/-- `ECC_CODEWORDS_PER_BLOCK`: a row for each level, a column for each version. The -1 at index 0,
which no version reads, is 0 here. -/
def eccCodewordsPerBlock : List (List Nat) := [
  [0, 7, 10, 15, 20, 26, 18, 20, 24, 30, 18, 20, 24, 26, 30, 22, 24, 28, 30, 28, 28, 28, 28, 30, 30,
    26, 28, 30, 30, 30, 30, 30, 30, 30, 30, 30, 30, 30, 30, 30, 30],
  [0, 10, 16, 26, 18, 24, 16, 18, 22, 22, 26, 30, 22, 22, 24, 24, 28, 28, 26, 26, 26, 26, 28, 28, 28,
    28, 28, 28, 28, 28, 28, 28, 28, 28, 28, 28, 28, 28, 28, 28, 28],
  [0, 13, 22, 18, 26, 18, 24, 18, 22, 20, 24, 28, 26, 24, 20, 30, 24, 28, 28, 26, 30, 28, 30, 30, 30,
    30, 28, 30, 30, 30, 30, 30, 30, 30, 30, 30, 30, 30, 30, 30, 30],
  [0, 17, 28, 22, 16, 22, 28, 26, 26, 24, 28, 24, 28, 22, 24, 24, 30, 28, 28, 26, 28, 30, 24, 30, 30,
    30, 30, 30, 30, 30, 30, 30, 30, 30, 30, 30, 30, 30, 30, 30, 30]]

/-- `NUM_ERROR_CORRECTION_BLOCKS`. -/
def numErrorCorrectionBlocks : List (List Nat) := [
  [0, 1, 1, 1, 1, 1, 2, 2, 2, 2, 4, 4, 4, 4, 4, 6, 6, 6, 6, 7, 8, 8, 9, 9, 10, 12, 12, 12, 13, 14, 15,
    16, 17, 18, 19, 19, 20, 21, 22, 24, 25],
  [0, 1, 1, 1, 2, 2, 4, 4, 4, 5, 5, 5, 8, 9, 9, 10, 10, 11, 13, 14, 16, 17, 17, 18, 20, 21, 23, 25, 26,
    28, 29, 31, 33, 35, 37, 38, 40, 43, 45, 47, 49],
  [0, 1, 1, 2, 2, 4, 4, 6, 6, 8, 8, 8, 10, 12, 16, 12, 17, 16, 18, 21, 20, 23, 23, 25, 27, 29, 34, 34,
    35, 38, 40, 43, 45, 48, 51, 53, 56, 59, 62, 65, 68],
  [0, 1, 1, 2, 4, 4, 4, 5, 5, 8, 9, 9, 11, 13, 15, 19, 23, 17, 19, 34, 34, 28, 31, 39, 46, 49, 48, 57,
    60, 63, 72, 80, 89, 98, 109, 121, 133, 142, 150, 161, 180]]

def eccLength (ver ecl : Nat) : Nat := (eccCodewordsPerBlock.getD ecl []).getD ver 0

def numBlocks (ver ecl : Nat) : Nat := (numErrorCorrectionBlocks.getD ecl []).getD ver 0

def getBit (x i : Nat) : Bool := (x >>> i) &&& 1 != 0

def appendBits (val len : Nat) (bb : List Nat) : List Nat := bb ++ bitsOf len val

def getNumRawDataModules (ver : Nat) : Nat :=
  let result := (16 * ver + 128) * ver + 64
  if ver ≥ 2 then
    let numAlign := ver / 7 + 2
    let result := result - ((25 * numAlign - 10) * numAlign - 55)
    if ver ≥ 7 then result - 36 else result
  else result

def getNumDataCodewords (ver ecl : Nat) : Nat :=
  getNumRawDataModules ver / 8 - eccLength ver ecl * numBlocks ver ecl

def numCharCountBits (ver : Nat) : Nat := if ver ≤ 9 then 8 else 16

/-- `4 + numCharCountBits(version) + data.length * 8 <= capacityBits`. -/
def fits (length ver ecl : Nat) : Bool :=
  4 + numCharCountBits ver + length * 8 ≤ getNumDataCodewords ver ecl * 8

/-- The search for a version: `none` is the `RangeError`. -/
def chooseVersion (length ecl : Nat) : Option Nat :=
  (List.range' 1 40).find? fun ver => fits length ver ecl

/-- The mode, the count and the bytes. -/
def segment (data : List Nat) (ver : Nat) : List Nat :=
  let bb := appendBits 0x4 4 []
  let bb := appendBits data.length (numCharCountBits ver) bb
  data.foldl (fun bb b => appendBits b 8 bb) bb

/-- The loop that fills the buffer with the two pad bytes in turn. -/
def padBytes (capacityBits pad : Nat) (bb : List Nat) : List Nat :=
  if bb.length < capacityBits then
    padBytes capacityBits (pad ^^^ (0xEC ^^^ 0x11)) (appendBits pad 8 bb)
  else bb
termination_by capacityBits - bb.length
decreasing_by
  rw [appendBits, List.length_append, bitsOf_length]
  omega

/-- The terminator, the bits up to a whole byte, and the pad bytes. -/
def padBits (capacityBits : Nat) (bb : List Nat) : List Nat :=
  let bb := appendBits 0 (min 4 (capacityBits - bb.length)) bb
  let bb := appendBits 0 ((8 - bb.length % 8) % 8) bb
  padBytes capacityBits 0xEC bb

/-- The bits, eight to a codeword. -/
def packBits (bb : List Nat) : List Nat :=
  (List.range bb.length).foldl
    (fun codewords i => codewords.modify (i >>> 3) fun w => w ||| bb.getD i 0 <<< (7 - (i &&& 7)))
    (List.replicate ((bb.length + 7) / 8) 0)

def dataCodewords (data : List Nat) (ver ecl : Nat) : List Nat :=
  packBits (padBits (getNumDataCodewords ver ecl * 8) (segment data ver))

/-! ## The bits of codewords -/

/-- One step of `packBits`: bit `i` of the buffer goes into its codeword. -/
def packBit (bb codewords : List Nat) (i : Nat) : List Nat :=
  codewords.modify (i >>> 3) fun w => w ||| bb.getD i 0 <<< (7 - (i &&& 7))

theorem foldl_modify {α β : Type} (g : β → α → α) (k : Nat) (js : List β) (cs : List α) :
    js.foldl (fun cs j => cs.modify k (g j)) cs = cs.modify k fun w => js.foldl (fun w j => g j w) w := by
  induction js generalizing cs with
  | nil => exact (List.modify_id k cs).symm
  | cons j js ih =>
    rw [List.foldl_cons, ih, List.modify_modify_eq]
    rfl

theorem modify_length_append {α : Type} (f : α → α) (ws : List α) (a : α) (cs : List α) :
    (ws ++ a :: cs).modify ws.length f = ws ++ f a :: cs := by
  induction ws with
  | nil => rfl
  | cons w ws ih => rw [List.cons_append, List.length_cons, List.modify_succ_cons, ih, List.cons_append]

theorem byte_bits : ∀ w < 256,
    (List.range 8).foldl (fun v j => v ||| (bitsOf 8 w).getD j 0 <<< (7 - j)) 0 = w := by
  decide +kernel

/-- The bits of whole words fill the codewords in front. -/
theorem packBit_words {ws : List Nat} (h : ∀ w ∈ ws, w < 256) (rest cs : List Nat) :
    (List.range (8 * ws.length)).foldl (packBit (ws.flatMap (bitsOf 8) ++ rest))
      (List.replicate ws.length 0 ++ cs) = ws ++ cs := by
  induction ws using List.reverseRecOn generalizing rest cs with
  | nil => rfl
  | append_singleton ws w ih =>
    have hlen : (ws.flatMap (bitsOf 8)).length = 8 * ws.length := by
      simp [List.length_flatMap, Nat.mul_comm]
    have hws := ih (fun v hv => h v (List.mem_append_left _ hv)) (bitsOf 8 w ++ rest) (0 :: cs)
    have hstep : ∀ (cs : List Nat), ∀ j ∈ List.range 8,
        packBit (ws.flatMap (bitsOf 8) ++ (bitsOf 8 w ++ rest)) cs (8 * ws.length + j) =
          cs.modify ws.length fun v => v ||| (bitsOf 8 w).getD j 0 <<< (7 - j) := by
      intro cs j hj
      have hj : j < 8 := List.mem_range.mp hj
      have hdiv : (8 * ws.length + j) >>> 3 = ws.length := by
        rw [Nat.shiftRight_eq_div_pow]
        omega
      have hmod : (8 * ws.length + j) &&& 7 = j := by
        rw [show (7 : Nat) = 2 ^ 3 - 1 from rfl, Nat.and_two_pow_sub_one_eq_mod]
        omega
      have hget : (ws.flatMap (bitsOf 8) ++ (bitsOf 8 w ++ rest)).getD (8 * ws.length + j) 0 =
          (bitsOf 8 w).getD j 0 := by
        rw [List.getD_append_right _ _ _ _ (by omega), hlen, Nat.add_sub_cancel_left,
          List.getD_append _ _ _ _ (by rw [bitsOf_length]; exact hj)]
      rw [packBit, hdiv, hmod, hget]
    rw [List.flatMap_append, List.flatMap_singleton, List.append_assoc, List.length_append,
      List.length_singleton, Nat.mul_add, List.range_add, List.foldl_append, List.replicate_succ',
      List.append_assoc, List.singleton_append, hws, List.foldl_map,
      List.foldl_ext _ _ _ hstep, foldl_modify, modify_length_append,
      byte_bits w (h w (List.mem_append_right _ (List.mem_singleton_self w))), List.append_assoc,
      List.singleton_append]

/-- A buffer is packed into the words it is the bits of. -/
theorem packBits_words {ws : List Nat} (h : ∀ w ∈ ws, w < 256) :
    packBits (ws.flatMap (bitsOf 8)) = ws := by
  have hlen : (ws.flatMap (bitsOf 8)).length = 8 * ws.length := by
    simp [List.length_flatMap, Nat.mul_comm]
  have hcount : (8 * ws.length + 7) / 8 = ws.length := by omega
  have := packBit_words h [] []
  rw [List.append_nil, List.append_nil, List.append_nil] at this
  rw [packBits, hlen, hcount]
  exact this

/-! ## What the buffer holds -/

/-- The pad bytes fill a whole number of bytes up to the capacity. -/
theorem padBytes_eq {capacityBits n : Nat} (pad : Nat) {bb : List Nat}
    (h : bb.length + 8 * n = capacityBits) :
    ∃ tail, IsBits tail ∧ tail.length = 8 * n ∧ padBytes capacityBits pad bb = bb ++ tail := by
  induction n generalizing pad bb with
  | zero =>
    refine ⟨[], by simp [IsBits], rfl, ?_⟩
    rw [padBytes, if_neg (by omega), List.append_nil]
  | succ n ih =>
    have hlen : (appendBits pad 8 bb).length + 8 * n = capacityBits := by
      rw [appendBits, List.length_append, bitsOf_length]
      omega
    obtain ⟨tail, hbits, htail, heq⟩ := ih (pad ^^^ (0xEC ^^^ 0x11)) hlen
    refine ⟨bitsOf 8 pad ++ tail, (isBits_bitsOf 8 pad).append hbits, ?_, ?_⟩
    · rw [List.length_append, bitsOf_length, htail]
      omega
    · rw [padBytes, if_pos (by omega), heq, appendBits, List.append_assoc]

/-- The buffer is filled up to the capacity, after what it holds. -/
theorem padBits_eq {capacityBits : Nat} {bb : List Nat} (h8 : 8 ∣ capacityBits)
    (h : bb.length ≤ capacityBits) :
    ∃ tail, IsBits tail ∧ (bb ++ tail).length = capacityBits ∧ padBits capacityBits bb = bb ++ tail := by
  obtain ⟨c, rfl⟩ := h8
  let ends := min 4 (8 * c - bb.length)
  let fill := (8 - (bb.length + ends) % 8) % 8
  have hfill : bb.length + ends + fill ≤ 8 * c ∧ (bb.length + ends + fill) % 8 = 0 := by
    simp only [ends, fill]
    omega
  have hrest : (bb ++ bitsOf ends 0 ++ bitsOf fill 0).length +
      8 * ((8 * c - (bb.length + ends + fill)) / 8) = 8 * c := by
    simp only [List.length_append, bitsOf_length]
    omega
  obtain ⟨tail, hbits, htail, heq⟩ := padBytes_eq 0xEC hrest
  refine ⟨bitsOf ends 0 ++ bitsOf fill 0 ++ tail,
    ((isBits_bitsOf _ _).append (isBits_bitsOf _ _)).append hbits, ?_, ?_⟩
  · simp only [List.length_append, bitsOf_length] at hrest ⊢
    omega
  · have hpad : padBits (8 * c) bb = padBytes (8 * c) 0xEC (bb ++ bitsOf ends 0 ++ bitsOf fill 0) := by
      simp only [padBits, appendBits, List.length_append, bitsOf_length, ends, fill]
    rw [hpad, heq, List.append_assoc, List.append_assoc, List.append_assoc]

theorem segment_eq (data : List Nat) (ver : Nat) : segment data ver =
    bitsOf 4 4 ++ (bitsOf (numCharCountBits ver) data.length ++ data.flatMap (bitsOf 8)) := by
  have hfold : ∀ (data bb : List Nat),
      data.foldl (fun bb b => appendBits b 8 bb) bb = bb ++ data.flatMap (bitsOf 8) := by
    intro data
    induction data with
    | nil => simp
    | cons b data ih =>
      intro bb
      rw [List.foldl_cons, ih, appendBits, List.flatMap_cons, List.append_assoc]
  rw [segment, hfold]
  simp only [appendBits, List.nil_append, List.append_assoc]

theorem length_segment (data : List Nat) (ver : Nat) :
    (segment data ver).length = 4 + numCharCountBits ver + data.length * 8 := by
  simp [segment_eq, List.length_flatMap, Nat.add_assoc]

/-! ## Reading it back -/

/-- A reader of the codewords: the byte mode, the count, that many bytes. -/
def readSegment (ver : Nat) (codewords : List Nat) : Option (List Nat) := do
  let (mode, bits) ← readWord 4 (codewords.flatMap (bitsOf 8))
  if mode = 0x4 then
    let (count, bits) ← readWord (numCharCountBits ver) bits
    readWords 8 count bits
  else none

variable {data : List Nat} {ver ecl : Nat}

/-- Where the bytes fit, their number is written in full. -/
theorem count_lt (hver : 1 ≤ ver) (hver' : ver ≤ 40) (hecl : ecl < 3)
    (h : fits data.length ver ecl = true) : data.length < 2 ^ numCharCountBits ver := by
  have hcap : ∀ v < 41, ∀ e < 3, 1 ≤ v →
      getNumDataCodewords v e < 2 ^ numCharCountBits v := by decide +kernel
  have hv := hcap ver (by omega) ecl hecl hver
  rw [fits, decide_eq_true_eq] at h
  omega

theorem dataCodewords_words (h : fits data.length ver ecl = true) :
    ∃ tail, (dataCodewords data ver ecl).length = getNumDataCodewords ver ecl ∧
      (∀ w ∈ dataCodewords data ver ecl, w < 256) ∧
      (dataCodewords data ver ecl).flatMap (bitsOf 8) = segment data ver ++ tail := by
  rw [fits, decide_eq_true_eq, ← length_segment] at h
  obtain ⟨tail, hbits, hlen, heq⟩ := padBits_eq (Nat.dvd_mul_left 8 _) h
  have hseg : IsBits (segment data ver) := by
    rw [segment_eq]
    refine (isBits_bitsOf _ _).append ((isBits_bitsOf _ _).append ?_)
    intro b hb
    obtain ⟨w, -, hw⟩ := List.mem_flatMap.mp hb
    exact isBits_bitsOf 8 w b hw
  obtain ⟨ws, hws, hlt, hbuf⟩ := exists_words (hseg.append hbits) hlen
  have hpack : dataCodewords data ver ecl = ws := by
    rw [dataCodewords, heq, hbuf, packBits_words hlt]
  rw [hpack]
  exact ⟨tail, hws, hlt, hbuf.symm⟩

/-- The bytes are read back from the codewords. -/
theorem readSegment_dataCodewords (hver : 1 ≤ ver) (hver' : ver ≤ 40) (hecl : ecl < 3)
    (hdata : ∀ b ∈ data, b < 256) (h : fits data.length ver ecl = true) :
    readSegment ver (dataCodewords data ver ecl) = some data := by
  obtain ⟨tail, -, -, heq⟩ := dataCodewords_words h
  rw [readSegment, heq, segment_eq, List.append_assoc, List.append_assoc,
    readWord_bitsOf (by decide : 4 < 2 ^ 4)]
  simp only [Option.bind_eq_bind, Option.bind_some, if_true]
  rw [readWord_bitsOf (count_lt hver hver' hecl h)]
  simp only [Option.bind_some]
  exact readWords_bitsOf hdata tail

end EthWalletUi.QrGen
