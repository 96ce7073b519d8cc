import EthWalletUi.Coding.Interleave
import EthWalletUi.QrGen.Segment

/-!
# Error correction and interleaving (`addEccAndInterleave` of `qrcodegen.js`)

The data codewords are split into blocks, each gets its check codewords, and the codewords of all
blocks are sent in turn.

* `weave`: the shape of the blocks of a version and a level.
* `readBlock_addEccAndInterleave`: every block is read back from the stream.
-/

namespace EthWalletUi.QrGen

open Coding

/-! ## The check codewords -/

def reedSolomonMultiply (x y : Nat) : Nat :=
  let z := [7, 6, 5, 4, 3, 2, 1, 0].foldl (fun z i =>
    let z := (z <<< 1) ^^^ ((z >>> 7) * 0x11D)
    z ^^^ (((y >>> i) &&& 1) * x)) 0
  z &&& 0xFF

/-- The inner loop of `reedSolomonComputeDivisor`: each coefficient, times the root, plus the next. -/
def multiplyRoot (root : Nat) : List Nat → List Nat
  | c :: d :: cs => (reedSolomonMultiply c root ^^^ d) :: multiplyRoot root (d :: cs)
  | [c] => [reedSolomonMultiply c root]
  | [] => []

def reedSolomonComputeDivisor (degree : Nat) : List Nat :=
  ((List.range degree).foldl
    (fun s _ => (multiplyRoot s.2 s.1, reedSolomonMultiply s.2 0x02))
    (List.replicate (degree - 1) 0 ++ [1], 1)).1

/-- One datum goes into the remainder. -/
def remainderStep (divisor result : List Nat) (b : Nat) : List Nat :=
  let factor := b ^^^ result.headD 0
  List.zipWith (fun r d => r ^^^ reedSolomonMultiply d factor) (result.tail ++ [0]) divisor

def reedSolomonComputeRemainder (data divisor : List Nat) : List Nat :=
  data.foldl (remainderStep divisor) (divisor.map fun _ => 0)

/-! ## The blocks -/

section
variable (version ecl : Nat)

def rawCodewords : Nat := getNumRawDataModules version / 8

def numShortBlocks : Nat := numBlocks version ecl - rawCodewords version % numBlocks version ecl

def shortBlockLen : Nat := rawCodewords version / numBlocks version ecl

/-- The data codewords of block `i`. -/
def blockDataLen (i : Nat) : Nat :=
  shortBlockLen version ecl - eccLength version ecl + if i < numShortBlocks version ecl then 0 else 1

/-- A block as it stands in `blocks`: a short one is padded after its data. -/
def makeBlock (i : Nat) (dat : List Nat) : List Nat :=
  let ecc := reedSolomonComputeRemainder dat (reedSolomonComputeDivisor (eccLength version ecl))
  (if i < numShortBlocks version ecl then dat ++ [0] else dat) ++ ecc

/-- The first loop of `addEccAndInterleave`, with its offset into the data. -/
def blocks (data : List Nat) : List (List Nat) :=
  ((List.range (numBlocks version ecl)).foldl (fun s i =>
    let dat := (data.drop s.2).take (blockDataLen version ecl i)
    (s.1 ++ [makeBlock version ecl i dat], s.2 + dat.length)) ([], 0)).1

def addEccAndInterleave (data : List Nat) : List Nat :=
  let blocks := blocks version ecl data
  (List.range (blocks.headD []).length).flatMap fun i =>
    ((List.range blocks.length).filter fun j =>
      i != shortBlockLen version ecl - eccLength version ecl || numShortBlocks version ecl ≤ j).map
        fun j => (blocks.getD j []).getD i 0

end

/-! ## The shape of the blocks -/

/-- The versions, and the levels L, M and Q. The view asks for M only; of level H, the row of block
counts leaves no room for data from version 30 on. -/
structure Valid (version ecl : Nat) : Prop where
  low : 1 ≤ version
  high : version ≤ 40
  level : ecl < 3

/-- What the tables say of a version and a level: there are blocks, each holds data beside its check
codewords, and no more than 255 codewords in all. -/
structure Sound (version ecl : Nat) : Prop where
  count : 0 < numBlocks version ecl
  ecc : 0 < eccLength version ecl
  short : eccLength version ecl < shortBlockLen version ecl
  long : shortBlockLen version ecl + 1 ≤ 255
  data : getNumDataCodewords version ecl =
    rawCodewords version - eccLength version ecl * numBlocks version ecl

theorem Valid.sound {version ecl : Nat} (h : Valid version ecl) : Sound version ecl := by
  have hall : ∀ v < 41, ∀ e < 3, 1 ≤ v → 0 < numBlocks v e ∧ 0 < eccLength v e ∧
      eccLength v e < shortBlockLen v e ∧ shortBlockLen v e + 1 ≤ 255 := by decide +kernel
  obtain ⟨hb, he, hs, hl⟩ := hall version (Nat.lt_succ_of_le h.high) ecl h.level h.low
  exact ⟨hb, he, hs, hl, rfl⟩

@[simp] theorem multiplyRoot_length (root : Nat) (cs : List Nat) :
    (multiplyRoot root cs).length = cs.length := by
  fun_induction multiplyRoot root cs with
  | case1 c d cs ih => simpa using ih
  | case2 c => rfl
  | case3 => rfl

theorem divisor_length {degree : Nat} (h : 0 < degree) :
    (reedSolomonComputeDivisor degree).length = degree := by
  have hfold : ∀ (is : List Nat) (s : List Nat × Nat),
      (is.foldl (fun s _ => (multiplyRoot s.2 s.1, reedSolomonMultiply s.2 0x02)) s).1.length =
        s.1.length := by
    intro is
    induction is with
    | nil => exact fun _ => rfl
    | cons i is ih =>
      intro s
      rw [List.foldl_cons, ih, multiplyRoot_length]
  rw [reedSolomonComputeDivisor, hfold, List.length_append, List.length_replicate,
    List.length_singleton, Nat.sub_add_cancel h]

theorem remainder_length (data divisor : List Nat) (h : 0 < divisor.length) :
    (reedSolomonComputeRemainder data divisor).length = divisor.length := by
  have hfold : ∀ (data result : List Nat), result.length = divisor.length →
      (data.foldl (remainderStep divisor) result).length = divisor.length := by
    intro data
    induction data with
    | nil => exact fun _ hr => hr
    | cons b data ih =>
      intro result hr
      refine ih _ ?_
      simp only [remainderStep, List.length_zipWith, List.length_append, List.length_tail,
        List.length_singleton, hr]
      omega
  exact hfold data _ (List.length_map _)

/-- A block without its padding: data and check codewords. -/
def codeword (degree : Nat) (data : List Nat) : List Nat :=
  data ++ reedSolomonComputeRemainder data (reedSolomonComputeDivisor degree)

theorem codeword_length {degree : Nat} (h : 0 < degree) (data : List Nat) :
    (codeword degree data).length = data.length + degree := by
  have hdiv := divisor_length h
  rw [codeword, List.length_append, remainder_length _ _ (by rw [hdiv]; exact h), hdiv]

section
variable (version ecl : Nat)

/-- Where the data of block `i` starts. -/
def blockOffset (i : Nat) : Nat :=
  i * (shortBlockLen version ecl - eccLength version ecl) + (i - numShortBlocks version ecl)

/-- The data of block `i`. -/
def blockData (data : List Nat) (i : Nat) : List Nat :=
  (data.drop (blockOffset version ecl i)).take (blockDataLen version ecl i)

/-- The blocks of a version and a level, as they are woven. -/
def weave : Weave where
  count := numBlocks version ecl
  short := numShortBlocks version ecl
  pad := shortBlockLen version ecl - eccLength version ecl
  tail := eccLength version ecl
  short_le := Nat.sub_le ..

/-- A reader of block `j` in the stream. -/
def readBlock (stream : List Nat) (j : Nat) : List Nat :=
  ((weave version ecl).slots j).map fun i => stream.getD ((weave version ecl).index j i) 0

/-- A reader of the data codewords in the stream. -/
def readData (stream : List Nat) : List Nat :=
  (List.range (numBlocks version ecl)).flatMap fun j =>
    (readBlock version ecl stream j).take (blockDataLen version ecl j)

end

variable {version ecl : Nat}

theorem weave_front (j : Nat) : (weave version ecl).front j = blockDataLen version ecl j := by
  unfold Weave.front blockDataLen weave
  split <;> rfl

theorem blockOffset_succ (i : Nat) : blockOffset version ecl (i + 1) =
    blockOffset version ecl i + blockDataLen version ecl i := by
  unfold blockOffset blockDataLen
  rw [Nat.succ_mul]
  split <;> omega

theorem blockOffset_mono {i j : Nat} (h : i ≤ j) :
    blockOffset version ecl i ≤ blockOffset version ecl j := by
  induction h with
  | refl => exact Nat.le_refl _
  | step _ ih =>
    rw [blockOffset_succ]
    exact Nat.le_add_right_of_le ih

namespace Sound

variable (hs : Sound version ecl)
include hs

theorem short_pos : 0 < numShortBlocks version ecl :=
  Nat.sub_pos_of_lt (Nat.mod_lt _ hs.count)

/-- The blocks share out all the data. -/
theorem blockOffset_all :
    blockOffset version ecl (numBlocks version ecl) = getNumDataCodewords version ecl := by
  have hmod := Nat.mod_lt (rawCodewords version) hs.count
  have hdiv : numBlocks version ecl * shortBlockLen version ecl +
      rawCodewords version % numBlocks version ecl = rawCodewords version :=
    Nat.div_add_mod (rawCodewords version) (numBlocks version ecl)
  have hle : numBlocks version ecl * eccLength version ecl ≤
      numBlocks version ecl * shortBlockLen version ecl := Nat.mul_le_mul_left _ hs.short.le
  rw [hs.data, blockOffset, numShortBlocks, Nat.mul_sub, Nat.mul_comm (eccLength version ecl)]
  omega

theorem raw_eq : rawCodewords version =
    getNumDataCodewords version ecl + eccLength version ecl * numBlocks version ecl := by
  have hle : eccLength version ecl * numBlocks version ecl ≤ rawCodewords version := by
    have hdiv : numBlocks version ecl * shortBlockLen version ecl ≤ rawCodewords version :=
      Nat.mul_div_le ..
    have hmul : numBlocks version ecl * eccLength version ecl ≤
        numBlocks version ecl * shortBlockLen version ecl := Nat.mul_le_mul_left _ hs.short.le
    rw [Nat.mul_comm]
    exact hmul.trans hdiv
  rw [hs.data, Nat.sub_add_cancel hle]

variable {data : List Nat} (hlen : data.length = getNumDataCodewords version ecl)
include hlen

theorem blockOffset_le {i : Nat} (hi : i ≤ numBlocks version ecl) :
    blockOffset version ecl i ≤ data.length := by
  rw [hlen, ← hs.blockOffset_all]
  exact blockOffset_mono hi

theorem blockData_length {i : Nat} (hi : i < numBlocks version ecl) :
    (blockData version ecl data i).length = blockDataLen version ecl i := by
  have h := hs.blockOffset_le hlen (Nat.succ_le_of_lt hi)
  rw [Nat.succ_eq_add_one, blockOffset_succ] at h
  rw [blockData, List.length_take, List.length_drop]
  omega

theorem blocks_eq : blocks version ecl data = (List.range (numBlocks version ecl)).map fun i =>
    makeBlock version ecl i (blockData version ecl data i) := by
  have hfold : ∀ n ≤ numBlocks version ecl, (List.range n).foldl (fun s i =>
      let dat := (data.drop s.2).take (blockDataLen version ecl i)
      (s.1 ++ [makeBlock version ecl i dat], s.2 + dat.length)) (([] : List (List Nat)), 0) =
      ((List.range n).map fun i => makeBlock version ecl i (blockData version ecl data i),
        blockOffset version ecl n) := by
    intro n hn
    induction n with
    | zero => simp [blockOffset]
    | succ n ih =>
      have hdat : (data.drop (blockOffset version ecl n)).take (blockDataLen version ecl n) =
          blockData version ecl data n := rfl
      rw [List.range_succ, List.foldl_append, ih (by omega), List.foldl_cons, List.foldl_nil]
      simp only [hdat, hs.blockData_length hlen hn, List.map_append, List.map_singleton,
        blockOffset_succ]
  rw [blocks, hfold _ (Nat.le_refl _)]

/-- The data is that of its blocks, one after the other. -/
theorem flatMap_blockData :
    (List.range (numBlocks version ecl)).flatMap (blockData version ecl data) = data := by
  have hpre : ∀ n, (List.range n).flatMap (blockData version ecl data) =
      data.take (blockOffset version ecl n) := by
    intro n
    induction n with
    | zero => simp [blockOffset]
    | succ n ih =>
      rw [List.range_succ, List.flatMap_append, ih, List.flatMap_singleton, blockOffset_succ,
        List.take_add, blockData]
  rw [hpre, hs.blockOffset_all, ← hlen, List.take_length]

/-- The stream is that of the blocks, each with a slot left out of the short ones. -/
theorem addEccAndInterleave_eq : addEccAndInterleave version ecl data =
    (weave version ecl).stream fun j i =>
      (makeBlock version ecl j (blockData version ecl data j)).getD i 0 := by
  have hfirst : (makeBlock version ecl 0 (blockData version ecl data 0)).length =
      (weave version ecl).pad + 1 + (weave version ecl).tail := by
    have hdat := hs.blockData_length hlen hs.count
    have hcheck := remainder_length (blockData version ecl data 0)
      (reedSolomonComputeDivisor (eccLength version ecl)) (by rw [divisor_length hs.ecc]; exact hs.ecc)
    rw [divisor_length hs.ecc] at hcheck
    rw [blockDataLen, if_pos hs.short_pos] at hdat
    simp only [makeBlock, if_pos hs.short_pos, List.length_append, List.length_singleton, hdat, hcheck]
    rfl
  have hhead : ((blocks version ecl data).headD []).length =
      (weave version ecl).pad + 1 + (weave version ecl).tail := by
    obtain ⟨n, hn⟩ := Nat.exists_eq_succ_of_ne_zero hs.count.ne'
    rw [hs.blocks_eq hlen, hn, List.range_succ_eq_map, List.map_cons, List.headD_cons, hfirst]
  have hskip : ∀ i j, (!(weave version ecl).skips j i) =
      (i != shortBlockLen version ecl - eccLength version ecl ||
        decide (numShortBlocks version ecl ≤ j)) := by
    intro i j
    have hle : decide (numShortBlocks version ecl ≤ j) = !decide (j < numShortBlocks version ecl) := by
      rw [← decide_not]
      exact decide_eq_decide.mpr not_lt.symm
    rw [hle, Weave.skips, Bool.not_and]
    rfl
  rw [addEccAndInterleave, Weave.stream]
  simp only [hhead, hskip]
  rw [hs.blocks_eq hlen]
  simp only [List.length_map, List.length_range]
  refine List.flatMap_congr fun i _ => List.map_congr_left fun j hj => ?_
  have hj : j < numBlocks version ecl := List.mem_range.mp (List.mem_of_mem_filter hj)
  have hget : ((List.range (numBlocks version ecl)).map fun i =>
      makeBlock version ecl i (blockData version ecl data i)).getD j [] =
        makeBlock version ecl j (blockData version ecl data j) := by
    rw [List.getD_eq_getElem?_getD, List.getElem?_map, List.getElem?_range hj]
    rfl
  rw [hget]

theorem length_addEccAndInterleave :
    (addEccAndInterleave version ecl data).length = rawCodewords version := by
  have hall := hs.blockOffset_all
  have hraw := hs.raw_eq
  rw [hs.addEccAndInterleave_eq hlen, Weave.stream_length, hraw, ← hall]
  simp only [Weave.head, weave, blockOffset]
  ring

/-- A block is read back from the stream, without its padding. -/
theorem readBlock_addEccAndInterleave {j : Nat} (hj : j < numBlocks version ecl) :
    readBlock version ecl (addEccAndInterleave version ecl data) j =
      codeword (eccLength version ecl) (blockData version ecl data j) := by
  have hdat : (blockData version ecl data j).length = (weave version ecl).front j := by
    rw [hs.blockData_length hlen hj, weave_front]
  have hcheck : (reedSolomonComputeRemainder (blockData version ecl data j)
      (reedSolomonComputeDivisor (eccLength version ecl))).length = (weave version ecl).tail := by
    have hdiv := divisor_length hs.ecc
    rw [remainder_length _ _ (by rw [hdiv]; exact hs.ecc), hdiv]
    rfl
  have hslots := (weave version ecl).map_slots (d := 0) (a := 0) hdat hcheck
  rw [readBlock, codeword, ← hslots]
  refine List.map_congr_left fun i hi => ?_
  rw [hs.addEccAndInterleave_eq hlen, List.getD_eq_getElem?_getD, Weave.stream_slot _ _ hj hi,
    Option.getD_some]
  rfl

/-- The data codewords are read back from the stream. -/
theorem readData_addEccAndInterleave :
    readData version ecl (addEccAndInterleave version ecl data) = data := by
  have hblock : ∀ j ∈ List.range (numBlocks version ecl),
      (readBlock version ecl (addEccAndInterleave version ecl data) j).take
        (blockDataLen version ecl j) = blockData version ecl data j := by
    intro j hj
    have hj : j < numBlocks version ecl := List.mem_range.mp hj
    rw [hs.readBlock_addEccAndInterleave hlen hj, codeword,
      List.take_left' (hs.blockData_length hlen hj)]
  rw [readData, List.flatMap_congr hblock, hs.flatMap_blockData hlen]

end Sound

end EthWalletUi.QrGen
