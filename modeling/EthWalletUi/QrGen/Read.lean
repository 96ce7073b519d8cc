import EthWalletUi.QrGen.Choice
import EthWalletUi.QrGen.Codeword

/-!
# Reading a symbol

A scanner, as the standard has it: the size gives the version, the modules beside the first finder
pattern the level and the mask, and the modules along the path, with the mask taken off, the
codewords.

* `readCodewords_candidate`: the codewords are read back from a symbol with a mask.
* `read_makeQr`: the bytes are.
* `modules_read`: the text is, from the characters that the view draws.
-/

namespace EthWalletUi.QrGen

open Coding

/-- Where bit `i` of the format is, beside the first finder pattern. -/
def formatPlace (i : Nat) : Nat × Nat :=
  if i ≤ 5 then (8, i)
  else if i = 6 then (8, 7)
  else if i = 7 then (8, 8)
  else if i = 8 then (7, 8)
  else (14 - i, 8)

/-- Where it is in the second copy. -/
def formatPlace' (size i : Nat) : Nat × Nat :=
  if i < 8 then (size - 1 - i, 8) else (8, size - 15 + i)

def readFormat (g : List (List Bool)) : List Bool :=
  (List.range 15).map fun i => cellAt g (formatPlace i).1 (formatPlace i).2

def formatWord (ecl mask : Nat) : List Bool := (List.range 15).map (getBit (formatBits ecl mask))

/-- The level and the mask whose format it is. -/
def decodeFormat (w : List Bool) : Option (Nat × Nat) :=
  ((List.range 4).product (List.range 8)).find? fun p => formatWord p.1 p.2 == w

/-- The modules along the path, with the mask taken off. -/
def readBits (version mask : Nat) (g : List (List Bool)) : List Bool :=
  (dataPlaces version).map fun p => cellAt g p.1 p.2 ^^ inverts mask p.1 p.2

def readCodewords (version mask : Nat) (g : List (List Bool)) : Option (List Nat) :=
  readWords 8 (rawCodewords version) ((readBits version mask g).map Bool.toNat)

def read (g : List (List Bool)) : Option (List Nat) := do
  let version := (g.length - 17) / 4
  let (ecl, mask) ← decodeFormat (readFormat g)
  let codewords ← readCodewords version mask g
  readSegment version (readData version ecl codewords)

/-! ## The format -/

theorem decodeFormat_formatWord {ecl mask : Nat} (hecl : ecl < 4) (hmask : mask < 8) :
    decodeFormat (formatWord ecl mask) = some (ecl, mask) := by
  have hall : ∀ e < 4, ∀ m < 8, decodeFormat (formatWord e m) = some (e, m) := by decide +kernel
  exact hall ecl hecl mask hmask

/-- No two bits of the format share a place, and none has the dark module's. -/
theorem formatPlace_inj {size i k : Nat} (hsize : 21 ≤ size) (hi : i < 15) (hk : k < 15) :
    (formatPlace i = formatPlace k → i = k) ∧ (formatPlace' size i = formatPlace' size k → i = k) ∧
      formatPlace i ≠ formatPlace' size k ∧ formatPlace i ≠ (8, size - 8) ∧
      formatPlace' size i ≠ (8, size - 8) := by
  unfold formatPlace formatPlace'
  simp only [ne_eq, Prod.ext_iff]
  refine ⟨?_, ?_, ?_, ?_, ?_⟩ <;> split_ifs <;> dsimp only <;> omega

theorem mem_formatCells {size bits : Nat} {c : Cell Bool} (hc : c ∈ formatCells size bits) :
    (∃ k < 15, c.val = getBit bits k ∧
      ((c.x, c.y) = formatPlace k ∨ (c.x, c.y) = formatPlace' size k)) ∨
        c = ⟨8, size - 8, true⟩ := by
  simp only [formatCells, List.mem_append, List.mem_map, List.mem_range'_1, List.mem_cons,
    List.not_mem_nil, or_false] at hc
  rcases hc with (((((⟨k, hk, rfl⟩ | rfl | rfl | rfl) | ⟨k, hk, rfl⟩) | ⟨k, hk, rfl⟩) |
    ⟨k, hk, rfl⟩) | rfl)
  · refine .inl ⟨k, by omega, rfl, .inl ?_⟩
    rw [formatPlace, if_pos (by omega)]
  · exact .inl ⟨6, by omega, rfl, .inl rfl⟩
  · exact .inl ⟨7, by omega, rfl, .inl rfl⟩
  · exact .inl ⟨8, by omega, rfl, .inl rfl⟩
  · refine .inl ⟨k, by omega, rfl, .inl ?_⟩
    rw [formatPlace, if_neg (by omega), if_neg (by omega), if_neg (by omega), if_neg (by omega)]
  · refine .inl ⟨k, by omega, rfl, .inr ?_⟩
    rw [formatPlace', if_pos (by omega)]
  · refine .inl ⟨k, by omega, rfl, .inr ?_⟩
    rw [formatPlace', if_neg (by omega)]
  · exact .inr rfl

/-- What the format leaves at its places. -/
theorem last?_formatCells {size i : Nat} (bits : Nat) (hsize : 21 ≤ size) (hi : i < 15) :
    last? (formatCells size bits) (formatPlace i).1 (formatPlace i).2 = some (getBit bits i) ∧
      last? (formatCells size bits) (formatPlace' size i).1 (formatPlace' size i).2 =
        some (getBit bits i) := by
  constructor
  · have hplace : IsFormatAt size (formatPlace i).1 (formatPlace i).2 := by
      unfold formatPlace IsFormatAt
      split_ifs <;> dsimp only <;> omega
    refine last?_eq_some ((formatCells_at bits _ _ hsize).mpr hplace) fun c hc hx hy => ?_
    have hat : (c.x, c.y) = formatPlace i := Prod.ext hx hy
    rcases mem_formatCells hc with ⟨k, hk, hval, h | h⟩ | rfl
    · rw [hval, (formatPlace_inj hsize hi hk).1 (hat.symm.trans h)]
    · exact absurd (hat.symm.trans h) (formatPlace_inj hsize hi hk).2.2.1
    · exact absurd hat.symm (formatPlace_inj hsize hi hi).2.2.2.1
  · have hplace : IsFormatAt size (formatPlace' size i).1 (formatPlace' size i).2 := by
      unfold formatPlace' IsFormatAt
      split_ifs <;> dsimp only <;> omega
    refine last?_eq_some ((formatCells_at bits _ _ hsize).mpr hplace) fun c hc hx hy => ?_
    have hat : (c.x, c.y) = formatPlace' size i := Prod.ext hx hy
    rcases mem_formatCells hc with ⟨k, hk, hval, h | h⟩ | rfl
    · exact absurd (h.symm.trans hat) (formatPlace_inj hsize hk hi).2.2.1
    · rw [hval, (formatPlace_inj hsize hi hk).2.1 (hat.symm.trans h)]
    · exact absurd hat.symm (formatPlace_inj hsize hi hi).2.2.2.2

/-! ## The codewords -/

theorem dataBit_eq (data : List Nat) {k j : Nat} (hj : j < 8) :
    (dataBit data (8 * k + j)).toNat = (bitsOf 8 (data.getD k 0)).getD j 0 := by
  have hdiv : (8 * k + j) >>> 3 = k := by
    rw [Nat.shiftRight_eq_div_pow]
    omega
  have hmod : (8 * k + j) &&& 7 = j := by
    rw [show (7 : Nat) = 2 ^ 3 - 1 from rfl, Nat.and_two_pow_sub_one_eq_mod]
    omega
  have hbit : ∀ n, ((n &&& 1) != 0).toNat = n &&& 1 := by
    intro n
    rw [Nat.and_one_is_mod]
    rcases Nat.mod_two_eq_zero_or_one n with h | h <;> rw [h] <;> rfl
  rw [dataBit, hdiv, hmod, getBit, hbit, bitsOf]
  simp [hj]

/-- The bits of the codewords are drawn in their order. -/
theorem dataBits_toNat (data : List Nat) :
    (dataBits data).map Bool.toNat = data.flatMap (bitsOf 8) := by
  have hbyte : ∀ w, (List.range 8).map (fun j => (bitsOf 8 w).getD j 0) = bitsOf 8 w := fun _ => rfl
  have hpre : ∀ n ≤ data.length, (List.range (8 * n)).map (fun i => (dataBit data i).toNat) =
      (data.take n).flatMap (bitsOf 8) := by
    intro n hn
    induction n with
    | zero => rfl
    | succ n ih =>
      have hlast : (List.range 8).map (fun j => (dataBit data (8 * n + j)).toNat) =
          bitsOf 8 data[n] := by
        rw [← hbyte, ← List.getD_eq_getElem _ 0]
        exact List.map_congr_left fun j hj => dataBit_eq data (List.mem_range.mp hj)
      rw [Nat.mul_succ, List.range_add, List.map_append, List.map_map, ih (by omega),
        List.take_succ_eq_append_getElem hn, List.flatMap_append, List.flatMap_singleton]
      exact congrArg _ hlast
  have hall := hpre data.length (Nat.le_refl _)
  rw [List.take_length, Nat.mul_comm] at hall
  rw [dataBits, List.map_map]
  exact hall

section
variable {version : Nat} (hv : IsVersion version) {ecl : Nat} (data : List Nat) (mask : Nat)
include hv

/-- The format of a symbol with a mask. -/
theorem readFormat_candidate :
    readFormat (candidate data version ecl mask).modules = formatWord ecl mask := by
  have hsize := hv.size
  refine List.map_congr_left fun i hi => ?_
  have hi : i < 15 := List.mem_range.mp hi
  have hplace : (formatPlace i).1 < qrSize version ∧ (formatPlace i).2 < qrSize version := by
    unfold formatPlace
    split_ifs <;> dsimp only <;> omega
  rw [candidate_at hv data hplace.1 hplace.2, (last?_formatCells _ hsize.2 hi).1,
    Option.getD_some]

/-- With its mask taken off, a symbol has the bits of the codewords along the path, and nothing
after them. -/
theorem readBits_candidate : readBits version mask (candidate data version ecl mask).modules =
    (List.range (getNumRawDataModules version)).map fun i =>
      (dataBits (addEccAndInterleave version ecl data))[i]?.getD false := by
  refine List.ext_getElem (by simp [readBits, hv.dataPlaces_length]) fun i hi hi' => ?_
  have hi : i < (dataPlaces version).length := by simpa [readBits] using hi
  have hmem : ((dataPlaces version)[i].1, (dataPlaces version)[i].2) ∈ dataPlaces version :=
    List.getElem_mem hi
  obtain ⟨hx, hy, hfun⟩ := hv.mem_dataPlaces.mp hmem
  simp only [readBits, List.getElem_map, List.getElem_range]
  rw [candidate_data hv data hx hy mask hfun, last?_along hv.dataPlaces_nodup hi, Bool.xor_assoc,
    Bool.xor_self, Bool.xor_false]

/-- The codewords are read back from a symbol with a mask. -/
theorem readCodewords_candidate
    (hlen : (addEccAndInterleave version ecl data).length = rawCodewords version)
    (hbytes : IsBytes (addEccAndInterleave version ecl data)) :
    readCodewords version mask (candidate data version ecl mask).modules =
      some (addEccAndInterleave version ecl data) := by
  have hroom : rawCodewords version * 8 ≤ getNumRawDataModules version := Nat.div_mul_le_self ..
  have hsplit : ∃ rest, (readBits version mask (candidate data version ecl mask).modules).map
      Bool.toNat = (addEccAndInterleave version ecl data).flatMap (bitsOf 8) ++ rest := by
    obtain ⟨k, hk⟩ := Nat.exists_eq_add_of_le hroom
    rw [readBits_candidate hv, hk, List.range_add, List.map_append, List.map_append,
      ← dataBits_toNat]
    refine ⟨_, congrArg (· ++ _) (congrArg _ ?_)⟩
    refine List.ext_getElem (by simp [hlen]) fun i hi hi' => ?_
    rw [List.getElem_map, List.getElem_range, List.getElem?_eq_getElem hi', Option.getD_some]
  obtain ⟨rest, hrest⟩ := hsplit
  rw [readCodewords, hrest, ← hlen]
  have hlt : ∀ w ∈ addEccAndInterleave version ecl data, w < 2 ^ 8 := hbytes
  exact readWords_bitsOf hlt rest

end

/-! ## The bytes -/

theorem IsBytes.of_mem {ws : List Nat} (h : IsBytes ws) {i : Nat} : ws.getD i 0 < 256 := by
  rw [List.getD_eq_getElem?_getD]
  cases hget : ws[i]? with
  | none => decide
  | some w => exact h w (List.mem_of_getElem? hget)

/-- The stream of the blocks is made of bytes. -/
theorem isBytes_addEccAndInterleave {version ecl : Nat} (hs : Sound version ecl) {data : List Nat}
    (hlen : data.length = getNumDataCodewords version ecl) (hdata : IsBytes data) :
    IsBytes (addEccAndInterleave version ecl data) := by
  intro w hw
  rw [hs.addEccAndInterleave_eq hlen, Weave.stream] at hw
  obtain ⟨i, -, hw⟩ := List.mem_flatMap.mp hw
  obtain ⟨j, -, rfl⟩ := List.mem_map.mp hw
  have hblock : IsBytes (blockData version ecl data j) := by
    intro w hw
    exact hdata w (List.mem_of_mem_drop (List.mem_of_mem_take hw))
  refine IsBytes.of_mem (IsBytes.append ?_ (isBytes_remainder _ _))
  split
  · exact hblock.append (List.forall_mem_singleton.mpr (by decide))
  · exact hblock

theorem isBytes_dataCodewords {version ecl : Nat} {data : List Nat}
    (hfits : fits data.length version ecl = true) :
    (dataCodewords data version ecl).length = getNumDataCodewords version ecl ∧
      IsBytes (dataCodewords data version ecl) := by
  obtain ⟨_, hlen, hbytes, -⟩ := dataCodewords_words hfits
  exact ⟨hlen, hbytes⟩

section
variable {version ecl : Nat} (h : Valid version ecl) {data : List Nat} (hdata : IsBytes data)
  (hfits : fits data.length version ecl = true)
include h hdata hfits

/-- A symbol with a mask reads as the bytes. -/
theorem read_candidate {mask : Nat} (hmask : mask < 8) :
    read (candidate (dataCodewords data version ecl) version ecl mask).modules = some data := by
  have hv : IsVersion version := ⟨h.low, h.high⟩
  obtain ⟨hlen, hbytes⟩ := isBytes_dataCodewords hfits
  have hshaped := shaped_candidate (dataCodewords data version ecl) version ecl mask
  have hversion : (qrSize version - 17) / 4 = version := by
    unfold qrSize
    omega
  rw [read, hshaped.modules.rows]
  simp only [hversion, readFormat_candidate hv,
    decodeFormat_formatWord (h.level.trans (by decide)) hmask,
    readCodewords_candidate hv _ mask (h.sound.length_addEccAndInterleave hlen)
      (isBytes_addEccAndInterleave h.sound hlen hbytes), Option.bind_eq_bind, Option.bind_some]
  rw [h.sound.readData_addEccAndInterleave hlen]
  exact readSegment_dataCodewords h.low h.high h.level hdata hfits

/-- The symbol that is made reads as the bytes. -/
theorem read_makeQr :
    read (makeQr (dataCodewords data version ecl) version ecl).modules = some data := by
  obtain ⟨mask, hmask, heq⟩ := exists_mask ⟨h.low, h.high⟩ ecl (dataCodewords data version ecl)
  rw [heq]
  exact read_candidate h hdata hfits hmask

end

/-! ## The text -/

/-- What is drawn, as a scanner sees it. -/
def readModules (m : Modules) : Option String := do
  readUtf8 (← read (rowsOf m.size (m.bits.map (· == '1'))))

/-- The characters of a symbol are its rows, one after another. -/
theorem rowsOf_bits {version ecl : Nat} {qr : Qr} (h : Shaped version ecl qr) :
    rowsOf qr.size (((List.range qr.size).flatMap fun y => (List.range qr.size).map fun x =>
      if cellAt qr.modules x y then '1' else '0').map (· == '1')) = qr.modules := by
  have hbit : ∀ b : Bool, ((if b then '1' else '0') == '1') = b := by decide
  rw [List.map_flatMap, h.size_eq]
  simp only [List.map_map, Function.comp_def, hbit]
  rw [List.flatMap_def, h.modules.map_cellAt, h.modules.rowsOf_flatten]

theorem shaped_makeQr {version : Nat} (hv : IsVersion version) (ecl : Nat) (data : List Nat) :
    Shaped version ecl (makeQr data version ecl) := by
  obtain ⟨mask, -, heq⟩ := exists_mask hv ecl data
  rw [heq]
  exact shaped_candidate ..

/-- The version that is chosen is the least that holds the bytes. -/
theorem chooseVersion_eq_some {length ecl version : Nat} :
    chooseVersion length ecl = some version ↔
      IsLeast {v | IsVersion v ∧ fits length v ecl = true} version := by
  rw [chooseVersion, List.find?_range'_eq_some, List.mem_range'_1]
  constructor
  · rintro ⟨hfits, ⟨hlow, hhigh⟩, hleast⟩
    refine ⟨⟨⟨hlow, by omega⟩, hfits⟩, fun v hv => not_lt.mp fun hlt => ?_⟩
    have := hleast v hv.1.low hlt
    rw [hv.2] at this
    cases this
  · rintro ⟨⟨hv, hfits⟩, hle⟩
    refine ⟨hfits, ⟨hv.low, Nat.lt_succ_of_le hv.high⟩, fun v hlow hlt => ?_⟩
    rw [Bool.not_eq_true', Bool.eq_false_iff]
    exact fun hfits' => absurd (hle ⟨⟨hlow, hlt.le.trans hv.high⟩, hfits'⟩) (not_le.mpr hlt)

/-- At level M version 40 holds 2331 bytes, and no version holds more. -/
theorem chooseVersion_isSome (length : Nat) :
    (chooseVersion length eclMedium).isSome = true ↔ length ≤ 2331 := by
  have hroom : ∀ v ∈ List.range' 1 40,
      getNumDataCodewords v eclMedium * 8 < 4 + numCharCountBits v + 2332 * 8 := by decide +kernel
  have hlast : 4 + numCharCountBits 40 + 2331 * 8 ≤ getNumDataCodewords 40 eclMedium * 8 := by
    decide +kernel
  rw [chooseVersion, List.find?_isSome]
  constructor
  · rintro ⟨v, hv, hfits⟩
    have := hroom v hv
    rw [fits, decide_eq_true_eq] at hfits
    omega
  · intro h
    refine ⟨40, by decide, ?_⟩
    rw [fits, decide_eq_true_eq]
    omega

/-- A text of up to 2331 bytes has a symbol, of the least version that holds them, and what is drawn
of it reads as the text. -/
theorem modules_read (text : Option String) :
    ((modules text).isSome = true ↔ (utf8 (text.getD "")).length ≤ 2331) ∧
      ∀ m, modules text = some m → readModules m = some (text.getD "") ∧
        ∃ version, m.size = qrSize version ∧
          IsLeast {v | IsVersion v ∧ fits (utf8 (text.getD "")).length v eclMedium = true}
            version := by
  constructor
  · rw [← chooseVersion_isSome, ← toUtf8_eq, modules, encodeBytes]
    cases chooseVersion (toUtf8 (text.getD "")).length eclMedium <;> rfl
  · intro m hm
    rw [modules, encodeBytes, toUtf8_eq] at hm
    cases hchosen : chooseVersion (utf8 (text.getD "")).length eclMedium with
    | none => simp [hchosen] at hm
    | some version =>
      simp only [hchosen, Option.bind_eq_bind, Option.bind_some, Option.pure_def,
        Option.some.injEq] at hm
      obtain rfl := hm
      have hleast := chooseVersion_eq_some.mp hchosen
      obtain ⟨hv, hfits⟩ := hleast.1
      have hshaped := shaped_makeQr hv eclMedium (dataCodewords (utf8 (text.getD "")) version
        eclMedium)
      have hvalid : Valid version eclMedium := ⟨hv.low, hv.high, by decide⟩
      have hread := read_makeQr hvalid (utf8_lt _) hfits
      generalize makeQr (dataCodewords (utf8 (text.getD "")) version eclMedium) version eclMedium =
        qr at hshaped hread
      refine ⟨?_, version, hshaped.size_eq, hleast⟩
      simp only [readModules, rowsOf_bits hshaped, hread, Option.bind_eq_bind, Option.bind_some]
      exact readUtf8_utf8 _

end EthWalletUi.QrGen
