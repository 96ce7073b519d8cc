import EthWalletUi.Coding.Binary
import EthWalletUi.Coding.Grid
import EthWalletUi.QrGen.Segment

/-!
# Drawing a symbol (`qrcodegen.js`)

The function patterns, the codewords along their path, and the masks. A drawing function is the list of
the modules it sets, in the order of its loops.
-/

namespace EthWalletUi.QrGen

open Coding

@[ext] structure Qr where
  size : Nat
  version : Nat
  ecl : Nat
  /-- -1 until it is chosen. -/
  mask : Int
  modules : List (List Bool)
  isFunction : List (List Bool)
deriving DecidableEq

def Qr.withMask (qr : Qr) (mask : Int) : Qr := { qr with mask }

@[simp] theorem Qr.withMask_mask (qr : Qr) (mask : Int) : (qr.withMask mask).mask = mask := rfl

@[simp] theorem Qr.withMask_modules (qr : Qr) (mask : Int) : (qr.withMask mask).modules = qr.modules :=
  rfl

@[simp] theorem Qr.withMask_isFunction (qr : Qr) (mask : Int) :
    (qr.withMask mask).isFunction = qr.isFunction := rfl

def newRow (n : Nat) : List Bool := List.replicate n false

def setFunctionModule (qr : Qr) (x y : Nat) (isDark : Bool) : Qr :=
  { qr with modules := put qr.modules x y isDark, isFunction := put qr.isFunction x y true }

/-- The modules are set one after the other. -/
def draw (qr : Qr) (cells : List (Cell Bool)) : Qr :=
  cells.foldl (fun qr c => setFunctionModule qr c.x c.y c.val) qr

/-! ## The function patterns -/

/-- A loop from `-r` to `r`. -/
def around (r : Nat) : List Int := (List.range (2 * r + 1)).map fun (i : Nat) => (i : Int) - r

def finderCells (size x y : Nat) : List (Cell Bool) :=
  (around 4).flatMap fun (dy : Int) => (around 4).filterMap fun (dx : Int) =>
    let dist := max dx.natAbs dy.natAbs
    let xx := x + dx
    let yy := y + dy
    if 0 ≤ xx ∧ xx < size ∧ 0 ≤ yy ∧ yy < size then
      some ⟨xx.toNat, yy.toNat, dist != 2 && dist != 4⟩
    else none

def drawFinderPattern (qr : Qr) (x y : Nat) : Qr := draw qr (finderCells qr.size x y)

def alignmentCells (x y : Nat) : List (Cell Bool) :=
  (around 2).flatMap fun (dy : Int) => (around 2).map fun (dx : Int) =>
    ⟨(x + dx).toNat, (y + dy).toNat, max dx.natAbs dy.natAbs != 1⟩

def drawAlignmentPattern (qr : Qr) (x y : Nat) : Qr := draw qr (alignmentCells x y)

def getAlignmentPatternPositions (version : Nat) : List Nat :=
  if version = 1 then []
  else
    let numAlign := version / 7 + 2
    -- `Math.ceil` of the quotient
    let step := if version = 32 then 26
      else (version * 4 + 17 - 13 + (numAlign * 2 - 2 - 1)) / (numAlign * 2 - 2) * 2
    ((List.range (numAlign - 1)).foldl
      (fun s _ => (s.1.insertIdx 1 s.2, s.2 - step)) ([6], version * 4 + 10)).1

/-- `ECC_FORMAT_BITS`. -/
def eccFormatBits : List Nat := [1, 0, 3, 2]

def formatBits (ecl mask : Nat) : Nat :=
  let data := eccFormatBits.getD ecl 0 <<< 3 ||| mask
  let rem := (List.range 10).foldl (fun rem _ => (rem <<< 1) ^^^ ((rem >>> 9) * 0x537)) data
  (data <<< 10 ||| rem) ^^^ 0x5412

def formatCells (size bits : Nat) : List (Cell Bool) :=
  (List.range' 0 6).map (fun i => ⟨8, i, getBit bits i⟩) ++
  [⟨8, 7, getBit bits 6⟩, ⟨8, 8, getBit bits 7⟩, ⟨7, 8, getBit bits 8⟩] ++
  (List.range' 9 6).map (fun i => ⟨14 - i, 8, getBit bits i⟩) ++
  (List.range' 0 8).map (fun i => ⟨size - 1 - i, 8, getBit bits i⟩) ++
  (List.range' 8 7).map (fun i => ⟨8, size - 15 + i, getBit bits i⟩) ++
  [⟨8, size - 8, true⟩]

def drawFormatBits (qr : Qr) (mask : Nat) : Qr := draw qr (formatCells qr.size (formatBits qr.ecl mask))

def versionBits (version : Nat) : Nat :=
  let rem := (List.range 12).foldl (fun rem _ => (rem <<< 1) ^^^ ((rem >>> 11) * 0x1F25)) version
  version <<< 12 ||| rem

def versionCells (size version : Nat) : List (Cell Bool) :=
  if version < 7 then []
  else (List.range 18).flatMap fun i =>
    let color := getBit (versionBits version) i
    let a := size - 11 + i % 3
    let b := i / 3
    [⟨a, b, color⟩, ⟨b, a, color⟩]

def drawVersion (qr : Qr) : Qr := draw qr (versionCells qr.size qr.version)

def timingCells (size : Nat) : List (Cell Bool) :=
  (List.range size).flatMap fun i => [⟨6, i, i % 2 == 0⟩, ⟨i, 6, i % 2 == 0⟩]

/-- The centres of the alignment patterns: the corners of the finder patterns are left out. -/
def alignmentCentres (version : Nat) : List (Nat × Nat) :=
  let pos := getAlignmentPatternPositions version
  (List.range pos.length).flatMap fun i => (List.range pos.length).filterMap fun j =>
    let corner := (i == 0 && j == 0) || (i == 0 && j == pos.length - 1) ||
      (i == pos.length - 1 && j == 0)
    if corner then none else some (pos.getD i 0, pos.getD j 0)

def drawFunctionPatterns (qr : Qr) : Qr :=
  let size := qr.size
  let qr := draw qr (timingCells size)
  let qr := drawFinderPattern qr 3 3
  let qr := drawFinderPattern qr (size - 4) 3
  let qr := drawFinderPattern qr 3 (size - 4)
  let qr := (alignmentCentres qr.version).foldl (fun qr p => drawAlignmentPattern qr p.1 p.2) qr
  let qr := drawFormatBits qr 0
  drawVersion qr

/-! ## The codewords -/

/-- The right column of each pair of columns, from the right; column 6 is left out. -/
def rights (right : Nat) : List Nat :=
  if h : 1 ≤ right then
    let right := if right = 6 then 5 else right
    right :: rights (right - 2)
  else []
termination_by right
decreasing_by
  split <;> omega

/-- The modules in the order in which `drawCodewords` comes to them. -/
def path (size : Nat) : List (Nat × Nat) :=
  (rights (size - 1)).flatMap fun right => (List.range size).flatMap fun vert =>
    (List.range 2).map fun j =>
      let upward := (right + 1) &&& 2 == 0
      (right - j, if upward then size - 1 - vert else vert)

/-- Bit `i` of the codewords. -/
def dataBit (data : List Nat) (i : Nat) : Bool := getBit (data.getD (i >>> 3) 0) (7 - (i &&& 7))

def drawCodewords (qr : Qr) (data : List Nat) : Qr :=
  { qr with modules := ((path qr.size).foldl (fun s p =>
      if !cellAt qr.isFunction p.1 p.2 && decide (s.2 < data.length * 8) then
        (put s.1 p.1 p.2 (dataBit data s.2), s.2 + 1)
      else s) (qr.modules, 0)).1 }

/-! ## The masks -/

/-- Whether a mask inverts a module. -/
def inverts (mask x y : Nat) : Bool :=
  match mask with
  | 0 => (x + y) % 2 == 0
  | 1 => y % 2 == 0
  | 2 => x % 3 == 0
  | 3 => (x + y) % 3 == 0
  | 4 => (x / 3 + y / 2) % 2 == 0
  | 5 => x * y % 2 + x * y % 3 == 0
  | 6 => (x * y % 2 + x * y % 3) % 2 == 0
  | 7 => ((x + y) % 2 + x * y % 3) % 2 == 0
  | _ => false

def applyMask (qr : Qr) (mask : Nat) : Qr :=
  { qr with modules := (List.range qr.size).map fun y => (List.range qr.size).map fun x =>
      let module := cellAt qr.modules x y
      if cellAt qr.isFunction x y then module
      else if inverts mask x y then !module else module }

end EthWalletUi.QrGen
