import EthWalletUi.QrGen.Blocks
import EthWalletUi.QrGen.Penalty

/-!
# The symbol of a text (`makeQr`, `encodeBytes` and `modules` of `qrcodegen.js`)
-/

namespace EthWalletUi.QrGen

open Coding

/-- The symbol that `makeQr` starts from. -/
def emptyQr (version ecl : Nat) : Qr :=
  let size := version * 4 + 17
  { size, version, ecl, mask := -1, modules := List.replicate size (newRow size),
    isFunction := List.replicate size (newRow size) }

/-- The variables of the loop over the masks: `none` is the `Infinity` it starts from. -/
structure Choice where
  qr : Qr
  mask : Nat := 0
  minPenalty : Option Int := none

/-- One mask is tried and taken back. -/
def tryMask (s : Choice) (m : Nat) : Choice :=
  let qr := drawFormatBits (applyMask s.qr m) m
  let penalty := getPenaltyScore qr
  let better := match s.minPenalty with
    | none => true
    | some minPenalty => decide (penalty < minPenalty)
  { qr := applyMask qr m
    mask := if better then m else s.mask
    minPenalty := if better then some penalty else s.minPenalty }

def makeQr (dataCodewords : List Nat) (version ecl : Nat) : Qr :=
  let qr := drawFunctionPatterns (emptyQr version ecl)
  let qr := drawCodewords qr (addEccAndInterleave version ecl dataCodewords)
  let s := (List.range 8).foldl tryMask { qr }
  drawFormatBits (applyMask (s.qr.withMask s.mask) s.mask) s.mask

/-- `none` is the `RangeError`. -/
def encodeBytes (data : List Nat) (ecl : Nat) : Option Qr := do
  let version ← chooseVersion data.length ecl
  return makeQr (dataCodewords data version ecl) version ecl

/-- What `modules` returns: a character for each module, row by row. -/
structure Modules where
  size : Nat
  bits : List Char
deriving DecidableEq

/-- `none` in the argument is `undefined` or `null`, in the result the `RangeError`. -/
def modules (text : Option String) : Option Modules := do
  let qr ← encodeBytes (toUtf8 (text.getD "")) eclMedium
  return {
    size := qr.size
    bits := (List.range qr.size).flatMap fun y => (List.range qr.size).map fun x =>
      if cellAt qr.modules x y then '1' else '0' }

end EthWalletUi.QrGen
