import EthWalletUi.QrGen.Drawing

/-!
# The penalty of a symbol (`getPenaltyScore` of `qrcodegen.js`)

Runs of one colour and the likes of finder patterns are counted in one pass over a row or a column, with
the lengths of the last seven runs at hand.
-/

namespace EthWalletUi.QrGen

open Coding

/-! ## One row or column -/

def finderPenaltyAddHistory (currentRunLength : Nat) (runHistory : List Nat) (size : Nat) : List Nat :=
  let currentRunLength := if runHistory.headD 0 = 0 then currentRunLength + size else currentRunLength
  currentRunLength :: runHistory.dropLast

def finderPenaltyCountPatterns (runHistory : List Nat) : Nat :=
  let run := fun i => runHistory.getD i 0
  let n := run 1
  let core := decide (n > 0) && run 2 == n && run 3 == n * 3 && run 4 == n && run 5 == n
  (if core && decide (run 0 ≥ n * 4) && decide (run 6 ≥ n) then 1 else 0) +
    (if core && decide (run 6 ≥ n * 4) && decide (run 0 ≥ n) then 1 else 0)

def finderPenaltyTerminateAndCount (currentRunColor : Bool) (currentRunLength : Nat)
    (runHistory : List Nat) (size : Nat) : Nat :=
  let (currentRunLength, runHistory) := if currentRunColor then
      (0, finderPenaltyAddHistory currentRunLength runHistory size)
    else (currentRunLength, runHistory)
  finderPenaltyCountPatterns (finderPenaltyAddHistory (currentRunLength + size) runHistory size)

/-- The variables of a pass over a row or a column. -/
structure Pass where
  result : Nat := 0
  runColor : Bool := false
  runLen : Nat := 0
  runHistory : List Nat := [0, 0, 0, 0, 0, 0, 0]

def passStep (size : Nat) (s : Pass) (module : Bool) : Pass :=
  if module = s.runColor then
    { s with
      runLen := s.runLen + 1
      result := s.result + if s.runLen + 1 = 5 then 3 else if s.runLen + 1 > 5 then 1 else 0 }
  else
    let runHistory := finderPenaltyAddHistory s.runLen s.runHistory size
    { result := s.result + if !s.runColor then finderPenaltyCountPatterns runHistory * 40 else 0
      runColor := module
      runLen := 1
      runHistory := runHistory }

def linePenalty (size : Nat) (line : List Bool) : Nat :=
  let s := line.foldl (passStep size) {}
  s.result + finderPenaltyTerminateAndCount s.runColor s.runLen s.runHistory size * 40

/-! ## The symbol -/

/-- A square of two by two modules of one colour. -/
def isBox (qr : Qr) (x y : Nat) : Bool :=
  let c := cellAt qr.modules x y
  c == cellAt qr.modules (x + 1) y && c == cellAt qr.modules x (y + 1) &&
    c == cellAt qr.modules (x + 1) (y + 1)

def darkCount (qr : Qr) : Nat :=
  ((List.range qr.size).map fun y =>
    ((List.range qr.size).filter fun x => cellAt qr.modules x y).length).sum

/-- `(Math.ceil(Math.abs(dark * 20 - total * 10) / total) - 1) * 10`. -/
def balancePenalty (dark total : Nat) : Int :=
  ((((dark * 20 : Int) - total * 10).natAbs + total - 1) / total - 1 : Int) * 10

def getPenaltyScore (qr : Qr) : Int :=
  let size := qr.size
  let rows := (List.range size).map fun y =>
    linePenalty size ((List.range size).map fun x => cellAt qr.modules x y)
  let columns := (List.range size).map fun x =>
    linePenalty size ((List.range size).map fun y => cellAt qr.modules x y)
  let boxes := (List.range (size - 1)).map fun y =>
    ((List.range (size - 1)).filter fun x => isBox qr x y).length * 3
  rows.sum + columns.sum + boxes.sum + balancePenalty (darkCount qr) (size * size)

end EthWalletUi.QrGen
