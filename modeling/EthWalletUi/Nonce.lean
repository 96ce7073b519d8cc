import EthWalletUi.Scope

/-!
# Nonces that hold up later sends (`eth_wallet_ui_nonce.h`)

Nonces are used in order, so at or below the highest mined nonce of a chain nothing still waits.
`blockedNonces` reports, for each chain, the lowest nonce that does; `resendRequest` prices the
same transfer again at that nonce, past what `replacementFees` says a node demands.

A `QMap` or `QSet` keyed by chain is a function of the chain here: what the loop has put under one
key depends on the rows of that key alone.
-/

namespace EthWalletUi

open Qt

/-- How long the lowest waiting nonce may sit before the view calls it stuck. -/
def kStuckNonceSecs : Int := 180

def nonceOf (row : JsonObject) : Option Int :=
  let v := row.value "nonce"
  if v.isDouble && 0 ≤ v.toDouble then some (castInt64 v.toDouble) else none

def rowMined (row : JsonObject) : Bool :=
  let s := (row.value "status").toString
  s == "confirmed" || s == "failed"

def rowWaiting (row : JsonObject) : Bool :=
  let s := (row.value "status").toString
  (s == "pending" || s == "unknown") && (row.value "replaced").toBool == false

def rowChain (row : JsonObject) : Int := (row.value "chainId").toInt

def rowTimestamp (row : JsonObject) : Int := (row.value "timestamp").toVariantLongLong

/-- Flags each row the sender settled `replaced`, and each waiting row whose nonce another row on
the same chain has mined. -/
def markReplaced (rows : JsonArray) : JsonArray :=
  let mined : List (Int × Int) := rows.filterMap fun v =>
    let r := asObject v
    match nonceOf r with
    | some n => if rowMined r then some (rowChain r, n) else none
    | none => none
  rows.map fun v =>
    let r := asObject v
    let settled := (r.value "status").toString == "replaced"
    let overtaken := match nonceOf r with
      | some n => rowWaiting r && mined.contains (rowChain r, n)
      | none => false
    if settled || overtaken then .obj (r.insert "replaced" (.bool true)) else v

/-- The same transfer again, from the row's own `meta`; empty for anything but a transfer. -/
def transferOf (row : JsonObject) : JsonObject :=
  let info := (row.value "meta").toObject
  let kind := (info.value "kind").toString
  let recipient := (info.value "recipient").toString
  let amount := (info.value "amount").toString
  let token := (info.value "token").toString
  let erc20 := kind == "erc20"
  if (kind != "native" && !erc20) || recipient.isEmpty || amount.isEmpty ||
      (erc20 && token.isEmpty) then []
  else
    let r : JsonObject := [("to", .str recipient), ("amount", .str amount)]
    if erc20 then r.insert "tokenAddress" (.str token) else r

/-- `none` when the value holds no unsigned 64-bit decimal. -/
def weiOf (v : JsonValue) : Option Nat := toULongLong v.toString

/-! ## Blocked nonces -/

/-- `minedUpTo[c]` after one more row. -/
def minedStep (c m : Int) (v : Json) : Int :=
  let r := asObject v
  match nonceOf r with
  | some n => if rowMined r && rowChain r == c then max m n else m
  | none => m

/-- `minedUpTo.value(c, -1)`: the highest mined nonce of a chain. -/
def minedUpTo (rows : JsonArray) (c : Int) : Int := rows.foldl (minedStep c) (-1)

/-- `waiting.value(c)`: the rows that still wait on a chain, with their nonces. -/
def waiting (rows : JsonArray) (c : Int) : List (Int × JsonObject) :=
  rows.filterMap fun v =>
    let r := asObject v
    match nonceOf r with
    | some n =>
      if rowWaiting r && rowChain r == c && minedUpTo rows c < n then some (n, r) else none
    | none => none

/-- `gaps.value(c)`: the nonces the sender reserved on a chain and never sent. -/
def gaps (rows stranded : JsonArray) (c : Int) : List Int :=
  stranded.filterMap fun v =>
    let g := asObject v
    match nonceOf g with
    | some n => if rowChain g == c && minedUpTo rows c < n then some n else none
    | none => none

/-- The chains that have a waiting row or a gap, in order. -/
def blockedOrder (rows stranded : JsonArray) : List Int :=
  let keys := (rows ++ stranded).map fun v => rowChain (asObject v)
  (keys.filter fun c => !(waiting rows c).isEmpty || !(gaps rows stranded c).isEmpty).dedup
    |>.insertionSort (· ≤ ·)

/-- The fee floor that the attempts at one nonce set. -/
structure Floor where
  feesKnown : Bool := true
  floorFee : Nat := 0
  floorTip : Nat := 0
  deriving DecidableEq

def Floor.raise (f : Floor) (r : JsonObject) : Floor :=
  if f.feesKnown then
    match weiOf (r.value "maxFeePerGas") with
    | none => { f with feesKnown := false }
    | some fee =>
      let f := { f with floorFee := max f.floorFee fee }
      match weiOf (r.value "maxPriorityFeePerGas") with
      | none => { f with feesKnown := false }
      | some tip => { f with floorTip := max f.floorTip tip }
  else f

/-- The latest of the attempts, the first of those with one timestamp. -/
def newestOf (first : JsonObject) (rest : List JsonObject) : JsonObject :=
  rest.foldl (fun newest r => if rowTimestamp newest < rowTimestamp r then r else newest) first

/-- `laterSince`: the earliest time a later send was made. -/
def laterSinceOf (later : List JsonObject) : Int :=
  later.foldl (fun since r =>
    if since = 0 then rowTimestamp r else min since (rowTimestamp r)) 0

/-- One text of the newest attempt, carried into its entry when there is any. -/
def carry (newest e : JsonObject) (k : String) : JsonObject :=
  let s := (newest.value k).toString
  if s.isEmpty then e else e.insert k (.str s)

/-- The entry for a nonce no row waits at. A gap is only evidence once a later send has waited. -/
def strandedEntry (e : JsonObject) (later : List JsonObject) (now : Int) : Option JsonObject :=
  if later.isEmpty || subInt64 now (laterSinceOf later) < kStuckNonceSecs then none
  else
    let e := e.insert "why" (.str "stranded")
    some (e.insert "since" (.int (laterSinceOf later)))

/-- Why the newest attempt waits, since when, and what names it. -/
def describe (e newest : JsonObject) : JsonObject :=
  let stalled := (newest.value "stalled").toBool
  let isUnknown := (newest.value "status").toString == "unknown"
  let e := e.insert "why"
    (.str (if isUnknown then "unresolved" else if stalled then "stalled" else "pending"))
  let e := e.insert "since" (.int (rowTimestamp newest))
  ["hash", "label", "origin"].foldl (carry newest) e

/-- The newest attempt's transfer and the fee floor, when there is a transfer and it has one. -/
def withResend (e newest : JsonObject) (c n0 : Int) (floor : Floor) : JsonObject :=
  let resend := transferOf newest
  if !resend.isEmpty && floor.feesKnown then
    let resend := resend.insert "chainId" (.int c)
    let resend := resend.insert "from" (.str (newest.value "from").toString)
    let resend := resend.insert "nonce" (.int n0)
    let e := e.insert "resend" (.obj resend)
    let e := e.insert "floorMaxFeePerGas" (.str (number floor.floorFee))
    e.insert "floorMaxPriorityFeePerGas" (.str (number floor.floorTip))
  else e

/-- The latest attempt decides; every attempt sets the fee floor. -/
def attemptEntry (e : JsonObject) (c n0 : Int) (first : JsonObject) (rest : List JsonObject)
    (later : List JsonObject) (now : Int) : Option JsonObject :=
  let newest := newestOf first (first :: rest)
  let floor := (first :: rest).foldl Floor.raise {}
  let stalled := (newest.value "stalled").toBool
  if subInt64 now (rowTimestamp newest) < kStuckNonceSecs || (later.isEmpty && !stalled) then none
  else some (withResend (describe e newest) newest c n0 floor)

/-- What one chain's turn of the loop appends. -/
def blockedEntry (rows stranded : JsonArray) (now c : Int) : Option JsonObject :=
  let waitingHere := waiting rows c
  match (gaps rows stranded c ++ waitingHere.map Prod.fst).min? with
  | none => none
  | some n0 =>
    let attempts := (waitingHere.filter fun w => w.1 == n0).map Prod.snd
    let laterHere := waitingHere.filter fun w => n0 < w.1
    let later := laterHere.map Prod.snd
    let e : JsonObject := [("chainId", .int c), ("nonce", .int n0),
      ("behind", .int (laterHere.map Prod.fst).dedup.length)]
    match attempts with
    | [] => strandedEntry e later now
    | first :: rest => attemptEntry e c n0 first rest later now

/-- The lowest waiting nonce on each chain, when later sends queue behind it or it has stalled. -/
def blockedNonces (rows stranded : JsonArray) (now : Int) : JsonArray :=
  ((blockedOrder rows stranded).filterMap (blockedEntry rows stranded now)).map .obj

/-! ## The price of a resend -/

structure ReplacementFees where
  maxFeePerGas : String := ""
  maxPriorityFeePerGas : String := ""
  error : String := ""
  deriving DecidableEq, Inhabited

/-- 10^9 gwei per gas. -/
def kMaxBumpable : Nat := 1000000000000000000

/-- What a node demands of a replacement, in unsigned 64-bit arithmetic. -/
def bump (x : Nat) : Nat := ((x + x / 10) % 2 ^ 64 + 1) % 2 ^ 64

/-- The tier's fees, raised where needed past what nodes demand of a replacement. -/
def replacementFees (tier : JsonObject) (floorFee floorTip : String) : ReplacementFees :=
  match weiOf (tier.value "maxFeePerGas"), weiOf (tier.value "maxPriorityFeePerGas") with
  | some fee, some tip =>
    match toULongLong floorFee, toULongLong floorTip with
    | some oldFee, some oldTip =>
      if kMaxBumpable < oldFee || kMaxBumpable < oldTip then
        { error := "the fees of the transaction it replaces are out of range" }
      else
        let tip := max tip (bump oldTip)
        let fee := max (max fee (bump oldFee)) tip
        { maxFeePerGas := number fee, maxPriorityFeePerGas := number tip }
    | _, _ => { error := "the fees of the transaction it replaces are unreadable" }
  | _, _ => { error := "no current fee to price it with" }

/-- The send request for a blocked entry, priced; empty when there is nothing to resend. -/
def resendRequest (blocked : JsonObject) (fees : ReplacementFees) : JsonObject :=
  let r := (blocked.value "resend").toObject
  if r.isEmpty || !fees.error.isEmpty then []
  else
    let r := r.insert "maxFeePerGas" (.str fees.maxFeePerGas)
    r.insert "maxPriorityFeePerGas" (.str fees.maxPriorityFeePerGas)

end EthWalletUi
