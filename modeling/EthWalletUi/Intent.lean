import EthWalletUi.Scope

/-!
# Another app's request to send (`eth_wallet_ui_intent.h`)

The app hands over calls and a purpose; `checkIntentSend` checks and reshapes them into the review
the human sees and the request the sender is handed. `sendPolled` reads a `send_status` or
`cancel_send` reply: what settled means.
-/

namespace EthWalletUi

open Qt

/-- The most calls one request may carry: the sender's own bundle limit. -/
def kMaxIntentCalls : Nat := 8
def kMaxIntentPurposeChars : Nat := 256

structure IntentSendChecked where
  ok : Bool := false
  /-- `bad_request` for a payload that cannot be fixed by retrying it, `busy` for a wallet already
  sending; empty on success. -/
  error : String := ""
  detail : String := ""
  /-- What the review dialog shows. -/
  review : JsonObject := []
  /-- What the sender is handed on acceptance. -/
  senderRequest : JsonObject := []
  deriving DecidableEq, Inhabited

def isHexDigit (c : Char) : Bool :=
  ('0' ≤ c && c ≤ '9') || ('a' ≤ c && c ≤ 'f') || ('A' ≤ c && c ≤ 'F')

def looksLikeAddress (s : String) : Bool :=
  size s == 42 && match s.toList with
    | '0' :: x :: digits => (x == 'x' || x == 'X') && digits.all isHexDigit
    | _ => false

/-- Insert a text unless it is empty. -/
def insertUnlessEmpty (k : JsonObject) (key s : String) : JsonObject :=
  if s.isEmpty then k else k.insert key (.str s)

theorem insertUnlessEmpty_value (k : JsonObject) (key s l : String) :
    (insertUnlessEmpty k key s).value l =
      if l = key ∧ s.isEmpty = false then some (.str s) else k.value l := by
  unfold insertUnlessEmpty
  cases h : s.isEmpty <;> simp [JsonObject.value_insert]

/-- One call of the request, number `i` from 0, or why it is refused. -/
def cleanCall (requester : String) (i : Nat) (c : JsonObject) : Except String JsonObject :=
  let recipient := trimmed (c.value "to").toString
  if !looksLikeAddress recipient then .error s!"call {i + 1} has no `to` address"
  else
    let data := trimmed (c.value "data").toString
    if !data.isEmpty && (!data.toList.take 2 == ['0', 'x'] || size data % 2 != 0) then
      .error s!"call {i + 1} has calldata that is not 0x-hex"
    else
      let k : JsonObject := [("to", .str recipient)]
      let k := insertUnlessEmpty k "value" (trimmed (c.value "value").toVariantString)
      let k := insertUnlessEmpty k "data" data
      let k := insertUnlessEmpty k "gasLimit" (trimmed (c.value "gasLimit").toVariantString)
      let label := trimmed (c.value "label").toString
      let k := k.insert "label" (.str (if label.isEmpty then s!"Call {i + 1}" else left label 120))
      let info := (c.value "meta").toObject
      let info := info.insert "app" (.str requester)
      let info := info.insert "intent" (.str "evm.transactions.send")
      .ok (k.insert "meta" (.obj info))

/-- The calls from number `i` on; the first one refused refuses the request. -/
def cleanCalls (requester : String) (i : Nat) : JsonArray → Except String JsonArray
  | [] => .ok []
  | c :: calls => do
    let k ← cleanCall requester i (asObject c)
    let cleaned ← cleanCalls requester (i + 1) calls
    return .obj k :: cleaned

/-- Check a request against the wallet as it stands: `shown` supplies the default account and
chain, `sending` whether a send is already awaiting a human. -/
def checkIntentSend (requestJson : Text) (shown : Selection) (accounts : List String)
    (allowedChains : List Int) (sending : Bool) : IntentSendChecked :=
  let r := parseObject requestJson
  let requestId := (r.value "requestId").toString
  let requester := (r.value "requester").toString
  let p := (r.value "params").toObject
  let refuse (code why : String) : IntentSendChecked := { error := code, detail := why }
  if requestId.isEmpty then refuse "bad_request" "no request id"
  else if sending then refuse "busy" "the wallet is already waiting on a send"
  else if shown.chainId == 0 || shown.account.isEmpty then
    refuse "busy" "the wallet has no account or network selected"
  else
    let chainV := p.value "chainId"
    let named := !chainV.isUndefined && !chainV.isNull
    if named && (!chainV.isDouble || chainV.toDouble != (chainV.toInt : Rat)) then
      refuse "bad_request" "chainId must be an integer"
    else
      let chainId := if named then chainV.toInt else shown.chainId
      if chainId ≤ 0 || !allowedChains.contains chainId then
        refuse "bad_request" s!"chain {chainId} is not enabled and in scope"
      else
        let sender := trimmed (p.value "from").toString
        if !sender.isEmpty && !accounts.any (sameFolded · sender) then
          refuse "bad_request" s!"this wallet holds no account {sender}"
        else
          let sender := if sender.isEmpty then shown.account else sender
          let purpose := trimmed (p.value "purpose").toString
          if purpose.isEmpty then
            refuse "bad_request" "a purpose is required: the human reads it"
          else if kMaxIntentPurposeChars < size purpose then
            refuse "bad_request"
              s!"the purpose is longer than {kMaxIntentPurposeChars} characters"
          else
            let calls := (p.value "calls").toArray
            if calls.isEmpty then refuse "bad_request" "no calls"
            else if kMaxIntentCalls < calls.length then
              refuse "bad_request" s!"more than {kMaxIntentCalls} calls"
            else match cleanCalls requester 0 calls with
              | .error why => refuse "bad_request" why
              | .ok cleaned =>
                let tier := trimmed (p.value "tier").toString
                let tier := if tier.isEmpty then "normal" else tier
                if tier != "slow" && tier != "normal" && tier != "fast" then
                  refuse "bad_request" "tier must be slow, normal or fast"
                else
                  { ok := true
                    review := [("requestId", .str requestId), ("requester", .str requester),
                      ("chainId", .int chainId), ("from", .str sender),
                      ("purpose", .str purpose), ("tier", .str tier), ("calls", .arr cleaned)]
                    senderRequest := [("chainId", .int chainId), ("from", .str sender),
                      ("purpose", .str purpose), ("calls", .arr cleaned), ("tier", .str tier)] }

/-- The request `acceptIntentSend` checks again: the review as the parameters. -/
def recheckRequest (review : JsonObject) : Text :=
  let o : JsonObject := []
  let o := o.insertValue "requestId" (review.value "requestId")
  let o := o.insertValue "requester" (review.value "requester")
  toJsonCompact (o.insert "params" (.obj review))

/-- What one `send_status` or `cancel_send` reply means: not settled is asked again, settled is
what the send came to. -/
structure SendPolled where
  settled : Bool := false
  outcome : JsonObject := []
  deriving DecidableEq, Inhabited

/-- The sender's `final` decides, a refusal's included. A backend that predates it is read the way
it behaves: two statuses still move, and no refusal is final. -/
def sendPolled (reply : Text) : SendPolled :=
  let r := parseObject reply
  let ok := (r.value "ok").toBool
  let status := (r.value "status").toString
  let fin := r.value "final"
  let settled := if fin.isBool then fin.toBool
    else ok && status != "awaitingApproval" && status != "broadcasting"
  if !settled then {}
  else if !ok then
    { settled, outcome := [("status", .str "failed"), ("reason", .str (replyError reply))] }
  else
    let outcome : JsonObject := [("status", .str status)]
    let outcome := insertUnlessEmpty outcome "hash" (r.value "hash").toString
    let outcome := insertUnlessEmpty outcome "reason" (r.value "reason").toString
    -- Every hash of the send: a bundle is more than one.
    let outcome := if r.contains "hashes" then outcome.insertValue "hashes" (r.value "hashes")
      else outcome
    { settled, outcome }

/-! ## What a check comes to -/

theorem ite_of {α : Type} {P : α → Prop} {c : Prop} [Decidable c] {a b : α} (ha : P a)
    (hb : ¬c → P b) : P (if c then a else b) := by
  split
  · exact ha
  · exact hb ‹_›

/-- A request is refused with one of two codes, or reviewed under its own id. -/
def IntentSendChecked.Refused (checked : IntentSendChecked) : Prop :=
  checked.ok = false ∧ (checked.error = "bad_request" ∨ checked.error = "busy")

def IntentSendChecked.Reviewed (checked : IntentSendChecked) (requestId : String) : Prop :=
  checked.ok = true ∧ requestId ≠ "" ∧ checked.review.value "requestId" = some (.str requestId) ∧
    checked.review.contains "error" = false

theorem checkIntentSend_cases (requestJson : Text) (shown : Selection) (accounts : List String)
    (allowedChains : List Int) (sending : Bool) :
    (checkIntentSend requestJson shown accounts allowedChains sending).Refused ∨
      (checkIntentSend requestJson shown accounts allowedChains sending).Reviewed
        ((parseObject requestJson).value "requestId").toString := by
  generalize hid : ((parseObject requestJson).value "requestId").toString = id
  let P (checked : IntentSendChecked) : Prop := checked.Refused ∨ checked.Reviewed id
  show P (checkIntentSend requestJson shown accounts allowedChains sending)
  delta checkIntentSend
  extract_lets r requestId requester p refuse chainV named chainId sender sender' purpose calls
    tier tier'
  have hbad : ∀ why, P (refuse "bad_request" why) := fun why => .inl ⟨rfl, .inl rfl⟩
  have hbusy : ∀ why, P (refuse "busy" why) := fun why => .inl ⟨rfl, .inr rfl⟩
  refine ite_of (hbad _) fun hne => ?_
  refine ite_of (hbusy _) fun _ => ite_of (hbusy _) fun _ => ?_
  refine ite_of (hbad _) fun _ => ite_of (hbad _) fun _ => ite_of (hbad _) fun _ => ?_
  refine ite_of (hbad _) fun _ => ite_of (hbad _) fun _ => ite_of (hbad _) fun _ => ?_
  refine ite_of (hbad _) fun _ => ?_
  cases cleanCalls requester 0 calls with
  | error why => exact hbad why
  | ok cleaned =>
    refine ite_of (hbad _) fun _ => .inr ⟨rfl, ?_, ?_, rfl⟩
    · rintro rfl
      exact hne (by simp [requestId, r, hid])
    · simp [requestId, r, hid, JsonObject.value_cons]

/-- What a send settled to has a status. -/
theorem sendPolled_status {reply : Text} (h : (sendPolled reply).settled = true) :
    (sendPolled reply).outcome.contains "status" = true := by
  have hkept : ∀ (o : JsonObject) (k s : String), k ≠ "status" →
      (insertUnlessEmpty o k s).value "status" = o.value "status" := by
    intro o k s hk
    rw [insertUnlessEmpty_value, if_neg fun h => hk h.1.symm]
  let P (p : SendPolled) : Prop := p.settled = true → p.outcome.contains "status" = true
  suffices hP : P (sendPolled reply) from hP h
  delta sendPolled
  extract_lets r ok status fin settled outcome outcome₁ outcome₂ outcome₃
  refine ite_of (fun h => absurd h (by decide)) fun _ => ite_of (fun _ => rfl) fun _ _ => ?_
  have hstatus : outcome₂.value "status" = some (.str status) := by
    rw [hkept _ _ _ (by decide), hkept _ _ _ (by decide)]
    rfl
  have hlast : outcome₃.value "status" = some (.str status) := by
    refine ite_of (P := fun o : JsonObject => o.value "status" = some (.str status)) ?_
      fun _ => hstatus
    rw [JsonObject.value_insertValue, if_neg (by decide), hstatus]
  rw [JsonObject.contains, hlast]
  rfl

end EthWalletUi
