import EthWalletUi.Backend.Core

/-!
# The handlers of the sends (`eth_wallet_ui_backend.cpp`)

The wallet's own send (`submitSend`) and another app's (`reviewIntentSend`, `acceptIntentSend`,
`declineIntentSend`) end in the same pending send, which `pollSend` and `cancelSend` settle.
-/

namespace EthWalletUi

open Qt

namespace Send

variable (s : Send)

/-! ## Setters -/

def setPendingRequestId (value : String) : Send :=
  if value = s.pendingRequestId then s
  else { s with pendingRequestId := value, outbox := s.outbox ++ [.pendingRequestId value] }

def setPendingApprovalHandle (value : String) : Send :=
  if value = s.pendingApprovalHandle then s
  else { s with
    pendingApprovalHandle := value, outbox := s.outbox ++ [.pendingApprovalHandle value] }

def setLastSendOutcomeJson (value : Text) (ofSend : String) : Send :=
  if value = s.lastSendOutcomeJson then s
  else { s with
    lastSendOutcomeJson := value, outbox := s.outbox ++ [.lastSendOutcome value ofSend] }

def setIntentSendJson (value : Text) : Send :=
  if value = s.intentSendJson then s
  else { s with intentSendJson := value, outbox := s.outbox ++ [.intentSend value] }

/-- The pricing claim with its spinner, `intentSendPricing`. -/
def setPrice (price : WiredClaim) : Send :=
  if price.loading = s.price.loading then { s with price }
  else { s with price, outbox := s.outbox ++ [.intentSendPricing price.loading] }

def setIntentSendPricing (on : Bool) : Send := s.setPrice { s.price with loading := on }

/-! ### What they set -/

section Setters

@[simp] theorem setPendingRequestId_pendingRequestId (value : String) :
    (s.setPendingRequestId value).pendingRequestId = value := by
  unfold setPendingRequestId
  split
  · exact Eq.symm ‹_›
  · rfl

@[simp] theorem setPendingRequestId_intentSendJson (value : String) :
    (s.setPendingRequestId value).intentSendJson = s.intentSendJson := by
  unfold setPendingRequestId
  split <;> rfl

@[simp] theorem setPendingRequestId_intentSend (value : String) :
    (s.setPendingRequestId value).intentSend = s.intentSend := by
  unfold setPendingRequestId
  split <;> rfl

@[simp] theorem setPendingRequestId_calls (value : String) :
    (s.setPendingRequestId value).calls = s.calls := by
  unfold setPendingRequestId
  split <;> rfl

@[simp] theorem setPendingApprovalHandle_pendingRequestId (value : String) :
    (s.setPendingApprovalHandle value).pendingRequestId = s.pendingRequestId := by
  unfold setPendingApprovalHandle
  split <;> rfl

@[simp] theorem setPendingApprovalHandle_intentSendJson (value : String) :
    (s.setPendingApprovalHandle value).intentSendJson = s.intentSendJson := by
  unfold setPendingApprovalHandle
  split <;> rfl

@[simp] theorem setPendingApprovalHandle_intentSend (value : String) :
    (s.setPendingApprovalHandle value).intentSend = s.intentSend := by
  unfold setPendingApprovalHandle
  split <;> rfl

@[simp] theorem setPendingApprovalHandle_calls (value : String) :
    (s.setPendingApprovalHandle value).calls = s.calls := by
  unfold setPendingApprovalHandle
  split <;> rfl

@[simp] theorem setLastSendOutcomeJson_pendingRequestId (value : Text) (ofSend : String) :
    (s.setLastSendOutcomeJson value ofSend).pendingRequestId = s.pendingRequestId := by
  unfold setLastSendOutcomeJson
  split <;> rfl

@[simp] theorem setLastSendOutcomeJson_intentSendJson (value : Text) (ofSend : String) :
    (s.setLastSendOutcomeJson value ofSend).intentSendJson = s.intentSendJson := by
  unfold setLastSendOutcomeJson
  split <;> rfl

@[simp] theorem setLastSendOutcomeJson_intentSend (value : Text) (ofSend : String) :
    (s.setLastSendOutcomeJson value ofSend).intentSend = s.intentSend := by
  unfold setLastSendOutcomeJson
  split <;> rfl

@[simp] theorem setLastSendOutcomeJson_calls (value : Text) (ofSend : String) :
    (s.setLastSendOutcomeJson value ofSend).calls = s.calls := by
  unfold setLastSendOutcomeJson
  split <;> rfl

@[simp] theorem setIntentSendJson_pendingRequestId (value : Text) :
    (s.setIntentSendJson value).pendingRequestId = s.pendingRequestId := by
  unfold setIntentSendJson
  split <;> rfl

@[simp] theorem setIntentSendJson_intentSendJson (value : Text) :
    (s.setIntentSendJson value).intentSendJson = value := by
  unfold setIntentSendJson
  split
  · exact Eq.symm ‹_›
  · rfl

@[simp] theorem setIntentSendJson_intentSend (value : Text) :
    (s.setIntentSendJson value).intentSend = s.intentSend := by
  unfold setIntentSendJson
  split <;> rfl

@[simp] theorem setIntentSendJson_calls (value : Text) :
    (s.setIntentSendJson value).calls = s.calls := by
  unfold setIntentSendJson
  split <;> rfl

@[simp] theorem setPrice_pendingRequestId (price : WiredClaim) :
    (s.setPrice price).pendingRequestId = s.pendingRequestId := by
  unfold setPrice
  split <;> rfl

@[simp] theorem setPrice_intentSendJson (price : WiredClaim) :
    (s.setPrice price).intentSendJson = s.intentSendJson := by
  unfold setPrice
  split <;> rfl

@[simp] theorem setPrice_intentSend (price : WiredClaim) :
    (s.setPrice price).intentSend = s.intentSend := by
  unfold setPrice
  split <;> rfl

@[simp] theorem setPrice_calls (price : WiredClaim) :
    (s.setPrice price).calls = s.calls := by
  unfold setPrice
  split <;> rfl

@[simp] theorem setPrice_price (price : WiredClaim) : (s.setPrice price).price = price := by
  unfold setPrice
  split <;> rfl

@[simp] theorem setLastSendOutcomeJson_lastSendOutcomeJson (value : Text) (ofSend : String) :
    (s.setLastSendOutcomeJson value ofSend).lastSendOutcomeJson = value := by
  unfold setLastSendOutcomeJson
  split
  · exact Eq.symm ‹_›
  · rfl

@[simp] theorem setPendingApprovalHandle_lastSendOutcomeJson (value : String) :
    (s.setPendingApprovalHandle value).lastSendOutcomeJson = s.lastSendOutcomeJson := by
  unfold setPendingApprovalHandle
  split <;> rfl

@[simp] theorem setPendingRequestId_lastSendOutcomeJson (value : String) :
    (s.setPendingRequestId value).lastSendOutcomeJson = s.lastSendOutcomeJson := by
  unfold setPendingRequestId
  split <;> rfl

@[simp] theorem setPendingRequestId_price (value : String) :
    (s.setPendingRequestId value).price = s.price := by
  unfold setPendingRequestId
  split <;> rfl

@[simp] theorem setPendingApprovalHandle_price (value : String) :
    (s.setPendingApprovalHandle value).price = s.price := by
  unfold setPendingApprovalHandle
  split <;> rfl

@[simp] theorem setLastSendOutcomeJson_price (value : Text) (ofSend : String) :
    (s.setLastSendOutcomeJson value ofSend).price = s.price := by
  unfold setLastSendOutcomeJson
  split <;> rfl

@[simp] theorem setIntentSendJson_price (value : Text) :
    (s.setIntentSendJson value).price = s.price := by
  unfold setIntentSendJson
  split <;> rfl

end Setters

/-! ## The pending send -/

/-- An accepted send becomes the pending one. The outcome of the last send goes as it starts. -/
def start (sent : SendApplied) : Send :=
  let s := s.setLastSendOutcomeJson .empty ""
  let s := s.setPendingApprovalHandle sent.handle
  let s := s.setPendingRequestId sent.requestId
  { s with sendPoll := true }

/-- A settled send: the outcome is published before the pending id clears. -/
def settle (polled : SendPolled) (ofSend : String) : Send :=
  let s := { s with sendPoll := false }
  let s := s.setLastSendOutcomeJson (toJsonCompact polled.outcome) ofSend
  let s := s.setPendingApprovalHandle ""
  s.setPendingRequestId ""

@[simp] theorem start_calls (sent : SendApplied) : (s.start sent).calls = s.calls := by simp [start]

@[simp] theorem start_intentSend (sent : SendApplied) :
    (s.start sent).intentSend = s.intentSend := by simp [start]

@[simp] theorem start_intentSendJson (sent : SendApplied) :
    (s.start sent).intentSendJson = s.intentSendJson := by simp [start]

@[simp] theorem start_pendingRequestId (sent : SendApplied) :
    (s.start sent).pendingRequestId = sent.requestId := by simp [start]

@[simp] theorem start_lastSendOutcomeJson (sent : SendApplied) :
    (s.start sent).lastSendOutcomeJson = .empty := by simp [start]

@[simp] theorem start_price (sent : SendApplied) : (s.start sent).price = s.price := by simp [start]

@[simp] theorem settle_price (polled : SendPolled) (ofSend : String) :
    (s.settle polled ofSend).price = s.price := by simp [settle]

@[simp] theorem settle_calls (polled : SendPolled) (ofSend : String) :
    (s.settle polled ofSend).calls = s.calls := by simp [settle]

@[simp] theorem settle_intentSend (polled : SendPolled) (ofSend : String) :
    (s.settle polled ofSend).intentSend = s.intentSend := by simp [settle]

@[simp] theorem settle_intentSendJson (polled : SendPolled) (ofSend : String) :
    (s.settle polled ofSend).intentSendJson = s.intentSendJson := by simp [settle]

/-- The record the view holds under review. -/
def underReview : JsonObject := parseObject s.intentSendJson

end Send

namespace State

variable (s : State)

def selectionHeld (gen : Nat) : Bool := gen == s.core.dataGen

def busySending : Bool := !s.send.pendingRequestId.isEmpty

/-! ## The wallet's own send -/

def submitSend (requestJson : Text) : State :=
  let core := s.core.publishScope { s.core.scopeSnapshot with sendError := "" }
  { s with core := core.enter (.send requestJson core.dataGen core.shown) }

def sendReturned (gen : Nat) (reply : Text) : State :=
  match applySend s.core.scopeSnapshot reply (s.selectionHeld gen) with
  | (after, sent) =>
    let after := if sent.accepted then { after with resendReview := .empty } else after
    let s := { s with core := s.core.publishScope after }
    if !sent.accepted then s else { s with send := s.send.start sent }

def pollSend : State :=
  if s.send.pendingRequestId.isEmpty then { s with send := { s.send with sendPoll := false } }
  else { s with core := s.core.enter (.sendStatus s.send.pendingRequestId) }

/-- Only a final reply ends the wait. -/
def statusReturned (requestId : String) (reply : Text) : State :=
  let polled := sendPolled reply
  if !polled.settled then s
  else
    let s := { s with send := s.send.settle polled requestId }
    let status := (polled.outcome.value "status").toString
    let reason := (polled.outcome.value "reason").toString
    { s with core := s.core.refresh (.explain status reason) }

def cancelSend : State :=
  if s.send.pendingRequestId.isEmpty then s
  else { s with core := s.core.enter (.cancelSend s.send.pendingRequestId) }

/-- Refused once the broadcast is claimed; taken, the reply is the cancelled send. -/
def cancelReturned (requestId : String) (reply : Text) : State :=
  let cancelled := sendPolled reply
  if !cancelled.settled then
    { s with core := { s.core with props.lastError := refusal reply "cancel" } }
  else { s with send := s.send.settle cancelled requestId }

/-! ## Another app's send -/

/-- `checkIntentSend` against the wallet as it stands. -/
def checkIntent (requestJson : Text) : IntentSendChecked :=
  checkIntentSend requestJson s.core.shown
    (s.core.props.accountsJson.array.map fun v => JsonValue.toString (some v))
    (s.core.props.networksJson.array.map fun v => ((asObject v).value "chainId").toInt) s.busySending

def reviewIntentSend (requestJson : Text) : State :=
  let checked := s.checkIntent requestJson
  if !checked.ok then
    -- Published with its refusal: the view is the one that answers the shell.
    let r := parseObject requestJson
    { s with send := s.send.setIntentSendJson (toJsonCompact
        [("requestId", .str (r.value "requestId").toString),
         ("requester", .str (r.value "requester").toString),
         ("error", .str checked.error), ("detail", .str checked.detail)]) }
  else
    let send := s.send.setIntentSendJson (toJsonCompact checked.review)
    match send.price.beginClaim s.core.now 1 kSendCallBudgetMs with
    | (_, none) => { s with send }
    | (price, some slot) =>
      let forRequest := (checked.review.value "requestId").toString
      let send := send.setPrice price
      { s with send := { send with calls := send.calls ++ [.prepare forRequest slot] } }

def prepareReplied (forRequest : String) (slot : Nat) (res : Option Text) : State :=
  let send := { s.send with price := s.send.price.release slot }
  if !send.price.isCurrent slot then { s with send }
  else
    let send := send.setIntentSendPricing false
    let cur := send.underReview
    -- The review may have moved on: a price for another request is not this one's.
    if (cur.value "requestId").toString ≠ forRequest then { s with send }
    else
      let reply := res.getD .empty
      let cur := if replyOk reply then cur.insert "fee" (.obj (parseObject reply))
        else cur.insert "feeError" (.str
          (if reply.isEmpty then "the sender did not answer" else replyError reply))
      { s with send := send.setIntentSendJson (toJsonCompact cur) }

def acceptIntentSend : State :=
  let review := s.send.underReview
  if review.isEmpty || review.contains "error" then s
  else
    match s.send.intentSend.take s.core.now kOneSendCallBudgetMs with
    | (_, none) => s
    | (intentSend, some slot) =>
      let send := { s.send with intentSend }
      -- Checked again against the wallet as it stands now.
      let checked := s.checkIntent (recheckRequest review)
      if !checked.ok then
        let send := { send with intentSend := send.intentSend.release slot }
        let cur := review.insert "error" (.str checked.error)
        let cur := cur.insert "detail" (.str checked.detail)
        { s with send := send.setIntentSendJson (toJsonCompact cur) }
      else
        let forRequest := (review.value "requestId").toString
        let call := .send forRequest checked.senderRequest s.core.dataGen slot
        { s with send := { send with calls := send.calls ++ [call] } }

def sendReplied (gen slot : Nat) (res : Option Text) : State :=
  let send := { s.send with intentSend := s.send.intentSend.release slot }
  let s := { s with send }
  if !send.intentSend.isCurrent slot then s
  else
    let reply := res.getD .empty
    if !replyOk reply then
      -- Shown on the review, which stays up.
      let cur := send.underReview.insert "sendError" (.str
        (if reply.isEmpty then "the sender did not answer" else replyError reply))
      { s with send := send.setIntentSendJson (toJsonCompact cur) }
    else
      match applySend s.core.scopeSnapshot reply (s.selectionHeld gen) with
      | (after, sent) =>
        let s := { s with core := s.core.publishScope after }
        if !sent.accepted then s
        else
          -- From here it is the wallet's own pending send.
          { s with send := (s.send.start sent).setIntentSendJson .empty }

def declineIntentSend : State :=
  let send := s.send.setIntentSendPricing false
  { s with send := send.setIntentSendJson .empty }

end State

end EthWalletUi
