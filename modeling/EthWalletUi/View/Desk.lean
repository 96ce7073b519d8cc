import EthWalletUi.Backend.Step

/-!
# The view, and another app's request to send (`EthWalletView.qml`)

The view holds the shell's id of the request being serviced and is the one that answers the shell.
It and the backend are two processes: a slot call and a property update are messages, delivered one
after the other in the order in which they were made, at any later time. So the view acts on what
the backend published a while ago.

* `View`: the replica of the send properties, and the request held.
* `View.updated`, `requested`, `declined`: its handlers.
* `desk`: the view and the backend, as a system. What the user does beside an app's request is a
  slot call of the backend at any time.
-/

namespace EthWalletUi

open Qt Machine

/-- What made the view answer the shell; `ofSend` is the send that the outcome read was of. -/
inductive Because where
  | displaced
  | declined
  | refused
  | settled (ofSend : String)
  deriving DecidableEq, Inhabited

/-- A call of `logos.respond`. -/
structure Answer where
  requestId : String
  ok : Bool
  data : JsonObject
  error : String
  because : Because
  deriving DecidableEq, Inhabited

structure View where
  pendingRequestId : String := ""
  lastSendOutcomeJson : Text := .empty
  intentSendJson : Text := .empty
  intentSendPricing : Bool := false
  /-- The shell's id of the request being serviced; empty when there is none. -/
  intentSendRequestId : String := ""
  /-- Ghost: the send that the outcome is of. -/
  outcomeOf : String := ""
  /-- Ghost: the request being serviced has come back reviewed. -/
  reviewed : Bool := false
  /-- Ghost: the answers given, the newest first. -/
  answers : List Answer := []
  deriving DecidableEq, Inhabited

namespace View

variable (v : View)

def sendPending : Bool := !v.pendingRequestId.isEmpty

def intentSend : JsonObject := parseObject v.intentSendJson

def intentSendOpen : Bool := !v.intentSendJson.isEmpty && !v.intentSend.contains "error"

def answerIntent (ok : Bool) (data : JsonObject) (error : String) (because : Because) : View :=
  if v.intentSendRequestId = "" then v
  else { v with
    intentSendRequestId := ""
    answers := ⟨v.intentSendRequestId, ok, data, error, because⟩ :: v.answers }

/-- Copy a member of the outcome, if there is one. -/
def copyMember (o data : JsonObject) (key : String) : JsonObject :=
  if o.contains key then data.insertValue key (o.value key) else data

def answerIntentFromOutcome : View :=
  let o := parseObject v.lastSendOutcomeJson
  if !o.contains "status" then v
  else
    let status := (o.value "status").toString
    let data := ["status", "hash", "hashes", "reason"].foldl (copyMember o) []
    let broadcast := status == "broadcast"
    v.answerIntent broadcast data (if broadcast then "" else status) (.settled v.outcomeOf)

/-- The outcome is published a beat before the id clears; whichever lands second answers. -/
def onPendingRequestIdChanged : View :=
  if v.sendPending then v
  else if v.intentSendRequestId != "" && !v.lastSendOutcomeJson.isEmpty && !v.intentSendOpen then
    v.answerIntentFromOutcome
  else v

def onLastSendOutcomeJsonChanged : View :=
  if !v.lastSendOutcomeJson.isEmpty && v.intentSendRequestId != "" && !v.sendPending &&
      !v.intentSendOpen then
    v.answerIntentFromOutcome
  else v

/-- A request the backend refused is answered with its code, and the record is cleared. -/
def onIntentSendJsonChanged : View × List Slot :=
  let r := parseObject v.intentSendJson
  if !r.contains "error" || v.intentSendRequestId = "" then (v, [])
  else if r.contains "requestId" && r.value "requestId" != some (.str v.intentSendRequestId) then
    (v, [])
  else
    (v.answerIntent false [("detail", .str (r.value "detail").toString)]
      (r.value "error").toString .refused, [.declineIntentSend])

/-- An update reaches the view: the property is written, then its handler runs. -/
def updated : Update → View × List Slot
  | .pendingRequestId value =>
    ({ v with pendingRequestId := value }.onPendingRequestIdChanged, [])
  | .pendingApprovalHandle _ => (v, [])
  | .lastSendOutcome value ofSend =>
    ({ v with lastSendOutcomeJson := value, outcomeOf := ofSend }.onLastSendOutcomeJsonChanged, [])
  | .intentSend value =>
    let reviewed := v.reviewed ||
      ((parseObject value).value "requestId").toString == v.intentSendRequestId
    { v with intentSendJson := value, reviewed }.onIntentSendJsonChanged
  | .intentSendPricing value => ({ v with intentSendPricing := value }, [])

/-- `onIntentRequested`: a request arriving over another ends the first. -/
def requested (requestId requester : String) (params : Json) : View × List Slot :=
  let v := if v.intentSendRequestId != "" then v.answerIntent false [] "cancelled" .displaced
    else v
  ({ v with intentSendRequestId := requestId, reviewed := false },
    [.reviewIntentSend (toJsonCompact
      [("requestId", .str requestId), ("requester", .str requester), ("params", params)])])

/-- The dialog's `onCancelled`. -/
def declined : View × List Slot :=
  (v.answerIntent false [] "cancelled" .declined, [.declineIntentSend])

def confirmEnabled : Bool := !v.sendPending && !v.intentSendPricing

end View

/-! ## The view and the backend -/

structure Desk where
  backend : State := .ready
  view : View := {}
  /-- The view's slot calls on their way to the backend, oldest first. -/
  slots : List Slot := []
  /-- How many of the backend's updates have reached the view. -/
  read : Nat := 0
  /-- Ghost: the requests that the shell has handed over. -/
  requests : List String := []

inductive DeskEvent where
  /-- An event of the backend, the slots of an app's request apart. -/
  | backend (e : Event)
  /-- The view's oldest slot call reaches the backend. -/
  | slot
  /-- The backend's oldest update reaches the view. -/
  | update
  /-- The shell hands over a request, under an id of its own. -/
  | requested (requestId requester : String) (params : Json)
  | confirmed
  | declined

/-- The slot calls that only the view's handlers of an app's request make. -/
def Event.ofIntent : Event → Bool
  | .slot (.reviewIntentSend _) | .slot .acceptIntentSend | .slot .declineIntentSend => true
  | _ => false

namespace Desk

variable (s : Desk)

/-- The updates that have not reached the view. -/
def unread : List Update := s.backend.send.outbox.drop s.read

def step : DeskEvent → Option Desk
  | .backend e =>
    if e.ofIntent then none else (s.backend.step e).map fun backend => { s with backend }
  | .slot => match s.slots with
    | [] => none
    | call :: slots => some { s with backend := s.backend.called call, slots }
  | .update => match s.unread with
    | [] => none
    | u :: _ => some { s with
        view := (s.view.updated u).1, slots := s.slots ++ (s.view.updated u).2, read := s.read + 1 }
  | .requested requestId requester params =>
    if requestId = "" ∨ requestId ∈ s.requests then none
    else some { s with
      view := (s.view.requested requestId requester params).1
      slots := s.slots ++ (s.view.requested requestId requester params).2
      requests := requestId :: s.requests }
  | .confirmed =>
    if s.view.intentSendOpen && s.view.confirmEnabled then
      some { s with slots := s.slots ++ [.acceptIntentSend] }
    else none
  | .declined =>
    if s.view.intentSendOpen then
      some { s with view := s.view.declined.1, slots := s.slots ++ s.view.declined.2 }
    else none

end Desk

/-- The view and the backend. -/
def desk : Sys Desk DeskEvent where
  init s := s = {}
  step := Desk.step

end EthWalletUi
