import EthWalletUi.View.Desk
import EthWalletUi.Owed

/-!
# What an event publishes of the sends

* `Replica`: the send properties that an app's answer depends on, as the backend has them and as
  the view has them; `Emits`: what a handler appends to the feed is what it changed.
* `State.SendTurn`: what one event of the backend does to the sends.
-/

namespace EthWalletUi

open Qt Machine

/-! ## The properties that are replicated -/

structure Replica where
  pendingRequestId : String
  lastSendOutcomeJson : Text
  intentSendJson : Text

def Replica.write (r : Replica) : Update → Replica
  | .pendingRequestId value => { r with pendingRequestId := value }
  | .lastSendOutcome value _ => { r with lastSendOutcomeJson := value }
  | .intentSend value => { r with intentSendJson := value }
  | .pendingApprovalHandle _ | .intentSendPricing _ => r

/-- The request that a record, or a request handed to `reviewIntentSend`, names. -/
def recordId (t : Text) : String := ((parseObject t).value "requestId").toString

@[simp] theorem recordId_empty : recordId .empty = "" := rfl

/-- A record that says why it is refused. -/
def refused (t : Text) : Bool := (parseObject t).contains "error"

/-- The error a record is refused with. -/
def recordError (t : Text) : String := ((parseObject t).value "error").toString

/-- The updates that no answer rests on. -/
def Update.Quiet : Update → Prop
  | .pendingApprovalHandle _ | .intentSendPricing _ => True
  | _ => False

namespace View

variable (v : View)

def replica : Replica := ⟨v.pendingRequestId, v.lastSendOutcomeJson, v.intentSendJson⟩

@[simp] theorem replica_answerIntent (ok : Bool) (data : JsonObject) (error : String)
    (because : Because) : (v.answerIntent ok data error because).replica = v.replica := by
  unfold answerIntent
  split <;> rfl

@[simp] theorem replica_answerIntentFromOutcome :
    v.answerIntentFromOutcome.replica = v.replica := by
  simp only [answerIntentFromOutcome]
  split
  · rfl
  · exact replica_answerIntent ..

/-- The handlers write no property. -/
theorem replica_updated (u : Update) : (v.updated u).1.replica = v.replica.write u := by
  cases u with
  | pendingRequestId value =>
    simp only [updated, onPendingRequestIdChanged]
    split
    · rfl
    · split
      · rw [replica_answerIntentFromOutcome]
        rfl
      · rfl
  | pendingApprovalHandle | intentSendPricing => rfl
  | lastSendOutcome value ofSend =>
    simp only [updated, onLastSendOutcomeJsonChanged]
    split
    · rw [replica_answerIntentFromOutcome]
      rfl
    · rfl
  | intentSend value =>
    simp only [updated, onIntentSendJsonChanged]
    split
    · rfl
    · split
      · rfl
      · rw [replica_answerIntent]
        rfl

end View

/-! ## What a handler appends to the feed -/

namespace Send

variable (s : Send)

def replica : Replica := ⟨s.pendingRequestId, s.lastSendOutcomeJson, s.intentSendJson⟩

/-- The updates `us` are what was appended, and what was changed. -/
structure Emits (s s' : Send) (us : List Update) : Prop where
  outbox : s'.outbox = s.outbox ++ us
  replica : s'.replica = us.foldl Replica.write s.replica

theorem Emits.none {s s' : Send} (ho : s'.outbox = s.outbox) (hr : s'.replica = s.replica) :
    s.Emits s' [] := ⟨by rw [ho, List.append_nil], hr⟩

/-- What is appended depends on the properties alone. -/
theorem Emits.of_eq {s s' t t' : Send} {us : List Update} (h : t.Emits t' us)
    (ho : t.outbox = s.outbox) (hr : t.replica = s.replica) (h' : s' = t') : s.Emits s' us :=
  ⟨by rw [h', h.outbox, ho], by rw [h', h.replica, hr]⟩

theorem Emits.trans {s s' s'' : Send} {us vs : List Update} (h : s.Emits s' us)
    (h' : s'.Emits s'' vs) : s.Emits s'' (us ++ vs) :=
  ⟨by rw [h'.outbox, h.outbox, List.append_assoc], by
    rw [h'.replica, h.replica, List.foldl_append]⟩

/-- What a change-guarded setter appends. -/
def news {α : Type} [DecidableEq α] (old new : α) (u : Update) : List Update :=
  if new = old then [] else [u]

theorem Emits.unique {s s' : Send} {us vs : List Update} (h : s.Emits s' us) (h' : s.Emits s' vs) :
    us = vs := List.append_cancel_left (h.outbox.symm.trans h'.outbox)

theorem mem_news {α : Type} [DecidableEq α] {old new : α} {u u' : Update}
    (h : u' ∈ news old new u) : u' = u ∧ new ≠ old := by
  unfold news at h
  split at h
  · cases h
  · exact ⟨List.mem_singleton.mp h, ‹_›⟩

theorem setPendingRequestId_emits (value : String) : s.Emits (s.setPendingRequestId value)
    (news s.pendingRequestId value (.pendingRequestId value)) := by
  unfold setPendingRequestId news
  split
  · exact .none rfl rfl
  · exact ⟨rfl, rfl⟩

theorem setPendingApprovalHandle_emits (value : String) : s.Emits (s.setPendingApprovalHandle value)
    (news s.pendingApprovalHandle value (.pendingApprovalHandle value)) := by
  unfold setPendingApprovalHandle news
  split
  · exact .none rfl rfl
  · exact ⟨rfl, rfl⟩

theorem setLastSendOutcomeJson_emits (value : Text) (ofSend : String) :
    s.Emits (s.setLastSendOutcomeJson value ofSend)
      (news s.lastSendOutcomeJson value (.lastSendOutcome value ofSend)) := by
  unfold setLastSendOutcomeJson news
  split
  · exact .none rfl rfl
  · exact ⟨rfl, rfl⟩

theorem setIntentSendJson_emits (value : Text) : s.Emits (s.setIntentSendJson value)
    (news s.intentSendJson value (.intentSend value)) := by
  unfold setIntentSendJson news
  split
  · exact .none rfl rfl
  · exact ⟨rfl, rfl⟩

theorem setPrice_emits (price : WiredClaim) : s.Emits (s.setPrice price)
    (news s.price.loading price.loading (.intentSendPricing price.loading)) := by
  unfold setPrice news
  split
  · exact .none rfl rfl
  · exact ⟨rfl, rfl⟩

/-- A send starts: the old outcome, the handle, the id. -/
theorem start_emits (sent : SendApplied) : ∃ us, s.Emits (s.start sent) us ∧
    ∀ u ∈ us, u = .lastSendOutcome .empty "" ∨ u = .pendingApprovalHandle sent.handle ∨
      u = .pendingRequestId sent.requestId := by
  let s₁ := s.setLastSendOutcomeJson .empty ""
  let s₂ := s₁.setPendingApprovalHandle sent.handle
  have h := (s.setLastSendOutcomeJson_emits .empty "").trans
    ((s₁.setPendingApprovalHandle_emits sent.handle).trans
      (s₂.setPendingRequestId_emits sent.requestId))
  refine ⟨_, ⟨h.outbox, h.replica⟩, fun u hu => ?_⟩
  simp only [List.mem_append] at hu
  rcases hu with hu | hu | hu
  · exact .inl (mem_news hu).1
  · exact .inr (.inl (mem_news hu).1)
  · exact .inr (.inr (mem_news hu).1)

/-- A send settles: the outcome, the handle, the id. -/
theorem settle_emits (polled : SendPolled) (ofSend : String) : ∃ s₁ : Send,
    s.Emits (s.settle polled ofSend)
      (news s.lastSendOutcomeJson (toJsonCompact polled.outcome)
          (.lastSendOutcome (toJsonCompact polled.outcome) ofSend) ++
        (news s₁.pendingApprovalHandle "" (.pendingApprovalHandle "") ++
          news s.pendingRequestId "" (.pendingRequestId ""))) := by
  let s₀ : Send := { s with sendPoll := false }
  let s₁ := s₀.setLastSendOutcomeJson (toJsonCompact polled.outcome) ofSend
  let s₂ := s₁.setPendingApprovalHandle ""
  refine ⟨s₁, ?_⟩
  have hp : s₂.pendingRequestId = s.pendingRequestId := by simp [s₂, s₁, s₀]
  have h := (s₀.setLastSendOutcomeJson_emits (toJsonCompact polled.outcome) ofSend).trans
    ((s₁.setPendingApprovalHandle_emits "").trans (s₂.setPendingRequestId_emits ""))
  rw [hp] at h
  exact ⟨h.outbox, h.replica⟩

end Send

/-! ## What one event does to the sends -/

/-- What the review says of a refusal. -/
def senderRefusal (reply : Text) : String :=
  if reply.isEmpty then "the sender did not answer" else replyError reply

namespace State

variable (s : State)

/-- What a price for an app's request does: nothing once the claim has been taken over; else the
spinner stops, and the review of that request, if it is still open, takes the fee in. -/
theorem prepareReplied_cases (forRequest : String) (slot : Nat) (res : Option Text) :
    ∃ price : WiredClaim, price.flight = s.send.price.flight.release slot ∧
      (s.send.price.isCurrent slot = false ∧
        (s.prepareReplied forRequest slot res).send = { s.send with price } ∨
      s.send.price.isCurrent slot = true ∧ (recordId s.send.intentSendJson ≠ forRequest ∧
        (s.prepareReplied forRequest slot res).send = s.send.setPrice price ∨
      recordId s.send.intentSendJson = forRequest ∧
        ∃ key value, (key = "fee" ∨ key = "feeError") ∧
        (s.prepareReplied forRequest slot res).send =
          (s.send.setPrice price).setIntentSendJson
            (toJsonCompact (s.send.underReview.insert key value)))) := by
  let price := s.send.price.release slot
  have hload : price.loading = s.send.price.loading := rfl
  have hset : ({ s.send with price }).setIntentSendPricing false =
      s.send.setPrice { price with loading := false } := by
    unfold Send.setIntentSendPricing Send.setPrice
    rw [hload]
  have hrec : (s.send.setPrice { price with loading := false }).underReview =
      s.send.underReview := by
    simp [Send.underReview]
  have hcur : (s.send.price.release slot).isCurrent slot = s.send.price.isCurrent slot := by
    simp [WiredClaim.release, WiredClaim.isCurrent, InFlight.isCurrent]
  simp only [prepareReplied, hcur]
  cases hc : s.send.price.isCurrent slot with
  | false => exact ⟨price, rfl, .inl ⟨rfl, rfl⟩⟩
  | true =>
    refine ⟨{ price with loading := false }, rfl, .inr ⟨rfl, ?_⟩⟩
    simp only [Bool.not_true, Bool.false_eq_true, if_false]
    rw [hset, hrec]
    split
    · exact .inl ⟨‹_›, rfl⟩
    · rename_i hid
      refine .inr ⟨Decidable.not_not.mp hid, ?_⟩
      cases replyOk (res.getD .empty) with
      | true => exact ⟨"fee", _, .inl rfl, rfl⟩
      | false => exact ⟨"feeError", _, .inr rfl, rfl⟩

/-- What the sender's answer about an app's send does: nothing once the claim has been taken over;
else it is refused on the review, or becomes the pending send. -/
theorem sendReplied_cases (gen slot : Nat) (res : Option Text) :
    s.send.intentSend.isCurrent slot = false ∧ (s.sendReplied gen slot res).send =
      { s.send with intentSend := s.send.intentSend.release slot } ∨
    s.send.intentSend.isCurrent slot = true ∧
      (replyOk (res.getD .empty) = false ∧ (s.sendReplied gen slot res).send =
        { s.send with intentSend := s.send.intentSend.release slot }.setIntentSendJson
          (toJsonCompact (s.send.underReview.insert "sendError"
            (.str (senderRefusal (res.getD .empty))))) ∨
      replyOk (res.getD .empty) = true ∧ (s.sendReplied gen slot res).send =
        ({ s.send with intentSend := s.send.intentSend.release slot }.start
          { accepted := true
            requestId := ((parseObject (res.getD .empty)).value "requestId").toString
            handle := ((parseObject (res.getD .empty)).value "handle").toString }).setIntentSendJson
              .empty) := by
  have hcur : (s.send.intentSend.release slot).isCurrent slot = s.send.intentSend.isCurrent slot := by
    simp [InFlight.isCurrent]
  simp only [sendReplied, hcur]
  cases hc : s.send.intentSend.isCurrent slot with
  | false => exact .inl ⟨rfl, rfl⟩
  | true =>
    refine .inr ⟨rfl, ?_⟩
    cases hok : replyOk (res.getD .empty) with
    | false => exact .inl ⟨rfl, rfl⟩
    | true => exact .inr ⟨rfl, by simp [applySend_ok hok]⟩

end State

/-- What one event does to the sends, the slots of an app's request apart. -/
inductive Send.Turn (s : Send) : Option Heard → Send → Prop
  | idle {h : Option Heard} (sendPoll : Bool) :
      (∀ x, h = some x → x.accepted = none ∧ x.settled = none ∧ ∀ call res, x ≠ .sender call res) →
        Turn s h { s with sendPoll }
  | lapsed {price : WiredClaim} : price.flight = s.price.flight → Turn s none (s.setPrice price)
  | started {requestJson : Text} {gen : Nat} {under : Selection} {reply : Text}
      {requestId handle : String} : acceptedId reply = some requestId →
      Turn s (some (.returned (.send requestJson gen under) reply))
        (s.start { accepted := true, requestId, handle })
  | settled {frame : Frame} {reply : Text} {ofSend : String} :
      (Heard.returned frame reply).settled = some ofSend →
      Turn s (some (.returned frame reply)) (s.settle (sendPolled reply) ofSend)
  | prepared {i slot : Nat} {forRequest : String} {res : Option Text} {b : State} :
      s.calls[i]? = some (.prepare forRequest slot) →
      b.send = { s with calls := s.calls.eraseIdx i } →
      Turn s (some (.sender (.prepare forRequest slot) res))
        (b.prepareReplied forRequest slot res).send
  | replied {i gen slot : Nat} {forRequest : String} {request : JsonObject} {res : Option Text}
      {b : State} :
      s.calls[i]? = some (.send forRequest request gen slot) →
      b.send = { s with calls := s.calls.eraseIdx i } →
      Turn s (some (.sender (.send forRequest request gen slot) res))
        (b.sendReplied gen slot res).send

namespace Send.Turn

variable {s s' : Send} {heard : Option Heard}

/-- No event makes a call to the sender. -/
theorem calls (ht : s.Turn heard s') : s'.calls.Sublist s.calls := by
  cases ht with
  | idle | lapsed | started | settled => simp
  | @prepared i slot forRequest res b hc hb =>
    have herase : b.send.calls.Sublist s.calls := by
      rw [hb]
      exact List.eraseIdx_sublist ..
    obtain ⟨price, -, ⟨-, h⟩ | ⟨-, ⟨-, h⟩ | ⟨-, key, value, -, h⟩⟩⟩ :=
      b.prepareReplied_cases forRequest slot res <;> rw [h] <;> simpa using herase
  | @replied i gen slot forRequest request res b hc hb =>
    have herase : b.send.calls.Sublist s.calls := by
      rw [hb]
      exact List.eraseIdx_sublist ..
    rcases b.sendReplied_cases gen slot res with ⟨-, h⟩ | ⟨-, ⟨-, h⟩ | ⟨-, h⟩⟩ <;>
      rw [h] <;> simpa using herase

/-- What the sender answers was outstanding. -/
theorem outstanding (ht : s.Turn heard s') {call : SenderCall} {res : Option Text}
    (h : heard = some (.sender call res)) : call ∈ s.calls := by
  subst h
  cases ht with
  | idle sendPoll hx => exact absurd rfl ((hx _ rfl).2.2 call res)
  | prepared hc | replied hc => exact List.mem_of_getElem? hc

/-- No event takes a claim for a send. -/
theorem ticket (ht : s.Turn heard s') : s'.intentSend.ticket = s.intentSend.ticket := by
  cases ht with
  | idle | lapsed | started | settled => simp
  | @prepared i slot forRequest res b hc hb =>
    have hb' : b.send.intentSend.ticket = s.intentSend.ticket := by rw [hb]
    obtain ⟨price, -, ⟨-, h⟩ | ⟨-, ⟨-, h⟩ | ⟨-, key, value, -, h⟩⟩⟩ :=
      b.prepareReplied_cases forRequest slot res <;> rw [h] <;> simpa using hb'
  | @replied i gen slot forRequest request res b hc hb =>
    have hb' : b.send.intentSend.ticket = s.intentSend.ticket := by rw [hb]
    rcases b.sendReplied_cases gen slot res with ⟨-, h⟩ | ⟨-, ⟨-, h⟩ | ⟨-, h⟩⟩ <;>
      rw [h] <;> simpa using hb'

end Send.Turn

/-! ### What the answers of the sender publish -/

namespace Send

variable {s : Send} {b : State} {calls : List SenderCall}

/-- The record under review, annotated. -/
def Annotates (s : Send) (keys : List String) (u : Update) : Prop :=
  ∃ key ∈ keys, ∃ value, u = .intentSend (toJsonCompact (s.underReview.insert key value))

/-- A price is published in the record of its own request. -/
theorem prepareReplied_emits (hb : b.send = { s with calls }) (forRequest : String) (slot : Nat)
    (res : Option Text) : ∃ us, s.Emits (b.prepareReplied forRequest slot res).send us ∧
      ∀ u ∈ us, u.Quiet ∨
        recordId s.intentSendJson = forRequest ∧ s.Annotates ["fee", "feeError"] u := by
  have hsend : b.send.outbox = s.outbox ∧ b.send.replica = s.replica := by
    constructor <;> rw [hb]
    rfl
  have hrecord : b.send.underReview = s.underReview := by rw [underReview, hb, underReview]
  have hid : b.send.intentSendJson = s.intentSendJson := by rw [hb]
  obtain ⟨price, -, ⟨-, h⟩ | ⟨-, ⟨-, h⟩ | ⟨hfor, key, value, hkey, h⟩⟩⟩ :=
    b.prepareReplied_cases forRequest slot res
  · exact ⟨[], .none (by rw [h, hb]) (by rw [h, hb]; rfl), nofun⟩
  · refine ⟨_, (b.send.setPrice_emits price).of_eq hsend.1 hsend.2 h, fun u hu => .inl ?_⟩
    rw [(mem_news hu).1]
    trivial
  · have hem := (b.send.setPrice_emits price).trans
      ((b.send.setPrice price).setIntentSendJson_emits
        (toJsonCompact (b.send.underReview.insert key value)))
    refine ⟨_, hem.of_eq hsend.1 hsend.2 h, fun u hu => ?_⟩
    rcases List.mem_append.mp hu with hu | hu
    · rw [(mem_news hu).1]
      exact .inl trivial
    · refine .inr ⟨hid ▸ hfor, key, by simpa using hkey, value, ?_⟩
      rw [(mem_news hu).1, hrecord]

/-- An answer about an app's send is published in whatever record is there, or ends it as the send
becomes the pending one. -/
theorem sendReplied_emits (hb : b.send = { s with calls }) (gen slot : Nat) (res : Option Text) :
    s.intentSend.isCurrent slot = false ∧ s.Emits (b.sendReplied gen slot res).send [] ∨
    s.intentSend.isCurrent slot = true ∧
      ((∃ us, s.Emits (b.sendReplied gen slot res).send us ∧
        ∀ u ∈ us, s.Annotates ["sendError"] u) ∨
      ∃ id us started, acceptedId (res.getD .empty) = some id ∧ s.Emits started us ∧
        (∀ u ∈ us, u.Quiet ∨ u = .lastSendOutcome .empty "" ∨ u = .pendingRequestId id) ∧
        started.pendingRequestId = id ∧ started.lastSendOutcomeJson = .empty ∧
        s.Emits (b.sendReplied gen slot res).send
          (us ++ news started.intentSendJson .empty (.intentSend .empty))) := by
  let s₁ : Send := { b.send with intentSend := b.send.intentSend.release slot }
  have hs₁ : s₁.outbox = s.outbox ∧ s₁.replica = s.replica := by
    constructor
    · simp only [s₁, hb]
    · simp only [s₁, hb]
      rfl
  have hrecord : b.send.underReview = s.underReview := by rw [underReview, hb, underReview]
  have hclaim : b.send.intentSend.isCurrent slot = s.intentSend.isCurrent slot := by rw [hb]
  rw [← hclaim]
  rcases b.sendReplied_cases gen slot res with ⟨hcur, h⟩ | ⟨hcur, ⟨-, h⟩ | ⟨hok, h⟩⟩
  · exact .inl ⟨hcur, .none (by rw [h]; exact hs₁.1) (by rw [h]; exact hs₁.2)⟩
  · refine .inr ⟨hcur, .inl ⟨_, (s₁.setIntentSendJson_emits _).of_eq hs₁.1 hs₁.2 h, ?_⟩⟩
    intro u hu
    rw [(mem_news hu).1, hrecord]
    exact ⟨_, List.mem_singleton.mpr rfl, _, rfl⟩
  · let sent : SendApplied := {
      accepted := true
      requestId := ((parseObject (res.getD .empty)).value "requestId").toString
      handle := ((parseObject (res.getD .empty)).value "handle").toString }
    obtain ⟨us, hem, hus⟩ := s₁.start_emits sent
    refine .inr ⟨hcur, .inr ⟨sent.requestId, us, s₁.start sent, if_pos hok, ?_, ?_, ?_, ?_, ?_⟩⟩
    · exact hem.of_eq hs₁.1 hs₁.2 rfl
    · intro u hu
      rcases hus u hu with rfl | rfl | rfl
      · exact .inr (.inl rfl)
      · exact .inl trivial
      · exact .inr (.inr rfl)
    · simp
    · simp
    · exact (hem.trans ((s₁.start sent).setIntentSendJson_emits .empty)).of_eq hs₁.1 hs₁.2 h

end Send

namespace State

variable (s : State)

theorem resumed_turn (frame : Frame) (reply : Text) :
    s.send.Turn (some (.returned frame reply)) (s.resumed reply frame).send := by
  have hidle : ∀ {frame : Frame}, (Heard.returned frame reply).accepted = none →
      (Heard.returned frame reply).settled = none →
      s.send.Turn (some (.returned frame reply)) s.send := by
    intro frame ha hs
    refine .idle s.send.sendPoll ?_
    rintro x ⟨⟩
    exact ⟨ha, hs, nofun⟩
  cases frame with
  | send requestJson gen under =>
    have ha : (Heard.returned (.send requestJson gen under) reply).accepted =
      acceptedId reply := rfl
    cases hok : replyOk reply with
    | true =>
      simp only [resumed, sendReturned, applySend_ok hok, Bool.not_true, Bool.false_eq_true,
        if_false]
      exact .started (if_pos hok)
    | false =>
      rw [acceptedId, if_neg (by simp [hok])] at ha
      simp only [resumed, sendReturned, applySend_refused hok, Bool.not_false, if_true]
      exact hidle ha rfl
  | sendStatus requestId =>
    have hs : (Heard.returned (.sendStatus requestId) reply).settled =
        if (sendPolled reply).settled then some requestId else none := rfl
    simp only [resumed, statusReturned]
    cases hp : (sendPolled reply).settled with
    | true =>
      rw [if_pos hp] at hs
      exact .settled hs
    | false =>
      rw [if_neg (by simp [hp])] at hs
      exact hidle rfl hs
  | cancelSend requestId =>
    have hs : (Heard.returned (.cancelSend requestId) reply).settled =
        if (sendPolled reply).settled then some requestId else none := rfl
    simp only [resumed, cancelReturned]
    cases hp : (sendPolled reply).settled with
    | true =>
      rw [if_pos hp] at hs
      exact .settled hs
    | false =>
      rw [if_neg (by simp [hp])] at hs
      exact hidle rfl hs
  | _ => exact hidle rfl rfl

/-- The slots that no send rests on. -/
theorem called_idle {call : Slot} (hi : (Event.slot call).ofIntent = false) :
    ∃ sendPoll, (s.called call).send = { s.send with sendPoll } := by
  cases call
  case reviewIntentSend => cases hi
  case acceptIntentSend => cases hi
  case declineIntentSend => cases hi
  case submitSend => exact ⟨s.send.sendPoll, rfl⟩
  case cancelSend =>
    simp only [called, cancelSend]
    split <;> exact ⟨s.send.sendPoll, rfl⟩
  case pollSend =>
    simp only [called, pollSend]
    split
    · exact ⟨false, rfl⟩
    · exact ⟨s.send.sendPoll, rfl⟩
  all_goals
    refine ⟨s.send.sendPoll, ?_⟩
    simp only [called, onCore_send]

theorem ticked_idle {s s' : State} {poll : Poll} (h : s.ticked poll = some s') :
    ∃ sendPoll, s'.send = { s.send with sendPoll } := by
  cases ticked_cases h with
  | send => exact s.called_idle (show (Event.slot .pollSend).ofIntent = false from rfl)
  | settling => exact ⟨s.send.sendPoll, rfl⟩
  | accounts | pending | verified | quote => exact ⟨s.send.sendPoll, by rw [onCore_send]⟩

/-- Nothing is heard in a slot. -/
theorem called_log (call : Slot) : (s.called call).core.log = s.core.log := by
  simpa [heard] using (step_pending (s := s) (e := .slot call) rfl).1

/-- One event of the backend. -/
theorem step_sends {s s' : State} {e : Event} (hi : e.ofIntent = false)
    (h : s.step e = some s') : s.send.Turn (s.heard e) s'.send := by
  have hidle : ∀ s' : State, (∃ sendPoll, s'.send = { s.send with sendPoll }) →
      s.send.Turn none s'.send := by
    rintro s' ⟨sendPoll, hs⟩
    rw [hs]
    refine .idle sendPoll ?_
    rintro x ⟨⟩
  cases e with
  | slot call =>
    cases h
    exact hidle _ (s.called_idle hi)
  | signal what =>
    cases h
    exact hidle _ ⟨s.send.sendPoll, by rw [onCore_send]⟩
  | reply i res =>
    simp only [step, Option.map_eq_some_iff] at h
    obtain ⟨call, hc, rfl⟩ := h
    simp only [heard, hc, Option.map_some]
    refine .idle s.send.sendPoll ?_
    rintro x ⟨⟩
    refine ⟨rfl, rfl, ?_⟩
    rintro call' res' ⟨⟩
  | senderReply i res =>
    simp only [step, Option.map_eq_some_iff] at h
    obtain ⟨call, hc, rfl⟩ := h
    simp only [heard, hc, Option.map_some]
    cases call with
    | prepare forRequest slot => exact .prepared hc rfl
    | send forRequest request gen slot => exact .replied hc rfl
  | returned reply =>
    simp only [step] at h
    split at h
    · rename_i frame stack hs
      cases h
      simp only [heard, hs, List.head?_cons, Option.map_some]
      let s₁ : State := (s.hear (.returned frame reply)).onCore fun c => { c with stack }
      exact s₁.resumed_turn frame reply
    · cases h
  | tick poll => exact hidle _ (ticked_idle h)
  | soon i =>
    simp only [step, Option.map_eq_some_iff] at h
    obtain ⟨what, hw, rfl⟩ := h
    let s₁ : State := s.onCore fun c => { c with soon := c.soon.eraseIdx i }
    cases what with
    | pollSend =>
      have hpoll : (Event.slot .pollSend).ofIntent = false := rfl
      exact hidle _ (s₁.called_idle hpoll)
    | refresh | loadBalancesAndHistory =>
      exact hidle _ ⟨s.send.sendPoll, by simp only [queued, onCore_send]⟩
  | lapse guard i =>
    cases guard <;> simp only [step, lapsed, Option.map_eq_some_iff] at h <;>
      obtain ⟨w, hw, rfl⟩ := h
    case price => exact .lapsed (WiredClaim.lapsed_flight hw)
    all_goals exact hidle _ ⟨s.send.sendPoll, rfl⟩
  | elapse ms =>
    cases h
    exact hidle _ ⟨s.send.sendPoll, by rw [onCore_send]⟩

end State

/-! ## What a slot of an app's request does to the sends -/

/-- A record that the backend may write for a request: its review, or why it is refused. -/
structure RecordFor (requestId : String) (t : Text) : Prop where
  requestId : recordId t = requestId
  error : recordError t = "" ∧ refused t = false ∨
    refused t = true ∧ (recordError t = "bad_request" ∨ recordError t = "busy")

theorem parseObject_compact (o : JsonObject) : parseObject (toJsonCompact o) = o := rfl

theorem refused_iff (t : Text) :
    refused t = true ↔ (parseObject t).value "error" ≠ none := by
  simp [refused, JsonObject.contains, Option.isSome_iff_ne_none]

/-- A member other than the id and the error changes neither. -/
theorem recordId_insert (o : JsonObject) {key : String} (value : Json) (h : key ≠ "requestId") :
    recordId (toJsonCompact (o.insert key value)) = recordId (toJsonCompact o) := by
  simp only [recordId, parseObject_compact]
  rw [JsonObject.value_insert_ne _ _ h.symm]

theorem refused_insert (o : JsonObject) {key : String} (value : Json) (h : key ≠ "error") :
    refused (toJsonCompact (o.insert key value)) = refused (toJsonCompact o) := by
  have hv : (o.insert key value).value "error" = o.value "error" :=
    JsonObject.value_insert_ne _ _ h.symm
  rw [Bool.eq_iff_iff, refused_iff, refused_iff, parseObject_compact, parseObject_compact, hv]

/-- An annotation changes neither the request of the record nor its error. -/
theorem Send.Annotates.record {s : Send} {keys : List String} {t : Text}
    (h : s.Annotates keys (.intentSend t)) (hid : "requestId" ∉ keys) (herror : "error" ∉ keys) :
    recordId t = recordId s.intentSendJson ∧ refused t = refused s.intentSendJson ∧
      recordError t = recordError s.intentSendJson := by
  obtain ⟨key, hkey, value, heq⟩ := h
  cases heq
  have hne : key ≠ "requestId" := fun h => hid (h ▸ hkey)
  have hne' : key ≠ "error" := fun h => herror (h ▸ hkey)
  refine ⟨recordId_insert _ _ hne, refused_insert _ _ hne', ?_⟩
  rw [recordError, parseObject_compact, JsonObject.value_insert_ne _ _ hne'.symm]
  rfl

namespace State

variable (s : State)

/-- What `checkIntent` answers: a code, or a review under the request's own id. -/
theorem checkIntent_cases (requestJson : Text) :
    (s.checkIntent requestJson).Refused ∨
      (s.checkIntent requestJson).Reviewed (recordId requestJson) :=
  checkIntentSend_cases ..

theorem reviewIntentSend_cases (requestJson : Text) :
    ∃ t, RecordFor (recordId requestJson) t ∧
      ((s.reviewIntentSend requestJson).send = s.send.setIntentSendJson t ∨
      recordId requestJson ≠ "" ∧ ∃ price slot, (s.reviewIntentSend requestJson).send =
        { (s.send.setIntentSendJson t).setPrice price with
          calls := s.send.calls ++ [.prepare (recordId requestJson) slot] }) := by
  rcases s.checkIntent_cases requestJson with ⟨hok, herr⟩ | ⟨hok, hne, hid, hno⟩
  · simp only [reviewIntentSend, hok, Bool.not_false, if_true]
    refine ⟨toJsonCompact [("requestId", .str (recordId requestJson)),
      ("requester", .str ((parseObject requestJson).value "requester").toString),
      ("error", .str (s.checkIntent requestJson).error),
      ("detail", .str (s.checkIntent requestJson).detail)], ?_, .inl rfl⟩
    exact ⟨rfl, .inr ⟨rfl, herr⟩⟩
  · have hrecord : RecordFor (recordId requestJson)
        (toJsonCompact (s.checkIntent requestJson).review) := by
      have hnone : (s.checkIntent requestJson).review.value "error" = none := by
        simpa [JsonObject.contains] using hno
      refine ⟨?_, .inl ⟨?_, hno⟩⟩
      · rw [recordId, parseObject_compact, hid]
        rfl
      · rw [recordError, parseObject_compact, hnone]
        rfl
    refine ⟨_, hrecord, ?_⟩
    simp only [reviewIntentSend, hok, Bool.not_true, Bool.false_eq_true, if_false, hid]
    split
    · exact .inl rfl
    · rename_i price slot _
      have hcalls : ((s.send.setIntentSendJson
          (toJsonCompact (s.checkIntent requestJson).review)).setPrice price).calls =
          s.send.calls := by simp
      refine .inr ⟨hne, price, slot, ?_⟩
      rw [hcalls]
      rfl

/-- An accept does nothing, or refuses the record under review, or takes the claim, and calls the
sender for that record's request unless the check now refuses it. -/
theorem acceptIntentSend_cases :
    s.acceptIntentSend.send = s.send ∨
    s.send.intentSendJson ≠ .empty ∧ ∃ intentSend : InFlight,
      intentSend.ticket = s.send.intentSend.ticket + 1 ∧
      ((∃ t, RecordFor (recordId s.send.intentSendJson) t ∧ refused t = true ∧
        s.acceptIntentSend.send = { s.send with intentSend }.setIntentSendJson t) ∨
      ∃ request gen, s.acceptIntentSend.send = { s.send with
        intentSend
        calls := s.send.calls ++
          [.send (recordId s.send.intentSendJson) request gen intentSend.ticket] }) := by
  simp only [acceptIntentSend]
  split
  · exact .inl rfl
  · rename_i hrec
    simp only [Bool.or_eq_true, not_or, Bool.not_eq_true] at hrec
    have hne : s.send.intentSendJson ≠ .empty := by
      intro he
      simp [Send.underReview, he, parseObject] at hrec
    split
    · exact .inl rfl
    · rename_i intentSend slot htake
      obtain ⟨-, hslot, hclaim⟩ := InFlight.take_some htake
      subst hslot hclaim
      refine .inr ⟨hne, ?_⟩
      split
      · rename_i hok
        have herr : (s.checkIntent (recheckRequest s.send.underReview)).error = "bad_request" ∨
            (s.checkIntent (recheckRequest s.send.underReview)).error = "busy" := by
          rcases s.checkIntent_cases (recheckRequest s.send.underReview) with h | h
          · exact h.2
          · rw [h.1] at hok
            cases hok
        let review := s.send.underReview.insert "error"
          (.str (s.checkIntent (recheckRequest s.send.underReview)).error)
        let record := review.insert "detail"
          (.str (s.checkIntent (recheckRequest s.send.underReview)).detail)
        have herror : record.value "error" =
            some (.str (s.checkIntent (recheckRequest s.send.underReview)).error) := by
          rw [JsonObject.value_insert_ne _ _ (by decide), JsonObject.value_insert_self]
        have hrefused : refused (toJsonCompact record) = true := by
          rw [refused_iff, parseObject_compact, herror]
          exact Option.some_ne_none _
        have hid : recordId (toJsonCompact record) = recordId s.send.intentSendJson := by
          rw [recordId_insert _ _ (by decide), recordId_insert _ _ (by decide)]
          rfl
        have hcode : recordError (toJsonCompact record) =
            (s.checkIntent (recheckRequest s.send.underReview)).error := by
          rw [recordError, parseObject_compact, herror]
          rfl
        refine ⟨_, InFlight.release_ticket _ _, .inl ⟨_, ⟨hid, .inr ⟨hrefused, ?_⟩⟩, hrefused, rfl⟩⟩
        rw [hcode]
        exact herr
      · exact ⟨_, rfl, .inr ⟨_, _, rfl⟩⟩

/-! ### What each of them publishes -/

theorem reviewIntentSend_emits (requestJson : Text) : ∃ t us,
    RecordFor (recordId requestJson) t ∧ (∀ u ∈ us, u.Quiet) ∧
      s.send.Emits (s.reviewIntentSend requestJson).send
        (Send.news s.send.intentSendJson t (.intentSend t) ++ us) := by
  obtain ⟨t, ht, h | ⟨-, price, slot, h⟩⟩ := s.reviewIntentSend_cases requestJson
  · refine ⟨t, [], ht, nofun, ?_⟩
    rw [List.append_nil, h]
    exact s.send.setIntentSendJson_emits t
  · have hem := (s.send.setIntentSendJson_emits t).trans
      ((s.send.setIntentSendJson t).setPrice_emits price)
    have hem' : s.send.Emits (s.reviewIntentSend requestJson).send _ :=
      ⟨by rw [h]; exact hem.outbox, by rw [h]; exact hem.replica⟩
    refine ⟨t, _, ht, ?_, hem'⟩
    intro u hu
    rw [(Send.mem_news hu).1]
    trivial

theorem acceptIntentSend_emits : ∃ us, s.send.Emits s.acceptIntentSend.send us ∧ ∀ u ∈ us,
    s.send.intentSendJson ≠ .empty ∧ ∃ t, u = .intentSend t ∧
      RecordFor (recordId s.send.intentSendJson) t ∧ refused t = true := by
  rcases s.acceptIntentSend_cases with h | ⟨hne, intentSend, -, ⟨t, ht, hr, h⟩ | ⟨request, gen, h⟩⟩
  · exact ⟨[], .none (by rw [h]) (by rw [h]), nofun⟩
  · refine ⟨_, (Send.setIntentSendJson_emits { s.send with intentSend } t).of_eq rfl rfl h, ?_⟩
    intro u hu
    exact ⟨hne, t, (Send.mem_news hu).1, ht, hr⟩
  · exact ⟨[], .none (by rw [h]) (by rw [h]; rfl), nofun⟩

theorem declineIntentSend_emits : ∃ us, (∀ u ∈ us, u.Quiet) ∧
    s.send.Emits s.declineIntentSend.send
      (us ++ Send.news s.send.intentSendJson .empty (.intentSend .empty)) := by
  let priced := s.send.setIntentSendPricing false
  have hrecord : priced.intentSendJson = s.send.intentSendJson := Send.setPrice_intentSendJson ..
  have hem := (s.send.setPrice_emits { s.send.price with loading := false }).trans
    (priced.setIntentSendJson_emits .empty)
  rw [hrecord] at hem
  refine ⟨_, ?_, hem⟩
  intro u hu
  rw [(Send.mem_news hu).1]
  trivial

end State

end EthWalletUi
