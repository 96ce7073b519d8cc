import EthWalletUi.View.Sends

/-!
# The request under review

One record holds the app's request under review. Two calls of the sender are made for it, one to
price it and one to send it, and another request may take the record over while either is
outstanding.

* `State.reply_own_iff`: the price of a request is written on its own review only. The answer to a
  send is not checked against the record: it closes, or annotates, whatever is under review.
* `State.priced_iff`: a review opened while another one is being priced is not priced, as the claim
  on the pricing is still held; what is shown then has neither a fee nor a reason.
-/

namespace EthWalletUi

open Qt Machine

/-- The request a call was made for. -/
def SenderCall.forRequest : SenderCall → String
  | .prepare forRequest _ => forRequest
  | .send forRequest _ _ _ => forRequest

def SenderCall.isPrepare : SenderCall → Bool
  | .prepare .. => true
  | .send .. => false

@[simp] theorem SenderCall.isPrepare_prepare (forRequest : String) (slot : Nat) :
    (prepare forRequest slot).isPrepare = true := rfl

@[simp] theorem SenderCall.isPrepare_send (forRequest : String) (request : JsonObject)
    (gen slot : Nat) : (send forRequest request gen slot).isPrepare = false := rfl

/-! ## A reply and the record of another request -/

namespace Send

variable (s : Send)

/-- The record is empty, or a document that the backend has written. -/
def Written : Prop := s.intentSendJson = .empty ∨ s.intentSendJson = toJsonCompact s.underReview

theorem written_set (o : JsonObject) : (s.setIntentSendJson (toJsonCompact o)).Written := by
  refine .inr ?_
  rw [Send.underReview, setIntentSendJson_intentSendJson, parseObject_compact]

theorem written_empty : (s.setIntentSendJson .empty).Written :=
  .inl (s.setIntentSendJson_intentSendJson .empty)

variable {s}

theorem Written.of_eq {s' : Send} (h : s.Written) (he : s'.intentSendJson = s.intentSendJson) :
    s'.Written := by
  rw [Written, underReview, he]
  exact h

theorem Written.turn {s' : Send} {heard : Option Heard} (h : s.Written) (ht : s.Turn heard s') :
    s'.Written := by
  cases ht with
  | idle => exact h.of_eq rfl
  | lapsed => exact h.of_eq (by simp)
  | started => exact h.of_eq (by simp)
  | settled => exact h.of_eq (by simp)
  | @prepared i slot forRequest res b hc hb =>
    have hj : b.send.intentSendJson = s.intentSendJson := by rw [hb]
    obtain ⟨price, -, ⟨-, h'⟩ | ⟨-, ⟨-, h'⟩ | ⟨-, key, value, -, h'⟩⟩⟩ :=
      b.prepareReplied_cases forRequest slot res <;> rw [h']
    · exact h.of_eq hj
    · exact h.of_eq (by simpa using hj)
    · exact written_set _ _
  | @replied i gen slot forRequest request res b hc hb =>
    have hj : b.send.intentSendJson = s.intentSendJson := by rw [hb]
    rcases b.sendReplied_cases gen slot res with ⟨-, h'⟩ | ⟨-, ⟨-, h'⟩ | ⟨-, h'⟩⟩ <;> rw [h']
    · exact h.of_eq hj
    · exact written_set _ _
    · exact written_empty _

end Send

namespace State

variable (s : State)

theorem written_called {call : Slot} (h : s.send.Written)
    (hi : (Event.slot call).ofIntent = true) : (s.called call).send.Written := by
  cases call
  case reviewIntentSend requestJson =>
    simp only [called, reviewIntentSend]
    split
    · exact Send.written_set _ _
    · split
      · exact Send.written_set _ _
      · exact (s.send.written_set (s.checkIntent requestJson).review).of_eq (by simp)
  case acceptIntentSend =>
    simp only [called, acceptIntentSend]
    split
    · exact h
    · split
      · exact h
      · split
        · exact Send.written_set _ _
        · exact h.of_eq rfl
  case declineIntentSend => exact Send.written_empty _
  all_goals cases hi

variable {s}

theorem reach_written (h : backend.Reach s) : s.send.Written := by
  refine h.induct (I := fun s => s.send.Written) ?_ ?_
  · rintro s rfl
    exact .inl rfl
  · intro s e s' _ hw _ hs
    cases hi : e.ofIntent with
    | false => exact hw.turn (step_sends hi hs)
    | true =>
      cases e
      case slot call =>
        cases hs
        exact s.written_called hw hi
      all_goals cases hi

variable (s)

/-- The answer to a call leaves the record of another request alone: the call is for a price, or its
claim has been taken over, or the record is that of its request, or there is nothing to close, or
the refusal stands there already. -/
def leavesOthers (call : SenderCall) (res : Option Text) : Bool :=
  match call with
  | .prepare .. => true
  | .send forRequest _ _ slot =>
    !s.send.intentSend.isCurrent slot || recordId s.send.intentSendJson == forRequest ||
      if replyOk (res.getD .empty) then s.send.intentSendJson.isEmpty
      else s.send.underReview.value "sendError" == some (.str (senderRefusal (res.getD .empty)))

variable {s}

theorem reply_own_iff {s' : State} {i : Nat} {call : SenderCall} {res : Option Text}
    (h : backend.Reach s) (hc : s.send.calls[i]? = some call)
    (hs : s.step (.senderReply i res) = some s') :
    (s'.send.intentSendJson ≠ s.send.intentSendJson →
      recordId s.send.intentSendJson = call.forRequest) ↔ s.leavesOthers call res = true := by
  simp only [step, hc, Option.map_some, Option.some.injEq] at hs
  subst hs
  let b : State := { s.hear (.sender call res) with
    send := { s.send with calls := s.send.calls.eraseIdx i } }
  show ((b.senderReplied res call).send.intentSendJson ≠ s.send.intentSendJson → _) ↔ _
  have hkept : (b.senderReplied res call).send.intentSendJson = s.send.intentSendJson →
      s.leavesOthers call res = true →
      (((b.senderReplied res call).send.intentSendJson ≠ s.send.intentSendJson →
        recordId s.send.intentSendJson = call.forRequest) ↔ s.leavesOthers call res = true) :=
    fun he hl => ⟨fun _ => hl, fun _ hne => absurd he hne⟩
  cases call with
  | prepare forRequest slot =>
    obtain ⟨price, -, ⟨-, h'⟩ | ⟨-, ⟨-, h'⟩ | ⟨hfor, key, value, -, h'⟩⟩⟩ :=
      b.prepareReplied_cases forRequest slot res
    · have hjson := congrArg Send.intentSendJson h'
      exact hkept hjson rfl
    · have hjson := congrArg Send.intentSendJson h'
      rw [Send.setPrice_intentSendJson] at hjson
      exact hkept hjson rfl
    · exact ⟨fun _ => rfl, fun _ _ => hfor⟩
  | send forRequest request gen slot =>
    have hor : s.leavesOthers (.send forRequest request gen slot) res = true ↔
        s.send.intentSend.isCurrent slot = false ∨ recordId s.send.intentSendJson = forRequest ∨
        (if replyOk (res.getD .empty) then s.send.intentSendJson.isEmpty
          else s.send.underReview.value "sendError" ==
            some (.str (senderRefusal (res.getD .empty)))) = true := by
      simp only [leavesOthers, Bool.or_eq_true, Bool.not_eq_true', beq_iff_eq, or_assoc]
    rcases b.sendReplied_cases gen slot res with ⟨hstale, h'⟩ | ⟨hcur, ⟨hok, h'⟩ | ⟨hok, h'⟩⟩
    · have hjson := congrArg Send.intentSendJson h'
      exact hkept hjson (hor.mpr (.inl hstale))
    all_goals
      have hcur' : s.send.intentSend.isCurrent slot = true := hcur
      have hjson := congrArg Send.intentSendJson h'
      rw [Send.setIntentSendJson_intentSendJson] at hjson
      rw [hor, hcur', hok]
    · -- The refusal is put on whatever record there is.
      have hsame : (b.sendReplied gen slot res).send.intentSendJson = s.send.intentSendJson ↔
          s.send.underReview.value "sendError" =
            some (.str (senderRefusal (res.getD .empty))) := by
        rw [hjson]
        constructor
        · intro he
          have hrec : s.send.underReview =
              b.send.underReview.insert "sendError" (.str (senderRefusal (res.getD .empty))) := by
            rw [Send.underReview, ← he, parseObject_compact]
          rw [hrec, JsonObject.value_insert_self]
        · intro hv
          have hrec : b.send.underReview = s.send.underReview := rfl
          rw [hrec, JsonObject.insert_eq_self hv]
          refine ((reach_written h).resolve_left fun hempty => ?_).symm
          rw [Send.underReview, hempty] at hv
          cases hv
      simp only [Bool.true_eq_false, false_or, Bool.false_eq_true, if_false, beq_iff_eq, ← hsame]
      exact Decidable.or_iff_not_imp_left.symm.trans or_comm
    · -- The record is closed.
      have hsame : (b.sendReplied gen slot res).send.intentSendJson = s.send.intentSendJson ↔
          s.send.intentSendJson.isEmpty = true := by
        rw [hjson, Text.isEmpty_iff]
        exact eq_comm
      simp only [Bool.true_eq_false, false_or, if_true, ← hsame]
      exact Decidable.or_iff_not_imp_left.symm.trans or_comm

/-- An app's request to send a tip. -/
def tipFor (requestId : String) : Text :=
  toJsonCompact [("requestId", .str requestId), ("requester", .str "app"),
    ("params", .obj [("purpose", .str "a tip"),
      ("calls", .arr [.obj [("to", .str "0x1111111111111111111111111111111111111111")]])])]

/-- The request is accepted, and its send is outstanding. -/
def tipAccepted : List Event :=
  opened ++ [.slot (.reviewIntentSend (tipFor "r1")), .slot .acceptIntentSend]

/-- The answer to it refuses. -/
theorem reply_own_iff_refused :
    recordId (after tipAccepted).send.intentSendJson = "r1" := by
  have hc : ((after tipAccepted).send.calls[1]?).isSome = true := by decide +kernel
  obtain ⟨call, hc⟩ := Option.isSome_iff_exists.mp hc
  have hfor : ((after tipAccepted).send.calls[1]?).map (·.forRequest) = some "r1" := by
    decide +kernel
  have hs : ((after tipAccepted).step (.senderReply 1 none)).isSome = true := by decide +kernel
  obtain ⟨s', hs⟩ := Option.isSome_iff_exists.mp hs
  have hl : ((after tipAccepted).send.calls[1]?).map ((after tipAccepted).leavesOthers · none) =
      some true := by decide +kernel
  have hmoved : ((after tipAccepted).step (.senderReply 1 none)).map
      (·.send.intentSendJson == (after tipAccepted).send.intentSendJson) = some false := by
    decide +kernel
  rw [hc] at hfor hl
  rw [hs] at hmoved
  have hne : s'.send.intentSendJson ≠ (after tipAccepted).send.intentSendJson := by
    simpa using hmoved
  have hown := (reply_own_iff (reach_after tipAccepted (by decide +kernel)) hc hs).mpr
    (Option.some.inj hl) hne
  rw [hown]
  exact Option.some.inj hfor

/-- The request is declined while its send is outstanding, and another one is opened. -/
def tipDisplaced : List Event :=
  tipAccepted ++ [.slot .declineIntentSend, .slot (.reviewIntentSend (tipFor "r2"))]

/-- The answer to the first request's send closes the review of the second. -/
theorem reply_closes_other : ¬∀ s, backend.Reach s → ∀ i call res s',
    s.send.calls[i]? = some call → s.step (.senderReply i res) = some s' →
    s'.send.intentSendJson ≠ s.send.intentSendJson →
    recordId s.send.intentSendJson = call.forRequest := by
  intro h
  have hreach := reach_after tipDisplaced (by decide +kernel)
  have hc : ((after tipDisplaced).send.calls[1]?).isSome = true := by decide +kernel
  obtain ⟨call, hc⟩ := Option.isSome_iff_exists.mp hc
  let sent : Option Text := some (okReply [("requestId", .str "B")])
  have hs : ((after tipDisplaced).step (.senderReply 1 sent)).isSome = true := by decide +kernel
  obtain ⟨s', hs⟩ := Option.isSome_iff_exists.mp hs
  have hmoved : ((after tipDisplaced).step (.senderReply 1 sent)).map
      (·.send.intentSendJson == (after tipDisplaced).send.intentSendJson) = some false := by
    decide +kernel
  rw [hs] at hmoved
  have hown := h _ hreach 1 call sent s' hc hs (by simpa using hmoved)
  have hother : ((after tipDisplaced).send.calls[1]?).map
      (fun call => recordId (after tipDisplaced).send.intentSendJson == call.forRequest) =
        some false := by decide +kernel
  rw [hc] at hother
  simp [hown] at hother

end State

/-! ## The price of the request under review -/

namespace Send

variable (s : Send)

/-- The pricing calls outstanding. -/
def priceCalls : List SenderCall := s.calls.filter SenderCall.isPrepare

/-- A review is open, and it was not refused. -/
def openReview : Bool := !s.underReview.isEmpty && !s.underReview.contains "error"

/-- The fee, or why there is none. -/
def saysFee : Bool := s.underReview.contains "fee" || s.underReview.contains "feeError"

/-- An open review is priced, or is being priced, or says why it is not. -/
def priced : Bool := !s.priceCalls.isEmpty || !s.openReview || s.saysFee

/-- The claim on the pricing is that of the one call outstanding, and has not lapsed. -/
structure Pricing (now : Nat) : Prop where
  one : s.priceCalls.length ≤ 1
  live : ∀ forRequest slot, .prepare forRequest slot ∈ s.priceCalls →
    s.price.flight.held = true ∧ slot = s.price.flight.ticket ∧ now < s.price.flight.deadline
  held : s.price.flight.held = true → s.priceCalls ≠ []

variable {s} {s' : Send} {now : Nat}

theorem Pricing.congr (h : s.Pricing now) (hc : s'.priceCalls = s.priceCalls)
    (hp : s'.price.flight = s.price.flight) : s'.Pricing now :=
  ⟨hc ▸ h.one, hc ▸ hp ▸ h.live, hc ▸ hp ▸ h.held⟩

theorem priced_congr (hc : s'.priceCalls = s.priceCalls)
    (hj : s'.intentSendJson = s.intentSendJson) : s'.priced = s.priced := by
  simp only [priced, openReview, saysFee, underReview, hc, hj]

theorem priceCalls_of_calls (h : s'.calls = s.calls) : s'.priceCalls = s.priceCalls := by
  rw [priceCalls, h, priceCalls]

theorem Pricing.idle (h : s.Pricing now) (hc : s'.calls = s.calls) (hp : s'.price = s.price) :
    s'.Pricing now := h.congr (priceCalls_of_calls hc) (by rw [hp])

/-- No call is outstanding once the claim is free: its claim would be live. -/
theorem Pricing.none_of_free (h : s.Pricing now) (hfree : s.price.flight.busy now = false) :
    s.priceCalls = [] := by
  cases hcalls : s.priceCalls with
  | nil => rfl
  | cons call calls =>
    have hmem : call ∈ s.priceCalls := hcalls ▸ List.mem_cons_self ..
    cases call with
    | prepare forRequest slot =>
      obtain ⟨hheld, -, hlt⟩ := h.live forRequest slot hmem
      simp [InFlight.busy, hheld, hlt] at hfree
    | send => exact absurd (List.mem_filter.mp hmem).2 Bool.false_ne_true

/-- The answer to a pricing call leaves none outstanding. -/
theorem Pricing.answered (h : s.Pricing now) {i slot : Nat} {forRequest : String}
    (hc : s.calls[i]? = some (.prepare forRequest slot)) :
    (s.calls.eraseIdx i).filter SenderCall.isPrepare = [] ∧ slot = s.price.flight.ticket := by
  have hlen := length_filter_eraseIdx (p := SenderCall.isPrepare) hc rfl
  have hone := h.one
  unfold priceCalls at hone
  have hmem := List.mem_filter.mpr ⟨List.mem_of_getElem? hc, (rfl : (SenderCall.prepare forRequest
    slot).isPrepare = true)⟩
  exact ⟨List.length_eq_zero_iff.mp (by omega), (h.live forRequest slot hmem).2.1⟩

theorem Pricing.turn {heard : Option Heard} (h : s.Pricing now) (ht : s.Turn heard s') :
    s'.Pricing now := by
  cases ht with
  | idle => exact h.idle rfl rfl
  | lapsed hp => exact h.congr (priceCalls_of_calls (by simp)) (by simpa using hp)
  | started => exact h.idle (by simp) (by simp)
  | settled => exact h.idle (by simp) (by simp)
  | @prepared i slot forRequest res b hc hb =>
    obtain ⟨hnil, hslot⟩ := h.answered hc
    have hcalls : b.send.calls.filter SenderCall.isPrepare = [] := by rw [hb]; exact hnil
    have hclaim : b.send.price = s.price := by rw [hb]
    have hnone : ∀ t : Send, t.calls = b.send.calls →
        t.price.flight = b.send.price.flight.release slot → t.Pricing now := by
      intro t ht hp
      have htnil : t.priceCalls = [] := by rw [priceCalls, ht, hcalls]
      refine ⟨by simp [htnil], by simp [htnil], fun hheld => ?_⟩
      rw [hp, hclaim, hslot, InFlight.release_self] at hheld
      cases hheld
    obtain ⟨price, hp, ⟨-, h'⟩ | ⟨-, ⟨-, h'⟩ | ⟨-, key, value, -, h'⟩⟩⟩ :=
      b.prepareReplied_cases forRequest slot res <;> rw [h']
    · exact hnone _ rfl hp
    · exact hnone _ (by simp) (by simpa using hp)
    · exact hnone _ (by simp) (by simpa using hp)
  | @replied i gen slot forRequest request res b hc hb =>
    have hcalls : b.send.priceCalls = s.priceCalls := by
      rw [priceCalls, hb]
      exact filter_eraseIdx_of_not hc nofun
    have hclaim : b.send.price = s.price := by rw [hb]
    have hb' : b.send.Pricing now := h.congr hcalls (by rw [hclaim])
    rcases b.sendReplied_cases gen slot res with ⟨-, h'⟩ | ⟨-, ⟨-, h'⟩ | ⟨-, h'⟩⟩ <;> rw [h']
    · exact hb'.idle rfl rfl
    · exact hb'.idle (by simp) (by simp)
    · exact hb'.idle (by simp) (by simp)

/-- Only an answer of the sender moves the record and its pricing. -/
theorem Turn.priced_eq {heard : Option Heard} (ht : s.Turn heard s')
    (hne : ∀ call res, heard ≠ some (.sender call res)) : s'.priced = s.priced := by
  cases ht with
  | idle => exact priced_congr rfl rfl
  | lapsed => exact priced_congr (priceCalls_of_calls (by simp)) (by simp)
  | started => exact priced_congr (priceCalls_of_calls (by simp)) (by simp)
  | settled => exact priced_congr (priceCalls_of_calls (by simp)) (by simp)
  | prepared | replied => exact absurd rfl (hne _ _)

end Send

namespace State

variable {s s' : State} {e : Event}

theorem reviewIntentSend_pricing (h : s.send.Pricing s.core.now) (requestJson : Text) :
    (s.reviewIntentSend requestJson).send.Pricing s.core.now ∧
      (s.reviewIntentSend requestJson).send.priced = true := by
  cases hok : (s.checkIntent requestJson).ok with
  | false =>
    simp only [reviewIntentSend, hok, Bool.not_false, if_true]
    refine ⟨h.idle (by simp) (by simp), ?_⟩
    simp [Send.priced, Send.openReview, Send.underReview, parseObject_compact,
      JsonObject.contains, JsonObject.value_cons]
  | true =>
    simp only [reviewIntentSend, hok, Bool.not_true, Bool.false_eq_true, if_false]
    let record := toJsonCompact (s.checkIntent requestJson).review
    have hprice : (s.send.setIntentSendJson record).price = s.send.price := by simp
    rcases s.send.price.beginClaim_cases s.core.now 1 kSendCallBudgetMs with
      ⟨hfree, hb⟩ | ⟨hbusy, hb⟩
    · rw [hprice, hb]
      have hcalls : s.send.calls.filter SenderCall.isPrepare = [] := h.none_of_free hfree
      have hlast : ∀ call : SenderCall, call.isPrepare = true →
          (s.send.calls ++ [call]).filter SenderCall.isPrepare = [call] := by
        intro call hprep
        rw [List.filter_append, hcalls, List.nil_append, List.filter_cons_of_pos hprep,
          List.filter_nil]
      refine ⟨⟨?_, ?_, ?_⟩, ?_⟩
      · simp only [Send.priceCalls, Send.setPrice_calls, Send.setIntentSendJson_calls]
        rw [hlast _ rfl]
        exact Nat.le_refl 1
      · intro forRequest slot hmem
        have hin : SenderCall.prepare forRequest slot = .prepare
            (((s.checkIntent requestJson).review.value "requestId").toString)
              (s.send.price.flight.ticket + 1) := by
          simpa [Send.priceCalls, hcalls] using hmem
        cases hin
        have hlt := lt_guardBudgetMs 1 kSendCallBudgetMs
        simp only [Send.setPrice_price, true_and]
        omega
      · intro _
        simp [Send.priceCalls, hcalls]
      · simp [Send.priced, Send.priceCalls, hcalls]
    · rw [hprice, hb]
      have hidle : (s.send.setIntentSendJson record).Pricing s.core.now :=
        h.idle (by simp) (by simp)
      refine ⟨hidle, ?_⟩
      have hheld : (s.send.setIntentSendJson record).price.flight.held = true := by
        rw [hprice]
        simp only [InFlight.busy, Bool.and_eq_true] at hbusy
        exact hbusy.1
      have hne := hidle.held hheld
      simp [Send.priced, record] at hne ⊢
      simp [hne]

theorem acceptIntentSend_pricing (h : s.send.Pricing s.core.now) (hp : s.send.priced = true) :
    s.acceptIntentSend.send.Pricing s.core.now ∧ s.acceptIntentSend.send.priced = true := by
  rcases s.acceptIntentSend_cases with
    he | ⟨-, intentSend, -, ⟨t, -, href, he⟩ | ⟨request, gen, he⟩⟩
  all_goals rw [he]
  · exact ⟨h, hp⟩
  · refine ⟨h.idle (by simp) (by simp), ?_⟩
    have herr : (parseObject t).contains "error" = true := href
    simp [Send.priced, Send.openReview, Send.underReview, herr]
  · let t : Send := { s.send with
      intentSend
      calls := s.send.calls ++
        [.send (recordId s.send.intentSendJson) request gen intentSend.ticket] }
    have hcalls : t.priceCalls = s.send.priceCalls := by simp [t, Send.priceCalls]
    exact ⟨h.congr hcalls rfl, (Send.priced_congr hcalls rfl).trans hp⟩

theorem declineIntentSend_pricing (h : s.send.Pricing s.core.now) :
    s.declineIntentSend.send.Pricing s.core.now ∧ s.declineIntentSend.send.priced = true := by
  refine ⟨?_, ?_⟩
  · refine h.congr (Send.priceCalls_of_calls ?_) ?_
    · simp [declineIntentSend, Send.setIntentSendPricing]
    · simp [declineIntentSend, Send.setIntentSendPricing]
  · simp [declineIntentSend, Send.priced, Send.openReview, Send.underReview, parseObject]

variable (s)

/-- Every pricing call is answered before its claim lapses. -/
def pricedInTime : Event → Bool
  | .elapse ms => s.send.priceCalls.isEmpty || s.core.now + ms < s.send.price.flight.deadline
  | _ => true

/-- A price comes while no other request's review is open without one; a send is not refused on a
record that is no longer there. -/
def pricesOpen : Event → Bool
  | .senderReply i res => match s.send.calls[i]? with
    | some (.prepare forRequest _) =>
      !s.send.openReview || s.send.saysFee || recordId s.send.intentSendJson == forRequest
    | some (.send _ _ _ slot) =>
      !s.send.intentSend.isCurrent slot || replyOk (res.getD .empty) ||
        !s.send.underReview.isEmpty || !s.send.priceCalls.isEmpty
    | none => true
  | _ => true

variable {s}

/-- A price that comes is for the review that is open, unless that one has been priced already. -/
theorem prepareReplied_priced (h : s.send.Pricing s.core.now) {i slot : Nat} {forRequest : String}
    (hc : s.send.calls[i]? = some (.prepare forRequest slot)) {b : State}
    (hb : b.send = { s.send with calls := s.send.calls.eraseIdx i }) (res : Option Text) :
    (b.prepareReplied forRequest slot res).send.priced = true ↔
      (!s.send.openReview || s.send.saysFee || recordId s.send.intentSendJson == forRequest) =
        true := by
  obtain ⟨hnil, hslot⟩ := h.answered hc
  have hcalls : b.send.calls.filter SenderCall.isPrepare = [] := by rw [hb]; exact hnil
  have hrecord : b.send.intentSendJson = s.send.intentSendJson := by rw [hb]
  have hcur : b.send.price.isCurrent slot = true := by
    rw [hb, hslot]
    simp [WiredClaim.isCurrent, InFlight.isCurrent]
  obtain ⟨price, -, ⟨hstale, -⟩ | ⟨-, ⟨hfor, h'⟩ | ⟨hfor, key, value, hkey, h'⟩⟩⟩ :=
    b.prepareReplied_cases forRequest slot res
  · rw [hcur] at hstale
    cases hstale
  · have hne : (recordId s.send.intentSendJson == forRequest) = false := by
      rw [← hrecord]
      exact beq_eq_false_iff_ne.mpr hfor
    have hunder : (b.send.setPrice price).underReview = s.send.underReview := by
      simp [Send.underReview, hrecord]
    rw [h', hne]
    simp [Send.priced, Send.priceCalls, hcalls, Send.openReview, Send.saysFee, hunder]
  · have heq : (recordId s.send.intentSendJson == forRequest) = true := by
      rw [← hrecord]
      exact beq_iff_eq.mpr hfor
    rw [h', heq, Bool.or_true]
    rcases hkey with rfl | rfl <;>
      simp [Send.priced, Send.saysFee, Send.underReview, parseObject_compact, JsonObject.contains]

/-- A send that is refused on a record that has gone opens one that says nothing of a fee. -/
theorem sendReplied_priced (hp : s.send.priced = true) {i gen slot : Nat} {forRequest : String}
    {request : JsonObject} (hc : s.send.calls[i]? = some (.send forRequest request gen slot))
    {b : State} (hb : b.send = { s.send with calls := s.send.calls.eraseIdx i })
    (res : Option Text) : (b.sendReplied gen slot res).send.priced = true ↔
      (!s.send.intentSend.isCurrent slot || replyOk (res.getD .empty) ||
        !s.send.underReview.isEmpty || !s.send.priceCalls.isEmpty) = true := by
  have hcalls : b.send.priceCalls = s.send.priceCalls := by
    rw [Send.priceCalls, hb]
    exact filter_eraseIdx_of_not hc nofun
  have hrecord : b.send.intentSendJson = s.send.intentSendJson := by rw [hb]
  have hunder : b.send.underReview = s.send.underReview := by
    rw [Send.underReview, hrecord, Send.underReview]
  have hclaim : b.send.intentSend = s.send.intentSend := by rw [hb]
  rcases b.sendReplied_cases gen slot res with ⟨hstale, h'⟩ | ⟨hcur, ⟨hok, h'⟩ | ⟨hok, h'⟩⟩
  · rw [hclaim] at hstale
    rw [h', hstale]
    have hsame : ({ b.send with intentSend := b.send.intentSend.release slot } : Send).priced =
        s.send.priced := Send.priced_congr hcalls hrecord
    rw [hsame, hp]
    simp
  · rw [hclaim] at hcur
    rw [h', hcur, hok, hunder]
    let t : Send := { b.send with intentSend := b.send.intentSend.release slot }.setIntentSendJson
      (toJsonCompact (s.send.underReview.insert "sendError" (.str (senderRefusal (res.getD .empty)))))
    have htcalls : t.priceCalls = s.send.priceCalls :=
      (Send.priceCalls_of_calls (s := b.send) (by simp [t])).trans hcalls
    have htunder : t.underReview = s.send.underReview.insert "sendError"
        (.str (senderRefusal (res.getD .empty))) := by
      simp [t, Send.underReview, parseObject_compact]
    have hmember : ∀ k, k ≠ "sendError" →
        t.underReview.contains k = s.send.underReview.contains k := by
      intro k hk
      rw [htunder, JsonObject.contains, JsonObject.value_insert_ne _ _ hk, JsonObject.contains]
    have hshown : t.underReview.isEmpty = false := by simp [htunder]
    show t.priced = true ↔ _
    simp only [Send.priced, Send.openReview, Send.saysFee, htcalls, hshown,
      hmember "error" (by decide), hmember "fee" (by decide), hmember "feeError" (by decide)]
      at hp ⊢
    cases hrec : s.send.underReview with
    | nil => simp [JsonObject.contains]
    | cons m o =>
      rw [hrec] at hp
      simpa using hp
  · rw [h', hok, Bool.or_true]
    simp [Send.priced, Send.openReview, Send.underReview, parseObject]

theorem pricing_step (h : s.send.Pricing s.core.now) (hp : s.send.priced = true)
    (ht : s.pricedInTime e = true) (hs : s.step e = some s') :
    s'.send.Pricing s'.core.now ∧ (s'.send.priced = true ↔ s.pricesOpen e = true) := by
  have hrest : ∀ heard, s.send.Turn heard s'.send → (∀ call res, heard ≠ some (.sender call res)) →
      s'.core.now = s.core.now → s.pricesOpen e = true →
      s'.send.Pricing s'.core.now ∧ (s'.send.priced = true ↔ s.pricesOpen e = true) := by
    intro heard hturn hne hnow ho
    refine ⟨hnow ▸ h.turn hturn, ?_⟩
    rw [hturn.priced_eq hne, hp, ho]
  cases e with
  | elapse ms =>
    cases hs
    refine ⟨⟨h.one, fun forRequest slot hm => ?_, h.held⟩,
      by rw [onCore_send, hp]; simp [pricesOpen]⟩
    obtain ⟨hheld, hslot, -⟩ := h.live forRequest slot hm
    simp only [pricedInTime, Bool.or_eq_true, List.isEmpty_iff, decide_eq_true_eq] at ht
    exact ⟨hheld, hslot, ht.resolve_left (List.ne_nil_of_mem hm)⟩
  | senderReply i res =>
    have hturn := step_sends rfl hs
    refine ⟨step_now hs (by simp) ▸ h.turn hturn, ?_⟩
    simp only [step, Option.map_eq_some_iff] at hs
    obtain ⟨call, hc, rfl⟩ := hs
    cases call with
    | prepare forRequest slot =>
      simp only [pricesOpen, hc]
      exact prepareReplied_priced h hc rfl res
    | send forRequest request gen slot =>
      simp only [pricesOpen, hc]
      exact sendReplied_priced hp hc rfl res
  | slot call =>
    have hnow := step_now hs (by simp)
    cases hi : (Event.slot call).ofIntent with
    | false => exact hrest none (step_sends hi hs) (by simp) hnow rfl
    | true =>
      cases hs
      rw [hnow]
      have hcalled : (s.called call).send.Pricing s.core.now ∧
          (s.called call).send.priced = true := by
        cases call
        case reviewIntentSend requestJson => exact reviewIntentSend_pricing h requestJson
        case acceptIntentSend => exact acceptIntentSend_pricing h hp
        case declineIntentSend => exact declineIntentSend_pricing h
        all_goals cases hi
      exact ⟨hcalled.1, fun _ => rfl, fun _ => hcalled.2⟩
  | reply i res =>
    refine hrest _ (step_sends rfl hs) ?_ (step_now hs (by simp)) rfl
    intro call res hheard
    simp only [heard, Option.map_eq_some_iff] at hheard
    obtain ⟨_, -, hreply⟩ := hheard
    cases hreply
  | returned reply =>
    refine hrest _ (step_sends rfl hs) ?_ (step_now hs (by simp)) rfl
    intro call res hheard
    simp only [heard, Option.map_eq_some_iff] at hheard
    obtain ⟨_, -, hreturned⟩ := hheard
    cases hreturned
  | signal | tick | soon | lapse =>
    exact hrest none (step_sends rfl hs) (by simp) (step_now hs (by simp)) rfl

/-- In every run whose pricing calls are answered in time an open review is priced, or is being
priced, or says why not, until a price comes for another review than the one that is open. -/
theorem priced_iff
    (h : backend.Runs (fun s e => s.pricedInTime e = true ∧ s.pricesOpen e = true) s) :
    s.send.priced = true ∧ ∀ e s', s.pricedInTime e = true → s.step e = some s' →
      (s'.send.priced = true ↔ s.pricesOpen e = true) := by
  have hinv : s.send.Pricing s.core.now ∧ s.send.priced = true := by
    refine h.induct (I := fun s => s.send.Pricing s.core.now ∧ s.send.priced = true) ?_ ?_
    · rintro s rfl
      exact ⟨⟨Nat.zero_le _, nofun, nofun⟩, rfl⟩
    · intro s e s' _ ih hc hs
      obtain ⟨hpricing, hiff⟩ := pricing_step ih.1 ih.2 hc.1 hs
      exact ⟨hpricing, hiff.mpr hc.2⟩
  exact ⟨hinv.2, fun e s' ht hs => (pricing_step hinv.1 hinv.2 ht hs).2⟩

/-- A request is priced, then declined; the next one is priced as well. -/
def tipsPriced : List Event :=
  opened ++ [.slot (.reviewIntentSend (tipFor "r1")), .senderReply 0 (some (okReply [])),
    .slot .declineIntentSend, .slot (.reviewIntentSend (tipFor "r2")), .senderReply 0 none]

theorem priced_iff_tipsPriced : (after tipsPriced).send.priced = true ∧
    (after tipsPriced).send.priceCalls = [] ∧ (after tipsPriced).send.openReview = true := by
  obtain ⟨s, hs⟩ := Option.isSome_iff_exists.mp
    (show (backend.exec .ready tipsPriced).isSome = true by decide +kernel)
  have hinit : backend.Runs (fun s e => s.pricedInTime e = true ∧ s.pricesOpen e = true) .ready :=
    .init rfl
  have hruns := hinit.exec tipsPriced (by decide +kernel) hs
  have hafter : after tipsPriced = s := by rw [after, hs, Option.getD_some]
  exact ⟨hafter ▸ (priced_iff hruns).1, by decide +kernel, by decide +kernel⟩

/-- A request is declined while it is being priced, and the next one comes before the price. -/
def tipsCrossed : List Event :=
  opened ++ [.slot (.reviewIntentSend (tipFor "r1")), .slot .declineIntentSend,
    .slot (.reviewIntentSend (tipFor "r2")), .senderReply 0 (some (okReply []))]

theorem review_unpriced :
    ¬∀ s, backend.Runs (fun s e => s.pricedInTime e = true) s → s.send.priced = true := by
  intro h
  obtain ⟨s, hs⟩ := Option.isSome_iff_exists.mp
    (show (backend.exec .ready tipsCrossed).isSome = true by decide +kernel)
  have hinit : backend.Runs (fun s e => s.pricedInTime e = true) .ready := .init rfl
  have hruns := hinit.exec tipsCrossed (by decide +kernel) hs
  have hafter : after tipsCrossed = s := by rw [after, hs, Option.getD_some]
  exact absurd (h s hruns) (by rw [← hafter]; decide +kernel)

end State

end EthWalletUi
