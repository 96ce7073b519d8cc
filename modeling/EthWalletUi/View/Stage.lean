import EthWalletUi.View.Sends
import EthWalletUi.Machine.Feed

/-!
# How far an app's request has come

The view answers the request it holds with whatever outcome it finds when no send is pending and no
review is up, and it acts on what the backend published a while ago. So where its request stands is
said of the view as it will be once it has read every update (`Machine.Leads`).

* `View.Stage`: not reviewed, under review, sent.
* `View.Held`: what the view will make of the updates it has not read.
* `Stage.turn`, `Stage.slot`: an event of the backend, and a slot call of the view that reaches it.
-/

namespace EthWalletUi

open Qt Machine

def hasStatus (t : Text) : Bool := (parseObject t).contains "status"

/-- How the send of an outcome ended. -/
def outcomeStatus (t : Text) : String := ((parseObject t).value "status").toString

theorem hasStatus_polled {reply : Text} (h : (sendPolled reply).settled = true) :
    hasStatus (toJsonCompact (sendPolled reply).outcome) = true := sendPolled_status h

/-- What settles a send is final. -/
theorem Heard.settled_final {frame : Frame} {reply : Text} {ofSend : String}
    (h : (Heard.returned frame reply).settled = some ofSend) : (sendPolled reply).settled = true := by
  cases frame with
  | sendStatus | cancelSend =>
    simp only [Heard.settled] at h
    split at h
    · assumption
    · cases h
  | _ => cases h

namespace View

variable (v : View)

/-! ## Reading one update -/

def read (u : Update) : View := (v.updated u).1

/-- The updates at which the view answers with the outcome. -/
def settles : Update → Bool
  | .pendingRequestId value =>
    value.isEmpty && v.intentSendRequestId != "" && !v.lastSendOutcomeJson.isEmpty &&
      !v.intentSendOpen
  | .lastSendOutcome value _ =>
    !value.isEmpty && v.intentSendRequestId != "" && !v.sendPending && !v.intentSendOpen
  | _ => false

theorem answerIntent_held {v : View} (h : v.intentSendRequestId ≠ "") (ok : Bool)
    (data : JsonObject) (error : String) (because : Because) :
    v.answerIntent ok data error because = { v with
      intentSendRequestId := ""
      answers := ⟨v.intentSendRequestId, ok, data, error, because⟩ :: v.answers } := if_neg h

/-- A view that holds no request answers nothing. -/
theorem updated_idle {v : View} (h : v.intentSendRequestId = "") (u : Update) :
    (v.read u).intentSendRequestId = "" ∧ (v.read u).answers = v.answers ∧ (v.updated u).2 = [] := by
  cases u with
  | pendingRequestId value =>
    simp [read, updated, onPendingRequestIdChanged, h]
  | pendingApprovalHandle | intentSendPricing => exact ⟨h, rfl, rfl⟩
  | lastSendOutcome value ofSend =>
    simp [read, updated, onLastSendOutcomeJsonChanged, h]
  | intentSend value =>
    simp [read, updated, onIntentSendJsonChanged, h]

/-- What the view answered with, and why. -/
theorem answerIntentFromOutcome_cases {v : View} (h : v.intentSendRequestId ≠ "") :
    v.answerIntentFromOutcome = v ∧ hasStatus v.lastSendOutcomeJson = false ∨
    v.answerIntentFromOutcome.intentSendRequestId = "" ∧
      v.answerIntentFromOutcome.outcomeOf = v.outcomeOf ∧
      ∃ a : Answer, v.answerIntentFromOutcome.answers = a :: v.answers ∧
        a.requestId = v.intentSendRequestId ∧ a.because = .settled v.outcomeOf ∧
        (a.error = "" ∨ a.error = outcomeStatus v.lastSendOutcomeJson) := by
  simp only [answerIntentFromOutcome]
  split
  · rename_i hno
    exact .inl ⟨rfl, by simpa [hasStatus] using hno⟩
  · rw [answerIntent_held h]
    refine .inr ⟨rfl, rfl, _, rfl, rfl, rfl, ?_⟩
    show (if _ then _ else _) = _ ∨ (if _ then _ else _) = _
    split
    · exact .inl rfl
    · exact .inr rfl

theorem onPendingRequestIdChanged_cases :
    v.onPendingRequestIdChanged = v ∨ v.settles (.pendingRequestId v.pendingRequestId) = true ∧
      v.onPendingRequestIdChanged = v.answerIntentFromOutcome := by
  unfold onPendingRequestIdChanged
  split
  · exact .inl rfl
  · rename_i hp
    split
    · rename_i hs
      have hp' : v.pendingRequestId.isEmpty = true := by simpa [sendPending] using hp
      refine .inr ⟨?_, rfl⟩
      simpa only [settles, hp', Bool.true_and] using hs
    · exact .inl rfl

theorem onLastSendOutcomeJsonChanged_cases :
    v.onLastSendOutcomeJsonChanged = v ∨
      v.settles (.lastSendOutcome v.lastSendOutcomeJson v.outcomeOf) = true ∧
        v.onLastSendOutcomeJsonChanged = v.answerIntentFromOutcome := by
  unfold onLastSendOutcomeJsonChanged
  split
  · rename_i hs
    exact .inr ⟨hs, rfl⟩
  · exact .inl rfl

/-- A view that holds a request keeps it or answers it: with the outcome of a send that has settled,
or with the error of a record. -/
theorem updated_cases {v : View} (h : v.intentSendRequestId ≠ "") (u : Update) :
    (v.read u).intentSendRequestId = v.intentSendRequestId ∧ (v.read u).answers = v.answers ∧
      (v.updated u).2 = [] ∨
    (v.read u).intentSendRequestId = "" ∧ ∃ a : Answer, (v.read u).answers = a :: v.answers ∧
      a.requestId = v.intentSendRequestId ∧
      (v.settles u = true ∧ a.because = .settled (v.read u).outcomeOf ∧
        (a.error = "" ∨ a.error = outcomeStatus (v.replica.write u).lastSendOutcomeJson) ∧
        (v.updated u).2 = [] ∨
      a.because = .refused ∧ (∃ t, u = .intentSend t ∧ refused t = true ∧ a.error = recordError t) ∧
        (v.updated u).2 = [.declineIntentSend]) := by
  cases u with
  | pendingApprovalHandle | intentSendPricing => exact .inl ⟨rfl, rfl, rfl⟩
  | pendingRequestId value =>
    let w : View := { v with pendingRequestId := value }
    have hread : v.read (.pendingRequestId value) = w.onPendingRequestIdChanged := rfl
    rcases w.onPendingRequestIdChanged_cases with hw | ⟨hs, hw⟩ <;> rw [hread, hw]
    · exact .inl ⟨rfl, rfl, rfl⟩
    · rcases answerIntentFromOutcome_cases (v := w) h with ⟨ha, -⟩ | ⟨hid, hof, a, ha, hr, hb, he⟩
      · rw [ha]
        exact .inl ⟨rfl, rfl, rfl⟩
      · exact .inr ⟨hid, a, ha, hr, .inl ⟨hs, by rw [hb, hof], he, rfl⟩⟩
  | lastSendOutcome value ofSend =>
    let w : View := { v with lastSendOutcomeJson := value, outcomeOf := ofSend }
    have hread : v.read (.lastSendOutcome value ofSend) = w.onLastSendOutcomeJsonChanged := rfl
    rcases w.onLastSendOutcomeJsonChanged_cases with hw | ⟨hs, hw⟩ <;> rw [hread, hw]
    · exact .inl ⟨rfl, rfl, rfl⟩
    · rcases answerIntentFromOutcome_cases (v := w) h with ⟨ha, -⟩ | ⟨hid, hof, a, ha, hr, hb, he⟩
      · rw [ha]
        exact .inl ⟨rfl, rfl, rfl⟩
      · exact .inr ⟨hid, a, ha, hr, .inl ⟨hs, by rw [hb, hof], he, rfl⟩⟩
  | intentSend value =>
    simp only [read, updated, onIntentSendJsonChanged]
    split
    · exact .inl ⟨rfl, rfl, rfl⟩
    · rename_i he
      simp only [Bool.or_eq_true, decide_eq_true_eq, not_or, Bool.not_eq_true', Bool.not_eq_false]
        at he
      split
      · exact .inl ⟨rfl, rfl, rfl⟩
      · rw [answerIntent_held (by exact h)]
        exact .inr ⟨rfl, _, rfl, rfl, .inr ⟨rfl, ⟨value, rfl, he.1, rfl⟩, rfl⟩⟩

theorem answerIntent_reviewed (ok : Bool) (data : JsonObject) (error : String)
    (because : Because) : (v.answerIntent ok data error because).reviewed = v.reviewed := by
  unfold answerIntent
  split <;> rfl

theorem answerIntent_outcomeOf (ok : Bool) (data : JsonObject) (error : String)
    (because : Because) : (v.answerIntent ok data error because).outcomeOf = v.outcomeOf := by
  unfold answerIntent
  split <;> rfl

theorem answerIntentFromOutcome_outcomeOf : v.answerIntentFromOutcome.outcomeOf = v.outcomeOf := by
  simp only [answerIntentFromOutcome]
  split
  · rfl
  · exact answerIntent_outcomeOf ..

theorem answerIntentFromOutcome_reviewed : v.answerIntentFromOutcome.reviewed = v.reviewed := by
  simp only [answerIntentFromOutcome]
  split
  · rfl
  · exact answerIntent_reviewed ..

/-- The request has come back reviewed once a record of it has been read. -/
theorem read_reviewed (u : Update) : (v.read u).reviewed = (v.reviewed ||
    match u with
    | .intentSend t => recordId t == v.intentSendRequestId
    | _ => false) := by
  cases u with
  | pendingApprovalHandle | intentSendPricing => simp [read, updated]
  | pendingRequestId value =>
    let w : View := { v with pendingRequestId := value }
    have hread : v.read (.pendingRequestId value) = w.onPendingRequestIdChanged := rfl
    rw [hread, Bool.or_false]
    rcases w.onPendingRequestIdChanged_cases with hw | ⟨-, hw⟩ <;> rw [hw]
    exact answerIntentFromOutcome_reviewed w
  | lastSendOutcome value ofSend =>
    let w : View := { v with lastSendOutcomeJson := value, outcomeOf := ofSend }
    have hread : v.read (.lastSendOutcome value ofSend) = w.onLastSendOutcomeJsonChanged := rfl
    rw [hread, Bool.or_false]
    rcases w.onLastSendOutcomeJsonChanged_cases with hw | ⟨-, hw⟩ <;> rw [hw]
    exact answerIntentFromOutcome_reviewed w
  | intentSend value =>
    simp only [read, updated, onIntentSendJsonChanged]
    split
    · rfl
    · split
      · rfl
      · exact answerIntent_reviewed ..

theorem read_record (u : Update) : (v.read u).intentSendJson =
    match u with
    | .intentSend t => t
    | _ => v.intentSendJson := by
  have h : (v.read u).intentSendJson = (v.replica.write u).intentSendJson :=
    congrArg Replica.intentSendJson (v.replica_updated u)
  rw [h]
  cases u <;> rfl

/-- The outcome that a handler of the update reads, and the send it is of. -/
def outcomeRead : Update → Text × String
  | .lastSendOutcome value ofSend => (value, ofSend)
  | _ => (v.lastSendOutcomeJson, v.outcomeOf)

theorem read_outcome (u : Update) : (v.read u).lastSendOutcomeJson = (v.outcomeRead u).1 ∧
    (v.read u).outcomeOf = (v.outcomeRead u).2 := by
  have hjson : (v.read u).lastSendOutcomeJson = (v.replica.write u).lastSendOutcomeJson :=
    congrArg Replica.lastSendOutcomeJson (v.replica_updated u)
  refine ⟨?_, ?_⟩
  · rw [hjson]
    cases u <;> rfl
  · cases u with
    | pendingApprovalHandle | intentSendPricing => rfl
    | pendingRequestId value =>
      let w : View := { v with pendingRequestId := value }
      have hread : v.read (.pendingRequestId value) = w.onPendingRequestIdChanged := rfl
      rw [hread]
      rcases w.onPendingRequestIdChanged_cases with hw | ⟨-, hw⟩ <;> rw [hw]
      · rfl
      · exact answerIntentFromOutcome_outcomeOf w
    | lastSendOutcome value ofSend =>
      let w : View := { v with lastSendOutcomeJson := value, outcomeOf := ofSend }
      have hread : v.read (.lastSendOutcome value ofSend) = w.onLastSendOutcomeJsonChanged := rfl
      rw [hread]
      rcases w.onLastSendOutcomeJsonChanged_cases with hw | ⟨-, hw⟩ <;> rw [hw]
      · rfl
      · exact answerIntentFromOutcome_outcomeOf w
    | intentSend value =>
      simp only [read, updated, onIntentSendJsonChanged]
      split
      · rfl
      · split
        · rfl
        · exact answerIntent_outcomeOf ..

/-- A request that arrives moves no property. -/
theorem requested_shows (requestId requester : String) (params : Json) :
    (v.requested requestId requester params).1.replica = v.replica ∧
      (v.requested requestId requester params).1.outcomeOf = v.outcomeOf := by
  simp only [requested]
  split
  · exact ⟨replica_answerIntent .., answerIntent_outcomeOf ..⟩
  · exact ⟨rfl, rfl⟩

/-! ## What the view will make of its feed -/

/-- The view answers the request it holds; with an outcome only of a send that is its `own`, once
the request has been reviewed. -/
def Answers (own : String → String → Prop) (v : View) (u : Update) : Prop :=
  (v.read u).intentSendRequestId = "" ∧ (v.settles u = true → v.reviewed = true →
    own v.intentSendRequestId (v.read u).outcomeOf)

/-- Reading `us`, the view answers the request it holds, or comes to hold it in a state with `K`. -/
abbrev Held (own : String → String → Prop) (K : View → Prop) (v : View) (us : List Update) : Prop :=
  Leads View.read (fun v u => (v.read u).intentSendRequestId = v.intentSendRequestId) (Answers own)
    K v us

section Reading

variable {own : String → String → Prop} {R : String} {v : View} {us : List Update}

/-- While its review has not come back no update is read as being about the request. -/
theorem waiting_reads (hR : R ≠ "") (hid : v.intentSendRequestId = R) (hrev : v.reviewed = false)
    (hrec : recordId v.intentSendJson ≠ R) (hus : ∀ t, .intentSend t ∈ us → recordId t ≠ R) :
    Held own (fun v => v.intentSendRequestId = R ∧ v.reviewed = false ∧
      recordId v.intentSendJson ≠ R) v us := by
  refine Leads.of_forall ⟨hid, hrev, hrec⟩ ?_
  rintro w ⟨hid, hrev, hrec⟩ u hu
  have hne : w.intentSendRequestId ≠ "" := hid.symm ▸ hR
  rcases updated_cases hne u with ⟨hkeep, -, -⟩ | ⟨hgone, -⟩
  · refine .inr ⟨hkeep, hkeep.trans hid, ?_, ?_⟩
    · rw [read_reviewed, hrev, Bool.false_or, hid]
      cases u with
      | intentSend t => exact beq_false_of_ne (hus t hu)
      | _ => rfl
    · rw [read_record]
      cases u with
      | intentSend t => exact hus t hu
      | _ => exact hrec
  · exact .inl ⟨hgone, fun _ h => by rw [hrev] at h; cases h⟩

/-- An open review is answered by no update, and stays open under records that are not refused. -/
theorem reviewing_reads (hR : R ≠ "") (hid : v.intentSendRequestId = R) (hrev : v.reviewed = true)
    (hrec : recordId v.intentSendJson = R) (hopen : refused v.intentSendJson = false)
    (hus : ∀ t, .intentSend t ∈ us → recordId t = R ∧ refused t = false) :
    Held own (fun v => v.intentSendRequestId = R ∧ v.reviewed = true ∧
      recordId v.intentSendJson = R ∧ refused v.intentSendJson = false) v us := by
  refine Leads.of_forall ⟨hid, hrev, hrec, hopen⟩ ?_
  rintro w ⟨hid, hrev, hrec, hopen⟩ u hu
  have hne : w.intentSendRequestId ≠ "" := hid.symm ▸ hR
  have hup : w.intentSendOpen = true := by
    have hfull : w.intentSendJson.isEmpty = false := by
      cases h : w.intentSendJson with
      | empty =>
        rw [h, recordId_empty] at hrec
        exact absurd hrec.symm hR
      | text => rfl
    have hno : w.intentSend.contains "error" = false := hopen
    simp only [intentSendOpen, hfull, hno, Bool.not_false, Bool.and_true]
  refine .inr ?_
  rcases updated_cases hne u with ⟨hkeep, -, -⟩ | ⟨-, a, -, -, ⟨hs, -⟩ | ⟨-, ⟨t, rfl, ht, -⟩, -⟩⟩
  · refine ⟨hkeep, hkeep.trans hid, ?_, ?_⟩
    · rw [read_reviewed, hrev, Bool.true_or]
    · rw [read_record]
      cases u with
      | intentSend t => exact hus t hu
      | _ => exact ⟨hrec, hopen⟩
  · cases u <;> simp [settles, hup] at hs
  · rw [(hus t hu).2] at ht
    cases ht

end Reading

end View

/-! ## How far the request held has come -/

/-- No call to the sender is outstanding under the claim in force. -/
def Send.NoCurrent (s : Send) : Prop := ∀ forRequest request gen slot,
  .send forRequest request gen slot ∈ s.calls → s.intentSend.isCurrent slot = false

/-- The claim ticket of a call that sends. -/
def SenderCall.ticket : SenderCall → Option Nat
  | .send _ _ _ slot => some slot
  | .prepare .. => none

/-- Each outstanding call that sends has a ticket of its own, and each price is for a request. -/
structure Send.CallsOk (s : Send) : Prop where
  tickets : (s.calls.filterMap SenderCall.ticket).Nodup
  issued : ∀ slot ∈ s.calls.filterMap SenderCall.ticket, slot ≤ s.intentSend.ticket
  prepared : ∀ forRequest slot, .prepare forRequest slot ∈ s.calls → forRequest ≠ ""

theorem Send.noCurrent_iff (s : Send) : s.NoCurrent ↔
    s.intentSend.ticket ∉ s.calls.filterMap SenderCall.ticket := by
  constructor
  · intro h hm
    obtain ⟨call, hc, ht⟩ := List.mem_filterMap.mp hm
    cases call with
    | prepare => cases ht
    | send r req gen slot =>
      cases ht
      have := h r req gen _ hc
      simp [InFlight.isCurrent] at this
  · intro h r req gen slot hc
    have hne : slot ≠ s.intentSend.ticket := by
      rintro rfl
      exact h (List.mem_filterMap.mpr ⟨_, hc, rfl⟩)
    simpa [InFlight.isCurrent] using hne

theorem Send.NoCurrent.of_subset {s s' : Send} (h : s.NoCurrent) (hc : s'.calls ⊆ s.calls)
    (ht : s'.intentSend.ticket = s.intentSend.ticket) : s'.NoCurrent := by
  intro r req gen slot hm
  have := h r req gen slot (hc hm)
  rwa [InFlight.isCurrent, ht]

theorem Send.NoCurrent.turn {s s' : Send} {heard : Option Heard} (h : s.NoCurrent)
    (ht : s.Turn heard s') : s'.NoCurrent := h.of_subset ht.calls.subset ht.ticket

/-- An answered call is gone, and nothing else has its ticket. -/
theorem ticket_erased {calls : List SenderCall} {i slot : Nat} {r : String} {req : JsonObject}
    {gen : Nat} (hn : (calls.filterMap SenderCall.ticket).Nodup)
    (hc : calls[i]? = some (.send r req gen slot)) :
    slot ∉ (calls.eraseIdx i).filterMap SenderCall.ticket := by
  have hperm : (SenderCall.send r req gen slot :: calls.eraseIdx i).Perm calls := by
    obtain ⟨hi, hget⟩ := List.getElem?_eq_some_iff.mp hc
    rw [← hget]
    exact List.getElem_cons_eraseIdx_perm hi
  have hn' := (hperm.filterMap SenderCall.ticket).nodup_iff.mpr hn
  exact (List.nodup_cons.mp hn').1

namespace Send.CallsOk

variable {s s' : Send}

theorem of_sublist (h : s.CallsOk) (hc : s'.calls.Sublist s.calls)
    (ht : s'.intentSend.ticket = s.intentSend.ticket) : s'.CallsOk := by
  have hsub := hc.filterMap SenderCall.ticket
  refine ⟨h.tickets.sublist hsub, ?_, fun r slot hm => h.prepared r slot (hc.subset hm)⟩
  intro slot hm
  rw [ht]
  exact h.issued slot (hsub.subset hm)

/-- No answer leaves more calls than there were. -/
theorem turn (h : s.CallsOk) {heard : Option Heard} (ht : s.Turn heard s') : s'.CallsOk :=
  h.of_sublist ht.calls ht.ticket

/-- A call to the sender is made under a new ticket. -/
theorem called (b : State) (h : b.send.CallsOk) (call : Slot)
    (hi : (Event.slot call).ofIntent = true) : (b.called call).send.CallsOk := by
  cases call
  case reviewIntentSend j =>
    obtain ⟨t, -, h' | ⟨hne, price, slot, h'⟩⟩ := b.reviewIntentSend_cases j
    · show (b.reviewIntentSend j).send.CallsOk
      rw [h']
      exact h.of_sublist (by simp) (by simp)
    · show (b.reviewIntentSend j).send.CallsOk
      rw [h']
      have hsame : (b.send.calls ++ [SenderCall.prepare (recordId j) slot]).filterMap
          SenderCall.ticket = b.send.calls.filterMap SenderCall.ticket := by
        rw [List.filterMap_append]
        exact List.append_nil _
      refine ⟨hsame ▸ h.tickets, fun ticket hm => ?_, ?_⟩
      · simpa using h.issued ticket (hsame ▸ hm)
      · intro r slot hm
        rcases List.mem_append.mp hm with hm | hm
        · exact h.prepared r slot hm
        · cases List.mem_singleton.mp hm
          exact hne
  case acceptIntentSend =>
    show b.acceptIntentSend.send.CallsOk
    rcases b.acceptIntentSend_cases with
      h' | ⟨-, claim, hticket, ⟨t, -, -, h'⟩ | ⟨request, gen, h'⟩⟩
    · rw [h']
      exact h
    · rw [h']
      refine ⟨by simpa using h.tickets, fun slot hm => ?_, by simpa using h.prepared⟩
      have := h.issued slot (by simpa using hm)
      simp only [Send.setIntentSendJson_intentSend]
      omega
    · rw [h']
      refine ⟨?_, ?_, ?_⟩
      · simp only [List.filterMap_append, List.filterMap_cons, List.filterMap_nil,
          SenderCall.ticket]
        refine List.Nodup.append h.tickets (List.nodup_singleton _) ?_
        intro slot hm hnew
        cases List.mem_singleton.mp hnew
        have := h.issued _ hm
        omega
      · intro slot hm
        simp only [List.filterMap_append, List.filterMap_cons, List.filterMap_nil,
          SenderCall.ticket, List.mem_append, List.mem_singleton] at hm
        rcases hm with hm | rfl
        · have := h.issued slot hm
          show slot ≤ claim.ticket
          omega
        · exact Nat.le_refl _
      · intro r slot hm
        rcases List.mem_append.mp hm with hm | hm
        · exact h.prepared r slot hm
        · cases List.mem_singleton.mp hm
  case declineIntentSend =>
    show b.declineIntentSend.send.CallsOk
    exact h.of_sublist (by simp [State.declineIntentSend, Send.setIntentSendPricing])
      (by simp [State.declineIntentSend, Send.setIntentSendPricing])
  all_goals cases hi

end Send.CallsOk

/-- Only accepts are on their way. -/
def Accepts (slots : List Slot) : Prop := ∀ call ∈ slots, call = .acceptIntentSend

/-- The review of `R` is on its way, with nothing but accepts behind it. -/
def Awaits (R : String) (slots : List Slot) : Prop := ∃ before requestJson after,
  slots = before ++ .reviewIntentSend requestJson :: after ∧ recordId requestJson = R ∧
    (∀ j, .reviewIntentSend j ∈ before → recordId j ≠ R) ∧ Accepts after

/-- How far the request `R` has come, as a view sees it that has read all updates. -/
inductive Stage (own : String → String → Prop) (R : String) (slots : List Slot) (send : Send)
    (v : View) : Prop
  | waiting : v.intentSendRequestId = R → v.reviewed = false → recordId v.intentSendJson ≠ R →
      Awaits R slots → Stage own R slots send v
  | reviewing : v.intentSendRequestId = R → v.reviewed = true → recordId v.intentSendJson = R →
      refused v.intentSendJson = false → Accepts slots → Stage own R slots send v
  /-- Its send is the pending one. -/
  | sent : v.intentSendRequestId = R → v.reviewed = true → v.intentSendJson = .empty →
      v.pendingRequestId ≠ "" → own R v.pendingRequestId →
      (v.lastSendOutcomeJson = .empty ∨
        v.outcomeOf = v.pendingRequestId ∧ hasStatus v.lastSendOutcomeJson = true) →
      Accepts slots → send.NoCurrent → Stage own R slots send v

/-- The answer about to be handled leaves the view's request `R` its own: while its send is the
pending one nothing else starts or settles, and under its review no other request is accepted. -/
structure Send.Attributable (s : Send) (own : String → String → Prop) (R : String)
    (h : Option Heard) : Prop where
  started : ∀ requestJson gen under reply id,
    h = some (.returned (.send requestJson gen under) reply) → acceptedId reply = some id →
      s.pendingRequestId ≠ "" → ¬own R s.pendingRequestId
  settled : ∀ x ofSend, h = some x → x.settled = some ofSend →
    s.pendingRequestId ≠ "" → own R s.pendingRequestId → ofSend = s.pendingRequestId
  accepted : ∀ forRequest request gen slot res id,
    h = some (.sender (.send forRequest request gen slot) res) →
      acceptedId (res.getD .empty) = some id → s.intentSend.isCurrent slot = true →
        (forRequest = R → id ≠ "") ∧ (forRequest ≠ R → recordId s.intentSendJson ≠ R)

namespace Stage

variable {own own' : String → String → Prop} {R : String} {slots : List Slot} {send send' : Send}
  {v : View} {us : List Update}

/-- A view that has no review open answers its request as the pending id clears, if the outcome is
there. -/
theorem answers_cleared (hR : R ≠ "") (hid : v.intentSendRequestId = R)
    (hgone : v.intentSendJson = .empty) (hout : hasStatus v.lastSendOutcomeJson = true)
    (ho : own R v.outcomeOf) : v.Answers own (.pendingRequestId "") := by
  let w : View := { v with pendingRequestId := "" }
  have hne : w.intentSendRequestId ≠ "" := hid.symm ▸ hR
  have hfull : v.lastSendOutcomeJson.isEmpty = false := by
    cases h : v.lastSendOutcomeJson with
    | empty =>
      rw [h] at hout
      cases hout
    | text => rfl
  have hclosed : v.intentSendOpen = false := by simp [View.intentSendOpen, hgone, Text.isEmpty]
  have hid' : (v.intentSendRequestId != "") = true := by simpa [hid] using hR
  have hread : v.read (.pendingRequestId "") = w.answerIntentFromOutcome := by
    have hclosed' : w.intentSendOpen = false := hclosed
    show w.onPendingRequestIdChanged = _
    simp only [View.onPendingRequestIdChanged, View.sendPending, hclosed']
    simp [w, hid, hR, hfull]
  rcases View.answerIntentFromOutcome_cases hne with ⟨-, hno⟩ | ⟨hans, hof, -⟩
  · have hout' : hasStatus w.lastSendOutcomeJson = true := hout
    rw [hout'] at hno
    cases hno
  · refine ⟨hread ▸ hans, fun _ _ => ?_⟩
    rw [hread, hof, hid]
    exact ho

/-- Before its send is under way, what annotates the record on screen keeps the stage. -/
theorem keeps_unsent (hst : Stage own R slots send v) (hR : R ≠ "")
    (hunsent : v.reviewed = false ∨ recordId v.intentSendJson = R)
    (hrec : ∀ t, .intentSend t ∈ us → recordId t = recordId v.intentSendJson ∧
      refused t = refused v.intentSendJson) :
    v.Held own' (Stage own' R slots send') us := by
  cases hst with
  | waiting hid hrev hne hslots =>
    refine (View.waiting_reads hR hid hrev hne fun t ht => ?_).mono (fun _ _ h => h) ?_
    · rw [(hrec t ht).1]
      exact hne
    · exact fun w ⟨hid, hrev, hne⟩ => .waiting hid hrev hne hslots
  | reviewing hid hrev heq hopen hslots =>
    refine (View.reviewing_reads hR hid hrev heq hopen fun t ht => ?_).mono (fun _ _ h => h) ?_
    · rw [(hrec t ht).1, (hrec t ht).2]
      exact ⟨heq, hopen⟩
    · exact fun w ⟨hid, hrev, heq, hopen⟩ => .reviewing hid hrev heq hopen hslots
  | sent _ hrev hgone =>
    rcases hunsent with h | h
    · rw [hrev] at h
      cases h
    · rw [hgone, recordId_empty] at h
      exact absurd h.symm hR

/-- No answer of the sender is waited for once the request's send is under way. -/
theorem current (hst : Stage own R slots send v) {forRequest : String} {request : JsonObject}
    {gen slot : Nat} (hc : .send forRequest request gen slot ∈ send.calls)
    (hcur : send.intentSend.isCurrent slot = true) :
    v.reviewed = false ∨ recordId v.intentSendJson = R := by
  cases hst with
  | waiting _ hrev => exact .inl hrev
  | reviewing _ _ heq => exact .inr heq
  | sent _ _ _ _ _ _ _ hnone =>
    rw [hnone _ _ _ _ hc] at hcur
    cases hcur

/-- What annotates the record on screen, and nothing else of a send under way, keeps the stage. -/
theorem keeps (hst : Stage own R slots send v) (hR : R ≠ "") (hown : ∀ r q, own r q → own' r q)
    (hcur : send.NoCurrent → send'.NoCurrent)
    (hrec : ∀ t, .intentSend t ∈ us → recordId t = recordId v.intentSendJson ∧
      refused t = refused v.intentSendJson)
    (hsent : send.NoCurrent → v.intentSendJson = .empty → v.pendingRequestId ≠ "" →
      own R v.pendingRequestId → ∀ u ∈ us, u.Quiet) :
    v.Held own' (Stage own' R slots send') us := by
  cases hst with
  | waiting hid hrev hne hslots =>
    have hst : Stage own R slots send v := .waiting hid hrev hne hslots
    exact keeps_unsent hst hR (.inl hrev) hrec
  | reviewing hid hrev heq hopen hslots =>
    have hst : Stage own R slots send v := .reviewing hid hrev heq hopen hslots
    exact keeps_unsent hst hR (.inr heq) hrec
  | sent hid hrev hgone hp ho hout hslots hnone =>
    have hquiet := hsent hnone hgone hp ho
    refine Leads.of_forall (.sent hid hrev hgone hp (hown _ _ ho) hout hslots (hcur hnone)) ?_
    intro w hw u hu
    cases u with
    | pendingApprovalHandle => exact .inr ⟨rfl, hw⟩
    | intentSendPricing on =>
      refine .inr ⟨rfl, ?_⟩
      cases hw with
      | waiting hid hrev hne hslots => exact .waiting hid hrev hne hslots
      | reviewing hid hrev heq hopen hslots => exact .reviewing hid hrev heq hopen hslots
      | sent hid hrev hgone hp ho hout hslots hnone =>
        exact .sent hid hrev hgone hp ho hout hslots hnone
    | _ => exact (hquiet _ hu).elim

/-- The pending send of the request settles: the view answers with its outcome. -/
theorem settles (hid : v.intentSendRequestId = R) (hR : R ≠ "")
    (hgone : v.intentSendJson = .empty) (hp : v.pendingRequestId ≠ "")
    (ho : own R v.pendingRequestId)
    (hout : v.lastSendOutcomeJson = .empty ∨
      v.outcomeOf = v.pendingRequestId ∧ hasStatus v.lastSendOutcomeJson = true)
    (outcome : Text) (houtcome : hasStatus outcome = true) (oldHandle : String)
    {K : View → Prop} :
    v.Held own K (Send.news v.lastSendOutcomeJson outcome (.lastSendOutcome outcome v.pendingRequestId)
      ++ (Send.news oldHandle "" (.pendingApprovalHandle "") ++
        Send.news v.pendingRequestId "" (.pendingRequestId ""))) := by
  let K₁ : View → Prop := fun w => w.intentSendRequestId = R ∧ w.intentSendJson = .empty ∧
    hasStatus w.lastSendOutcomeJson = true ∧ w.outcomeOf = v.pendingRequestId
  have hlast : ∀ w, K₁ w →
      w.Held own K (Send.news v.pendingRequestId "" (.pendingRequestId "")) := by
    rintro w ⟨hid, hgone, hst, hof⟩
    rw [Send.news, if_neg (Ne.symm hp)]
    exact .inl (answers_cleared hR hid hgone hst (hof ▸ ho))
  have hmid : ∀ w, K₁ w → w.Held own K₁ (Send.news oldHandle "" (.pendingApprovalHandle "")) := by
    intro w hw
    unfold Send.news
    split
    · exact hw
    · exact .inr ⟨rfl, hw⟩
  refine Leads.append (K := K₁) ?_ fun w hw => (hmid w hw).append hlast
  unfold Send.news
  split
  · rename_i heq
    rw [heq] at houtcome
    rcases hout with h | ⟨hof, hst⟩
    · rw [h] at houtcome
      cases houtcome
    · exact ⟨hid, hgone, hst, hof⟩
  · -- The id is still there, so the view does not answer yet.
    have hpend : v.sendPending = true := by simpa [View.sendPending] using hp
    have hread : v.read (.lastSendOutcome outcome v.pendingRequestId) =
        { v with lastSendOutcomeJson := outcome, outcomeOf := v.pendingRequestId } := by
      have hpend' : View.sendPending { v with
          lastSendOutcomeJson := outcome, outcomeOf := v.pendingRequestId } = true := hpend
      simp only [View.read, View.updated, View.onLastSendOutcomeJsonChanged, hpend', Bool.not_true,
        Bool.and_false, Bool.false_and, Bool.false_eq_true, if_false]
    refine .inr ⟨?_, ?_⟩
    · show (v.read _).intentSendRequestId = _
      rw [hread]
    · show K₁ _
      rw [hread]
      exact ⟨hid, hgone, houtcome, rfl⟩

/-- The sender accepts the calls of the request under review: its send becomes the pending one, and
then its record goes. -/
theorem accepts (hid : v.intentSendRequestId = R) (hR : R ≠ "") (hrev : v.reviewed = true)
    (hrec : recordId v.intentSendJson = R) (hopen : refused v.intentSendJson = false)
    (hslots : Accepts slots) (hrep : v.replica = send.replica) {started : Send}
    (hstarted : send.Emits started us) (hus : ∀ t, .intentSend t ∉ us)
    (hp : started.pendingRequestId ≠ "") (ho : own R started.pendingRequestId)
    (hout : started.lastSendOutcomeJson = .empty) (hnone : send'.NoCurrent) :
    v.Held own (Stage own R slots send')
      (us ++ Send.news started.intentSendJson .empty (.intentSend .empty)) := by
  have hheld : v.Held own (fun v => v.intentSendRequestId = R ∧ v.reviewed = true ∧
      recordId v.intentSendJson = R ∧ refused v.intentSendJson = false) us :=
    View.reviewing_reads hR hid hrev hrec hopen fun t ht => absurd ht (hus t)
  have hreads := hheld.replay View.replica_updated
  refine hreads.append ?_
  rintro w ⟨⟨hid, hrev, hrec, hopen⟩, hw⟩
  rw [hrep, ← hstarted.replica] at hw
  have hwp : w.pendingRequestId = started.pendingRequestId := congrArg Replica.pendingRequestId hw
  have hwo : w.lastSendOutcomeJson = started.lastSendOutcomeJson :=
    congrArg Replica.lastSendOutcomeJson hw
  have hwr : w.intentSendJson = started.intentSendJson := congrArg Replica.intentSendJson hw
  have hfull : ¬Text.empty = started.intentSendJson := by
    intro he
    rw [hwr, ← he, recordId_empty] at hrec
    exact hR hrec.symm
  have hread : w.read (.intentSend .empty) =
      { w with intentSendJson := .empty, reviewed := true } := by
    have hno : ((parseObject .empty).contains "error") = false := rfl
    simp [View.read, View.updated, View.onIntentSendJsonChanged, hno, hrev]
  rw [Send.news, if_neg hfull]
  refine .inr ⟨?_, ?_⟩
  · show (w.read _).intentSendRequestId = _
    rw [hread]
  show Stage own R slots send' (w.read _)
  rw [hread]
  refine .sent hid rfl rfl ?_ ?_ (.inl ?_) hslots hnone
  · exact hwp.symm ▸ hp
  · exact hwp.symm ▸ ho
  · exact hwo.trans hout

/-! ## What an event of the backend makes of the stage -/

/-- A send of the wallet's own starts, but not while the request's is the pending one. -/
theorem turn_started (hst : Stage own R slots send v) (hR : R ≠ "") (hrep : v.replica = send.replica)
    (hown : ∀ r q, own r q → own' r q) (hnone : send.NoCurrent → send'.NoCurrent)
    (sent : SendApplied) (hs : send' = send.start sent)
    (hfree : send.pendingRequestId ≠ "" → ¬own R send.pendingRequestId) :
    ∃ us, send.Emits send' us ∧ v.Held own' (Stage own' R slots send') us := by
  have hp : v.pendingRequestId = send.pendingRequestId := congrArg Replica.pendingRequestId hrep
  obtain ⟨us, hem, hus⟩ := send.start_emits sent
  refine ⟨us, hs ▸ hem, hst.keeps hR hown hnone ?_ ?_⟩
  · intro t ht
    rcases hus _ ht with h | h | h <;> cases h
  · intro _ _ hne hmine
    rw [hp] at hne hmine
    exact absurd hmine (hfree hne)

/-- A send settles: the request's own, if that is the pending one. -/
theorem turn_settled (hst : Stage own R slots send v) (hR : R ≠ "") (hrep : v.replica = send.replica)
    (hown : ∀ r q, own r q → own' r q) {reply : Text} {ofSend : String}
    (hs : send' = send.settle (sendPolled reply) ofSend) (hfinal : (sendPolled reply).settled = true)
    (hmine : send.pendingRequestId ≠ "" → own R send.pendingRequestId →
      ofSend = send.pendingRequestId) :
    ∃ us, send.Emits send' us ∧ v.Held own' (Stage own' R slots send') us := by
  have hp : v.pendingRequestId = send.pendingRequestId := congrArg Replica.pendingRequestId hrep
  have ho : v.lastSendOutcomeJson = send.lastSendOutcomeJson :=
    congrArg Replica.lastSendOutcomeJson hrep
  obtain ⟨s₁, hem⟩ := send.settle_emits (sendPolled reply) ofSend
  refine ⟨_, hs ▸ hem, ?_⟩
  cases hst with
  | sent hid hrev hgone hne hmine' hout hslots hnone =>
    have hof : ofSend = v.pendingRequestId := by
      rw [hp] at hne hmine' ⊢
      exact hmine hne hmine'
    rw [← ho, ← hp, hof]
    exact settles hid hR hgone hne (hown _ _ hmine') hout _ (hasStatus_polled hfinal) _
  | waiting hid hrev hne hslots =>
    refine keeps_unsent (.waiting hid hrev hne hslots : Stage own R slots send v) hR (.inl hrev) ?_
    intro t ht
    simp only [List.mem_append] at ht
    rcases ht with ht | ht | ht <;> cases (Send.mem_news ht).1
  | reviewing hid hrev heq hopen hslots =>
    refine keeps_unsent (.reviewing hid hrev heq hopen hslots : Stage own R slots send v) hR
      (.inr heq) ?_
    intro t ht
    simp only [List.mem_append] at ht
    rcases ht with ht | ht | ht <;> cases (Send.mem_news ht).1

/-- A price comes for a request under review. -/
theorem turn_prepared (hst : Stage own R slots send v) (hR : R ≠ "")
    (hrep : v.replica = send.replica) (hown : ∀ r q, own r q → own' r q)
    (hnone : send.NoCurrent → send'.NoCurrent) {b : State} {calls : List SenderCall}
    {forRequest : String} {slot : Nat} {res : Option Text} (hb : b.send = { send with calls })
    (hs : send' = (b.prepareReplied forRequest slot res).send) (hfor : forRequest ≠ "") :
    ∃ us, send.Emits send' us ∧ v.Held own' (Stage own' R slots send') us := by
  have hr : v.intentSendJson = send.intentSendJson := congrArg Replica.intentSendJson hrep
  obtain ⟨us, hem, hus⟩ := Send.prepareReplied_emits hb forRequest slot res
  refine ⟨us, hs ▸ hem, hst.keeps hR hown hnone ?_ ?_⟩
  · intro t ht
    rcases hus _ ht with hq | ⟨-, hann⟩
    · exact hq.elim
    · obtain ⟨hid, hrefused, -⟩ := hann.record (by decide) (by decide)
      rw [hr]
      exact ⟨hid, hrefused⟩
  · -- No record is open once the send is under way.
    intro _ hgone _ _ u hu
    rcases hus u hu with hq | ⟨hid, -⟩
    · exact hq
    · rw [← hr, hgone, recordId_empty] at hid
      exact absurd hid.symm hfor

/-- The sender answers about an app's send: the request's own, if it is accepted under its review. -/
theorem turn_replied (hst : Stage own R slots send v) (hR : R ≠ "") (hrep : v.replica = send.replica)
    (hown : ∀ r q, own r q → own' r q) (hcalls : send.CallsOk)
    (hnone : send.NoCurrent → send'.NoCurrent) {b : State} {i gen slot : Nat} {forRequest : String}
    {request : JsonObject} {res : Option Text}
    (hc : send.calls[i]? = some (.send forRequest request gen slot))
    (hb : b.send = { send with calls := send.calls.eraseIdx i })
    (hs : send' = (b.sendReplied gen slot res).send) (hcs : send'.calls.Sublist (send.calls.eraseIdx i))
    (hticket : send'.intentSend.ticket = send.intentSend.ticket)
    (hmine : ∀ id, acceptedId (res.getD .empty) = some id →
      send.intentSend.isCurrent slot = true →
        (forRequest = R → id ≠ "" ∧ own' R id) ∧
          (forRequest ≠ R → recordId send.intentSendJson ≠ R)) :
    ∃ us, send.Emits send' us ∧ v.Held own' (Stage own' R slots send') us := by
  have hr : v.intentSendJson = send.intentSendJson := congrArg Replica.intentSendJson hrep
  have hmem := List.mem_of_getElem? hc
  rcases Send.sendReplied_emits hb gen slot res with
    ⟨-, hem⟩ | ⟨hcur, ⟨us, hem, hus⟩ | ⟨id, us, started, hid, hstart, hus, hp, hout, hem⟩⟩
  · refine ⟨[], hs ▸ hem, hst.keeps hR hown hnone ?_ ?_⟩
    · intro t ht
      cases ht
    · exact fun _ _ _ _ => List.forall_mem_nil _
  · refine ⟨us, hs ▸ hem, hst.keeps_unsent hR (hst.current hmem hcur) fun t ht => ?_⟩
    obtain ⟨hid, hrefused, -⟩ := (hus _ ht).record (by decide) (by decide)
    rw [hr]
    exact ⟨hid, hrefused⟩
  · refine ⟨_, hs ▸ hem, ?_⟩
    obtain ⟨hmine, hother⟩ := hmine id hid hcur
    have hno : ∀ t, .intentSend t ∉ us := by
      intro t ht
      rcases hus _ ht with h | h | h
      · exact h
      · cases h
      · cases h
    have hafter : send'.NoCurrent := by
      have hslot : slot = send.intentSend.ticket := by simpa [InFlight.isCurrent] using hcur
      rw [Send.noCurrent_iff, hticket, ← hslot]
      exact fun hm => ticket_erased hcalls.tickets hc ((hcs.filterMap _).subset hm)
    cases hst with
    | waiting hv hrev hne hslots =>
      refine (View.waiting_reads hR hv hrev hne fun t ht => ?_).mono (fun _ _ h => h) ?_
      · rcases List.mem_append.mp ht with ht | ht
        · exact absurd ht (hno t)
        · cases (Send.mem_news ht).1
          rw [recordId_empty]
          exact hR.symm
      · rintro w ⟨hv, hrev, hne⟩
        exact .waiting hv hrev hne hslots
    | reviewing hv hrev heq hopen hslots =>
      have hfor : forRequest = R := by
        by_contra hne
        exact hother hne (hr ▸ heq)
      obtain ⟨hne, hown'⟩ := hmine hfor
      exact accepts hv hR hrev heq hopen hslots hrep hstart hno (hp ▸ hne) (hp ▸ hown') hout hafter
    | sent _ _ _ _ _ _ _ hcurrent =>
      rw [hcurrent _ _ _ _ hmem] at hcur
      cases hcur

/-- An answer the condition lets through takes the request held to a stage again, unless the view
answers it meanwhile. -/
theorem turn (hst : Stage own R slots send v) (hR : R ≠ "") (hrep : v.replica = send.replica)
    (hown : ∀ r q, own r q → own' r q) (hcalls : send.CallsOk) {h : Option Heard}
    (hatt : send.Attributable own R h)
    (hacc : ∀ request gen slot res id, h = some (.sender (.send R request gen slot) res) →
      acceptedId (res.getD .empty) = some id → own' R id)
    (ht : send.Turn h send') :
    ∃ us, send.Emits send' us ∧ v.Held own' (Stage own' R slots send') us := by
  have hnone : send.NoCurrent → send'.NoCurrent := fun hn => hn.turn ht
  have hticket := ht.ticket
  cases ht with
  | idle sendPoll =>
    exact ⟨[], .none rfl rfl, hst.keeps hR hown hnone nofun nofun⟩
  | @lapsed price _ =>
    refine ⟨_, send.setPrice_emits price, hst.keeps hR hown hnone ?_ ?_⟩
    · exact fun t ht => nomatch (Send.mem_news ht).1
    · intro _ _ _ _ u hu
      rw [(Send.mem_news hu).1]
      trivial
  | started hid =>
    exact hst.turn_started hR hrep hown hnone _ rfl (hatt.started _ _ _ _ _ rfl hid)
  | settled hs =>
    exact hst.turn_settled hR hrep hown rfl (Heard.settled_final hs) (hatt.settled _ _ rfl hs)
  | prepared hc hb =>
    exact hst.turn_prepared hR hrep hown hnone hb rfl
      (hcalls.prepared _ _ (List.mem_of_getElem? hc))
  | @replied i gen slot forRequest request res b hc hb =>
    have hcs : (b.sendReplied gen slot res).send.calls.Sublist (send.calls.eraseIdx i) := by
      rcases b.sendReplied_cases gen slot res with ⟨-, h⟩ | ⟨-, ⟨-, h⟩ | ⟨-, h⟩⟩ <;>
        rw [h] <;> simp [hb]
    refine hst.turn_replied hR hrep hown hcalls hnone hc hb rfl hcs hticket fun id hid hcur => ?_
    obtain ⟨hmine, hother⟩ := hatt.accepted _ _ _ _ _ _ rfl hid hcur
    refine ⟨?_, hother⟩
    rintro rfl
    exact ⟨hmine rfl, hacc _ _ _ _ _ rfl hid⟩

/-! ## A slot call of the view reaches the backend -/

/-- The record of a request that is refused is answered as it is read. -/
theorem answers_refused (hid : v.intentSendRequestId = R) (hR : R ≠ "") {t : Text}
    (ht : recordId t = R) (hr : refused t = true) : v.Answers own (.intentSend t) := by
  refine ⟨?_, nofun⟩
  have hvalue : (parseObject t).value "requestId" = some (.str R) := by
    cases hv : (parseObject t).value "requestId" with
    | none =>
      rw [recordId, hv] at ht
      exact absurd ht.symm hR
    | some j =>
      rw [recordId, hv] at ht
      cases j with
      | str x => rw [← ht]; rfl
      | _ => exact absurd ht.symm hR
  have hr' : (parseObject t).contains "error" = true := hr
  simp [View.read, View.updated, View.onIntentSendJsonChanged, hr', hvalue, hid,
    View.answerIntent, hR]

/-- The review of the request comes back. -/
theorem reviewed (hid : v.intentSendRequestId = R) (hR : R ≠ "")
    (hne : recordId v.intentSendJson ≠ R)
    (hslots : Accepts slots) {t : Text} (ht : RecordFor R t) (hus : ∀ u ∈ us, u.Quiet) :
    v.Held own (Stage own R slots send)
      (Send.news v.intentSendJson t (.intentSend t) ++ us) := by
  have hnew : ¬t = v.intentSendJson := by
    rintro rfl
    exact hne ht.requestId
  rw [Send.news, if_neg hnew]
  cases hr : refused t with
  | true => exact .inl (answers_refused hid hR ht.requestId hr)
  | false =>
    have hno : (parseObject t).contains "error" = false := hr
    have hmine : (((parseObject t).value "requestId").toString == v.intentSendRequestId) = true := by
      rw [hid, beq_iff_eq]
      exact ht.requestId
    have hread : v.read (.intentSend t) = { v with intentSendJson := t, reviewed := true } := by
      simp [View.read, View.updated, View.onIntentSendJsonChanged, hno, hmine]
    refine .inr ⟨?_, ?_⟩
    · show (v.read _).intentSendRequestId = _
      rw [hread]
    · show View.Held own _ (v.read _) us
      rw [hread]
      have hid' : View.intentSendRequestId { v with intentSendJson := t, reviewed := true } = R :=
        hid
      have hrec : recordId (View.intentSendJson
          { v with intentSendJson := t, reviewed := true }) = R := ht.requestId
      refine (View.reviewing_reads hR hid' rfl hrec hr fun t ht => ?_).mono
        (fun _ _ h => h) ?_
      · exact (hus _ ht).elim
      · rintro w ⟨hid, hrev, heq, hopen⟩
        exact .reviewing hid hrev heq hopen hslots

/-- A slot call that is not the review of `R` leaves no record of it. -/
theorem called_other {b : State} {call : Slot} (hi : (Event.slot call).ofIntent = true)
    (hR : R ≠ "")
    (hne : recordId b.send.intentSendJson ≠ R)
    (hcall : ∀ j, call = .reviewIntentSend j → recordId j ≠ R) :
    ∃ us, b.send.Emits (b.called call).send us ∧ ∀ t, .intentSend t ∈ us → recordId t ≠ R := by
  cases call
  case reviewIntentSend j =>
    obtain ⟨t, us, ht, hus, hem⟩ := b.reviewIntentSend_emits j
    refine ⟨_, hem, fun t' ht' => ?_⟩
    rcases List.mem_append.mp ht' with h | h
    · cases (Send.mem_news h).1
      rw [ht.requestId]
      exact hcall j rfl
    · exact (hus _ h).elim
  case acceptIntentSend =>
    obtain ⟨us, hem, hus⟩ := b.acceptIntentSend_emits
    refine ⟨us, hem, fun t' ht' => ?_⟩
    obtain ⟨-, t, heq, ht, -⟩ := hus _ ht'
    cases heq
    rw [ht.requestId]
    exact hne
  case declineIntentSend =>
    obtain ⟨us, hus, hem⟩ := b.declineIntentSend_emits
    refine ⟨_, hem, fun t' ht' => ?_⟩
    rcases List.mem_append.mp ht' with h | h
    · exact (hus _ h).elim
    · cases (Send.mem_news h).1
      exact hR.symm
  all_goals cases hi

theorem slot {b : State} {call : Slot} (hst : Stage own R (call :: slots) b.send v) (hR : R ≠ "")
    (hrep : v.replica = b.send.replica) (hi : (Event.slot call).ofIntent = true) :
    ∃ us, b.send.Emits (b.called call).send us ∧
      v.Held own (Stage own R slots (b.called call).send) us := by
  have hr : v.intentSendJson = b.send.intentSendJson := congrArg Replica.intentSendJson hrep
  cases hst with
  | waiting hid hrev hne hslots =>
    obtain ⟨before, j, after, heq, hj, hbefore, hafter⟩ := hslots
    cases before with
    | nil =>
      cases heq
      obtain ⟨t, us, ht, hus, hem⟩ := b.reviewIntentSend_emits j
      rw [← hr] at hem
      rw [hj] at ht
      exact ⟨_, hem, reviewed hid hR hne hafter ht hus⟩
    | cons c before =>
      cases heq
      have hother : ∀ j', call = .reviewIntentSend j' → recordId j' ≠ R := by
        rintro j' rfl
        exact hbefore j' (List.mem_cons_self ..)
      obtain ⟨us, hem, hus⟩ := called_other hi hR (hr ▸ hne) hother
      have hawaits : Awaits R (before ++ .reviewIntentSend j :: after) :=
        ⟨before, j, after, rfl, hj, fun j' h => hbefore j' (List.mem_cons_of_mem _ h), hafter⟩
      refine ⟨us, hem, (View.waiting_reads hR hid hrev hne hus).mono (fun _ _ h => h) ?_⟩
      exact fun w ⟨hid, hrev, hne⟩ => .waiting hid hrev hne hawaits
  | reviewing hid hrev heq hopen hslots =>
    cases hslots call (List.mem_cons_self ..)
    have hslots' : Accepts slots := fun c h => hslots c (List.mem_cons_of_mem _ h)
    obtain ⟨us, hem, hus⟩ := b.acceptIntentSend_emits
    refine ⟨us, hem, ?_⟩
    cases us with
    | nil => exact .reviewing hid hrev heq hopen hslots'
    | cons u us =>
      obtain ⟨-, t, rfl, ht, href⟩ := hus u (List.mem_cons_self ..)
      rw [← hr, heq] at ht
      exact .inl (answers_refused hid hR ht.requestId href)
  | sent hid hrev hgone hp ho hout hslots hnone =>
    cases hslots call (List.mem_cons_self ..)
    have hslots' : Accepts slots := fun c h => hslots c (List.mem_cons_of_mem _ h)
    obtain ⟨us, hem, hus⟩ := b.acceptIntentSend_emits
    have hsame : b.acceptIntentSend.send = b.send := by
      rcases b.acceptIntentSend_cases with h | ⟨hne, -⟩
      · exact h
      · exact absurd (hr ▸ hgone) hne
    refine ⟨[], .none (by rw [State.called, hsame]) (by rw [State.called, hsame]), ?_⟩
    refine .sent hid hrev hgone hp ho hout hslots' ?_
    rw [State.called, hsame]
    exact hnone

/-- A later call of the view leaves the stage as it is, if it is an accept. -/
theorem behind (hst : Stage own R slots send v) :
    Stage own R (slots ++ [.acceptIntentSend]) send v := by
  have hsnoc : ∀ {slots : List Slot}, Accepts slots → Accepts (slots ++ [.acceptIntentSend]) := by
    intro slots h call hc
    rcases List.mem_append.mp hc with hc | hc
    · exact h call hc
    · exact List.mem_singleton.mp hc
  cases hst with
  | waiting hid hrev hne hslots =>
    obtain ⟨before, j, after, rfl, hj, hbefore, hafter⟩ := hslots
    refine .waiting hid hrev hne ⟨before, j, after ++ [.acceptIntentSend], ?_, hj, hbefore, ?_⟩
    · simp
    · exact hsnoc hafter
  | reviewing hid hrev heq hopen hslots => exact .reviewing hid hrev heq hopen (hsnoc hslots)
  | sent hid hrev hgone hp ho hout hslots hnone =>
    exact .sent hid hrev hgone hp ho hout (hsnoc hslots) hnone

end Stage

end EthWalletUi
