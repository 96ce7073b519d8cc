import EthWalletUi.View.Own

/-!
# An app that is told `cancelled`

The view says `cancelled` on its own when the human declines, or when another request arrives over
the one held; nothing it does then stops an accept that is on its way to the backend, or one that
the backend has passed to the sender. Otherwise the word is the status of an outcome.

* `Desk.quiet`: the request is not with the sender and can no longer come to be.
* `Desk.cancelled_unsent`: in every run in which a request is quiet as the view says `cancelled` of
  it, unless its own send ended so.
* `Desk.cancelled_sent`: the human declines with the accept in flight.
-/

namespace EthWalletUi

open Qt Machine

/-! ## What the slot calls on their way do to a record -/

/-- One of the accepts finds the record of the request; `shown` is the request of the record the
first call finds. -/
def accepts (requestId : String) : String → List Slot → Bool
  | _, [] => false
  | shown, .acceptIntentSend :: slots => shown == requestId || accepts requestId shown slots
  | _, .declineIntentSend :: slots => accepts requestId "" slots
  | _, .reviewIntentSend requestJson :: slots => accepts requestId (recordId requestJson) slots
  | shown, _ :: slots => accepts requestId shown slots

/-- The request of the record that the calls leave. -/
def leaves : String → List Slot → String
  | shown, [] => shown
  | _, .declineIntentSend :: slots => leaves "" slots
  | _, .reviewIntentSend requestJson :: slots => leaves (recordId requestJson) slots
  | shown, _ :: slots => leaves shown slots

/-- No accept finds the record of the request, and no record of it is left. -/
def Unaccepted (requestId shown : String) (slots : List Slot) : Prop :=
  accepts requestId shown slots = false ∧ leaves shown slots ≠ requestId

namespace Unaccepted

variable {r shown : String} {slots : List Slot}

/-- A record that is cleared is no longer found. -/
theorem cleared (hr : r ≠ "") (h : Unaccepted r shown slots) : Unaccepted r "" slots := by
  obtain ⟨ha, hl⟩ := h
  induction slots generalizing shown with
  | nil => exact ⟨rfl, hr.symm⟩
  | cons call slots ih =>
    cases call
    case acceptIntentSend =>
      simp only [accepts, Bool.or_eq_false_iff] at ha
      obtain ⟨ha', hl'⟩ := ih ha.2 hl
      refine ⟨?_, hl'⟩
      simp only [accepts, Bool.or_eq_false_iff, beq_eq_false_iff_ne]
      exact ⟨hr.symm, ha'⟩
    case declineIntentSend | reviewIntentSend => exact ⟨ha, hl⟩
    all_goals exact ih ha hl

/-- Calls that come after find what the calls before them leave. -/
theorem append {call : Slot} (h : Unaccepted r shown slots)
    (hc : ∀ j, call = .reviewIntentSend j → recordId j ≠ r) (hr : r ≠ "") :
    Unaccepted r shown (slots ++ [call]) := by
  obtain ⟨ha, hl⟩ := h
  induction slots generalizing shown with
  | nil =>
    have hne : shown ≠ r := hl
    cases call
    case acceptIntentSend =>
      refine ⟨?_, hl⟩
      simp only [List.nil_append, accepts, Bool.or_false]
      exact beq_false_of_ne hne
    case declineIntentSend => exact ⟨rfl, hr.symm⟩
    case reviewIntentSend j => exact ⟨rfl, hc j rfl⟩
    all_goals exact ⟨rfl, hl⟩
  | cons c slots ih =>
    cases c
    case acceptIntentSend =>
      simp only [accepts, Bool.or_eq_false_iff] at ha
      obtain ⟨ha', hl'⟩ := ih ha.2 hl
      refine ⟨?_, hl'⟩
      simp only [List.cons_append, accepts, Bool.or_eq_false_iff]
      exact ⟨ha.1, ha'⟩
    all_goals exact ih ha hl

end Unaccepted

/-! ## What the sender has said -/

/-- The sender has accepted a send from the calls of the app request. -/
def acceptedFor (log : List Heard) (requestId : String) : Bool :=
  log.any fun
    | .sender (.send r _ _ _) res => r == requestId && (acceptedId (res.getD .empty)).isSome
    | _ => false

/-- The sender has ended send `ofSend` with the status. -/
def endedWith (log : List Heard) (ofSend status : String) : Bool :=
  log.any fun
    | .returned frame reply => (Heard.returned frame reply).settled == some ofSend &&
        outcomeStatus (toJsonCompact (sendPolled reply).outcome) == status
    | _ => false

namespace Desk

variable (s : Desk)

/-- The request is neither with the sender nor can it come to be, once the slot calls are done. -/
def quiet (requestId : String) (slots : List Slot) : Bool :=
  let shown := recordId s.backend.send.intentSendJson
  !accepts requestId shown slots && leaves shown slots != requestId &&
    s.backend.send.calls.all (fun
      | .send forRequest _ _ _ => forRequest != requestId
      | .prepare .. => true) &&
    !acceptedFor s.backend.core.log requestId

/-- The sender has ended the request's own send with `cancelled`. -/
def endedCancelled (requestId ofSend : String) : Bool :=
  sentFor s.backend.core.log requestId ofSend && endedWith s.backend.core.log ofSend "cancelled"

/-- The step tells the app `cancelled` only if its send has ended so, or the request is quiet. -/
def cancels : DeskEvent → Bool
  | .requested requestId requester params => s.view.intentSendRequestId == "" ||
    s.quiet s.view.intentSendRequestId
      (s.slots ++ (s.view.requested requestId requester params).2)
  | .declined => s.view.intentSendRequestId == "" ||
    s.quiet s.view.intentSendRequestId (s.slots ++ s.view.declined.2)
  | .update => match s.unread with
    | u :: _ => !s.view.settles u || outcomeStatus (s.view.outcomeRead u).1 != "cancelled" ||
      s.endedCancelled s.view.intentSendRequestId (s.view.outcomeRead u).2 ||
      s.quiet s.view.intentSendRequestId s.slots
    | [] => true
  | _ => true

variable {s}

/-! ## What is quiet stays quiet -/

structure Quiet (s : Desk) (requestId : String) (slots : List Slot) : Prop where
  unaccepted : Unaccepted requestId (recordId s.backend.send.intentSendJson) slots
  calls : ∀ request gen slot, .send requestId request gen slot ∉ s.backend.send.calls
  log : acceptedFor s.backend.core.log requestId = false

theorem quiet_iff {requestId : String} {slots : List Slot} :
    s.quiet requestId slots = true ↔ s.Quiet requestId slots := by
  simp only [quiet, Bool.and_eq_true, Bool.not_eq_true', bne_iff_ne, List.all_eq_true]
  constructor
  · rintro ⟨⟨⟨ha, hl⟩, hc⟩, hlog⟩
    exact ⟨⟨ha, hl⟩, fun request gen slot hm => by simpa using hc _ hm, hlog⟩
  · rintro ⟨⟨ha, hl⟩, hc, hlog⟩
    refine ⟨⟨⟨ha, hl⟩, fun call hm => ?_⟩, hlog⟩
    cases call with
    | prepare => rfl
    | send r request gen slot =>
      rw [bne_iff_ne]
      rintro rfl
      exact hc _ _ _ hm

namespace Quiet

variable {r : String} {slots : List Slot}

/-- An event of the backend starts no send of the request. -/
theorem turn {b : State} {heard : Option Heard} (h : s.Quiet r slots) (hr : r ≠ "")
    (ht : s.backend.send.Turn heard b.send)
    (hlog : b.core.log = heard.toList ++ s.backend.core.log) :
    Quiet { s with backend := b } r slots where
  unaccepted := by
    obtain ⟨us, hem, hus⟩ := ht.says
    have hrecord : b.send.intentSendJson =
        (us.foldl Replica.write s.backend.send.replica).intentSendJson :=
      congrArg Replica.intentSendJson hem.replica
    show Unaccepted r (recordId b.send.intentSendJson) slots
    rcases Replica.foldl_write_record us s.backend.send.replica with h' | h'
    · rw [hrecord, h']
      exact h.unaccepted
    · rcases (hus _ h').record with he | ⟨he, -⟩
      · rw [hrecord, he]
        exact h.unaccepted.cleared hr
      · rw [hrecord, he]
        exact h.unaccepted
  calls := fun request gen slot hm => h.calls request gen slot (ht.calls.subset hm)
  log := by
    show acceptedFor b.core.log r = false
    rw [hlog]
    cases heard with
    | none => exact h.log
    | some x =>
      have hx : ∀ request gen slot res, x ≠ .sender (.send r request gen slot) res := by
        rintro request gen slot res rfl
        exact h.calls _ _ _ (ht.outstanding rfl)
      have hlog := h.log
      simp only [acceptedFor, Option.toList_some, List.singleton_append, List.any_cons,
        Bool.or_eq_false_iff] at hlog ⊢
      refine ⟨?_, hlog⟩
      cases x with
      | reply | returned => rfl
      | sender call res =>
        cases call with
        | prepare => rfl
        | send r' request gen slot =>
          have hne : r' ≠ r := by
            rintro rfl
            exact hx _ _ _ _ rfl
          simp [hne]

/-- Neither does a slot call of the view. -/
theorem slot {call : Slot} (h : s.Quiet r (call :: slots))
    (hi : (Event.slot call).ofIntent = true) :
    Quiet { s with backend := s.backend.called call, slots } r slots := by
  have hlog : (s.backend.called call).core.log = s.backend.core.log := by
    simpa [State.heard] using (State.step_pending (s := s.backend) (e := .slot call) rfl).1
  obtain ⟨⟨ha, hl⟩, hc, hacc⟩ := h
  cases call
  case reviewIntentSend j =>
    obtain ⟨t, ht, h | ⟨-, price, slot, h⟩⟩ := s.backend.reviewIntentSend_cases j
    all_goals
      refine ⟨?_, ?_, hlog ▸ hacc⟩
      · show Unaccepted r (recordId (s.backend.reviewIntentSend j).send.intentSendJson) slots
        rw [h]
        simp only [Send.setPrice_intentSendJson, Send.setIntentSendJson_intentSendJson,
          ht.requestId]
        exact ⟨ha, hl⟩
      · intro request gen slot hm
        have hm' : .send r request gen slot ∈ (s.backend.reviewIntentSend j).send.calls := hm
        rw [h] at hm'
        simp at hm'
        exact hc _ _ _ hm'
  case acceptIntentSend =>
    simp only [accepts, Bool.or_eq_false_iff, beq_eq_false_iff_ne] at ha
    have hleaves : Unaccepted r (recordId s.backend.send.intentSendJson) slots := ⟨ha.2, hl⟩
    have hsend : ∀ {send : Send}, s.backend.acceptIntentSend.send = send →
        Unaccepted r (recordId send.intentSendJson) slots →
        (∀ request gen slot, .send r request gen slot ∉ send.calls) →
        Quiet { s with backend := s.backend.called .acceptIntentSend, slots } r slots := by
      rintro send rfl hu hc
      exact ⟨hu, hc, hlog ▸ hacc⟩
    rcases s.backend.acceptIntentSend_cases with
      h | ⟨-, claim, -, ⟨t, ht, -, h⟩ | ⟨request', gen', h⟩⟩
    · exact hsend h hleaves hc
    · refine hsend h ?_ (by simpa using hc)
      rw [Send.setIntentSendJson_intentSendJson, ht.requestId]
      exact hleaves
    · refine hsend h hleaves fun request gen slot hm => ?_
      rcases List.mem_append.mp hm with hm | hm
      · exact hc _ _ _ hm
      · cases List.mem_singleton.mp hm
        exact ha.1 rfl
  case declineIntentSend =>
    refine ⟨?_, ?_, hlog ▸ hacc⟩
    · show Unaccepted r (recordId s.backend.declineIntentSend.send.intentSendJson) slots
      simp only [State.declineIntentSend, Send.setIntentSendJson_intentSendJson, recordId_empty]
      exact ⟨ha, hl⟩
    · intro request gen slot hm
      have hm' : .send r request gen slot ∈ s.backend.declineIntentSend.send.calls := hm
      simp [State.declineIntentSend, Send.setIntentSendPricing] at hm'
      exact hc _ _ _ hm'
  all_goals cases hi

end Quiet

/-! ## The invariant -/

/-- Each app that was told `cancelled` has been told the truth. -/
structure Told (s : Desk) : Prop where
  held : s.Known s.view.intentSendRequestId
  errors : ∀ t, .intentSend t ∈ s.backend.send.outbox → recordError t ≠ "cancelled"
  outcomes : ∀ value ofSend, .lastSendOutcome value ofSend ∈ s.backend.send.outbox →
    value = .empty ∨ endedWith s.backend.core.log ofSend (outcomeStatus value) = true
  answers : ∀ a ∈ s.view.answers, a.error = "cancelled" → a.requestId ≠ "" ∧
    a.requestId ∈ s.requests ∧
      (s.Quiet a.requestId s.slots ∨ ∃ ofSend, s.endedCancelled a.requestId ofSend = true)

/-- The backend publishes: an event of its own, or a slot call. -/
theorem Told.published {s s' : Desk} {us : List Update} {heard : List Heard} (h : s.Told)
    (hem : s.backend.send.Emits s'.backend.send us)
    (hlog : s'.backend.core.log = heard ++ s.backend.core.log)
    (herrors : ∀ t, .intentSend t ∈ us → recordError t ≠ "cancelled")
    (houtcomes : ∀ value ofSend, .lastSendOutcome value ofSend ∈ us →
      value = .empty ∨ endedWith heard ofSend (outcomeStatus value) = true)
    (hquiet : ∀ r, r ≠ "" → s.Quiet r s.slots → s'.Quiet r s'.slots)
    (hview : s'.view = s.view) (hreq : s'.requests = s.requests) : s'.Told where
  held := by
    rw [Known, hview, hreq]
    exact h.held
  errors := by
    rw [hem.outbox]
    intro t ht
    exact (List.mem_append.mp ht).elim (h.errors t) (herrors t)
  outcomes := by
    rw [hem.outbox, hlog]
    intro value ofSend hm
    simp only [endedWith, List.any_append, Bool.or_eq_true]
    rcases List.mem_append.mp hm with hm | hm
    · exact (h.outcomes value ofSend hm).imp_right .inr
    · exact (houtcomes value ofSend hm).imp_right .inl
  answers := by
    rw [hview, hreq]
    intro a ha he
    obtain ⟨hne, hm, h'⟩ := h.answers a ha he
    refine ⟨hne, hm, h'.imp (hquiet _ hne) ?_⟩
    rintro ⟨ofSend, h'⟩
    refine ⟨ofSend, ?_⟩
    simp only [endedCancelled, Bool.and_eq_true] at h' ⊢
    rw [hlog]
    simp only [sentFor, endedWith, List.any_append, Bool.or_eq_true]
    exact ⟨.inr h'.1, .inr h'.2⟩

/-- The view answers: what is told `cancelled` is quiet, or its own send has ended so. -/
theorem Told.answered {s s' : Desk} (h : s.Told) (hb : s'.backend = s.backend)
    (hheld : s'.Known s'.view.intentSendRequestId) (hreq : s.requests ⊆ s'.requests)
    (hslots : ∀ r ∈ s.requests, r ≠ "" → s.Quiet r s.slots → s.Quiet r s'.slots)
    (hans : ∀ a ∈ s'.view.answers, a ∈ s.view.answers ∨ (a.error = "cancelled" →
      a.requestId = s.view.intentSendRequestId ∧ s.view.intentSendRequestId ≠ "" ∧
        (s.Quiet a.requestId s'.slots ∨ ∃ ofSend, s.endedCancelled a.requestId ofSend = true))) :
    s'.Told where
  held := hheld
  errors := hb ▸ h.errors
  outcomes := hb ▸ h.outcomes
  answers := by
    have hquiet : ∀ r, s.Quiet r s'.slots → s'.Quiet r s'.slots :=
      fun r hq => ⟨hb ▸ hq.unaccepted, hb ▸ hq.calls, hb ▸ hq.log⟩
    have hended : ∀ r ofSend, s.endedCancelled r ofSend = true →
        s'.endedCancelled r ofSend = true := by
      intro r ofSend he
      rwa [endedCancelled, hb]
    intro a ha he
    rcases hans a ha with ha | hnew
    · obtain ⟨hne, hm, h'⟩ := h.answers a ha he
      refine ⟨hne, hreq hm, h'.imp (fun hq => hquiet _ (hslots _ hm hne hq)) ?_⟩
      exact fun ⟨ofSend, he⟩ => ⟨ofSend, hended _ _ he⟩
    · obtain ⟨hr, hne, h'⟩ := hnew he
      have hm : s.view.intentSendRequestId ∈ s.requests := h.held.resolve_left hne
      refine ⟨hr ▸ hne, hreq (hr ▸ hm), h'.imp (hquiet _) ?_⟩
      exact fun ⟨ofSend, he⟩ => ⟨ofSend, hended _ _ he⟩

section

variable {s : Desk}

/-- What slots and replies publish is never the code `cancelled`. -/
theorem Told.error (h : s.Told) (hw : s.Wired) :
    recordError s.backend.send.intentSendJson ≠ "cancelled" := by
  rcases hw.published_record with he | hm
  · rw [he]
    decide
  · exact h.errors _ hm

/-- An event of the backend: an outcome it publishes is what the sender has ended the send with. -/
theorem Told.backend {e : Event} {b : State} (h : s.Told) (hw : s.Wired)
    (ht : s.backend.send.Turn (s.backend.heard e) b.send)
    (hlog : b.core.log = (s.backend.heard e).toList ++ s.backend.core.log) :
    Told { s with backend := b } := by
  obtain ⟨us, hem, hus⟩ := ht.says
  refine h.published hem hlog (fun t hm => ?_) (fun value ofSend hm => ?_)
    (fun r hr hq => hq.turn hr ht hlog) rfl rfl
  · rcases (hus _ hm).record with rfl | ⟨-, he⟩
    · decide
    · rw [he]
      exact h.error hw
  · cases hus _ hm with
    | quiet hq => exact hq.elim
    | forgotten => exact .inl rfl
    | outcome hx hset => exact .inr (by simp [hx, endedWith, hset])

theorem Told.slot {call : Slot} {slots : List Slot} (h : s.Told) (hw : s.Wired)
    (hslots : s.slots = call :: slots) :
    Told { s with backend := s.backend.called call, slots } := by
  have hi := hw.slots call (hslots ▸ List.mem_cons_self ..)
  have hlog : (s.backend.called call).core.log = [] ++ s.backend.core.log :=
    s.backend.called_log call
  obtain ⟨us, hem, hus⟩ := s.backend.called_writes hi
  refine h.published hem hlog (fun t hm => ?_) (fun value ofSend hm => ?_)
    (fun r hr hq => (hslots ▸ hq : s.Quiet r (call :: slots)).slot hi) rfl rfl
  · have hcode : ∀ {r : String}, RecordFor r t → recordError t ≠ "cancelled" := by
      rintro r ⟨-, ⟨he, -⟩ | ⟨-, he | he⟩⟩ <;> rw [he] <;> decide
    cases hus _ hm with
    | quiet hq => exact hq.elim
    | closed => decide
    | reviewed _ ht => exact hcode ht
    | refused ht => exact hcode ht
  · cases hus _ hm with
    | quiet hq => exact hq.elim

/-- An update answers `cancelled` for an outcome the sender has ended so, or for nothing sent. -/
theorem Told.read {u : Update} {us : List Update} (h : s.Told) (hc : s.cancels .update = true)
    (hunread : s.unread = u :: us) : Told { s with
      view := s.view.read u, slots := s.slots ++ (s.view.updated u).2, read := s.read + 1 } := by
  have hmem : u ∈ s.backend.send.outbox := Wired.mem_unread u (hunread ▸ List.mem_cons_self ..)
  by_cases hid : s.view.intentSendRequestId = ""
  · obtain ⟨hgone, hsame, hslots⟩ := View.updated_idle hid u
    refine h.answered rfl (.inl hgone) (List.Subset.refl _) ?_ fun a ha => .inl ?_
    · intro r _ _ hq
      rw [hslots, List.append_nil]
      exact hq
    · exact hsame ▸ ha
  · rcases View.updated_cases hid u with ⟨hkeep, hsame, hslots⟩ | ⟨hgone, a, hans, har, hbecause⟩
    · refine h.answered rfl ?_ (List.Subset.refl _) ?_ fun a ha => .inl ?_
      · show s.Known (s.view.read u).intentSendRequestId
        rw [hkeep]
        exact h.held
      · intro r _ _ hq
        rw [hslots, List.append_nil]
        exact hq
      · exact hsame ▸ ha
    · have hold : ∀ a' ∈ (s.view.read u).answers, a' = a ∨ a' ∈ s.view.answers :=
        fun a' ha' => List.mem_cons.mp (hans ▸ ha')
      rcases hbecause with ⟨hset, -, herr, hslots⟩ | ⟨-, ⟨t, rfl, -, herr⟩, hslots⟩
      · refine h.answered rfl (.inl hgone) (List.Subset.refl _) ?_ fun a' ha' => ?_
        · intro r _ _ hq
          rw [hslots, List.append_nil]
          exact hq
        · rcases hold a' ha' with rfl | ha'
          · refine .inr fun he => ⟨har, hid, ?_⟩
            have hout : (s.view.replica.write u).lastSendOutcomeJson =
                (s.view.outcomeRead u).1 := by cases u <;> rfl
            rw [he, hout] at herr
            have hstatus := (herr.resolve_left (by decide)).symm
            simp only [cancels, hunread, hset, hstatus, Bool.not_true, bne_self_eq_false,
              Bool.false_or, Bool.or_eq_true] at hc
            rw [hslots, List.append_nil, har]
            rcases hc with hc | hc
            · exact .inr ⟨_, hc⟩
            · exact .inl (quiet_iff.mp hc)
          · exact .inl ha'
      · refine h.answered rfl (.inl hgone) (List.Subset.refl _) ?_ fun a' ha' => ?_
        · intro r _ hr hq
          rw [hslots]
          exact ⟨hq.unaccepted.append nofun hr, hq.calls, hq.log⟩
        · rcases hold a' ha' with rfl | ha'
          · exact .inr fun he => absurd (herr ▸ he) (h.errors t hmem)
          · exact .inl ha'

/-- The request displaced is told `cancelled`. -/
theorem Told.requested {requestId requester : String} {params : Json} (h : s.Told)
    (hc : s.cancels (.requested requestId requester params) = true)
    (hnew : requestId ∉ s.requests) : Told { s with
      view := (s.view.requested requestId requester params).1
      slots := s.slots ++ (s.view.requested requestId requester params).2
      requests := requestId :: s.requests } := by
  refine h.answered rfl (.inr (List.mem_cons_self ..)) (List.subset_cons_self ..) ?_ ?_
  · intro r hm hr hq
    refine ⟨hq.unaccepted.append ?_ hr, hq.calls, hq.log⟩
    rintro j ⟨⟩ hj
    have hj' : requestId = r := hj
    exact hnew (hj' ▸ hm)
  · intro a ha
    simp only [cancels, Bool.or_eq_true, beq_iff_eq] at hc
    by_cases hid : s.view.intentSendRequestId = ""
    · simp only [View.requested, hid, bne_self_eq_false, Bool.false_eq_true, if_false] at ha
      exact .inl ha
    · simp only [View.requested, bne_iff_ne, ne_eq, hid, not_false_eq_true, if_true,
        View.answerIntent_held hid] at ha
      rcases List.mem_cons.mp ha with rfl | ha
      · exact .inr fun _ => ⟨rfl, hid, .inl (quiet_iff.mp (hc.resolve_left hid))⟩
      · exact .inl ha

/-- So is the request declined. -/
theorem Told.declined (h : s.Told) (hc : s.cancels .declined = true) : Told { s with
    view := s.view.declined.1, slots := s.slots ++ s.view.declined.2 } := by
  have hgone : s.view.declined.1.intentSendRequestId = "" := by
    simp only [View.declined, View.answerIntent]
    split
    · assumption
    · rfl
  refine h.answered rfl (.inl hgone) (List.Subset.refl _) ?_ fun a ha => ?_
  · intro r _ hr hq
    refine ⟨hq.unaccepted.append ?_ hr, hq.calls, hq.log⟩
    rintro a ⟨⟩
  · simp only [cancels, Bool.or_eq_true, beq_iff_eq] at hc
    by_cases hid : s.view.intentSendRequestId = ""
    · simp only [View.declined, View.answerIntent, hid, if_true] at ha
      exact .inl ha
    · simp only [View.declined, View.answerIntent_held hid] at ha
      rcases List.mem_cons.mp ha with rfl | ha
      · exact .inr fun _ => ⟨rfl, hid, .inl (quiet_iff.mp (hc.resolve_left hid))⟩
      · exact .inl ha

end

theorem Told.step {s s' : Desk} {e : DeskEvent} (h : s.Told) (hw : s.Wired)
    (hc : s.cancels e = true) (hs : s.step e = some s') : s'.Told := by
  cases step_move hs with
  | backend ht hlog => exact h.backend hw ht hlog
  | slot hslots => exact h.slot hw hslots
  | update hunread => exact h.read hc hunread
  | requested _ hnew => exact h.requested hc hnew
  | confirmed =>
    exact h.answered rfl h.held (List.Subset.refl _)
      (fun r _ hr hq => ⟨hq.unaccepted.append nofun hr, hq.calls, hq.log⟩) fun a ha => .inl ha
  | declined => exact h.declined hc

/-- In every run whose steps meet the condition, an app that is told `cancelled` has had nothing
sent, unless the sender has ended its own send so. -/
theorem cancelled_unsent (s : Desk) (h : desk.Runs (fun s e => s.cancels e = true) s) :
    ∀ a ∈ s.view.answers, a.error = "cancelled" →
      acceptedFor s.backend.core.log a.requestId = false ∨ ∃ ofSend,
        sentFor s.backend.core.log a.requestId ofSend = true ∧
          endedWith s.backend.core.log ofSend "cancelled" = true := by
  have ht : s.Told := by
    refine h.induct (fun s hs => ?_) fun s e s' hr ht hc hs => ht.step (wired hr.reach) hc hs
    cases hs
    exact ⟨.inl rfl, nofun, nofun, nofun⟩
  intro a ha he
  obtain ⟨-, -, hq | ⟨ofSend, hended⟩⟩ := ht.answers a ha he
  · exact .inl hq.log
  · simp only [endedCancelled, Bool.and_eq_true] at hended
    exact .inr ⟨ofSend, hended⟩

/-- A request is declined under review. -/
def turnedDown : List DeskEvent :=
  opened.map .backend ++ [.requested "r1" "app" tip, .slot, .update, .declined, .slot]

theorem cancelled_unsent_turnedDown :
    (∃ a ∈ (after turnedDown).view.answers, a.error = "cancelled" ∧ a.requestId = "r1") ∧
    ∀ a ∈ (after turnedDown).view.answers, a.error = "cancelled" →
      acceptedFor (after turnedDown).backend.core.log a.requestId = false ∨ ∃ ofSend,
        sentFor (after turnedDown).backend.core.log a.requestId ofSend = true ∧
          endedWith (after turnedDown).backend.core.log ofSend "cancelled" = true :=
  ⟨by decide +kernel,
    cancelled_unsent _ (runs_after turnedDown (by decide +kernel) (by decide +kernel))⟩

/-- A request is confirmed, and declined while its calls are with the sender, who accepts them. -/
def tooLate : List DeskEvent :=
  opened.map .backend ++
    [.requested "r1" "app" tip, .slot, .update, .update, .backend (.senderReply 0 (some (okReply []))),
     .update, .update, .confirmed, .slot, .declined,
     .backend (.senderReply 0 (some (okReply [("requestId", .str "B")])))]

theorem cancelled_sent : ¬∀ s, desk.Reach s → ∀ a ∈ s.view.answers, a.error = "cancelled" →
    acceptedFor s.backend.core.log a.requestId = false ∨ ∃ ofSend,
      sentFor s.backend.core.log a.requestId ofSend = true ∧
        endedWith s.backend.core.log ofSend "cancelled" = true := by
  intro h
  have hreach := runs_after (C := fun _ _ => True) tooLate (by decide +kernel) (by decide +kernel)
  have hans : ∃ a ∈ (after tooLate).view.answers, a.error = "cancelled" ∧ a.requestId = "r1" := by
    decide +kernel
  have hlog : (after tooLate).backend.core.log.all (fun x => x.settled.isNone) = true := by
    decide +kernel
  obtain ⟨a, ha, he, hr⟩ := hans
  rcases h _ hreach a ha he with hsent | ⟨ofSend, -, hended⟩
  · rw [hr] at hsent
    exact absurd hsent (by decide +kernel)
  · simp only [endedWith, List.any_eq_true] at hended
    obtain ⟨x, hx, hended⟩ := hended
    have hnone := List.all_eq_true.mp hlog x hx
    cases x with
    | reply | sender => cases hended
    | returned frame reply =>
      simp only [Bool.and_eq_true, beq_iff_eq] at hended
      rw [hended.1] at hnone
      cases hnone

end Desk

end EthWalletUi
