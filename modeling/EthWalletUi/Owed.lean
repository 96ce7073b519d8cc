import EthWalletUi.Backend.Turn

/-!
# No accepted send is forgotten

A send that the sender accepted is owed a settlement: until a `send_status` or `cancel_send` query
for it is answered with one, its id is the pending one, which is what the poll asks about. The
backend writes that id without reading it again after a synchronous call, so two sends that overlap
inside one lose the first (`send_forgotten`). `kept_iff` says exactly which answers do that.

* `Heard.accepted`, `Heard.settled`, `owed`: what the answers heard so far leave owed.
* `State.Keeps`: the condition on an answer that is about to be handled.
* `State.step_pending`: what one event does to the pending id.
-/

namespace EthWalletUi

open Qt Machine

/-! ## What is owed -/

/-- The request id of an accepted send. -/
def acceptedId (reply : Text) : Option String :=
  if replyOk reply then some ((parseObject reply).value "requestId").toString else none

namespace Heard

/-- The send that an answer accepts, the wallet's own or an app's. -/
def accepted : Heard → Option String
  | .returned (.send ..) answer => acceptedId answer
  | .sender (.send ..) res => acceptedId (res.getD .empty)
  | _ => none

/-- The send that an answer settles. -/
def settled : Heard → Option String
  | .returned (.sendStatus requestId) answer | .returned (.cancelSend requestId) answer =>
    if (sendPolled answer).settled then some requestId else none
  | _ => none

theorem settled_of_accepted {h : Heard} {id : String} (ha : h.accepted = some id) :
    h.settled = none := by
  cases h with
  | reply | sender => rfl
  | returned frame answer => cases frame <;> first | rfl | cases ha

end Heard

/-- `id` has been accepted and not settled since; the newest answer comes first. -/
def owed : List Heard → String → Bool
  | [], _ => false
  | h :: log, id => h.settled != some id && (h.accepted == some id || owed log id)

theorem owed_quiet {h : Heard} (ha : h.accepted = none) (hs : h.settled = none)
    (log : List Heard) (id : String) : owed (h :: log) id = owed log id := by
  simp [owed, ha, hs]

theorem owed_accepted {h : Heard} {new : String} (ha : h.accepted = some new)
    (log : List Heard) (id : String) : owed (h :: log) id = (new == id || owed log id) := by
  simp [owed, ha, Heard.settled_of_accepted ha]

theorem owed_settled {h : Heard} {old : String} (hs : h.settled = some old)
    (log : List Heard) (id : String) : owed (h :: log) id = (old != id && owed log id) := by
  have ha : h.accepted = none := by
    cases ha : h.accepted with
    | none => rfl
    | some new =>
      rw [Heard.settled_of_accepted ha] at hs
      cases hs
  simp [owed, ha, hs, bne]

namespace State

variable (s : State)

/-- What the event is an answer to. -/
def heard : Event → Option Heard
  | .reply i res => s.core.calls[i]?.map fun call => .reply call res
  | .senderReply i res => s.send.calls[i]?.map fun call => .sender call res
  | .returned reply => s.core.stack.head?.map fun frame => .returned frame reply
  | _ => none

/-- Every accepted send that is not settled is the pending one. -/
def Kept : Prop := ∀ id, id ≠ "" → owed s.core.log id = true → s.send.pendingRequestId = id

/-- The user and the view start a send only while none is pending. -/
def startedIdle : Event → Bool
  | .slot (.submitSend _) | .slot .acceptIntentSend => s.send.pendingRequestId == ""
  | _ => true

/-! ## What an event does to the pending id -/

/-- Whether an answer is acted on: an app's send whose claim is no longer in force is not. -/
def takenUp : Heard → Bool
  | .sender (.send _ _ _ slot) _ => s.send.intentSend.isCurrent slot
  | _ => true

/-- The pending id once an answer has been handled. -/
def pendingAfter (h : Heard) : String :=
  match h.accepted, h.settled with
  | some id, _ => if s.takenUp h then id else s.send.pendingRequestId
  | none, some _ => ""
  | none, none => s.send.pendingRequestId

theorem pendingAfter_accepted {h : Heard} {id : String} (ha : h.accepted = some id) :
    s.pendingAfter h = if s.takenUp h then id else s.send.pendingRequestId := by
  simp only [pendingAfter, ha]

theorem pendingAfter_settled {h : Heard} {id : String} (hs : h.settled = some id) :
    s.pendingAfter h = "" := by
  cases ha : h.accepted with
  | none => simp only [pendingAfter, ha, hs]
  | some new =>
    rw [Heard.settled_of_accepted ha] at hs
    cases hs

theorem pendingAfter_quiet {h : Heard} (ha : h.accepted = none) (hs : h.settled = none) :
    s.pendingAfter h = s.send.pendingRequestId := by
  simp only [pendingAfter, ha, hs]

/-- The answer about to be handled loses no pending send: an accepted one finds none other pending
and its claim in force, a settled one is the pending one. -/
def keeps (e : Event) : Bool :=
  match s.heard e with
  | none => true
  | some h => match h.accepted, h.settled with
    | some id, _ =>
      if s.takenUp h then s.send.pendingRequestId == "" || s.send.pendingRequestId == id
      else id == "" || s.send.pendingRequestId == id
    | none, some id => s.send.pendingRequestId == "" || s.send.pendingRequestId == id
    | none, none => true

section Keeps

variable {s} {e : Event} {h : Heard} {id : String}

theorem keeps_accepted (hh : s.heard e = some h) (ha : h.accepted = some id) :
    s.keeps e = if s.takenUp h then s.send.pendingRequestId == "" || s.send.pendingRequestId == id
      else id == "" || s.send.pendingRequestId == id := by
  simp only [keeps, hh, ha]

theorem keeps_settled (hh : s.heard e = some h) (ha : h.accepted = none)
    (hs : h.settled = some id) :
    s.keeps e = (s.send.pendingRequestId == "" || s.send.pendingRequestId == id) := by
  simp only [keeps, hh, ha, hs]

theorem keeps_quiet (hh : s.heard e = some h) (ha : h.accepted = none) (hs : h.settled = none) :
    s.keeps e = true := by
  simp only [keeps, hh, ha, hs]

end Keeps

theorem called_pending (call : Slot) :
    (s.called call).send.pendingRequestId = s.send.pendingRequestId := by
  cases call with
  | submitSend => rfl
  | pollSend =>
    simp only [called, pollSend]
    split <;> rfl
  | cancelSend =>
    simp only [called, cancelSend]
    split <;> rfl
  | reviewIntentSend =>
    simp only [called, reviewIntentSend]
    split
    · simp
    · split <;> simp
  | acceptIntentSend =>
    simp only [called, acceptIntentSend]
    split
    · rfl
    · split
      · rfl
      · split <;> simp
  | declineIntentSend => simp [called, declineIntentSend, Send.setIntentSendPricing]
  | _ => rfl

theorem resumed_pending (frame : Frame) (answer : Text) :
    (s.resumed answer frame).send.pendingRequestId = s.pendingAfter (.returned frame answer) := by
  cases frame with
  | send requestJson gen under =>
    have ha : (Heard.returned (.send requestJson gen under) answer).accepted = acceptedId answer :=
      rfl
    cases hok : replyOk answer with
    | true =>
      rw [acceptedId, if_pos hok] at ha
      rw [s.pendingAfter_accepted ha]
      simp [resumed, sendReturned, applySend_ok hok, Send.start, takenUp]
    | false =>
      rw [acceptedId, if_neg (by simp [hok])] at ha
      rw [s.pendingAfter_quiet ha rfl]
      simp [resumed, sendReturned, applySend_refused hok]
  | sendStatus requestId =>
    have hs : (Heard.returned (.sendStatus requestId) answer).settled =
        if (sendPolled answer).settled then some requestId else none := rfl
    cases hp : (sendPolled answer).settled with
    | true =>
      rw [if_pos hp] at hs
      rw [s.pendingAfter_settled hs]
      simp [resumed, statusReturned, hp, Send.settle]
    | false =>
      rw [if_neg (by simp [hp])] at hs
      rw [s.pendingAfter_quiet rfl hs]
      simp [resumed, statusReturned, hp]
  | cancelSend requestId =>
    have hs : (Heard.returned (.cancelSend requestId) answer).settled =
        if (sendPolled answer).settled then some requestId else none := rfl
    cases hp : (sendPolled answer).settled with
    | true =>
      rw [if_pos hp] at hs
      rw [s.pendingAfter_settled hs]
      simp [resumed, cancelReturned, hp, Send.settle]
    | false =>
      rw [if_neg (by simp [hp])] at hs
      rw [s.pendingAfter_quiet rfl hs]
      simp [resumed, cancelReturned, hp]
  | _ => rfl

theorem senderReplied_pending (res : Option Text) (call : SenderCall) :
    (s.senderReplied res call).send.pendingRequestId = s.pendingAfter (.sender call res) := by
  cases call with
  | prepare forRequest slot =>
    have ha : (Heard.sender (.prepare forRequest slot) res).accepted = none := rfl
    rw [s.pendingAfter_quiet ha rfl]
    simp only [senderReplied, prepareReplied]
    split
    · rfl
    · split <;> simp [Send.setIntentSendPricing]
  | send forRequest request gen slot =>
    have ha : (Heard.sender (.send forRequest request gen slot) res).accepted =
        acceptedId (res.getD .empty) := rfl
    have hcur : (s.send.intentSend.release slot).isCurrent slot =
        s.send.intentSend.isCurrent slot := by
      simp [InFlight.isCurrent]
    cases hok : replyOk (res.getD .empty) with
    | true =>
      rw [acceptedId, if_pos hok] at ha
      rw [s.pendingAfter_accepted ha]
      cases hc : s.send.intentSend.isCurrent slot with
      | true =>
        simp [senderReplied, sendReplied, hcur, hc, hok, applySend_ok hok, takenUp, Send.start]
      | false => simp [senderReplied, sendReplied, hcur, hc, takenUp]
    | false =>
      rw [acceptedId, if_neg (by simp [hok])] at ha
      rw [s.pendingAfter_quiet ha rfl]
      simp only [senderReplied, sendReplied, hok]
      split
      · rfl
      · simp

theorem ticked_pending {s s' : State} {poll : Poll} (h : s.ticked poll = some s') :
    s'.send.pendingRequestId = s.send.pendingRequestId := by
  cases ticked_cases h with
  | send => exact s.called_pending .pollSend
  | settling => rfl
  | accounts | pending | verified | quote => rw [onCore_send]

theorem lapsed_pending {s s' : State} {i : Nat} {guard : Guarded}
    (h : s.lapsed i guard = some s') : s'.send.pendingRequestId = s.send.pendingRequestId := by
  cases guard <;> simp only [lapsed, Option.map_eq_some_iff] at h <;> obtain ⟨w, -, rfl⟩ := h
  case price => simp
  all_goals rfl

/-- What one event does to the pending id, and what is heard in it. -/
theorem step_pending {s s' : State} {e : Event} (h : s.step e = some s') :
    s'.core.log = (s.heard e).toList ++ s.core.log ∧
      s'.send.pendingRequestId =
        ((s.heard e).map s.pendingAfter).getD s.send.pendingRequestId := by
  cases e with
  | slot call =>
    cases h
    exact ⟨(s.called_path call).kept.1, s.called_pending call⟩
  | signal what =>
    cases h
    exact ⟨(s.core.signalled_path what).kept.1, rfl⟩
  | reply i res =>
    simp only [step, Option.map_eq_some_iff] at h
    obtain ⟨call, hc, rfl⟩ := h
    simp only [heard, hc, Option.map_some, Option.getD_some]
    let s₁ : State := (s.hear (.reply call res)).onCore fun c =>
      { c with calls := c.calls.eraseIdx i }
    have hm : Heard.reply call res ∈ s₁.core.log := List.mem_cons_self ..
    exact ⟨(s₁.core.replied_kept hm).1, (s.pendingAfter_quiet rfl rfl).symm⟩
  | senderReply i res =>
    simp only [step, Option.map_eq_some_iff] at h
    obtain ⟨call, hc, rfl⟩ := h
    simp only [heard, hc, Option.map_some, Option.getD_some]
    let s₁ : State := { s.hear (.sender call res) with
      send := { s.send with calls := s.send.calls.eraseIdx i } }
    exact ⟨(s₁.senderReplied_path res call).kept.1, s₁.senderReplied_pending res call⟩
  | returned answer =>
    simp only [step] at h
    split at h
    · rename_i frame stack hs
      cases h
      simp only [heard, hs, List.head?_cons, Option.map_some, Option.getD_some]
      let s₁ : State := (s.hear (.returned frame answer)).onCore fun c => { c with stack }
      have hm : Heard.returned frame answer ∈ s₁.core.log := List.mem_cons_self ..
      exact ⟨(s₁.resumed_path hm).kept.1, s₁.resumed_pending frame answer⟩
    · cases h
  | tick poll => exact ⟨(ticked_path h).kept.1, ticked_pending h⟩
  | soon i =>
    simp only [step, Option.map_eq_some_iff] at h
    obtain ⟨what, hw, rfl⟩ := h
    let s₁ : State := s.onCore fun c => { c with soon := c.soon.eraseIdx i }
    cases what with
    | refresh => exact ⟨(s₁.core.refresh_kept _).1, rfl⟩
    | pollSend => exact ⟨s₁.pollSend_path.kept.1, s₁.called_pending .pollSend⟩
    | loadBalancesAndHistory => exact ⟨s₁.core.loadBalancesAndHistory_path.kept.1, rfl⟩
  | lapse guard i => exact ⟨(lapsed_path h).kept.1, lapsed_pending h⟩
  | elapse ms =>
    cases h
    exact ⟨rfl, rfl⟩

/-! ## Runs -/

/-- What is owed is the pending send, and nothing else. -/
def OwedIffPending : Prop :=
  ∀ id, id ≠ "" → (owed s.core.log id = true ↔ s.send.pendingRequestId = id)

variable {s} {s' : State} {e : Event}

theorem OwedIffPending.kept (h : s.OwedIffPending) : s.Kept := fun id hid ho => (h id hid).mp ho

/-- An answer that the condition lets through keeps what is owed and what is pending the same. -/
theorem OwedIffPending.step (hi : s.OwedIffPending) (h : s.step e = some s')
    (hk : s.keeps e = true) : s'.OwedIffPending := by
  obtain ⟨hlog, hpending⟩ := step_pending h
  intro id hid
  have hold := hi id hid
  cases hh : s.heard e with
  | none =>
    rw [hlog, hpending, hh]
    exact hold
  | some x =>
    rw [hh] at hlog hpending
    simp only [Option.toList_some, List.singleton_append, Option.map_some, Option.getD_some]
      at hlog hpending
    rw [hlog, hpending]
    cases ha : x.accepted with
    | some new =>
      rw [keeps_accepted hh ha] at hk
      rw [owed_accepted ha, s.pendingAfter_accepted ha, Bool.or_eq_true, beq_iff_eq, hold]
      by_cases ht : s.takenUp x = true
      · simp only [ht, if_true, Bool.or_eq_true, beq_iff_eq] at hk ⊢
        refine ⟨?_, .inl⟩
        rintro (rfl | rfl)
        · rfl
        · exact (hk.resolve_left hid).symm
      · simp only [ht, Bool.false_eq_true, if_false, Bool.or_eq_true, beq_iff_eq] at hk ⊢
        refine ⟨?_, .inr⟩
        rintro (rfl | rfl)
        · exact hk.resolve_left hid
        · rfl
    | none =>
      cases hs : x.settled with
      | none =>
        rw [owed_quiet ha hs, s.pendingAfter_quiet ha hs]
        exact hold
      | some old =>
        rw [keeps_settled hh ha hs, Bool.or_eq_true, beq_iff_eq, beq_iff_eq] at hk
        rw [owed_settled hs, s.pendingAfter_settled hs, Bool.and_eq_true, hold, bne_iff_ne]
        refine ⟨?_, fun h => absurd h.symm hid⟩
        rintro ⟨hne, rfl⟩
        exact absurd (hk.resolve_left hid).symm hne

/-- An answer that the condition does not let through loses a pending send. -/
theorem OwedIffPending.lost (hi : s.OwedIffPending) (h : s.step e = some s') (hk : s'.Kept) :
    s.keeps e = true := by
  obtain ⟨hlog, hpending⟩ := step_pending h
  have hpo (hp : s.send.pendingRequestId ≠ "") :
      owed s.core.log s.send.pendingRequestId = true := (hi _ hp).mpr rfl
  cases hh : s.heard e with
  | none => simp only [keeps, hh]
  | some x =>
    rw [hh] at hlog hpending
    simp only [Option.toList_some, List.singleton_append, Option.map_some, Option.getD_some]
      at hlog hpending
    unfold Kept at hk
    rw [hlog, hpending] at hk
    cases ha : x.accepted with
    | some new =>
      simp only [owed_accepted ha, s.pendingAfter_accepted ha, Bool.or_eq_true, beq_iff_eq] at hk
      rw [keeps_accepted hh ha]
      by_cases ht : s.takenUp x = true
      · simp only [ht, if_true, Bool.or_eq_true, beq_iff_eq] at hk ⊢
        by_cases hp : s.send.pendingRequestId = ""
        · exact .inl hp
        · exact .inr (hk _ hp (.inr (hpo hp))).symm
      · simp only [ht, Bool.false_eq_true, if_false, Bool.or_eq_true, beq_iff_eq] at hk ⊢
        by_cases hn : new = ""
        · exact .inl hn
        · exact .inr (hk new hn (.inl rfl))
    | none =>
      cases hs : x.settled with
      | none => exact keeps_quiet hh ha hs
      | some old =>
        rw [keeps_settled hh ha hs, Bool.or_eq_true, beq_iff_eq, beq_iff_eq]
        simp only [owed_settled hs, s.pendingAfter_settled hs, Bool.and_eq_true, bne_iff_ne] at hk
        by_cases hp : s.send.pendingRequestId = ""
        · exact .inl hp
        · refine .inr (Decidable.byContradiction fun hne => hp ?_)
          exact (hk _ hp ⟨Ne.symm hne, hpo hp⟩).symm

/-- A run loses no accepted send exactly as long as every answer handled is let through. -/
theorem kept_iff (s : State) (h : backend.Runs (fun s e => s.keeps e = true) s) :
    s.Kept ∧ ∀ e s', s.step e = some s' → (s'.Kept ↔ s.keeps e = true) := by
  have hi : s.OwedIffPending := by
    refine h.induct ?_ fun s e s' _ ih hk hs => ih.step hs hk
    rintro s rfl id hid
    exact ⟨nofun, fun h => absurd h.symm hid⟩
  exact ⟨hi.kept, fun e s' hs => ⟨hi.lost hs, fun hk => (hi.step hs hk).kept⟩⟩

/-- An app's request for one call, under review and accepted. -/
def appSend : List Event :=
  [.slot (.reviewIntentSend (toJsonCompact [("requestId", .str "r1"), ("requester", .str "app"),
    ("params", .obj [("purpose", .str "a tip"),
      ("calls", .arr [.obj [("to", .str "0x1111111111111111111111111111111111111111")]])])])),
   .slot .acceptIntentSend]

/-- The app's send is accepted, polled and settled. -/
def appSendSettled : List Event :=
  opened ++ appSend ++
    [.senderReply 1 (some (okReply [("requestId", .str "B")])), .tick .send,
     .returned (okReply [("status", .str "broadcast")])]

theorem kept_iff_appSendSettled :
    (after appSendSettled).Kept ∧ (after appSendSettled).send.pendingRequestId = "" :=
  ⟨(kept_iff _ (Sys.Runs.exec (.init rfl) appSendSettled (by decide +kernel)
    (by decide +kernel))).1, by decide +kernel⟩

/-- The user's own send is submitted while the app's is on its way to the sender: both are accepted,
and the second forgets the first. -/
def bothSent : List Event :=
  opened ++ appSend ++
    [.slot (.submitSend .empty), .returned (okReply [("requestId", .str "A")]),
     .senderReply 1 (some (okReply [("requestId", .str "B")]))]

theorem send_forgotten :
    ¬∀ s, backend.Runs (fun s e => s.startedIdle e = true) s → s.Kept := by
  intro h
  have hk := h (after bothSent)
    (Sys.Runs.exec (.init rfl) bothSent (by decide +kernel) (by decide +kernel))
  have ho : (after bothSent).send.pendingRequestId = "A" := hk "A" (by decide) (by decide +kernel)
  exact absurd ho (by decide +kernel)

end State

end EthWalletUi
