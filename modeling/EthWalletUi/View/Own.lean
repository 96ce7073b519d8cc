import EthWalletUi.View.Run

/-!
# An app hears about its own send

The outcome and the pending id are shared by the wallet's own sends and every app's. What the view
answers with is the outcome of the request's own send as long as no outcome lands before the
request has been reviewed, no other request is accepted under its review, and, while its send is
the pending one, nothing else starts or settles (`Desk.attributes`).

* `Desk.answers_own`: in every run whose steps meet the condition.
* `Desk.answers_other`: a request that arrives over a send is answered with that send's outcome.
-/

namespace EthWalletUi

open Qt Machine

/-- The sender has accepted send `requestId` from the calls of app request `forRequest`. -/
def sentFor (log : List Heard) (forRequest requestId : String) : Bool :=
  log.any fun
    | .sender (.send r _ _ _) res => r == forRequest && acceptedId (res.getD .empty) == some requestId
    | _ => false

theorem sentFor_cons {log : List Heard} {forRequest requestId : String} (h : Heard)
    (hs : sentFor log forRequest requestId = true) :
    sentFor (h :: log) forRequest requestId = true := by
  rw [sentFor, List.any_cons, Bool.or_eq_true]
  exact .inr hs

namespace Desk

variable (s : Desk)

/-- The send is that of the request. -/
def Own (forRequest requestId : String) : Prop :=
  sentFor s.backend.core.log forRequest requestId = true

/-- The request held waits for its own send, which is the pending one. -/
def awaited : Bool :=
  s.view.intentSendRequestId != "" && s.backend.send.pendingRequestId != "" &&
    sentFor s.backend.core.log s.view.intentSendRequestId s.backend.send.pendingRequestId

/-- An answer that leaves the request held its own. -/
def attributesHeard : Heard → Bool
  | .returned (.send ..) reply => (acceptedId reply).isNone || !s.awaited
  | .returned frame reply => match (Heard.returned frame reply).settled with
    | some ofSend => !s.awaited || ofSend == s.backend.send.pendingRequestId
    | none => true
  | .sender (.send forRequest _ _ slot) res => match acceptedId (res.getD .empty) with
    | some id => !s.backend.send.intentSend.isCurrent slot ||
      if forRequest = s.view.intentSendRequestId then id != ""
      else s.view.intentSendRequestId == "" ||
        recordId s.backend.send.intentSendJson != s.view.intentSendRequestId
    | none => true
  | _ => true

/-- The step leaves the request held its own send and that send's outcome. -/
def attributes : DeskEvent → Bool
  | .backend e => match s.backend.heard e with
    | some h => s.attributesHeard h
    | none => true
  | .update => match s.unread with
    | u :: _ => !s.view.settles u || s.view.reviewed
    | [] => true
  | _ => true

variable {s}

theorem attributable {h : Option Heard} (hid : s.view.intentSendRequestId ≠ "")
    (ha : ∀ x, h = some x → s.attributesHeard x = true) :
    s.backend.send.Attributable s.Own s.view.intentSendRequestId h where
  started := by
    rintro requestJson gen under reply id rfl hacc hp hown
    have hk := ha _ rfl
    have hs : s.awaited = true := by
      simp only [awaited, bne_iff_ne, ne_eq, hid, hp, not_false_eq_true, Bool.and_eq_true, true_and]
      exact hown
    simp [attributesHeard, hacc, hs] at hk
  settled := by
    rintro x ofSend rfl hset hp hown
    have hk := ha _ rfl
    have hs : s.awaited = true := by
      simp only [awaited, bne_iff_ne, ne_eq, hid, hp, not_false_eq_true, Bool.and_eq_true, true_and]
      exact hown
    cases x with
    | reply | sender => cases hset
    | returned frame reply =>
      cases frame
      case sendStatus | cancelSend => simpa [attributesHeard, hset, hs] using hk
      all_goals cases hset
  accepted := by
    rintro forRequest request gen slot res id rfl hacc hcur
    have hk := ha _ rfl
    simp only [attributesHeard, hacc, hcur, Bool.not_true, Bool.false_or] at hk
    split at hk
    · rename_i hfor
      exact ⟨fun _ => by simpa using hk, fun hne => absurd hfor hne⟩
    · rename_i hfor
      refine ⟨fun h => absurd h hfor, fun _ => ?_⟩
      simpa [hid] using hk

/-! ## The invariant -/

/-- The request held is on its way to an answer of its own, and the answers given were. -/
structure Owned (s : Desk) : Prop where
  held : s.view.intentSendRequestId ≠ "" → s.view.Held s.Own
    (Stage s.Own s.view.intentSendRequestId s.slots s.backend.send) s.unread
  answers : ∀ a ∈ s.view.answers, ∀ ofSend, a.because = .settled ofSend → s.Own a.requestId ofSend

/-- The backend publishes: an event of its own, or a slot call. -/
theorem Owned.published {s s' : Desk} {us : List Update} (ho : s.Owned) (hw : s.Wired)
    (hem : s.backend.send.Emits s'.backend.send us)
    (hown : ∀ r q, s.Own r q → s'.Own r q) (hview : s'.view = s.view) (hread : s'.read = s.read)
    (hstage : ∀ v : View, s.view.intentSendRequestId ≠ "" → v.replica = s.backend.send.replica →
      Stage s.Own s.view.intentSendRequestId s.slots s.backend.send v →
      ∃ vs, s.backend.send.Emits s'.backend.send vs ∧ v.Held s'.Own
        (Stage s'.Own s.view.intentSendRequestId s'.slots s'.backend.send) vs) : s'.Owned where
  held := by
    rw [hview, hw.unread_append hem hread]
    intro hid
    have hanswers : ∀ v u, View.Answers s.Own v u → View.Answers s'.Own v u := fun v u h =>
      ⟨h.1, fun hs hr => hown _ _ (h.2 hs hr)⟩
    have hreads := ((ho.held hid).mono hanswers fun _ h => h).replay View.replica_updated
    refine hreads.append ?_
    rintro v ⟨hst, hrep⟩
    obtain ⟨vs, hvs, hheld⟩ := hstage v hid (hrep.trans hw.sync) hst
    rwa [hem.unique hvs]
  answers := by
    rw [hview]
    exact fun a ha q hq => hown _ _ (ho.answers a ha q hq)

section

variable {s : Desk}

/-- An event of the backend is heard, and what is sent for a request stays so. -/
theorem Owned.backend {e : Event} {b : State} (ho : s.Owned) (hw : s.Wired)
    (ha : s.attributes (.backend e) = true) (ht : s.backend.send.Turn (s.backend.heard e) b.send)
    (hlog : b.core.log = (s.backend.heard e).toList ++ s.backend.core.log) :
    Owned { s with backend := b } := by
  have hown : ∀ r q, s.Own r q → Own { s with backend := b } r q := by
    intro r q h
    show sentFor b.core.log r q = true
    rw [hlog]
    cases s.backend.heard e with
    | none => exact h
    | some x => exact sentFor_cons x h
  obtain ⟨us, hem, -⟩ := ht.says
  refine ho.published hw hem hown rfl rfl fun v hid hrep hst => ?_
  have hatt : ∀ x, s.backend.heard e = some x → s.attributesHeard x = true := by
    intro x hx
    simpa [attributes, hx] using ha
  refine hst.turn hid hrep hown hw.calls (attributable hid hatt) ?_ ht
  intro request gen slot res id hx hacc
  show sentFor b.core.log _ id = true
  rw [hlog, hx, sentFor]
  simp [hacc]

theorem Owned.slot {call : Slot} {slots : List Slot} (ho : s.Owned) (hw : s.Wired)
    (hslots : s.slots = call :: slots) :
    Owned { s with backend := s.backend.called call, slots } := by
  have hi := hw.slots call (hslots ▸ List.mem_cons_self ..)
  have hown : ∀ r q, s.Own r q ↔ Own { s with backend := s.backend.called call, slots } r q := by
    intro r q
    simp only [Own, State.called_log]
  have heq : s.Own = Own { s with backend := s.backend.called call, slots } := by
    funext r q
    exact propext (hown r q)
  obtain ⟨us, hem, -⟩ := s.backend.called_writes hi
  refine ho.published hw hem (fun r q => (hown r q).mp) rfl rfl fun v hid hrep hst => ?_
  rw [← heq]
  rw [hslots] at hst
  exact hst.slot hid hrep hi

/-- An update that answers the request with an outcome answers it with its own. -/
theorem Owned.read {u : Update} {us : List Update} (ho : s.Owned)
    (ha : s.attributes .update = true) (hunread : s.unread = u :: us) : Owned { s with
      view := s.view.read u, slots := s.slots ++ (s.view.updated u).2, read := s.read + 1 } := by
  have hdrop := (unread_cons hunread).2
  by_cases hid : s.view.intentSendRequestId = ""
  · obtain ⟨hgone, hsame, -⟩ := View.updated_idle hid u
    refine ⟨fun h => absurd hgone h, ?_⟩
    show ∀ a ∈ (s.view.read u).answers, _
    rw [hsame]
    exact ho.answers
  · have hheld := ho.held hid
    rw [hunread] at hheld
    rcases View.updated_cases hid u with ⟨hkeep, hsame, hslots⟩ | ⟨hgone, a, hans, har, hbecause⟩
    · refine ⟨fun _ => ?_, ?_⟩
      · rcases hheld with ⟨hgone, -⟩ | ⟨-, hrest⟩
        · exact absurd (hkeep.symm.trans hgone) hid
        · simp only [unread, hdrop, hslots, List.append_nil]
          rw [hkeep]
          exact hrest
      · show ∀ a ∈ (s.view.read u).answers, _
        rw [hsame]
        exact ho.answers
    · refine ⟨fun h => absurd hgone h, ?_⟩
      show ∀ a ∈ (s.view.read u).answers, _
      rw [hans]
      intro b hb ofSend hof
      rcases List.mem_cons.mp hb with rfl | hb
      · rcases hbecause with ⟨hset, hb, -⟩ | ⟨hb, -⟩
        · have hrev : s.view.reviewed = true := by simpa [attributes, hunread, hset] using ha
          rcases hheld with ⟨-, hmine⟩ | ⟨hstay, -⟩
          · have hq : ofSend = (s.view.read u).outcomeOf := by
              rw [hb] at hof
              exact (Because.settled.inj hof).symm
            rw [har, hq]
            exact hmine hset hrev
          · exact absurd (hstay.symm.trans hgone) hid
        · rw [hb] at hof
          cases hof
      · exact ho.answers b hb ofSend hof

/-- A request that the shell hands over has nothing on its way yet. -/
theorem Owned.requested {requestId requester : String} {params : Json} (ho : s.Owned) (hw : s.Wired)
    (hne : requestId ≠ "") (hnew : requestId ∉ s.requests) : Owned { s with
      view := (s.view.requested requestId requester params).1
      slots := s.slots ++ (s.view.requested requestId requester params).2
      requests := requestId :: s.requests } := by
  have hother : ∀ r, s.Known r → r ≠ requestId := by
    rintro r (rfl | hr) rfl
    · exact hne rfl
    · exact hnew hr
  let v := (s.view.requested requestId requester params).1
  have hv : v.intentSendRequestId = requestId ∧ v.reviewed = false := ⟨rfl, rfl⟩
  have hrecord : v.intentSendJson = s.view.intentSendJson :=
    congrArg Replica.intentSendJson (s.view.requested_shows requestId requester params).1
  refine ⟨fun _ => ?_, ?_⟩
  · refine (View.waiting_reads hne hv.1 hv.2 (hrecord ▸ hother _ hw.known_shown) fun t ht =>
      hother _ (hw.records t (Wired.mem_unread _ ht))).mono (fun _ _ h => h) ?_
    rintro w ⟨hwid, hrev, hrec⟩
    refine .waiting hwid hrev hrec ⟨s.slots, _, [], rfl, rfl, fun j hj => ?_, nofun⟩
    exact hother _ (.inr (hw.reviews j hj))
  · intro a ha ofSend hof
    have hcases : a ∈ s.view.answers ∨ a.because = .displaced := by
      simp only [View.requested] at ha
      split at ha
      · simp only [View.answerIntent] at ha
        split at ha
        · exact .inl ha
        · rcases List.mem_cons.mp ha with rfl | ha
          · exact .inr rfl
          · exact .inl ha
      · exact .inl ha
    rcases hcases with h | h
    · exact ho.answers a h ofSend hof
    · rw [h] at hof
      cases hof

theorem Owned.declined (ho : s.Owned) : Owned { s with
    view := s.view.declined.1, slots := s.slots ++ s.view.declined.2 } := by
  refine ⟨fun h => absurd ?_ h, ?_⟩
  · simp only [View.declined, View.answerIntent]
    split
    · assumption
    · rfl
  · intro a ha ofSend hof
    simp only [View.declined, View.answerIntent] at ha
    split at ha
    · exact ho.answers a ha ofSend hof
    · rcases List.mem_cons.mp ha with rfl | ha
      · cases hof
      · exact ho.answers a ha ofSend hof

end

theorem Owned.step {s s' : Desk} {e : DeskEvent} (ho : s.Owned) (hw : s.Wired)
    (ha : s.attributes e = true) (hs : s.step e = some s') : s'.Owned := by
  cases step_move hs with
  | backend ht hlog => exact ho.backend hw ha ht hlog
  | slot hslots => exact ho.slot hw hslots
  | update hunread => exact ho.read ha hunread
  | requested hne hnew => exact ho.requested hw hne hnew
  | confirmed =>
    exact ⟨fun hid => (ho.held hid).mono (fun _ _ h => h) fun _ h => h.behind, ho.answers⟩
  | declined => exact ho.declined

/-- In every run whose steps meet the condition, a request is answered with the outcome of the send
that the sender accepted from its own calls. -/
theorem answers_own (s : Desk) (h : desk.Runs (fun s e => s.attributes e = true) s) :
    ∀ a ∈ s.view.answers, ∀ ofSend, a.because = .settled ofSend →
      sentFor s.backend.core.log a.requestId ofSend = true := by
  have ho : s.Owned := by
    refine h.induct (fun s hs => ?_) fun s e s' hr ho hc hs => ho.step (wired hr.reach) hc hs
    cases hs
    exact ⟨fun h => absurd rfl h, nofun⟩
  exact ho.answers

/-- The app's request: one call. -/
def tip : Json := .obj [("purpose", .str "a tip"),
  ("calls", .arr [.obj [("to", .str "0x1111111111111111111111111111111111111111")]])]

/-- The state that a run reaches. -/
def after (es : List DeskEvent) : Desk := (desk.exec {} es).getD {}

theorem runs_after {C : Desk → DeskEvent → Prop} (es : List DeskEvent) (hm : desk.Meets C {} es)
    (h : (desk.exec {} es).isSome = true) : desk.Runs C (after es) := by
  obtain ⟨s, hs⟩ := Option.isSome_iff_exists.mp h
  have hr : desk.Runs C s := Sys.Runs.exec (.init rfl) es hm hs
  rwa [after, hs]

/-- A request is reviewed, confirmed and sent, and its send settles. -/
def tipped : List DeskEvent :=
  opened.map .backend ++
    [.requested "r1" "app" tip, .slot, .update, .update, .backend (.senderReply 0 (some (okReply []))),
     .update, .update, .confirmed, .slot,
     .backend (.senderReply 0 (some (okReply [("requestId", .str "B")]))), .update, .update,
     .backend (.tick .send), .backend (.returned (okReply [("status", .str "broadcast")])),
     .update, .update]

theorem answers_own_tipped :
    (∃ a ∈ (after tipped).view.answers, a.because = .settled "B" ∧ a.requestId = "r1") ∧
    ∀ a ∈ (after tipped).view.answers, ∀ ofSend, a.because = .settled ofSend →
      sentFor (after tipped).backend.core.log a.requestId ofSend = true :=
  ⟨by decide +kernel,
    answers_own _ (runs_after tipped (by decide +kernel) (by decide +kernel))⟩

/-- The user's own send settles while a request is on its way to its review. -/
def crossed : List DeskEvent :=
  opened.map .backend ++
    [.backend (.slot (.submitSend .empty)), .backend (.returned (okReply [("requestId", .str "A")])),
     .update, .requested "r1" "app" tip, .backend (.tick .send),
     .backend (.returned (okReply [("status", .str "broadcast")])), .update, .update]

theorem answers_other : ¬∀ s, desk.Reach s → ∀ a ∈ s.view.answers, ∀ ofSend,
    a.because = .settled ofSend → sentFor s.backend.core.log a.requestId ofSend = true := by
  intro h
  have hreach := runs_after (C := fun _ _ => True) crossed (by decide +kernel) (by decide +kernel)
  have hans : ∃ a ∈ (after crossed).view.answers,
      a.because = .settled "A" ∧ a.requestId = "r1" := by
    decide +kernel
  obtain ⟨a, ha, hb, hr⟩ := hans
  have hsent := h _ hreach a ha "A" hb
  rw [hr] at hsent
  exact absurd hsent (by decide +kernel)

end Desk

end EthWalletUi
