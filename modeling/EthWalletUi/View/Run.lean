import EthWalletUi.View.Stage

/-!
# Runs of the view and the backend

What holds in every state that the two reach together, whatever the orders: the view's replica is
what the backend published, up to what it has not read, and every record names a request that the
shell has handed over (`Desk.Wired`, `Desk.wired`).
-/

namespace EthWalletUi

open Qt Machine

/-! ## What an event mentions -/

/-- A record written is the last one written, or there is none in the updates. -/
theorem Replica.foldl_write_record (us : List Update) (r : Replica) :
    (us.foldl Replica.write r).intentSendJson = r.intentSendJson ∨
      .intentSend (us.foldl Replica.write r).intentSendJson ∈ us := by
  induction us generalizing r with
  | nil => exact .inl rfl
  | cons u us ih =>
    rcases ih (r.write u) with h | h
    · rw [List.foldl_cons, h]
      cases u with
      | intentSend t => exact .inr (List.mem_cons_self ..)
      | _ => exact .inl rfl
    · exact .inr (List.mem_cons_of_mem _ h)

/-- What an event of the backend publishes, given what is heard in it. -/
inductive Send.Says (s : Send) (heard : Option Heard) : Update → Prop
  | quiet {u : Update} : u.Quiet → Says s heard u
  | pending (requestId : String) : Says s heard (.pendingRequestId requestId)
  | forgotten : Says s heard (.lastSendOutcome .empty "")
  | outcome {frame : Frame} {reply : Text} {ofSend : String} :
      heard = some (.returned frame reply) → (Heard.returned frame reply).settled = some ofSend →
        Says s heard (.lastSendOutcome (toJsonCompact (sendPolled reply).outcome) ofSend)
  | closed : Says s heard (.intentSend .empty)
  | annotated {key : String} (value : Json) : key ∈ ["fee", "feeError", "sendError"] →
      Says s heard (.intentSend (toJsonCompact (s.underReview.insert key value)))

theorem Send.Turn.says {s s' : Send} {heard : Option Heard} (ht : s.Turn heard s') :
    ∃ us, s.Emits s' us ∧ ∀ u ∈ us, s.Says heard u := by
  cases ht with
  | idle sendPoll => exact ⟨[], .none rfl rfl, nofun⟩
  | @lapsed price _ =>
    refine ⟨_, s.setPrice_emits price, fun u hu => ?_⟩
    rw [(Send.mem_news hu).1]
    exact .quiet trivial
  | @started _ _ _ _ requestId handle hid =>
    obtain ⟨us, hem, hus⟩ := s.start_emits { accepted := true, requestId, handle }
    refine ⟨us, hem, fun u hu => ?_⟩
    rcases hus u hu with rfl | rfl | rfl
    · exact .forgotten
    · exact .quiet trivial
    · exact .pending _
  | @settled frame reply ofSend hs =>
    obtain ⟨s₁, hem⟩ := s.settle_emits (sendPolled reply) ofSend
    refine ⟨_, hem, fun u hu => ?_⟩
    simp only [List.mem_append] at hu
    rcases hu with hu | hu | hu <;> rw [(Send.mem_news hu).1]
    · exact .outcome rfl hs
    · exact .quiet trivial
    · exact .pending _
  | @prepared i slot forRequest res b hc hb =>
    obtain ⟨us, hem, hus⟩ := Send.prepareReplied_emits hb forRequest slot res
    refine ⟨us, hem, fun u hu => ?_⟩
    rcases hus u hu with hq | ⟨-, key, hkey, value, rfl⟩
    · exact .quiet hq
    · exact .annotated value (List.mem_append_left ["sendError"] hkey)
  | @replied i gen slot forRequest request res b hc hb =>
    rcases Send.sendReplied_emits hb gen slot res with
      ⟨-, hem⟩ | ⟨-, ⟨us, hem, hus⟩ | ⟨id, us, started, -, -, hus, -, -, hem⟩⟩
    · exact ⟨[], hem, nofun⟩
    · refine ⟨us, hem, fun u hu => ?_⟩
      obtain ⟨key, hkey, value, rfl⟩ := hus u hu
      exact .annotated value (List.mem_append_right ["fee", "feeError"] hkey)
    · refine ⟨_, hem, fun u hu => ?_⟩
      rcases List.mem_append.mp hu with hu | hu
      · rcases hus u hu with hq | rfl | rfl
        · exact .quiet hq
        · exact .forgotten
        · exact .pending _
      · rw [(Send.mem_news hu).1]
        exact .closed

/-- An event writes no record of another request, and no refusal. -/
theorem Send.Says.record {s : Send} {heard : Option Heard} {t : Text}
    (h : s.Says heard (.intentSend t)) : t = .empty ∨
      recordId t = recordId s.intentSendJson ∧ recordError t = recordError s.intentSendJson := by
  cases h with
  | quiet h => exact h.elim
  | closed => exact .inl rfl
  | annotated value hkey =>
    have hann : s.Annotates _ (.intentSend _) := ⟨_, hkey, value, rfl⟩
    obtain ⟨hid, -, herror⟩ := hann.record (by decide) (by decide)
    exact .inr ⟨hid, herror⟩

/-- What a slot call publishes: the record of the request it names, or of the one under review. -/
inductive Send.Writes (s : Send) (call : Slot) : Update → Prop
  | quiet {u : Update} : u.Quiet → Writes s call u
  | closed : Writes s call (.intentSend .empty)
  | reviewed {requestJson t : Text} : call = .reviewIntentSend requestJson →
      RecordFor (recordId requestJson) t → Writes s call (.intentSend t)
  | refused {t : Text} : RecordFor (recordId s.intentSendJson) t → Writes s call (.intentSend t)

theorem State.called_writes (b : State) {call : Slot} (hi : (Event.slot call).ofIntent = true) :
    ∃ us, b.send.Emits (b.called call).send us ∧ ∀ u ∈ us, b.send.Writes call u := by
  cases call
  case reviewIntentSend j =>
    obtain ⟨t, us, ht, hus, hem⟩ := b.reviewIntentSend_emits j
    refine ⟨_, hem, fun u hu => ?_⟩
    rcases List.mem_append.mp hu with h | h
    · rw [(Send.mem_news h).1]
      exact .reviewed rfl ht
    · exact .quiet (hus u h)
  case acceptIntentSend =>
    obtain ⟨us, hem, hus⟩ := b.acceptIntentSend_emits
    refine ⟨us, hem, fun u hu => ?_⟩
    obtain ⟨-, t, rfl, ht, -⟩ := hus u hu
    exact .refused ht
  case declineIntentSend =>
    obtain ⟨us, hus, hem⟩ := b.declineIntentSend_emits
    refine ⟨_, hem, fun u hu => ?_⟩
    rcases List.mem_append.mp hu with h | h
    · exact .quiet (hus u h)
    · rw [(Send.mem_news h).1]
      exact .closed
  all_goals cases hi

namespace Desk

/-! ## What one step of the two does -/

inductive Move (s : Desk) : DeskEvent → Desk → Prop
  | backend {e : Event} {b : State} : s.backend.send.Turn (s.backend.heard e) b.send →
      b.core.log = (s.backend.heard e).toList ++ s.backend.core.log →
      Move s (.backend e) { s with backend := b }
  | slot {call : Slot} {slots : List Slot} : s.slots = call :: slots →
      Move s .slot { s with backend := s.backend.called call, slots }
  | update {u : Update} {us : List Update} : s.unread = u :: us →
      Move s .update { s with
        view := s.view.read u, slots := s.slots ++ (s.view.updated u).2, read := s.read + 1 }
  | requested {requestId requester : String} {params : Json} : requestId ≠ "" →
      requestId ∉ s.requests →
      Move s (.requested requestId requester params) { s with
        view := (s.view.requested requestId requester params).1
        slots := s.slots ++ (s.view.requested requestId requester params).2
        requests := requestId :: s.requests }
  | confirmed : Move s .confirmed { s with slots := s.slots ++ [.acceptIntentSend] }
  | declined : Move s .declined { s with
      view := s.view.declined.1, slots := s.slots ++ s.view.declined.2 }

theorem step_move {s s' : Desk} {e : DeskEvent} (h : s.step e = some s') : s.Move e s' := by
  cases e with
  | backend e =>
    simp only [Desk.step] at h
    split at h
    · cases h
    · rename_i hi
      obtain ⟨b, hb, rfl⟩ := Option.map_eq_some_iff.mp h
      exact .backend (s.backend.step_sends (by simpa using hi) hb) (State.step_pending hb).1
  | slot =>
    simp only [Desk.step] at h
    split at h
    · cases h
    · cases h
      exact .slot ‹_›
  | update =>
    simp only [Desk.step] at h
    split at h
    · cases h
    · cases h
      exact .update ‹_›
  | requested requestId requester params =>
    simp only [Desk.step] at h
    split at h
    · cases h
    · rename_i hfresh
      cases h
      exact .requested (not_or.mp hfresh).1 (not_or.mp hfresh).2
  | confirmed =>
    simp only [Desk.step] at h
    split at h
    · cases h
      exact .confirmed
    · cases h
  | declined =>
    simp only [Desk.step] at h
    split at h
    · cases h
      exact .declined
    · cases h

/-! ## What every run keeps -/

/-- A request that the shell has handed over, or none. -/
def Known (s : Desk) (requestId : String) : Prop := requestId = "" ∨ requestId ∈ s.requests

/-- The oldest update is read. -/
theorem unread_cons {s : Desk} {u : Update} {us : List Update} (h : s.unread = u :: us) :
    s.read < s.backend.send.outbox.length ∧ s.backend.send.outbox.drop (s.read + 1) = us := by
  refine ⟨?_, ?_⟩
  · by_contra hle
    rw [unread, List.drop_eq_nil_of_le (Nat.not_lt.mp hle)] at h
    cases h
  · rw [← List.tail_drop]
    exact congrArg List.tail h

structure Wired (s : Desk) : Prop where
  read_le : s.read ≤ s.backend.send.outbox.length
  /-- Once it has read every update, the view has what the backend published. -/
  sync : s.unread.foldl Replica.write s.view.replica = s.backend.send.replica
  calls : s.backend.send.CallsOk
  slots : ∀ call ∈ s.slots, (Event.slot call).ofIntent = true
  records : ∀ t, .intentSend t ∈ s.backend.send.outbox → s.Known (recordId t)
  /-- What the view shows has been published. -/
  shown : s.view.intentSendJson = .empty ∨ .intentSend s.view.intentSendJson ∈ s.backend.send.outbox
  outcome : s.view.lastSendOutcomeJson = .empty ∨
    .lastSendOutcome s.view.lastSendOutcomeJson s.view.outcomeOf ∈ s.backend.send.outbox
  reviews : ∀ j, .reviewIntentSend j ∈ s.slots → recordId j ∈ s.requests

namespace Wired

variable {s s' : Desk} {us : List Update}

theorem mem_unread (u : Update) (h : u ∈ s.unread) : u ∈ s.backend.send.outbox :=
  List.mem_of_mem_drop h

/-- What the backend publishes is read after what it has published before. -/
theorem unread_append (hw : s.Wired) (hem : s.backend.send.Emits s'.backend.send us)
    (hread : s'.read = s.read) : s'.unread = s.unread ++ us := by
  rw [unread, unread, hem.outbox, hread, List.drop_append_of_le_length hw.read_le]

/-- The record under review has been published. -/
theorem published_record (hw : s.Wired) : s.backend.send.intentSendJson = .empty ∨
    .intentSend s.backend.send.intentSendJson ∈ s.backend.send.outbox := by
  have hr : s.backend.send.intentSendJson =
      (s.unread.foldl Replica.write s.view.replica).intentSendJson :=
    congrArg Replica.intentSendJson hw.sync.symm
  rcases Replica.foldl_write_record s.unread s.view.replica with h | h
  · rw [hr, h]
    exact hw.shown
  · rw [hr]
    exact .inr (mem_unread _ h)

/-- So it has whatever else the view does. -/
theorem shows (hw : s.Wired) {v : View} (hv : v.replica = s.view.replica)
    (hof : v.outcomeOf = s.view.outcomeOf) :
    (v.intentSendJson = .empty ∨ .intentSend v.intentSendJson ∈ s.backend.send.outbox) ∧
      (v.lastSendOutcomeJson = .empty ∨
        .lastSendOutcome v.lastSendOutcomeJson v.outcomeOf ∈ s.backend.send.outbox) := by
  have hrecord : v.intentSendJson = s.view.intentSendJson := congrArg Replica.intentSendJson hv
  have hout : v.lastSendOutcomeJson = s.view.lastSendOutcomeJson :=
    congrArg Replica.lastSendOutcomeJson hv
  rw [hrecord, hout, hof]
  exact ⟨hw.shown, hw.outcome⟩

theorem known_shown (hw : s.Wired) : s.Known (recordId s.view.intentSendJson) := by
  rcases hw.shown with h | h
  · exact .inl (by rw [h, recordId_empty])
  · exact hw.records _ h

theorem record (hw : s.Wired) : s.Known (recordId s.backend.send.intentSendJson) := by
  rcases hw.published_record with h | h
  · exact .inl (by rw [h, recordId_empty])
  · exact hw.records _ h

/-- An event of the backend, or a slot call that reaches it. -/
theorem published (hw : s.Wired) (hem : s.backend.send.Emits s'.backend.send us)
    (hus : ∀ t, .intentSend t ∈ us → s.Known (recordId t))
    (hcalls : s'.backend.send.CallsOk) (hslots : s'.slots ⊆ s.slots) (hview : s'.view = s.view)
    (hread : s'.read = s.read) (hreq : s'.requests = s.requests) : s'.Wired where
  read_le := by
    rw [hread, hem.outbox, List.length_append]
    exact Nat.le_add_right_of_le hw.read_le
  sync := by
    rw [hw.unread_append hem hread, List.foldl_append, hview, hw.sync, hem.replica]
  calls := hcalls
  slots := fun call hc => hw.slots call (hslots hc)
  records := by
    intro t ht
    rw [hem.outbox, List.mem_append] at ht
    rw [Known, hreq]
    rcases ht with ht | ht
    · exact hw.records t ht
    · exact hus t ht
  shown := by
    rw [hview, hem.outbox]
    exact hw.shown.imp_right (List.mem_append_left us)
  outcome := by
    rw [hview, hem.outbox]
    exact hw.outcome.imp_right (List.mem_append_left us)
  reviews := fun j hj => hreq ▸ hw.reviews j (hslots hj)

/-- The view's own slot calls are those of an app's request. -/
theorem updated_slots (v : View) (u : Update) :
    ∀ call ∈ (v.updated u).2, call = .declineIntentSend := by
  cases u with
  | intentSend value =>
    simp only [View.updated, View.onIntentSendJsonChanged]
    split
    · exact List.forall_mem_nil _
    · split
      · exact List.forall_mem_nil _
      · exact fun _ h => List.mem_singleton.mp h
  | _ => exact List.forall_mem_nil _

/-- An event of the backend. -/
theorem turned (hw : s.Wired) {heard : Option Heard} {b : State}
    (ht : s.backend.send.Turn heard b.send) : Wired { s with backend := b } := by
  obtain ⟨us, hem, hus⟩ := ht.says
  refine hw.published hem (fun t h => ?_) (hw.calls.turn ht) (fun _ h => h) rfl rfl rfl
  rcases (hus _ h).record with rfl | ⟨h, -⟩
  · exact .inl rfl
  · rw [h]
    exact hw.record

/-- A slot call of the view reaches the backend. -/
theorem reached (hw : s.Wired) {call : Slot} {slots : List Slot} (hslots : s.slots = call :: slots) :
    Wired { s with backend := s.backend.called call, slots } := by
  have hmem : call ∈ s.slots := hslots ▸ List.mem_cons_self ..
  have hi := hw.slots call hmem
  have hsub : slots ⊆ s.slots := hslots ▸ List.subset_cons_self ..
  obtain ⟨us, hem, hus⟩ := s.backend.called_writes hi
  refine hw.published hem (fun t h => ?_) (Send.CallsOk.called _ hw.calls call hi) hsub rfl rfl rfl
  cases hus _ h with
  | quiet h => exact h.elim
  | closed => exact .inl rfl
  | reviewed hj ht =>
    subst hj
    rw [ht.requestId]
    exact .inr (hw.reviews _ hmem)
  | refused ht =>
    rw [ht.requestId]
    exact hw.record

/-- The view reads an update. -/
theorem reads (hw : s.Wired) {u : Update} (hunread : s.unread = u :: us) :
    Wired { s with
      view := s.view.read u, slots := s.slots ++ (s.view.updated u).2, read := s.read + 1 } := by
  obtain ⟨hlt, hdrop⟩ := unread_cons hunread
  have hmem : u ∈ s.backend.send.outbox := mem_unread u (hunread ▸ List.mem_cons_self ..)
  refine ⟨hlt, ?_, hw.calls, ?_, hw.records, ?_, ?_, ?_⟩
  · have hsync := hw.sync
    rw [hunread, List.foldl_cons, ← View.replica_updated] at hsync
    simp only [unread, hdrop]
    exact hsync
  · intro call hc
    rcases List.mem_append.mp hc with hc | hc
    · exact hw.slots call hc
    · rw [updated_slots _ _ call hc]
      rfl
  · rw [View.read_record]
    cases u with
    | intentSend t => exact .inr hmem
    | _ => exact hw.shown
  · rw [(View.read_outcome s.view u).1, (View.read_outcome s.view u).2]
    cases u with
    | lastSendOutcome value ofSend => exact .inr hmem
    | _ => exact hw.outcome
  · intro j hj
    rcases List.mem_append.mp hj with hj | hj
    · exact hw.reviews j hj
    · exact nomatch updated_slots _ _ _ hj

/-- The view calls a slot, and shows what it showed. -/
theorem acts (hw : s.Wired) {v : View} {call : Slot} {requests : List String}
    (hv : v.replica = s.view.replica) (hof : v.outcomeOf = s.view.outcomeOf)
    (hi : (Event.slot call).ofIntent = true) (hreq : s.requests ⊆ requests)
    (hreview : ∀ j, call = .reviewIntentSend j → recordId j ∈ requests) :
    Wired { s with view := v, slots := s.slots ++ [call], requests } where
  read_le := hw.read_le
  sync := hv ▸ hw.sync
  calls := hw.calls
  slots := by
    intro c hc
    rcases List.mem_append.mp hc with hc | hc
    · exact hw.slots c hc
    · rw [List.mem_singleton.mp hc]
      exact hi
  records := fun t ht => (hw.records t ht).imp_right fun h => hreq h
  shown := (hw.shows hv hof).1
  outcome := (hw.shows hv hof).2
  reviews := by
    intro j hj
    rcases List.mem_append.mp hj with hj | hj
    · exact hreq (hw.reviews j hj)
    · exact hreview j (List.mem_singleton.mp hj).symm

theorem step {e : DeskEvent} (hw : s.Wired) (hs : s.step e = some s') : s'.Wired := by
  cases step_move hs with
  | backend ht => exact hw.turned ht
  | slot hslots => exact hw.reached hslots
  | update hunread => exact hw.reads hunread
  | @requested requestId requester params =>
    obtain ⟨hv, hof⟩ := View.requested_shows s.view requestId requester params
    refine hw.acts hv hof rfl (List.subset_cons_self ..) ?_
    rintro j ⟨⟩
    exact List.mem_cons_self ..
  | confirmed => exact hw.acts rfl rfl rfl (List.Subset.refl _) nofun
  | declined =>
    exact hw.acts (View.replica_answerIntent ..) (View.answerIntent_outcomeOf ..) rfl
      (List.Subset.refl _) nofun

end Wired

/-- What the view and the backend keep in every run. -/
theorem wired {s : Desk} (h : desk.Reach s) : s.Wired := by
  refine h.induct (fun s hs => ?_) fun s e s' _ hw _ hs => hw.step hs
  cases hs
  exact ⟨Nat.zero_le _, rfl, ⟨List.nodup_nil, nofun, nofun⟩, nofun, nofun, .inl rfl, .inl rfl,
    nofun⟩

end Desk

end EthWalletUi
