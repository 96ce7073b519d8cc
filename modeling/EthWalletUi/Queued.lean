import EthWalletUi.Backend.Wired

/-!
# A queued read and its spinner

A request that finds its lane taken is queued behind the live call, and the lane's spinner is all
that stands for it on screen. The spinner is raised with a claim only, and is lowered where a lane is
handed on with nothing queued. Two paths lower it outside the lane: a form that describes no send,
and a load with no account selected (`WiredLane.enter`). Over a live call either leaves the screen
without a spinner, for the re-run that is queued or for the next one to be.

* `WiredLane.Turned`: what a turn does to a lane: a run is entered, or the lane is handed on, or it
  stays.
* `State.readsFor`, `State.quotesFor`: the run that an event enters.
* `queued_announced_iff`: a step leaves a re-run without its spinner exactly if it lowers the spinner
  over one, or queues one behind a spinner that is down.
-/

namespace EthWalletUi

open Qt Machine

/-! ## A lane in its turn -/

namespace WiredLane

/-- What entering a lane comes to: a run that wants no call only lowers the spinner. -/
def enter (w : WiredLane) (now : Nat) (wants : Bool) : WiredLane :=
  if wants then (w.beginLane now).1 else { w with loading := false }

/-- What handing a lane on comes to. -/
def handOn (w : WiredLane) (now : Nat) (wants : Bool) : WiredLane :=
  match w.handOnLane with
  | (w, .rerun) => w.enter now wants
  | (w, .idle) => w

/-- A re-run that is queued has the spinner. -/
def Announced (w : WiredLane) : Prop := w.lane.again = true → w.loading = true

/-- A live call has the spinner. -/
def Lit (w : WiredLane) (now : Nat) : Prop := w.lane.busy now = true → w.loading = true

/-- A run that wants no call finds no re-run queued, and one that has to be queued finds the spinner
up. -/
def enters (w : WiredLane) (now : Nat) (wants : Bool) : Bool :=
  if wants then !w.lane.busy now || w.loading else !w.lane.again

/-- A run that wants no call finds the lane at rest. -/
def entersCalm (w : WiredLane) (now : Nat) (wants : Bool) : Bool :=
  wants || !w.lane.busy now && !w.lane.again

/-- What a turn does to a lane; `entry` is the run it enters, and whether that wants a call. -/
inductive Turned (w : WiredLane) (now : Nat) (entry : Option Bool) (w' : WiredLane) : Prop
  | entered {wants : Bool} : entry = some wants → w' = w.enter now wants → Turned w now entry w'
  | handedOn {v : WiredLane} {wants : Bool} : entry = none → v.lane.busy now = false →
    w' = v.handOn now wants → Turned w now entry w'
  | kept : entry = none → w'.lane.again = w.lane.again → w'.loading = w.loading →
    (w'.lane.busy now = true → w.lane.busy now = true) → Turned w now entry w'

variable {w w' : WiredLane} {now : Nat} {wants : Bool} {entry : Option Bool}

theorem Turned.of_eq (he : entry = none) (h : w' = w) : Turned w now entry w' :=
  .kept he (by rw [h]) (by rw [h]) (by rw [h]; exact id)

theorem enter_announced_iff : (w.enter now wants).Announced ↔ w.enters now wants = true := by
  cases wants with
  | false => simp [enter, enters, Announced]
  | true =>
    rcases w.beginLane_cases now with ⟨hb, h⟩ | ⟨hb, h⟩
    · simp [enter, enters, Announced, h, hb]
    · simp [enter, enters, Announced, h, hb]

theorem enter_lit (hl : wants = true → w.Lit now) (hb : wants = false → w.lane.busy now = false) :
    (w.enter now wants).Lit now := by
  cases wants with
  | false =>
    intro hbusy
    have hfree : w.lane.busy now = true := hbusy
    rw [hb rfl] at hfree
    cases hfree
  | true =>
    rcases w.beginLane_cases now with ⟨-, h⟩ | ⟨hbusy, h⟩
    · simp [enter, Lit, h]
    · simp only [enter, h, if_true]
      exact fun _ => hl rfl hbusy

/-- A live call is live for less and less longer. -/
theorem Lit.later (hl : w.Lit now) (ms : Nat) : w.Lit (now + ms) := by
  intro hbusy
  refine hl ?_
  by_contra hfree
  rw [AsyncLane.busy_later (by simpa using hfree) ms] at hbusy
  cases hbusy

/-- A lane that is handed on free starts its re-run with the spinner, or has none. -/
theorem handOn_announced (hb : w.lane.busy now = false) : (w.handOn now wants).Announced := by
  rcases w.handOnLane_cases with ⟨-, h⟩ | ⟨ha, h⟩
  · simp only [handOn, h]
    refine enter_announced_iff.mpr ?_
    have hb' : AsyncLane.busy { w.lane with again := false } now = false := hb
    cases wants <;> simp [enters, hb']
  · simp only [handOn, h]
    intro hagain
    have hagain' : w.lane.again = true := hagain
    rw [ha] at hagain'
    cases hagain'

theorem handOn_lit (hb : w.lane.busy now = false) : (w.handOn now wants).Lit now := by
  have hfree : ∀ v : WiredLane, v.lane.busy now = false → v.Lit now := fun v hv hbusy => by
    rw [hv] at hbusy
    cases hbusy
  rcases w.handOnLane_cases with ⟨-, h⟩ | ⟨-, h⟩
  · simp only [handOn, h]
    exact enter_lit (fun _ => hfree _ hb) fun _ => hb
  · simp only [handOn, h]
    exact hfree _ hb

/-- What a turn leaves announced. -/
theorem Turned.announced_iff (h : w.Turned now entry w') (ha : w.Announced) :
    w'.Announced ↔ entry.all (w.enters now) = true := by
  cases h with
  | entered he heq => rw [heq, he, Option.all_some, enter_announced_iff]
  | handedOn he hb heq =>
    rw [heq, he]
    exact iff_of_true (handOn_announced hb) rfl
  | kept he hagain hl =>
    rw [he]
    refine iff_of_true ?_ rfl
    intro hq
    rw [hl]
    exact ha (hagain ▸ hq)

/-- Where no run lowers the spinner over a live call, a live call has it. -/
theorem Turned.lit (h : w.Turned now entry w') (hl : w.Lit now)
    (hc : entry.all (w.entersCalm now) = true) : w'.Lit now := by
  cases h with
  | @entered wants he heq =>
    rw [heq]
    refine enter_lit (fun _ => hl) ?_
    rintro rfl
    rw [he] at hc
    simp only [Option.all_some, entersCalm, Bool.false_or, Bool.and_eq_true,
      Bool.not_eq_true'] at hc
    exact hc.1
  | handedOn he hb heq =>
    rw [heq]
    exact handOn_lit hb
  | kept he _ hloading hb =>
    intro hbusy
    rw [hloading]
    exact hl (hb hbusy)

/-- A run that finds its lane at rest, or the spinner up over the live call, leaves it announced. -/
theorem enters_of_calm (hl : w.Lit now) (h : w.entersCalm now wants = true) :
    w.enters now wants = true := by
  cases wants with
  | true =>
    cases hb : w.lane.busy now with
    | true => simp [enters, hl hb]
    | false => simp [enters, hb]
  | false =>
    simp only [entersCalm, Bool.false_or, Bool.and_eq_true] at h
    exact h.2

end WiredLane

/-! ## The lanes of the backend -/

namespace Core

variable (c : Core)

theorem loadBalancesAndHistory_data : c.loadBalancesAndHistory.guards.data =
    c.guards.data.enter c.now (!c.published.selectedAccount.isEmpty) := by
  cases hs : c.published.selectedAccount.isEmpty with
  | true => simp [loadBalancesAndHistory, hs, WiredLane.enter, setSweep]
  | false =>
    simp only [loadBalancesAndHistory, hs, WiredLane.enter, Bool.not_false, if_true,
      Bool.false_eq_true, if_false]
    split <;> simp_all [issue]

theorem handOnData_data : c.handOnData.guards.data =
    c.guards.data.handOn c.now (!c.published.selectedAccount.isEmpty) := by
  simp only [handOnData, WiredLane.handOn]
  rcases c.guards.data.handOnLane_cases with ⟨-, h⟩ | ⟨-, h⟩
  · rw [h]
    exact loadBalancesAndHistory_data _
  · rw [h]

theorem runQuote_quote (requestJson : Text) (interactive : Bool) :
    (c.runQuote requestJson interactive).guards.quote =
      c.guards.quote.enter c.now (describesASend requestJson) := by
  have hg := c.enterRequest_guards requestJson interactive
  have hn : (c.enterRequest requestJson interactive).now = c.now :=
    (Core.Act.kept (.quote requestJson interactive)).2
  rw [runQuote_eq]
  generalize c.enterRequest requestJson interactive = d at hg hn
  rw [← hg, ← hn]
  cases hd : describesASend requestJson with
  | false => simp [priceRequest, hd, WiredLane.enter]
  | true =>
    simp only [priceRequest, hd, WiredLane.enter, Bool.not_true, Bool.false_eq_true, if_false,
      if_true]
    split <;> simp_all [issue]

theorem handOnQuote_quote : c.handOnQuote.guards.quote =
    c.guards.quote.handOn c.now (describesASend c.quoteRequest) := by
  simp only [handOnQuote, WiredLane.handOn]
  rcases c.guards.quote.handOnLane_cases with ⟨-, h⟩ | ⟨-, h⟩
  · rw [h]
    simp only [runQuote_quote]
  · rw [h]

/-- The account that the answer to a call has the balances read of. -/
def repliesFor (res : Option Text) : Callback → Option String
  | .txStatus _ _ gen slot =>
    if c.guards.txStatus.isCurrent slot && gen == c.dataGen && replyOk (res.getD .empty) then
      some c.published.selectedAccount
    else none
  | .resendStatus _ _ _ gen slot =>
    let status := ((parseObject (res.getD .empty)).value "status").toString
    if c.guards.resend.isCurrent slot && gen == c.dataGen &&
        (status == "confirmed" || status == "failed") then
      some c.published.selectedAccount
    else none
  | .pending _ gen _ => if gen = c.dataGen then some c.published.selectedAccount else none
  | _ => none

/-- What a callback does to the data lane. -/
def Turns (entry : Option String) (c' : Core) : Prop :=
  c.guards.data.Turned c.now (entry.map (!·.isEmpty)) c'.guards.data

theorem Turns.of_load {c d c' : Core} {account : String} (hg : d.guards.data = c.guards.data)
    (hn : d.now = c.now) (ha : d.published.selectedAccount = account)
    (h : c'.guards.data = d.loadBalancesAndHistory.guards.data) : c.Turns (some account) c' := by
  refine .entered rfl ?_
  rw [h, loadBalancesAndHistory_data, hg, hn, ha]

theorem applyHistoryReply_now (reply : Text) : (c.applyHistoryReply reply).now = c.now := by
  simp only [applyHistoryReply, publishScope_now]
  split <;> rfl

theorem released_free {w : WiredLane} {slot : Nat} (h : w.owns slot = true) (now : Nat) :
    (w.release slot).lane.busy now = false := by
  rw [WiredLane.release_of_owns h]
  rfl

theorem historyReplied_turns (gen slot : Nat) (hist : Option Text) :
    c.Turns none (c.historyReplied gen slot hist) := by
  cases hown : c.guards.data.owns slot with
  | false =>
    refine .of_eq rfl ?_
    simp [historyReplied, hown, WiredLane.release_of_not_owns hown]
  | true =>
    have hon : ∀ d : Core, d.guards.data = c.guards.data.release slot → d.now = c.now →
        c.Turns none d.handOnData := fun d hd hn =>
      .handedOn rfl (released_free hown c.now) (by rw [handOnData_data, hd, hn])
    simp only [historyReplied, WiredLane.release_owns, hown, Bool.not_true, Bool.false_eq_true,
      if_false]
    split
    · exact hon _ (by rw [applyHistoryReply_guards]) (applyHistoryReply_now _ _)
    · exact hon _ rfl rfl

theorem txStatusReplied_turns (who hash : String) (gen slot : Nat) (res : Option Text) :
    c.Turns (c.repliesFor res (.txStatus who hash gen slot)) (c.txStatusReplied gen slot res) := by
  simp only [txStatusReplied, repliesFor, WiredClaim.release_isCurrent]
  cases hc : c.guards.txStatus.isCurrent slot with
  | false => exact .of_eq (by simp) (by simp)
  | true =>
    by_cases hg : gen = c.dataGen
    · cases hok : replyOk (res.getD .empty) with
      | false => exact .of_eq (by simp) (by simp [hg])
      | true =>
        let d : Core := { c with guards.txStatus := c.guards.txStatus.release slot }
        simp only [hg, beq_self_eq_true, Bool.and_self, if_true, Bool.not_true, Bool.false_eq_true,
          if_false]
        refine Turns.of_load (d := d.failed (res.getD .empty) "receipt") ?_ ?_ ?_ rfl
        · rw [failed_guards]
        · exact (d.failed_aside _ _).now
        · rw [(d.failed_aside _ _).published]
    · exact .of_eq (by simp [hg]) (by simp [hg])

theorem resendStatusReplied_turns (who hash : String) (blocked : JsonObject) (gen slot : Nat)
    (res : Option Text) : c.Turns (c.repliesFor res (.resendStatus who hash blocked gen slot))
      (c.resendStatusReplied blocked gen slot res) := by
  have hend : (c.endResend slot).guards.data = c.guards.data :=
    (c.endResend_leaves slot "").data (by decide)
  simp only [resendStatusReplied, repliesFor]
  cases hc : c.guards.resend.isCurrent slot with
  | false => exact .of_eq (by simp) (by simpa using hend)
  | true =>
    by_cases hg : gen = c.dataGen
    · simp only [hg, beq_self_eq_true, bne_self_eq_false, Bool.not_true, Bool.or_self,
        Bool.true_and, Bool.false_eq_true, if_false]
      split
      · refine Turns.of_load hend ?_ ?_ rfl
        · exact (c.endResend_aside slot "").now
        · rw [(c.endResend_aside slot "").published]
      · exact .of_eq rfl rfl
    · have hne : (gen != c.dataGen) = true := bne_iff_ne.mpr hg
      exact .of_eq (by simp [hg]) (by simpa [hne] using hend)

theorem pendingReplied_turns (who : String) (gen slot : Nat) (res : Option Text) :
    c.Turns (c.repliesFor res (.pending who gen slot)) (c.pendingReplied gen slot) := by
  let d : Core := { c with guards.pending := c.guards.pending.release slot }
  simp only [pendingReplied, repliesFor]
  split
  · exact Turns.of_load (d := d) rfl rfl rfl rfl
  · exact .of_eq rfl rfl

theorem replied_turns (res : Option Text) (callback : Callback) :
    c.Turns (c.repliesFor res callback) (c.replied res callback) := by
  have hkept : callback.moves = [] ∨ callback.moves = [.fees] ∨ callback.moves = [.quote] ∨
      callback.moves = [.resend] ∨ callback.moves = [.details] →
      c.repliesFor res callback = none →
      c.Turns (c.repliesFor res callback) (c.replied res callback) := by
    intro hm hr
    rw [hr]
    refine .of_eq rfl ((c.replied_leaves res callback).data ?_)
    rcases hm with h | h | h | h | h <;> simp [h]
  cases callback with
  | history => exact c.historyReplied_turns _ _ _
  | txStatus => exact c.txStatusReplied_turns _ _ _ _ _
  | resendStatus => exact c.resendStatusReplied_turns _ _ _ _ _ _
  | pending => exact c.pendingReplied_turns _ _ _ _
  | _ => exact hkept (by simp [Callback.moves]) rfl

theorem quoteReplied_turned (priced : Text) (interactive : Bool) (gen qgen slot : Nat)
    (res : Option Text) : c.guards.quote.Turned c.now none
      (c.quoteReplied priced interactive gen qgen slot res).guards.quote := by
  cases hown : c.guards.quote.owns slot with
  | false =>
    refine .of_eq rfl ?_
    simp [quoteReplied, hown, WiredLane.release_of_not_owns hown]
  | true =>
    have hon : ∀ d : Core, d.guards.quote = c.guards.quote.release slot → d.now = c.now →
        c.guards.quote.Turned c.now none d.handOnQuote.guards.quote := fun d hd hn =>
      .handedOn rfl (released_free hown c.now) (by rw [handOnQuote_quote, hd, hn])
    simp only [quoteReplied, WiredLane.release_owns, hown, Bool.not_true, Bool.false_eq_true,
      if_false]
    split
    · exact hon _ (by rw [publishScope_guards]) (publishScope_now _ _)
    · exact hon _ rfl rfl

theorem dataLapsed_turned {c c' : Core} {i : Nat} (h : c.dataLapsed i = some c') :
    c.Turns none c' := by
  simp only [dataLapsed, Option.map_eq_some_iff] at h
  obtain ⟨-, -, rfl⟩ := h
  let d : Core := { c with guards.data.timers := c.guards.data.timers.eraseIdx i }
  cases hb : c.guards.data.lane.busy c.now with
  | true => exact .kept rfl rfl rfl fun _ => hb
  | false =>
    have hd : d.guards.data.lane.busy c.now = false := hb
    simp only [Bool.false_eq_true, if_false]
    exact .handedOn rfl hd d.handOnData_data

theorem quoteLapsed_turned {c c' : Core} {i : Nat} (h : c.quoteLapsed i = some c') :
    c.guards.quote.Turned c.now none c'.guards.quote := by
  simp only [quoteLapsed, Option.map_eq_some_iff] at h
  obtain ⟨-, -, rfl⟩ := h
  let d : Core := { c with guards.quote.timers := c.guards.quote.timers.eraseIdx i }
  cases hb : c.guards.quote.lane.busy c.now with
  | true => exact .kept rfl rfl rfl fun _ => hb
  | false =>
    have hd : d.guards.quote.lane.busy c.now = false := hb
    simp only [Bool.false_eq_true, if_false]
    exact .handedOn rfl hd d.handOnQuote_quote

end Core

namespace State

variable (s : State)

/-- The account that an event has the balances read of, the queued re-run apart. -/
def readsFor : Event → Option String
  | .slot (.selectAccount address) => some address
  | .reply i res => s.core.calls[i]?.bind fun call => s.core.repliesFor res call.callback
  | .returned _ => s.core.stack.head?.bind s.core.resumesFor
  | .soon i => if s.core.soon[i]? = some .loadBalancesAndHistory then
      some s.core.published.selectedAccount
    else none
  | _ => none

/-- The request that an event has priced, the queued re-run apart. -/
def quotesFor : Event → Option Text
  | .slot (.quote requestJson) => some requestJson
  | .tick .quote => if s.core.quoteRequest.isEmpty || s.busySending then none
    else some s.core.quoteRequest
  | _ => none

/-- A re-run that is queued behind a live call has its lane's spinner. -/
def Announced : Prop := s.core.guards.data.Announced ∧ s.core.guards.quote.Announced

/-- No run that an event enters lowers the spinner over a re-run, or queues one behind a spinner that
is down. -/
def announces (e : Event) : Bool :=
  ((s.readsFor e).all fun account => s.core.guards.data.enters s.core.now !account.isEmpty) &&
    (s.quotesFor e).all fun request => s.core.guards.quote.enters s.core.now (describesASend request)

/-- A form that describes no send, and a load with no account selected, find their lane at rest. -/
def calm (e : Event) : Bool :=
  ((s.readsFor e).all fun account => s.core.guards.data.entersCalm s.core.now !account.isEmpty) &&
    (s.quotesFor e).all fun request =>
      s.core.guards.quote.entersCalm s.core.now (describesASend request)

/-- A refresh that ends has the data read of the account it leaves on screen. -/
theorem resumed_turns (s : State) (reply : Text) (frame : Frame) :
    s.core.Turns (s.core.resumesFor frame) (s.resumed reply frame).core := by
  rcases s.resumed_resumes reply frame with ⟨hnone, hg⟩ | ⟨account, hsome, hends⟩
  · rw [hnone]
    refine .of_eq rfl ?_
    exact congrArg Guards.data hg
  · obtain ⟨d, after, hg, hn, -, ha, heq⟩ := hends
    rw [hsome]
    refine Core.Turns.of_load (d := d) (congrArg Guards.data hg) hn ha ?_
    have hv := (Core.refreshVerifiedProxy_leaves d.loadBalancesAndHistory.loadFeeTiers).data
      List.not_mem_nil
    have hf := d.loadBalancesAndHistory.loadFeeTiers_leaves.data (by decide)
    rw [heq, Core.endRefresh_eq, Core.afterRefresh_guards, Core.land_guards, hv, hf]

theorem step_data {s s' : State} {e : Event} (h : s.step e = some s') :
    s.core.Turns (s.readsFor e) s'.core := by
  have hkept : s.readsFor e = none → .data ∉ s.moves e → s.core.Turns (s.readsFor e) s'.core :=
    fun hr hm => by
      rw [hr]
      exact .of_eq rfl ((step_leaves h).data hm)
  cases e with
  | slot call =>
    cases call with
    | selectAccount address =>
      obtain rfl := Option.some.inj h
      exact Core.Turns.of_load (d := s.core.setSelectedAccount address) (by simp)
        (s.core.publishSelection_now _ _) (s.core.setSelectedAccount_selectedAccount address) rfl
    | _ => exact hkept rfl (by simp [moves])
  | reply i res =>
    simp only [step, Option.map_eq_some_iff] at h
    obtain ⟨call, hc, rfl⟩ := h
    let c₁ : Core := { s.core with
      calls := s.core.calls.eraseIdx i, log := .reply call res :: s.core.log }
    have hr : s.readsFor (.reply i res) = c₁.repliesFor res call.callback := by
      simp only [readsFor, hc, Option.bind_some]
      rfl
    rw [hr]
    exact c₁.replied_turns res call.callback
  | returned reply =>
    simp only [step] at h
    split at h
    · rename_i frame stack hs
      cases h
      let s₁ : State := (s.hear (.returned frame reply)).onCore fun c => { c with stack }
      have hr : s.readsFor (.returned reply) = s₁.core.resumesFor frame := by
        simp only [readsFor, hs, List.head?_cons, Option.bind_some]
        rfl
      rw [hr]
      exact s₁.resumed_turns reply frame
    · cases h
  | tick poll =>
    refine hkept rfl ?_
    cases poll <;> simp [moves]
  | soon i =>
    simp only [step, Option.map_eq_some_iff] at h
    obtain ⟨what, hw, rfl⟩ := h
    let s₁ : State := s.onCore fun c => { c with soon := c.soon.eraseIdx i }
    cases what with
    | refresh =>
      simp only [readsFor, hw]
      exact .of_eq rfl (congrArg Guards.data (s₁.core.refresh_guards _))
    | pollSend =>
      simp only [readsFor, hw]
      exact .of_eq rfl (congrArg Guards.data s₁.pollSend_guards)
    | loadBalancesAndHistory =>
      simp only [readsFor, hw, if_true]
      exact Core.Turns.of_load (d := s₁.core) rfl rfl rfl rfl
  | lapse guard i =>
    by_cases hg : guard = .data
    · subst hg
      simp only [step, lapsed, Option.map_eq_some_iff] at h
      obtain ⟨c', hc, rfl⟩ := h
      exact Core.dataLapsed_turned hc
    · refine hkept rfl ?_
      simpa [moves] using Ne.symm hg
  | signal | senderReply | elapse => exact hkept rfl List.not_mem_nil

theorem step_quote {s s' : State} {e : Event} (h : s.step e = some s') :
    s.core.guards.quote.Turned s.core.now ((s.quotesFor e).map describesASend)
      s'.core.guards.quote := by
  have hkept : s.quotesFor e = none → .quote ∉ s.moves e →
      s.core.guards.quote.Turned s.core.now ((s.quotesFor e).map describesASend)
        s'.core.guards.quote := fun hr hm => by
    rw [hr]
    exact .of_eq rfl ((step_leaves h).quote hm)
  cases e with
  | slot call =>
    cases call with
    | quote requestJson =>
      obtain rfl := Option.some.inj h
      refine .entered rfl ?_
      simp only [called, onCore]
      exact s.core.runQuote_quote requestJson true
    | _ => exact hkept rfl (by simp [moves])
  | reply i res =>
    by_cases hq : ∃ call, s.core.calls[i]? = some call ∧ .quote ∈ call.callback.moves
    · obtain ⟨⟨callback, under⟩, hc, hm⟩ := hq
      simp only [step, hc, Option.map_some, Option.some.injEq] at h
      subst h
      cases callback with
      | quote priced interactive gen qgen slot =>
        let c₁ : Core := { s.core with
          calls := s.core.calls.eraseIdx i
          log := .reply ⟨.quote priced interactive gen qgen slot, under⟩ res :: s.core.log }
        exact c₁.quoteReplied_turned priced interactive gen qgen slot res
      | _ => simp [Callback.moves] at hm
    · refine hkept rfl fun hm => hq ?_
      cases hc : s.core.calls[i]? with
      | none => simp [moves, hc] at hm
      | some call => exact ⟨call, rfl, by simpa [moves, hc] using hm⟩
  | tick poll =>
    cases poll with
    | quote =>
      simp only [step, ticked] at h
      split at h
      · split at h
        · rename_i hsettling
          obtain rfl := Option.some.inj h
          exact .of_eq (by simp only [quotesFor, hsettling, if_true, Option.map_none]) rfl
        · rename_i hsettling
          obtain rfl := Option.some.inj h
          have hq : s.quotesFor (.tick .quote) = some s.core.quoteRequest := if_neg hsettling
          rw [hq]
          refine .entered rfl ?_
          simp only [onCore]
          exact s.core.runQuote_quote s.core.quoteRequest false
      · cases h
    | _ => exact hkept rfl List.not_mem_nil
  | lapse guard i =>
    by_cases hg : guard = .quote
    · subst hg
      simp only [step, lapsed, Option.map_eq_some_iff] at h
      obtain ⟨c', hc, rfl⟩ := h
      exact Core.quoteLapsed_turned hc
    · refine hkept rfl ?_
      simpa [moves] using Ne.symm hg
  | returned | soon => exact hkept rfl (by simp [moves])
  | signal | senderReply | elapse => exact hkept rfl List.not_mem_nil

/-- What a step leaves announced. -/
theorem Announced.step_iff {s s' : State} {e : Event} (ha : s.Announced) (h : s.step e = some s') :
    s'.Announced ↔ s.announces e = true := by
  have hdata := (step_data h).announced_iff ha.1
  have hquote := (step_quote h).announced_iff ha.2
  rw [Option.all_map] at hdata hquote
  rw [announces, Bool.and_eq_true]
  exact and_congr hdata hquote

/-- A live call has its lane's spinner. -/
def Lit : Prop := s.core.guards.data.Lit s.core.now ∧ s.core.guards.quote.Lit s.core.now

theorem Lit.step {s s' : State} {e : Event} (hl : s.Lit) (hc : s.calm e = true)
    (h : s.step e = some s') : s'.Lit := by
  rw [calm, Bool.and_eq_true] at hc
  have hdata : s'.core.guards.data.Lit s.core.now :=
    (step_data h).lit hl.1 (by rw [Option.all_map]; exact hc.1)
  have hquote : s'.core.guards.quote.Lit s.core.now :=
    (step_quote h).lit hl.2 (by rw [Option.all_map]; exact hc.2)
  by_cases he : ∃ ms, e = .elapse ms
  · obtain ⟨ms, rfl⟩ := he
    cases h
    exact ⟨hdata.later ms, hquote.later ms⟩
  · have hn : s'.core.now = s.core.now := step_now h fun ms hms => he ⟨ms, hms⟩
    unfold Lit
    rw [hn]
    exact ⟨hdata, hquote⟩

theorem Lit.announces {s : State} {e : Event} (hl : s.Lit) (hc : s.calm e = true) :
    s.announces e = true := by
  rw [calm, Bool.and_eq_true] at hc
  rw [State.announces, Bool.and_eq_true]
  refine ⟨?_, ?_⟩
  · cases hr : s.readsFor e with
    | none => rfl
    | some account =>
      rw [hr, Option.all_some] at hc
      rw [Option.all_some]
      exact WiredLane.enters_of_calm hl.1 hc.1
  · cases hq : s.quotesFor e with
    | none => rfl
    | some request =>
      rw [hq, Option.all_some] at hc
      rw [Option.all_some]
      exact WiredLane.enters_of_calm hl.2 hc.2

end State

/-- As long as no run lowers the spinner over a re-run or queues one behind a spinner that is down,
every re-run has its lane's spinner, and a step loses it in just that case. Where a form that
describes no send and a load with no account only ever find their lane at rest, no step does. -/
theorem queued_announced_iff (s : State) :
    (backend.Runs (fun s e => s.announces e = true) s → s.Announced ∧
      ∀ e s', backend.step s e = some s' → (s'.Announced ↔ s.announces e = true)) ∧
    (backend.Runs (fun s e => s.calm e = true) s → ∀ e, s.calm e = true →
      s.announces e = true) := by
  refine ⟨fun h => ?_, fun h e hc => ?_⟩
  · have ha : s.Announced := by
      refine Sys.Runs.induct (I := State.Announced) ?_ ?_ h
      · rintro s rfl
        exact ⟨nofun, nofun⟩
      · intro s e s' _ ha hk hs
        exact (ha.step_iff hs).mpr hk
    exact ⟨ha, fun e s' hs => ha.step_iff hs⟩
  · have hl : s.Lit := by
      refine Sys.Runs.induct (I := State.Lit) ?_ ?_ h
      · rintro s rfl
        exact ⟨nofun, nofun⟩
      · intro s e s' _ hl hk hs
        exact hl.step hk hs
    exact hl.announces hc

/-- A form that describes a send of `units`. -/
def sendForm (units : String) : Text := toJsonCompact [("amountUnits", .str units), ("to", .str "0xB")]

/-- An amount is typed and changed while its price is asked for, and another account is picked while
the first one's balances are being read. -/
def queuedTwice : List Event :=
  opened ++ [.slot (.quote (sendForm "1")), .slot (.quote (sendForm "2")),
    .slot (.selectAccount "0xB")]

theorem queued_announced_iff_twice :
    (State.after queuedTwice).core.guards.data.lane.again = true ∧
      (State.after queuedTwice).core.guards.quote.lane.again = true ∧
      (State.after queuedTwice).Announced :=
  ⟨by decide +kernel, by decide +kernel,
    ((queued_announced_iff (State.after queuedTwice)).1 (Sys.Runs.exec (.init rfl) queuedTwice
      (by decide +kernel) (by decide +kernel))).1⟩

/-- An amount cleared and typed again while it is being priced is queued without a spinner; so is a
read when the account is deselected. -/
theorem queued_silent :
    (¬∀ s, backend.Reach s → s.core.guards.quote.Announced) ∧
      ¬∀ s, backend.Reach s → s.core.guards.data.Announced := by
  refine ⟨fun h => ?_, fun h => ?_⟩
  · have hq := h (State.after (opened ++ [.slot (.quote (sendForm "1")),
      .slot (.quote (sendForm "")), .slot (.quote (sendForm "2"))]))
      (State.reach_after _ (by decide +kernel)) (by decide +kernel)
    exact absurd hq (by decide +kernel)
  · have hd := h (State.after (opened ++ [.slot (.selectAccount "0xB"), .slot (.selectAccount "")]))
      (State.reach_after _ (by decide +kernel)) (by decide +kernel)
    exact absurd hd (by decide +kernel)

end EthWalletUi
