import EthWalletUi.Backend.Attribution
import EthWalletUi.Backend.Wired

/-!
# A spinner and the call it is about

A bare claim raises a spinner, and its call's completion lowers it: the reply to the call, or to the
last leg of a resend. The completion of the fee read looks at the selection first, and leaves the
spinner up where the selection has moved since (`feesKept`); the others lower it either way.

* `State.outstanding`: the claims under which calls are out.
* `WiredClaim.Kept`: what a turn does to a claim: its spinner goes down, or a call is out under it,
  or nothing changes.
* `spinner_down_iff`: the spinner of a claim goes down with its last call exactly if no fee reply
  finds another selection.
-/

namespace EthWalletUi

open Qt Machine

/-! ## The claims and their calls -/

/-- A call guarded by `beginClaim`. -/
inductive Bare where
  | fees
  | txStatus
  | resend
  | details
  | price
  deriving DecidableEq

/-- The claim that a call is made under. -/
def Callback.claim : Callback → Option (Bare × Nat)
  | .feeTiers _ _ slot => some (.fees, slot)
  | .txStatus _ _ _ slot => some (.txStatus, slot)
  | .resendStatus _ _ _ _ slot | .resendFees _ _ _ slot | .resendQuote _ _ slot =>
    some (.resend, slot)
  | .txDetails _ _ _ slot => some (.details, slot)
  | _ => none

def SenderCall.claim : SenderCall → Option (Bare × Nat)
  | .prepare _ slot => some (.price, slot)
  | .send .. => none

namespace Core

variable (c : Core)

/-- The claims of the wallet's data; the pricing of an app's request is not one. -/
def claim : Bare → WiredClaim
  | .fees => c.guards.fees
  | .txStatus => c.guards.txStatus
  | .resend => c.guards.resend
  | .details => c.guards.details
  | .price => {}

def outstanding : List (Bare × Nat) := c.calls.filterMap (·.callback.claim)

end Core

namespace State

variable (s : State)

def claim : Bare → WiredClaim
  | .price => s.send.price
  | g => s.core.claim g

/-- The claims under which calls are out. -/
def outstanding : List (Bare × Nat) := s.core.outstanding ++ s.send.calls.filterMap (·.claim)

/-- The claim in force has its call out. -/
def Out (g : Bare) : Prop := (g, (s.claim g).flight.ticket) ∈ s.outstanding

/-- The last call under the claim in force comes back with this step. -/
def Completes (g : Bare) (s' : State) : Prop :=
  s.Out g ∧ (g, (s.claim g).flight.ticket) ∉ s'.outstanding

/-- A spinner that is up has a call out that it is about. -/
def SpinnersOwed : Prop := ∀ g, (s.claim g).loading = true → s.Out g

/-- A fee reply finds the selection it was asked for, or the spinner down already. -/
def feesKept : Event → Bool
  | .reply i _ => match s.core.calls[i]? with
    | some ⟨.feeTiers _ gen slot, _⟩ =>
      !s.core.guards.fees.isCurrent slot || gen == s.core.dataGen || !s.core.guards.fees.loading
    | _ => true
  | _ => true

end State

/-- What is made of the other items stays when one is erased. -/
theorem mem_filterMap_eraseIdx {α β : Type} {f : α → Option β} {l : List α} {i : Nat} {a : α} {x : β}
    (ha : l[i]? = some a) (hx : x ∈ l.filterMap f) (hne : f a ≠ some x) :
    x ∈ (l.eraseIdx i).filterMap f := by
  obtain ⟨y, hy, hyx⟩ := List.mem_filterMap.mp hx
  obtain ⟨j, hj⟩ := List.getElem?_of_mem hy
  have hji : j ≠ i := by
    rintro rfl
    obtain rfl := Option.some.inj (ha.symm.trans hj)
    exact hne hyx
  exact List.mem_filterMap.mpr ⟨y, List.mem_eraseIdx_iff_getElem?.mpr ⟨j, hji, hj⟩, hyx⟩

/-! ## What a turn does to a claim -/

/-- What a turn does to a claim; `out` are the calls that are out after it. -/
inductive WiredClaim.Kept (g : Bare) (w w' : WiredClaim) (out : List (Bare × Nat)) : Prop
  | down : w'.loading = false → Kept g w w' out
  | out : (g, w'.flight.ticket) ∈ out → Kept g w w' out
  | same : w'.loading = w.loading → w'.flight.ticket = w.flight.ticket → Kept g w w' out

namespace WiredClaim.Kept

variable {g : Bare} {w w' : WiredClaim} {out out' : List (Bare × Nat)}

theorem of_eq (h : w' = w) : Kept g w w' out := .same (by rw [h]) (by rw [h])

theorem mono (hs : out ⊆ out') (h : Kept g w w' out) : Kept g w w' out' := by
  cases h with
  | down hd => exact .down hd
  | out hm => exact .out (hs hm)
  | same hl ht => exact .same hl ht

end WiredClaim.Kept

namespace Core

theorem Path.outstanding {c c' : Core} (h : Path c c') : c.outstanding ⊆ c'.outstanding := by
  induction h with
  | refl => exact List.Subset.refl _
  | @tail c₁ c₂ _ h ih =>
    refine List.Subset.trans ih ?_
    rcases h.calls_cases with heq | ⟨callback, heq, -⟩
    · rw [Core.outstanding, Core.outstanding, heq]
      exact List.Subset.refl _
    · rw [Core.outstanding, Core.outstanding, heq, List.filterMap_append]
      exact List.subset_append_left _ _

variable (c : Core)

theorem mem_outstanding_issue {callback : Callback} {x : Bare × Nat} (h : callback.claim = some x) :
    x ∈ (c.issue callback).outstanding := by
  simp [outstanding, issue, h]

/-! ## Claims that are taken -/

theorem loadFeeTiers_claim :
    WiredClaim.Kept .fees c.guards.fees c.loadFeeTiers.guards.fees c.loadFeeTiers.outstanding := by
  simp only [loadFeeTiers]
  rcases c.guards.fees.beginClaim_cases c.now 1 kSendCallBudgetMs with ⟨-, h⟩ | ⟨-, h⟩
  · rw [h]
    simp only
    split
    · exact .down rfl
    · exact .out (mem_outstanding_issue _ rfl)
  · rw [h]
    exact .of_eq rfl

theorem refreshTxStatus_claim (hashHex : String) :
    WiredClaim.Kept .txStatus c.guards.txStatus (c.refreshTxStatus hashHex).guards.txStatus
      (c.refreshTxStatus hashHex).outstanding := by
  unfold refreshTxStatus
  split
  · exact .of_eq rfl
  · rcases c.guards.txStatus.beginClaim_cases c.now 1 kCallBudgetMs with ⟨-, h⟩ | ⟨-, h⟩
    · rw [h]
      exact .out (mem_outstanding_issue _ rfl)
    · rw [h]
      exact .of_eq rfl

theorem fetchTxDetails_claim (hashHex : String) :
    WiredClaim.Kept .details c.guards.details (c.fetchTxDetails hashHex).guards.details
      (c.fetchTxDetails hashHex).outstanding := by
  unfold fetchTxDetails
  split
  · exact .of_eq rfl
  · rcases c.guards.details.beginClaim_cases c.now 1 kCallBudgetMs with ⟨-, h⟩ | ⟨-, h⟩
    · rw [h]
      exact .out (mem_outstanding_issue _ rfl)
    · rw [h]
      exact .of_eq rfl

theorem resendBlockedNonce_claim (chainId : Int) (busySending : Bool) :
    WiredClaim.Kept .resend c.guards.resend (c.resendBlockedNonce chainId busySending).guards.resend
      (c.resendBlockedNonce chainId busySending).outstanding := by
  simp only [resendBlockedNonce]
  split
  · exact .of_eq rfl
  · rcases c.guards.resend.beginClaim_cases c.now 3 kSendCallBudgetMs with ⟨-, h⟩ | ⟨-, h⟩
    · rw [h]
      simp only
      split
      · exact .out (mem_outstanding_issue _ rfl)
      · exact .out (mem_outstanding_issue _ rfl)
    · rw [h]
      exact .of_eq rfl

/-- A refresh that ends reads the fees. -/
theorem EndsFor.claim {c c' : Core} {account : String} (h : c.EndsFor account c') :
    WiredClaim.Kept .fees c.guards.fees c'.guards.fees c'.outstanding := by
  obtain ⟨d, after, hg, -, -, -, rfl⟩ := h
  let b := d.loadBalancesAndHistory
  have hb : b.guards.fees = c.guards.fees :=
    (d.loadBalancesAndHistory_leaves.fees (by decide)).trans (by rw [hg])
  have hv : b.loadFeeTiers.refreshVerifiedProxy.guards.fees = b.loadFeeTiers.guards.fees :=
    (refreshVerifiedProxy_leaves _).fees (by decide)
  have he : (d.endRefresh after).guards.fees = b.loadFeeTiers.guards.fees := by
    rw [endRefresh_eq, afterRefresh_guards, land_guards]
    exact hv
  have hout : b.loadFeeTiers.outstanding ⊆ (d.endRefresh after).outstanding := by
    have hp : Path b.loadFeeTiers b.loadFeeTiers.refreshVerifiedProxy := refreshVerifiedProxy_path _
    have hcalls : (d.endRefresh after).calls = b.loadFeeTiers.refreshVerifiedProxy.calls := by
      rw [endRefresh_eq, (afterRefresh_aside _ _).calls]
      simp only [land]
      split <;> rfl
    refine List.Subset.trans hp.outstanding ?_
    rw [Core.outstanding, Core.outstanding, hcalls]
    exact List.Subset.refl _
  rw [he, ← hb]
  exact b.loadFeeTiers_claim.mono hout

/-! ## Claims whose call is answered -/

/-- What the callback of a call under `(g, slot)` does to the claim: nothing, where a later claim
is in force; else it lowers the spinner, or issues the next leg, or is a fee reply that finds another
selection. -/
inductive Answered (callback : Callback) (g : Bare) (slot : Nat) (c' : Core) : Prop
  | stale : slot ≠ (c.claim g).flight.ticket → c'.claim g = c.claim g → Answered callback g slot c'
  | down : slot = (c.claim g).flight.ticket → (c'.claim g).loading = false →
    (∀ chainId gen, callback = .feeTiers chainId gen slot → gen = c.dataGen) →
    Answered callback g slot c'
  | nextLeg : c'.claim g = c.claim g → (g, slot) ∈ c'.outstanding → Answered callback g slot c'
  | lost {chainId : Int} {gen : Nat} : callback = .feeTiers chainId gen slot → gen ≠ c.dataGen →
    slot = (c.claim g).flight.ticket → (c'.claim g).loading = (c.claim g).loading →
    (c'.claim g).flight.ticket = (c.claim g).flight.ticket → Answered callback g slot c'

theorem feeTiersReplied_answered (chainId : Int) (gen slot : Nat) (res : Option Text) :
    c.Answered (.feeTiers chainId gen slot) .fees slot (c.feeTiersReplied gen slot res) := by
  by_cases hs : slot = c.guards.fees.flight.ticket
  · have hcur : (c.guards.fees.release slot).isCurrent slot = true := by
      rw [WiredClaim.release_isCurrent]
      exact WiredClaim.isCurrent_iff.mpr hs
    by_cases hg : gen = c.dataGen
    · refine .down hs ?_ ?_
      · simp [feeTiersReplied, hcur, hg, claim]
      · rintro _ _ ⟨⟩
        exact hg
    · refine .lost rfl hg hs ?_ ?_
      all_goals simp [feeTiersReplied, hg, claim, WiredClaim.release]
  · obtain ⟨hr, hcur⟩ := WiredClaim.release_of_ne hs
    refine .stale hs ?_
    simp [feeTiersReplied, hr, hcur, claim]

theorem txStatusReplied_answered (who hash : String) (gen slot : Nat) (res : Option Text) :
    c.Answered (.txStatus who hash gen slot) .txStatus slot (c.txStatusReplied gen slot res) := by
  by_cases hs : slot = c.guards.txStatus.flight.ticket
  · have hcur : (c.guards.txStatus.release slot).isCurrent slot = true := by
      rw [WiredClaim.release_isCurrent]
      exact WiredClaim.isCurrent_iff.mpr hs
    refine .down hs ?_ nofun
    simp [txStatusReplied, hcur, claim]
  · obtain ⟨hr, hcur⟩ := WiredClaim.release_of_ne hs
    refine .stale hs ?_
    simp [txStatusReplied, hr, hcur, claim]

theorem txDetailsReplied_answered (who hash : String) (gen slot : Nat) (res : Option Text) :
    c.Answered (.txDetails who hash gen slot) .details slot
      (c.txDetailsReplied hash gen slot res) := by
  by_cases hs : slot = c.guards.details.flight.ticket
  · have hcur : (c.guards.details.release slot).isCurrent slot = true := by
      rw [WiredClaim.release_isCurrent]
      exact WiredClaim.isCurrent_iff.mpr hs
    refine .down hs ?_ nofun
    simp [txDetailsReplied, hcur, claim]
  · obtain ⟨hr, hcur⟩ := WiredClaim.release_of_ne hs
    refine .stale hs ?_
    simp [txDetailsReplied, hr, hcur, claim]

/-- A resend ends: its spinner goes down, unless a later resend has it. -/
theorem endResend_answered {callback : Callback} (hf : callback.isFeeTiers = false) (slot : Nat)
    (error : String) {c' : Core}
    (h : c'.guards.resend = (c.endResend slot error).guards.resend) :
    c.Answered callback .resend slot c' := by
  have hc : c'.claim .resend = (c.endResend slot error).guards.resend := h
  by_cases hs : slot = c.guards.resend.flight.ticket
  · have hcur : (c.guards.resend.release slot).isCurrent slot = true := by
      rw [WiredClaim.release_isCurrent]
      exact WiredClaim.isCurrent_iff.mpr hs
    refine .down hs ?_ ?_
    · rw [hc]
      simp only [endResend, hcur, if_true]
      split <;> rfl
    · rintro _ _ rfl
      cases hf
  · obtain ⟨hr, hcur⟩ := WiredClaim.release_of_ne hs
    refine .stale hs ?_
    rw [hc]
    simp only [endResend, hr, hcur, Bool.false_eq_true, if_false]
    split <;> rfl

theorem resendStatusReplied_answered (who hash : String) (blocked : JsonObject) (gen slot : Nat)
    (res : Option Text) : c.Answered (.resendStatus who hash blocked gen slot) .resend slot
      (c.resendStatusReplied blocked gen slot res) := by
  simp only [resendStatusReplied]
  split
  · exact c.endResend_answered rfl slot "" rfl
  · split
    · exact c.endResend_answered rfl slot ""
        ((c.endResend slot).loadBalancesAndHistory_leaves.resend (by decide))
    · exact .nextLeg rfl (mem_outstanding_issue _ rfl)

theorem resendFeesReplied_answered (chainId : Int) (blocked : JsonObject) (gen slot : Nat)
    (res : Option Text) : c.Answered (.resendFees chainId blocked gen slot) .resend slot
      (c.resendFeesReplied blocked gen slot res) := by
  simp only [resendFeesReplied]
  split
  · exact c.endResend_answered rfl slot "" rfl
  · split
    · exact c.endResend_answered rfl slot _ rfl
    · split
      · exact c.endResend_answered rfl slot _ rfl
      · exact .nextLeg rfl (mem_outstanding_issue _ rfl)

theorem resendQuoteReplied_answered (request : JsonObject) (gen slot : Nat) (res : Option Text) :
    c.Answered (.resendQuote request gen slot) .resend slot
      (c.resendQuoteReplied request gen slot res) := by
  simp only [resendQuoteReplied]
  split
  · exact c.endResend_answered rfl slot "" rfl
  · split
    · exact c.endResend_answered rfl slot _ rfl
    · refine c.endResend_answered rfl slot "" ?_
      rw [publishScope_guards]

theorem replied_answered {callback : Callback} {g : Bare} {slot : Nat}
    (h : callback.claim = some (g, slot)) (res : Option Text) :
    c.Answered callback g slot (c.replied res callback) := by
  cases callback <;> cases h
  case feeTiers => exact c.feeTiersReplied_answered _ _ _ _
  case txStatus => exact c.txStatusReplied_answered _ _ _ _ _
  case resendStatus => exact c.resendStatusReplied_answered _ _ _ _ _ _
  case resendFees => exact c.resendFeesReplied_answered _ _ _ _ _
  case resendQuote => exact c.resendQuoteReplied_answered _ _ _ _
  case txDetails => exact c.txDetailsReplied_answered _ _ _ _ _

end Core

/-! ## Events -/

def Bare.guarded : Bare → Guarded
  | .fees => .fees
  | .txStatus => .txStatus
  | .resend => .resend
  | .details => .details
  | .price => .price

/-- A callback moves the claim that its call was made under. -/
theorem Callback.claim_of_moves {callback : Callback} {g : Bare} (h : g.guarded ∈ callback.moves) :
    ∃ slot, callback.claim = some (g, slot) := by
  cases callback <;> cases g <;> simp [moves, Bare.guarded, Callback.claim] at h ⊢

theorem Core.Leaves.claim {moved : List Guarded} {c c' : Core} (h : Leaves moved c c') {g : Bare}
    (hg : g.guarded ∉ moved) : c'.claim g = c.claim g := by
  cases g with
  | fees => exact h.fees hg
  | txStatus => exact h.txStatus hg
  | resend => exact h.resend hg
  | details => exact h.details hg
  | price => rfl

namespace State

variable (s : State)

/-- The claim under which a call is answered. -/
def answers : Event → Option (Bare × Nat)
  | .reply i _ => s.core.calls[i]?.bind (·.callback.claim)
  | .senderReply i _ => s.send.calls[i]?.bind (·.claim)
  | _ => none

/-! ### The pricing of an app's request -/

/-- Reviewing a request publishes it, and prices it if the claim is free. -/
theorem reviewIntentSend_priced (requestJson : Text) :
    (∃ value, s.reviewIntentSend requestJson = { s with send := s.send.setIntentSendJson value }) ∨
    ∃ (value : Text) (price : WiredClaim) (forRequest : String),
      s.reviewIntentSend requestJson =
        { s with send := { (s.send.setIntentSendJson value).setPrice price with
            calls := s.send.calls ++ [.prepare forRequest price.flight.ticket] } } := by
  simp only [reviewIntentSend]
  split
  · exact .inl ⟨_, rfl⟩
  · generalize toJsonCompact (s.checkIntent requestJson).review = value
    rcases (s.send.setIntentSendJson value).price.beginClaim_cases s.core.now 1 kSendCallBudgetMs with
      ⟨-, h⟩ | ⟨-, h⟩
    · rw [h]
      simp only [Send.setPrice_calls, Send.setIntentSendJson_calls]
      exact .inr ⟨value, _, _, rfl⟩
    · rw [h]
      exact .inl ⟨value, rfl⟩

theorem called_price (call : Slot) : WiredClaim.Kept .price s.send.price (s.called call).send.price
    (s.called call).outstanding := by
  cases call with
  | pollSend =>
    simp only [called, pollSend]
    split <;> exact .of_eq rfl
  | cancelSend =>
    simp only [called, cancelSend]
    split <;> exact .of_eq rfl
  | reviewIntentSend requestJson =>
    rcases s.reviewIntentSend_priced requestJson with ⟨value, h⟩ | ⟨value, price, forRequest, h⟩
    · simp only [called, h]
      exact .of_eq (by simp)
    · simp only [called, h]
      exact .out (by simp [outstanding, SenderCall.claim])
  | acceptIntentSend =>
    simp only [called, acceptIntentSend]
    split
    · exact .of_eq rfl
    · split
      · exact .of_eq rfl
      · split
        · exact .of_eq (by simp)
        · exact .of_eq rfl
  | declineIntentSend => exact .down (by simp [called, declineIntentSend, Send.setIntentSendPricing])
  | _ => exact .of_eq rfl

theorem called_sendCalls (call : Slot) : s.send.calls ⊆ (s.called call).send.calls := by
  cases call with
  | pollSend =>
    simp only [called, pollSend]
    split <;> exact List.Subset.refl _
  | cancelSend =>
    simp only [called, cancelSend]
    split <;> exact List.Subset.refl _
  | reviewIntentSend requestJson =>
    rcases s.reviewIntentSend_priced requestJson with ⟨value, h⟩ | ⟨value, price, forRequest, h⟩
    · simp [called, h]
    · simp [called, h]
  | acceptIntentSend =>
    simp only [called, acceptIntentSend]
    split
    · exact List.Subset.refl _
    · split
      · exact List.Subset.refl _
      · split
        · simp
        · exact List.subset_append_left _ _
  | declineIntentSend => simp [called, declineIntentSend, Send.setIntentSendPricing]
  | _ => exact List.Subset.refl _

theorem resumed_sends (reply : Text) (frame : Frame) :
    (s.resumed reply frame).send.price = s.send.price ∧
      (s.resumed reply frame).send.calls = s.send.calls := by
  cases frame with
  | send =>
    simp only [resumed, sendReturned]
    split
    · exact ⟨rfl, rfl⟩
    · exact ⟨Send.start_price _ _, Send.start_calls _ _⟩
  | sendStatus =>
    simp only [resumed, statusReturned]
    split
    · exact ⟨rfl, rfl⟩
    · exact ⟨Send.settle_price _ _ _, Send.settle_calls _ _ _⟩
  | cancelSend =>
    simp only [resumed, cancelReturned]
    split
    · exact ⟨rfl, rfl⟩
    · exact ⟨Send.settle_price _ _ _, Send.settle_calls _ _ _⟩
  | _ => exact ⟨rfl, rfl⟩

/-- The answer to a pricing lowers its spinner, unless a later pricing has it. -/
theorem prepareReplied_price (forRequest : String) (slot : Nat) (res : Option Text) :
    slot = s.send.price.flight.ticket ∧
        (s.prepareReplied forRequest slot res).send.price.loading = false ∨
      slot ≠ s.send.price.flight.ticket ∧
        (s.prepareReplied forRequest slot res).send.price = s.send.price := by
  by_cases hs : slot = s.send.price.flight.ticket
  · have hcur : (s.send.price.release slot).isCurrent slot = true := by
      rw [WiredClaim.release_isCurrent]
      exact WiredClaim.isCurrent_iff.mpr hs
    refine .inl ⟨hs, ?_⟩
    simp only [prepareReplied, hcur, Bool.not_true, Bool.false_eq_true, if_false]
    split <;> simp [Send.setIntentSendPricing]
  · obtain ⟨hr, hcur⟩ := WiredClaim.release_of_ne hs
    refine .inr ⟨hs, ?_⟩
    simp [prepareReplied, hr, hcur]

theorem sendReplied_price (gen slot : Nat) (res : Option Text) :
    (s.sendReplied gen slot res).send.price = s.send.price := by
  simp only [sendReplied]
  split
  · rfl
  · split
    · simp
    · split
      · rfl
      · simp

theorem senderReplied_sendCalls (res : Option Text) (call : SenderCall) :
    (s.senderReplied res call).send.calls = s.send.calls := by
  cases call with
  | prepare =>
    simp only [senderReplied, prepareReplied]
    split
    · rfl
    · split <;> simp [Send.setIntentSendPricing]
  | send =>
    simp only [senderReplied, sendReplied]
    split
    · rfl
    · split
      · simp
      · split
        · rfl
        · simp

/-! ### What is out -/

theorem step_coreOutstanding {s s' : State} {e : Event} (h : s.step e = some s') {x : Bare × Nat}
    (hx : x ∈ s.core.outstanding) (hne : s.answers e ≠ some x) : x ∈ s'.core.outstanding := by
  have ht := step_turn h
  generalize s'.core = c' at ht
  cases ht with
  | acts hp => exact hp.outstanding hx
  | @reply i call res _ hc _ hp =>
    simp only [answers, hc, Option.bind_some] at hne
    exact hp.outstanding (mem_filterMap_eraseIdx hc hx hne)
  | @fees i gen slot chainId under res hc =>
    simp only [answers, hc, Option.bind_some] at hne
    rw [Core.outstanding, (Core.feeTiersReplied_kept _ _ _ _).1]
    exact mem_filterMap_eraseIdx hc hx hne
  | sender hp | returned _ hp | soon _ _ hp => exact hp.outstanding hx
  | reload => exact (Core.Path.act (.refresh _)).outstanding hx
  | elapse => exact hx

theorem step_sendOutstanding {s s' : State} {e : Event} (h : s.step e = some s') {x : Bare × Nat}
    (hx : x ∈ s.send.calls.filterMap (·.claim)) (hne : s.answers e ≠ some x) :
    x ∈ s'.send.calls.filterMap (·.claim) := by
  cases e with
  | slot call =>
    cases h
    exact List.filterMap_subset _ (s.called_sendCalls call) hx
  | reply i res =>
    simp only [step, Option.map_eq_some_iff] at h
    obtain ⟨call, -, rfl⟩ := h
    exact hx
  | senderReply i res =>
    simp only [step, Option.map_eq_some_iff] at h
    obtain ⟨call, hc, rfl⟩ := h
    simp only [answers, hc, Option.bind_some] at hne
    rw [senderReplied_sendCalls]
    exact mem_filterMap_eraseIdx hc hx hne
  | returned reply =>
    simp only [step] at h
    split at h
    · cases h
      rw [(resumed_sends _ _ _).2]
      exact hx
    · cases h
  | tick poll =>
    cases ticked_cases h with
    | send => exact List.filterMap_subset _ (s.called_sendCalls .pollSend) hx
    | accounts | pending | verified | settling | quote => exact hx
  | soon i =>
    simp only [step, Option.map_eq_some_iff] at h
    obtain ⟨what, -, rfl⟩ := h
    let s₁ : State := s.onCore fun c => { c with soon := c.soon.eraseIdx i }
    cases what with
    | pollSend => exact List.filterMap_subset _ (s₁.called_sendCalls .pollSend) hx
    | refresh | loadBalancesAndHistory => exact hx
  | lapse guard i =>
    cases guard <;> simp only [step, lapsed, Option.map_eq_some_iff] at h <;>
      obtain ⟨w, -, rfl⟩ := h
    case price => simpa using hx
    all_goals exact hx
  | signal | elapse =>
    cases h
    exact hx

/-- Only its answer takes a call back. -/
theorem step_outstanding {s s' : State} {e : Event} (h : s.step e = some s') {x : Bare × Nat}
    (hx : x ∈ s.outstanding) (hne : s.answers e ≠ some x) : x ∈ s'.outstanding := by
  rw [outstanding, List.mem_append] at hx ⊢
  exact hx.imp (step_coreOutstanding h · hne) (step_sendOutstanding h · hne)

/-! ### The claims -/

/-- A lapse only ever lowers a spinner. -/
theorem lapsed_claim {w w' : WiredClaim} {now i : Nat} (h : w.lapsed now i = some w')
    (g : Bare) (out : List (Bare × Nat)) : WiredClaim.Kept g w w' out := by
  simp only [WiredClaim.lapsed, Option.map_eq_some_iff] at h
  obtain ⟨-, -, rfl⟩ := h
  unfold WiredClaim.lapse
  split
  · exact .same rfl rfl
  · exact .down rfl

theorem core_outstanding_subset (s : State) : s.core.outstanding ⊆ s.outstanding :=
  List.subset_append_left _ _

theorem claim_core (s : State) {g : Bare} (hg : g ≠ .price) : s.claim g = s.core.claim g := by
  cases g with
  | price => exact absurd rfl hg
  | _ => rfl

/-- A slot moves a claim of the wallet's data by taking it. -/
theorem called_claim (call : Slot) {g : Bare} (hg : g ≠ .price) :
    WiredClaim.Kept g (s.core.claim g) ((s.called call).core.claim g)
      (s.called call).core.outstanding := by
  by_cases hm : g.guarded ∈ s.moves (.slot call)
  · cases call <;> simp only [moves, List.mem_singleton, List.not_mem_nil] at hm
    case refreshTxStatus hashHex =>
      cases g <;> cases hm
      exact s.core.refreshTxStatus_claim hashHex
    case resendBlockedNonce chainId =>
      cases g <;> cases hm
      exact s.core.resendBlockedNonce_claim chainId s.busySending
    case fetchTxDetails hashHex =>
      cases g <;> cases hm
      exact s.core.fetchTxDetails_claim hashHex
    all_goals cases g <;> cases hm
  · exact .of_eq ((s.called_leaves call).claim hm)

/-- What an event does to a claim of the wallet's data of which it answers no call. -/
theorem step_unansweredCore {s s' : State} {e : Event} (h : s.step e = some s') {g : Bare}
    (hg : g ≠ .price) (hne : ∀ slot, s.answers e ≠ some (g, slot)) :
    WiredClaim.Kept g (s.core.claim g) (s'.core.claim g) s'.core.outstanding := by
  by_cases hm : g.guarded ∈ s.moves e
  · cases e with
    | slot call =>
      cases h
      exact s.called_claim call hg
    | reply i res =>
      simp only [step, Option.map_eq_some_iff] at h
      obtain ⟨call, hc, rfl⟩ := h
      simp only [moves, hc, Option.map_some, Option.getD_some] at hm
      obtain ⟨slot, hs⟩ := Callback.claim_of_moves hm
      exact absurd (by simp [answers, hc, hs]) (hne slot)
    | returned reply =>
      simp only [step] at h
      split at h
      · rename_i frame stack _
        cases h
        let s₁ : State := (s.hear (.returned frame reply)).onCore fun c => { c with stack }
        rcases s₁.resumed_resumes reply frame with ⟨-, hgs⟩ | ⟨account, -, hends⟩
        · have hl : s₁.core.Leaves [] (s₁.resumed reply frame).core := .guards hgs
          exact .of_eq (hl.claim List.not_mem_nil)
        · have hf : g = .fees := by cases g <;> simp_all [moves, Bare.guarded]
          subst hf
          exact hends.claim
      · cases h
    | tick poll => cases poll <;> cases g <;> simp [moves, Bare.guarded] at hm
    | soon i => cases g <;> simp [moves, Bare.guarded] at hm
    | lapse guard i =>
      obtain rfl : g.guarded = guard := by simpa [moves] using hm
      cases g with
      | price => exact absurd rfl hg
      | _ =>
        simp only [step, Bare.guarded, lapsed, Option.map_eq_some_iff] at h
        obtain ⟨w, hw, rfl⟩ := h
        exact lapsed_claim hw _ _
    | signal | senderReply | elapse => cases hm
  · exact .of_eq ((step_leaves h).claim hm)

/-- What an event does to the pricing claim, if it answers none of its calls. -/
theorem step_unansweredPrice {s s' : State} {e : Event} (h : s.step e = some s')
    (hne : ∀ slot, s.answers e ≠ some (.price, slot)) :
    WiredClaim.Kept .price s.send.price s'.send.price s'.outstanding := by
  cases e with
  | slot call =>
    cases h
    exact s.called_price call
  | reply i res =>
    simp only [step, Option.map_eq_some_iff] at h
    obtain ⟨call, -, rfl⟩ := h
    exact .of_eq rfl
  | senderReply i res =>
    simp only [step, Option.map_eq_some_iff] at h
    obtain ⟨call, hc, rfl⟩ := h
    cases call with
    | prepare forRequest slot =>
      exact absurd (by simp [answers, hc, SenderCall.claim]) (hne slot)
    | send => exact .of_eq (sendReplied_price _ _ _ _)
  | returned reply =>
    simp only [step] at h
    split at h
    · cases h
      exact .of_eq (resumed_sends _ _ _).1
    · cases h
  | tick poll =>
    cases ticked_cases h with
    | send => exact s.called_price .pollSend
    | accounts | pending | verified | settling | quote => exact .of_eq rfl
  | soon i =>
    simp only [step, Option.map_eq_some_iff] at h
    obtain ⟨what, -, rfl⟩ := h
    let s₁ : State := s.onCore fun c => { c with soon := c.soon.eraseIdx i }
    cases what with
    | pollSend => exact s₁.called_price .pollSend
    | refresh | loadBalancesAndHistory => exact .of_eq rfl
  | lapse guard i =>
    cases guard <;> simp only [step, lapsed, Option.map_eq_some_iff] at h <;>
      obtain ⟨w, hw, rfl⟩ := h
    case price =>
      simp only [Send.setPrice_price]
      exact lapsed_claim hw _ _
    all_goals exact .of_eq rfl
  | signal | elapse =>
    cases h
    exact .of_eq rfl

/-- What an event does to a claim of which it answers no call. -/
theorem step_unanswered {s s' : State} {e : Event} (h : s.step e = some s') {g : Bare}
    (hne : ∀ slot, s.answers e ≠ some (g, slot)) :
    WiredClaim.Kept g (s.claim g) (s'.claim g) s'.outstanding := by
  by_cases hg : g = .price
  · subst hg
    exact step_unansweredPrice h hne
  · rw [s.claim_core hg, s'.claim_core hg]
    exact (step_unansweredCore h hg hne).mono s'.core_outstanding_subset

/-- A reply that finds its fee read's selection, or is not one. -/
theorem feesKept_reply {i : Nat} {res : Option Text} {callback : Callback} {under : Selection}
    (hc : s.core.calls[i]? = some ⟨callback, under⟩)
    (hf : ∀ chainId gen slot, callback = .feeTiers chainId gen slot → gen = s.core.dataGen) :
    s.feesKept (.reply i res) = true := by
  simp only [feesKept, hc]
  cases callback with
  | feeTiers chainId gen slot => simp [hf chainId gen slot rfl]
  | _ => rfl

/-- What the answer to a call does to its claim. -/
theorem step_answered {s s' : State} {e : Event} (h : s.step e = some s') {g : Bare} {slot : Nat}
    (ha : s.answers e = some (g, slot)) :
    slot ≠ (s.claim g).flight.ticket ∧ s'.claim g = s.claim g ∨
    slot = (s.claim g).flight.ticket ∧ (s'.claim g).loading = false ∧ s.feesKept e = true ∨
    s'.claim g = s.claim g ∧ (g, slot) ∈ s'.outstanding ∨
    s.feesKept e = !(s.claim g).loading ∧ (s'.claim g).loading = (s.claim g).loading := by
  cases e with
  | reply i res =>
    simp only [step, Option.map_eq_some_iff] at h
    obtain ⟨⟨callback, under⟩, hc, rfl⟩ := h
    simp only [answers, hc, Option.bind_some] at ha
    have hg : g ≠ .price := by
      rintro rfl
      cases callback <;> cases ha
    let c₁ : Core := { s.core with
      calls := s.core.calls.eraseIdx i, log := .reply ⟨callback, under⟩ res :: s.core.log }
    have hc₁ : c₁.claim g = s.core.claim g := by cases g <;> rfl
    rw [claim_core _ hg, claim_core _ hg]
    rcases c₁.replied_answered ha res with ⟨hs, heq⟩ | ⟨hs, hl, hf⟩ | ⟨heq, hm⟩ |
      ⟨hcb, hgen, hs, hl, -⟩
    · exact .inl ⟨hc₁ ▸ hs, heq.trans hc₁⟩
    · refine .inr (.inl ⟨hc₁ ▸ hs, hl, s.feesKept_reply hc ?_⟩)
      rintro chainId gen slot rfl
      cases ha
      exact hf chainId gen rfl
    · exact .inr (.inr (.inl ⟨heq.trans hc₁, core_outstanding_subset _ hm⟩))
    · subst hcb
      cases ha
      refine .inr (.inr (.inr ⟨?_, hl.trans (by rw [hc₁])⟩))
      have hcur : s.core.guards.fees.isCurrent slot = true := WiredClaim.isCurrent_iff.mpr hs
      have hmoved : (_ == s.core.dataGen) = false := beq_eq_false_iff_ne.mpr hgen
      simp only [feesKept, hc, hcur, hmoved, Bool.not_true, Bool.false_or, Core.claim]
  | senderReply i res =>
    simp only [step, Option.map_eq_some_iff] at h
    obtain ⟨call, hc, rfl⟩ := h
    simp only [answers, hc, Option.bind_some] at ha
    cases call with
    | send => cases ha
    | prepare forRequest slot =>
      cases ha
      let s₁ : State := { s.hear (.sender (.prepare forRequest slot) res) with
        send := { s.send with calls := s.send.calls.eraseIdx i } }
      rcases s₁.prepareReplied_price forRequest slot res with ⟨hs, hl⟩ | ⟨hs, heq⟩
      · exact .inr (.inl ⟨hs, hl, rfl⟩)
      · exact .inl ⟨hs, heq⟩
  | _ => cases ha

/-! ## Spinners and their calls -/

/-- A step that leaves no fee read behind keeps the spinners owed. -/
theorem SpinnersOwed.step {s s' : State} {e : Event} (ho : s.SpinnersOwed)
    (h : s.step e = some s') (hk : s.feesKept e = true) : s'.SpinnersOwed := by
  intro g hl
  have hkeep : ∀ slot, slot ≠ (s.claim g).flight.ticket → s.answers e = some (g, slot) →
      (s.claim g).loading = true → (g, (s.claim g).flight.ticket) ∈ s'.outstanding := by
    intro slot hs ha hup
    refine step_outstanding h (ho g hup) fun ha' => hs ?_
    cases ha.symm.trans ha'
    rfl
  by_cases ha : ∃ slot, s.answers e = some (g, slot)
  · obtain ⟨slot, ha⟩ := ha
    unfold Out
    rcases step_answered h ha with ⟨hs, heq⟩ | ⟨-, hd, -⟩ | ⟨heq, hm⟩ | ⟨hf, hd⟩
    · rw [heq] at hl ⊢
      exact hkeep slot hs ha hl
    · rw [hd] at hl
      cases hl
    · rw [heq] at hl ⊢
      by_cases hs : slot = (s.claim g).flight.ticket
      · exact hs ▸ hm
      · exact hkeep slot hs ha hl
    · rw [hk, ← hd, hl] at hf
      cases hf
  · have hne : ∀ slot, s.answers e ≠ some (g, slot) := fun slot h => ha ⟨slot, h⟩
    cases step_unanswered h hne with
    | down hd =>
      rw [hd] at hl
      cases hl
    | out hm => exact hm
    | same hs ht =>
      unfold Out
      rw [ht]
      exact step_outstanding h (ho g (hs ▸ hl)) (hne _)

/-- The last call under a claim brings its spinner down, unless it is a fee read whose selection
has moved. -/
theorem Completes.loading {s s' : State} {e : Event} {g : Bare} (hc : s.Completes g s')
    (h : s.step e = some s') : (s'.claim g).loading = false ↔ s.feesKept e = true := by
  have ha : s.answers e = some (g, (s.claim g).flight.ticket) := by
    by_contra hne
    exact hc.2 (step_outstanding h hc.1 hne)
  rcases step_answered h ha with ⟨hs, -⟩ | ⟨-, hd, hf⟩ | ⟨-, hm⟩ | ⟨hf, hd⟩
  · exact absurd rfl hs
  · simp [hd, hf]
  · exact absurd hm hc.2
  · rw [hd, hf]
    simp

instance (g : Bare) : Decidable (s.Out g) := inferInstanceAs (Decidable (_ ∈ _))

end State

/-- As long as every fee reply finds the selection it was asked for, a spinner that is up has a call
out that it is about. The last call under a claim brings its spinner down in just that case. -/
theorem spinner_down_iff (s : State) :
    (backend.Runs (fun s e => s.feesKept e = true) s → s.SpinnersOwed) ∧
    ∀ e s' g, backend.step s e = some s' → s.Completes g s' →
      ((s'.claim g).loading = false ↔ s.feesKept e = true) := by
  refine ⟨fun h => ?_, fun e s' g h hc => hc.loading h⟩
  refine Sys.Runs.induct (I := State.SpinnersOwed) ?_ ?_ h
  · rintro s rfl g hl
    cases g <;> cases hl
  · intro s e s' _ ho hk hs
    exact ho.step hs hk

/-- The answer to the fee read of the first refresh. -/
def feesAnswered : Event := .reply 1 (some (okReply [("chainId", .int 1)]))

theorem spinner_down_iff_opened :
    (State.after (opened ++ [feesAnswered])).SpinnersOwed ∧
      ((State.after (opened ++ [feesAnswered])).claim .fees).loading = false :=
  ⟨(spinner_down_iff (State.after (opened ++ [feesAnswered]))).1
      (Sys.Runs.exec (.init rfl) (opened ++ [feesAnswered]) (by decide +kernel) (by decide +kernel)),
    ((spinner_down_iff (State.after opened)).2 feesAnswered
      (State.after (opened ++ [feesAnswered])) .fees (by decide +kernel)
      ⟨by decide +kernel, by decide +kernel⟩).mpr (by decide +kernel)⟩

/-- The account moves while the fees are being read: their answer leaves the spinner up. -/
theorem spinner_stands :
    ¬∀ s e s' g, backend.Reach s → backend.step s e = some s' → s.Completes g s' →
      (s'.claim g).loading = false := by
  intro h
  have hmoved := h (State.after (opened ++ [.slot (.selectAccount "0xB")])) feesAnswered
    (State.after (opened ++ [.slot (.selectAccount "0xB"), feesAnswered])) .fees
    (State.reach_after _ (by decide +kernel)) (by decide +kernel)
    ⟨by decide +kernel, by decide +kernel⟩
  exact absurd hmoved (by decide +kernel)

end EthWalletUi
