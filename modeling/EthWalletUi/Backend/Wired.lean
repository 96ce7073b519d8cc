import EthWalletUi.Backend.Turn

/-!
# What the handlers leave of the lanes and the claims

A lane or a bare claim is moved by the few handlers that run under it. A handler leaves the others
as they are, with their spinners and timers (`Core.Leaves`), and takes no call back that is out.

* `Leaves.guards`: the handlers that move none of them.
* `…_leaves`: what each handler moves at most.
* `Core.Resumes`: the waiting handlers that end a refresh, and for which account.
* `State.step_leaves`: what each event moves at most.
-/

namespace EthWalletUi

open Qt

namespace Core

/-- Every lane and claim but those of `moved` is as it was. -/
structure Leaves (moved : List Guarded) (c c' : Core) : Prop where
  data : .data ∉ moved → c'.guards.data = c.guards.data
  quote : .quote ∉ moved → c'.guards.quote = c.guards.quote
  fees : .fees ∉ moved → c'.guards.fees = c.guards.fees
  txStatus : .txStatus ∉ moved → c'.guards.txStatus = c.guards.txStatus
  resend : .resend ∉ moved → c'.guards.resend = c.guards.resend
  details : .details ∉ moved → c'.guards.details = c.guards.details

namespace Leaves

variable {moved more : List Guarded} {c c' c'' : Core}

theorem guards (h : c'.guards = c.guards) : Leaves moved c c' := by
  constructor <;> intro _ <;> rw [h]

theorem refl (c : Core) : Leaves moved c c := guards rfl

theorem trans (h : Leaves moved c c') (h' : Leaves moved c' c'') : Leaves moved c c'' where
  data hm := (h'.data hm).trans (h.data hm)
  quote hm := (h'.quote hm).trans (h.quote hm)
  fees hm := (h'.fees hm).trans (h.fees hm)
  txStatus hm := (h'.txStatus hm).trans (h.txStatus hm)
  resend hm := (h'.resend hm).trans (h.resend hm)
  details hm := (h'.details hm).trans (h.details hm)

theorem mono (hs : moved ⊆ more) (h : Leaves moved c c') : Leaves more c c' where
  data hm := h.data fun hin => hm (hs hin)
  quote hm := h.quote fun hin => hm (hs hin)
  fees hm := h.fees fun hin => hm (hs hin)
  txStatus hm := h.txStatus fun hin => hm (hs hin)
  resend hm := h.resend fun hin => hm (hs hin)
  details hm := h.details fun hin => hm (hs hin)

/-- Nothing moved: whatever else may be. -/
theorem nil (h : Leaves [] c c') : Leaves moved c c' := h.mono (List.nil_subset _)

/-- What is changed after the guards does not matter. -/
theorem congr (h : Leaves moved c c') (hg : c''.guards = c'.guards) : Leaves moved c c'' :=
  h.trans (guards hg)

end Leaves

variable (c : Core)

/-! ## Handlers that move none -/

@[simp] theorem setSelectedAccount_guards (address : String) :
    (c.setSelectedAccount address).guards = c.guards := c.publishSelection_guards _ _

@[simp] theorem setActiveNetworkJson_guards (networkJson : Text) :
    (c.setActiveNetworkJson networkJson).guards = c.guards := c.publishSelection_guards _ _

@[simp] theorem adoptChain_guards (chainId : Int) :
    (c.adoptChain chainId).1.guards = c.guards := by
  unfold adoptChain
  split
  · rfl
  · split <;> exact c.setActiveNetworkJson_guards _

@[simp] theorem failed_guards (reply : Text) (context : String) :
    (c.failed reply context).guards = c.guards := by
  unfold failed
  split <;> rfl

@[simp] theorem adoptTokenSort_guards (reply : Text) (issuedAt : Nat) :
    (c.adoptTokenSort reply issuedAt).guards = c.guards := by
  simp only [adoptTokenSort]
  split <;> rfl

@[simp] theorem applyVerifiedProxy_guards (verdictJson : Text) :
    (c.applyVerifiedProxy verdictJson).guards = c.guards := publishScope_guards _ _

@[simp] theorem applyBalancesReply_guards (reply : Text) :
    (c.applyBalancesReply reply).guards = c.guards := by
  simp only [applyBalancesReply]
  split <;> exact c.publishScope_guards _

@[simp] theorem applyHistoryReply_guards (reply : Text) :
    (c.applyHistoryReply reply).guards = c.guards := by
  simp only [applyHistoryReply, publishScope_guards]
  split <;> rfl

@[simp] theorem setQuoteAutoRefresh_guards (on : Bool) :
    (c.setQuoteAutoRefresh on).guards = c.guards := by
  simp only [setQuoteAutoRefresh]
  split
  · exact publishScope_guards _ _
  · exact c.publishScope_guards _

@[simp] theorem afterRefresh_guards (after : After) : (c.afterRefresh after).guards = c.guards := by
  unfold afterRefresh
  split
  · rfl
  · split <;> rfl

@[simp] theorem refresh_guards (after : After) : (c.refresh after).guards = c.guards := by
  simp only [refresh]
  split
  · exact afterRefresh_guards _ _
  · rfl

@[simp] theorem loadTokens_guards (networks tokens : JsonArray) (sortReply : Text) (sortGen : Nat)
    (after : After) : (c.loadTokens networks tokens sortReply sortGen after).guards = c.guards := by
  unfold loadTokens
  split
  · rfl
  · simp [loadAccounts, enter]

@[simp] theorem networksListed_guards (registryGen : Nat) (after : After) (all : Text) :
    (c.networksListed registryGen after all).guards = c.guards := by
  simp only [networksListed]
  split
  · rfl
  · split
    · simp [loadAccounts, enter]
    · rw [loadTokens_guards]
      split
      · simp
      · split <;> simp

@[simp] theorem tokensListed_guards (network : JsonObject) (rest tokens : JsonArray)
    (sortReply : Text) (sortGen : Nat) (after : After) (reply : Text) :
    (c.tokensListed network rest tokens sortReply sortGen after reply).guards = c.guards := by
  simp only [tokensListed]
  split <;> rw [loadTokens_guards]

@[simp] theorem reselect_guards : c.reselect.guards = c.guards := by
  simp only [reselect]
  split
  · rfl
  · exact c.setSelectedAccount_guards _

@[simp] theorem contactWritten_guards (reply : Text) :
    (c.contactWritten reply).guards = c.guards := by
  unfold contactWritten
  split <;> rfl

@[simp] theorem selectChain_guards (chainId : Int) : (c.selectChain chainId).guards = c.guards := by
  simp only [selectChain]
  split
  · rw [refresh_guards, adoptChain_guards]
  · exact adoptChain_guards _ _

@[simp] theorem tokenSortSet_guards (order : String) (reply : Text) :
    (c.tokenSortSet order reply).guards = c.guards := by
  simp only [tokenSortSet]
  split <;> exact c.failed_guards _ _

@[simp] theorem signalled_guards (what : Signal) : (c.signalled what).guards = c.guards := by
  cases what with
  | balancesUpdated address =>
    simp only [signalled]
    split <;> rfl
  | _ => rfl

/-! ## The verdict, the receipt sweep and the roster have claims of their own -/

theorem refreshVerifiedProxy_leaves : Leaves [] c c.refreshVerifiedProxy := by
  unfold refreshVerifiedProxy
  split
  · exact .refl c
  · constructor <;> exact fun _ => rfl

theorem pollVerifiedProxy_leaves : Leaves [] c c.pollVerifiedProxy := by
  unfold pollVerifiedProxy
  split
  · exact .guards (c.applyVerifiedProxy_guards _)
  · exact c.refreshVerifiedProxy_leaves

theorem verdictReplied_leaves (slot : Nat) (verdict : Option Text) :
    Leaves [] c (c.verdictReplied slot verdict) := by
  have hfree : Leaves [] c { c with guards.vp := c.guards.vp.release slot } := by
    constructor <;> exact fun _ => rfl
  exact hfree.congr (applyVerifiedProxy_guards _ _)

theorem refreshPending_leaves : Leaves [] c c.refreshPending := by
  unfold refreshPending
  split
  · exact .refl c
  · split
    · exact .refl c
    · constructor <;> exact fun _ => rfl

theorem refreshAccounts_leaves : Leaves [] c c.refreshAccounts := by
  unfold refreshAccounts
  split
  · exact .refl c
  · split
    · exact .refl c
    · constructor <;> exact fun _ => rfl

theorem accountsReplied_leaves (slot : Nat) (result : Option Text) :
    Leaves [] c (c.accountsReplied slot result) := by
  have hfree : Leaves [] c { c with guards.accountsRead := c.guards.accountsRead.release slot } := by
    constructor <;> exact fun _ => rfl
  simp only [accountsReplied]
  split
  · exact .refl c
  · split
    · exact hfree
    · split
      · exact hfree
      · split
        · exact hfree.congr rfl
        · exact hfree

/-! ## The lanes -/

theorem setSweep_guards (due : Bool) : (c.setSweep due).guards = c.guards := rfl

theorem loadBalancesAndHistory_leaves : Leaves [.data] c c.loadBalancesAndHistory := by
  simp only [loadBalancesAndHistory]
  split
  · constructor <;> simp [setSweep_guards]
  · split <;> constructor <;> simp [issue]

theorem handOnData_leaves : Leaves [.data] c c.handOnData := by
  simp only [handOnData]
  split
  · refine Leaves.trans ?_ (loadBalancesAndHistory_leaves _)
    constructor <;> simp
  · constructor <;> simp

theorem balancesReplied_leaves (who : String) (gen sortGen slot : Nat) (bal : Option Text) :
    Leaves [] c (c.balancesReplied who gen sortGen slot bal) := by
  simp only [balancesReplied]
  split
  · exact .refl c
  · split
    · exact .guards (by simp [issue])
    · exact .guards rfl

theorem historyReplied_leaves (gen slot : Nat) (hist : Option Text) :
    Leaves [.data] c (c.historyReplied gen slot hist) := by
  have hfree : Leaves [.data] c { c with guards.data := c.guards.data.release slot } := by
    constructor <;> simp
  simp only [historyReplied]
  split
  · exact hfree
  · refine hfree.trans (Leaves.trans ?_ (handOnData_leaves _))
    split
    · exact .guards (applyHistoryReply_guards _ _)
    · exact .refl _

@[simp] theorem enterRequest_guards (requestJson : Text) (interactive : Bool) :
    (c.enterRequest requestJson interactive).guards = c.guards := by
  simp only [enterRequest, publishScope_guards]
  split <;> rfl

theorem runQuote_leaves (requestJson : Text) (interactive : Bool) :
    Leaves [.quote] c (c.runQuote requestJson interactive) := by
  rw [runQuote_eq]
  refine Leaves.trans (.guards (c.enterRequest_guards requestJson interactive)) ?_
  unfold priceRequest
  split
  · constructor <;> simp
  · split <;> constructor <;> simp [issue]

theorem handOnQuote_leaves : Leaves [.quote] c c.handOnQuote := by
  simp only [handOnQuote]
  split
  · refine Leaves.trans ?_ (runQuote_leaves _ _ _)
    constructor <;> simp
  · constructor <;> simp

theorem quoteReplied_leaves (priced : Text) (interactive : Bool) (gen qgen slot : Nat)
    (res : Option Text) :
    Leaves [.quote] c (c.quoteReplied priced interactive gen qgen slot res) := by
  have hfree : Leaves [.quote] c { c with guards.quote := c.guards.quote.release slot } := by
    constructor <;> simp
  simp only [quoteReplied]
  split
  · exact hfree
  · refine hfree.trans (Leaves.trans ?_ (handOnQuote_leaves _))
    split
    · exact .guards (publishScope_guards _ _)
    · exact .refl _

theorem dataLapsed_leaves {c c' : Core} {i : Nat} (h : c.dataLapsed i = some c') :
    Leaves [.data] c c' := by
  simp only [dataLapsed, Option.map_eq_some_iff] at h
  obtain ⟨-, -, rfl⟩ := h
  split
  · constructor <;> simp
  · refine Leaves.trans ?_ (handOnData_leaves _)
    constructor <;> simp

theorem quoteLapsed_leaves {c c' : Core} {i : Nat} (h : c.quoteLapsed i = some c') :
    Leaves [.quote] c c' := by
  simp only [quoteLapsed, Option.map_eq_some_iff] at h
  obtain ⟨-, -, rfl⟩ := h
  split
  · constructor <;> simp
  · refine Leaves.trans ?_ (handOnQuote_leaves _)
    constructor <;> simp

theorem pendingReplied_leaves (gen slot : Nat) : Leaves [.data] c (c.pendingReplied gen slot) := by
  have hfree : Leaves [.data] c { c with guards.pending := c.guards.pending.release slot } := by
    constructor <;> simp
  simp only [pendingReplied]
  split
  · exact hfree.trans (loadBalancesAndHistory_leaves _)
  · exact hfree

theorem selectAccount_leaves (address : String) : Leaves [.data] c (c.selectAccount address) :=
  Leaves.trans (.guards (c.setSelectedAccount_guards address)) (loadBalancesAndHistory_leaves _)

/-! ## The bare claims -/

theorem loadFeeTiers_leaves : Leaves [.fees] c c.loadFeeTiers := by
  simp only [loadFeeTiers]
  split
  · exact .refl c
  · split <;> constructor <;> simp [issue]

theorem feeTiersReplied_leaves (gen slot : Nat) (res : Option Text) :
    Leaves [.fees] c (c.feeTiersReplied gen slot res) := by
  simp only [feeTiersReplied]
  split <;> constructor <;> simp

theorem refreshTxStatus_leaves (hashHex : String) :
    Leaves [.txStatus] c (c.refreshTxStatus hashHex) := by
  unfold refreshTxStatus
  split
  · exact .refl c
  · split
    · exact .refl c
    · constructor <;> simp [issue]

theorem txStatusReplied_leaves (gen slot : Nat) (res : Option Text) :
    Leaves [.txStatus, .data] c (c.txStatusReplied gen slot res) := by
  let d : Core := { c with guards.txStatus := c.guards.txStatus.release slot }
  let e : Core := d.failed (res.getD .empty) "receipt"
  have hd : Leaves [.txStatus, .data] c d := by constructor <;> simp [d]
  have he : Leaves [.txStatus, .data] c e := hd.congr (d.failed_guards _ _)
  have hl : Leaves [.txStatus, .data] c e.loadBalancesAndHistory :=
    he.trans (e.loadBalancesAndHistory_leaves.mono (by simp))
  have hdown : ∀ x : Core, Leaves [.txStatus, .data] c x →
      Leaves [.txStatus, .data] c { x with guards.txStatus.loading := false } := fun x hx => by
    refine hx.trans ?_
    constructor <;> simp
  simp only [txStatusReplied]
  split
  · exact hd
  · split
    · split
      · exact hdown e he
      · exact hdown _ hl
    · exact hdown d hd

theorem fetchTxDetails_leaves (hashHex : String) :
    Leaves [.details] c (c.fetchTxDetails hashHex) := by
  unfold fetchTxDetails
  split
  · exact .refl c
  · split
    · exact .refl c
    · constructor <;> simp [issue]

theorem txDetailsReplied_leaves (hashHex : String) (gen slot : Nat) (res : Option Text) :
    Leaves [.details] c (c.txDetailsReplied hashHex gen slot res) := by
  simp only [txDetailsReplied]
  split
  · constructor <;> simp
  · split <;> constructor <;> simp

theorem endResend_leaves (slot : Nat) (error : String) :
    Leaves [.resend] c (c.endResend slot error) := by
  simp only [endResend]
  split <;> split <;> constructor <;> simp

theorem resendBlockedNonce_leaves (chainId : Int) (busySending : Bool) :
    Leaves [.resend] c (c.resendBlockedNonce chainId busySending) := by
  simp only [resendBlockedNonce]
  split
  · exact .refl c
  · split
    · exact .refl c
    · split <;> constructor <;> simp [issue, priceResend]

theorem resendStatusReplied_leaves (blocked : JsonObject) (gen slot : Nat) (res : Option Text) :
    Leaves [.resend, .data] c (c.resendStatusReplied blocked gen slot res) := by
  have hend : Leaves [.resend, .data] c (c.endResend slot) :=
    (c.endResend_leaves slot "").mono (by simp)
  simp only [resendStatusReplied]
  split
  · exact hend
  · split
    · exact hend.trans ((loadBalancesAndHistory_leaves _).mono (by simp))
    · exact .guards rfl

theorem resendFeesReplied_leaves (blocked : JsonObject) (gen slot : Nat) (res : Option Text) :
    Leaves [.resend] c (c.resendFeesReplied blocked gen slot res) := by
  simp only [resendFeesReplied]
  split
  · exact c.endResend_leaves _ _
  · split
    · exact c.endResend_leaves _ _
    · split
      · exact c.endResend_leaves _ _
      · exact .guards rfl

theorem resendQuoteReplied_leaves (request : JsonObject) (gen slot : Nat) (res : Option Text) :
    Leaves [.resend] c (c.resendQuoteReplied request gen slot res) := by
  simp only [resendQuoteReplied]
  split
  · exact c.endResend_leaves _ _
  · split
    · exact c.endResend_leaves _ _
    · exact (c.endResend_leaves slot "").congr (publishScope_guards _ _)

/-! ## A refresh ends -/

@[simp] theorem land_guards : c.land.guards = c.guards := by
  simp only [land]
  split <;> rfl

theorem endRefresh_eq (after : After) : c.endRefresh after =
    c.loadBalancesAndHistory.loadFeeTiers.refreshVerifiedProxy.land.afterRefresh after := rfl

theorem endRefresh_leaves (after : After) : Leaves [.data, .fees] c (c.endRefresh after) := by
  rw [endRefresh_eq]
  have hdata : Leaves [.data, .fees] c c.loadBalancesAndHistory :=
    c.loadBalancesAndHistory_leaves.mono (by simp)
  have hfees : Leaves [.data, .fees] c.loadBalancesAndHistory
      c.loadBalancesAndHistory.loadFeeTiers := (loadFeeTiers_leaves _).mono (by simp)
  exact ((hdata.trans hfees).trans (refreshVerifiedProxy_leaves _).nil).congr (by simp)

/-- The account that `reselect` leaves selected. -/
def reselected : String :=
  let list := c.props.accountsJson.array.map fun v => JsonValue.toString (some v)
  if list.any (sameFolded · c.published.selectedAccount) then c.published.selectedAccount
  else list.headD ""

theorem setSelectedAccount_selectedAccount (address : String) :
    (c.setSelectedAccount address).published.selectedAccount = address := by
  rw [setSelectedAccount, publishSelection_eq_set, set_published, set_published]

theorem reselect_selectedAccount : c.reselect.published.selectedAccount = c.reselected := by
  simp only [reselect, reselected]
  split
  · rfl
  · exact c.setSelectedAccount_selectedAccount _

/-- The account that a waiting handler, resumed, reads the balances of. -/
def resumesFor : Frame → Option String
  | .signerWallets reply _ _ _ _ =>
    if replyOk reply then none else some c.published.selectedAccount
  | .listContacts (.refresh _) => some c.reselected
  | _ => none

/-- A refresh ends over the lanes and claims of `c`, with `account` selected. -/
def EndsFor (account : String) (c' : Core) : Prop :=
  ∃ (d : Core) (after : After), d.guards = c.guards ∧ d.now = c.now ∧ d.calls = c.calls ∧
    d.published.selectedAccount = account ∧ c' = d.endRefresh after

/-- What a handler of a refresh comes to: the refresh ends, or no lane and no claim is moved. -/
def Resumes (frame : Frame) (c' : Core) : Prop :=
  c.resumesFor frame = none ∧ c'.guards = c.guards ∨
    ∃ account, c.resumesFor frame = some account ∧ c.EndsFor account c'

theorem accountsListed_resumes (reply labels wallets roster : Text) (after : After)
    (signerWallets : Text) : c.Resumes (.signerWallets reply labels wallets roster after)
      (c.accountsListed reply labels wallets roster after signerWallets) := by
  cases hok : replyOk reply with
  | false =>
    refine .inr ⟨c.published.selectedAccount, by simp [resumesFor, hok],
      c.failed reply "accounts", after, c.failed_guards _ _, ?_, ?_, ?_, ?_⟩
    · exact (c.failed_aside _ _).now
    · exact (c.failed_aside _ _).calls
    · rw [(c.failed_aside _ _).published]
    · simp only [accountsListed, hok, Bool.not_false, if_true]
  | true =>
    refine .inl ⟨by simp [resumesFor, hok], ?_⟩
    simp only [accountsListed, hok, Bool.not_true, Bool.false_eq_true, if_false, enter]
    split <;> split <;> split <;> split <;> exact c.failed_guards _ _

theorem contactsListed_resumes (use : ContactsFor) (reply : Text) :
    c.Resumes (.listContacts use) (c.contactsListed use reply) := by
  let locked := ((parseObject reply).value "code").toString == "locked"
  let d : Core := { c with props.contactsLocked := locked }
  let e : Core := if locked then { d with props.contactsJson := emptyArray }
    else if replyOk reply then { d with props.contactsJson := member reply "contacts" } else d
  have he : e.guards = c.guards ∧ e.now = c.now ∧ e.calls = c.calls ∧
      e.reselected = c.reselected := by
    simp only [e]
    split
    · exact ⟨rfl, rfl, rfl, rfl⟩
    · split <;> exact ⟨rfl, rfl, rfl, rfl⟩
  cases use with
  | edit => exact .inl ⟨rfl, he.1⟩
  | refresh after =>
    refine .inr ⟨c.reselected, rfl, e.reselect, after, e.reselect_guards.trans he.1, ?_, ?_,
      e.reselect_selectedAccount.trans he.2.2.2, rfl⟩
    · exact e.reselect_path.kept.2.trans he.2.1
    · refine Eq.trans ?_ he.2.2.1
      simp only [reselect]
      split
      · rfl
      · exact e.publishSelection_calls _ _

theorem Resumes.leaves {c c' : Core} {frame : Frame} (h : c.Resumes frame c') :
    Leaves [.data, .fees] c c' := by
  obtain ⟨-, hg⟩ | ⟨account, -, d, after, hg, -, -, -, rfl⟩ := h
  · exact .guards hg
  · exact Leaves.trans (.guards hg) (d.endRefresh_leaves after)

end Core

/-! ## Events -/

/-- The lanes and claims that a callback may move. -/
def Callback.moves : Callback → List Guarded
  | .balances .. | .verifiedProxy _ | .accounts _ => []
  | .history .. | .pending .. => [.data]
  | .feeTiers .. => [.fees]
  | .quote .. => [.quote]
  | .txStatus .. => [.txStatus, .data]
  | .resendStatus .. => [.resend, .data]
  | .resendFees .. | .resendQuote .. => [.resend]
  | .txDetails .. => [.details]

theorem Core.replied_leaves (c : Core) (res : Option Text) (callback : Callback) :
    Leaves callback.moves c (c.replied res callback) := by
  cases callback with
  | balances => exact c.balancesReplied_leaves _ _ _ _ _
  | history => exact c.historyReplied_leaves _ _ _
  | feeTiers => exact c.feeTiersReplied_leaves _ _ _
  | quote => exact c.quoteReplied_leaves _ _ _ _ _ _
  | txStatus => exact c.txStatusReplied_leaves _ _ _
  | resendStatus => exact c.resendStatusReplied_leaves _ _ _ _
  | resendFees => exact c.resendFeesReplied_leaves _ _ _ _
  | resendQuote => exact c.resendQuoteReplied_leaves _ _ _ _
  | txDetails => exact c.txDetailsReplied_leaves _ _ _ _
  | verifiedProxy => exact c.verdictReplied_leaves _ _
  | pending => exact c.pendingReplied_leaves _ _
  | accounts => exact c.accountsReplied_leaves _ _

namespace State

variable (s : State)

/-- The lanes and claims of the wallet's data that an event may move. -/
def moves : Event → List Guarded
  | .slot (.selectAccount _) => [.data]
  | .slot (.quote _) | .tick .quote => [.quote]
  | .slot (.refreshTxStatus _) => [.txStatus]
  | .slot (.resendBlockedNonce _) => [.resend]
  | .slot (.fetchTxDetails _) => [.details]
  | .reply i _ => (s.core.calls[i]?.map (·.callback.moves)).getD []
  | .returned _ => [.data, .fees]
  | .soon _ => [.data]
  | .lapse guard _ => [guard]
  | _ => []

theorem pollSend_guards : s.pollSend.core.guards = s.core.guards := by
  unfold pollSend
  split <;> rfl

theorem called_leaves (call : Slot) :
    s.core.Leaves (s.moves (.slot call)) (s.called call).core := by
  cases call with
  | refresh => exact .guards (s.core.refresh_guards _)
  | refreshAccounts => exact s.core.refreshAccounts_leaves
  | selectAccount => exact s.core.selectAccount_leaves _
  | selectChain => exact .guards (s.core.selectChain_guards _)
  | quote requestJson =>
    simp only [called, onCore, moves]
    exact s.core.runQuote_leaves requestJson true
  | setQuoteAutoRefresh => exact .guards (s.core.setQuoteAutoRefresh_guards _)
  | submitSend => exact .guards (s.core.publishScope_guards _)
  | pollSend => exact .guards s.pollSend_guards
  | cancelSend =>
    refine .guards ?_
    simp only [called, cancelSend]
    split <;> rfl
  | refreshTxStatus => exact s.core.refreshTxStatus_leaves _
  | resendBlockedNonce => exact s.core.resendBlockedNonce_leaves _ _
  | dismissResend => exact .guards (s.core.publishScope_guards _)
  | fetchTxDetails => exact s.core.fetchTxDetails_leaves _
  | refreshVerifiedProxy => exact s.core.refreshVerifiedProxy_leaves
  | refreshPending => exact s.core.refreshPending_leaves
  | reviewIntentSend =>
    simp only [called, reviewIntentSend]
    split
    · exact .refl _
    · split <;> exact .refl _
  | acceptIntentSend =>
    simp only [called, acceptIntentSend]
    split
    · exact .refl _
    · split
      · exact .refl _
      · split <;> exact .refl _
  | declineIntentSend => exact .refl _
  | chooseTokenSort | saveContact | forgetContact => exact .guards rfl

theorem resumed_resumes (reply : Text) (frame : Frame) :
    s.core.Resumes frame (s.resumed reply frame).core := by
  cases frame with
  | listNetworks => exact .inl ⟨rfl, s.core.networksListed_guards _ _ _⟩
  | listTokens => exact .inl ⟨rfl, s.core.tokensListed_guards _ _ _ _ _ _ _⟩
  | listAccounts | accountLabels | accountWallets | accountRoster => exact .inl ⟨rfl, rfl⟩
  | signerWallets => exact s.core.accountsListed_resumes _ _ _ _ _ _
  | listContacts => exact s.core.contactsListed_resumes _ _
  | saveContact | forgetContact => exact .inl ⟨rfl, s.core.contactWritten_guards _⟩
  | setTokenSort => exact .inl ⟨rfl, s.core.tokenSortSet_guards _ _⟩
  | send =>
    refine .inl ⟨rfl, ?_⟩
    simp only [resumed, sendReturned]
    split <;> exact s.core.publishScope_guards _
  | sendStatus =>
    refine .inl ⟨rfl, ?_⟩
    simp only [resumed, statusReturned]
    split
    · rfl
    · exact s.core.refresh_guards _
  | cancelSend =>
    refine .inl ⟨rfl, ?_⟩
    simp only [resumed, cancelReturned]
    split <;> rfl

theorem senderReplied_guards (res : Option Text) (call : SenderCall) :
    (s.senderReplied res call).core.guards = s.core.guards := by
  cases call with
  | prepare =>
    simp only [senderReplied, prepareReplied]
    split
    · rfl
    · split <;> rfl
  | send =>
    simp only [senderReplied, sendReplied]
    split
    · rfl
    · split
      · rfl
      · split <;> exact s.core.publishScope_guards _

theorem ticked_leaves {s s' : State} {poll : Poll} (h : s.ticked poll = some s') :
    s.core.Leaves (s.moves (.tick poll)) s'.core := by
  cases poll <;> simp only [ticked] at h
  case accounts =>
    cases h
    exact s.core.refreshAccounts_leaves
  all_goals
    split at h
    case isFalse => cases h
  case send =>
    cases h
    exact .guards s.pollSend_guards
  case pending =>
    cases h
    exact s.core.refreshPending_leaves
  case verified =>
    cases h
    exact s.core.pollVerifiedProxy_leaves
  case quote =>
    split at h
    · cases h
      exact .refl _
    · obtain rfl := Option.some.inj h
      simp only [onCore, moves]
      exact s.core.runQuote_leaves s.core.quoteRequest false

theorem lapsed_leaves {s s' : State} {i : Nat} {guard : Guarded} (h : s.lapsed i guard = some s') :
    s.core.Leaves [guard] s'.core := by
  cases guard <;> simp only [lapsed, Option.map_eq_some_iff] at h <;> obtain ⟨w, hw, rfl⟩ := h
  case data => exact Core.dataLapsed_leaves hw
  case quote => exact Core.quoteLapsed_leaves hw
  case price => exact .refl _
  all_goals constructor <;> simp

/-- What an event leaves of the lanes and the claims. -/
theorem step_leaves {s s' : State} {e : Event} (h : s.step e = some s') :
    s.core.Leaves (s.moves e) s'.core := by
  cases e with
  | slot call =>
    cases h
    exact s.called_leaves call
  | signal what =>
    cases h
    exact .guards (s.core.signalled_guards what)
  | reply i res =>
    simp only [step, Option.map_eq_some_iff] at h
    obtain ⟨call, hc, rfl⟩ := h
    let c₁ : Core := { s.core with
      calls := s.core.calls.eraseIdx i, log := .reply call res :: s.core.log }
    have h₁ : Core.Leaves call.callback.moves s.core c₁ := .guards rfl
    simp only [moves, hc, Option.map_some, Option.getD_some]
    exact h₁.trans (c₁.replied_leaves res call.callback)
  | senderReply i res =>
    simp only [step, Option.map_eq_some_iff] at h
    obtain ⟨call, -, rfl⟩ := h
    exact .guards (senderReplied_guards _ res call)
  | returned reply =>
    simp only [step] at h
    split at h
    · rename_i frame stack _
      cases h
      let s₁ : State := (s.hear (.returned frame reply)).onCore fun c => { c with stack }
      have h₁ : s.core.Leaves [.data, .fees] s₁.core := .guards rfl
      exact h₁.trans (s₁.resumed_resumes reply frame).leaves
    · cases h
  | tick poll => exact ticked_leaves h
  | soon i =>
    simp only [step, Option.map_eq_some_iff] at h
    obtain ⟨what, -, rfl⟩ := h
    let s₁ : State := s.onCore fun c => { c with soon := c.soon.eraseIdx i }
    have h₁ : s.core.Leaves [.data] s₁.core := .guards rfl
    cases what with
    | refresh => exact h₁.congr (s₁.core.refresh_guards _)
    | pollSend => exact h₁.congr s₁.pollSend_guards
    | loadBalancesAndHistory => exact h₁.trans s₁.core.loadBalancesAndHistory_leaves
  | lapse guard i => exact lapsed_leaves h
  | elapse ms =>
    cases h
    exact .guards rfl

end State

end EthWalletUi
