import EthWalletUi.Backend.Publish
import EthWalletUi.Backend.Step

/-!
# The course of a refresh

The rosters, what is selected of them and how far the refreshing has come make a small machine of
their own (`Course`), which only a few of the handlers move.

* `…_course`: the handlers that leave it alone.
* `Course.Move`, `State.step_course`: what each event of the backend does to it.
-/

namespace EthWalletUi

open Qt

/-- A handler of a running refresh. -/
def Frame.ofRefresh : Frame → Bool
  | .listNetworks .. | .listTokens .. | .listAccounts .. | .accountLabels .. | .accountWallets ..
  | .accountRoster .. | .signerWallets .. | .listContacts (.refresh _) => true
  | _ => false

structure Course where
  accountsJson : Text
  networksJson : Text
  selectedAccount : String
  activeNetworkJson : Text
  inFlight : Bool
  refreshAgain : Bool
  registryGen : Nat
  /-- The refreshes that have been queued. -/
  queued : Nat
  /-- The handlers of the running refresh. -/
  stages : List Frame
  deriving DecidableEq, Inhabited

namespace Core

variable (c : Core)

def course : Course where
  accountsJson := c.props.accountsJson
  networksJson := c.props.networksJson
  selectedAccount := c.published.selectedAccount
  activeNetworkJson := c.published.activeNetworkJson
  inFlight := c.inFlight
  refreshAgain := c.refreshAgain
  registryGen := c.registryGen
  queued := c.soon.count .refresh
  stages := c.stack.filter Frame.ofRefresh

/-! ## The handlers that leave it alone -/

theorem publishScope_course (s : ScopedState) : (c.publishScope s).course = c.course := by
  have hp : (c.publishScope s).published.selectedAccount = c.published.selectedAccount ∧
      (c.publishScope s).published.activeNetworkJson = c.published.activeNetworkJson := by
    rw [publishScope_published]
    exact ⟨rfl, rfl⟩
  obtain ⟨p, n, h⟩ := c.publishScope_eq s
  simp only [course, hp]
  rw [h]

theorem enter_course {frame : Frame} (h : frame.ofRefresh = false) :
    (c.enter frame).course = c.course := by
  simp [course, enter, h]

theorem queue_course {what : Soon} (h : what ≠ .refresh) : (c.queue what).course = c.course := by
  simp [course, queue, h]

theorem failed_course (reply : Text) (context : String) :
    (c.failed reply context).course = c.course := by
  unfold failed
  split <;> rfl

theorem adoptTokenSort_course (reply : Text) (issuedAt : Nat) :
    (c.adoptTokenSort reply issuedAt).course = c.course := by
  simp only [adoptTokenSort]
  split <;> rfl

theorem applyVerifiedProxy_course (verdictJson : Text) :
    (c.applyVerifiedProxy verdictJson).course = c.course :=
  publishScope_course { c with vpSilent := _ } _

theorem refreshVerifiedProxy_course : c.refreshVerifiedProxy.course = c.course := by
  unfold refreshVerifiedProxy
  split <;> rfl

theorem pollVerifiedProxy_course : c.pollVerifiedProxy.course = c.course := by
  unfold pollVerifiedProxy
  split
  · exact c.applyVerifiedProxy_course _
  · exact c.refreshVerifiedProxy_course

theorem verdictReplied_course (slot : Nat) (verdict : Option Text) :
    (c.verdictReplied slot verdict).course = c.course := applyVerifiedProxy_course _ _

theorem loadBalancesAndHistory_course : c.loadBalancesAndHistory.course = c.course := by
  simp only [loadBalancesAndHistory]
  split
  · exact c.publishScope_course _
  · split <;> rfl

theorem handOnData_course : c.handOnData.course = c.course := by
  unfold handOnData
  split
  · exact loadBalancesAndHistory_course _
  · rfl

theorem applyBalancesReply_course (reply : Text) :
    (c.applyBalancesReply reply).course = c.course := by
  simp only [applyBalancesReply]
  split <;> exact c.publishScope_course _

theorem applyHistoryReply_course (reply : Text) :
    (c.applyHistoryReply reply).course = c.course := by
  simp only [applyHistoryReply]
  split
  · exact c.publishScope_course _
  · exact publishScope_course _ _

theorem balancesReplied_course (who : String) (gen sortGen slot : Nat) (bal : Option Text) :
    (c.balancesReplied who gen sortGen slot bal).course = c.course := by
  simp only [balancesReplied]
  split
  · rfl
  · split
    · exact (applyBalancesReply_course _ _).trans (adoptTokenSort_course _ _ _)
    · rfl

theorem historyReplied_course (gen slot : Nat) (hist : Option Text) :
    (c.historyReplied gen slot hist).course = c.course := by
  simp only [historyReplied]
  split
  · rfl
  · split
    · exact (handOnData_course _).trans (applyHistoryReply_course _ _)
    · exact handOnData_course _

theorem loadFeeTiers_course : c.loadFeeTiers.course = c.course := by
  simp only [loadFeeTiers]
  split
  · rfl
  · split <;> rfl

theorem feeTiersReplied_course (gen slot : Nat) (res : Option Text) :
    (c.feeTiersReplied gen slot res).course = c.course := by
  simp only [feeTiersReplied]
  split
  · rfl
  · exact publishScope_course _ _

theorem runQuote_course (requestJson : Text) (interactive : Bool) :
    (c.runQuote requestJson interactive).course = c.course := by
  let d : Core := if requestJson = c.quoteRequest then c else { c with quoteGen := c.quoteGen + 1 }
  have hd : d.course = c.course := by
    simp only [d]
    split <;> rfl
  have hp : ∀ s, (publishScope { d with quoteRequest := requestJson } s).course = c.course :=
    fun s => (publishScope_course _ s).trans hd
  simp only [runQuote]
  split
  · exact hp _
  · split <;> exact hp _

theorem handOnQuote_course : c.handOnQuote.course = c.course := by
  unfold handOnQuote
  split
  · exact runQuote_course _ _ _
  · rfl

theorem quoteReplied_course (priced : Text) (interactive : Bool) (gen qgen slot : Nat)
    (res : Option Text) :
    (c.quoteReplied priced interactive gen qgen slot res).course = c.course := by
  simp only [quoteReplied]
  split
  · rfl
  · split
    · exact (handOnQuote_course _).trans (publishScope_course _ _)
    · exact handOnQuote_course _

theorem setQuoteAutoRefresh_course (on : Bool) : (c.setQuoteAutoRefresh on).course = c.course := by
  simp only [setQuoteAutoRefresh]
  split
  · exact publishScope_course _ _
  · exact publishScope_course _ _

theorem refreshTxStatus_course (hashHex : String) :
    (c.refreshTxStatus hashHex).course = c.course := by
  simp only [refreshTxStatus]
  split
  · rfl
  · split <;> rfl

theorem txStatusReplied_course (gen slot : Nat) (res : Option Text) :
    (c.txStatusReplied gen slot res).course = c.course := by
  simp only [txStatusReplied]
  split
  · rfl
  · split
    · split
      · exact failed_course _ _ _
      · exact (loadBalancesAndHistory_course _).trans (failed_course _ _ _)
    · rfl

theorem fetchTxDetails_course (hashHex : String) :
    (c.fetchTxDetails hashHex).course = c.course := by
  simp only [fetchTxDetails]
  split
  · rfl
  · split <;> rfl

theorem txDetailsReplied_course (hashHex : String) (gen slot : Nat) (res : Option Text) :
    (c.txDetailsReplied hashHex gen slot res).course = c.course := by
  simp only [txDetailsReplied]
  split
  · rfl
  · split
    · exact publishScope_course _ _
    · rfl

theorem refreshPending_course : c.refreshPending.course = c.course := by
  simp only [refreshPending]
  split
  · rfl
  · split <;> rfl

theorem pendingReplied_course (gen slot : Nat) : (c.pendingReplied gen slot).course = c.course := by
  simp only [pendingReplied]
  split
  · exact loadBalancesAndHistory_course _
  · rfl

theorem endResend_course (slot : Nat) (error : String) :
    (c.endResend slot error).course = c.course := by
  simp only [endResend]
  split <;> split <;> rfl

theorem resendBlockedNonce_course (chainId : Int) (busySending : Bool) :
    (c.resendBlockedNonce chainId busySending).course = c.course := by
  simp only [resendBlockedNonce]
  split
  · rfl
  · split
    · rfl
    · split <;> rfl

theorem resendStatusReplied_course (blocked : JsonObject) (gen slot : Nat) (res : Option Text) :
    (c.resendStatusReplied blocked gen slot res).course = c.course := by
  simp only [resendStatusReplied]
  split
  · exact endResend_course _ _ _
  · split
    · exact (loadBalancesAndHistory_course _).trans (endResend_course _ _ _)
    · rfl

theorem resendFeesReplied_course (blocked : JsonObject) (gen slot : Nat) (res : Option Text) :
    (c.resendFeesReplied blocked gen slot res).course = c.course := by
  simp only [resendFeesReplied]
  split
  · exact endResend_course _ _ _
  · split
    · exact endResend_course _ _ _
    · split
      · exact endResend_course _ _ _
      · rfl

theorem resendQuoteReplied_course (request : JsonObject) (gen slot : Nat) (res : Option Text) :
    (c.resendQuoteReplied request gen slot res).course = c.course := by
  simp only [resendQuoteReplied]
  split
  · exact endResend_course _ _ _
  · split
    · exact endResend_course _ _ _
    · exact (publishScope_course _ _).trans (endResend_course _ _ _)

theorem dismissResend_course : c.dismissResend.course = c.course := publishScope_course _ _

theorem afterRefresh_course (after : After) : (c.afterRefresh after).course = c.course := by
  unfold afterRefresh
  split
  · rfl
  · split <;> rfl

theorem contactWritten_course (reply : Text) : (c.contactWritten reply).course = c.course := by
  unfold contactWritten
  split
  · rfl
  · exact enter_course _ rfl

theorem refreshAccounts_course : c.refreshAccounts.course = c.course := by
  unfold refreshAccounts
  split
  · rfl
  · split <;> rfl

theorem chooseTokenSort_course (order : String) : (c.chooseTokenSort order).course = c.course :=
  enter_course _ rfl

theorem tokenSortSet_course (order : String) (reply : Text) :
    (c.tokenSortSet order reply).course = c.course := by
  simp only [tokenSortSet]
  split <;> exact failed_course _ _ _

theorem dataLapsed_course {c c' : Core} {i : Nat} (h : c.dataLapsed i = some c') :
    c'.course = c.course := by
  simp only [dataLapsed, Option.map_eq_some_iff] at h
  obtain ⟨-, -, rfl⟩ := h
  split
  · rfl
  · exact handOnData_course _

theorem quoteLapsed_course {c c' : Core} {i : Nat} (h : c.quoteLapsed i = some c') :
    c'.course = c.course := by
  simp only [quoteLapsed, Option.map_eq_some_iff] at h
  obtain ⟨-, -, rfl⟩ := h
  split
  · rfl
  · exact handOnQuote_course _

end Core

/-! ## The handlers that move it -/

namespace Course

variable (k : Course)

/-- `shown().chainId`. -/
def chainId : Int := (selectionOf k.selectedAccount k.activeNetworkJson).chainId

/-- `refresh()`: queued, not dropped, while one is running. -/
def refresh (after : After) : Course :=
  if k.inFlight then { k with refreshAgain := true }
  else { k with inFlight := true, stages := .listNetworks k.registryGen after :: k.stages }

/-- A refresh ends: the one asked for meanwhile is queued. -/
def land : Course :=
  { k with
    inFlight := false, refreshAgain := false
    queued := if k.refreshAgain then k.queued + 1 else k.queued }

end Course

namespace Core

variable (c : Core)

theorem publishSelection_course (account : String) (networkJson : Text) :
    (c.publishSelection account networkJson).course =
      { c.course with selectedAccount := account, activeNetworkJson := networkJson } := by
  have hp : (c.publishSelection account networkJson).published.selectedAccount = account ∧
      (c.publishSelection account networkJson).published.activeNetworkJson = networkJson := by
    rw [publishSelection_eq_set, set_published, set_published]
    exact ⟨rfl, rfl⟩
  obtain ⟨p, n, d, q, v, h⟩ := c.publishSelection_eq account networkJson
  simp only [course, hp]
  rw [h]

theorem refresh_course (after : After) : (c.refresh after).course = c.course.refresh after := by
  have hi : c.course.inFlight = c.inFlight := rfl
  cases h : c.inFlight with
  | true =>
    have hr : c.refresh after = { c with refreshAgain := true }.afterRefresh after := by
      simp [refresh, h]
    rw [hr, afterRefresh_course, Course.refresh, hi, h]
    rfl
  | false =>
    have hr : c.refresh after = { c with inFlight := true, props.lastError := "" }.enter
        (.listNetworks c.registryGen after) := by simp [refresh, h]
    rw [hr, Course.refresh, hi, h]
    rfl

theorem queue_refresh_course : (c.queue .refresh).course =
    { c.course with queued := c.course.queued + 1 } := by
  simp [course, queue]

theorem endRefresh_course (after : After) : (c.endRefresh after).course = c.course.land := by
  let d := c.loadBalancesAndHistory.loadFeeTiers.refreshVerifiedProxy
  have hd : d.course = c.course := (refreshVerifiedProxy_course _).trans
    ((loadFeeTiers_course _).trans c.loadBalancesAndHistory_course)
  have hr : d.course.refreshAgain = d.refreshAgain := rfl
  have he : (c.endRefresh after).course = (if d.refreshAgain then
      { d with inFlight := false, refreshAgain := false }.queue .refresh
      else { d with inFlight := false }).course := afterRefresh_course _ _
  rw [he, ← hd]
  cases h : d.refreshAgain with
  | true =>
    rw [if_pos rfl, queue_refresh_course, Course.land, hr, h]
    rfl
  | false =>
    rw [if_neg Bool.false_ne_true, Course.land, hr, h]
    simp [course, h]

/-- Entering the next read of a refresh. -/
theorem enter_stage {frame : Frame} (h : frame.ofRefresh = true) : (c.enter frame).course =
    { c.course with stages := frame :: c.course.stages } := by
  simp [course, enter, h]

end Core

/-- A read of a refresh that comes after the networks have been listed. -/
def Frame.isListing : Frame → Bool
  | .listNetworks .. => true
  | _ => false

namespace Core

variable (c : Core)

theorem loadTokens_course (networks tokens : JsonArray) (sortReply : Text) (sortGen : Nat)
    (after : After) : ∃ frame : Frame, frame.ofRefresh = true ∧ frame.isListing = false ∧
      (c.loadTokens networks tokens sortReply sortGen after).course =
        { c.course with stages := frame :: c.course.stages } := by
  unfold loadTokens
  split
  · rename_i n rest
    exact ⟨.listTokens (asObject n) rest tokens sortReply sortGen after, rfl, rfl,
      enter_stage _ rfl⟩
  · refine ⟨.listAccounts after, rfl, rfl, ?_⟩
    have h := (adoptTokenSort_course (c.publishScope { c.scopeSnapshot with
      tokens := .compact (.arr tokens) }) sortReply sortGen).trans (c.publishScope_course _)
    exact (enter_stage _ rfl).trans (by rw [h])

theorem tokensListed_course (network : JsonObject) (rest tokens : JsonArray) (sortReply : Text)
    (sortGen : Nat) (after : After) (reply : Text) :
    ∃ frame : Frame, frame.ofRefresh = true ∧ frame.isListing = false ∧
      (c.tokensListed network rest tokens sortReply sortGen after reply).course =
        { c.course with stages := frame :: c.course.stages } := by
  simp only [tokensListed]
  split
  · exact loadTokens_course _ _ _ _ _ _
  · exact loadTokens_course _ _ _ _ _ _

/-- The cursor moves to another chain; to that of a network published, if there is one. -/
theorem adoptChain_course {chainId : Int} (h : chainId ≠ c.shown.chainId) :
    (c.adoptChain chainId).2 = true ∧ ∃ networkJson,
      (c.adoptChain chainId).1.course = { c.course with activeNetworkJson := networkJson } ∧
      ((c.props.networksJson.array.any fun v => ((asObject v).value "chainId").toInt == chainId) =
        true → ((parseObject networkJson).value "chainId").toInt = chainId) := by
  simp only [adoptChain, if_neg h]
  split
  · rename_i n hn
    refine ⟨rfl, _, publishSelection_course _ _ _, fun _ => ?_⟩
    have hrow := List.find?_some hn
    rwa [beq_iff_eq] at hrow
  · rename_i hn
    refine ⟨rfl, _, publishSelection_course _ _ _, fun hany => ?_⟩
    obtain ⟨v, hv, hrow⟩ := List.any_eq_true.mp hany
    exact absurd hrow (List.find?_eq_none.mp hn v hv)

theorem adoptChain_same {chainId : Int} (h : chainId = c.shown.chainId) :
    c.adoptChain chainId = (c, false) := by simp [adoptChain, h]

end Core

/-! ## What an event does to it -/

/-- The chains of the networks published. -/
def networkChains (networksJson : Text) : List Int :=
  networksJson.array.map fun v => ((asObject v).value "chainId").toInt

/-- The chain chosen is one of the networks', if there is any. -/
theorem chooseChain_mem (networks : JsonArray) (current : Int) : chooseChain networks current = 0 ∨
    chooseChain networks current ∈ networks.map fun v => ((asObject v).value "chainId").toInt := by
  unfold chooseChain
  split
  · rename_i h
    obtain ⟨v, hv, hc⟩ := List.any_eq_true.mp h
    exact .inr (List.mem_map.mpr ⟨v, hv, by simpa using hc⟩)
  · split
    · exact .inl rfl
    · exact .inr (List.mem_cons_self ..)

/-- The cursor stays where it is while it is in scope. -/
theorem chooseChain_of_mem {networks : JsonArray} {current : Int}
    (h : current ∈ networks.map fun v => ((asObject v).value "chainId").toInt) :
    chooseChain networks current = current := by
  obtain ⟨v, hv, rfl⟩ := List.mem_map.mp h
  exact if_pos (List.any_eq_true.mpr ⟨v, hv, by simp⟩)

/-- The networks of an answer. -/
def listedNetworks (reply : Text) : JsonArray := ((parseObject reply).value "networks").toArray

namespace Course

/-- What the answer to `list_networks` does, before the next read. -/
inductive Listed (k : Course) (registryGen : Nat) (reply : Text) : Course → Prop
  | aborted :
    registryGen ≠ k.registryGen → Listed k registryGen reply { k with refreshAgain := true }
  | failed : replyOk reply = false → Listed k registryGen reply
      { k with networksJson := emptyArray, activeNetworkJson := emptyObject }
  | empty : replyOk reply = true → chooseChain (listedNetworks reply) k.chainId = 0 →
      Listed k registryGen reply { k with
        networksJson := .compact (.arr (listedNetworks reply)), activeNetworkJson := emptyObject }
  | kept : replyOk reply = true → chooseChain (listedNetworks reply) k.chainId = k.chainId →
      Listed k registryGen reply { k with networksJson := .compact (.arr (listedNetworks reply)) }
  | adopted {networkJson : Text} : replyOk reply = true →
      chooseChain (listedNetworks reply) k.chainId ≠ 0 →
      chooseChain (listedNetworks reply) k.chainId ≠ k.chainId →
      ((parseObject networkJson).value "chainId").toInt =
        chooseChain (listedNetworks reply) k.chainId →
      Listed k registryGen reply { k with
        networksJson := .compact (.arr (listedNetworks reply))
        activeNetworkJson := networkJson
        refreshAgain := true }

end Course

namespace Core

variable (c : Core)

/-- The cursor that a list of networks leaves. -/
def adoptChosen (chosen : Int) : Core :=
  if chosen = 0 then c.setActiveNetworkJson emptyObject
  else
    let adopted := c.adoptChain chosen
    if adopted.2 then { adopted.1 with refreshAgain := true } else adopted.1

theorem adoptChosen_course (chosen : Int) :
    chosen = 0 ∧ (c.adoptChosen chosen).course =
      { c.course with activeNetworkJson := emptyObject } ∨
    chosen = c.shown.chainId ∧ (c.adoptChosen chosen).course = c.course ∨
    chosen ≠ 0 ∧ chosen ≠ c.shown.chainId ∧ ∃ networkJson, (c.adoptChosen chosen).course =
        { c.course with activeNetworkJson := networkJson, refreshAgain := true } ∧
      (chosen ∈ networkChains c.props.networksJson →
        ((parseObject networkJson).value "chainId").toInt = chosen) := by
  simp only [adoptChosen]
  split
  · refine .inl ⟨‹_›, ?_⟩
    rw [setActiveNetworkJson, publishSelection_course]
    rfl
  · by_cases hsame : chosen = c.shown.chainId
    · rw [c.adoptChain_same hsame]
      exact .inr (.inl ⟨hsame, rfl⟩)
    · obtain ⟨hmoved, networkJson, hcourse, hchain⟩ := c.adoptChain_course hsame
      rw [hmoved, if_pos rfl]
      refine .inr (.inr ⟨‹_›, hsame, networkJson, ?_, fun hm => hchain ?_⟩)
      · have h : Core.course { (c.adoptChain chosen).1 with refreshAgain := true } =
            { (c.adoptChain chosen).1.course with refreshAgain := true } := rfl
        rw [h, hcourse]
      · obtain ⟨v, hv, hrow⟩ := List.mem_map.mp hm
        exact List.any_eq_true.mpr ⟨v, hv, by simpa using hrow⟩

theorem networksListed_course (registryGen : Nat) (after : After) (all : Text) :
    ∃ k frame, c.course.Listed registryGen all k ∧ frame.ofRefresh = true ∧
      frame.isListing = false ∧ (c.networksListed registryGen after all).course =
        { k with stages := frame :: k.stages } := by
  by_cases hg : registryGen = c.registryGen
  · cases hok : replyOk all with
    | false =>
      refine ⟨_, .listAccounts after, .failed hok, rfl, rfl, ?_⟩
      simp only [networksListed, hg, ne_eq, not_true_eq_false, if_false, hok, Bool.not_false,
        if_true]
      refine (enter_stage _ rfl).trans ?_
      rw [setActiveNetworkJson, publishSelection_course]
      have hf := c.failed_course all "networks"
      simp only [course, Course.mk.injEq] at hf ⊢
      simp [hf]
    | true =>
      have hf : c.failed all "networks" = c := if_pos hok
      let d : Core := { c with props := { c.props with
        networksJson := .compact (.arr (listedNetworks all))
        networkScope := ((parseObject all).value "scope").toString "mainnets" } }
      let chosen := chooseChain (listedNetworks all) d.shown.chainId
      have heq : c.networksListed registryGen after all = (d.adoptChosen chosen).loadTokens
          (listedNetworks all) [] .empty (d.adoptChosen chosen).sortChoiceGen after := by
        simp only [networksListed, hg, ne_eq, not_true_eq_false, if_false, hok, hf, Bool.not_true,
          Bool.false_eq_true]
        rfl
      obtain ⟨frame, h₁, h₂, h₃⟩ := (d.adoptChosen chosen).loadTokens_course
        (listedNetworks all) [] .empty (d.adoptChosen chosen).sortChoiceGen after
      have hd : d.course = { c.course with
        networksJson := .compact (.arr (listedNetworks all)) } := rfl
      rw [heq, h₃]
      rcases d.adoptChosen_course chosen with ⟨h0, h⟩ | ⟨hsame, h⟩ | ⟨hne, hmoved, net, h, hchain⟩
      · exact ⟨_, frame, .empty hok h0, h₁, h₂, by rw [h, hd]⟩
      · exact ⟨_, frame, .kept hok hsame, h₁, h₂, by rw [h, hd]⟩
      · have hmem := (chooseChain_mem (listedNetworks all) d.shown.chainId).resolve_left hne
        exact ⟨_, frame, .adopted hok hne hmoved (hchain hmem), h₁, h₂, by rw [h, hd]⟩
  · refine ⟨_, .listAccounts after, .aborted hg, rfl, rfl, ?_⟩
    simp only [networksListed, ne_eq, hg, not_false_eq_true, if_true]
    exact enter_stage _ rfl

theorem accountsListed_course (reply labels wallets roster : Text) (after : After)
    (signerWallets : Text) :
    replyOk reply = false ∧
      (c.accountsListed reply labels wallets roster after signerWallets).course = c.course.land ∨
    replyOk reply = true ∧
      (c.accountsListed reply labels wallets roster after signerWallets).course = { c.course with
        accountsJson := member reply "accounts"
        stages := .listContacts (.refresh after) :: c.course.stages } := by
  cases hok : replyOk reply with
  | false =>
    refine .inl ⟨rfl, ?_⟩
    simp only [accountsListed, hok, Bool.not_false, if_true]
    rw [endRefresh_course, failed_course]
  | true =>
    refine .inr ⟨rfl, ?_⟩
    let d₀ : Core := { c with props.accountsJson := member reply "accounts" }
    let d₁ : Core := if replyOk labels then
      { d₀ with props.accountLabelsJson := member labels "labels" } else d₀
    let d₂ : Core := if replyOk wallets then
      { d₁ with props.accountWalletsJson := member wallets "wallets" } else d₁
    let d₃ : Core := if replyOk roster then
      { d₂ with props.accountRosterJson := member roster "accounts" } else d₂
    let d₄ : Core := if replyOk signerWallets then
      { d₃ with props.signerWalletsJson := member signerWallets "wallets" } else d₃
    have h₁ : d₁.course = d₀.course := by
      simp only [d₁]
      split <;> rfl
    have h₂ : d₂.course = d₁.course := by
      simp only [d₂]
      split <;> rfl
    have h₃ : d₃.course = d₂.course := by
      simp only [d₃]
      split <;> rfl
    have h₄ : d₄.course = d₃.course := by
      simp only [d₄]
      split <;> rfl
    have hf : c.failed reply "accounts" = c := if_pos hok
    have heq : c.accountsListed reply labels wallets roster after signerWallets =
        d₄.enter (.listContacts (.refresh after)) := by
      simp only [accountsListed, hok, Bool.not_true, Bool.false_eq_true, if_false, hf]
      rfl
    rw [heq, enter_stage _ rfl, h₄, h₃, h₂, h₁]
    rfl

theorem reselect_course : ∃ account, c.reselect.course =
      { c.course with selectedAccount := account } ∧
    (account = "" ∨ (c.props.accountsJson.array.map fun v => JsonValue.toString (some v)).any
      (sameFolded · account) = true) := by
  simp only [reselect]
  split
  · exact ⟨_, rfl, .inr ‹_›⟩
  · refine ⟨_, publishSelection_course _ _ _, ?_⟩
    cases hl : c.props.accountsJson.array.map fun v => JsonValue.toString (some v) with
    | nil => exact .inl rfl
    | cons a as =>
      refine .inr ?_
      simp [sameFolded_refl]

theorem contactsListed_course (use : ContactsFor) (reply : Text) :
    use = .edit ∧ (c.contactsListed use reply).course = c.course ∨
    ∃ after account, use = .refresh after ∧ (c.contactsListed use reply).course =
        ({ c.course with selectedAccount := account } : Course).land ∧
      (account = "" ∨ (c.props.accountsJson.array.map fun v => JsonValue.toString (some v)).any
        (sameFolded · account) = true) := by
  let locked := ((parseObject reply).value "code").toString == "locked"
  let d : Core := { c with props.contactsLocked := locked }
  let e : Core := if locked then { d with props.contactsJson := emptyArray }
    else if replyOk reply then { d with props.contactsJson := member reply "contacts" } else d
  have he : e.course = c.course ∧ e.props.accountsJson = c.props.accountsJson := by
    simp only [e]
    split
    · exact ⟨rfl, rfl⟩
    · split <;> exact ⟨rfl, rfl⟩
  cases use with
  | edit => exact .inl ⟨rfl, he.1⟩
  | refresh after =>
    obtain ⟨account, hc, ha⟩ := e.reselect_course
    refine .inr ⟨after, account, rfl, ?_, he.2 ▸ ha⟩
    have heq : c.contactsListed (.refresh after) reply = e.reselect.endRefresh after := rfl
    rw [heq, endRefresh_course, hc, he.1]

theorem selectAccount_course (address : String) :
    (c.selectAccount address).course = { c.course with selectedAccount := address } :=
  (loadBalancesAndHistory_course _).trans (publishSelection_course _ _ _)

theorem selectChain_course (chainId : Int) :
    chainId = c.shown.chainId ∧ (c.selectChain chainId).course = c.course ∨
    chainId ≠ c.shown.chainId ∧ ∃ networkJson, (c.selectChain chainId).course =
      ({ c.course with activeNetworkJson := networkJson } : Course).refresh .nothing := by
  let d : Core := { c with props.lastError := "" }
  simp only [selectChain]
  by_cases hsame : chainId = c.shown.chainId
  · refine .inl ⟨hsame, ?_⟩
    have h := d.adoptChain_same hsame
    simp only [d] at h
    rw [h]
    rfl
  · obtain ⟨hmoved, networkJson, hcourse, -⟩ := d.adoptChain_course hsame
    refine .inr ⟨hsame, networkJson, ?_⟩
    simp only [d] at hmoved hcourse
    rw [hmoved, if_pos rfl, refresh_course, hcourse]
    rfl

end Core

/-- The account is one of the roster. -/
def rosterHas (accountsJson : Text) (account : String) : Bool :=
  (accountsJson.array.map fun v => JsonValue.toString (some v)).any (sameFolded · account)

namespace State

variable (s : State)

/-- `refresh()` is called or queued by something other than a refresh: by the user, by an event of
the backend module, by a roster that has changed, by a send that has settled. -/
def asks : Event → Bool
  | .slot .refresh => true
  | .slot (.selectChain chainId) => chainId != s.core.shown.chainId
  | .signal (.balancesUpdated address) =>
    address.isEmpty || sameFolded address s.core.published.selectedAccount
  | .signal .sendStatusChanged | .signal .txStatusChanged => false
  | .signal _ => true
  | .reply i res => match s.core.calls[i]?, res with
    | some ⟨.accounts slot, _⟩, some reply =>
      s.core.guards.accountsRead.isCurrent slot && s.core.guards.accountsRead.busy s.core.now &&
        replyOk reply && member reply "accounts" != s.core.props.accountsJson
    | _, _ => false
  | .returned reply => match s.core.stack with
    | .sendStatus _ :: _ => (sendPolled reply).settled
    | _ => false
  | _ => false

/-- What one event does to the course of a refresh. -/
inductive Move : Event → Course → Prop
  | still {e : Event} : s.asks e = false → Move e s.core.course
  | account (address : String) :
      Move (.slot (.selectAccount address)) { s.core.course with selectedAccount := address }
  | cursor {chainId : Int} {networkJson : Text} : chainId ≠ s.core.course.chainId →
      Move (.slot (.selectChain chainId))
        (({ s.core.course with activeNetworkJson := networkJson } : Course).refresh .nothing)
  /-- `refresh()` is called. -/
  | called {e : Event} (after : After) : s.asks e = true → Move e (s.core.course.refresh after)
  /-- A refresh is queued. -/
  | told {e : Event} {registryGen : Nat} : s.asks e = true →
      registryGen = s.core.course.registryGen ∨ registryGen = s.core.course.registryGen + 1 →
      Move e { s.core.course with queued := s.core.course.queued + 1, registryGen }
  /-- A queued refresh is due. -/
  | due {i : Nat} : 0 < s.core.course.queued → Move (.soon i)
      (({ s.core.course with queued := s.core.course.queued - 1 } : Course).refresh .nothing)
  | listed {reply : Text} {registryGen : Nat} {after : After} {stages : List Frame} {k : Course}
      {frame : Frame} : s.core.stack.head? = some (.listNetworks registryGen after) →
      s.core.course.stages = .listNetworks registryGen after :: stages →
      ({ s.core.course with stages } : Course).Listed registryGen reply k →
      frame.isListing = false →
      Move (.returned reply) { k with stages := frame :: stages }
  | read {reply : Text} {stage frame : Frame} {stages : List Frame} :
      s.asks (.returned reply) = false →
      s.core.course.stages = stage :: stages → stage.isListing = false → frame.isListing = false →
      Move (.returned reply) { s.core.course with stages := frame :: stages }
  | roster {reply accounts labels wallets names : Text} {after : After} {stages : List Frame} :
      s.core.stack.head? = some (.signerWallets accounts labels wallets names after) →
      s.core.course.stages = .signerWallets accounts labels wallets names after :: stages →
      replyOk accounts = true →
      Move (.returned reply) { s.core.course with
        accountsJson := member accounts "accounts"
        stages := .listContacts (.refresh after) :: stages }
  | landed {reply : Text} {stage : Frame} {stages : List Frame} {account : String} :
      s.asks (.returned reply) = false →
      s.core.course.stages = stage :: stages → stage.isListing = false →
      account = s.core.course.selectedAccount ∨ account = "" ∨
        rosterHas s.core.course.accountsJson account = true →
      Move (.returned reply)
        ({ s.core.course with stages, selectedAccount := account } : Course).land

variable {s}

/-- A handler that leaves the course alone. -/
theorem Move.of_eq {e : Event} {k : Course} (ha : s.asks e = false) (h : k = s.core.course) :
    s.Move e k := h ▸ .still ha

variable (s)

theorem pollSend_course : s.pollSend.core.course = s.core.course := by
  unfold pollSend
  split
  · rfl
  · exact Core.enter_course _ rfl

theorem called_move (call : Slot) : s.Move (.slot call) (s.called call).core.course := by
  cases call with
  | refresh =>
    have h : (s.called .refresh).core.course = s.core.course.refresh .nothing :=
      s.core.refresh_course .nothing
    rw [h]
    exact .called .nothing rfl
  | refreshAccounts => exact .of_eq rfl s.core.refreshAccounts_course
  | selectAccount address =>
    have h : (s.called (.selectAccount address)).core.course =
        { s.core.course with selectedAccount := address } := s.core.selectAccount_course address
    rw [h]
    exact .account address
  | selectChain chainId =>
    rcases s.core.selectChain_course chainId with ⟨hsame, h⟩ | ⟨hmoved, networkJson, h⟩
    · exact .of_eq (by simp [asks, hsame]) h
    · have h' : (s.called (.selectChain chainId)).core.course = _ := h
      rw [h']
      exact .cursor hmoved
  | quote requestJson =>
    refine .of_eq rfl ?_
    simp only [called, onCore]
    exact s.core.runQuote_course requestJson true
  | setQuoteAutoRefresh on => exact .of_eq rfl (s.core.setQuoteAutoRefresh_course _)
  | submitSend requestJson =>
    exact .of_eq rfl ((Core.enter_course _ rfl).trans (Core.publishScope_course _ _))
  | pollSend => exact .of_eq rfl s.pollSend_course
  | cancelSend =>
    refine .of_eq rfl ?_
    simp only [called, cancelSend]
    split
    · rfl
    · exact Core.enter_course _ rfl
  | refreshTxStatus => exact .of_eq rfl (s.core.refreshTxStatus_course _)
  | resendBlockedNonce => exact .of_eq rfl (s.core.resendBlockedNonce_course _ _)
  | dismissResend => exact .of_eq rfl s.core.dismissResend_course
  | fetchTxDetails => exact .of_eq rfl (s.core.fetchTxDetails_course _)
  | refreshVerifiedProxy => exact .of_eq rfl s.core.refreshVerifiedProxy_course
  | refreshPending => exact .of_eq rfl s.core.refreshPending_course
  | reviewIntentSend =>
    refine .of_eq rfl ?_
    simp only [called, reviewIntentSend]
    split
    · rfl
    · split <;> rfl
  | acceptIntentSend =>
    refine .of_eq rfl ?_
    simp only [called, acceptIntentSend]
    split
    · rfl
    · split
      · rfl
      · split <;> rfl
  | declineIntentSend => exact .still rfl
  | chooseTokenSort => exact .of_eq rfl (s.core.chooseTokenSort_course _)
  | saveContact | forgetContact => exact .of_eq rfl (Core.enter_course _ rfl)

theorem signalled_move (what : Signal) :
    s.Move (.signal what) (s.onCore (·.signalled what)).core.course := by
  have hq : ∀ (d : Core) (what : Signal), s.asks (.signal what) = true →
      d.course = { s.core.course with registryGen := d.registryGen } →
      (d.registryGen = s.core.registryGen ∨ d.registryGen = s.core.registryGen + 1) →
      s.Move (.signal what) (d.queue .refresh).course := by
    intro d what ha hd hg
    rw [Core.queue_refresh_course, hd]
    exact .told ha hg
  cases what with
  | balancesUpdated address =>
    simp only [onCore, Core.signalled]
    split
    · exact hq _ _ ‹_› rfl (.inl rfl)
    · exact .still (Bool.eq_false_iff.mpr ‹_›)
  | sendStatusChanged | txStatusChanged => exact .of_eq rfl (Core.queue_course _ nofun)
  | accountsChanged | tokensChanged | tokenSortChanged => exact hq _ _ rfl rfl (.inl rfl)
  | networksChanged => exact hq _ _ rfl rfl (.inr rfl)

theorem replied_move {i : Nat} {call : Call} (res : Option Text)
    (hc : s.core.calls[i]? = some call) :
    s.Move (.reply i res) (({ s.core with
      log := .reply call res :: s.core.log
      calls := s.core.calls.eraseIdx i } : Core).replied res call.callback).course := by
  obtain ⟨callback, under⟩ := call
  let d : Core := { s.core with
    log := .reply ⟨callback, under⟩ res :: s.core.log, calls := s.core.calls.eraseIdx i }
  have hd : d.course = s.core.course := rfl
  have hquiet : (∀ slot, callback ≠ .accounts slot) → s.asks (.reply i res) = false := by
    intro hne
    simp only [asks, hc]
    split
    · rename_i hcall
      cases hcall
      exact absurd rfl (hne _)
    · rfl
  show s.Move _ (d.replied res callback).course
  cases callback with
  | balances => exact .of_eq (hquiet nofun) (d.balancesReplied_course _ _ _ _ _)
  | history => exact .of_eq (hquiet nofun) (d.historyReplied_course _ _ _)
  | feeTiers => exact .of_eq (hquiet nofun) (d.feeTiersReplied_course _ _ _)
  | quote => exact .of_eq (hquiet nofun) (d.quoteReplied_course _ _ _ _ _ _)
  | txStatus => exact .of_eq (hquiet nofun) (d.txStatusReplied_course _ _ _)
  | resendStatus => exact .of_eq (hquiet nofun) (d.resendStatusReplied_course _ _ _ _)
  | resendFees => exact .of_eq (hquiet nofun) (d.resendFeesReplied_course _ _ _ _)
  | resendQuote => exact .of_eq (hquiet nofun) (d.resendQuoteReplied_course _ _ _ _)
  | txDetails => exact .of_eq (hquiet nofun) (d.txDetailsReplied_course _ _ _ _)
  | verifiedProxy => exact .of_eq (hquiet nofun) (d.verdictReplied_course _ _)
  | pending => exact .of_eq (hquiet nofun) (d.pendingReplied_course _ _)
  | accounts slot =>
    have hd : d.guards = s.core.guards ∧ d.now = s.core.now ∧ d.props = s.core.props :=
      ⟨rfl, rfl, rfl⟩
    simp only [Core.replied, Core.accountsReplied, hd]
    split
    · rename_i hcur
      simp only [Bool.not_eq_eq_eq_not, Bool.not_true] at hcur
      refine .still ?_
      cases res <;> simp [asks, hc, hcur]
    · rename_i hcur
      simp only [Bool.not_eq_true, Bool.not_eq_false'] at hcur
      split
      · exact .still (by simp [asks, hc])
      · rename_i value
        split
        · rename_i hlate
          refine .still ?_
          simp only [asks, hc]
          grind
        · rename_i htimely
          split
          · rename_i hmoved
            rw [Core.queue_refresh_course]
            refine .told ?_ (.inl rfl)
            simp only [asks, hc]
            grind
          · rename_i hsame
            refine .still ?_
            simp only [asks, hc]
            grind

theorem ticked_move {s' : State} {poll : Poll} (h : s.ticked poll = some s') :
    s'.core.course = s.core.course := by
  cases ticked_cases h with
  | accounts => exact s.core.refreshAccounts_course
  | send => exact s.pollSend_course
  | pending => exact s.core.refreshPending_course
  | verified => exact s.core.pollVerifiedProxy_course
  | settling => rfl
  | quote =>
    simp only [onCore]
    exact s.core.runQuote_course s.core.quoteRequest false

theorem lapsed_move {s' : State} {i : Nat} {guard : Guarded} (h : s.lapsed i guard = some s') :
    s'.core.course = s.core.course := by
  cases guard <;> simp only [lapsed, Option.map_eq_some_iff] at h <;> obtain ⟨w, hw, rfl⟩ := h
  case data => exact Core.dataLapsed_course hw
  case quote => exact Core.quoteLapsed_course hw
  all_goals rfl

theorem senderReplied_move (res : Option Text) (call : SenderCall) :
    (s.senderReplied res call).core.course = s.core.course := by
  cases call with
  | prepare =>
    simp only [senderReplied, prepareReplied]
    split
    · rfl
    · split <;> rfl
  | send forRequest request gen slot =>
    simp only [senderReplied, sendReplied]
    split
    · rfl
    · split
      · rfl
      · split <;> exact Core.publishScope_course _ _

variable {s} {reply : Text} {frame : Frame} {stack : List Frame}

theorem asks_returned (hh : s.core.stack.head? = some frame)
    (hf : ∀ requestId, frame ≠ .sendStatus requestId) : s.asks (.returned reply) = false := by
  obtain ⟨stack, hs⟩ := List.head?_eq_some_iff.mp hh
  simp only [asks, hs]
  split
  · rename_i hframe
    cases hframe
    exact absurd rfl (hf _)
  · rfl

/-- The handler on top of the stack goes on, its call answered. -/
def unwound (s : State) (reply : Text) (frame : Frame) (stack : List Frame) : State :=
  (s.hear (.returned frame reply)).onCore fun c => { c with stack }

/-- A frame that is none of the refresh's leaves the course as it was. -/
theorem unwound_aside (hs : s.core.stack = frame :: stack) (hf : frame.ofRefresh = false) :
    (s.unwound reply frame stack).core.course = s.core.course := by
  have hstages : s.core.course.stages = (frame :: stack).filter Frame.ofRefresh :=
    congrArg (List.filter Frame.ofRefresh) hs
  rw [List.filter_cons_of_neg (by simp [hf])] at hstages
  show { s.core.course with stages := stack.filter Frame.ofRefresh } = _
  rw [← hstages]

/-- A frame of the refresh is the first of its stages. -/
theorem unwound_stage (hs : s.core.stack = frame :: stack) (hf : frame.ofRefresh = true) :
    s.core.course.stages = frame :: (s.unwound reply frame stack).core.course.stages ∧
      (s.unwound reply frame stack).core.course =
        { s.core.course with stages := (s.unwound reply frame stack).core.course.stages } := by
  have hstages : s.core.course.stages = (frame :: stack).filter Frame.ofRefresh :=
    congrArg (List.filter Frame.ofRefresh) hs
  rw [hstages, List.filter_cons_of_pos hf]
  exact ⟨rfl, rfl⟩

/-- A handler beside the refresh ends without a word to it. -/
theorem aside_move (hs : s.core.stack = frame :: stack) (hf : frame.ofRefresh = false)
    (hne : ∀ requestId, frame ≠ .sendStatus requestId)
    (h : ((s.unwound reply frame stack).resumed reply frame).core.course =
      (s.unwound reply frame stack).core.course) :
    s.Move (.returned reply) ((s.unwound reply frame stack).resumed reply frame).core.course :=
  .of_eq (asks_returned (by rw [hs, List.head?_cons]) hne) (h.trans (unwound_aside hs hf))

/-- A read of the roster goes on to the next one. -/
theorem next_move {next : Frame} (hs : s.core.stack = frame :: stack) (hf : frame.ofRefresh = true)
    (hl : frame.isListing = false) (hne : ∀ requestId, frame ≠ .sendStatus requestId)
    (hnf : next.ofRefresh = true) (hnl : next.isListing = false)
    (h : ((s.unwound reply frame stack).resumed reply frame).core =
      (s.unwound reply frame stack).core.enter next) :
    s.Move (.returned reply) ((s.unwound reply frame stack).resumed reply frame).core.course := by
  obtain ⟨hst, ht⟩ := unwound_stage hs hf
  rw [h, (s.unwound reply frame stack).core.enter_stage hnf, ht]
  exact .read (asks_returned (by rw [hs, List.head?_cons]) hne) hst hl hnl

/-- What is left of a handler, once its synchronous call has returned. -/
theorem resumed_move (hs : s.core.stack = frame :: stack) (reply : Text) :
    s.Move (.returned reply) ((s.unwound reply frame stack).resumed reply frame).core.course := by
  let t := s.unwound reply frame stack
  have hh : s.core.stack.head? = some frame := by rw [hs, List.head?_cons]
  cases frame with
  | listNetworks registryGen after =>
    obtain ⟨hst, ht⟩ := unwound_stage hs rfl
    obtain ⟨k, frame, hl, -, hf, h⟩ := t.core.networksListed_course registryGen after reply
    have h' : (t.resumed reply (.listNetworks registryGen after)).core.course = _ := h
    rw [ht] at hl
    have hk : k.stages = t.core.course.stages := by cases hl <;> rfl
    rw [h', hk]
    exact .listed hh hst hl hf
  | listTokens network rest tokens sortReply sortGen after =>
    obtain ⟨hst, ht⟩ := unwound_stage hs rfl
    obtain ⟨frame, -, hf, h⟩ := t.core.tokensListed_course network rest tokens sortReply sortGen
      after reply
    have h' : (t.resumed reply (.listTokens network rest tokens sortReply sortGen after)).core.course =
      _ := h
    rw [h', ht]
    exact .read (asks_returned hh (by simp)) hst rfl hf
  | listAccounts after => exact next_move hs rfl rfl (by simp) rfl rfl rfl
  | accountLabels accounts after => exact next_move hs rfl rfl (by simp) rfl rfl rfl
  | accountWallets accounts labels after => exact next_move hs rfl rfl (by simp) rfl rfl rfl
  | accountRoster accounts labels wallets after => exact next_move hs rfl rfl (by simp) rfl rfl rfl
  | signerWallets accounts labels wallets roster after =>
    obtain ⟨hst, ht⟩ := unwound_stage hs rfl
    rcases t.core.accountsListed_course accounts labels wallets roster after reply with
      ⟨-, h⟩ | ⟨hok, h⟩
    · have h' : (t.resumed reply (.signerWallets accounts labels wallets roster after)).core.course =
        _ := h
      rw [h', ht]
      exact .landed (asks_returned hh (by simp)) hst rfl
        (.inl (Eq.refl s.core.course.selectedAccount))
    · have h' : (t.resumed reply (.signerWallets accounts labels wallets roster after)).core.course =
        _ := h
      rw [h', ht]
      exact .roster hh hst hok
  | listContacts use =>
    rcases t.core.contactsListed_course use reply with ⟨rfl, h⟩ | ⟨after, account, rfl, h, ha⟩
    · exact aside_move hs rfl (by simp) h
    · obtain ⟨hst, ht⟩ := unwound_stage hs rfl
      have h' : (t.resumed reply (.listContacts (.refresh after))).core.course = _ := h
      rw [h', ht]
      exact .landed (asks_returned hh (by simp)) hst rfl (.inr ha)
  | saveContact => exact aside_move hs rfl (by simp) (t.core.contactWritten_course reply)
  | forgetContact => exact aside_move hs rfl (by simp) (t.core.contactWritten_course reply)
  | setTokenSort order => exact aside_move hs rfl (by simp) (t.core.tokenSortSet_course order reply)
  | send requestJson gen under =>
    refine aside_move hs rfl (by simp) ?_
    simp only [resumed, sendReturned]
    split <;> exact Core.publishScope_course _ _
  | sendStatus requestId =>
    have ht : t.core.course = s.core.course := unwound_aside hs rfl
    show s.Move _ (t.resumed reply (.sendStatus requestId)).core.course
    simp only [resumed, statusReturned]
    split
    · rename_i hwaits
      refine .of_eq ?_ ht
      simpa [asks, hs] using hwaits
    · rename_i hsettled
      have hask : s.asks (.returned reply) = true := by simpa [asks, hs] using hsettled
      rw [Core.refresh_course]
      have h : ∀ send : Send, ({ t with send } : State).core.course = s.core.course := fun _ => ht
      rw [h]
      exact .called _ hask
  | cancelSend requestId =>
    refine aside_move hs rfl (by simp) ?_
    simp only [resumed, cancelReturned]
    split <;> rfl

variable (s)

theorem step_course {s' : State} {e : Event} (h : s.step e = some s') :
    s.Move e s'.core.course := by
  cases e with
  | slot call =>
    cases h
    exact s.called_move call
  | signal what =>
    cases h
    exact s.signalled_move what
  | reply i res =>
    simp only [step, Option.map_eq_some_iff] at h
    obtain ⟨call, hc, rfl⟩ := h
    exact s.replied_move res hc
  | senderReply i res =>
    simp only [step, Option.map_eq_some_iff] at h
    obtain ⟨call, hc, rfl⟩ := h
    exact .of_eq rfl (senderReplied_move _ _ _)
  | returned reply =>
    simp only [step] at h
    split at h
    · rename_i frame stack hs
      cases h
      exact s.resumed_move hs reply
    · cases h
  | tick poll => exact .of_eq rfl (s.ticked_move h)
  | soon i =>
    simp only [step, Option.map_eq_some_iff] at h
    obtain ⟨what, hw, rfl⟩ := h
    let t : State := s.onCore fun c => { c with soon := c.soon.eraseIdx i }
    have hcount : ∀ what, s.core.soon[i]? = some what → s.core.soon.count .refresh =
        (s.core.soon.eraseIdx i).count .refresh + if what = .refresh then 1 else 0 := by
      intro what hw
      obtain ⟨hi, rfl⟩ := List.getElem?_eq_some_iff.mp hw
      have hp := (List.getElem_cons_eraseIdx_perm hi).count_eq Soon.refresh
      rw [← hp, List.count_cons]
      simp only [beq_iff_eq]
    have ht : t.core.course = { s.core.course with
      queued := (s.core.soon.eraseIdx i).count .refresh } := rfl
    have hq : s.core.course.queued = s.core.soon.count .refresh := rfl
    cases what with
    | pollSend =>
      have hc := hcount _ hw
      rw [if_neg nofun] at hc
      refine .of_eq rfl (t.pollSend_course.trans ?_)
      rw [ht, ← hc.trans (Nat.add_zero _)]
      rfl
    | loadBalancesAndHistory =>
      have hc := hcount _ hw
      rw [if_neg nofun] at hc
      refine .of_eq rfl (t.core.loadBalancesAndHistory_course.trans ?_)
      rw [ht, ← hc.trans (Nat.add_zero _)]
      rfl
    | refresh =>
      have hc := hcount _ hw
      rw [if_pos rfl, ← hq] at hc
      have hr : (t.queued .refresh).core.course = t.core.course.refresh .nothing :=
        t.core.refresh_course .nothing
      have hpred : (s.core.soon.eraseIdx i).count .refresh = s.core.course.queued - 1 := by omega
      rw [hr, ht, hpred]
      exact .due (by omega)
  | lapse guard i => exact .of_eq rfl (s.lapsed_move h)
  | elapse ms =>
    cases h
    exact .still rfl

end State

end EthWalletUi
