import EthWalletUi.Backend.Publish
import EthWalletUi.Backend.Step

/-!
# What the handlers do

Every handler of the wallet's data is a sequence of a few acts (`Core.Act`). An invariant is proved
act by act, and never unfolds a handler.

* `Core.Scoped`: the scoped states a handler may publish, each with the reply it is owed to.
* `Core.Act`, `Core.Path`: an act, and acts in a row.
* `…_path`: each handler is such a row.
-/

namespace EthWalletUi

open Qt

namespace Callback

/-- The selection's generation that a callback captured. -/
def gen : Callback → Option Nat
  | .balances _ gen _ _ | .history _ gen _ | .feeTiers _ gen _ | .quote _ _ gen _ _
  | .txStatus _ _ gen _ | .resendStatus _ _ _ gen _ | .resendFees _ _ gen _ | .resendQuote _ gen _
  | .txDetails _ _ gen _ | .pending _ gen _ => some gen
  | .verifiedProxy _ | .accounts _ => none

def isFeeTiers : Callback → Bool
  | .feeTiers .. => true
  | _ => false

end Callback

/-- Every row carries the id of a chain. -/
def Chained (rows : List JsonObject) : Prop := ∀ t ∈ rows, ∃ c, t.value "chainId" = some (.int c)

/-- The rows that a token load has collected so far carry their chains. -/
def Frame.Chained : Frame → Prop
  | .listTokens _ _ tokens _ _ _ => EthWalletUi.Chained (tokens.map asObject)
  | _ => True

namespace Core

variable (c : Core)

/-- The captured generation is the current one, or was captured by a call that has been answered:
the next leg of a chain of calls keeps the generation of its first. -/
def Captured (gen : Nat) : Prop :=
  gen = c.dataGen ∨ ∃ call res, Heard.reply call res ∈ c.log ∧ call.callback.gen = some gen

/-- A call that may be issued, the fee read apart. -/
def Issued : Callback → Prop
  | .quote priced _ gen qgen _ => gen = c.dataGen ∧ qgen = c.quoteGen ∧ priced = c.quoteRequest
  | .feeTiers .. => False
  | callback => ∀ gen, callback.gen = some gen → c.Captured gen

/-- Every token load that has gone on had collected such rows. -/
def LoadsChained : Prop := ∀ frame reply, .returned frame reply ∈ c.log → frame.Chained

/-- A synchronous call that may be entered. -/
def Entered : Frame → Prop
  | .send _ gen under => gen = c.dataGen ∧ under = c.shown
  | .listTokens _ _ tokens _ _ _ => c.LoadsChained → Chained (tokens.map asObject)
  | _ => True

/-- The balances reply as `applyBalances` gets it. -/
def balancesReply (res : Option Text) : Text :=
  match res with
  | some reply => flattenBalances reply c.props.networksJson.array c.shown.chainId
  | none => .empty

/-- The history reply as `applyHistory` gets it. -/
def historyReply (res : Option Text) : Text :=
  match res with
  | some reply => scopeComposerHistory reply c.shown.chainId
  | none => .empty

/-- The scoped states that may be published over `c`. -/
inductive Scoped : ScopedState → Prop
  | tokens {tokens : JsonArray} : (c.LoadsChained → Chained (tokens.map asObject)) →
      Scoped { c.scopeSnapshot with tokens := .compact (.arr tokens) }
  | noAccount : c.published.selectedAccount.isEmpty = true →
      Scoped (applyNoAccount c.scopeSnapshot)
  | balances {who : String} {sortGen slot : Nat} {under : Selection} {res : Option Text} :
      .reply ⟨.balances who c.dataGen sortGen slot, under⟩ res ∈ c.log →
      Scoped (applyBalances c.scopeSnapshot (c.balancesReply res)).1
  | history {who : String} {slot : Nat} {under : Selection} {res : Option Text} :
      .reply ⟨.history who c.dataGen slot, under⟩ res ∈ c.log →
      Scoped (applyHistory c.scopeSnapshot (c.historyReply res) (c.now / 1000 : Nat)).1
  | quote {interactive : Bool} {slot : Nat} {priced : Text} {under : Selection}
      {res : Option Text} :
      .reply ⟨.quote priced interactive c.dataGen c.quoteGen slot, under⟩ res ∈ c.log →
      Scoped (applyQuote c.scopeSnapshot (res.getD .empty) priced interactive)
  | txDetails {who hash : String} {slot : Nat} {under : Selection} {res : Option Text} :
      .reply ⟨.txDetails who hash c.dataGen slot, under⟩ res ∈ c.log →
      Scoped (applyTxDetails c.scopeSnapshot (res.getD .empty) hash).1
  | verdict (verdictJson : Text) (silent : Nat) :
      Scoped (applyVerdict c.scopeSnapshot verdictJson silent kMaxSilentPolls).1
  | resendReview {request : JsonObject} {slot : Nat} {under : Selection} {res : Option Text} :
      .reply ⟨.resendQuote request c.dataGen slot, under⟩ res ∈ c.log →
      replyOk (res.getD .empty) = true →
      Scoped { c.scopeSnapshot with
        resendReview := toJsonCompact
          [("request", .obj request), ("quote", .obj (parseObject (res.getD .empty)))] }
  | dismissed : Scoped { c.scopeSnapshot with resendReview := .empty }
  | noError : Scoped { c.scopeSnapshot with sendError := "" }
  | refused {requestJson : Text} {under : Selection} {reply : Text} :
      .returned (.send requestJson c.dataGen under) reply ∈ c.log → replyOk reply = false →
      Scoped { c.scopeSnapshot with sendError := replyError reply }

/-- What may change beside the selection's data, its calls and the refresh. -/
structure Aside (c' : Core) : Prop where
  published : c'.published = c.published
  seen : c'.seen = c.seen
  dataGen : c'.dataGen = c.dataGen
  quoteGen : c'.quoteGen = c.quoteGen
  quoteRequest : c'.quoteRequest = c.quoteRequest
  fees : c'.guards.fees.flight = c.guards.fees.flight
  inFlight : c'.inFlight = c.inFlight
  refreshAgain : c'.refreshAgain = c.refreshAgain
  now : c'.now = c.now
  calls : c'.calls = c.calls
  soon : c'.soon = c.soon
  stack : c'.stack = c.stack
  log : c'.log = c.log

theorem Aside.shown_eq {c c' : Core} (h : c.Aside c') : c'.shown = c.shown := by
  unfold shown
  rw [h.published]

/-- The newest request handed to `quote`: the figures priced for another one go. -/
def enterRequest (requestJson : Text) (interactive : Bool) : Core :=
  let c := if requestJson = c.quoteRequest then c else { c with quoteGen := c.quoteGen + 1 }
  let c := { c with quoteRequest := requestJson }
  let s := (enterQuoteRequest c.scopeSnapshot requestJson).1
  let s := if interactive then { s with sendError := "" } else s
  c.publishScope s

/-- The rest of `runQuote`, once the request is the newest one. -/
def priceRequest (requestJson : Text) (interactive : Bool) : Core :=
  if !describesASend requestJson then { c with guards.quote.loading := false }
  else
    match c.guards.quote.beginLane c.now with
    | (quote, none) =>
      { c with
        guards.quote := quote, quoteAgainInteractive := c.quoteAgainInteractive || interactive }
    | (quote, some slot) =>
      { c with guards.quote := quote }.issue
        (.quote requestJson interactive c.dataGen c.quoteGen slot)

theorem runQuote_eq (requestJson : Text) (interactive : Bool) :
    c.runQuote requestJson interactive =
      (c.enterRequest requestJson interactive).priceRequest requestJson interactive := rfl

/-- What entering a request does: the published quote priced it, or goes. -/
theorem enterRequest_cases (requestJson : Text) (interactive : Bool) :
    ∃ quoteGen sendError s,
      (requestJson = c.quoteRequest ∧ quoteGen = c.quoteGen ∨ quoteGen = c.quoteGen + 1) ∧
      (sendError = c.published.sendError ∨ sendError = "") ∧
      (c.published.quoteRequestJson = requestJson ∧ s = c.scopeSnapshot ∨
        s = withdrawQuote c.scopeSnapshot) ∧
      c.enterRequest requestJson interactive =
        { c with quoteGen, quoteRequest := requestJson }.publishScope { s with sendError } := by
  have hs : c.published.quoteRequestJson = requestJson ∧
        (enterQuoteRequest c.scopeSnapshot requestJson).1 = c.scopeSnapshot ∨
      (enterQuoteRequest c.scopeSnapshot requestJson).1 = withdrawQuote c.scopeSnapshot := by
    unfold enterQuoteRequest
    split
    · exact .inl ⟨‹_›, rfl⟩
    · exact .inr rfl
  have he : (enterQuoteRequest c.scopeSnapshot requestJson).1.sendError =
      c.published.sendError := by
    rcases hs with ⟨-, h⟩ | h
    all_goals
      rw [h]
      rfl
  by_cases hr : requestJson = c.quoteRequest
  · cases interactive with
    | true => exact ⟨c.quoteGen, "", _, .inl ⟨hr, rfl⟩, .inr rfl, hs, by
        simp only [enterRequest, if_pos hr, if_true]
        rfl⟩
    | false =>
      refine ⟨c.quoteGen, _, _, .inl ⟨hr, rfl⟩, .inl he, hs, ?_⟩
      simp only [enterRequest, if_pos hr, Bool.false_eq_true, if_false]
      rfl
  · cases interactive with
    | true => exact ⟨c.quoteGen + 1, "", _, .inr rfl, .inr rfl, hs, by
        simp only [enterRequest, if_neg hr, if_true]
        rfl⟩
    | false =>
      refine ⟨c.quoteGen + 1, _, _, .inr rfl, .inl he, hs, ?_⟩
      simp only [enterRequest, if_neg hr, Bool.false_eq_true, if_false]
      rfl

/-- The request is forgotten, and the figures it priced go. -/
def forgetRequest : Core :=
  let c := { c with quoteGen := c.quoteGen + 1, quoteRequest := .empty }
  c.publishScope (withdrawQuote c.scopeSnapshot)

/-- A refresh ends: the one asked for meanwhile is queued. -/
def land : Core :=
  let c := { c with inFlight := false }
  if c.refreshAgain then { c with refreshAgain := false }.queue .refresh else c

/-- The claim of the fee read is live, or there is no chain to read for. -/
def FeesAsked : Prop := c.shown.chainId = 0 ∨ c.guards.fees.flight.busy c.now = true

inductive Act : Core → Prop
  | aside {c' : Core} : c.Aside c' → Act c'
  | publish {s : ScopedState} : c.Scoped s → Act (c.publishScope s)
  | account (address : String) : Act (c.setSelectedAccount address)
  | noChain : Act (c.setActiveNetworkJson emptyObject)
  /-- A chain adopted by a refresh, which runs again. -/
  | adopt (networkJson : Text) :
    Act { c.setActiveNetworkJson networkJson with refreshAgain := true }
  /-- A chain picked by the user. -/
  | pick (networkJson : Text) : Act (c.setActiveNetworkJson networkJson).refresh
  | quote (requestJson : Text) (interactive : Bool) : Act (c.enterRequest requestJson interactive)
  | forget : Act c.forgetRequest
  | issue {callback : Callback} : c.Issued callback → Act (c.issue callback)
  | enter {frame : Frame} : c.Entered frame → Act (c.enter frame)
  | queue (what : Soon) : Act (c.queue what)
  | refresh (after : After) : Act (c.refresh after)
  | again : Act { c with refreshAgain := true }
  | fees : Act c.loadFeeTiers
  | land : c.FeesAsked → Act c.land

/-- Acts in a row. -/
abbrev Path : Core → Core → Prop := Relation.ReflTransGen fun c c' => c.Act c'

theorem Path.act {c c' : Core} (h : c.Act c') : Path c c' := .single h

/-- A change of nothing that an act is about. -/
theorem Path.aside {c c' : Core} (h : c.Aside c') : Path c c' := .single (.aside h)

theorem Path.after {c c' c'' : Core} (h' : Path c' c'') (h : Path c c') : Path c c'' :=
  Relation.ReflTransGen.trans h h'

theorem Act.after {c c' c'' : Core} (h' : c'.Act c'') (h : Path c c') : Path c c'' := .tail h h'

/-! ## The clock and what has been heard are the loop's -/

theorem afterRefresh_aside (after : After) : c.Aside (c.afterRefresh after) := by
  unfold afterRefresh
  split
  · constructor <;> rfl
  · split <;> constructor <;> rfl

@[simp] theorem refresh_kept (after : After) :
    (c.refresh after).log = c.log ∧ (c.refresh after).now = c.now := by
  simp only [refresh]
  split
  · have h := { c with refreshAgain := true }.afterRefresh_aside after
    exact ⟨h.log, h.now⟩
  · exact ⟨rfl, rfl⟩

@[simp] theorem loadFeeTiers_kept :
    c.loadFeeTiers.log = c.log ∧ c.loadFeeTiers.now = c.now := by
  simp only [loadFeeTiers]
  split
  · exact ⟨rfl, rfl⟩
  · split <;> exact ⟨rfl, rfl⟩

theorem Act.kept {c c' : Core} (h : c.Act c') : c'.log = c.log ∧ c'.now = c.now := by
  cases h with
  | aside h => exact ⟨h.log, h.now⟩
  | publish => simp
  | account | noChain | adopt => exact ⟨publishSelection_log .., publishSelection_now ..⟩
  | pick => simp [setActiveNetworkJson]
  | quote =>
    simp only [enterRequest, publishScope_log, publishScope_now]
    split <;> exact ⟨rfl, rfl⟩
  | forget => simp [forgetRequest]
  | issue | enter | queue | again => exact ⟨rfl, rfl⟩
  | refresh => simp
  | fees => simp
  | land =>
    simp only [Core.land]
    split <;> exact ⟨rfl, rfl⟩

theorem Path.kept {c c' : Core} (h : Path c c') : c'.log = c.log ∧ c'.now = c.now := by
  induction h with
  | refl => exact ⟨rfl, rfl⟩
  | tail _ h ih => exact ⟨h.kept.1.trans ih.1, h.kept.2.trans ih.2⟩

/-! ## The handlers, as paths -/

theorem captured_current : c.Captured c.dataGen := .inl rfl

theorem captured_answered {call : Call} {res : Option Text} {gen : Nat}
    (h : .reply call res ∈ c.log) (hg : call.callback.gen = some gen) : c.Captured gen :=
  .inr ⟨call, res, h, hg⟩

/-- Everything that may change beside. -/
theorem aside_of {props : Props} {guards : Guards} {polls : Polls} {vpSilent : Nat}
    {registryGen sortChoiceGen : Nat} {quoteAgainInteractive : Bool}
    (h : guards.fees.flight = c.guards.fees.flight) :
    c.Aside { c with
      props, guards, polls, vpSilent, registryGen, sortChoiceGen, quoteAgainInteractive } :=
  ⟨rfl, rfl, rfl, rfl, rfl, h, rfl, rfl, rfl, rfl, rfl, rfl, rfl⟩

theorem Path.beside {c c' : Core} {props : Props} {guards : Guards} {polls : Polls} {vpSilent : Nat}
    {registryGen sortChoiceGen : Nat} {quoteAgainInteractive : Bool} (h : Path c c')
    (hg : guards.fees.flight = c'.guards.fees.flight) :
    Path c { c' with
      props, guards, polls, vpSilent, registryGen, sortChoiceGen, quoteAgainInteractive } :=
  .tail h (.aside (c'.aside_of hg))

theorem failed_aside (reply : Text) (context : String) : c.Aside (c.failed reply context) := by
  unfold failed
  split <;> constructor <;> rfl

theorem adoptTokenSort_aside (reply : Text) (issuedAt : Nat) :
    c.Aside (c.adoptTokenSort reply issuedAt) := by
  simp only [adoptTokenSort]
  split <;> constructor <;> rfl

theorem setSweep_aside (due : Bool) : c.Aside (c.setSweep due) := by constructor <;> rfl

theorem endResend_aside (slot : Nat) (error : String) : c.Aside (c.endResend slot error) := by
  simp only [endResend]
  split <;> split <;> constructor <;> rfl

theorem applyVerifiedProxy_path (verdictJson : Text) :
    Path c (c.applyVerifiedProxy verdictJson) := by
  simp only [applyVerifiedProxy]
  exact Path.beside (Act.after (.publish (.verdict verdictJson c.vpSilent))
    (Path.beside .refl (by rfl))) (by rfl)

theorem refreshVerifiedProxy_path : Path c c.refreshVerifiedProxy := by
  unfold refreshVerifiedProxy
  split
  · exact .refl
  · refine Act.after (.issue ?_) (Path.beside .refl (by rfl))
    exact fun _ => nofun

theorem pollVerifiedProxy_path : Path c c.pollVerifiedProxy := by
  unfold pollVerifiedProxy
  split
  · exact c.applyVerifiedProxy_path _
  · exact c.refreshVerifiedProxy_path

theorem verdictReplied_path (slot : Nat) (verdict : Option Text) :
    Path c (c.verdictReplied slot verdict) :=
  (applyVerifiedProxy_path _ _).after (Path.beside .refl (by rfl))

theorem loadBalancesAndHistory_path : Path c c.loadBalancesAndHistory := by
  simp only [loadBalancesAndHistory]
  split
  · exact Path.beside (Act.after (.aside (setSweep_aside _ _))
      (.act (.publish (.noAccount ‹_›)))) (by rfl)
  · split
    · exact Path.beside .refl (by rfl)
    · refine Act.after (.issue ?_) (Path.beside .refl (by rfl))
      rintro _ ⟨⟩
      exact captured_current _

theorem handOnData_path : Path c c.handOnData := by
  unfold handOnData
  split
  · exact (loadBalancesAndHistory_path _).after (Path.beside .refl (by rfl))
  · exact Path.beside .refl (by rfl)

theorem applyBalancesReply_path {who : String} {sortGen slot : Nat} {under : Selection}
    {res : Option Text} (h : .reply ⟨.balances who c.dataGen sortGen slot, under⟩ res ∈ c.log) :
    Path c (c.applyBalancesReply (c.balancesReply res)) := by
  simp only [applyBalancesReply]
  split
  · exact .act (.publish (.balances h))
  · exact Path.beside (.act (.publish (.balances h))) (by rfl)

theorem applyHistoryReply_path {who : String} {slot : Nat} {under : Selection}
    {res : Option Text} (h : .reply ⟨.history who c.dataGen slot, under⟩ res ∈ c.log) :
    Path c (c.applyHistoryReply (c.historyReply res)) := by
  simp only [applyHistoryReply]
  split
  · exact .act (.publish (.history h))
  · exact Act.after (.publish (Scoped.history (c := c.setSweep _) h)) (.aside (c.setSweep_aside _))

/-- A token order read with the balances is adopted before they are. -/
theorem sortedBalances_path {who : String} {sortGen slot : Nat} {under : Selection}
    {res : Option Text} (h : .reply ⟨.balances who c.dataGen sortGen slot, under⟩ res ∈ c.log) :
    Path c ((c.adoptTokenSort (c.balancesReply res) sortGen).applyBalancesReply
      (c.balancesReply res)) := by
  have ha := c.adoptTokenSort_aside (c.balancesReply res) sortGen
  have hr : (c.adoptTokenSort (c.balancesReply res) sortGen).balancesReply res =
      c.balancesReply res := by
    simp only [adoptTokenSort]
    split <;> rfl
  have hp := applyBalancesReply_path (c.adoptTokenSort (c.balancesReply res) sortGen)
    (by rw [ha.dataGen, ha.log]; exact h)
  rw [hr] at hp
  exact hp.after (.aside ha)

theorem balancesReplied_path {who : String} {gen sortGen slot : Nat} {under : Selection}
    {bal : Option Text} (h : .reply ⟨.balances who gen sortGen slot, under⟩ bal ∈ c.log) :
    Path c (c.balancesReplied who gen sortGen slot bal) := by
  have hissue : ∀ {c' : Core}, Path c c' → Path c (c'.issue (.history who gen slot)) := by
    intro c' hp
    refine Act.after (.issue ?_) hp
    rintro _ ⟨⟩
    exact captured_answered c' (by rw [hp.kept.1]; exact h) rfl
  simp only [balancesReplied]
  split
  · exact .refl
  · split
    · rename_i hg
      subst hg
      have hb : Path c { c with props.balancesLoading := false } := Path.beside .refl (by rfl)
      exact hissue ((sortedBalances_path { c with props.balancesLoading := false } h).after hb)
    · exact hissue (Path.beside .refl (by rfl))

theorem historyReplied_path {who : String} {gen slot : Nat} {under : Selection}
    {hist : Option Text} (h : .reply ⟨.history who gen slot, under⟩ hist ∈ c.log) :
    Path c (c.historyReplied gen slot hist) := by
  simp only [historyReplied]
  split
  · exact Path.beside .refl (by rfl)
  · split
    · rename_i hg
      subst hg
      have hr : Path c { c with guards.data := c.guards.data.release slot } :=
        Path.beside .refl (by rfl)
      exact (handOnData_path _).after ((applyHistoryReply_path
        { c with guards.data := c.guards.data.release slot } h).after hr)
    · exact (handOnData_path _).after (Path.beside .refl (by rfl))

theorem runQuote_path (requestJson : Text) (interactive : Bool) :
    Path c (c.runQuote requestJson interactive) := by
  have hr : (c.enterRequest requestJson interactive).quoteRequest = requestJson := by
    simp [enterRequest]
  have hp : Path c (c.enterRequest requestJson interactive) := .act (.quote _ _)
  rw [runQuote_eq]
  unfold priceRequest
  split
  · exact Path.beside hp (by rfl)
  · split
    · exact Path.beside hp (by rfl)
    · exact Act.after (.issue ⟨rfl, rfl, hr.symm⟩) (Path.beside hp (by rfl))

theorem handOnQuote_path : Path c c.handOnQuote := by
  unfold handOnQuote
  split
  · exact (runQuote_path _ _ _).after (Path.beside .refl (by rfl))
  · exact Path.beside .refl (by rfl)

theorem quoteReplied_path {priced : Text} {interactive : Bool} {gen qgen slot : Nat}
    {under : Selection} {res : Option Text}
    (h : .reply ⟨.quote priced interactive gen qgen slot, under⟩ res ∈ c.log) :
    Path c (c.quoteReplied priced interactive gen qgen slot res) := by
  simp only [quoteReplied]
  split
  · exact Path.beside .refl (by rfl)
  · split
    · rename_i hg
      obtain ⟨hd, hq⟩ := hg
      subst hd hq
      exact (handOnQuote_path _).after
        (Act.after (.publish (.quote h)) (Path.beside .refl (by rfl)))
    · exact (handOnQuote_path _).after (Path.beside .refl (by rfl))

theorem setQuoteAutoRefresh_path (on : Bool) : Path c (c.setQuoteAutoRefresh on) := by
  simp only [setQuoteAutoRefresh]
  split
  · have h : Path c { c with polls.quote := false } := Path.beside .refl (by rfl)
    exact Act.after .forget h
  · exact Path.beside (.act (.publish .noError)) (by rfl)

theorem refreshTxStatus_path (hashHex : String) : Path c (c.refreshTxStatus hashHex) := by
  unfold refreshTxStatus
  split
  · exact .refl
  · split
    · exact .refl
    · refine Act.after (.issue ?_) (Path.beside .refl (by rfl))
      rintro _ ⟨⟩
      exact captured_current _

theorem txStatusReplied_path (gen slot : Nat) (res : Option Text) :
    Path c (c.txStatusReplied gen slot res) := by
  simp only [txStatusReplied]
  split
  · exact Path.beside .refl (by rfl)
  · split
    · split
      · exact Path.beside (Act.after (.aside (failed_aside _ _ _))
          (Path.beside .refl (by rfl))) (by rfl)
      · exact Path.beside ((loadBalancesAndHistory_path _).after
          (Act.after (.aside (failed_aside _ _ _)) (Path.beside .refl (by rfl)))) (by rfl)
    · exact Path.beside (Path.beside .refl (by rfl)) (by rfl)

theorem fetchTxDetails_path (hashHex : String) : Path c (c.fetchTxDetails hashHex) := by
  unfold fetchTxDetails
  split
  · exact .refl
  · split
    · exact .refl
    · refine Act.after (.issue ?_) (Path.beside .refl (by rfl))
      rintro _ ⟨⟩
      exact captured_current _

theorem txDetailsReplied_path {who hashHex : String} {gen slot : Nat} {under : Selection}
    {res : Option Text} (h : .reply ⟨.txDetails who hashHex gen slot, under⟩ res ∈ c.log) :
    Path c (c.txDetailsReplied hashHex gen slot res) := by
  simp only [txDetailsReplied]
  split
  · exact Path.beside .refl (by rfl)
  · split
    · rename_i hg
      subst hg
      exact Path.beside (Act.after (.publish (.txDetails h)) (Path.beside .refl (by rfl))) (by rfl)
    · exact Path.beside (Path.beside .refl (by rfl)) (by rfl)

theorem refreshPending_path : Path c c.refreshPending := by
  unfold refreshPending
  split
  · exact .refl
  · split
    · exact .refl
    · refine Act.after (.issue ?_) (Path.beside .refl (by rfl))
      rintro _ ⟨⟩
      exact captured_current _

theorem pendingReplied_path (gen slot : Nat) : Path c (c.pendingReplied gen slot) := by
  simp only [pendingReplied]
  split
  · exact (loadBalancesAndHistory_path _).after (Path.beside .refl (by rfl))
  · exact Path.beside .refl (by rfl)

/-! ### Resending -/

theorem resendBlockedNonce_path (chainId : Int) (busySending : Bool) :
    Path c (c.resendBlockedNonce chainId busySending) := by
  simp only [resendBlockedNonce, priceResend]
  split
  · exact .refl
  · split
    · exact .refl
    · split
      · refine Act.after (.issue ?_) (Path.beside .refl (by rfl))
        rintro _ ⟨⟩
        exact captured_current _
      · refine Act.after (.issue ?_) (Path.beside .refl (by rfl))
        rintro _ ⟨⟩
        exact captured_current _

theorem resendStatusReplied_path {who hash : String} {blocked : JsonObject} {gen slot : Nat}
    {under : Selection} {res : Option Text}
    (h : .reply ⟨.resendStatus who hash blocked gen slot, under⟩ res ∈ c.log) :
    Path c (c.resendStatusReplied blocked gen slot res) := by
  simp only [resendStatusReplied]
  split
  · exact .aside (c.endResend_aside slot _)
  · split
    · exact (loadBalancesAndHistory_path _).after (.aside (c.endResend_aside slot _))
    · refine .act (.issue ?_)
      rintro _ ⟨⟩
      exact c.captured_answered h rfl

theorem resendFeesReplied_path {chainId : Int} {blocked : JsonObject} {gen slot : Nat}
    {under : Selection} {res : Option Text}
    (h : .reply ⟨.resendFees chainId blocked gen slot, under⟩ res ∈ c.log) :
    Path c (c.resendFeesReplied blocked gen slot res) := by
  simp only [resendFeesReplied]
  split
  · exact .aside (c.endResend_aside slot _)
  · split
    · exact .aside (c.endResend_aside slot _)
    · split
      · exact .aside (c.endResend_aside slot _)
      · refine .act (.issue ?_)
        rintro _ ⟨⟩
        exact c.captured_answered h rfl

theorem resendQuoteReplied_path {request : JsonObject} {gen slot : Nat} {under : Selection}
    {res : Option Text} (h : .reply ⟨.resendQuote request gen slot, under⟩ res ∈ c.log) :
    Path c (c.resendQuoteReplied request gen slot res) := by
  simp only [resendQuoteReplied]
  split
  · exact .aside (c.endResend_aside slot _)
  · rename_i hg
    have hd : gen = c.dataGen := by
      simp only [Bool.or_eq_true, Bool.not_eq_true', bne_iff_ne, ne_eq, not_or,
        Decidable.not_not] at hg
      exact hg.2
    split
    · exact .aside (c.endResend_aside slot _)
    · rename_i hok
      have ha := c.endResend_aside slot ""
      have h' : .reply ⟨.resendQuote request (c.endResend slot).dataGen slot, under⟩ res ∈
          (c.endResend slot).log := by
        rw [ha.log, ha.dataGen, ← hd]
        exact h
      exact Act.after (.publish (.resendReview h' (by simpa using hok))) (.aside ha)

theorem dismissResend_path : Path c c.dismissResend := .act (.publish .dismissed)

/-! ### Refreshing -/

/-- Once a fee read has been asked for, its claim is live or there is no chain. -/
theorem loadFeeTiers_asked : c.loadFeeTiers.FeesAsked := by
  simp only [loadFeeTiers]
  rcases c.guards.fees.beginClaim_cases c.now 1 kSendCallBudgetMs with ⟨-, h⟩ | ⟨hb, h⟩
  · rw [h]
    simp only
    split
    · exact .inl ‹_›
    · refine .inr ?_
      have := lt_guardBudgetMs 1 kSendCallBudgetMs
      simp [issue, InFlight.busy]
      omega
  · rw [h]
    exact .inr hb

theorem FeesAsked.aside {c c' : Core} (h : c.FeesAsked) (ha : c.Aside c') : c'.FeesAsked := by
  unfold FeesAsked shown
  rw [ha.published, ha.fees, ha.now]
  exact h

theorem endRefresh_path (after : After) : Path c (c.endRefresh after) := by
  have hv : c.loadBalancesAndHistory.loadFeeTiers.refreshVerifiedProxy.FeesAsked := by
    have h := c.loadBalancesAndHistory.loadFeeTiers_asked
    unfold refreshVerifiedProxy
    split
    · exact h
    · exact h
  have hp : Path c c.loadBalancesAndHistory.loadFeeTiers.refreshVerifiedProxy :=
    (refreshVerifiedProxy_path _).after (Act.after .fees c.loadBalancesAndHistory_path)
  have hl := Act.after (.land hv) hp
  exact Act.after (.aside (afterRefresh_aside _ after)) hl

theorem loadTokens_path (networks : JsonArray) {tokens : JsonArray} (sortReply : Text)
    (sortGen : Nat) (after : After) (h : c.LoadsChained → Chained (tokens.map asObject)) :
    Path c (c.loadTokens networks tokens sortReply sortGen after) := by
  unfold loadTokens
  split
  · exact .act (.enter h)
  · have ht : Path c (c.publishScope { c.scopeSnapshot with tokens := .compact (.arr tokens) }) :=
      .act (.publish (.tokens h))
    exact Act.after (.enter trivial) (Act.after (.aside (adoptTokenSort_aside _ _ _)) ht)

theorem adoptChain_path {chainId : Int} (h : (c.adoptChain chainId).2 = true) :
    Path c { (c.adoptChain chainId).1 with refreshAgain := true } ∧
      Path c (c.adoptChain chainId).1.refresh := by
  unfold adoptChain at h ⊢
  split at h
  · cases h
  · rename_i hne
    simp only [hne, if_false]
    split
    · exact ⟨.act (.adopt _), .act (.pick _)⟩
    · exact ⟨.act (.adopt _), .act (.pick _)⟩

theorem adoptChain_stays {chainId : Int} (h : (c.adoptChain chainId).2 = false) :
    (c.adoptChain chainId).1 = c := by
  unfold adoptChain at h ⊢
  split at h
  · rename_i heq
    rw [if_pos heq]
  · split at h <;> cases h

/-- The chain a list of networks leaves selected. -/
theorem chosen_path (chosen : Int) :
    Path c (if chosen = 0 then c.setActiveNetworkJson emptyObject
      else if (c.adoptChain chosen).2 then { (c.adoptChain chosen).1 with refreshAgain := true }
      else (c.adoptChain chosen).1) := by
  split
  · exact .act .noChain
  · split
    · exact (c.adoptChain_path ‹_›).1
    · rename_i h
      rw [c.adoptChain_stays (by simpa using h)]

theorem networksListed_path (registryGen : Nat) (after : After) (all : Text) :
    Path c (c.networksListed registryGen after all) := by
  simp only [networksListed]
  split
  · exact Act.after (.enter trivial) (.act .again)
  · have hf : Path c (c.failed all "networks") := .aside (c.failed_aside _ _)
    split
    · refine Act.after (.enter trivial) (Act.after .noChain ?_)
      exact Path.beside hf (by rfl)
    · exact (loadTokens_path _ _ _ _ _ fun _ t ht => by cases ht).after
        ((chosen_path _ _).after (Path.beside (Path.beside hf (by rfl)) (by rfl)))

/-- The turn of a network stamps its chain on every row that it adds. -/
theorem tokensListed_path (network : JsonObject) (rest : JsonArray) {tokens : JsonArray}
    (sortReply : Text) (sortGen : Nat) (after : After) (reply : Text)
    (h : c.LoadsChained → Chained (tokens.map asObject)) :
    Path c (c.tokensListed network rest tokens sortReply sortGen after reply) := by
  simp only [tokensListed]
  split
  · let c₁ : Core := { c with props.lastError := refusal reply "tokens" }
    exact (c₁.loadTokens_path rest sortReply sortGen after h).after (Path.beside .refl (by rfl))
  · refine c.loadTokens_path _ _ _ _ fun hl t ht => ?_
    rw [List.map_append, List.mem_append] at ht
    rcases ht with ht | ht
    · exact h hl t ht
    · rw [List.map_map] at ht
      obtain ⟨v, -, rfl⟩ := List.mem_map.mp ht
      refine ⟨(network.value "chainId").toInt, ?_⟩
      simp [asObject, JsonValue.toObject, JsonObject.value_insertValue]

theorem accountsListed_path (reply labels wallets roster : Text) (after : After)
    (signerWallets : Text) :
    Path c (c.accountsListed reply labels wallets roster after signerWallets) := by
  have hif : ∀ {c' : Core} {p : Bool} {props : Props}, Path c c' →
      Path c (if p then { c' with props } else c') := by
    intro c' p props h
    split
    · exact Path.beside h (by rfl)
    · exact h
  have hf : Path c (c.failed reply "accounts") := .aside (c.failed_aside _ _)
  simp only [accountsListed]
  split
  · exact (endRefresh_path _ _).after hf
  · exact Act.after (.enter trivial) (hif (hif (hif (hif (Path.beside hf (by rfl))))))

theorem reselect_path : Path c c.reselect := by
  simp only [reselect]
  split
  · exact .refl
  · exact .act (.account _)

theorem contactsListed_path (use : ContactsFor) (reply : Text) :
    Path c (c.contactsListed use reply) := by
  have hb : ∀ {locked : Bool}, Path c
      (if locked then { c with props.contactsLocked := locked, props.contactsJson := emptyArray }
      else if replyOk reply then { c with
        props.contactsLocked := locked, props.contactsJson := member reply "contacts" }
      else { c with props.contactsLocked := locked }) := by
    intro locked
    split
    · exact Path.beside .refl (by rfl)
    · split <;> exact Path.beside .refl (by rfl)
  cases use with
  | edit => exact hb
  | refresh after => exact (endRefresh_path _ after).after ((reselect_path _).after hb)

theorem contactWritten_path (reply : Text) : Path c (c.contactWritten reply) := by
  unfold contactWritten
  split
  · exact Path.beside .refl (by rfl)
  · exact Act.after (.enter trivial) (Path.beside .refl (by rfl))

theorem refreshAccounts_path : Path c c.refreshAccounts := by
  unfold refreshAccounts
  split
  · exact .refl
  · split
    · exact .refl
    · refine Act.after (.issue ?_) (Path.beside .refl (by rfl))
      exact fun _ => nofun

theorem accountsReplied_path (slot : Nat) (result : Option Text) :
    Path c (c.accountsReplied slot result) := by
  have hr : Path c { c with guards.accountsRead := c.guards.accountsRead.release slot } :=
    Path.beside .refl (by rfl)
  simp only [accountsReplied]
  split
  · exact .refl
  · split
    · exact hr
    · split
      · exact hr
      · split
        · exact Act.after (.queue _) hr
        · exact hr

/-! ### Slots -/

theorem selectAccount_path (address : String) : Path c (c.selectAccount address) :=
  (loadBalancesAndHistory_path _).after (.act (.account address))

theorem selectChain_path (chainId : Int) : Path c (c.selectChain chainId) := by
  have hb : Path c { c with props.lastError := "" } := Path.beside .refl (by rfl)
  simp only [selectChain]
  split
  · exact (adoptChain_path _ ‹_›).2.after hb
  · rename_i h
    rw [adoptChain_stays _ (by simpa using h)]
    exact hb

theorem chooseTokenSort_path (order : String) : Path c (c.chooseTokenSort order) :=
  Act.after (.enter trivial) (Path.beside .refl (by rfl))

theorem tokenSortSet_path (order : String) (reply : Text) :
    Path c (c.tokenSortSet order reply) := by
  have hf : Path c (c.failed reply "token order") := .aside (c.failed_aside _ _)
  simp only [tokenSortSet]
  split
  · exact hf
  · exact Path.beside hf (by rfl)

/-! ### Events of the backend module, and answers -/

theorem signalled_path (what : Signal) : Path c (c.signalled what) := by
  cases what with
  | balancesUpdated address =>
    simp only [signalled]
    split
    · exact .act (.queue _)
    · exact .refl
  | sendStatusChanged | txStatusChanged | accountsChanged | tokensChanged => exact .act (.queue _)
  | tokenSortChanged | networksChanged => exact Act.after (.queue _) (Path.beside .refl (by rfl))

theorem replied_path {callback : Callback} {under : Selection} {res : Option Text}
    (hf : callback.isFeeTiers = false) (h : .reply ⟨callback, under⟩ res ∈ c.log) :
    Path c (c.replied res callback) := by
  cases callback with
  | balances => exact c.balancesReplied_path h
  | history => exact c.historyReplied_path h
  | feeTiers => cases hf
  | quote => exact c.quoteReplied_path h
  | txStatus => exact c.txStatusReplied_path _ _ _
  | resendStatus => exact c.resendStatusReplied_path h
  | resendFees => exact c.resendFeesReplied_path h
  | resendQuote => exact c.resendQuoteReplied_path h
  | txDetails => exact c.txDetailsReplied_path h
  | verifiedProxy => exact c.verdictReplied_path _ _
  | pending => exact c.pendingReplied_path _ _
  | accounts => exact c.accountsReplied_path _ _

theorem replied_kept {callback : Callback} {under : Selection} {res : Option Text}
    (h : .reply ⟨callback, under⟩ res ∈ c.log) :
    (c.replied res callback).log = c.log ∧ (c.replied res callback).now = c.now := by
  cases hf : callback.isFeeTiers with
  | false => exact (c.replied_path hf h).kept
  | true =>
    cases callback with
    | feeTiers chainId gen slot =>
      simp only [replied, feeTiersReplied]
      split
      · exact ⟨rfl, rfl⟩
      · exact ⟨publishScope_log _ _, publishScope_now _ _⟩
    | _ => cases hf

theorem dataLapsed_path {c c' : Core} {i : Nat} (h : c.dataLapsed i = some c') : Path c c' := by
  simp only [dataLapsed, Option.map_eq_some_iff] at h
  obtain ⟨-, -, rfl⟩ := h
  split
  · exact Path.beside .refl (by rfl)
  · exact (handOnData_path _).after (Path.beside .refl (by rfl))

theorem quoteLapsed_path {c c' : Core} {i : Nat} (h : c.quoteLapsed i = some c') : Path c c' := by
  simp only [quoteLapsed, Option.map_eq_some_iff] at h
  obtain ⟨-, -, rfl⟩ := h
  split
  · exact Path.beside .refl (by rfl)
  · exact (handOnQuote_path _).after (Path.beside .refl (by rfl))

end Core

end EthWalletUi
