import EthWalletUi.Backend.State

/-!
# The handlers of the wallet's own data (`eth_wallet_ui_backend.cpp`)

Everything but the sends. A handler that makes a synchronous call ends by pushing the frame that
waits in it; what follows the call is the handler named after its answer (`networksListed`,
`tokensListed`, …).
-/

namespace EthWalletUi

open Qt

/-- Verdict polls that learned nothing tolerated before the published verdict is withdrawn. -/
def kMaxSilentPolls : Nat := 3

namespace Core

variable (c : Core)

/-! ## Publishing -/

/-- A generated setter: it is change-guarded. -/
def set (f : Published → Published) : Core :=
  if f c.published = c.published then c
  else { c with
    published := f c.published
    seen := ⟨f c.published, c.quoteRequest, c.log⟩ :: c.seen }

def shown : Selection := c.published.shown

def scopeSnapshot : ScopedState := c.published.snapshot

/-- The writes of `publishScope`, in order. -/
def scopeWrites (s : ScopedState) : List (Published → Published) :=
  [fun p => { p with scopedDataFresh := s.fresh },
   fun p => { p with balancesJson := s.balances },
   fun p => { p with balancesRoute := s.balancesRoute },
   fun p => { p with historyJson := s.history },
   fun p => { p with blockedChainsJson := s.blockedChains },
   fun p => { p with blockedNoncesJson := s.blockedNonces },
   fun p => { p with resendReviewJson := s.resendReview },
   fun p => { p with quoteJson := s.quote },
   fun p => { p with quoteRequestJson := s.quoteRequest },
   fun p => { p with quoteStale := s.quoteStale },
   fun p => { p with sendError := s.sendError },
   fun p => { p with txDetailsJson := s.txDetails },
   fun p => { p with tokensJson := s.tokens },
   fun p => { p with feeTiersJson := s.feeTiers },
   fun p => { p with verifiedProxyJson := s.verifiedProxy }]

/-- The only writer of a scoped property. -/
@[irreducible] def publishScope (s : ScopedState) : Core := (scopeWrites s).foldl set c

/-- The one place the selection moves: withdraw, then publish the selection. -/
def publishSelection (account : String) (networkJson : Text) : Core :=
  let s := c.scopeSnapshot
  let dest := selectionOf account networkJson
  let chainMoved := s.at.chainId != dest.chainId
  let entered := enterScope s dest
  let c := if entered.2 then
      { c with dataGen := c.dataGen + 1, quoteGen := c.quoteGen + 1 }.publishScope entered.1
    else c
  let c := if chainMoved then { c with vpSilent := 0 } else c
  let c := c.set fun p => { p with selectedAccount := account }
  c.set fun p => { p with activeNetworkJson := networkJson }

def setSelectedAccount (address : String) : Core :=
  c.publishSelection address c.published.activeNetworkJson

def setActiveNetworkJson (networkJson : Text) : Core :=
  c.publishSelection c.published.selectedAccount networkJson

/-- Move the Send chain; `false` when it is there already. -/
def adoptChain (chainId : Int) : Core × Bool :=
  if chainId = c.shown.chainId then (c, false)
  else
    match c.props.networksJson.array.find? fun v =>
        ((asObject v).value "chainId").toInt == chainId with
    | some n => (c.setActiveNetworkJson (toJsonCompact (asObject n)), true)
    | none => (c.setActiveNetworkJson (toJsonCompact [("chainId", .int chainId)]), true)

/-! ## Calling out -/

/-- Issue an asynchronous call. -/
def issue (callback : Callback) : Core := { c with calls := c.calls ++ [⟨callback, c.shown⟩] }

/-- Enter a synchronous call. -/
def enter (frame : Frame) : Core := { c with stack := frame :: c.stack }

/-- `refreshSoon` and its kin: re-enter on a clean event-loop stack. -/
def queue (what : Soon) : Core := { c with soon := c.soon ++ [what] }

/-- `failed()`: surface a refusal on the wallet's own error line. It answers `!replyOk reply`. -/
def failed (reply : Text) (context : String) : Core :=
  if replyOk reply then c else { c with props.lastError := refusal reply context }

def adoptTokenSort (reply : Text) (issuedAt : Nat) : Core :=
  let order := adoptedTokenSort reply issuedAt c.sortChoiceGen
  if order.isEmpty then c else { c with props.tokenSort := order }

/-! ## The verdict -/

def applyVerifiedProxy (verdictJson : Text) : Core :=
  match applyVerdict c.scopeSnapshot verdictJson c.vpSilent kMaxSilentPolls with
  | (s, v) => { { c with vpSilent := v.silent }.publishScope s with polls.vp := v.poll }

def refreshVerifiedProxy : Core :=
  match c.guards.vp.take c.now kOneCallBudgetMs with
  | (_, none) => c
  | (vp, some slot) => { c with guards.vp := vp }.issue (.verifiedProxy slot)

/-- A tick that could not even ask has still learned nothing. -/
def pollVerifiedProxy : Core :=
  if c.guards.vp.busy c.now then c.applyVerifiedProxy .empty else c.refreshVerifiedProxy

def verdictReplied (slot : Nat) (verdict : Option Text) : Core :=
  let c := { c with guards.vp := c.guards.vp.release slot }
  c.applyVerifiedProxy (match verdict with
    | some reply => verdictForChain reply c.shown.chainId
    | none => .empty)

/-! ## Balances and history -/

/-- Start or stop the receipt sweep. -/
def setSweep (due : Bool) : Core := { c with polls.pending := due, props.sweepingReceipts := due }

def loadBalancesAndHistory : Core :=
  if c.published.selectedAccount.isEmpty then
    let c := c.publishScope (applyNoAccount c.scopeSnapshot)
    let c := c.setSweep false
    { c with guards.data.loading := false, props.balancesLoading := false }
  else
    match c.guards.data.beginLane c.now with
    | (data, none) => { c with guards.data := data }
    | (data, some slot) =>
      { c with guards.data := data, props.balancesLoading := true }.issue
        (.balances c.published.selectedAccount c.dataGen c.sortChoiceGen slot)

/-- `handOnLane(m_dataLane)`: the lane going down takes the balances' spinner with it. -/
def handOnData : Core :=
  match c.guards.data.handOnLane with
  | (data, .rerun) => { c with guards.data := data }.loadBalancesAndHistory
  | (data, .idle) => { c with guards.data := data, props.balancesLoading := false }

def applyBalancesReply (reply : Text) : Core :=
  match applyBalances c.scopeSnapshot reply with
  | (s, a) =>
    let c := c.publishScope s
    if a.error.isEmpty then c else { c with props.lastError := a.error }

def applyHistoryReply (reply : Text) : Core :=
  match applyHistory c.scopeSnapshot reply (c.now / 1000 : Nat) with
  | (s, h) =>
    let c := if h.sweep = .unchanged then c else c.setSweep (h.sweep = .run)
    c.publishScope s

/-- The first leg: it finishes whatever the selection, and the history call goes out next. -/
def balancesReplied (who : String) (gen sortGen slot : Nat) (bal : Option Text) : Core :=
  if !c.guards.data.owns slot then c
  else
    let c := { c with props.balancesLoading := false }
    let c := if gen = c.dataGen then
        let reply := match bal with
          | some reply => flattenBalances reply c.props.networksJson.array c.shown.chainId
          | none => .empty
        (c.adoptTokenSort reply sortGen).applyBalancesReply reply
      else c
    c.issue (.history who gen slot)

def historyReplied (gen slot : Nat) (hist : Option Text) : Core :=
  let c := { c with guards.data := c.guards.data.release slot }
  if !c.guards.data.owns slot then c
  else
    let c := if gen = c.dataGen then
        c.applyHistoryReply (match hist with
          | some reply => scopeComposerHistory reply c.shown.chainId
          | none => .empty)
      else c
    c.handOnData

/-! ## Fees -/

def loadFeeTiers : Core :=
  match c.guards.fees.beginClaim c.now 1 kSendCallBudgetMs with
  | (_, none) => c
  | (fees, some slot) =>
    let c : Core := { c with guards.fees := fees }
    if c.shown.chainId = 0 then
      { c with guards.fees := { c.guards.fees.release slot with loading := false } }
    else c.issue (.feeTiers c.shown.chainId c.dataGen slot)

def feeTiersReplied (gen slot : Nat) (res : Option Text) : Core :=
  let c := { c with guards.fees := c.guards.fees.release slot }
  if !c.guards.fees.isCurrent slot || gen != c.dataGen then c
  else
    let c := c.publishScope (applyFeeTiers c.scopeSnapshot (res.getD .empty))
    { c with guards.fees.loading := false }

/-! ## The quote -/

/-- One quote, priced asynchronously; `interactive` is a user edit. -/
def runQuote (requestJson : Text) (interactive : Bool) : Core :=
  let c := if requestJson = c.quoteRequest then c else { c with quoteGen := c.quoteGen + 1 }
  let c := { c with quoteRequest := requestJson }
  let s := (enterQuoteRequest c.scopeSnapshot requestJson).1
  let s := if interactive then { s with sendError := "" } else s
  let c := c.publishScope s
  if !describesASend requestJson then { c with guards.quote.loading := false }
  else
    match c.guards.quote.beginLane c.now with
    | (quote, none) =>
      { c with
        guards.quote := quote, quoteAgainInteractive := c.quoteAgainInteractive || interactive }
    | (quote, some slot) =>
      { c with guards.quote := quote }.issue
        (.quote requestJson interactive c.dataGen c.quoteGen slot)

/-- `handOnLane(m_quoteLane)`. -/
def handOnQuote : Core :=
  match c.guards.quote.handOnLane with
  | (quote, .rerun) =>
    { c with guards.quote := quote, quoteAgainInteractive := false }.runQuote c.quoteRequest
      c.quoteAgainInteractive
  | (quote, .idle) => { c with guards.quote := quote }

def quoteReplied (priced : Text) (interactive : Bool) (gen qgen slot : Nat) (res : Option Text) :
    Core :=
  let c := { c with guards.quote := c.guards.quote.release slot }
  if !c.guards.quote.owns slot then c
  else
    let c := if gen = c.dataGen ∧ qgen = c.quoteGen then
        c.publishScope (applyQuote c.scopeSnapshot (res.getD .empty) priced interactive)
      else c
    c.handOnQuote

def setQuoteAutoRefresh (on : Bool) : Core :=
  let s := c.scopeSnapshot
  if !on then
    let c := { c with polls.quote := false, quoteGen := c.quoteGen + 1, quoteRequest := .empty }
    c.publishScope (withdrawQuote s)
  else
    let c := c.publishScope { s with sendError := "" }
    { c with polls.quote := true }

/-! ## Receipts and details -/

def refreshTxStatus (hashHex : String) : Core :=
  if c.published.selectedAccount.isEmpty || hashHex.isEmpty then c
  else
    match c.guards.txStatus.beginClaim c.now with
    | (_, none) => c
    | (txStatus, some slot) =>
      { c with guards.txStatus := txStatus }.issue
        (.txStatus c.published.selectedAccount hashHex c.dataGen slot)

def txStatusReplied (gen slot : Nat) (res : Option Text) : Core :=
  let c := { c with guards.txStatus := c.guards.txStatus.release slot }
  if !c.guards.txStatus.isCurrent slot then c
  else
    let c := if gen = c.dataGen then
        let c := c.failed (res.getD .empty) "receipt"
        if !replyOk (res.getD .empty) then c else c.loadBalancesAndHistory
      else c
    { c with guards.txStatus.loading := false }

def fetchTxDetails (hashHex : String) : Core :=
  if c.published.selectedAccount.isEmpty || hashHex.isEmpty then c
  else
    match c.guards.details.beginClaim c.now with
    | (_, none) => c
    | (details, some slot) =>
      { c with guards.details := details }.issue
        (.txDetails c.published.selectedAccount hashHex c.dataGen slot)

def txDetailsReplied (hashHex : String) (gen slot : Nat) (res : Option Text) : Core :=
  let c := { c with guards.details := c.guards.details.release slot }
  if !c.guards.details.isCurrent slot then c
  else
    let c := if gen = c.dataGen then
        c.publishScope (applyTxDetails c.scopeSnapshot (res.getD .empty) hashHex).1
      else c
    { c with guards.details.loading := false }

def refreshPending : Core :=
  if c.published.selectedAccount.isEmpty then c
  else
    match c.guards.pending.take c.now kOneCallBudgetMs with
    | (_, none) => c
    | (pending, some slot) =>
      { c with guards.pending := pending }.issue
        (.pending c.published.selectedAccount c.dataGen slot)

def pendingReplied (gen slot : Nat) : Core :=
  let c := { c with guards.pending := c.guards.pending.release slot }
  if gen = c.dataGen then c.loadBalancesAndHistory else c

/-! ## Resending a blocked nonce -/

def endResend (slot : Nat) (error : String := "") : Core :=
  let c := { c with guards.resend := c.guards.resend.release slot }
  let c := if c.guards.resend.isCurrent slot then { c with guards.resend.loading := false } else c
  if error.isEmpty then c else { c with props.lastError := error }

/-- The last blocked entry of a chain. -/
def blockedOn (chainId : Int) : JsonObject :=
  c.published.blockedNoncesJson.array.foldl (fun blocked v =>
    if ((asObject v).value "chainId").toInt = chainId then asObject v else blocked) []

/-- The second leg: price it past the floor. -/
def priceResend (blocked : JsonObject) (slot gen : Nat) : Core :=
  let chainId := (blocked.value "chainId").toInt
  c.issue (.resendFees chainId blocked gen slot)

/-- The third leg: quote it for review. -/
def quoteResend (request : JsonObject) (slot gen : Nat) : Core :=
  c.issue (.resendQuote request gen slot)

/-- `busySending`: a send is already waiting on a human. -/
def resendBlockedNonce (chainId : Int) (busySending : Bool) : Core :=
  let blocked := c.blockedOn chainId
  if (blocked.value "resend").toObject.isEmpty || busySending then c
  else
    match c.guards.resend.beginClaim c.now 3 kSendCallBudgetMs with
    | (_, none) => c
    | (resend, some slot) =>
      let c := { c with guards.resend := resend }
      let hash := (blocked.value "hash").toString
      if hash.isEmpty then c.priceResend blocked slot c.dataGen
      else c.issue (.resendStatus c.published.selectedAccount hash blocked c.dataGen slot)

def resendStatusReplied (blocked : JsonObject) (gen slot : Nat) (res : Option Text) : Core :=
  if !c.guards.resend.isCurrent slot || gen != c.dataGen then c.endResend slot
  else
    let status := ((parseObject (res.getD .empty)).value "status").toString
    if status == "confirmed" || status == "failed" then
      (c.endResend slot).loadBalancesAndHistory
    else c.priceResend blocked slot gen

def resendFeesReplied (blocked : JsonObject) (gen slot : Nat) (res : Option Text) : Core :=
  if !c.guards.resend.isCurrent slot || gen != c.dataGen then c.endResend slot
  else
    let reply := res.getD .empty
    let nonce := (blocked.value "nonce").toInteger
    let failure (why : String) := s!"resend nonce {nonce}: {why}"
    if !replyOk reply then c.endResend slot (failure (refusal reply "current fees"))
    else
      let tier := (((parseObject reply).value "tiers").toObject.value "normal").toObject
      let fees := replacementFees tier (blocked.value "floorMaxFeePerGas").toString
        (blocked.value "floorMaxPriorityFeePerGas").toString
      if !fees.error.isEmpty then c.endResend slot (failure fees.error)
      else c.quoteResend (resendRequest blocked fees) slot gen

def resendQuoteReplied (request : JsonObject) (gen slot : Nat) (res : Option Text) : Core :=
  if !c.guards.resend.isCurrent slot || gen != c.dataGen then c.endResend slot
  else
    let reply := res.getD .empty
    if !replyOk reply then
      let nonce := (request.value "nonce").toInteger
      let why := if reply.isEmpty then "the backend did not answer" else replyError reply
      c.endResend slot s!"resend nonce {nonce}: {why}"
    else
      let c := c.endResend slot
      c.publishScope { c.scopeSnapshot with
        resendReview := toJsonCompact
          [("request", .obj request), ("quote", .obj (parseObject reply))] }

def dismissResend : Core := c.publishScope { c.scopeSnapshot with resendReview := .empty }

/-! ## Refreshing -/

def afterRefresh : After → Core
  | .nothing => c
  | .explain status reason =>
    if status != "broadcast" && !reason.isEmpty then
      { c with props.lastError := s!"send {status}: {reason}" }
    else c

/-- Queued, not dropped, while a refresh is running. -/
def refresh (after : After := .nothing) : Core :=
  if c.inFlight then { c with refreshAgain := true }.afterRefresh after
  else
    let c := { c with inFlight := true, props.lastError := "" }
    c.enter (.listNetworks c.registryGen after)

def loadAccounts (after : After) : Core := c.enter (.listAccounts after)

/-- What `refresh` does after `loadAccounts`. -/
def endRefresh (after : After) : Core :=
  let c := c.loadBalancesAndHistory
  let c := c.loadFeeTiers
  let c := c.refreshVerifiedProxy
  let c := { c with inFlight := false }
  let c := if c.refreshAgain then { c with refreshAgain := false }.queue .refresh else c
  c.afterRefresh after

/-- The loop over the networks: list the next one's tokens, or publish them all. -/
def loadTokens (networks tokens : JsonArray) (sortReply : Text) (sortGen : Nat) (after : After) :
    Core :=
  match networks with
  | n :: rest => c.enter (.listTokens (asObject n) rest tokens sortReply sortGen after)
  | [] =>
    let c := c.publishScope { c.scopeSnapshot with tokens := .compact (.arr tokens) }
    (c.adoptTokenSort sortReply sortGen).loadAccounts after

def networksListed (registryGen : Nat) (after : After) (all : Text) : Core :=
  if registryGen ≠ c.registryGen then { c with refreshAgain := true }.loadAccounts after
  else
    let c := c.failed all "networks"
    if !replyOk all then
      let c := { c with props.networksJson := emptyArray }
      (c.setActiveNetworkJson emptyObject).loadAccounts after
    else
      let registry := parseObject all
      let networks := (registry.value "networks").toArray
      let c := { c with props.networksJson := .compact (.arr networks) }
      let c := { c with props.networkScope := (registry.value "scope").toString "mainnets" }
      let chosen := chooseChain networks c.shown.chainId
      let c := if chosen = 0 then c.setActiveNetworkJson emptyObject
        else
          let adopted := c.adoptChain chosen
          if adopted.2 then { adopted.1 with refreshAgain := true } else adopted.1
      c.loadTokens networks [] .empty c.sortChoiceGen after

def tokensListed (network : JsonObject) (rest tokens : JsonArray) (sortReply : Text)
    (sortGen : Nat) (after : After) (reply : Text) : Core :=
  if !replyOk reply then
    { c with props.lastError := refusal reply "tokens" }.loadTokens rest tokens sortReply sortGen
      after
  else
    let chainId := (network.value "chainId").toInt
    let stamped := ((parseObject reply).value "tokens").toArray.map fun tokenValue =>
      let token := (asObject tokenValue).insert "chainId" (.int chainId)
      let token := token.insertValue "network" (network.value "name")
      Json.obj (token.insertValue "testnet" (network.value "testnet"))
    c.loadTokens rest (tokens ++ stamped) reply sortGen after

/-- `loadAccounts` once all five of its reads have come back. -/
def accountsListed (reply labels wallets roster : Text) (after : After) (signerWallets : Text) :
    Core :=
  let c := c.failed reply "accounts"
  if !replyOk reply then c.endRefresh after
  else
    let c := { c with props.accountsJson := member reply "accounts" }
    -- A failed read keeps what was on screen.
    let c := if replyOk labels then { c with props.accountLabelsJson := member labels "labels" }
      else c
    let c := if replyOk wallets then { c with props.accountWalletsJson := member wallets "wallets" }
      else c
    let c := if replyOk roster then { c with props.accountRosterJson := member roster "accounts" }
      else c
    let c := if replyOk signerWallets then
        { c with props.signerWalletsJson := member signerWallets "wallets" }
      else c
    c.enter (.listContacts (.refresh after))

/-- The rest of `loadAccounts`: an account that left the keystore is deselected. -/
def reselect : Core :=
  let list := c.props.accountsJson.array.map fun v => JsonValue.toString (some v)
  if list.any (sameFolded · c.published.selectedAccount) then c
  else c.setSelectedAccount (list.headD "")

def contactsListed (use : ContactsFor) (reply : Text) : Core :=
  let locked := ((parseObject reply).value "code").toString == "locked"
  let c := { c with props.contactsLocked := locked }
  -- A failed read keeps the book, locked is the exception.
  let c := if locked then { c with props.contactsJson := emptyArray }
    else if replyOk reply then { c with props.contactsJson := member reply "contacts" }
    else c
  match use with
  | .edit => c
  | .refresh after => c.reselect.endRefresh after

/-- `saveContact` and `forgetContact`, once the write has come back. -/
def contactWritten (reply : Text) : Core :=
  if !replyOk reply then { c with props.contactsError := replyError reply }
  else { c with props.contactsError := "" }.enter (.listContacts .edit)

def refreshAccounts : Core :=
  if c.inFlight then c
  else
    match c.guards.accountsRead.take c.now kOneCallBudgetMs with
    | (_, none) => c
    | (accountsRead, some slot) =>
      { c with guards.accountsRead := accountsRead }.issue (.accounts slot)

/-- Discovery is a background hint: a failed read never erases the roster. -/
def accountsReplied (slot : Nat) (result : Option Text) : Core :=
  if !c.guards.accountsRead.isCurrent slot then c
  else
    let timely := c.guards.accountsRead.busy c.now
    let c := { c with guards.accountsRead := c.guards.accountsRead.release slot }
    match result with
    | none => c
    | some value =>
      if !timely || !replyOk value then c
      else if member value "accounts" ≠ c.props.accountsJson then c.queue .refresh
      else c

/-! ## Slots -/

def selectAccount (address : String) : Core := (c.setSelectedAccount address).loadBalancesAndHistory

def selectChain (chainId : Int) : Core :=
  let adopted := { c with props.lastError := "" }.adoptChain chainId
  if adopted.2 then adopted.1.refresh else adopted.1

def chooseTokenSort (order : String) : Core :=
  let c := { c with sortChoiceGen := c.sortChoiceGen + 1 }
  c.enter (.setTokenSort order)

def tokenSortSet (order : String) (reply : Text) : Core :=
  let c := c.failed reply "token order"
  if !replyOk reply then c else { c with props.tokenSort := order }

end Core

end EthWalletUi
