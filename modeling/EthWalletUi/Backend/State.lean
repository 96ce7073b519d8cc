import EthWalletUi.Apply
import EthWalletUi.Intent
import EthWalletUi.Guard

/-!
# The backend's state (`eth_wallet_ui_backend.h`, `eth_wallet_ui.rep`)

The backend is a `QObject` on one thread. A handler runs to its end or to a synchronous call, which
spins the event loop: other handlers run inside it before it returns. So a handler is cut at each
synchronous call. What is left of it waits in a `Frame`; the frames form a stack, since only the
innermost call can return. An asynchronous call leaves a `Callback`, which captures what the
source's lambda captures; callbacks are delivered in any order, or never.

* `Core`: everything but the sends: the selection, what is scoped to it, the roster, the lanes and
  claims, the outstanding calls.
* `Send`: the pending send, its outcome, and another app's request under review.
* Ghost fields record what has happened and are read by no handler: `Call.under`, `Core.seen`,
  `Core.log`, the request a `SenderCall.send` was made for.

The generations and the slots a callback captures are `quint64` in the source, and `m_vpSilent` is
an `int`. All are counters that go up by one, a `Nat` here: no run makes 2^64 calls, nor 2^31 silent
polls of the verdict in a row, one every five seconds.
-/

namespace EthWalletUi

open Qt

/-! ## What is published -/

/-- The selection, and every property scoped to it. -/
structure Published where
  selectedAccount : String := ""
  activeNetworkJson : Text := emptyObject
  scopedDataFresh : Bool := false
  balancesJson : Text := .empty
  balancesRoute : String := ""
  historyJson : Text := .empty
  blockedChainsJson : Text := .empty
  blockedNoncesJson : Text := .empty
  resendReviewJson : Text := .empty
  quoteJson : Text := emptyObject
  quoteRequestJson : Text := .empty
  quoteStale : Bool := false
  sendError : String := ""
  txDetailsJson : Text := .empty
  tokensJson : Text := .empty
  feeTiersJson : Text := emptyObject
  verifiedProxyJson : Text := emptyObject
  deriving DecidableEq, Inhabited

namespace Published

/-- `shown()`: the selection on screen, what every reply is checked against. -/
def shown (p : Published) : Selection := selectionOf p.selectedAccount p.activeNetworkJson

/-- `scopeSnapshot()`. -/
def snapshot (p : Published) : ScopedState where
  «at» := p.shown
  fresh := p.scopedDataFresh
  balances := p.balancesJson
  balancesRoute := p.balancesRoute
  history := p.historyJson
  blockedChains := p.blockedChainsJson
  blockedNonces := p.blockedNoncesJson
  resendReview := p.resendReviewJson
  quote := p.quoteJson
  quoteRequest := p.quoteRequestJson
  quoteStale := p.quoteStale
  sendError := p.sendError
  txDetails := p.txDetailsJson
  tokens := p.tokensJson
  feeTiers := p.feeTiersJson
  verifiedProxy := p.verifiedProxyJson

end Published

/-! ## Calls -/

/-- What a callback of `eth_wallet_backend` was made for, with what its lambda captures. -/
inductive Callback where
  | balances (who : String) (gen sortGen slot : Nat)
  | history (who : String) (gen slot : Nat)
  | feeTiers (chainId : Int) (gen slot : Nat)
  | quote (priced : Text) (interactive : Bool) (gen qgen slot : Nat)
  | txStatus (who hash : String) (gen slot : Nat)
  | resendStatus (who hash : String) (blocked : JsonObject) (gen slot : Nat)
  | resendFees (chainId : Int) (blocked : JsonObject) (gen slot : Nat)
  | resendQuote (request : JsonObject) (gen slot : Nat)
  | txDetails (who hash : String) (gen slot : Nat)
  | verifiedProxy (slot : Nat)
  | pending (who : String) (gen slot : Nat)
  | accounts (slot : Nat)
  deriving DecidableEq, Inhabited

/-- An outstanding asynchronous call, and the selection it was issued under. -/
structure Call where
  callback : Callback
  under : Selection
  deriving DecidableEq, Inhabited

/-- What `pollSend` has left to do after the `refresh` it runs: `broadcast` sends say nothing. -/
inductive After where
  | nothing
  | explain (status reason : String)
  deriving DecidableEq, Inhabited

/-- Who asked for the address book. -/
inductive ContactsFor where
  | refresh (after : After)
  | edit
  deriving DecidableEq, Inhabited

/-- A handler waiting in a synchronous call, named after the call. -/
inductive Frame where
  | listNetworks (registryGen : Nat) (after : After)
  | listTokens (network : JsonObject) (rest : JsonArray) (tokens : JsonArray) (sortReply : Text)
      (sortGen : Nat) (after : After)
  | listAccounts (after : After)
  | accountLabels (reply : Text) (after : After)
  | accountWallets (reply labels : Text) (after : After)
  | accountRoster (reply labels wallets : Text) (after : After)
  | signerWallets (reply labels wallets roster : Text) (after : After)
  | listContacts (use : ContactsFor)
  | saveContact
  | forgetContact
  | setTokenSort (order : String)
  | send (requestJson : Text) (gen : Nat) (under : Selection)
  | sendStatus (requestId : String)
  | cancelSend (requestId : String)
  deriving DecidableEq, Inhabited

/-- A call of `tx_sender_module`. `forRequest` is the app request it was made for. -/
inductive SenderCall where
  | prepare (forRequest : String) (slot : Nat)
  | send (forRequest : String) (request : JsonObject) (gen slot : Nat)
  deriving DecidableEq, Inhabited

/-- What a call has been answered with. -/
inductive Heard where
  | reply (call : Call) (res : Option Text)
  | returned (frame : Frame) (reply : Text)
  | sender (call : SenderCall) (res : Option Text)
  deriving DecidableEq, Inhabited

/-- A handler queued with `QTimer::singleShot(0, …)`. -/
inductive Soon where
  | refresh
  | pollSend
  | loadBalancesAndHistory
  deriving DecidableEq, Inhabited

/-! ## The state -/

/-- One property update: what was published after it, the newest request then handed to `quote`,
and what had been heard by then. -/
structure Seen where
  published : Published
  quoteRequest : Text
  log : List Heard
  deriving DecidableEq, Inhabited

/-- The published properties that no selection scopes. -/
structure Props where
  lastError : String := ""
  networksJson : Text := emptyArray
  networkScope : String := "mainnets"
  accountsJson : Text := emptyArray
  accountLabelsJson : Text := emptyObject
  accountWalletsJson : Text := emptyObject
  accountRosterJson : Text := emptyArray
  signerWalletsJson : Text := emptyArray
  contactsJson : Text := emptyArray
  contactsError : String := ""
  contactsLocked : Bool := false
  tokenSort : String := "alpha"
  sweepingReceipts : Bool := false
  balancesLoading : Bool := false
  deriving DecidableEq, Inhabited

/-- The lanes and the claims, with their spinners: `dataLoading`, `quoteLoading`,
`feeTiersLoading`, `txStatusLoading`, `resendLoading`, `txDetailsLoading`. -/
structure Guards where
  data : WiredLane := { lane := { budgetMs := kTwoCallBudgetMs } }
  quote : WiredLane := { lane := { budgetMs := kOneSendCallBudgetMs } }
  fees : WiredClaim := {}
  txStatus : WiredClaim := {}
  resend : WiredClaim := {}
  details : WiredClaim := {}
  vp : InFlight := {}
  pending : InFlight := {}
  accountsRead : InFlight := {}
  deriving DecidableEq, Inhabited

/-- The polls that are running. -/
structure Polls where
  pending : Bool := false
  vp : Bool := false
  quote : Bool := false
  deriving DecidableEq, Inhabited

structure Core where
  published : Published := {}
  props : Props := {}
  guards : Guards := {}
  polls : Polls := {}
  /-- A refresh is running. -/
  inFlight : Bool := false
  /-- A refresh asked for while one was running. -/
  refreshAgain : Bool := false
  registryGen : Nat := 0
  /-- Bumped whenever the account or the chain changes. -/
  dataGen : Nat := 0
  /-- Bumped when the request changes too. -/
  quoteGen : Nat := 0
  sortChoiceGen : Nat := 0
  /-- Verdict polls in a row that learned nothing. -/
  vpSilent : Nat := 0
  /-- Whether anything queued behind the live quote was a user edit. -/
  quoteAgainInteractive : Bool := false
  /-- The newest request seen; what the timer re-sends. -/
  quoteRequest : Text := .empty
  /-- Milliseconds since the epoch. -/
  now : Nat := 0
  calls : List Call := []
  soon : List Soon := []
  stack : List Frame := []
  seen : List Seen := []
  log : List Heard := []
  deriving DecidableEq, Inhabited

/-- An update of one of the send properties, as it reaches the view. -/
inductive Update where
  | pendingRequestId (value : String)
  | pendingApprovalHandle (value : String)
  /-- `ofSend`: the send whose settling reply the outcome was read from. -/
  | lastSendOutcome (value : Text) (ofSend : String)
  | intentSend (value : Text)
  | intentSendPricing (value : Bool)
  deriving DecidableEq, Inhabited

structure Send where
  pendingRequestId : String := ""
  pendingApprovalHandle : String := ""
  lastSendOutcomeJson : Text := .empty
  intentSendJson : Text := .empty
  /-- The pricing of an app's request, whose spinner is `intentSendPricing`. -/
  price : WiredClaim := {}
  intentSend : InFlight := {}
  sendPoll : Bool := false
  calls : List SenderCall := []
  /-- What has been published, oldest first. -/
  outbox : List Update := []
  deriving DecidableEq, Inhabited

structure State where
  core : Core := {}
  send : Send := {}
  deriving DecidableEq, Inhabited

end EthWalletUi
