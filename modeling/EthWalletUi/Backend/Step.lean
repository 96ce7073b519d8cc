import EthWalletUi.Backend.Send
import EthWalletUi.Machine.Sys

/-!
# The backend as a system

An event is one turn of the event loop: a slot call, an event of another module, an answer, a timer.
Any event may come while synchronous calls are waiting: they spin the loop. `onContextReady` has
run in the initial state, so its first `refresh` is waiting in `list_networks`.
-/

namespace EthWalletUi

open Qt Machine

/-- A slot of `eth_wallet_ui.rep`. -/
inductive Slot where
  | refresh
  | refreshAccounts
  | selectAccount (address : String)
  | selectChain (chainId : Int)
  | quote (requestJson : Text)
  | setQuoteAutoRefresh (on : Bool)
  | submitSend (requestJson : Text)
  | pollSend
  | cancelSend
  | refreshTxStatus (hashHex : String)
  | resendBlockedNonce (chainId : Int)
  | dismissResend
  | fetchTxDetails (hashHex : String)
  | refreshVerifiedProxy
  | refreshPending
  | reviewIntentSend (requestJson : Text)
  | acceptIntentSend
  | declineIntentSend
  | chooseTokenSort (order : String)
  | saveContact (address name : String)
  | forgetContact (address : String)
  deriving DecidableEq, Inhabited

/-- An event of `eth_wallet_backend`. -/
inductive Signal where
  | balancesUpdated (address : String)
  | sendStatusChanged
  | txStatusChanged
  | accountsChanged
  | tokensChanged
  | tokenSortChanged (order : String)
  | networksChanged
  deriving DecidableEq, Inhabited

/-- A poll. -/
inductive Poll where
  | accounts
  | send
  | pending
  | verified
  | quote
  deriving DecidableEq, Inhabited

/-- What a lapse timer is armed for. -/
inductive Guarded where
  | data
  | quote
  | fees
  | txStatus
  | resend
  | details
  | price
  deriving DecidableEq, Inhabited

inductive Event where
  | slot (call : Slot)
  | signal (what : Signal)
  /-- Outstanding call `i` is answered; `none` is a call that failed. -/
  | reply (i : Nat) (res : Option Text)
  | senderReply (i : Nat) (res : Option Text)
  /-- The innermost synchronous call returns. -/
  | returned (reply : Text)
  | tick (poll : Poll)
  | soon (i : Nat)
  | lapse (guard : Guarded) (i : Nat)
  | elapse (ms : Nat)
  deriving DecidableEq, Inhabited

namespace Core

variable (c : Core)

/-- The callback of a call, run with its answer. -/
def replied (res : Option Text) : Callback → Core
  | .balances who gen sortGen slot => c.balancesReplied who gen sortGen slot res
  | .history _ gen slot => c.historyReplied gen slot res
  | .feeTiers _ gen slot => c.feeTiersReplied gen slot res
  | .quote priced interactive gen qgen slot => c.quoteReplied priced interactive gen qgen slot res
  | .txStatus _ _ gen slot => c.txStatusReplied gen slot res
  | .resendStatus _ _ blocked gen slot => c.resendStatusReplied blocked gen slot res
  | .resendFees _ blocked gen slot => c.resendFeesReplied blocked gen slot res
  | .resendQuote request gen slot => c.resendQuoteReplied request gen slot res
  | .txDetails _ hash gen slot => c.txDetailsReplied hash gen slot res
  | .verifiedProxy slot => c.verdictReplied slot res
  | .pending _ gen slot => c.pendingReplied gen slot
  | .accounts slot => c.accountsReplied slot res

def signalled : Signal → Core
  | .balancesUpdated address =>
    if address.isEmpty || sameFolded address c.published.selectedAccount then c.queue .refresh else c
  | .sendStatusChanged => c.queue .pollSend
  | .txStatusChanged => c.queue .loadBalancesAndHistory
  | .accountsChanged => c.queue .refresh
  | .tokensChanged => c.queue .refresh
  | .tokenSortChanged order => { c with props.tokenSort := order }.queue .refresh
  | .networksChanged => { c with registryGen := c.registryGen + 1 }.queue .refresh

/-- The lapse timer of a lane. -/
def dataLapsed (i : Nat) : Option Core :=
  c.guards.data.timers[i]?.map fun _ =>
    let c := { c with guards.data.timers := c.guards.data.timers.eraseIdx i }
    if c.guards.data.lane.busy c.now then c else c.handOnData

def quoteLapsed (i : Nat) : Option Core :=
  c.guards.quote.timers[i]?.map fun _ =>
    let c := { c with guards.quote.timers := c.guards.quote.timers.eraseIdx i }
    if c.guards.quote.lane.busy c.now then c else c.handOnQuote

end Core

/-- The lapse timer of a bare claim. -/
def WiredClaim.lapsed (w : WiredClaim) (now i : Nat) : Option WiredClaim :=
  w.timers[i]?.map fun _ => { w with timers := w.timers.eraseIdx i }.lapse now

namespace State

variable (s : State)

/-- A handler of the wallet's own data. -/
def onCore (f : Core → Core) : State := { s with core := f s.core }

@[simp] theorem onCore_send (f : Core → Core) : (s.onCore f).send = s.send := rfl

def called : Slot → State
  | .refresh => s.onCore fun c => c.refresh
  | .refreshAccounts => s.onCore (·.refreshAccounts)
  | .selectAccount address => s.onCore (·.selectAccount address)
  | .selectChain chainId => s.onCore (·.selectChain chainId)
  | .quote requestJson => s.onCore (·.runQuote requestJson true)
  | .setQuoteAutoRefresh on => s.onCore (·.setQuoteAutoRefresh on)
  | .submitSend requestJson => s.submitSend requestJson
  | .pollSend => s.pollSend
  | .cancelSend => s.cancelSend
  | .refreshTxStatus hashHex => s.onCore (·.refreshTxStatus hashHex)
  | .resendBlockedNonce chainId => s.onCore (·.resendBlockedNonce chainId s.busySending)
  | .dismissResend => s.onCore (·.dismissResend)
  | .fetchTxDetails hashHex => s.onCore (·.fetchTxDetails hashHex)
  | .refreshVerifiedProxy => s.onCore (·.refreshVerifiedProxy)
  | .refreshPending => s.onCore (·.refreshPending)
  | .reviewIntentSend requestJson => s.reviewIntentSend requestJson
  | .acceptIntentSend => s.acceptIntentSend
  | .declineIntentSend => s.declineIntentSend
  | .chooseTokenSort order => s.onCore (·.chooseTokenSort order)
  | .saveContact _ _ => s.onCore (·.enter .saveContact)
  | .forgetContact _ => s.onCore (·.enter .forgetContact)

/-- What is left of a handler, once its synchronous call has returned. -/
def resumed (reply : Text) : Frame → State
  | .listNetworks registryGen after => s.onCore (·.networksListed registryGen after reply)
  | .listTokens network rest tokens sortReply sortGen after =>
    s.onCore (·.tokensListed network rest tokens sortReply sortGen after reply)
  | .listAccounts after => s.onCore (·.enter (.accountLabels reply after))
  | .accountLabels accounts after => s.onCore (·.enter (.accountWallets accounts reply after))
  | .accountWallets accounts labels after =>
    s.onCore (·.enter (.accountRoster accounts labels reply after))
  | .accountRoster accounts labels wallets after =>
    s.onCore (·.enter (.signerWallets accounts labels wallets reply after))
  | .signerWallets accounts labels wallets roster after =>
    s.onCore (·.accountsListed accounts labels wallets roster after reply)
  | .listContacts use => s.onCore (·.contactsListed use reply)
  | .saveContact => s.onCore (·.contactWritten reply)
  | .forgetContact => s.onCore (·.contactWritten reply)
  | .setTokenSort order => s.onCore (·.tokenSortSet order reply)
  | .send _ gen _ => s.sendReturned gen reply
  | .sendStatus requestId => s.statusReturned requestId reply
  | .cancelSend requestId => s.cancelReturned requestId reply

def senderReplied (res : Option Text) : SenderCall → State
  | .prepare forRequest slot => s.prepareReplied forRequest slot res
  | .send _ _ gen slot => s.sendReplied gen slot res

/-- A poll's timer, if it is running. -/
def ticked : Poll → Option State
  | .accounts => some (s.onCore (·.refreshAccounts))
  | .send => if s.send.sendPoll then some s.pollSend else none
  | .pending => if s.core.polls.pending then some (s.onCore (·.refreshPending)) else none
  | .verified => if s.core.polls.vp then some (s.onCore (·.pollVerifiedProxy)) else none
  | .quote =>
    if s.core.polls.quote then
      -- A send awaiting a human is settled, not being priced.
      if s.core.quoteRequest.isEmpty || s.busySending then some s
      else some (s.onCore fun c => c.runQuote c.quoteRequest false)
    else none

def queued : Soon → State
  | .refresh => s.onCore fun c => c.refresh
  | .pollSend => s.pollSend
  | .loadBalancesAndHistory => s.onCore (·.loadBalancesAndHistory)

def lapsed (i : Nat) : Guarded → Option State
  | .data => (s.core.dataLapsed i).map fun core => { s with core }
  | .quote => (s.core.quoteLapsed i).map fun core => { s with core }
  | .fees => (s.core.guards.fees.lapsed s.core.now i).map fun fees =>
    { s with core.guards.fees := fees }
  | .txStatus => (s.core.guards.txStatus.lapsed s.core.now i).map fun txStatus =>
    { s with core.guards.txStatus := txStatus }
  | .resend => (s.core.guards.resend.lapsed s.core.now i).map fun resend =>
    { s with core.guards.resend := resend }
  | .details => (s.core.guards.details.lapsed s.core.now i).map fun details =>
    { s with core.guards.details := details }
  | .price => (s.send.price.lapsed s.core.now i).map fun price =>
    { s with send := s.send.setPrice price }

/-- Note what a call has been answered with. -/
def hear (heard : Heard) : State := { s with core := { s.core with log := heard :: s.core.log } }

def step : Event → Option State
  | .slot call => some (s.called call)
  | .signal what => some (s.onCore (·.signalled what))
  | .reply i res => s.core.calls[i]?.map fun call =>
    let s := s.hear (.reply call res)
    s.onCore fun c => { c with calls := c.calls.eraseIdx i }.replied res call.callback
  | .senderReply i res => s.send.calls[i]?.map fun call =>
    let s := s.hear (.sender call res)
    { s with send := { s.send with calls := s.send.calls.eraseIdx i } }.senderReplied res call
  | .returned reply => match s.core.stack with
    | frame :: stack =>
      let s := s.hear (.returned frame reply)
      some ((s.onCore fun c => { c with stack }).resumed reply frame)
    | [] => none
  | .tick poll => s.ticked poll
  | .soon i => s.core.soon[i]?.map fun what =>
    (s.onCore fun c => { c with soon := c.soon.eraseIdx i }).queued what
  | .lapse guard i => s.lapsed i guard
  | .elapse ms => some (s.onCore fun c => { c with now := c.now + ms })

/-- What a tick of a poll does, if the poll is running. -/
inductive Ticked : State → Prop where
  | accounts : Ticked (s.onCore (·.refreshAccounts))
  | send : Ticked s.pollSend
  | pending : Ticked (s.onCore (·.refreshPending))
  | verified : Ticked (s.onCore (·.pollVerifiedProxy))
  | settling : Ticked s
  | quote : Ticked (s.onCore fun c => c.runQuote c.quoteRequest false)

variable {s} in
theorem ticked_cases {s' : State} {poll : Poll} (h : s.ticked poll = some s') : s.Ticked s' := by
  cases poll <;> simp only [ticked] at h
  case accounts => exact Option.some.inj h ▸ .accounts
  all_goals
    split at h
    case isFalse => exact absurd h nofun
  case send => exact Option.some.inj h ▸ .send
  case pending => exact Option.some.inj h ▸ .pending
  case verified => exact Option.some.inj h ▸ .verified
  case quote =>
    split at h
    · exact Option.some.inj h ▸ .settling
    · exact Option.some.inj h ▸ .quote

/-- `onContextReady` has run. -/
def ready : State := { core := Core.refresh {} }

end State

/-- The backend. -/
def backend : Sys State Event where
  init s := s = .ready
  step := State.step

/-! ## A wallet that has come up -/

def okReply (members : JsonObject) : Text := toJsonCompact (("ok", .bool true) :: members)

/-- The first refresh: chain 1 and account `0xA` are selected, and their reads are outstanding. -/
def opened : List Event :=
  [.returned (okReply [("networks", .arr [.obj [("chainId", .int 1)]])]),
   .returned (okReply [("tokens", .arr [])]),
   .returned (okReply [("accounts", .arr [.str "0xA"])]),
   .returned .empty, .returned .empty, .returned .empty, .returned .empty, .returned .empty]

/-- The state that a run of the backend reaches. -/
def State.after (es : List Event) : State := (backend.exec .ready es).getD default

theorem State.reach_after (es : List Event) (h : (backend.exec .ready es).isSome = true) :
    backend.Reach (.after es) := by
  obtain ⟨s, hs⟩ := Option.isSome_iff_exists.mp h
  have hr : backend.Reach s := Sys.Reach.exec (.init rfl) es hs
  rwa [State.after, hs]

end EthWalletUi
