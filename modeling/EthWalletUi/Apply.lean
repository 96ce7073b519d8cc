import EthWalletUi.Nonce

/-!
# What a reply does to the scoped state (`eth_wallet_ui_apply.h`, `eth_wallet_ui_sweep.h`)

Every guard that decides whether a reply reaches the screen is inside the transition it guards, a
pure function over `ScopedState`. The composer's multi-chain replies are first adapted to the
cursor chain (`flattenBalances`, `scopeComposerHistory`, `verdictForChain`).
-/

namespace EthWalletUi

open Qt

/-! ## The receipt sweep -/

/-- What a history reply says about the receipt sweep: a read that failed says nothing. -/
inductive SweepVerdict where
  | unchanged
  | stop
  | run
  deriving DecidableEq, Inhabited

def sweepVerdict (reply : Text) : SweepVerdict :=
  let h := parseObject reply
  if !(h.value "ok").toBool then .unchanged
  else if h.contains "stillDue" then
    if (h.value "stillDue").toBool then .run else .stop
  else
    -- An older backend omits `stillDue`.
    let rows := (h.value "transactions").toArray
    if rows.any fun v => ((asObject v).value "status").toString == "pending" then .run else .stop

/-! ## Adapting the composer's replies -/

/-- The verdict to publish once the backend has stopped answering: unknown blocks. -/
def unknownVerdict (chainId : Int) (why : String) : Text :=
  toJsonCompact [("ok", .bool false), ("error", .str why), ("chainId", .int chainId),
    ("mode", .str "unknown"), ("state", .str "unhealthy"), ("usable", .bool false),
    ("blocking", .bool true),
    ("message", .str "The verified-proxy state could not be read."),
    ("action", .str "restart_or_reload"), ("detail", .str why)]

/-- Keep the Send chain while it remains in scope, otherwise the first choice. -/
def chooseChain (networks : JsonArray) (current : Int) : Int :=
  if networks.any fun value => ((asObject value).value "chainId").toInt == current then current
  else match networks with
    | [] => 0
    | first :: _ => ((asObject first).value "chainId").toInt

def networkAt (networks : JsonArray) (chainId : Int) : JsonObject :=
  match networks.find? fun value => ((asObject value).value "chainId").toInt == chainId with
  | some row => asObject row
  | none => []

/-- The rows one chain of the composer's balance answer becomes, with its route if it answered. -/
def chainRows (networks : JsonArray) (chain : JsonObject) : List JsonObject × Option String :=
  let chainId := (chain.value "chainId").toInt
  let network := networkAt networks chainId
  if (chain.value "ok").toBool then
    let route := (chain.value "route").toString
    let rows := (chain.value "balances").toArray.map fun balanceValue =>
      let balance := (asObject balanceValue).insert "chainId" (.int chainId)
      let balance := balance.insertValue "network" (network.value "name")
      let balance := balance.insertValue "testnet" (network.value "testnet")
      balance.insert "route" (.str route)
    (rows, some route)
  else
    let blocked : JsonObject := [("chainId", .int chainId)]
    let blocked := blocked.insertValue "network" (network.value "name")
    let blocked := blocked.insertValue "testnet" (network.value "testnet")
    let blocked := blocked.insert "blocked" (.bool true)
    let blocked := blocked.insertValue "error" (chain.value "error")
    let blocked := if chain.contains "verifiedProxy" then
        blocked.insertValue "verifiedProxy" (chain.value "verifiedProxy")
      else blocked
    ([blocked], none)

/-- The composer's per-chain balance answer as the flat row list the view renders, stamped with the
cursor chain. One failed chain becomes one blocked row. -/
def flattenBalances (reply : Text) (networks : JsonArray) (cursorChain : Int) : Text :=
  let top := parseObject reply
  if !(top.value "ok").toBool then reply
  else
    let chains := (top.value "chains").toArray.map asObject
    let rows := chains.flatMap fun chain => (chainRows networks chain).1
    let cursorRoute := chains.foldl (fun route chain =>
      match (chainRows networks chain).2 with
      | some r => if (chain.value "chainId").toInt == cursorChain then r else route
      | none => route) ""
    let top := top.remove "chains"
    let top := top.insert "chainId" (.int cursorChain)
    let top := top.insert "balances" (.arr (rows.map .obj))
    toJsonCompact (top.insert "route" (.str cursorRoute))

/-- History is multi-chain too: the top-level chain exists only for the freshness guard. -/
def scopeComposerHistory (reply : Text) (cursorChain : Int) : Text :=
  let top := parseObject reply
  if !(top.value "ok").toBool then reply
  else toJsonCompact (top.insert "chainId" (.int cursorChain))

/-- One verdict of the composer's report, for the send cursor. -/
def verdictForChain (reply : Text) (chainId : Int) : Text :=
  let top := parseObject reply
  if !(top.value "ok").toBool then .empty
  else
    match (top.value "chains").toArray.find? fun value =>
        ((asObject value).value "chainId").toInt == chainId with
    | some row => toJsonCompact ((asObject row).value "verdict").toObject
    | none => .empty

/-- The adapted reply names the account that the composer's own does. -/
theorem accountAgrees_flattenBalances (reply : Text) (networks : JsonArray) (cursorChain : Int)
    (sel : Selection) : accountAgrees (flattenBalances reply networks cursorChain) sel =
      accountAgrees reply sel := by
  simp only [flattenBalances]
  split
  · rfl
  · apply accountAgrees_congr <;>
      simp [parseObject, toJsonCompact, JsonObject.value_insert, JsonObject.value_remove]

theorem accountAgrees_scopeComposerHistory (reply : Text) (cursorChain : Int) (sel : Selection) :
    accountAgrees (scopeComposerHistory reply cursorChain) sel = accountAgrees reply sel := by
  simp only [scopeComposerHistory]
  split
  · rfl
  · apply accountAgrees_congr <;>
      simp [parseObject, toJsonCompact, JsonObject.value_insert]

/-! ## The appliers -/

/-- What a reply did, and what the user must be told: `error` is empty unless the read failed. -/
structure Applied where
  acted : Bool := false
  error : String := ""
  deriving DecidableEq, Inhabited

/-- On failure the figures stay empty, and the route label says nothing. -/
def applyBalances (s : ScopedState) (reply : Text) : ScopedState × Applied :=
  if !answersFor reply s.at then (s, {})
  else
    let ok := replyOk reply
    let s := { s with
      balances := if ok then member reply "balances" else .empty
      balancesRoute := if ok then ((parseObject reply).value "route").toString else ""
      fresh := true }
    (s, { acted := true, error := if ok then "" else refusal reply "balances" })

structure HistoryApplied where
  acted : Bool := false
  sweep : SweepVerdict := .unchanged
  deriving DecidableEq, Inhabited

/-- `now` dates the rows, in seconds. -/
def applyHistory (s : ScopedState) (reply : Text) (now : Int) : ScopedState × HistoryApplied :=
  if !answersFor reply s.at then (s, {})
  else
    let out : HistoryApplied := { acted := true, sweep := sweepVerdict reply }
    if !replyOk reply then
      -- Unknown, not "[]", which renders as an answer.
      ({ s with history := .empty, blockedNonces := .empty }, out)
    else
      let top := parseObject reply
      let txs := top.value "transactions"
      let rows := markReplaced txs.toArray
      let blocked := member reply "blockedChains"
      ({ s with
          history := if txs.isArray then .compact (.arr rows) else .empty
          blockedChains := if blocked.isEmpty then emptyArray else blocked
          blockedNonces := .compact (.arr (EthWalletUi.blockedNonces rows
            (top.value "strandedNonces").toArray now)) }, out)

/-- The whole reply is published, if it is about the chain on screen. -/
def applyFeeTiers (s : ScopedState) (reply : Text) : ScopedState :=
  { s with feeTiers := if replyOk reply && answersFor reply s.at then reply else emptyObject }

/-- The persisted token order a reply carries; empty leaves the published order alone. A reply in
flight across a choice carries the order the user just replaced. -/
def adoptedTokenSort (reply : Text) (issuedAt chosenAt : Nat) : String :=
  if issuedAt ≠ chosenAt then ""
  else
    let order := ((parseObject reply).value "tokenSort").toString
    if order == "alpha" || order == "balance" then order else ""

/-- Nothing to read: what is on screen, nothing, does describe this selection. -/
def applyNoAccount (s : ScopedState) : ScopedState :=
  { s with
    balances := .empty, balancesRoute := "", history := emptyArray, blockedChains := emptyArray,
    fresh := true }

/-- One quote reply, against the request it priced. `interactive` is a user edit, whose failure is
the user's to read; a timer tick's failure only marks the figure stale. -/
def applyQuote (s : ScopedState) (reply priced : Text) (interactive : Bool) : ScopedState :=
  if replyOk reply && answersFor reply s.at then
    { s with quote := reply, quoteRequest := priced, quoteStale := false }
  else if replyOk reply then withdrawQuote s
  else if interactive then { withdrawQuote s with sendError := replyError reply }
  else { s with quoteStale := true }

/-- A transport failure arrives empty, so this refusal is authored here, naming the transaction. -/
def detailsUnavailable (hash : String) : Text :=
  toJsonCompact [("ok", .bool false), ("hash", .str hash),
    ("error", .str "the wallet backend did not answer")]

/-- One transaction's extra detail, against the hash the fetch was made for. -/
def applyTxDetails (s : ScopedState) (reply : Text) (forHash : String) : ScopedState × Bool :=
  let r := if (parseObject reply).contains "hash" then reply else detailsUnavailable forHash
  if !sameHexValue ((parseObject r).value "hash").toString forHash then (s, false)
  else if !answersFor r s.at then (s, false)
  else ({ s with txDetails := r }, true)

structure VerdictApplied where
  silent : Nat := 0
  poll : Bool := true
  deriving DecidableEq, Inhabited

/-- A verdict that has told us something replaces the published one; a change of it withdraws the
quote and the route label read under it. -/
def publishVerdict (s : ScopedState) (publish : Text) (silent : Nat) :
    ScopedState × VerdictApplied :=
  let prev := parseObject s.verifiedProxy
  let next := parseObject publish
  let s := { s with verifiedProxy := publish }
  let s := if prev.value "mode" ≠ next.value "mode" ∨ prev.value "state" ≠ next.value "state" then
      { withdrawQuote s with balancesRoute := "" }
    else s
  (s, { silent, poll := (next.value "mode").toString != "off" })

/-- A transport failure and a verdict that names another chain are both silence; one blip keeps
the last verdict, `maxSilent` of them withdraw it. -/
def applyVerdict (s : ScopedState) (reply : Text) (silent maxSilent : Nat) :
    ScopedState × VerdictApplied :=
  if !(parseObject reply).contains "mode" || !answersFor reply s.at then
    if silent + 1 < maxSilent then (s, { silent := silent + 1, poll := true })
    else publishVerdict s
      (unknownVerdict s.at.chainId "the wallet backend stopped answering") (silent + 1)
  else publishVerdict s reply 0

/-- What `send` left behind. The request id is not scoped: forgetting it would orphan an approval
the user still has to answer. -/
structure SendApplied where
  accepted : Bool := false
  requestId : String := ""
  handle : String := ""
  surfaced : Bool := false
  deriving DecidableEq, Inhabited

/-- A refusal worded for the account being left has already been withdrawn by `enterScope`. -/
def applySend (s : ScopedState) (reply : Text) (selectionHeld : Bool) : ScopedState × SendApplied :=
  if replyOk reply then
    let o := parseObject reply
    (s, { accepted := true, requestId := (o.value "requestId").toString,
          handle := (o.value "handle").toString })
  else if !selectionHeld then (s, {})
  else ({ s with sendError := replyError reply }, { surfaced := true })

/-! ## What each applier can do -/

theorem applyBalances_cases (s : ScopedState) (reply : Text) :
    (applyBalances s reply).1 = s ∨ answersFor reply s.at = true ∧
      (replyOk reply = true ∧ (applyBalances s reply).1 = { s with
        balances := member reply "balances"
        balancesRoute := ((parseObject reply).value "route").toString
        fresh := true } ∨
      (applyBalances s reply).1 = { s with
        balances := .empty, balancesRoute := "", fresh := true }) := by
  unfold applyBalances
  split
  · exact .inl rfl
  · rename_i ha
    refine .inr ⟨by simpa using ha, ?_⟩
    cases hok : replyOk reply
    · exact .inr rfl
    · exact .inl ⟨rfl, rfl⟩

theorem applyHistory_cases (s : ScopedState) (reply : Text) (now : Int) :
    (applyHistory s reply now).1 = s ∨ answersFor reply s.at = true ∧
      (replyOk reply = true ∧ (∃ history blockedChains blockedNonces, (applyHistory s reply now).1 =
        { s with history, blockedChains, blockedNonces }) ∨
      (applyHistory s reply now).1 = { s with history := .empty, blockedNonces := .empty }) := by
  unfold applyHistory
  split
  · exact .inl rfl
  · rename_i ha
    refine .inr ⟨by simpa using ha, ?_⟩
    simp only
    split
    · exact .inr rfl
    · rename_i hok
      exact .inl ⟨by simpa using hok, _, _, _, rfl⟩

/-- What an ok history reply is read as does not depend on the state it is read into. -/
theorem applyHistory_read {s s' : ScopedState} {reply : Text} (hs : answersFor reply s.at = true)
    (hs' : answersFor reply s'.at = true) (hok : replyOk reply = true) (now : Int) :
    (applyHistory s reply now).1.history = (applyHistory s' reply now).1.history ∧
      (applyHistory s reply now).1.blockedChains = (applyHistory s' reply now).1.blockedChains ∧
      (applyHistory s reply now).1.blockedNonces = (applyHistory s' reply now).1.blockedNonces := by
  simp [applyHistory, hs, hs', hok]

theorem applyQuote_cases (s : ScopedState) (reply priced : Text) (interactive : Bool) :
    replyOk reply = true ∧ answersFor reply s.at = true ∧
      applyQuote s reply priced interactive =
        { s with quote := reply, quoteRequest := priced, quoteStale := false } ∨
    applyQuote s reply priced interactive = withdrawQuote s ∨
    replyOk reply = false ∧ applyQuote s reply priced interactive =
      { withdrawQuote s with sendError := replyError reply } ∨
    applyQuote s reply priced interactive = { s with quoteStale := true } := by
  unfold applyQuote
  split
  · rename_i h
    simp only [Bool.and_eq_true] at h
    exact .inl ⟨h.1, h.2, rfl⟩
  · split
    · exact .inr (.inl rfl)
    · rename_i hok
      split
      · exact .inr (.inr (.inl ⟨by simpa using hok, rfl⟩))
      · exact .inr (.inr (.inr rfl))

/-- The detail published is the reply if it names a hash, else the refusal authored for the same
transaction. -/
theorem applyTxDetails_cases (s : ScopedState) (reply : Text) (forHash : String) :
    (applyTxDetails s reply forHash).1 = s ∨
    ∃ r, ((parseObject reply).contains "hash" = true ∧ r = reply ∨
        (parseObject reply).contains "hash" = false ∧ r = detailsUnavailable forHash) ∧
      answersFor r s.at = true ∧
      sameHexValue ((parseObject r).value "hash").toString forHash = true ∧
      (applyTxDetails s reply forHash).1 = { s with txDetails := r } := by
  unfold applyTxDetails
  generalize hr : (if (parseObject reply).contains "hash" then reply
    else detailsUnavailable forHash) = r
  have hor : (parseObject reply).contains "hash" = true ∧ r = reply ∨
      (parseObject reply).contains "hash" = false ∧ r = detailsUnavailable forHash := by
    rw [← hr]
    split
    · exact .inl ⟨‹_›, rfl⟩
    · exact .inr ⟨eq_false_of_ne_true ‹_›, rfl⟩
  simp only
  split
  · exact .inl rfl
  · rename_i hh
    split
    · exact .inl rfl
    · rename_i ha
      exact .inr ⟨r, hor, by simpa using ha, by simpa using hh, rfl⟩

theorem publishVerdict_cases (s : ScopedState) (publish : Text) (silent : Nat) :
    (publishVerdict s publish silent).1 = { s with verifiedProxy := publish } ∨
    (publishVerdict s publish silent).1 =
      { withdrawQuote { s with verifiedProxy := publish } with balancesRoute := "" } := by
  simp only [publishVerdict]
  split
  · exact .inr rfl
  · exact .inl rfl

/-- The verdict published is about the chain on screen, or says that nothing is known of it. -/
theorem applyVerdict_cases (s : ScopedState) (reply : Text) (silent maxSilent : Nat) :
    (applyVerdict s reply silent maxSilent).1 = s ∨
    ∃ verdict, (verdict = reply ∧ answersFor reply s.at = true ∨
        verdict = unknownVerdict s.at.chainId "the wallet backend stopped answering") ∧
      ((applyVerdict s reply silent maxSilent).1 = { s with verifiedProxy := verdict } ∨
      (applyVerdict s reply silent maxSilent).1 =
        { withdrawQuote { s with verifiedProxy := verdict } with balancesRoute := "" }) := by
  unfold applyVerdict
  split
  · split
    · exact .inl rfl
    · exact .inr ⟨_, .inr rfl, publishVerdict_cases _ _ _⟩
  · rename_i h
    simp only [Bool.or_eq_true, Bool.not_eq_true', not_or, Bool.not_eq_false] at h
    exact .inr ⟨reply, .inl ⟨rfl, h.2⟩, publishVerdict_cases _ _ _⟩

theorem applySend_ok {reply : Text} (h : replyOk reply = true) (s : ScopedState)
    (selectionHeld : Bool) :
    applySend s reply selectionHeld = (s,
      { accepted := true
        requestId := ((parseObject reply).value "requestId").toString
        handle := ((parseObject reply).value "handle").toString }) := by
  simp [applySend, h]

theorem applySend_refused {reply : Text} (h : replyOk reply = false) (s : ScopedState)
    (selectionHeld : Bool) : (applySend s reply selectionHeld).2.accepted = false := by
  unfold applySend
  rw [h]
  simp only [Bool.false_eq_true, if_false]
  split <;> rfl

end EthWalletUi
