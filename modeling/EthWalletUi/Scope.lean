import EthWalletUi.Qt.Json

/-!
# The selection, and what is scoped to it (`eth_wallet_ui_scope.h`)

* `Selection`: an account and a chain. Two selections are the same up to the casing of the account.
* `replyScope`, `answersFor`: the account and chain a reply names, and whether it may be acted on
  for the selection on screen.
* `ScopedState`: every published value that means something only against a selection.
  `enterScope` moves the selection and withdraws what it no longer describes.
-/

namespace EthWalletUi

open Qt

/-- `QJsonValue::toObject` of an array's item. -/
def asObject (v : Json) : JsonObject := JsonValue.toObject (some v)

def parseObject (reply : Text) : JsonObject := reply.object

def toJsonCompact (o : JsonObject) : Text := .compact (.obj o)

def replyOk (reply : Text) : Bool := ((parseObject reply).value "ok").toBool

/-- A refusal, worded by the backend. -/
def replyError (reply : Text) : String :=
  let e := ((parseObject reply).value "error").toString
  if e.isEmpty then "the wallet backend refused the request" else e

/-- A refusal under the heading of the read that produced it. -/
def refusal (reply : Text) (context : String) : String :=
  if context.isEmpty then replyError reply else context ++ ": " ++ replyError reply

/-- Re-serialize one member of a reply. -/
def member (reply : Text) (key : String) : Text :=
  match (parseObject reply).value key with
  | some (.arr a) => .compact (.arr a)
  | some (.obj o) => .compact (.obj o)
  | _ => .empty

/-- A transport failure arrives empty: nothing in it is ok. -/
@[simp] theorem replyOk_empty : replyOk .empty = false := rfl

theorem refusal_ne_empty (reply : Text) (context : String) : refusal reply context ≠ "" := by
  have hne : replyError reply ≠ "" := by
    unfold replyError
    intro h
    by_cases he : ((parseObject reply).value "error").toString.isEmpty = true
    · simp only [he, ↓reduceIte] at h
      exact absurd h (by decide)
    · simp only [he, Bool.false_eq_true, ↓reduceIte] at h
      exact he (by rw [h]; rfl)
  unfold refusal
  split
  · exact hne
  · intro h
    have := congrArg String.length h
    simp at this

/-! ## Selections -/

/-- The account and the view's own network cursor. Chain 0 is a selection we do not know. -/
structure Selection where
  account : String := ""
  chainId : Int := 0
  deriving DecidableEq, Inhabited

namespace Selection

/-- `operator==`: the account is case-folded. -/
def same (s o : Selection) : Bool := s.chainId == o.chainId && sameFolded s.account o.account

theorem same_iff {s o : Selection} :
    s.same o = true ↔ s.chainId = o.chainId ∧ sameFolded s.account o.account = true := by
  simp [same]

@[simp] theorem same_refl (s : Selection) : s.same s = true :=
  same_iff.mpr ⟨rfl, sameFolded_refl _⟩

theorem same_symm {s o : Selection} (h : s.same o = true) : o.same s = true := by
  obtain ⟨hc, ha⟩ := same_iff.mp h
  exact same_iff.mpr ⟨hc.symm, sameFolded_symm ha⟩

theorem same_trans {s o p : Selection} (h₁ : s.same o = true) (h₂ : o.same p = true) :
    s.same p = true := by
  obtain ⟨hc, ha⟩ := same_iff.mp h₁
  obtain ⟨hc', ha'⟩ := same_iff.mp h₂
  exact same_iff.mpr ⟨hc.trans hc', sameFolded_trans ha ha'⟩

end Selection

def selectionOf (account : String) (networkJson : Text) : Selection :=
  { account, chainId := ((parseObject networkJson).value "chainId").toInt }

/-! ## What a reply is about -/

/-- The scope a reply says it answered for. -/
structure ReplyScope where
  namesChain : Bool := false
  namesAccount : Bool := false
  chainId : Int := 0
  account : String := ""
  deriving DecidableEq, Inhabited

namespace ReplyScope

def names (r : ReplyScope) : Bool := r.namesChain || r.namesAccount

def agreesWith (r : ReplyScope) (s : Selection) : Bool :=
  (!r.namesChain || r.chainId == s.chainId) && (!r.namesAccount || sameFolded r.account s.account)

/-- A scope agrees with a selection or with none that is the same. -/
theorem agreesWith_same {r : ReplyScope} {s o : Selection} (h : s.same o = true)
    (hr : r.agreesWith s = true) : r.agreesWith o = true := by
  obtain ⟨hc, ha⟩ := Selection.same_iff.mp h
  simp only [agreesWith, Bool.and_eq_true, Bool.or_eq_true, Bool.not_eq_true', beq_iff_eq]
    at hr ⊢
  refine ⟨hr.1.imp_right fun h => h.trans hc, hr.2.imp_right fun h => sameFolded_trans h ha⟩

end ReplyScope

/-- Every scoped read names its account `address`; a quote calls the same thing `from`. -/
def replyScope (o : JsonObject) : ReplyScope :=
  let chain := o.value "chainId"
  let who := o.value "address"
  let who := if who.isString then who else o.value "from"
  { namesChain := chain.isDouble
    chainId := if chain.isDouble then chain.toInt else 0
    namesAccount := who.isString
    account := if who.isString then who.toString else "" }

/-- A refusal names nothing by design; a successful payload that names nothing is refused. -/
def answersFor (reply : Text) (shown : Selection) : Bool :=
  let o := parseObject reply
  let r := replyScope o
  r.agreesWith shown && (r.names || !(o.value "ok").toBool)

theorem answersFor_agrees {reply : Text} {shown : Selection} (h : answersFor reply shown = true) :
    (replyScope (parseObject reply)).agreesWith shown = true := by
  simp only [answersFor, Bool.and_eq_true] at h
  exact h.1

/-- A reply names no account but the selection's. -/
def accountAgrees (reply : Text) (sel : Selection) : Bool :=
  !(replyScope (parseObject reply)).namesAccount ||
    sameFolded (replyScope (parseObject reply)).account sel.account

/-- A text names no chain but the selection's. -/
def chainAgrees (text : Text) (sel : Selection) : Bool :=
  !(replyScope (parseObject text)).namesChain ||
    (replyScope (parseObject text)).chainId == sel.chainId

theorem accountAgrees_of_answersFor {reply : Text} {sel : Selection}
    (h : answersFor reply sel = true) : accountAgrees reply sel = true := by
  have ha := answersFor_agrees h
  simp only [ReplyScope.agreesWith, Bool.and_eq_true] at ha
  exact ha.2

theorem chainAgrees_of_answersFor {reply : Text} {sel : Selection}
    (h : answersFor reply sel = true) : chainAgrees reply sel = true := by
  have ha := answersFor_agrees h
  simp only [ReplyScope.agreesWith, Bool.and_eq_true] at ha
  exact ha.1

theorem accountAgrees_congr {reply reply' : Text} {sel : Selection}
    (haddr : (parseObject reply').value "address" = (parseObject reply).value "address")
    (hfrom : (parseObject reply').value "from" = (parseObject reply).value "from") :
    accountAgrees reply' sel = accountAgrees reply sel := by
  simp only [accountAgrees, replyScope, haddr, hfrom]

theorem answersFor_same {s o : Selection} (h : s.same o = true) (reply : Text) :
    answersFor reply s = answersFor reply o := by
  have hagree : ∀ r : ReplyScope, r.agreesWith s = r.agreesWith o := fun r =>
    Bool.eq_iff_iff.mpr
      ⟨ReplyScope.agreesWith_same h, ReplyScope.agreesWith_same (Selection.same_symm h)⟩
  simp only [answersFor, hagree]

/-- Folded equality where an absent value matches nothing. -/
def sameHexValue (a b : String) : Bool := !a.isEmpty && !b.isEmpty && sameFolded a b

/-- Whether a request describes a send at all. -/
def describesASend (requestJson : Text) : Bool :=
  let r := parseObject requestJson
  let amount := !(trimmed (r.value "amountUnits").toString).isEmpty ||
    !(trimmed (r.value "amount").toString).isEmpty
  amount && !(trimmed (r.value "to").toString).isEmpty

/-! ## The scoped values -/

/-- `QStringLiteral("{}")`. -/
def emptyObject : Text := .compact (.obj [])

/-- `QStringLiteral("[]")`. -/
def emptyArray : Text := .compact (.arr [])

structure ScopedState where
  «at» : Selection := {}
  /-- Whether the account-scoped values below were read under `at`. -/
  fresh : Bool := false
  balances : Text := .empty
  balancesRoute : String := ""
  history : Text := .empty
  blockedChains : Text := .empty
  /-- The nonce holding up each chain's later sends, from the same history read. -/
  blockedNonces : Text := .empty
  /-- A priced resend of this account's transfer, awaiting the human's review. -/
  resendReview : Text := .empty
  quote : Text := emptyObject
  /-- The request the published quote priced. -/
  quoteRequest : Text := .empty
  quoteStale : Bool := false
  sendError : String := ""
  /-- Extra detail for one transaction. -/
  txDetails : Text := .empty
  tokens : Text := .empty
  feeTiers : Text := emptyObject
  verifiedProxy : Text := emptyObject
  deriving DecidableEq, Inhabited

/-- Withdraw the quote and the request it priced, which only ever move together. -/
def withdrawQuote (s : ScopedState) : ScopedState :=
  { s with quote := emptyObject, quoteRequest := .empty, quoteStale := false }

/-- Move the quote to a new request, withdrawing figures priced for the one it replaces. -/
def enterQuoteRequest (s : ScopedState) (request : Text) : ScopedState × Bool :=
  if s.quoteRequest = request then (s, false) else (withdrawQuote s, true)

/-- Move the selection, withdrawing everything that no longer describes it. -/
def enterScope (s : ScopedState) (dest : Selection) : ScopedState × Bool :=
  if s.at.same dest then (s, false)
  else
    let chainMoved := s.at.chainId != dest.chainId
    let s := { s with
      «at» := dest, fresh := false, balances := .empty, balancesRoute := "", history := .empty,
      blockedChains := .empty, blockedNonces := .empty, resendReview := .empty,
      txDetails := .empty }
    let s := withdrawQuote s
    let s := { s with sendError := "" }
    let s := if chainMoved then
        { s with tokens := .empty, feeTiers := emptyObject, verifiedProxy := emptyObject }
      else s
    (s, true)

end EthWalletUi
