import EthWalletUi.Backend.Publish
import EthWalletUi.Backend.Step
import EthWalletUi.View.Token

/-!
# Balances of several chains

One reply carries every chain's balances; a chain that could not be read is an entry that failed.
`flattenBalances` makes one list of rows of it, in which the view looks every token up.

* `flattenBalances_rows`: the rows are those of the chains that answered, each with its own chain's
  id and route, and one blocked row for each chain that failed.
* `Published.balances_isolated`: what the view shows for the tokens of one chain is decided by that
  chain's entry alone.
-/

namespace EthWalletUi

open Qt

/-! ## The reply and its rows -/

/-- The entries of a balance reply, one for each chain. -/
def balanceChains (reply : Text) : List JsonObject :=
  ((parseObject reply).value "chains").toArray.map asObject

def chainOf (chain : JsonObject) : Int := (chain.value "chainId").toInt

/-- The ids are of 32 bits, and no two entries have the same. -/
structure DistinctChains (reply : Text) : Prop where
  ids : ∀ chain ∈ balanceChains reply,
    ∃ n, inInt32 n = true ∧ chain.value "chainId" = some (.int n)
  nodup : ((balanceChains reply).map chainOf).Nodup

/-- A balance row under the stamp of its chain. -/
structure Stamped (networks : JsonArray) (chain : JsonObject) (balance : Json) (row : JsonObject) :
    Prop where
  chainId : row.value "chainId" = chain.value "chainId"
  route : row.value "route" = some (.str (chain.value "route").toString)
  network : row.value "network" = (networkAt networks (chainOf chain)).value "name"
  testnet : row.value "testnet" = (networkAt networks (chainOf chain)).value "testnet"
  rest : ∀ key, key ∉ ["chainId", "route", "network", "testnet"] →
    row.value key = (asObject balance).value key

/-- The row of a chain that failed. -/
structure Blocked (networks : JsonArray) (chain row : JsonObject) : Prop where
  chainId : row.value "chainId" = chain.value "chainId"
  network : row.value "network" = (networkAt networks (chainOf chain)).value "name"
  testnet : row.value "testnet" = (networkAt networks (chainOf chain)).value "testnet"
  blocked : row.value "blocked" = some (.bool true)
  error : row.value "error" = chain.value "error"
  verifiedProxy : row.value "verifiedProxy" = chain.value "verifiedProxy"
  rest : ∀ key, key ∉ ["chainId", "network", "testnet", "blocked", "error", "verifiedProxy"] →
    row.value key = none

/-- What one entry comes to. -/
def RowsOf (networks : JsonArray) (chain : JsonObject) (rows : List JsonObject) : Prop :=
  if (chain.value "ok").toBool then
    List.Forall₂ (Stamped networks chain) (chain.value "balances").toArray rows
  else ∃ row, rows = [row] ∧ Blocked networks chain row

theorem chainRows_rowsOf (networks : JsonArray) {chain : JsonObject} {n : Int}
    (hn : inInt32 n = true) (h : chain.value "chainId" = some (.int n)) :
    RowsOf networks chain (chainRows networks chain).1 := by
  have hid : JsonValue.toInt (chain.value "chainId") = n := by rw [h, JsonValue.toInt_int hn]
  unfold RowsOf
  cases hok : (chain.value "ok").toBool with
  | true =>
    simp only [chainRows, hok, if_true, hid]
    refine List.forall₂_map_right_iff.mpr (List.forall₂_same.mpr fun balance _ => ?_)
    constructor
    · rw [h]
      simp [JsonObject.value_insert, JsonObject.value_insertValue]
    · simp
    · simp [JsonObject.value_insert, JsonObject.value_insertValue, chainOf, hid]
    · simp [JsonObject.value_insert, JsonObject.value_insertValue, chainOf, hid]
    · intro key hkey
      simp only [List.mem_cons, List.not_mem_nil, or_false, not_or] at hkey
      simp [JsonObject.value_insert, JsonObject.value_insertValue, hkey]
  | false =>
    simp only [chainRows, hok, Bool.false_eq_true, if_false, hid]
    refine ⟨_, rfl, ?_⟩
    have hproxy : chain.contains "verifiedProxy" = false → chain.value "verifiedProxy" = none := by
      intro hc
      simpa [JsonObject.contains] using hc
    constructor
    all_goals
      cases hc : chain.contains "verifiedProxy" <;>
        simp [JsonObject.value_insert, JsonObject.value_insertValue, JsonObject.value_cons,
          chainOf, h, hproxy, hc]
    all_goals grind

/-- The flat rows of a reply. -/
def flatRows (networks : JsonArray) (reply : Text) : List JsonObject :=
  (balanceChains reply).flatMap fun chain => (chainRows networks chain).1

/-- The route of the cursor's chain: empty unless it answered. -/
def cursorRoute (reply : Text) (cursorChain : Int) : String :=
  match (balanceChains reply).find? fun chain =>
      chainOf chain == cursorChain && (chain.value "ok").toBool with
  | some chain => (chain.value "route").toString
  | none => ""

section Flatten

variable (networks : JsonArray) (cursorChain : Int) {reply : Text}

/-- The loop keeps the last route that it meets under the cursor; there is one at most. -/
theorem foldl_cursorRoute {chains : List JsonObject} (h : (chains.map chainOf).Nodup)
    (route : String) :
    chains.foldl (fun route chain => match (chainRows networks chain).2 with
      | some r => if (chain.value "chainId").toInt == cursorChain then r else route
      | none => route) route =
    match chains.find? fun chain => chainOf chain == cursorChain && (chain.value "ok").toBool with
    | some chain => (chain.value "route").toString
    | none => route := by
  induction chains generalizing route with
  | nil => rfl
  | cons chain chains ih =>
    rw [List.map_cons, List.nodup_cons] at h
    rw [List.foldl_cons, ih h.2, List.find?_cons]
    cases hok : (chain.value "ok").toBool with
    | false => simp [chainRows, hok]
    | true =>
      cases hc : chainOf chain == cursorChain with
      | false =>
        have hc' : ((chain.value "chainId").toInt == cursorChain) = false := hc
        simp [chainRows, hok, hc']
      | true =>
        -- No later entry is the cursor's.
        have hc' : ((chain.value "chainId").toInt == cursorChain) = true := hc
        have hnone : (chains.find? fun chain =>
            chainOf chain == cursorChain && (chain.value "ok").toBool) = none := by
          refine List.find?_eq_none.mpr fun other hm hother => h.1 ?_
          simp only [Bool.and_eq_true, beq_iff_eq] at hother hc
          exact List.mem_map.mpr ⟨other, hm, hother.1.trans hc.symm⟩
        simp [chainRows, hok, hc', hnone]

/-- The adapted reply. -/
theorem flattenBalances_eq (hok : replyOk reply = true)
    (h : ((balanceChains reply).map chainOf).Nodup) :
    flattenBalances reply networks cursorChain =
      toJsonCompact (((((parseObject reply).remove "chains").insert
        "chainId" (.int cursorChain)).insert
        "balances" (.arr ((flatRows networks reply).map .obj))).insert
        "route" (.str (cursorRoute reply cursorChain))) := by
  have hok' : ((parseObject reply).value "ok").toBool = true := hok
  simp only [flattenBalances, hok', Bool.not_true, Bool.false_eq_true, if_false]
  refine congrArg (fun route => toJsonCompact (JsonObject.insert _ "route" (.str route))) ?_
  exact foldl_cursorRoute networks cursorChain h ""

/-- The members of the adapted reply. -/
theorem flattenBalances_value (hok : replyOk reply = true)
    (h : ((balanceChains reply).map chainOf).Nodup) (key : String) :
    (parseObject (flattenBalances reply networks cursorChain)).value key =
      if key = "route" then some (.str (cursorRoute reply cursorChain))
      else if key = "balances" then some (.arr ((flatRows networks reply).map .obj))
      else if key = "chainId" then some (.int cursorChain)
      else if key = "chains" then none
      else (parseObject reply).value key := by
  rw [flattenBalances_eq networks cursorChain hok h]
  simp only [parseObject, toJsonCompact, Text.object_compact, JsonObject.value_insert,
    JsonObject.value_remove]

/-- The rows are those of each chain in turn, and the route is the cursor's. -/
theorem flattenBalances_rows (hok : replyOk reply = true) (h : DistinctChains reply) :
    (∃ parts, List.Forall₂ (RowsOf networks) (balanceChains reply) parts ∧
      member (flattenBalances reply networks cursorChain) "balances" =
        .compact (.arr (parts.flatten.map .obj))) ∧
    ∃ route, (parseObject (flattenBalances reply networks cursorChain)).value "route" =
        some (.str route) ∧
      ((∃ chain ∈ balanceChains reply, chainOf chain = cursorChain ∧
          (chain.value "ok").toBool = true ∧ route = (chain.value "route").toString) ∨
        route = "" ∧ ∀ chain ∈ balanceChains reply, chainOf chain = cursorChain →
          (chain.value "ok").toBool = false) := by
  have hvalue := flattenBalances_value networks cursorChain hok h.nodup
  refine ⟨⟨(balanceChains reply).map fun chain => (chainRows networks chain).1, ?_, ?_⟩,
    cursorRoute reply cursorChain, ?_, ?_⟩
  · refine List.forall₂_map_right_iff.mpr (List.forall₂_same.mpr fun chain hm => ?_)
    obtain ⟨n, hn, hid⟩ := h.ids chain hm
    exact chainRows_rowsOf networks hn hid
  · rw [member, hvalue]
    simp [flatRows, List.flatMap]
  · rw [hvalue]
    simp
  · unfold cursorRoute
    split
    · rename_i chain hfind
      have hprop := List.find?_some hfind
      simp only [Bool.and_eq_true, beq_iff_eq] at hprop
      exact .inl ⟨chain, List.mem_of_find?_eq_some hfind, hprop.1, hprop.2, rfl⟩
    · rename_i hfind
      refine .inr ⟨rfl, fun chain hm hc => ?_⟩
      have hnot := List.find?_eq_none.mp hfind chain hm
      simpa [hc] using hnot

end Flatten

/-- The adapted reply is about the selection under its cursor, if the reply is about its account. -/
theorem answersFor_flattenBalances (networks : JsonArray) {reply : Text} {sel : Selection}
    (hok : replyOk reply = true) (h : ((balanceChains reply).map chainOf).Nodup)
    (ha : accountAgrees reply sel = true) (hc : inInt32 sel.chainId = true) :
    answersFor (flattenBalances reply networks sel.chainId) sel = true := by
  have hchain : (parseObject (flattenBalances reply networks sel.chainId)).value "chainId" =
      some (.int sel.chainId) := by
    rw [flattenBalances_value networks sel.chainId hok h]
    rfl
  rw [← accountAgrees_flattenBalances reply networks sel.chainId sel] at ha
  have hnames : (replyScope (parseObject (flattenBalances reply networks sel.chainId))).namesChain =
      true := by
    simp [replyScope, hchain, JsonValue.isDouble]
  have hid : (replyScope (parseObject (flattenBalances reply networks sel.chainId))).chainId =
      sel.chainId := by
    simp [replyScope, hchain, JsonValue.isDouble, JsonValue.toInt_int hc]
  have hagrees : (replyScope (parseObject (flattenBalances reply networks sel.chainId))).agreesWith
      sel = true := by
    simp only [ReplyScope.agreesWith, Bool.and_eq_true]
    exact ⟨by simp [hid], ha⟩
  simp [answersFor, hagrees, ReplyScope.names, hnames]

/-! ## What the view shows -/

/-- What the backend publishes on a balance reply. -/
def Core.balancesRead (c : Core) (networks : JsonArray) (reply : Text) : Published :=
  (c.applyBalancesReply (flattenBalances reply networks c.shown.chainId)).published

theorem Core.balancesRead_balances (c : Core) (networks : JsonArray) {reply : Text}
    (hok : replyOk reply = true) (h : ((balanceChains reply).map chainOf).Nodup)
    (ha : accountAgrees reply c.shown = true) :
    (c.balancesRead networks reply).balances = flatRows networks reply := by
  have hanswers := answersFor_flattenBalances networks hok h ha (JsonValue.toInt_inInt32 _)
  have hvalue := flattenBalances_value networks c.shown.chainId hok h
  have hok' : replyOk (flattenBalances reply networks c.shown.chainId) = true := by
    rw [replyOk, hvalue]
    exact hok
  have hmember : member (flattenBalances reply networks c.shown.chainId) "balances" =
      .compact (.arr ((flatRows networks reply).map .obj)) := by
    rw [member, hvalue]
    rfl
  have hanswers' : answersFor (flattenBalances reply networks c.shown.chainId)
      c.scopeSnapshot.at = true := hanswers
  let shown : ScopedState := { c.scopeSnapshot with
    balances := .compact (.arr ((flatRows networks reply).map .obj))
    balancesRoute :=
      ((parseObject (flattenBalances reply networks c.shown.chainId)).value "route").toString
    fresh := true }
  have happly : applyBalances c.scopeSnapshot (flattenBalances reply networks c.shown.chainId) =
      (shown, { acted := true }) := by
    simp [applyBalances, hanswers', hok', hmember, shown]
  have hread : c.balancesRead networks reply =
      (Core.scopeWrites shown).foldl (fun p f => f p) c.published := by
    unfold Core.balancesRead Core.applyBalancesReply
    rw [happly]
    exact c.publishScope_published shown
  rw [hread]
  simp [Core.scopeWrites, Published.balances, Published.balancesKnown, asObject,
    JsonValue.toObject, Function.comp_def, shown]

/-- Every row is stamped with the id of its chain. -/
theorem chainRows_chainId {networks : JsonArray} {chain row : JsonObject}
    (h : row ∈ (chainRows networks chain).1) :
    row.value "chainId" = some (.int (chainOf chain)) := by
  cases hok : (chain.value "ok").toBool with
  | true =>
    simp only [chainRows, hok, if_true, List.mem_map] at h
    obtain ⟨balance, -, rfl⟩ := h
    simp [JsonObject.value_insert, JsonObject.value_insertValue, chainOf]
  | false =>
    simp only [chainRows, hok, Bool.false_eq_true, if_false, List.mem_singleton] at h
    subst h
    split <;>
      simp [JsonObject.value_insert, JsonObject.value_insertValue, JsonObject.value_cons, chainOf]

/-- The rows of one chain. -/
theorem flatRows_chain (networks : JsonArray) (reply : Text) (c : Int) :
    (flatRows networks reply).filter (fun row => row.value "chainId" == some (.int c)) =
      ((balanceChains reply).filter (chainOf · == c)).flatMap
        fun chain => (chainRows networks chain).1 := by
  unfold flatRows
  induction balanceChains reply with
  | nil => rfl
  | cons chain chains ih =>
    rw [List.flatMap_cons, List.filter_append, List.filter_cons, ih]
    cases hc : chainOf chain == c with
    | true =>
      rw [List.filter_eq_self.mpr fun row hm => by
        rw [chainRows_chainId hm, beq_iff_eq.mp hc, beq_self_eq_true]]
      rfl
    | false =>
      rw [List.filter_eq_nil_iff.mpr fun row hm => by
        rw [chainRows_chainId hm]
        simpa using hc]
      rfl

/-- A lookup that only rows of one chain pass looks at the rows of that chain. -/
theorem find?_chain {rows : List JsonObject} {c : Int} {q : JsonObject → Bool}
    (h : ∀ row ∈ rows, q row = true → row.value "chainId" = some (.int c)) :
    rows.find? q =
      (rows.filter fun row => row.value "chainId" == some (.int c)).find? q := by
  rw [List.find?_filter]
  refine List.find?_congr fun row hm => ?_
  cases hq : q row with
  | false => simp
  | true => simp [h row hm hq]

namespace Published

/-- What the view resolves for a token of a chain depends on the rows of that chain. -/
theorem resolved_chain {p p' : Published} {t : JsonObject} {c : Int}
    (hp : ∀ row ∈ p.balances, ∃ n, row.value "chainId" = some (.int n))
    (hp' : ∀ row ∈ p'.balances, ∃ n, row.value "chainId" = some (.int n))
    (h : p.balances.filter (fun row => row.value "chainId" == some (.int c)) =
      p'.balances.filter (fun row => row.value "chainId" == some (.int c)))
    (ht : t.value "chainId" = some (.int c)) :
    (∀ field, p.balanceField t field = p'.balanceField t field) ∧
      p.balanceFailureFor t = p'.balanceFailureFor t := by
  constructor
  · intro field
    unfold balanceField
    by_cases hk : tokenKey t = ""
    · simp [hk]
    · have hkey : ∀ q : Published, (∀ row ∈ q.balances, ∃ n, row.value "chainId" = some (.int n)) →
          ∀ row ∈ q.balances, (tokenKey row == tokenKey t) = true →
            row.value "chainId" = some (.int c) := by
        intro q hq row hm hrow
        obtain ⟨n, hn⟩ := hq row hm
        rw [hn, chain_of_tokenKey ht hn hk (beq_iff_eq.mp hrow)]
      rw [find?_chain (hkey p hp), find?_chain (hkey p' hp'), h]
  · unfold balanceFailureFor balanceFailures
    have hid : ∀ q : Published, (∀ row ∈ q.balances, ∃ n, row.value "chainId" = some (.int n)) →
        ∀ row ∈ q.balances, decide ((row.value "blocked").isTrue = true ∧
          (row.value "chainId").strictEq (t.value "chainId") = true) = true →
            row.value "chainId" = some (.int c) := by
      intro q hq row hm hrow
      obtain ⟨n, hn⟩ := hq row hm
      rw [hn, ht, JsonValue.strictEq_int, decide_eq_true_eq, beq_iff_eq] at hrow
      rw [hn, hrow.2]
    rw [List.find?_filter, List.find?_filter, find?_chain (hid p hp), find?_chain (hid p' hp'), h]

/-- The rows of a balance reply are those of the chains that answered, under their own id and
route, and one blocked row for each chain that failed; the route on top is the cursor's. What the
view shows for the tokens of one chain is what that chain's entry says, whatever the other chains
of the reply do. -/
theorem balances_isolated (networks : JsonArray) (cursorChain : Int) {reply : Text}
    (hok : replyOk reply = true) (h : DistinctChains reply) :
    (∃ parts, List.Forall₂ (RowsOf networks) (balanceChains reply) parts ∧
      member (flattenBalances reply networks cursorChain) "balances" =
        .compact (.arr (parts.flatten.map .obj))) ∧
    (∃ route, (parseObject (flattenBalances reply networks cursorChain)).value "route" =
        some (.str route) ∧
      ((∃ chain ∈ balanceChains reply, chainOf chain = cursorChain ∧
          (chain.value "ok").toBool = true ∧ route = (chain.value "route").toString) ∨
        route = "" ∧ ∀ chain ∈ balanceChains reply, chainOf chain = cursorChain →
          (chain.value "ok").toBool = false)) ∧
    ∀ (reply' : Text) (c : Int), replyOk reply' = true → DistinctChains reply' →
      (balanceChains reply).filter (chainOf · == c) =
        (balanceChains reply').filter (chainOf · == c) →
      ∀ core core' : Core, accountAgrees reply core.shown = true →
        accountAgrees reply' core'.shown = true →
        ∀ t : JsonObject, t.value "chainId" = some (.int c) →
          (core.balancesRead networks reply).balanceDisplay t =
            (core'.balancesRead networks reply').balanceDisplay t ∧
          (core.balancesRead networks reply).balanceExact t =
            (core'.balancesRead networks reply').balanceExact t ∧
          (core.balancesRead networks reply).balanceFailureFor t =
            (core'.balancesRead networks reply').balanceFailureFor t := by
  obtain ⟨hrows, hroute⟩ := flattenBalances_rows networks cursorChain hok h
  refine ⟨hrows, hroute, fun reply' c hok' h' hagree core core' ha ha' t ht => ?_⟩
  have hstamped : ∀ (reply : Text), ∀ row ∈ flatRows networks reply,
      ∃ n, row.value "chainId" = some (.int n) := by
    intro reply row hm
    obtain ⟨chain, -, hrow⟩ := List.mem_flatMap.mp hm
    exact ⟨_, chainRows_chainId hrow⟩
  have hsame : (flatRows networks reply).filter (fun row => row.value "chainId" == some (.int c)) =
      (flatRows networks reply').filter (fun row => row.value "chainId" == some (.int c)) := by
    rw [flatRows_chain, flatRows_chain, hagree]
  rw [← core.balancesRead_balances networks hok h.nodup ha,
    ← core'.balancesRead_balances networks hok' h'.nodup ha'] at hsame
  obtain ⟨hfield, hfailure⟩ := resolved_chain
    (core.balancesRead_balances networks hok h.nodup ha ▸ hstamped reply)
    (core'.balancesRead_balances networks hok' h'.nodup ha' ▸ hstamped reply') hsame ht
  exact ⟨hfield "display", hfield "exact", hfailure⟩

/-! ## Two replies that agree on chain 1 -/

def readChain (chainId : Int) (display : String) : Json :=
  .obj [("chainId", .int chainId), ("ok", .bool true), ("route", .str "proxy"),
    ("balances", .arr [.obj [("native", .bool true), ("display", .str display)]])]

def failedChain (chainId : Int) : Json :=
  .obj [("chainId", .int chainId), ("ok", .bool false), ("error", .str "no route")]

/-- Chain 10 fails. -/
def otherFails : Text := okReply [("chains", .arr [readChain 1 "1.5", failedChain 10])]

/-- Chain 10 answers, and another chain fails. -/
def otherReads : Text :=
  okReply [("chains", .arr [failedChain 5, readChain 1 "1.5", readChain 10 "7"])]

theorem distinctChains_otherFails : DistinctChains otherFails where
  ids := by
    intro chain hm
    have hm : chain = asObject (readChain 1 "1.5") ∨ chain = asObject (failedChain 10) := by
      simpa [balanceChains, otherFails, okReply, parseObject, toJsonCompact, JsonObject.value_cons,
        JsonValue.toArray] using hm
    rcases hm with rfl | rfl
    · exact ⟨1, by decide, by decide⟩
    · exact ⟨10, by decide, by decide⟩
  nodup := by decide +kernel

theorem distinctChains_otherReads : DistinctChains otherReads where
  ids := by
    intro chain hm
    have hm : chain = asObject (failedChain 5) ∨ chain = asObject (readChain 1 "1.5") ∨
        chain = asObject (readChain 10 "7") := by
      simpa [balanceChains, otherReads, okReply, parseObject, toJsonCompact, JsonObject.value_cons,
        JsonValue.toArray] using hm
    rcases hm with rfl | rfl | rfl
    · exact ⟨5, by decide, by decide⟩
    · exact ⟨1, by decide, by decide⟩
    · exact ⟨10, by decide, by decide⟩
  nodup := by decide +kernel

/-- The native currency of chain 1. -/
def nativeOne : JsonObject := [("chainId", .int 1), ("native", .bool true)]

theorem balances_isolated_otherFails :
    (({} : Core).balancesRead [] otherFails).balanceDisplay nativeOne =
      (({} : Core).balancesRead [] otherReads).balanceDisplay nativeOne ∧
    (({} : Core).balancesRead [] otherFails).balanceDisplay nativeOne = .str "1.5" :=
  ⟨((balances_isolated [] 1 (by decide +kernel) distinctChains_otherFails).2.2 otherReads 1
    (by decide +kernel) distinctChains_otherReads (by decide +kernel) {} {} (by decide +kernel)
    (by decide +kernel) nativeOne rfl).1, by decide +kernel⟩

end Published

end EthWalletUi
