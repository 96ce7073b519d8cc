import EthWalletUi.Switch
import EthWalletUi.Backend.Step

/-!
# The token that Send opens on (`EthWalletView.qml`)

`openSend` asks the backend for the token's chain, chooses the token, and shows the section. The
token picker settles the choice again when the section is shown and when its lines change: on the
same contract in the list of the chain on screen, or on the first token there.

* `SendPage`: the form, and what the backend has published that has reached the view.
* `SendPage.openSend_names_iff`: the token is the one pressed, unless the picker has settled in the
  list of the chain that is being left.
-/

namespace EthWalletUi

open Qt

/-! ## The Send section -/

/-- What the user has put into the form: the two fields trimmed, the fee tier, and the overrides
that are in force. -/
structure SendForm where
  toField : String := ""
  amountField : String := ""
  tier : String := "normal"
  overrides : JsonObject := []
  deriving Inhabited

/-- The Send section, with what has reached the view. -/
structure SendPage where
  replica : Published := {}
  token : String := ""
  /-- Empty for the native currency. -/
  tokenAddress : String := ""
  visible : Bool := false
  form : SendForm := {}
  deriving Inhabited

/-- The contract a row stands for: empty for the native currency. -/
def contractOf (t : JsonObject) : String :=
  if (t.value "native").isTrue then "" else (t.value "address").toString

namespace SendPage

variable (s : SendPage)

def selectToken (t : JsonObject) : SendPage :=
  { s with
    token := if (t.value "symbol").isUndefined then "" else (t.value "symbol").jsString
    tokenAddress := contractOf t }

/-- The chosen token as a row of the cursor's chain. -/
def selectedToken : JsonObject :=
  let selected : JsonObject :=
    [("chainId", .int s.replica.chainId), ("native", .bool s.tokenAddress.isEmpty)]
  if s.tokenAddress.isEmpty then selected else selected.insert "address" (.str s.tokenAddress)

/-- Where the chosen token sits in the offered set, 0 when it is not there. -/
def tokenIndex : Nat :=
  (s.replica.chainTokens.findIdx? fun t => tokenKey t == tokenKey s.selectedToken).getD 0

def syncIndex : SendPage :=
  match s.replica.chainTokens[s.tokenIndex]? with
  | some t => s.selectToken t
  | none => s

/-- An update reaches the view: the picker settles again if its lines have changed. -/
def delivered (p : Published) : SendPage :=
  if p.pickerModel = s.replica.pickerModel then { s with replica := p }
  else { s with replica := p }.syncIndex

/-- The section is shown. -/
def shown : SendPage := if s.visible then s else { s with visible := true }.syncIndex

/-- `during`: what reaches the view inside the call to `selectChain`. -/
def openSend (t : JsonObject) (during : List Published) : SendPage :=
  ((during.foldl delivered s).selectToken t).shown

/-- The request that the form describes. -/
def request : JsonObject :=
  let r : JsonObject :=
    [("chainId", .int s.replica.chainId), ("from", .str s.replica.selectedAccount),
      ("to", .str s.form.toField), ("amountUnits", .str s.form.amountField),
      ("tier", .str s.form.tier)]
  let r := if s.token.isEmpty then r else r.insert "token" (.str s.token)
  let r := if s.tokenAddress.isEmpty then r else r.insert "tokenAddress" (.str s.tokenAddress)
  let o := s.form.overrides
  let r := if o.contains "maxFeePerGas" then
      (r.insertValue "maxFeePerGas" (o.value "maxFeePerGas")).insertValue "maxPriorityFeePerGas"
        (o.value "maxPriorityFeePerGas")
    else r
  let limit : JsonValue := (o.value "gasLimits").toArray.head?
  let r := if o.contains "gasLimits" && limit != some .null then r.insertValue "gasLimit" limit
    else r
  if o.contains "nonce" then r.insertValue "nonce" (o.value "nonce") else r

/-- The request names the token's chain, and its contract or none. -/
def names (t : JsonObject) : Bool :=
  s.request.value "chainId" == t.value "chainId" &&
    match s.request.value "tokenAddress" with
    | some a => contractOf t != "" && sameFolded (JsonValue.toString (some a)) (contractOf t)
    | none => contractOf t == ""

variable {s}

theorem request_chainId : s.request.value "chainId" = some (.int s.replica.chainId) := by
  unfold request
  simp only
  split_ifs <;> simp [JsonObject.value_insert, JsonObject.value_insertValue, JsonObject.value_cons]

theorem request_tokenAddress : s.request.value "tokenAddress" =
    if s.tokenAddress.isEmpty then none else some (.str s.tokenAddress) := by
  unfold request
  simp only
  split_ifs <;> simp [JsonObject.value_insert, JsonObject.value_insertValue, JsonObject.value_cons]

end SendPage

/-! ## Identities -/

/-- No contract, or an address. -/
def Spelled (a : String) : Prop := a = "" ∨ ∃ rest, a.toList = '0' :: 'x' :: rest

/-- A row of a token list: it names its chain, and is the native currency or has a contract. -/
structure Offered (t : JsonObject) : Prop where
  chain : ∃ c, t.value "chainId" = some (.int c)
  identity : (t.value "native").isTrue = true ∨
    ∃ a rest, t.value "address" = some (.str a) ∧ a.toList = '0' :: 'x' :: rest

theorem sameFolded_empty {a : String} : sameFolded a "" = true ↔ a = "" := by
  simp [sameFolded]

theorem Offered.spelled {t : JsonObject} (h : Offered t) : Spelled (contractOf t) := by
  unfold contractOf
  split
  · exact .inl rfl
  · rename_i hn
    obtain ⟨a, rest, ha, hrest⟩ := h.identity.resolve_left hn
    exact .inr ⟨rest, by rw [ha]; exact hrest⟩

/-- What the key of a contract says after its chain. -/
def keyOf (a : String) : String := if a.isEmpty then "native" else toLowerCase a

/-- An address does not spell the key of the native currency. -/
theorem keyOf_inj {a b : String} (ha : Spelled a) (hb : Spelled b) :
    keyOf a = keyOf b ↔ sameFolded a b = true := by
  have hnative : ∀ a rest, a.toList = '0' :: 'x' :: rest → a ≠ "" ∧ toLowerCase a ≠ "native" := by
    rintro a rest h
    refine ⟨fun he => by simp [he] at h, fun he => ?_⟩
    have hl := congrArg String.toList he
    rw [toLowerCase, String.toList_ofList, h] at hl
    simp at hl
  unfold keyOf
  rcases ha with rfl | ⟨rest, ha⟩
  · rcases hb with rfl | ⟨rest, hb⟩
    · simp [sameFolded_refl]
    · have hb' := hnative b rest hb
      constructor
      · intro h
        simp [hb'.1, Ne.symm hb'.2] at h
      · intro h
        exact absurd (sameFolded_empty.mp (sameFolded_symm h)) hb'.1
  · have ha' := hnative a rest ha
    rcases hb with rfl | ⟨rest, hb⟩
    · constructor
      · intro h
        simp [ha'.1, ha'.2] at h
      · intro h
        exact absurd (sameFolded_empty.mp h) ha'.1
    · have hb' := hnative b rest hb
      simp [ha'.1, hb'.1, toLowerCase_inj]

theorem Offered.tokenKey {t : JsonObject} (h : Offered t) {c : Int}
    (hc : t.value "chainId" = some (.int c)) :
    tokenKey t = toString c ++ ":" ++ keyOf (contractOf t) := by
  unfold EthWalletUi.tokenKey contractOf keyOf
  rw [chainPart_int hc]
  split
  · rfl
  · rename_i hn
    obtain ⟨a, rest, ha, hrest⟩ := h.identity.resolve_left hn
    have hne : a ≠ "" := fun he => by simp [he] at hrest
    simp [addressOf, ha, hne, JsonValue.toString]

namespace SendPage

variable {s : SendPage}

theorem names_iff {t : JsonObject} {c : Int} (hc : t.value "chainId" = some (.int c)) :
    s.names t = true ↔
      s.replica.chainId = c ∧ sameFolded s.tokenAddress (contractOf t) = true := by
  unfold names
  rw [request_chainId, request_tokenAddress, hc, Bool.and_eq_true]
  refine and_congr (by simp) ?_
  by_cases he : s.tokenAddress = ""
  · simp only [he, String.isEmpty_iff, if_true]
    rw [beq_iff_eq]
    exact ⟨fun h => h ▸ sameFolded_refl _, fun h => sameFolded_empty.mp (sameFolded_symm h)⟩
  · simp only [String.isEmpty_iff, he, if_false, JsonValue.toString, Bool.and_eq_true, bne_iff_ne]
    exact ⟨fun h => h.2, fun h => ⟨fun hn => he (sameFolded_empty.mp (hn ▸ h)), h⟩⟩

theorem tokenKey_selectedToken (h : Spelled s.tokenAddress) : tokenKey s.selectedToken =
    toString s.replica.chainId ++ ":" ++ keyOf s.tokenAddress := by
  have hc : s.selectedToken.value "chainId" = some (.int s.replica.chainId) := by
    unfold selectedToken
    split <;> simp [JsonObject.value_insert, JsonObject.value_cons]
  rcases h with he | ⟨rest, hrest⟩
  · rw [EthWalletUi.tokenKey, chainPart_int hc]
    simp [selectedToken, he, JsonObject.value_cons, keyOf, JsonValue.isTrue, JsonValue.strictEq]
  · have hne : s.tokenAddress ≠ "" := fun he => by simp [he] at hrest
    rw [EthWalletUi.tokenKey, chainPart_int hc]
    simp [selectedToken, hne, JsonObject.value_cons, JsonObject.value_insert, keyOf, addressOf,
      JsonValue.isTrue, JsonValue.strictEq]

end SendPage

/-! ## Where the picker settles -/

/-- A row of that contract is offered. -/
def offers (list : List JsonObject) (a : String) : Bool :=
  list.any fun t => sameFolded (contractOf t) a

/-- The contract that the picker settles on: the chosen one, or that of the first row. -/
def settle (list : List JsonObject) (a : String) : String :=
  match list.find? fun t => sameFolded (contractOf t) a with
  | some t => contractOf t
  | none => (list.head?.map contractOf).getD a

/-- The old list has nothing to settle on; or what it starts with is not in the new list, which
starts with the contract. -/
def comesBack : (old new : List JsonObject) → String → Bool
  | [], _, _ => true
  | row :: _, new, a => !offers new (contractOf row) &&
    (new.head?.map fun first => sameFolded (contractOf first) a).getD false

theorem settle_offered {list : List JsonObject} {a : String} (h : offers list a = true) :
    sameFolded (settle list a) a = true := by
  unfold settle
  obtain ⟨t, hm, ht⟩ := List.any_eq_true.mp h
  cases hfind : list.find? fun t => sameFolded (contractOf t) a with
  | none => exact absurd ht (List.find?_eq_none.mp hfind t hm)
  | some row => exact @List.find?_some _ (fun t => sameFolded (contractOf t) a) _ _ hfind

theorem settle_not_offered {list : List JsonObject} {a : String} (h : offers list a = false) :
    settle list a = (list.head?.map contractOf).getD a := by
  have hnone : list.find? (fun t => sameFolded (contractOf t) a) = none :=
    List.find?_eq_none.mpr fun t hm => by simpa using List.any_eq_false.mp h t hm
  rw [settle, hnone]

/-- Settling again changes nothing. -/
@[simp] theorem settle_settle (list : List JsonObject) (a : String) :
    settle list (settle list a) = settle list a := by
  cases ho : offers list a with
  | true =>
    have hsame := settle_offered ho
    have hpred : (fun t => sameFolded (contractOf t) (settle list a)) =
        fun t => sameFolded (contractOf t) a := by
      funext t
      exact Bool.eq_iff_iff.mpr ⟨fun h => sameFolded_trans h hsame,
        fun h => sameFolded_trans h (sameFolded_symm hsame)⟩
    conv_lhs => rw [settle, hpred]
    obtain ⟨t, hm, ht⟩ := List.any_eq_true.mp ho
    cases hfind : list.find? fun t => sameFolded (contractOf t) a with
    | none => exact absurd ht (List.find?_eq_none.mp hfind t hm)
    | some row => simp [settle, hfind]
  | false =>
    rw [settle_not_offered ho]
    cases list with
    | nil => rfl
    | cons row rows => simp [settle, sameFolded_refl]

/-- A list that is empty or offers the contract keeps it chosen. -/
theorem settle_kept {list : List JsonObject} {a b : String} (h : list = [] ∨ offers list b = true)
    (hab : sameFolded a b = true) : sameFolded (settle list a) b = true := by
  rcases h with rfl | h
  · exact hab
  · obtain ⟨t, hm, ht⟩ := List.any_eq_true.mp h
    have ho : offers list a = true :=
      List.any_eq_true.mpr ⟨t, hm, sameFolded_trans ht (sameFolded_symm hab)⟩
    exact sameFolded_trans (settle_offered ho) hab

theorem settle_spelled {list : List JsonObject} {a : String} (h : ∀ t ∈ list, Offered t)
    (ha : Spelled a) : Spelled (settle list a) := by
  unfold settle
  split
  · rename_i t hfind
    exact (h t (List.mem_of_find?_eq_some hfind)).spelled
  · cases list with
    | nil => exact ha
    | cons row rows => exact (h row (List.mem_cons_self ..)).spelled

/-- A row of the picker is on the cursor's chain. -/
theorem Published.chainTokens_chain {p : Published} {t : JsonObject} (hm : t ∈ p.chainTokens)
    (h : Offered t) : t.value "chainId" = some (.int p.chainId) := by
  have hin := (List.mem_filter.mp hm).2
  obtain ⟨c, hc⟩ := h.chain
  rw [hc] at hin ⊢
  simp only [JsonValue.isUndefined, Option.isNone_some, Bool.false_or, JsonValue.strictEq_int,
    beq_iff_eq] at hin
  rw [hin]

namespace SendPage

variable {s : SendPage}

/-- The picker settles on a row of the chosen contract, or on the first row. -/
theorem syncIndex_tokenAddress (hrows : ∀ t ∈ s.replica.chainTokens, Offered t)
    (h : Spelled s.tokenAddress) :
    s.syncIndex.tokenAddress = settle s.replica.chainTokens s.tokenAddress := by
  have hkey : ∀ t ∈ s.replica.chainTokens,
      (tokenKey t == tokenKey s.selectedToken) = sameFolded (contractOf t) s.tokenAddress := by
    intro t hm
    have ho := hrows t hm
    rw [ho.tokenKey (Published.chainTokens_chain hm ho), tokenKey_selectedToken h,
      Bool.eq_iff_iff, beq_iff_eq, ← keyOf_inj ho.spelled h]
    exact ⟨fun hk => (decimal_colon_inj hk).2, fun hk => by rw [hk]⟩
  have hfind : s.replica.chainTokens.find? (fun t => tokenKey t == tokenKey s.selectedToken) =
      s.replica.chainTokens.find? fun t => sameFolded (contractOf t) s.tokenAddress :=
    List.find?_congr hkey
  have hat : s.replica.chainTokens[s.tokenIndex]? =
      (s.replica.chainTokens.find? fun t => sameFolded (contractOf t) s.tokenAddress).or
        s.replica.chainTokens.head? := by
    rw [← hfind, List.find?_eq_bind_findIdx?_getElem?]
    unfold tokenIndex
    cases hidx : s.replica.chainTokens.findIdx? fun t =>
        tokenKey t == tokenKey s.selectedToken with
    | none => simp [List.head?_eq_getElem?]
    | some i =>
      obtain ⟨hi, -⟩ := List.findIdx?_eq_some_iff_getElem.mp hidx
      simp [List.getElem?_eq_getElem hi]
  unfold syncIndex settle
  rw [hat]
  cases s.replica.chainTokens.find? fun t => sameFolded (contractOf t) s.tokenAddress with
  | some row => rfl
  | none =>
    cases s.replica.chainTokens.head? with
    | none => rfl
    | some row => rfl

theorem syncIndex_eq (s : SendPage) :
    ∃ token tokenAddress, s.syncIndex = { s with token, tokenAddress } := by
  unfold syncIndex
  split
  · exact ⟨_, _, rfl⟩
  · exact ⟨_, _, rfl⟩

@[simp] theorem syncIndex_replica (s : SendPage) : s.syncIndex.replica = s.replica := by
  obtain ⟨token, tokenAddress, h⟩ := s.syncIndex_eq
  rw [h]

@[simp] theorem syncIndex_visible (s : SendPage) : s.syncIndex.visible = s.visible := by
  obtain ⟨token, tokenAddress, h⟩ := s.syncIndex_eq
  rw [h]

@[simp] theorem delivered_replica (s : SendPage) (p : Published) : (s.delivered p).replica = p := by
  unfold delivered
  split
  · rfl
  · exact syncIndex_replica _

@[simp] theorem delivered_visible (s : SendPage) (p : Published) :
    (s.delivered p).visible = s.visible := by
  unfold delivered
  split
  · rfl
  · exact syncIndex_visible _

theorem delivered_tokenAddress {p : Published} (hrows : ∀ t ∈ p.chainTokens, Offered t)
    (h : Spelled s.tokenAddress) : (s.delivered p).tokenAddress =
      if p.pickerModel = s.replica.pickerModel then s.tokenAddress
      else settle p.chainTokens s.tokenAddress := by
  unfold delivered
  split
  · rfl
  · exact @syncIndex_tokenAddress { s with replica := p } hrows h

end SendPage

namespace SendPage

variable {s : SendPage} {us : List Published} {rows : List JsonObject} {a : String}

theorem foldl_delivered_replica :
    (us.foldl delivered s).replica = us.getLast?.getD s.replica := by
  induction us generalizing s with
  | nil => rfl
  | cons u us ih =>
    rw [List.foldl_cons, ih, delivered_replica, List.getLast?_cons, Option.getD_some]

theorem foldl_delivered_visible : (us.foldl delivered s).visible = s.visible := by
  induction us generalizing s with
  | nil => rfl
  | cons u us ih => rw [List.foldl_cons, ih, delivered_visible]

/-- Updates that leave the picker's lines leave the choice. -/
theorem foldl_delivered_same (h : ∀ u ∈ us, u.pickerModel = s.replica.pickerModel) :
    (us.foldl delivered s).tokenAddress = s.tokenAddress := by
  induction us generalizing s with
  | nil => rfl
  | cons u us ih =>
    have hu := h u (List.mem_cons_self ..)
    rw [List.foldl_cons, ih]
    · simp [delivered, hu]
    · intro v hv
      rw [delivered_replica, hu]
      exact h v (List.mem_cons_of_mem _ hv)

/-- A choice that is settled in the list stays. -/
theorem foldl_delivered_settled (hrows : ∀ t ∈ rows, Offered t)
    (h : ∀ u ∈ us, u.chainTokens = rows) (hs : Spelled s.tokenAddress)
    (hfix : settle rows s.tokenAddress = s.tokenAddress) :
    (us.foldl delivered s).tokenAddress = s.tokenAddress := by
  induction us generalizing s with
  | nil => rfl
  | cons u us ih =>
    have hu := h u (List.mem_cons_self ..)
    have hsame : (s.delivered u).tokenAddress = s.tokenAddress := by
      rw [delivered_tokenAddress (hu ▸ hrows) hs, hu, hfix, ite_self]
    rw [List.foldl_cons, ih (fun v hv => h v (List.mem_cons_of_mem _ hv)) (hsame ▸ hs)
      (by rw [hsame, hfix]), hsame]

/-- The first update that changes the picker's lines settles the choice. -/
theorem foldl_delivered_first {u : Published} (hrows : ∀ t ∈ rows, Offered t)
    (h : ∀ v ∈ u :: us, v.chainTokens = rows) (hs : Spelled s.tokenAddress)
    (hne : u.pickerModel ≠ s.replica.pickerModel) :
    ((u :: us).foldl delivered s).tokenAddress = settle rows s.tokenAddress := by
  have hu := h u (List.mem_cons_self ..)
  have hfirst : (s.delivered u).tokenAddress = settle rows s.tokenAddress := by
    rw [delivered_tokenAddress (hu ▸ hrows) hs, if_neg hne, hu]
  rw [List.foldl_cons, foldl_delivered_settled hrows
    (fun v hv => h v (List.mem_cons_of_mem _ hv)) (hfirst ▸ settle_spelled hrows hs)
    (by rw [hfirst, settle_settle]), hfirst]

/-- A change of the picker's lines settles the choice. -/
theorem foldl_delivered_changed (hrows : ∀ t ∈ rows, Offered t)
    (h : ∀ u ∈ us, u.chainTokens = rows) (hs : Spelled s.tokenAddress)
    (hne : ∃ u ∈ us, u.pickerModel ≠ s.replica.pickerModel) :
    (us.foldl delivered s).tokenAddress = settle rows s.tokenAddress := by
  induction us generalizing s with
  | nil => simp at hne
  | cons u us ih =>
    by_cases hu : u.pickerModel = s.replica.pickerModel
    · have hsame : s.delivered u = { s with replica := u } := by rw [delivered, if_pos hu]
      obtain ⟨v, hv, hvne⟩ := hne
      have hv : v ∈ us := (List.mem_cons.mp hv).resolve_left fun he => hvne (he ▸ hu)
      rw [List.foldl_cons, hsame]
      exact ih (fun v hv => h v (List.mem_cons_of_mem _ hv)) hs ⟨v, hv, hu ▸ hvne⟩
    · exact foldl_delivered_first hrows h hs hu

/-- Updates of lists that are empty or offer the contract keep it chosen. -/
theorem foldl_delivered_kept (hrows : ∀ u ∈ us, ∀ t ∈ u.chainTokens, Offered t)
    (h : ∀ u ∈ us, u.chainTokens = [] ∨ offers u.chainTokens a = true)
    (hs : Spelled s.tokenAddress) (ha : sameFolded s.tokenAddress a = true) :
    sameFolded (us.foldl delivered s).tokenAddress a = true := by
  induction us generalizing s with
  | nil => exact ha
  | cons u us ih =>
    have hu := hrows u (List.mem_cons_self ..)
    have hstep := delivered_tokenAddress hu hs
    refine ih (fun v hv => hrows v (List.mem_cons_of_mem _ hv))
      (fun v hv => h v (List.mem_cons_of_mem _ hv)) ?_ ?_
    · rw [hstep]
      split
      · exact hs
      · exact settle_spelled hu hs
    · rw [hstep]
      split
      · exact ha
      · exact settle_kept (h u (List.mem_cons_self ..)) ha

/-! ## What the request names -/

/-- The choice stays what was pressed: the chain is on screen already; or the old list has left the
view before the token is chosen; or the section is on screen and the picker's lines do not change
until the list goes; or the old list offers the contract; or what the picker falls back to there is
given up for the contract in the new list. -/
def keepsChoice (s : SendPage) (t : JsonObject) (during after : List Published) (chainId : Int)
    (tokensJson : Text) : Bool :=
  s.replica.chainId == chainId ||
  during.any (·.tokensJson.isEmpty) ||
  (s.visible && (after.takeWhile fun u =>
      u.tokensJson == s.replica.tokensJson && u.chainId == s.replica.chainId).all fun u =>
    u.pickerModel == (during.getLast?.getD s.replica).pickerModel) ||
  offers s.replica.chainTokens (contractOf t) ||
  comesBack s.replica.chainTokens (tokensOn chainId tokensJson) (contractOf t)

/-- The token is chosen, and the section is on screen. -/
theorem shown_tokenAddress (hrows : ∀ t ∈ s.replica.chainTokens, Offered t)
    (hs : Spelled s.tokenAddress) : s.shown.tokenAddress =
      if s.visible then s.tokenAddress else settle s.replica.chainTokens s.tokenAddress := by
  unfold shown
  split
  · rfl
  · exact @syncIndex_tokenAddress { s with visible := true } hrows hs

@[simp] theorem shown_replica (s : SendPage) : s.shown.replica = s.replica := by
  unfold shown
  split
  · rfl
  · exact syncIndex_replica _

/-- What has reached the view when the token is chosen. -/
theorem openSend_replica (t : JsonObject) (during : List Published) :
    (s.openSend t during).replica = during.getLast?.getD s.replica := by
  rw [openSend, shown_replica]
  exact foldl_delivered_replica

theorem openSend_tokenAddress {t : JsonObject} {during : List Published} (ht : Offered t)
    (hrows : ∀ row ∈ (during.getLast?.getD s.replica).chainTokens, Offered row) :
    (s.openSend t during).tokenAddress =
      if s.visible then contractOf t
      else settle (during.getLast?.getD s.replica).chainTokens (contractOf t) := by
  have hreplica : ((during.foldl delivered s).selectToken t).replica =
      during.getLast?.getD s.replica := foldl_delivered_replica
  have hvisible : ((during.foldl delivered s).selectToken t).visible = s.visible :=
    foldl_delivered_visible
  rw [openSend, shown_tokenAddress (hreplica ▸ hrows) ht.spelled, hreplica, hvisible]
  rfl

theorem openSend_spelled {t : JsonObject} {during : List Published} (ht : Offered t)
    (hrows : ∀ row ∈ (during.getLast?.getD s.replica).chainTokens, Offered row) :
    Spelled (s.openSend t during).tokenAddress := by
  rw [openSend_tokenAddress ht hrows]
  split
  · exact ht.spelled
  · exact settle_spelled hrows ht.spelled

/-- Lists that are empty or offer the contract keep it chosen to the end. -/
theorem openSend_kept {t : JsonObject} {during after : List Published} (ht : Offered t)
    (hrows : ∀ u ∈ during.getLast?.getD s.replica :: after, ∀ row ∈ u.chainTokens, Offered row)
    (h : ∀ u ∈ during.getLast?.getD s.replica :: after,
      u.chainTokens = [] ∨ offers u.chainTokens (contractOf t) = true) :
    sameFolded (after.foldl delivered (s.openSend t during)).tokenAddress (contractOf t) =
      true := by
  have hfirst := hrows _ (List.mem_cons_self ..)
  refine foldl_delivered_kept (fun u hu => hrows u (List.mem_cons_of_mem _ hu))
    (fun u hu => h u (List.mem_cons_of_mem _ hu)) (openSend_spelled ht hfirst) ?_
  rw [openSend_tokenAddress ht hfirst]
  split
  · exact sameFolded_refl _
  · exact settle_kept (h _ (List.mem_cons_self ..)) (sameFolded_refl _)

theorem follows_replica {t : JsonObject} {during after : List Published} :
    (after.foldl delivered (s.openSend t during)).replica =
      (during ++ after).getLast?.getD s.replica := by
  rw [foldl_delivered_replica, openSend_replica, List.getLast?_append]
  cases after.getLast? <;> rfl

end SendPage

/-- Where the picker ends that settles in one list, then in another that offers the contract. -/
theorem settle_crossed {old new : List JsonObject} {a : String} (hnew : offers new a = true) :
    sameFolded (settle new (settle old a)) a = true ↔
      (offers old a || comesBack old new a) = true := by
  cases hold : offers old a with
  | true => exact ⟨fun _ => rfl, fun _ => settle_kept (.inr hnew) (settle_offered hold)⟩
  | false =>
    rw [settle_not_offered hold, Bool.false_or]
    cases old with
    | nil => exact ⟨fun _ => rfl, fun _ => settle_offered hnew⟩
    | cons row rows =>
      cases new with
      | nil => cases hnew
      | cons first others =>
        have hrow : sameFolded (contractOf row) a = false := by
          simpa using List.any_eq_false.mp hold row (List.mem_cons_self ..)
        simp only [List.head?_cons, Option.map_some, Option.getD_some]
        cases ho : offers (first :: others) (contractOf row) with
        | true =>
          have hsettled := settle_offered ho
          have hnot : sameFolded (settle (first :: others) (contractOf row)) a ≠ true := fun h =>
            absurd (sameFolded_trans (sameFolded_symm hsettled) h) (by simp [hrow])
          simpa [comesBack, ho] using hnot
        | false =>
          rw [settle_not_offered ho]
          simp [comesBack, ho]

namespace SendPage

variable {s : SendPage}

/-- Until the old list goes, the choice is as it was made, or has been settled in that list. -/
theorem leaving_tokenAddress {t : JsonObject} {chainId : Int} {tokensJson : Text}
    {during rest : List Published} (ht : Offered t)
    (hrows : ∀ row ∈ s.replica.chainTokens, Offered row)
    (w : Switch s.replica chainId tokensJson) (hw : w.leaving = during ++ rest) :
    (rest.foldl delivered (s.openSend t during)).tokenAddress =
      if s.visible && rest.all fun u =>
          u.pickerModel == (during.getLast?.getD s.replica).pickerModel then contractOf t
      else settle s.replica.chainTokens (contractOf t) := by
  have hlast : (during.getLast?.getD s.replica).chainTokens = s.replica.chainTokens := by
    by_cases hd : during = []
    · rw [hd]
      rfl
    · refine w.leaving_chainTokens _ (hw ▸ List.mem_append_left _ ?_)
      rw [List.getLast?_eq_some_getLast hd]
      exact List.getLast_mem hd
  have hrest : ∀ u ∈ rest, u.chainTokens = s.replica.chainTokens := fun u hu =>
    w.leaving_chainTokens u (hw ▸ List.mem_append_right _ hu)
  have hchosen : (s.openSend t during).tokenAddress =
      if s.visible then contractOf t else settle s.replica.chainTokens (contractOf t) :=
    hlast ▸ openSend_tokenAddress ht (hlast ▸ hrows)
  have hspelled : Spelled (s.openSend t during).tokenAddress := openSend_spelled ht (hlast ▸ hrows)
  cases hv : s.visible with
  | false =>
    rw [hv] at hchosen
    rw [foldl_delivered_settled hrows hrest hspelled (by rw [hchosen]; exact settle_settle _ _)]
    simpa using hchosen
  | true =>
    rw [hv, if_pos rfl] at hchosen
    cases hall : rest.all fun u =>
        u.pickerModel == (during.getLast?.getD s.replica).pickerModel with
    | true =>
      rw [foldl_delivered_same fun u hu => by
        rw [openSend_replica]
        exact beq_iff_eq.mp (List.all_eq_true.mp hall u hu)]
      exact hchosen
    | false =>
      obtain ⟨u, hu, hne⟩ := List.all_eq_false.mp hall
      rw [foldl_delivered_changed hrows hrest hspelled
        ⟨u, hu, by rw [openSend_replica]; exact fun h => hne (beq_iff_eq.mpr h)⟩, hchosen]
      simp

/-- Once the new list has come, the choice is settled in it. -/
theorem listed_tokenAddress {t : JsonObject} {chainId : Int} {tokensJson : Text}
    {during rest : List Published} (ht : Offered t)
    (hold : ∀ row ∈ s.replica.chainTokens, Offered row)
    (hnew : ∀ row ∈ tokensOn chainId tokensJson, Offered row)
    (hoffers : offers (tokensOn chainId tokensJson) (contractOf t) = true)
    (w : Switch s.replica chainId tokensJson) (hw : w.leaving = during ++ rest) :
    ((rest ++ (w.cleared ++ w.listed)).foldl delivered (s.openSend t during)).tokenAddress =
      settle (tokensOn chainId tokensJson)
        (if s.visible && rest.all fun u =>
          u.pickerModel == (during.getLast?.getD s.replica).pickerModel then contractOf t
        else settle s.replica.chainTokens (contractOf t)) := by
  have hleft := leaving_tokenAddress ht hold w hw
  have hspelled : Spelled (rest.foldl delivered (s.openSend t during)).tokenAddress := by
    rw [hleft]
    split
    · exact ht.spelled
    · exact settle_spelled hold ht.spelled
  rw [List.foldl_append, List.foldl_append, ← hleft]
  generalize rest.foldl delivered (s.openSend t during) = left at hspelled
  have hcleared : (w.cleared.foldl delivered left).tokenAddress = left.tokenAddress :=
    foldl_delivered_settled (by simp) w.cleared_chainTokens hspelled rfl
  have hempty : (w.cleared.foldl delivered left).replica.pickerModel = [] := by
    rw [foldl_delivered_replica, List.getLast?_eq_some_getLast w.cleared_ne]
    exact Published.pickerModel_empty (w.cleared_chainTokens _ (List.getLast_mem w.cleared_ne))
  obtain ⟨u, us, hus⟩ := List.exists_cons_of_ne_nil w.listed_ne
  have hlisted := w.listed_chainTokens
  rw [hus] at hlisted ⊢
  rw [foldl_delivered_first hnew hlisted (hcleared ▸ hspelled), hcleared]
  -- A list that offers the contract is not empty.
  rw [hempty, Published.pickerModel, hlisted u (List.mem_cons_self ..)]
  intro hnil
  rw [List.map_eq_nil_iff.mp hnil] at hoffers
  cases hoffers

/-- Every list the view shows once the old one has gone is empty or the new one. -/
theorem cleared_kept {t : JsonObject} {chainId : Int} {tokensJson : Text}
    {during after : List Published} (ht : Offered t)
    (hnew : ∀ row ∈ tokensOn chainId tokensJson, Offered row)
    (hoffers : offers (tokensOn chainId tokensJson) (contractOf t) = true)
    (w : Switch s.replica chainId tokensJson)
    (h : ∀ u ∈ during.getLast?.getD s.replica :: after, u ∈ w.cleared ++ w.listed) :
    sameFolded (after.foldl delivered (s.openSend t during)).tokenAddress (contractOf t) =
      true := by
  have hlists : ∀ u ∈ w.cleared ++ w.listed,
      u.chainTokens = [] ∨ u.chainTokens = tokensOn chainId tokensJson := fun u hu =>
    (List.mem_append.mp hu).imp (w.cleared_chainTokens u) (w.listed_chainTokens u)
  refine openSend_kept ht (fun u hu row hrow => ?_) fun u hu => ?_
  · rcases hlists u (h u hu) with he | he
    · simp [he] at hrow
    · exact hnew row (he ▸ hrow)
  · exact (hlists u (h u hu)).imp_right fun he => by rw [he]; exact hoffers

/-- However the updates of the switch fall between the press and the section being shown, Send is
open on the token that was pressed if and only if the picker kept it. -/
theorem openSend_names_iff {t : JsonObject} {chainId : Int} {tokensJson : Text}
    {during after : List Published} (ht : Offered t)
    (hchain : t.value "chainId" = some (.int chainId))
    (hold : ∀ row ∈ s.replica.chainTokens, Offered row)
    (hnew : ∀ row ∈ tokensOn chainId tokensJson, Offered row)
    (hoffers : offers (tokensOn chainId tokensJson) (contractOf t) = true)
    (h : s.replica.Follows chainId tokensJson (during ++ after)) :
    (after.foldl delivered (s.openSend t during)).names t = true ↔
      s.keepsChoice t during after chainId tokensJson = true := by
  rw [names_iff hchain, follows_replica]
  rcases h with ⟨hc, htokens, hnil⟩ | ⟨hc, w, hw⟩
  · -- No switch: the token is in the list on screen.
    obtain ⟨rfl, rfl⟩ := List.append_eq_nil_iff.mp hnil
    have hlist : s.replica.chainTokens = tokensOn chainId tokensJson := by
      rw [Published.chainTokens_eq, hc, htokens]
    have hkept : sameFolded (List.foldl delivered (s.openSend t []) []).tokenAddress
        (contractOf t) = true := by
      refine openSend_kept ht (fun u hu row hrow => ?_) fun u hu => ?_
      all_goals
        have hu : u = s.replica := by simpa using hu
        subst hu
      · exact hold row hrow
      · exact .inr (hlist ▸ hoffers)
    exact iff_of_true ⟨hc, hkept⟩ (by simp [keepsChoice, hc])
  · have hlast : ((during ++ after).getLast?.getD s.replica).chainId = chainId :=
      hw ▸ w.last_chainId
    rw [and_iff_right hlast]
    rcases w.split hw with ⟨rest, hl, rfl⟩ | ⟨u, us, hd, hrest⟩
    · -- The token is chosen while the old list is on screen.
      rw [listed_tokenAddress ht hold hnew hoffers w hl]
      by_cases he : s.replica.tokensJson = .empty
      · -- A list that is empty from the start holds the picker to nothing.
        have hnone := Published.chainTokens_empty he
        rw [hnone]
        refine iff_of_true ?_ (by simp [keepsChoice, hnone, comesBack])
        split
        · exact settle_offered hoffers
        · exact settle_kept (.inr hoffers) (sameFolded_refl _)
      · have hany : during.any (·.tokensJson.isEmpty) = false := by
          refine List.any_eq_false.mpr fun u hu hempty => he ?_
          rw [← (w.still u (hl ▸ List.mem_append_left _ hu)).1]
          exact Text.isEmpty_iff.mp hempty
        have hwhile := w.takeWhile_still he fun u hu => hl ▸ List.mem_append_right during hu
        cases hm : s.visible && rest.all fun u =>
            u.pickerModel == (during.getLast?.getD s.replica).pickerModel with
        | true => exact iff_of_true (settle_offered hoffers) (by simp [keepsChoice, hwhile, hm])
        | false =>
          rw [if_neg Bool.false_ne_true, settle_crossed hoffers]
          simp [keepsChoice, hc, hany, hwhile, hm]
    · -- The old list has left the view: what is shown since is empty, or the new list.
      have hin : ∀ v ∈ during.getLast?.getD s.replica :: after, v ∈ w.cleared ++ w.listed := by
        rw [hd, List.getLast?_append, List.getLast?_eq_some_getLast (List.cons_ne_nil u us), hrest]
        intro v hv
        rcases List.mem_cons.mp hv with rfl | hv
        · exact List.mem_append_left _ (List.getLast_mem (List.cons_ne_nil u us))
        · exact List.mem_append_right _ hv
      refine iff_of_true (cleared_kept ht hnew hoffers w hin) ?_
      have hu : u ∈ w.cleared := by
        cases hcl : w.cleared with
        | nil => exact absurd hcl w.cleared_ne
        | cons v vs =>
          rw [hcl, List.cons_append, List.cons_append] at hrest
          rw [(List.cons.inj hrest).1]
          exact List.mem_cons_self ..
      have hany : during.any (·.tokensJson.isEmpty) = true :=
        List.any_eq_true.mpr ⟨u, hd ▸ List.mem_append_right _ (List.mem_cons_self ..),
          by rw [w.empty u hu]; rfl⟩
      simp [keepsChoice, hany]

/-! ## A contract that only chain 10 has -/

def nativeOf (chainId : Int) : JsonObject :=
  [("symbol", .str "ETH"), ("native", .bool true), ("chainId", .int chainId)]

def usdc : JsonObject :=
  [("symbol", .str "USDC"), ("address", .str "0xA1"), ("chainId", .int 10)]

theorem offered_nativeOf (chainId : Int) : Offered (nativeOf chainId) :=
  ⟨⟨chainId, rfl⟩, .inl rfl⟩

theorem offered_usdc : Offered usdc :=
  ⟨⟨10, rfl⟩, .inr ⟨"0xA1", ['A', '1'], rfl, by decide⟩⟩

/-- The tokens of chains 1 and 10 are listed, and the account. -/
def listing : List Event :=
  [.returned (okReply [("networks",
     .arr [.obj [("chainId", .int 1)], .obj [("chainId", .int 10)]])]),
   .returned (okReply [("tokens", .arr [.obj ((nativeOf 1).take 2)])]),
   .returned (okReply [("tokens", .arr [.obj ((nativeOf 10).take 2), .obj (usdc.take 2)])]),
   .returned (okReply [("accounts", .arr [.str "0xA"])]),
   .returned .empty, .returned .empty, .returned .empty, .returned .empty, .returned .empty]

/-- The backend is asked for chain 10, and lists the tokens again. -/
def switching : List Event := listing ++ .slot (.selectChain 10) :: listing

/-- The Tokens tab of a wallet on chain 1. -/
def onTokens : SendPage := { replica := (State.after listing).core.published }

/-- What the backend publishes in the switch. -/
def published : List Published :=
  ((State.after switching).core.updates.take ((State.after switching).core.updates.length -
    (State.after listing).core.updates.length)).reverse

def tokensJson : Text := (State.after listing).core.published.tokensJson

theorem rows_onTokens : onTokens.replica.chainTokens = [nativeOf 1] := by decide +kernel

theorem rows_switched : tokensOn 10 tokensJson = [nativeOf 10, usdc] := by decide +kernel

theorem follows_switching : onTokens.replica.Follows 10 tokensJson published := by
  have hmoved : onTokens.replica.chainId ≠ 10 := by decide +kernel
  let w : Switch onTokens.replica 10 tokensJson := {
    leaving := []
    cleared := published.take 2
    listed := published.drop 2
    still := by simp
    empty := by decide +kernel
    cleared_ne := by decide +kernel
    there := by decide +kernel
    listed_ne := by decide +kernel }
  have hw : published = w.updates := by
    unfold Switch.updates
    simp only [w, List.nil_append, List.take_append_drop]
  exact .inr ⟨hmoved, w, hw⟩

theorem offered_onTokens : ∀ row ∈ onTokens.replica.chainTokens, Offered row := by
  rw [rows_onTokens]
  intro row hm
  exact List.mem_singleton.mp hm ▸ offered_nativeOf 1

theorem offered_switched : ∀ row ∈ tokensOn 10 tokensJson, Offered row := by
  rw [rows_switched]
  intro row hm
  rcases List.mem_pair.mp hm with rfl | rfl
  · exact offered_nativeOf 10
  · exact offered_usdc

/-- The updates come inside `openSend`. -/
theorem openSend_names_iff_published :
    (List.foldl delivered (onTokens.openSend usdc published) []).names usdc = true :=
  (openSend_names_iff offered_usdc rfl offered_onTokens offered_switched (by decide +kernel)
    (by rw [List.append_nil]; exact follows_switching)).mpr (by decide +kernel)

/-- The updates come once the section is on screen: the picker has settled on the native currency
of chain 1, and then on that of chain 10. -/
theorem openSend_renames : ¬∀ (s : SendPage) (t : JsonObject) (chainId : Int) (tokensJson : Text)
    (during after : List Published), Offered t → t.value "chainId" = some (.int chainId) →
    (∀ row ∈ s.replica.chainTokens, Offered row) →
    (∀ row ∈ tokensOn chainId tokensJson, Offered row) →
    offers (tokensOn chainId tokensJson) (contractOf t) = true →
    s.replica.Follows chainId tokensJson (during ++ after) →
    (after.foldl delivered (s.openSend t during)).names t = true := by
  intro h
  have hnames := h onTokens usdc 10 tokensJson [] published offered_usdc rfl offered_onTokens
    offered_switched (by decide +kernel) follows_switching
  exact absurd hnames (by decide +kernel)

end SendPage

end EthWalletUi
