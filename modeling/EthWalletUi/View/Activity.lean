import EthWalletUi.View.Picker

/-!
# A token related to something else (`EthWalletView.qml`)

The detail screen's activity relates a token to history rows, the picker to the chosen contract, and
the note under a quote to the contract that was priced.

* `OwnRow`, `Is`: what each should look for, chain included.
* `activity_iff`: the activity holds the token's own rows exactly if no row of another chain
  matches; `findToken_iff`: the picker looks for the chain too; `notedToken_none`: the note looks
  for a key without a chain, which no token has.
-/

namespace EthWalletUi

open Qt

/-- Two hex texts that are one: an absent one is none. -/
def sameHex (a b : JsonValue) : Bool :=
  !a.toString.isEmpty && !b.toString.isEmpty && toLowerCase a.toString == toLowerCase b.toString

namespace Published

variable (p : Published)

def historyKnown : Bool := p.scopedDataFresh && !p.historyJson.isEmpty

def history : List JsonObject := if p.historyKnown then p.historyJson.array.map asObject else []

/-- The offered token with this identity. -/
def tokenByKey (key : String) : Option JsonObject :=
  if key.isEmpty then none else p.tokens.find? fun t => tokenKey t == key

/-- Whether the detail screen of `tok` takes a history row for its own. -/
def rowMatches (tok r : JsonObject) : Bool :=
  if (tok.value "native").isTrue then (r.value "kind").strictEq (some (.str "native"))
  else sameHex (r.value "token") (tok.value "address")

/-- `tokenPage.activity`, on the screen of `key`. -/
def activity (key : String) : List JsonObject :=
  match p.tokenByKey key with
  | none => []
  | some tok => p.history.filter (rowMatches tok)

/-- The contract that the quote on screen has priced, empty when it names none. -/
def pricedContract (q : JsonObject) : String :=
  if (q.value "ok").isTrue then (q.value "tokenAddress").toString else ""

/-- The token that the note looks up. -/
def notedToken (q : JsonObject) : Option JsonObject :=
  p.tokenByKey (toLowerCase (pricedContract q))

/-- The note's text, and whether it is in the error colour. -/
def quoteTokenNote (q : JsonObject) (tokenAddress : String) : String × Bool :=
  let priced := pricedContract q
  let mismatch := !priced.isEmpty && !sameHex (some (.str priced)) (some (.str tokenAddress))
  if priced.isEmpty then ("", mismatch)
  else
    let called := match p.notedToken q with
      | some t => if (t.value "name").truthy then (t.value "name").jsString ++ " " else ""
      | none => ""
    let named := called ++ shortAddr priced
    (if mismatch then "These figures priced a DIFFERENT contract: " ++ named
      else "Priced for " ++ named, mismatch)

end Published

/-- The lookup of `tokenIndex`, which answers 0 when it finds nothing. -/
def SendPage.findToken (s : SendPage) : Option Nat :=
  s.replica.chainTokens.findIdx? fun t => tokenKey t == tokenKey s.selectedToken

theorem SendPage.tokenIndex_eq (s : SendPage) : s.tokenIndex = s.findToken.getD 0 := rfl

/-! ## What each looks for -/

/-- A history row of the token: of its chain, and its native transfer or its contract's. -/
def OwnRow (tok r : JsonObject) : Bool :=
  (r.value "chainId").strictEq (tok.value "chainId") && Published.rowMatches tok r

/-- The token is the one of that chain and contract, empty for the native currency. -/
def Is (c : Int) (contract : String) (t : JsonObject) : Prop :=
  t.value "chainId" = some (.int c) ∧ sameFolded (contractOf t) contract = true

section

variable {p : Published} {s : SendPage}

/-- The activity is the token's own rows exactly if no row of another chain matches. -/
theorem activity_iff {tok : JsonObject} {key : String} (h : p.tokenByKey key = some tok) :
    p.activity key = p.history.filter (OwnRow tok) ↔
      ∀ r ∈ p.history, Published.rowMatches tok r = true →
        (r.value "chainId").strictEq (tok.value "chainId") = true := by
  unfold Published.activity
  rw [h]
  constructor
  · intro heq r hr hm
    have hin : r ∈ p.history.filter (OwnRow tok) := heq ▸ List.mem_filter.mpr ⟨hr, hm⟩
    have hown := (List.mem_filter.mp hin).2
    rw [OwnRow, Bool.and_eq_true] at hown
    exact hown.1
  · intro hall
    refine List.filter_congr fun r hr => ?_
    unfold OwnRow
    cases hm : Published.rowMatches tok r with
    | false => rw [Bool.and_false]
    | true => rw [hall r hr hm, Bool.and_true]

/-- The key of a row of the cursor's chain is the chosen one's exactly if the contract is. -/
theorem tokenKey_selected_iff {t : JsonObject} (ht : t ∈ s.replica.chainTokens) (ho : Offered t)
    (hs : Spelled s.tokenAddress) :
    tokenKey t = tokenKey s.selectedToken ↔ Is s.replica.chainId s.tokenAddress t := by
  have hc := Published.chainTokens_chain ht ho
  rw [ho.tokenKey hc, SendPage.tokenKey_selectedToken hs, Is, and_iff_right hc,
    ← keyOf_inj ho.spelled hs]
  exact ⟨fun hk => (decimal_colon_inj hk).2, fun hk => by rw [hk]⟩

theorem mem_chainTokens_of_chain {t : JsonObject} (ht : t ∈ p.tokens)
    (hc : t.value "chainId" = some (.int p.chainId)) : t ∈ p.chainTokens := by
  refine List.mem_filter.mpr ⟨ht, ?_⟩
  rw [hc]
  simp

/-- The picker finds a token of the cursor's chain with the chosen contract if there is one, and
nothing else. -/
theorem findToken_iff (ho : ∀ t ∈ s.replica.tokens, Offered t) (hs : Spelled s.tokenAddress) :
    (s.findToken.isSome = true ↔
      ∃ t ∈ s.replica.tokens, Is s.replica.chainId s.tokenAddress t) ∧
    ∀ i, s.findToken = some i → s.tokenIndex = i ∧
      ∃ t, s.replica.chainTokens[i]? = some t ∧ Is s.replica.chainId s.tokenAddress t := by
  have hoffered : ∀ t ∈ s.replica.chainTokens, t ∈ s.replica.tokens ∧ Offered t := fun t ht =>
    ⟨(List.mem_filter.mp ht).1, ho t (List.mem_filter.mp ht).1⟩
  constructor
  · unfold SendPage.findToken
    rw [List.findIdx?_isSome, List.any_eq_true]
    constructor
    · rintro ⟨t, ht, hk⟩
      obtain ⟨hmem, hot⟩ := hoffered t ht
      exact ⟨t, hmem, (tokenKey_selected_iff ht hot hs).mp (beq_iff_eq.mp hk)⟩
    · rintro ⟨t, hmem, his⟩
      have ht := mem_chainTokens_of_chain hmem his.1
      exact ⟨t, ht, beq_iff_eq.mpr ((tokenKey_selected_iff ht (ho t hmem) hs).mpr his)⟩
  · intro i hi
    refine ⟨by rw [SendPage.tokenIndex_eq, hi]; rfl, ?_⟩
    obtain ⟨hlt, hk, -⟩ := List.findIdx?_eq_some_iff_getElem.mp hi
    have ht := List.getElem_mem hlt
    exact ⟨_, List.getElem?_eq_getElem hlt,
      (tokenKey_selected_iff ht (hoffered _ ht).2 hs).mp (beq_iff_eq.mp hk)⟩

/-- An address has no chain in front: no token's key is one. -/
theorem tokenKey_ne_address {t : JsonObject} (ho : Offered t) {a : String} {rest : List Char}
    (ha : a.toList = '0' :: 'x' :: rest) : tokenKey t ≠ a := by
  intro h
  obtain ⟨c, hc⟩ := ho.chain
  rw [ho.tokenKey hc] at h
  have hl := congrArg String.toList h
  rw [String.toList_append, String.toList_append, ha, List.append_assoc] at hl
  obtain ⟨k, ⟨hk, -⟩ | ⟨hk, -⟩⟩ := toList_decimal c
  · rw [hk] at hl
    cases hdigits : k.repr.toList with
    | nil => simp [hdigits] at hl
    | cons d ds =>
      rw [hdigits] at hl
      have htail := (List.cons.inj hl).2
      cases ds with
      | nil => simp at htail
      | cons e ds =>
        have he : e = 'x' := (List.cons.inj htail).1
        have := @isDigit_of_mem_repr k e (by simp [hdigits])
        rw [he] at this
        exact absurd this (by decide)
  · rw [hk] at hl
    simp at hl

/-- The note finds no offered contract that was priced. -/
theorem notedToken_none {q : JsonObject} (ho : ∀ t ∈ p.tokens, Offered t) {t : JsonObject}
    (ht : t ∈ p.tokens) (hne : Published.pricedContract q ≠ "")
    (his : Is p.chainId (Published.pricedContract q) t) : p.notedToken q = none := by
  have hspelled := (ho t ht).spelled
  have hlower := toLowerCase_inj.mpr his.2
  rcases hspelled with he | ⟨rest, hrest⟩
  · exact absurd (sameFolded_empty.mp (sameFolded_symm (he ▸ his.2))) hne
  · have hpriced : (toLowerCase (Published.pricedContract q)).toList =
        '0' :: 'x' :: rest.map Char.toLower := by
      rw [← hlower, toLowerCase, String.toList_ofList, hrest]
      rfl
    unfold Published.notedToken Published.tokenByKey
    split
    · rfl
    · refine List.find?_eq_none.mpr fun t' ht' hk => ?_
      exact tokenKey_ne_address (ho t' ht') hpriced (beq_iff_eq.mp hk)

end

/-- The note resolves a contract that is offered on the cursor's chain to a token of that chain and
contract. -/
def NoteResolves (p : Published) (q : JsonObject) : Prop :=
  ∀ t ∈ p.tokens, Published.pricedContract q ≠ "" → Is p.chainId (Published.pricedContract q) t →
    ∃ t', p.notedToken q = some t' ∧ Is p.chainId (Published.pricedContract q) t'

/-- A token is its chain and contract: on the detail screen exactly if no history row of another
chain matches it, in the picker always, under a quote exactly if the contract priced is not offered
on the cursor's chain. -/
theorem token_identity_iff (s : SendPage) (key : String) (q : JsonObject)
    (ho : ∀ t ∈ s.replica.tokens, Offered t) (hs : Spelled s.tokenAddress) :
    (∀ tok, s.replica.tokenByKey key = some tok →
      (s.replica.activity key = s.replica.history.filter (OwnRow tok) ↔
        ∀ r ∈ s.replica.history, Published.rowMatches tok r = true →
          (r.value "chainId").strictEq (tok.value "chainId") = true)) ∧
    ((s.findToken.isSome = true ↔
        ∃ t ∈ s.replica.tokens, Is s.replica.chainId s.tokenAddress t) ∧
      ∀ i, s.findToken = some i → s.tokenIndex = i ∧
        ∃ t, s.replica.chainTokens[i]? = some t ∧ Is s.replica.chainId s.tokenAddress t) ∧
    (NoteResolves s.replica q ↔ ¬∃ t ∈ s.replica.tokens, Published.pricedContract q ≠ "" ∧
      Is s.replica.chainId (Published.pricedContract q) t) := by
  refine ⟨fun tok => activity_iff, findToken_iff ho hs, ?_⟩
  constructor
  · rintro hres ⟨t, ht, hne, his⟩
    obtain ⟨t', hnoted, -⟩ := hres t ht hne his
    rw [notedToken_none ho ht hne his] at hnoted
    cases hnoted
  · intro hno t ht hne his
    exact absurd ⟨t, ht, hne, his⟩ hno

/-- Ether and a contract on chain 1, with a native transfer on chain 10 in the history. -/
def twoChains : SendPage where
  replica := {
    activeNetworkJson := .compact (.obj [("chainId", .int 1)])
    scopedDataFresh := true
    historyJson := .compact (.arr [.obj [("chainId", .int 10), ("kind", .str "native")]])
    tokensJson := .compact (.arr [
      .obj [("chainId", .int 1), ("native", .bool true), ("symbol", .str "ETH")],
      .obj [("chainId", .int 1), ("address", .str "0xA1"), ("symbol", .str "USDC")]]) }

/-- A quote that priced the contract. -/
def contractQuote : JsonObject := [("ok", .bool true), ("tokenAddress", .str "0xA1")]

theorem twoChains_offered : ∀ t ∈ twoChains.replica.tokens, Offered t := by
  have htokens : twoChains.replica.tokens =
      [[("chainId", .int 1), ("native", .bool true), ("symbol", .str "ETH")],
        [("chainId", .int 1), ("address", .str "0xA1"), ("symbol", .str "USDC")]] := rfl
  rw [htokens]
  intro t ht
  rcases List.mem_pair.mp ht with rfl | rfl
  · exact ⟨⟨1, rfl⟩, .inl rfl⟩
  · exact ⟨⟨1, rfl⟩, .inr ⟨"0xA1", ['A', '1'], rfl, rfl⟩⟩

/-- Chain 1's Ether shows chain 10's transfer, and the note does not find the contract offered. -/
theorem token_identity_fails :
    twoChains.replica.activity "1:native" = [[("chainId", .int 10), ("kind", .str "native")]] ∧
      (∃ t ∈ twoChains.replica.tokens,
        Is twoChains.replica.chainId (Published.pricedContract contractQuote) t) ∧
      twoChains.replica.notedToken contractQuote = none := by
  refine ⟨by decide +kernel, ⟨[("chainId", .int 1), ("address", .str "0xA1"),
    ("symbol", .str "USDC")], by decide +kernel, rfl, by decide +kernel⟩, by decide +kernel⟩

theorem token_identity_iff_twoChains :
    (∀ t ∈ twoChains.replica.tokens, Offered t) ∧ Spelled twoChains.tokenAddress ∧
    (∀ tok, twoChains.replica.tokenByKey "1:native" = some tok →
      (twoChains.replica.activity "1:native" = twoChains.replica.history.filter (OwnRow tok) ↔
        ∀ r ∈ twoChains.replica.history, Published.rowMatches tok r = true →
          (r.value "chainId").strictEq (tok.value "chainId") = true)) ∧
    ((twoChains.findToken.isSome = true ↔ ∃ t ∈ twoChains.replica.tokens,
        Is twoChains.replica.chainId twoChains.tokenAddress t) ∧
      ∀ i, twoChains.findToken = some i → twoChains.tokenIndex = i ∧
        ∃ t, twoChains.replica.chainTokens[i]? = some t ∧
          Is twoChains.replica.chainId twoChains.tokenAddress t) ∧
    (NoteResolves twoChains.replica contractQuote ↔
      ¬∃ t ∈ twoChains.replica.tokens, Published.pricedContract contractQuote ≠ "" ∧
        Is twoChains.replica.chainId (Published.pricedContract contractQuote) t) :=
  ⟨twoChains_offered, .inl rfl,
    token_identity_iff twoChains "1:native" contractQuote twoChains_offered (.inl rfl)⟩

end EthWalletUi
