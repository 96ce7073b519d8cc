import EthWalletUi.Qt.Js
import EthWalletUi.Backend.State

/-!
# What identifies a token (`EthWalletView.qml`)

The view's bindings over the published token list and balances, and the lookups keyed by
`tokenKey`: a token is its chain and contract, never its symbol.

* `tokenKey_chain`: the key of a row that names its chain starts with that chain's id.
-/

namespace EthWalletUi

open Qt

/-- `typeof t.address === "string" && t.address.length > 0`. -/
def addressOf (t : JsonObject) : Option String :=
  match t.value "address" with
  | some (.str a) => if a.isEmpty then none else some a
  | _ => none

/-- The part of a token's key that names its chain. -/
def chainPart (t : JsonObject) : String :=
  if (t.value "chainId").isUndefined then "" else (t.value "chainId").jsString ++ ":"

/-- The native currency takes the one key an address cannot spell. -/
def tokenKey (t : JsonObject) : String :=
  if (t.value "native").isTrue then chainPart t ++ "native"
  else match addressOf t with
    | some address => chainPart t ++ toLowerCase address
    | none => if (t.value "symbol").truthy then
        chainPart t ++ "sym:" ++ (t.value "symbol").jsString
      else ""

namespace Published

variable (p : Published)

def balancesKnown : Bool := p.scopedDataFresh && !p.balancesJson.isEmpty

def balances : List JsonObject :=
  if p.balancesKnown then p.balancesJson.array.map asObject else []

def balanceFailures : List JsonObject := p.balances.filter fun row => (row.value "blocked").isTrue

/-- A member of the token's balance row; an em-dash when there is none. -/
def balanceField (t : JsonObject) (field : String) : Json :=
  if (tokenKey t).isEmpty then .str "—"
  else match p.balances.find? fun row => tokenKey row == tokenKey t with
    | some row => (row.value field).getD (.str "—")
    | none => .str "—"

def balanceDisplay (t : JsonObject) : Json := p.balanceField t "display"

def balanceExact (t : JsonObject) : Json := p.balanceField t "exact"

/-- The blocked row of the token's chain. -/
def balanceFailureFor (t : JsonObject) : Option JsonObject :=
  if (t.value "chainId").isUndefined then none
  else p.balanceFailures.find? fun row => (row.value "chainId").strictEq (t.value "chainId")

end Published

theorem chainPart_int {t : JsonObject} {c : Int} (h : t.value "chainId" = some (.int c)) :
    chainPart t = toString c ++ ":" := by
  rw [chainPart, h]
  rfl

/-- The key of a row that names its chain starts with that chain's id. -/
theorem tokenKey_chain {t : JsonObject} {c : Int} (h : t.value "chainId" = some (.int c)) :
    tokenKey t = "" ∨ ∃ rest, tokenKey t = toString c ++ ":" ++ rest := by
  have hc := chainPart_int h
  unfold tokenKey
  split
  · exact .inr ⟨"native", by rw [hc]⟩
  · split
    · rename_i address _
      exact .inr ⟨toLowerCase address, by rw [hc]⟩
    · split
      · exact .inr ⟨"sym:" ++ (t.value "symbol").jsString, by
          rw [hc]
          simp only [String.append_assoc]⟩
      · exact .inl rfl

/-- Rows of one key are rows of one chain. -/
theorem chain_of_tokenKey {t row : JsonObject} {c d : Int} (ht : t.value "chainId" = some (.int c))
    (hrow : row.value "chainId" = some (.int d)) (hne : tokenKey t ≠ "")
    (h : tokenKey row = tokenKey t) : d = c := by
  obtain ⟨x, hx⟩ := (tokenKey_chain ht).resolve_left hne
  obtain ⟨y, hy⟩ := (tokenKey_chain hrow).resolve_left (h ▸ hne)
  rw [hx, hy] at h
  exact (decimal_colon_inj h).1

/-! ## What the screens show of the token list -/

/-- An address, shortened. -/
def shortAddr (a : String) : String :=
  if a.length < 12 then a
  else String.ofList (a.toList.take 6) ++ "…" ++ String.ofList (a.toList.drop (a.length - 4))

/-- Symbols that more than one row answers to. A JavaScript object has no key `__proto__`. -/
def dupSymbols (list : List JsonObject) : List String :=
  let symbols := list.map fun t => (t.value "symbol").jsString
  symbols.filter fun symbol => symbol != "__proto__" && 2 ≤ symbols.count symbol

def disambiguator (t : JsonObject) (dup : List String) : String :=
  if dup.contains (t.value "symbol").jsString then shortAddr (t.value "address").toString else ""

namespace Published

variable (p : Published)

def tokens : List JsonObject := p.tokensJson.array.map asObject

/-- Send's chain cursor. -/
def chainId : Int := ((parseObject p.activeNetworkJson).value "chainId").toInt

def chainTokens : List JsonObject := p.tokens.filter fun token =>
  (token.value "chainId").isUndefined || (token.value "chainId").strictEq (some (.int p.chainId))

/-- A line of the token picker. -/
def tokenPickerLabel (t : JsonObject) : String :=
  let line := (t.value "symbol").jsString ++ " — " ++ (p.balanceDisplay t).jsString
  let d := disambiguator t (dupSymbols p.tokens)
  let name := if (t.value "name").truthy then (t.value "name").jsString else ""
  if d.isEmpty then line else line ++ "  ·  " ++ name ++ " " ++ d

/-- The token picker's lines. -/
def pickerModel : List String := p.chainTokens.map p.tokenPickerLabel

end Published

end EthWalletUi
