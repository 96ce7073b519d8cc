import EthWalletUi.Review

/-!
# What an accepted request carries of what the app asked for

* `Supplied`: a member the app gave a value. `SameText`, `SameAmount`: a member carried with that
  value, up to white space around it.
* `FaithfulCall`, `Faithful`: every member is carried and well formed. `PlainCall`, `Plain`: what the
  request must be for that, beyond being accepted.
* `checkIntentSend_faithful_iff`: an accepted request is carried faithfully exactly if it is plain;
  any other leaves nothing behind.
-/

namespace EthWalletUi

open Qt

/-! ## Members -/

/-- The app gave the member a value: a text that is not blank, a number, a boolean, or an array or
object that is not empty. -/
def Supplied (v : JsonValue) : Prop :=
  (trimmed v.toVariantString).isEmpty = false ∨ v.toArray ≠ [] ∨ v.toObject ≠ []

/-- A text is carried as that text. -/
def SameText (v w : JsonValue) : Prop :=
  ∃ s t, v = some (.str s) ∧ w = some (.str t) ∧ trimmed t = trimmed s

/-- An amount is carried as the text it prints as. -/
def SameAmount (v w : JsonValue) : Prop :=
  ∃ t, w = some (.str t) ∧ trimmed t = trimmed v.toVariantString ∧ (trimmed t).isEmpty = false

/-- `0x` and 40 hexadecimal digits. -/
def IsAddress (s : String) : Prop :=
  ∃ digits, s.toList = '0' :: 'x' :: digits ∧ digits.length = 40 ∧ digits.all isHexDigit = true

/-- `0x` and an even number of hexadecimal digits. -/
def IsCalldata (s : String) : Prop :=
  ∃ digits, s.toList = '0' :: 'x' :: digits ∧ digits.length % 2 = 0 ∧ digits.all isHexDigit = true

/-- The call `k` is the app's call `c`. -/
structure FaithfulCall (c k : JsonObject) : Prop where
  address : ∃ s, k.value "to" = some (.str s) ∧ IsAddress s
  recipient : Supplied (c.value "to") → SameText (c.value "to") (k.value "to")
  data : Supplied (c.value "data") → SameText (c.value "data") (k.value "data")
  calldata : ∀ j, k.value "data" = some j → ∃ s, j = .str s ∧ IsCalldata s
  value : Supplied (c.value "value") → SameAmount (c.value "value") (k.value "value")
  gasLimit : Supplied (c.value "gasLimit") → SameAmount (c.value "gasLimit") (k.value "gasLimit")

/-- The sender is handed the app's calls, in their order, and the sender and the tier it named. -/
structure Faithful (p senderRequest : JsonObject) : Prop where
  calls : ∃ ks, senderRequest.value "calls" = some (.arr ks) ∧
    List.Forall₂ (fun c k => FaithfulCall (asObject c) (asObject k)) (p.value "calls").toArray ks
  sender : Supplied (p.value "from") → SameText (p.value "from") (senderRequest.value "from")
  tier : Supplied (p.value "tier") → SameText (p.value "tier") (senderRequest.value "tier")

/-- The recipient is spelled with `0x`, calldata is a text of hexadecimal digits after its first two
characters, and no amount is an array or an object that is not empty. -/
structure PlainCall (c : JsonObject) : Prop where
  spelled : (trimmed (c.value "to").toString).toList.take 2 = ['0', 'x']
  data : Supplied (c.value "data") → (c.value "data").isString = true
  digits : ((trimmed (c.value "data").toString).toList.drop 2).all isHexDigit = true
  value : (c.value "value").toArray = [] ∧ (c.value "value").toObject = []
  gasLimit : (c.value "gasLimit").toArray = [] ∧ (c.value "gasLimit").toObject = []

/-- Every call is plain, and a sender or a tier that is named is a text. -/
structure Plain (p : JsonObject) : Prop where
  calls : ∀ c ∈ (p.value "calls").toArray, PlainCall (asObject c)
  sender : Supplied (p.value "from") → (p.value "from").isString = true
  tier : Supplied (p.value "tier") → (p.value "tier").isString = true

/-! ## How the check reads them -/

section

variable {v w : JsonValue} {s : String}

/-- A member read as a text: the text, or nothing when it is no text. -/
theorem supplied_text (h : v.isString = true) : v = some (.str v.toString) := by
  unfold JsonValue.isString at h
  split at h
  · rfl
  · cases h

theorem toString_of_not_isString (h : v.isString = false) : v.toString = "" := by
  unfold JsonValue.isString at h
  split at h
  · cases h
  · rename_i hne
    unfold JsonValue.toString
    split
    · exact absurd rfl (hne _)
    · rfl

/-- A text that is supplied is not blank. -/
theorem Supplied.text (h : Supplied v) (hs : v.isString = true) :
    (trimmed v.toString).isEmpty = false := by
  rw [supplied_text hs] at h ⊢
  rcases h with h | h | h
  · exact h
  · exact absurd rfl h
  · exact absurd rfl h

/-- A text member is carried by its trimming exactly if it is a text. -/
theorem sameText_iff (hw : (trimmed v.toString).isEmpty = false → w = some (.str (trimmed v.toString)))
    (hsup : Supplied v) : SameText v w ↔ v.isString = true := by
  constructor
  · rintro ⟨s, t, rfl, -, -⟩
    rfl
  · intro hs
    exact ⟨v.toString, trimmed v.toString, supplied_text hs, hw (hsup.text hs),
      trimmed_trimmed _⟩

/-- An array or an object does not print. -/
theorem toVariantString_of_members (h : v.toArray ≠ [] ∨ v.toObject ≠ []) :
    v.toVariantString = "" := by
  cases v with
  | none => rfl
  | some j =>
    cases j with
    | null => rfl
    | arr items => rfl
    | obj members => rfl
    | bool b => exact absurd h (by simp [JsonValue.toArray, JsonValue.toObject])
    | int n => exact absurd h (by simp [JsonValue.toArray, JsonValue.toObject])
    | double q digits => exact absurd h (by simp [JsonValue.toArray, JsonValue.toObject])
    | str s => exact absurd h (by simp [JsonValue.toArray, JsonValue.toObject])

/-- An amount is carried by what it prints as exactly if it is no array or object with members. -/
theorem sameAmount_iff
    (hw : w = if (trimmed v.toVariantString).isEmpty then none
      else some (.str (trimmed v.toVariantString))) :
    (Supplied v → SameAmount v w) ↔ v.toArray = [] ∧ v.toObject = [] := by
  constructor
  · intro h
    by_contra hc
    rw [not_and_or] at hc
    obtain ⟨t, -, ht, hne⟩ := h (.inr hc)
    rw [ht, toVariantString_of_members hc] at hne
    exact absurd hne (by decide)
  · rintro ⟨ha, ho⟩ (h | h | h)
    · rw [if_neg (by rw [h]; exact Bool.false_ne_true)] at hw
      exact ⟨_, hw, trimmed_trimmed _, by rw [trimmed_trimmed, h]⟩
    · exact absurd ha h
    · exact absurd ho h

/-- A hexadecimal digit is one UTF-16 code unit. -/
theorem units_of_isHexDigit {c : Char} (h : isHexDigit c = true) : units c = 1 := by
  unfold isHexDigit at h
  simp only [Bool.or_eq_true, Bool.and_eq_true, decide_eq_true_eq, Char.le_def,
    UInt32.le_iff_toNat_le] at h
  have : c.toNat ≤ 102 := by
    rcases h with (⟨-, h⟩ | ⟨-, h⟩) | ⟨-, h⟩
    · exact Nat.le_trans h (by decide)
    · exact Nat.le_trans h (by decide)
    · exact Nat.le_trans h (by decide)
  unfold units
  rw [if_pos (by omega)]

theorem size_of_digits {a b : Char} {digits : List Char} (hs : s.toList = a :: b :: digits)
    (ha : units a = 1) (hb : units b = 1) (h : digits.all isHexDigit = true) :
    size s = digits.length + 2 := by
  have hunits : digits.map units = List.replicate digits.length 1 := by
    rw [List.eq_replicate_iff]
    refine ⟨List.length_map .., fun n hn => ?_⟩
    obtain ⟨c, hc, rfl⟩ := List.mem_map.mp hn
    exact units_of_isHexDigit (List.all_eq_true.mp h c hc)
  unfold size
  rw [hs, List.map_cons, List.map_cons, List.sum_cons, List.sum_cons, hunits,
    List.sum_replicate_nat, ha, hb]
  omega

/-- What looks like an address is one exactly if its prefix is spelled so. -/
theorem isAddress_iff (h : looksLikeAddress s = true) :
    IsAddress s ↔ s.toList.take 2 = ['0', 'x'] := by
  constructor
  · rintro ⟨digits, hs, -, -⟩
    rw [hs]
    rfl
  · intro htake
    unfold looksLikeAddress at h
    split at h
    · rename_i x digits hs
      simp only [Bool.and_eq_true, beq_iff_eq] at h
      obtain ⟨hsize, -, hdigits⟩ := h
      rw [hs] at htake
      cases htake
      rw [size_of_digits hs (by decide) (by decide) hdigits] at hsize
      exact ⟨digits, hs, by omega, hdigits⟩
    · simp at h

/-- Calldata that passed is hexadecimal exactly if its digits are. -/
theorem isCalldata_iff (htake : s.toList.take 2 = ['0', 'x']) (hsize : size s % 2 = 0) :
    IsCalldata s ↔ (s.toList.drop 2).all isHexDigit = true := by
  constructor
  · rintro ⟨digits, hs, -, hdigits⟩
    rwa [hs]
  · intro hdigits
    have hs : s.toList = '0' :: 'x' :: s.toList.drop 2 := by
      rw [← List.take_append_drop 2 s.toList, htake]
      rfl
    rw [size_of_digits hs (by decide) (by decide) hdigits] at hsize
    exact ⟨_, hs, by omega, hdigits⟩

end

/-! ## The calls -/

/-- The calldata of a call that is not refused. -/
theorem cleanCall_data {requester : String} {i : Nat} {c k : JsonObject}
    (h : cleanCall requester i c = .ok k)
    (hne : (trimmed (c.value "data").toString).isEmpty = false) :
    (trimmed (c.value "data").toString).toList.take 2 = ['0', 'x'] ∧
      size (trimmed (c.value "data").toString) % 2 = 0 := by
  simp only [cleanCall] at h
  split at h
  · cases h
  · split at h
    · cases h
    · rename_i hc
      rw [hne] at hc
      simpa using hc

/-- A cleaned call is the app's call exactly if that one is plain. -/
theorem cleanCall_faithful_iff {requester : String} {i : Nat} {c k : JsonObject}
    (h : cleanCall requester i c = .ok k) : FaithfulCall c k ↔ PlainCall c := by
  have hk := cleanCall_ok h
  have haddress := isAddress_iff hk.address
  have hdata : (trimmed (c.value "data").toString).isEmpty = false →
      k.value "data" = some (.str (trimmed (c.value "data").toString)) := fun hne => by
    rw [hk.data, hne]
    rfl
  constructor
  · rintro ⟨⟨s, hs, ha⟩, -, hd, hcall, hv, hg⟩
    rw [hk.recipient] at hs
    cases hs
    refine ⟨haddress.mp ha, fun hsup => (sameText_iff hdata hsup).mp (hd hsup), ?_,
      (sameAmount_iff hk.value).mp hv, (sameAmount_iff hk.gasLimit).mp hg⟩
    cases hne : (trimmed (c.value "data").toString).isEmpty with
    | true =>
      rw [String.isEmpty_iff.mp hne]
      rfl
    | false =>
      obtain ⟨s, hs, hcalldata⟩ := hcall _ (hdata hne)
      cases hs
      obtain ⟨htake, hsize⟩ := cleanCall_data h hne
      exact (isCalldata_iff htake hsize).mp hcalldata
  · rintro ⟨hspelled, hd, hdigits, hv, hg⟩
    refine ⟨⟨_, hk.recipient, haddress.mpr hspelled⟩, fun hsup => ?_,
      fun hsup => (sameText_iff hdata hsup).mpr (hd hsup), fun j hj => ?_,
      (sameAmount_iff hk.value).mpr hv, (sameAmount_iff hk.gasLimit).mpr hg⟩
    · refine (sameText_iff (fun _ => hk.recipient) hsup).mpr ?_
      cases hs : (c.value "to").isString with
      | true => rfl
      | false =>
        rw [toString_of_not_isString hs] at hspelled
        exact absurd hspelled (by decide)
    · cases hne : (trimmed (c.value "data").toString).isEmpty with
      | true =>
        rw [hk.data, hne] at hj
        cases hj
      | false =>
        rw [hdata hne] at hj
        cases hj
        obtain ⟨htake, hsize⟩ := cleanCall_data h hne
        exact ⟨_, rfl, (isCalldata_iff htake hsize).mpr hdigits⟩

theorem cleanCalls_faithful_iff {requester : String} {i : Nat} {cs ks : JsonArray}
    (h : cleanCalls requester i cs = .ok ks) :
    List.Forall₂ (fun c k => FaithfulCall (asObject c) (asObject k)) cs ks ↔
      ∀ c ∈ cs, PlainCall (asObject c) := by
  induction cs generalizing i ks with
  | nil =>
    cases h
    exact iff_of_true .nil (List.forall_mem_nil _)
  | cons c cs ih =>
    obtain ⟨k, rest, hk, hrest, rfl⟩ := cleanCalls_cons h
    rw [List.forall₂_cons, List.forall_mem_cons, ih hrest]
    exact and_congr_left fun _ => cleanCall_faithful_iff hk

/-! ## The whole request -/

/-- A refused request leaves nothing to review or to send. -/
theorem checkIntentSend_refused {request : Text} {shown : Selection} {accounts : List String}
    {allowedChains : List Int} {sending : Bool}
    (h : (checkIntentSend request shown accounts allowedChains sending).ok = false) :
    (checkIntentSend request shown accounts allowedChains sending).review = [] ∧
      (checkIntentSend request shown accounts allowedChains sending).senderRequest = [] := by
  let P (checked : IntentSendChecked) : Prop :=
    checked.ok = false → checked.review = [] ∧ checked.senderRequest = []
  suffices hP : P (checkIntentSend request shown accounts allowedChains sending) from hP h
  delta checkIntentSend
  extract_lets r requestId requester p refuse chainV named chainId sender sender' purpose calls
    tier tier'
  have hrefuse : ∀ code why, P (refuse code why) := fun _ _ _ => ⟨rfl, rfl⟩
  refine ite_of (hrefuse _ _) fun _ => ite_of (hrefuse _ _) fun _ => ite_of (hrefuse _ _) fun _ => ?_
  refine ite_of (hrefuse _ _) fun _ => ite_of (hrefuse _ _) fun _ => ite_of (hrefuse _ _) fun _ => ?_
  refine ite_of (hrefuse _ _) fun _ => ite_of (hrefuse _ _) fun _ => ite_of (hrefuse _ _) fun _ => ?_
  refine ite_of (hrefuse _ _) fun _ => ?_
  cases cleanCalls requester 0 calls with
  | error why => exact hrefuse _ why
  | ok cleaned => exact ite_of (hrefuse _ _) fun _ => nofun

theorem AcceptedSend.faithful_iff {requester : String} {p : JsonObject} {shown : Selection}
    {checked : IntentSendChecked} {requestId sender purpose tier : String} {chainId : Int}
    {cleaned : JsonArray}
    (h : AcceptedSend requester p shown checked requestId sender purpose tier chainId cleaned) :
    Faithful p checked.senderRequest ↔ Plain p := by
  have hfrom : (trimmed (p.value "from").toString).isEmpty = false →
      checked.senderRequest.value "from" = some (.str (trimmed (p.value "from").toString)) := by
    intro hne
    rw [h.senderRequest, h.sender_eq, hne]
    rfl
  have htier : (trimmed (p.value "tier").toString).isEmpty = false →
      checked.senderRequest.value "tier" = some (.str (trimmed (p.value "tier").toString)) := by
    intro hne
    rw [h.senderRequest, h.tier_eq, hne]
    rfl
  have hcalls : checked.senderRequest.value "calls" = some (.arr cleaned) := by
    rw [h.senderRequest]
    rfl
  constructor
  · rintro ⟨⟨ks, hks, hforall⟩, hs, ht⟩
    rw [hcalls] at hks
    cases hks
    exact ⟨(cleanCalls_faithful_iff h.calls).mp hforall,
      fun hsup => (sameText_iff hfrom hsup).mp (hs hsup),
      fun hsup => (sameText_iff htier hsup).mp (ht hsup)⟩
  · rintro ⟨hplain, hs, ht⟩
    exact ⟨⟨cleaned, hcalls, (cleanCalls_faithful_iff h.calls).mpr hplain⟩,
      fun hsup => (sameText_iff hfrom hsup).mpr (hs hsup),
      fun hsup => (sameText_iff htier hsup).mpr (ht hsup)⟩

/-- An accepted request is carried faithfully exactly if it is plain, and any other is refused with
nothing to review and nothing to send. -/
theorem checkIntentSend_faithful_iff (request : Text) (shown : Selection) (accounts : List String)
    (allowedChains : List Int) (sending : Bool) :
    ((checkIntentSend request shown accounts allowedChains sending).ok = true →
      (Faithful ((parseObject request).value "params").toObject
          (checkIntentSend request shown accounts allowedChains sending).senderRequest ↔
        Plain ((parseObject request).value "params").toObject)) ∧
    ((checkIntentSend request shown accounts allowedChains sending).ok = false →
      (checkIntentSend request shown accounts allowedChains sending).review = [] ∧
        (checkIntentSend request shown accounts allowedChains sending).senderRequest = []) := by
  refine ⟨fun h => ?_, checkIntentSend_refused⟩
  obtain ⟨requestId, sender, purpose, tier, chainId, cleaned, ha⟩ := checkIntentSend_ok h
  exact ha.faithful_iff

/-- A request whose sender is a number, whose tier is a list and whose calldata is not
hexadecimal. -/
def misspelledRequest : Text :=
  let call : Json := .obj [("to", .str "0x1111111111111111111111111111111111111111"),
    ("data", .str "0xzz")]
  toJsonCompact [("requestId", .str "r1"), ("requester", .str "app"),
    ("params", .obj [("purpose", .str "a swap"), ("from", .int 7), ("tier", .arr [.str "fast"]),
      ("calls", .arr [call])])]

/-- It is accepted, for the selected account, at the normal tier, with that calldata. -/
theorem checkIntentSend_misspelled :
    (checkIntentSend misspelledRequest { account := "0xA", chainId := 1 } ["0xA"] [1] false).ok =
        true ∧
      ¬Faithful ((parseObject misspelledRequest).value "params").toObject
        (checkIntentSend misspelledRequest { account := "0xA", chainId := 1 } ["0xA"] [1]
          false).senderRequest := by
  refine ⟨by decide +kernel, fun h => ?_⟩
  obtain ⟨s, t, hs, -, -⟩ := h.sender (.inl (by decide +kernel))
  cases hs

end EthWalletUi
