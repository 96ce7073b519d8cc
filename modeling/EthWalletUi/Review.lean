import EthWalletUi.Intent

/-!
# What the human reviewed is what is sent

`acceptIntentSend` feeds the review it shows back into `checkIntentSend` as the request's
parameters, against the wallet as it stands then. So each normalisation must be a fixed point and
no default may fire again.

* `checkIntentSend_ok`: everything an accepted check has read and produced.
* `cleanCall_again`, `cleanCalls_again`: a cleaned call is cleaned to itself, up to white space at
  the end of its label.
-/

namespace EthWalletUi

open Qt

theorem recheckRequest_params (review : JsonObject) :
    ((parseObject (recheckRequest review)).value "params").toObject = review := by
  simp [recheckRequest, toJsonCompact, parseObject, JsonValue.toObject]

theorem recheckRequest_requester (review : JsonObject) :
    (parseObject (recheckRequest review)).value "requester" = review.value "requester" := by
  simp [recheckRequest, toJsonCompact, parseObject, JsonObject.value_insert,
    JsonObject.value_insertValue]

/-! ## Labels -/

/-- The label a call is reviewed under. -/
def callLabel (i : Nat) (label : String) : String :=
  if (trimmed label).isEmpty then s!"Call {i + 1}" else left (trimmed label) 120

theorem callLabel_default {i : Nat} (h : i < kMaxIntentCalls) :
    trimmed s!"Call {i + 1}" = s!"Call {i + 1}" ∧ s!"Call {i + 1}".isEmpty = false ∧
      size s!"Call {i + 1}" ≤ 120 := by
  revert i
  decide

/-- A label reviewed under is its own label, up to white space at its end. -/
theorem callLabel_again {i : Nat} (h : i < kMaxIntentCalls) (label : String) :
    TrailingTrimmed (callLabel i label) (callLabel i (callLabel i label)) := by
  by_cases hl : (trimmed label).isEmpty = true
  · obtain ⟨ht, hne, hsize⟩ := callLabel_default h
    have hlabel : callLabel i label = s!"Call {i + 1}" := by rw [callLabel, if_pos hl]
    rw [hlabel, callLabel, ht, if_neg (by simp), left_of_size_le hsize]
    exact .refl _
  · have hlabel : callLabel i label = left (trimmed label) 120 := by rw [callLabel, if_neg hl]
    have hhead := head_left (s := trimmed label) (n := 120) (by decide)
    rw [hlabel]
    have htrim : TrailingTrimmed (left (trimmed label) 120)
        (trimmed (left (trimmed label) 120)) :=
      trailingTrimmed_trimmed fun c hc => head_trimmed label c (by rwa [hhead] at hc)
    have hne : (trimmed (left (trimmed label) 120)).isEmpty = false := by
      cases hc : (trimmed label).toList.head? with
      | none =>
        rw [List.head?_eq_none_iff, String.toList_eq_nil_iff] at hc
        exact absurd (by rw [hc]; rfl) hl
      | some c =>
        have hspace : isSpace c = false := head_trimmed label c (by rw [hc]; rfl)
        rw [Bool.eq_false_iff, ne_eq, String.isEmpty_iff]
        exact trimmed_ne_empty (hhead.trans hc) hspace
    rw [callLabel, if_neg (by simp [hne]),
      left_of_size_le ((size_le_of_trailingTrimmed htrim).trans (size_left_le _ _))]
    exact htrim

/-! ## One call -/

/-- The review's label stays, up to white space at its end; every other member that is sent stays
as it is. -/
structure SameCall (a b : JsonObject) : Prop where
  members : ∀ k ∈ ["to", "value", "data", "gasLimit", "meta"], b.value k = a.value k
  label : ∃ s t, a.value "label" = some (.str s) ∧ b.value "label" = some (.str t) ∧
    TrailingTrimmed s t

/-- What an accepted call was read from, and what it became. -/
structure CleanedCall (requester : String) (i : Nat) (c k : JsonObject) : Prop where
  address : looksLikeAddress (trimmed (c.value "to").toString) = true
  recipient : k.value "to" = some (.str (trimmed (c.value "to").toString))
  value : k.value "value" = if (trimmed (c.value "value").toVariantString).isEmpty then none
    else some (.str (trimmed (c.value "value").toVariantString))
  data : k.value "data" = if (trimmed (c.value "data").toString).isEmpty then none
    else some (.str (trimmed (c.value "data").toString))
  gasLimit : k.value "gasLimit" = if (trimmed (c.value "gasLimit").toVariantString).isEmpty
    then none else some (.str (trimmed (c.value "gasLimit").toVariantString))
  label : k.value "label" = some (.str (callLabel i (c.value "label").toString))
  info : k.value "meta" = some (.obj (((c.value "meta").toObject.insert "app"
    (.str requester)).insert "intent" (.str "evm.transactions.send")))

theorem cleanCall_ok {requester : String} {i : Nat} {c k : JsonObject}
    (h : cleanCall requester i c = .ok k) : CleanedCall requester i c k := by
  simp only [cleanCall] at h
  split at h
  · cases h
  · rename_i ha
    split at h
    · cases h
    · obtain rfl := Except.ok.inj h
      constructor
      case address => simpa using ha
      all_goals
        simp [callLabel, JsonObject.value_insert, insertUnlessEmpty_value, JsonObject.value_cons]

/-- A text member that a cleaned call has reads back as it was trimmed. -/
theorem trimmed_member {v : JsonValue} {s : String}
    (h : v = if (trimmed s).isEmpty then none else some (.str (trimmed s))) :
    trimmed v.toVariantString = trimmed s ∧ trimmed v.toString = trimmed s := by
  split at h
  · rename_i he
    rw [String.isEmpty_iff] at he
    rw [h, he]
    exact ⟨by decide, by decide⟩
  · rw [h]
    exact ⟨trimmed_trimmed s, trimmed_trimmed s⟩

/-- Cleaning a cleaned call again changes nothing but the end of its label. -/
theorem cleanCall_again {requester : String} {i : Nat} (hi : i < kMaxIntentCalls)
    {c k l : JsonObject} (h : cleanCall requester i c = .ok k)
    (h' : cleanCall requester i k = .ok l) : SameCall k l := by
  have hk := cleanCall_ok h
  have hl := cleanCall_ok h'
  refine ⟨?_, _, _, hk.label, hl.label, ?_⟩
  · intro key hkey
    simp only [List.mem_cons, List.not_mem_nil, or_false] at hkey
    rcases hkey with rfl | rfl | rfl | rfl | rfl
    · rw [hl.recipient, hk.recipient]
      simp [JsonValue.toString]
    · rw [hl.value, (trimmed_member hk.value).1, ← hk.value]
    · rw [hl.data, (trimmed_member hk.data).2, ← hk.data]
    · rw [hl.gasLimit, (trimmed_member hk.gasLimit).1, ← hk.gasLimit]
    · rw [hl.info, hk.info]
      simp only [JsonValue.toObject]
      rw [JsonObject.insert_eq_self (k := "app"), JsonObject.insert_eq_self (k := "intent")]
      all_goals simp [JsonObject.value_insert]
  · rw [hk.label]
    simp only [JsonValue.toString]
    exact callLabel_again hi _

theorem cleanCalls_cons {requester : String} {i : Nat} {c : Json} {cs ks : JsonArray}
    (h : cleanCalls requester i (c :: cs) = .ok ks) :
    ∃ k rest, cleanCall requester i (asObject c) = .ok k ∧
      cleanCalls requester (i + 1) cs = .ok rest ∧ ks = .obj k :: rest := by
  rw [cleanCalls] at h
  cases hk : cleanCall requester i (asObject c) with
  | error why =>
    rw [hk] at h
    cases h
  | ok k =>
    cases hr : cleanCalls requester (i + 1) cs with
    | error why =>
      rw [hk, hr] at h
      cases h
    | ok rest =>
      rw [hk, hr] at h
      cases h
      exact ⟨k, rest, rfl, rfl, rfl⟩

/-- So is cleaning a cleaned list of calls. -/
theorem cleanCalls_again {requester : String} {i : Nat} {cs ks ls : JsonArray}
    (hi : i + cs.length ≤ kMaxIntentCalls) (h : cleanCalls requester i cs = .ok ks)
    (h' : cleanCalls requester i ks = .ok ls) :
    List.Forall₂ (fun a b => SameCall (asObject a) (asObject b)) ks ls := by
  induction cs generalizing i ks ls with
  | nil =>
    cases h
    cases h'
    exact .nil
  | cons c cs ih =>
    obtain ⟨k, ks, hk, hks, rfl⟩ := cleanCalls_cons h
    obtain ⟨l, ls, hl, hls, rfl⟩ := cleanCalls_cons h'
    rw [List.length_cons] at hi
    exact .cons (cleanCall_again (by omega) hk hl) (ih (by omega) hks hls)

/-! ## The whole request -/

/-- Everything an accepted check has read of the request's parameters `p`, and of the selection
where a parameter has no value of its own, and what it has made of it. -/
structure AcceptedSend (requester : String) (p : JsonObject) (shown : Selection)
    (checked : IntentSendChecked) (requestId sender purpose tier : String) (chainId : Int)
    (cleaned : JsonArray) : Prop where
  chain_eq : chainId = if (p.value "chainId").isUndefined || (p.value "chainId").isNull
    then shown.chainId else (p.value "chainId").toInt
  chain_pos : 0 < chainId
  sender_eq : sender = if (trimmed (p.value "from").toString).isEmpty then shown.account
    else trimmed (p.value "from").toString
  account : shown.account.isEmpty = false
  purpose_eq : purpose = trimmed (p.value "purpose").toString
  count : (p.value "calls").toArray.length ≤ kMaxIntentCalls
  calls : cleanCalls requester 0 (p.value "calls").toArray = .ok cleaned
  tier_eq : tier = if (trimmed (p.value "tier").toString).isEmpty then "normal"
    else trimmed (p.value "tier").toString
  tier_known : tier = "slow" ∨ tier = "normal" ∨ tier = "fast"
  review : checked.review = [("requestId", .str requestId), ("requester", .str requester),
    ("chainId", .int chainId), ("from", .str sender), ("purpose", .str purpose),
    ("tier", .str tier), ("calls", .arr cleaned)]
  senderRequest : checked.senderRequest = [("chainId", .int chainId), ("from", .str sender),
    ("purpose", .str purpose), ("calls", .arr cleaned), ("tier", .str tier)]

theorem of_ite_ne {α : Type} {c : Prop} [Decidable c] {a b x : α} (h : (if c then a else b) = x)
    (ha : a ≠ x) : ¬c ∧ b = x := by
  split at h
  · exact absurd h ha
  · exact ⟨‹_›, h⟩

theorem ite_named (v : JsonValue) (d : Int) :
    (if !v.isUndefined && !v.isNull then v.toInt else d) =
      if v.isUndefined || v.isNull then d else v.toInt := by
  cases v.isUndefined <;> cases v.isNull <;> rfl

theorem checkIntentSend_ok {request : Text} {shown : Selection} {accounts : List String}
    {allowedChains : List Int} {sending : Bool}
    (h : (checkIntentSend request shown accounts allowedChains sending).ok = true) :
    ∃ requestId sender purpose tier chainId cleaned,
      AcceptedSend ((parseObject request).value "requester").toString
        ((parseObject request).value "params").toObject shown
        (checkIntentSend request shown accounts allowedChains sending)
        requestId sender purpose tier chainId cleaned := by
  generalize hc : checkIntentSend request shown accounts allowedChains sending = checked at h ⊢
  delta checkIntentSend at hc
  extract_lets r requestId requester p refuse chainV named chainId sender sender' purpose calls
    tier tier' at hc
  have hrefuse : ∀ {code why}, refuse code why ≠ checked := by
    rintro code why rfl
    cases h
  obtain ⟨-, hc⟩ := of_ite_ne hc hrefuse
  obtain ⟨-, hc⟩ := of_ite_ne hc hrefuse
  obtain ⟨hshown, hc⟩ := of_ite_ne hc hrefuse
  obtain ⟨-, hc⟩ := of_ite_ne hc hrefuse
  obtain ⟨hchain, hc⟩ := of_ite_ne hc hrefuse
  obtain ⟨-, hc⟩ := of_ite_ne hc hrefuse
  obtain ⟨-, hc⟩ := of_ite_ne hc hrefuse
  obtain ⟨-, hc⟩ := of_ite_ne hc hrefuse
  obtain ⟨-, hc⟩ := of_ite_ne hc hrefuse
  obtain ⟨hcount, hc⟩ := of_ite_ne hc hrefuse
  simp only [Bool.or_eq_true, beq_iff_eq, not_or, Bool.not_eq_true] at hshown
  simp only [Bool.or_eq_true, decide_eq_true_eq, not_or] at hchain
  cases hcleaned : cleanCalls requester 0 calls with
  | error why =>
    rw [hcleaned] at hc
    exact absurd hc hrefuse
  | ok cleaned =>
    rw [hcleaned] at hc
    obtain ⟨htier, hc⟩ := of_ite_ne hc hrefuse
    subst hc
    exact ⟨requestId, sender', purpose, tier', chainId, cleaned, {
      chain_eq := ite_named chainV shown.chainId
      chain_pos := by omega
      sender_eq := rfl
      account := hshown.2
      purpose_eq := rfl
      count := by simpa using hcount
      calls := hcleaned
      tier_eq := rfl
      tier_known := by
        simp only [Bool.and_eq_true, bne_iff_ne, ne_eq, not_and, Decidable.not_not] at htier
        by_cases hs : tier' = "slow"
        · exact .inl hs
        · by_cases hn : tier' = "normal"
          · exact .inr (.inl hn)
          · exact .inr (.inr (htier ⟨hs, hn⟩))
      review := rfl
      senderRequest := rfl }⟩

/-- What is sent is what was reviewed: the same chain, sender, purpose and tier, and the same calls
in the same order. -/
structure SameSend (review senderRequest : JsonObject) : Prop where
  members : ∀ k ∈ ["chainId", "from", "purpose", "tier"],
    senderRequest.value k = review.value k ∧ (review.value k).isUndefined = false
  calls : ∃ cs ds, review.value "calls" = some (.arr cs) ∧
    senderRequest.value "calls" = some (.arr ds) ∧
    List.Forall₂ (fun a b => SameCall (asObject a) (asObject b)) cs ds

/-- The account the review names as the sender is one that trimming leaves alone: the app named
one, or the account selected at the review has no white space around it. -/
def SenderTrimmed (request : Text) (shown : Selection) : Prop :=
  trimmed shown.account = shown.account ∨
    trimmed (((parseObject request).value "params").toObject.value "from").toString ≠ ""

/-- `v` is the review, with what its pricing or a refused send has added to it. -/
def Annotated (review v : JsonObject) : Prop :=
  ∀ k, k ∉ ["fee", "feeError", "sendError"] → v.value k = review.value k

theorem AcceptedSend.sender_trimmed {request : Text} {requester : String} {shown : Selection}
    {checked : IntentSendChecked} {requestId sender purpose tier : String} {chainId : Int}
    {cleaned : JsonArray}
    (ha : AcceptedSend requester ((parseObject request).value "params").toObject shown checked
      requestId sender purpose tier chainId cleaned) (h : SenderTrimmed request shown) :
    trimmed sender = sender ∧ sender ≠ "" := by
  rw [ha.sender_eq]
  split
  · rename_i he
    rw [String.isEmpty_iff] at he
    refine ⟨h.resolve_right fun hne => hne he, fun h0 => ?_⟩
    have := ha.account
    rw [h0] at this
    exact absurd this (by decide)
  · rename_i hne
    exact ⟨trimmed_trimmed _, by simpa [String.isEmpty_iff] using hne⟩

/-- What the human reviewed is what is sent: the check that precedes the send, against any later
state of the wallet, refuses the review or hands it to the sender as it was reviewed. -/
theorem recheck_sameSend {request : Text} {shown later : Selection}
    {accounts accounts' : List String} {allowedChains allowedChains' : List Int}
    {sending sending' : Bool} {v : JsonObject}
    (h : (checkIntentSend request shown accounts allowedChains sending).ok = true)
    (hsender : SenderTrimmed request shown)
    (hv : Annotated (checkIntentSend request shown accounts allowedChains sending).review v) :
    (checkIntentSend (recheckRequest v) later accounts' allowedChains' sending').ok = false ∨
      SameSend (checkIntentSend request shown accounts allowedChains sending).review
        (checkIntentSend (recheckRequest v) later accounts' allowedChains'
          sending').senderRequest := by
  cases h' : (checkIntentSend (recheckRequest v) later accounts' allowedChains' sending').ok with
  | false => exact .inl rfl
  | true =>
    right
    obtain ⟨requestId, sender, purpose, tier, chainId, cleaned, ha⟩ := checkIntentSend_ok h
    obtain ⟨requestId', sender', purpose', tier', chainId', cleaned', hb⟩ := checkIntentSend_ok h'
    generalize checkIntentSend (recheckRequest v) later accounts' allowedChains' sending' = again
      at hb
    generalize hfirst : checkIntentSend request shown accounts allowedChains sending = first
      at ha hv ⊢
    rw [Annotated, ha.review] at hv
    have hchain : v.value "chainId" = some (.int chainId) := hv _ (by decide)
    have hfrom : v.value "from" = some (.str sender) := hv _ (by decide)
    have hpurpose : v.value "purpose" = some (.str purpose) := hv _ (by decide)
    have htier : v.value "tier" = some (.str tier) := hv _ (by decide)
    have hcalls : v.value "calls" = some (.arr cleaned) := hv _ (by decide)
    have hrequester : v.value "requester" =
      some (.str ((parseObject request).value "requester").toString) := hv _ (by decide)
    rw [recheckRequest_params, recheckRequest_requester, hrequester] at hb
    have hc : chainId' = chainId := by
      have h0 : chainId' = JsonValue.toInt (some (.int chainId)) := by
        rw [hb.chain_eq, hchain]
        rfl
      rcases JsonValue.toInt_int_or chainId with hint | hint
      · rw [h0, hint]
      · -- A chain past 32 bits reads as 0, which no check accepts.
        have hpos := hb.chain_pos
        rw [h0, hint] at hpos
        exact absurd hpos (Int.lt_irrefl 0)
    have hs : sender' = sender := by
      obtain ⟨htrim, hne⟩ := ha.sender_trimmed hsender
      rw [hb.sender_eq, hfrom]
      simp [JsonValue.toString, htrim, hne]
    have hp : purpose' = purpose := by
      rw [hb.purpose_eq, hpurpose, ha.purpose_eq]
      exact trimmed_trimmed _
    have ht : tier' = tier := by
      rw [hb.tier_eq, htier]
      rcases ha.tier_known with rfl | rfl | rfl <;> decide
    have hforall := cleanCalls_again (i := 0) (by simpa using ha.count) ha.calls
      (by have := hb.calls; rw [hcalls] at this; exact this)
    rw [ha.review, hb.senderRequest, hc, hs, hp, ht]
    refine ⟨?_, cleaned, cleaned', rfl, rfl, hforall⟩
    intro k hk
    simp only [List.mem_cons, List.not_mem_nil, or_false] at hk
    rcases hk with rfl | rfl | rfl | rfl <;> exact ⟨rfl, rfl⟩

/-- A request for one call on chain 1, from whichever account is selected. -/
def plainRequest : Text :=
  let call : Json := .obj [("to", .str "0x1111111111111111111111111111111111111111"),
    ("value", .str "7"), ("label", .str " Tip ")]
  toJsonCompact [("requestId", .str "r1"), ("requester", .str "app"),
    ("params", .obj [("purpose", .str "a tip"), ("calls", .arr [call])])]

/-- The review of `plainRequest` under the account `0xA`, once the sender has priced it. -/
def plainReview : JsonObject :=
  (checkIntentSend plainRequest { account := "0xA", chainId := 1 } [] [1] false).review.insert
    "fee" (.obj [("ok", .bool true)])

theorem recheck_sameSend_plain :
    (checkIntentSend (recheckRequest plainReview) { account := "0xB", chainId := 1 } ["0xA"] [1]
        false).ok = false ∨
      SameSend (checkIntentSend plainRequest { account := "0xA", chainId := 1 } [] [1] false).review
        (checkIntentSend (recheckRequest plainReview) { account := "0xB", chainId := 1 } ["0xA"] [1]
          false).senderRequest := by
  refine recheck_sameSend (v := plainReview) (by decide +kernel)
    (.inl (by decide +kernel)) fun k hk => ?_
  rw [plainReview, JsonObject.value_insert_ne]
  rintro rfl
  exact hk (by decide)

/-- A selected account of white space reads as no account when the review is checked again, so a
move of the selection would change who sends. -/
theorem recheck_blank_account :
    ∃ (request : Text) (shown later : Selection) (accounts accounts' : List String)
      (allowedChains allowedChains' : List Int) (sending sending' : Bool) (v : JsonObject),
      (checkIntentSend request shown accounts allowedChains sending).ok = true ∧
      Annotated (checkIntentSend request shown accounts allowedChains sending).review v ∧
      ¬((checkIntentSend (recheckRequest v) later accounts' allowedChains' sending').ok = false ∨
        SameSend (checkIntentSend request shown accounts allowedChains sending).review
          (checkIntentSend (recheckRequest v) later accounts' allowedChains'
            sending').senderRequest) := by
  refine ⟨plainRequest, { account := " ", chainId := 1 }, { account := "0xB", chainId := 1 },
    [], [], [1], [1], false, false,
    (checkIntentSend plainRequest { account := " ", chainId := 1 } [] [1] false).review,
    by decide +kernel, fun _ _ => rfl, ?_⟩
  rintro (h | h)
  · exact absurd h (by decide +kernel)
  · exact absurd (h.members "from" (by decide)).1 (by decide +kernel)

end EthWalletUi
