import EthWalletUi.Place

/-!
# A resend is the same transfer at the same nonce, priced past every attempt

* `minedUpTo_lt_iff`, `mem_waiting`: the loops find exactly the rows that wait, as they are read.
* `floor_raise`, `newestOf_spec`: the floor is above every attempt's fees, the newest attempt is
  newest.
* `bump_spec`: the bump does not wrap, and is strictly more and at least 10% more.
-/

namespace EthWalletUi

open Qt

/-! ## What still waits -/

theorem minedStep_lt_iff {c n m : Int} {v : Json} : minedStep c m v < n ↔
    m < n ∧ (rowMined (asObject v) = true → ∀ k, asRead.place (asObject v) c k → k < n) := by
  simp only [minedStep, asRead]
  cases hn : nonceOf (asObject v) with
  | none => simp
  | some k =>
    by_cases hm : rowMined (asObject v) = true ∧ rowChain (asObject v) = c
    · simp [hm.1, hm.2]
    · have : (rowMined (asObject v) && rowChain (asObject v) == c) = false := by
        rw [Bool.eq_false_iff]
        simpa using hm
      simp only [this, Bool.false_eq_true, ↓reduceIte]
      exact ⟨fun h => ⟨h, fun h₁ _ h₂ => absurd ⟨h₁, h₂.1⟩ hm⟩, And.left⟩

theorem foldl_minedStep_lt_iff {rows : JsonArray} {c n a : Int} :
    rows.foldl (minedStep c) a < n ↔ a < n ∧ ∀ v ∈ rows, rowMined (asObject v) = true →
      ∀ m, asRead.place (asObject v) c m → m < n := by
  induction rows generalizing a with
  | nil => simp
  | cons v rows ih =>
    rw [List.foldl_cons, ih, minedStep_lt_iff, List.forall_mem_cons, and_assoc]

/-- Past the highest mined nonce means past every mined one. -/
theorem minedUpTo_lt_iff {rows : JsonArray} {c n : Int} :
    minedUpTo rows c < n ↔ 0 ≤ n ∧ ∀ v ∈ rows, rowMined (asObject v) = true →
      ∀ m, asRead.place (asObject v) c m → m < n := by
  rw [minedUpTo, foldl_minedStep_lt_iff]
  exact and_congr_left fun _ => by omega

theorem mem_waiting {rows : JsonArray} {c n : Int} {r : JsonObject} :
    (n, r) ∈ waiting rows c ↔ Waits rows c n r := by
  unfold waiting
  rw [List.mem_filterMap]
  constructor
  · rintro ⟨v, hv, h⟩
    cases hn : nonceOf (asObject v) with
    | none => simp [hn] at h
    | some k =>
      simp only [hn] at h
      split at h
      · rename_i hc
        cases h
        simp only [Bool.and_eq_true, beq_iff_eq, decide_eq_true_eq] at hc
        obtain ⟨⟨hw, hc⟩, hm⟩ := hc
        obtain ⟨h0, hm⟩ := minedUpTo_lt_iff.mp hm
        exact ⟨⟨v, hv, rfl⟩, hw, ⟨hc, hn⟩, h0, hm⟩
      · cases h
  · rintro ⟨⟨v, hv, rfl⟩, hw, ⟨hc, hn⟩, h0, hm⟩
    refine ⟨v, hv, ?_⟩
    have hlt := minedUpTo_lt_iff.mpr ⟨h0, hm⟩
    simp [hn, hw, hc, hlt]

theorem mem_gaps {rows stranded : JsonArray} {c n : Int} :
    n ∈ gaps rows stranded c ↔ Stranded rows stranded c n := by
  unfold gaps
  rw [List.mem_filterMap]
  constructor
  · rintro ⟨v, hv, h⟩
    cases hn : nonceOf (asObject v) with
    | none => simp [hn] at h
    | some k =>
      simp only [hn] at h
      split at h
      · rename_i hc
        cases h
        simp only [Bool.and_eq_true, beq_iff_eq, decide_eq_true_eq] at hc
        obtain ⟨h0, hm⟩ := minedUpTo_lt_iff.mp hc.2
        exact ⟨⟨v, hv, hc.1, hn⟩, h0, hm⟩
      · cases h
  · rintro ⟨⟨v, hv, hc, hn⟩, h0, hm⟩
    refine ⟨v, hv, ?_⟩
    have hlt := minedUpTo_lt_iff.mpr ⟨h0, hm⟩
    simp [hn, hc, hlt]

/-! ## The attempts at one nonce -/

/-- One attempt of the floor's fold: the floor only rises, and a readable attempt is under it. -/
theorem Floor.raise_spec (f : Floor) (r : JsonObject) :
    f.floorFee ≤ (f.raise r).floorFee ∧ f.floorTip ≤ (f.raise r).floorTip ∧
      ((f.raise r).feesKnown = true → f.feesKnown = true ∧
        ∃ fee tip, weiOf (r.value "maxFeePerGas") = some fee ∧
          weiOf (r.value "maxPriorityFeePerGas") = some tip ∧
          fee ≤ (f.raise r).floorFee ∧ tip ≤ (f.raise r).floorTip) := by
  unfold Floor.raise
  split
  · rename_i hk
    cases hf : weiOf (r.value "maxFeePerGas") with
    | none => simp
    | some fee =>
      cases ht : weiOf (r.value "maxPriorityFeePerGas") with
      | none => simp
      | some tip => simp [hk]
  · rename_i hk
    simp [hk]

/-- If every fee could be read, the floor is above the fees of every attempt. -/
theorem floor_raise {rs : List JsonObject} {f : Floor} (h : (rs.foldl Floor.raise f).feesKnown) :
    f.feesKnown = true ∧ f.floorFee ≤ (rs.foldl Floor.raise f).floorFee ∧
      f.floorTip ≤ (rs.foldl Floor.raise f).floorTip ∧
      ∀ r ∈ rs, ∃ fee tip, weiOf (r.value "maxFeePerGas") = some fee ∧
        weiOf (r.value "maxPriorityFeePerGas") = some tip ∧
        fee ≤ (rs.foldl Floor.raise f).floorFee ∧ tip ≤ (rs.foldl Floor.raise f).floorTip := by
  induction rs generalizing f with
  | nil => exact ⟨h, Nat.le_refl _, Nat.le_refl _, by simp⟩
  | cons r rs ih =>
    rw [List.foldl_cons] at h ⊢
    obtain ⟨hk, hfee, htip, hall⟩ := ih h
    obtain ⟨hfee', htip', hr⟩ := f.raise_spec r
    obtain ⟨hk', fee, tip, h1, h2, h3, h4⟩ := hr hk
    refine ⟨hk', hfee'.trans hfee, htip'.trans htip, fun x hx => ?_⟩
    rcases List.mem_cons.mp hx with rfl | hx
    · exact ⟨fee, tip, h1, h2, h3.trans hfee, h4.trans htip⟩
    · exact hall x hx

/-- The newest attempt is one of the attempts, and none is later. -/
theorem newestOf_spec (first : JsonObject) (rs : List JsonObject) :
    (newestOf first rs = first ∨ newestOf first rs ∈ rs) ∧
      rowTimestamp first ≤ rowTimestamp (newestOf first rs) ∧
      ∀ r ∈ rs, rowTimestamp r ≤ rowTimestamp (newestOf first rs) := by
  induction rs generalizing first with
  | nil => exact ⟨.inl rfl, Int.le_refl _, by simp⟩
  | cons r rs ih =>
    have hstep : newestOf first (r :: rs) =
        newestOf (if rowTimestamp first < rowTimestamp r then r else first) rs := rfl
    rw [hstep]
    obtain ⟨hmem, hle, hall⟩ := ih (if rowTimestamp first < rowTimestamp r then r else first)
    generalize newestOf (if rowTimestamp first < rowTimestamp r then r else first) rs = newest at *
    split at hmem <;> rename_i hlt <;> simp only [hlt, ↓reduceIte] at hle
    · refine ⟨.inr (hmem.elim (fun h => h ▸ List.mem_cons_self) (List.mem_cons_of_mem _)),
        by omega, fun x hx => ?_⟩
      rcases List.mem_cons.mp hx with rfl | hx
      · exact hle
      · exact hall x hx
    · refine ⟨hmem.imp_right (List.mem_cons_of_mem _), hle, fun x hx => ?_⟩
      rcases List.mem_cons.mp hx with rfl | hx
      · omega
      · exact hall x hx

/-- What `transferOf` carries over from a row's `meta`: a native transfer, or one of a token. -/
theorem transferOf_spec {row : JsonObject} (h : (transferOf row).isEmpty = false) :
    let info := (row.value "meta").toObject
    (transferOf row).value "to" = some (.str (info.value "recipient").toString) ∧
      (transferOf row).value "amount" = some (.str (info.value "amount").toString) ∧
      (((info.value "kind").toString = "native" ∧ (transferOf row).value "tokenAddress" = none) ∨
        ((info.value "kind").toString = "erc20" ∧
          (transferOf row).value "tokenAddress" = some (.str (info.value "token").toString))) := by
  intro info
  unfold transferOf at h ⊢
  simp only at h ⊢
  split at h
  · cases h
  · rename_i hc
    rw [if_neg hc]
    by_cases hk : (info.value "kind").toString = "erc20"
    · simp [info, hk, JsonObject.value_insert, JsonObject.value_cons]
    · have hn : (info.value "kind").toString = "native" := by
        simp only [Bool.or_eq_true, Bool.and_eq_true, bne_iff_ne, ne_eq, Bool.not_eq_true',
          beq_eq_false_iff_ne, not_or, not_and] at hc
        by_contra hn
        exact hc.1.1.1 hn hk
      simp [info, hn, JsonObject.value_cons]

/-! ## The price -/

/-- Below the bound the bump does not wrap; it is strictly more and at least 10% more. -/
theorem bump_spec {x : Nat} (h : x ≤ kMaxBumpable) :
    x + x / 10 + 1 < 2 ^ 64 ∧ bump x = x + x / 10 + 1 ∧ x < bump x ∧ 11 * x ≤ 10 * bump x := by
  unfold kMaxBumpable at h
  have hb : x + x / 10 + 1 < 2 ^ 64 := by omega
  have he : bump x = x + x / 10 + 1 := by
    unfold bump
    have hi : (x + x / 10) % 2 ^ 64 = x + x / 10 := Nat.mod_eq_of_lt (by omega)
    rw [hi, Nat.mod_eq_of_lt hb]
  rw [he]
  omega

/-- What `replacementFees` answers when it does not refuse. -/
theorem replacementFees_spec {tier : JsonObject} {floorFee floorTip : String}
    (h : (replacementFees tier floorFee floorTip).error.isEmpty = true) :
    ∃ fee tip oldFee oldTip, weiOf (tier.value "maxFeePerGas") = some fee ∧
      weiOf (tier.value "maxPriorityFeePerGas") = some tip ∧
      toULongLong floorFee = some oldFee ∧ toULongLong floorTip = some oldTip ∧
      oldFee ≤ kMaxBumpable ∧ oldTip ≤ kMaxBumpable ∧
      replacementFees tier floorFee floorTip =
        { maxFeePerGas := number (max (max fee (bump oldFee)) (max tip (bump oldTip)))
          maxPriorityFeePerGas := number (max tip (bump oldTip)) } := by
  unfold replacementFees at h ⊢
  split at h
  · split at h
    · split at h
      · exact absurd h (by decide)
      · rename_i fee tip hf ht _ _ oldFee oldTip hof hot hle
        simp only [Bool.or_eq_true, decide_eq_true_eq, not_or, Nat.not_lt] at hle
        refine ⟨fee, tip, oldFee, oldTip, hf, ht, hof, hot, hle.1, hle.2, ?_⟩
        rw [if_neg]
        simpa using hle
    · exact absurd h (by decide)
  · exact absurd h (by decide)

/-! ## The entries -/

theorem carry_value {newest e : JsonObject} {k l : String} (h : l ≠ k) :
    (carry newest e k).value l = e.value l := by
  simp only [carry]
  split
  · rfl
  · exact JsonObject.value_insert_ne _ _ h

theorem describe_value {newest e : JsonObject} {l : String}
    (h : l ∉ ["why", "since", "hash", "label", "origin"]) :
    (describe e newest).value l = e.value l := by
  simp only [List.mem_cons, not_or] at h
  obtain ⟨hw, hs, hh, hl, ho, -⟩ := h
  simp only [describe, List.foldl_cons, List.foldl_nil]
  rw [carry_value ho, carry_value hl, carry_value hh, JsonObject.value_insert_ne _ _ hs,
    JsonObject.value_insert_ne _ _ hw]

/-- An entry that carries a resend carries the newest attempt's transfer and the floor. -/
theorem withResend_spec {e newest : JsonObject} {c n0 : Int} {floor : Floor}
    (hr : e.value "resend" = none)
    (h : ((withResend e newest c n0 floor).value "resend").toObject.isEmpty = false) :
    (transferOf newest).isEmpty = false ∧ floor.feesKnown = true ∧
      (withResend e newest c n0 floor).value "floorMaxFeePerGas" =
        some (.str (number floor.floorFee)) ∧
      (withResend e newest c n0 floor).value "floorMaxPriorityFeePerGas" =
        some (.str (number floor.floorTip)) ∧
      (withResend e newest c n0 floor).value "resend" =
        some (.obj ((((transferOf newest).insert "chainId" (.int c)).insert
          "from" (.str (newest.value "from").toString)).insert "nonce" (.int n0))) := by
  simp only [withResend] at h ⊢
  split at h
  · rename_i hc
    simp only [Bool.and_eq_true, Bool.not_eq_true'] at hc
    rw [if_pos (by simpa using hc)]
    simp [JsonObject.value_insert, hc.1, hc.2]
  · rw [hr] at h
    cases h

theorem withResend_value {e newest : JsonObject} {c n0 : Int} {floor : Floor} {l : String}
    (h : l ∉ ["resend", "floorMaxFeePerGas", "floorMaxPriorityFeePerGas"]) :
    (withResend e newest c n0 floor).value l = e.value l := by
  simp only [List.mem_cons, not_or] at h
  obtain ⟨hr, hf, ht, -⟩ := h
  simp only [withResend]
  split
  · rw [JsonObject.value_insert_ne _ _ ht, JsonObject.value_insert_ne _ _ hf,
      JsonObject.value_insert_ne _ _ hr]
  · rfl

/-- One chain's entry: its chain, the lowest nonce waiting there, and, when it carries a resend,
the attempts at that nonce. -/
theorem blockedEntry_spec {rows stranded : JsonArray} {now c : Int} {e : JsonObject}
    (h : blockedEntry rows stranded now c = some e) :
    ∃ n0, e.value "chainId" = some (.int c) ∧ e.value "nonce" = some (.int n0) ∧
      (∀ n r, Waits rows c n r → n0 ≤ n) ∧ (∀ n, Stranded rows stranded c n → n0 ≤ n) ∧
      ((e.value "resend").toObject.isEmpty = false →
        ∃ first rest, (∀ r, Waits rows c n0 r ↔ r ∈ first :: rest) ∧
          ∃ e₀, e₀.value "resend" = none ∧ e = withResend e₀ (newestOf first (first :: rest)) c n0
            ((first :: rest).foldl Floor.raise {})) := by
  unfold blockedEntry at h
  simp only at h
  split at h
  · cases h
  · rename_i n0 hmin
    have hle : ∀ n ∈ gaps rows stranded c ++ (waiting rows c).map Prod.fst, n0 ≤ n :=
      (List.min?_eq_some_iff.mp hmin).2
    have hlow : ∀ n r, Waits rows c n r → n0 ≤ n := fun n r hw =>
      hle n (List.mem_append_right _ (List.mem_map.mpr ⟨(n, r), mem_waiting.mpr hw, rfl⟩))
    have hgap : ∀ n, Stranded rows stranded c n → n0 ≤ n := fun n hs =>
      hle n (List.mem_append_left _ (mem_gaps.mpr hs))
    have hmem : ∀ r, Waits rows c n0 r ↔
        r ∈ ((waiting rows c).filter fun w => w.1 == n0).map Prod.snd := by
      intro r
      rw [← mem_waiting, List.mem_map]
      constructor
      · intro hw
        exact ⟨(n0, r), List.mem_filter.mpr ⟨hw, by simp⟩, rfl⟩
      · rintro ⟨⟨n, r'⟩, hw, rfl⟩
        obtain ⟨hw, hn⟩ := List.mem_filter.mp hw
        simp only [beq_iff_eq] at hn
        exact hn ▸ hw
    generalize hlater : ((waiting rows c).filter fun w => n0 < w.1).map Prod.snd = later at h
    generalize hatt : ((waiting rows c).filter fun w => w.1 == n0).map Prod.snd = attempts
      at h hmem
    cases attempts with
    | nil =>
      simp only [strandedEntry] at h
      split at h
      · cases h
      · cases h
        refine ⟨n0, ?_, ?_, hlow, hgap, ?_⟩ <;>
          simp [JsonObject.value_insert, JsonObject.value_cons, JsonValue.toObject]
    | cons first rest =>
      simp only [attemptEntry] at h
      split at h
      · cases h
      · cases h
        refine ⟨n0, ?_, ?_, hlow, hgap, fun _ => ⟨first, rest, hmem, _, ?_, rfl⟩⟩
        · rw [withResend_value (by decide), describe_value (by decide)]
          rfl
        · rw [withResend_value (by decide), describe_value (by decide)]
          rfl
        · rw [describe_value (by decide)]
          rfl

/-! ## The claim of the resend -/

/-- The request a blocked entry is resent with, at the current fees of `tier`. -/
def pricedResend (tier entry : JsonObject) : JsonObject :=
  resendRequest entry (replacementFees tier (entry.value "floorMaxFeePerGas").toString
    (entry.value "floorMaxPriorityFeePerGas").toString)

/-- The fees `fee` and `tip` replace the attempt `r` on any node: more than its own, and at least
10% more, on both fields. -/
def Outbids (fee tip : Nat) (r : JsonObject) : Prop :=
  ∃ oldFee oldTip, weiOf (r.value "maxFeePerGas") = some oldFee ∧
    weiOf (r.value "maxPriorityFeePerGas") = some oldTip ∧
    oldFee < fee ∧ 11 * oldFee ≤ 10 * fee ∧ oldTip < tip ∧ 11 * oldTip ≤ 10 * tip

/-- `request` is the transfer of the newest attempt at the lowest nonce `n0` that still waits on
chain `c`, at fees that replace every attempt there. -/
structure Replaces (rows stranded : JsonArray) (tier request : JsonObject) (c n0 : Int)
    (newest : JsonObject) : Prop where
  chain : request.value "chainId" = some (.int c)
  nonce : request.value "nonce" = some (.int n0)
  lowest : ∀ n, (∃ r, Waits rows c n r) ∨ Stranded rows stranded c n → n0 ≤ n
  attempt : Waits rows c n0 newest
  isNewest : ∀ r, Waits rows c n0 r → rowTimestamp r ≤ rowTimestamp newest
  sender : request.value "from" = some (.str (newest.value "from").toString)
  recipient : request.value "to" =
    some (.str (((newest.value "meta").toObject).value "recipient").toString)
  amount : request.value "amount" =
    some (.str (((newest.value "meta").toObject).value "amount").toString)
  token : ((((newest.value "meta").toObject).value "kind").toString = "native" ∧
      request.value "tokenAddress" = none) ∨
    ((((newest.value "meta").toObject).value "kind").toString = "erc20" ∧
      request.value "tokenAddress" =
        some (.str (((newest.value "meta").toObject).value "token").toString))
  fees : ∃ fee tip tierFee tierTip,
    toULongLong (request.value "maxFeePerGas").toString = some fee ∧
    toULongLong (request.value "maxPriorityFeePerGas").toString = some tip ∧
    weiOf (tier.value "maxFeePerGas") = some tierFee ∧
    weiOf (tier.value "maxPriorityFeePerGas") = some tierTip ∧
    tip ≤ fee ∧ tierFee ≤ fee ∧ tierTip ≤ tip ∧
    ∀ r, Waits rows c n0 r → Outbids fee tip r

/-- No step of the bump of a floor leaves 64 bits. -/
def NoWrap (floor : JsonValue) : Prop :=
  ∃ x, toULongLong floor.toString = some x ∧ x + x / 10 + 1 < 2 ^ 64

theorem resendRequest_empty {entry : JsonObject} {fees : ReplacementFees}
    (h : (entry.value "resend").toObject.isEmpty = true ∨ fees.error.isEmpty = false) :
    resendRequest entry fees = [] := by
  simp only [resendRequest]
  rw [if_pos]
  rcases h with h | h <;> simp [h]

theorem resendRequest_value {entry : JsonObject} {fees : ReplacementFees}
    (hr : (entry.value "resend").toObject.isEmpty = false) (he : fees.error.isEmpty = true)
    (l : String) :
    (resendRequest entry fees).value l =
      if l = "maxPriorityFeePerGas" then some (.str fees.maxPriorityFeePerGas)
      else if l = "maxFeePerGas" then some (.str fees.maxFeePerGas)
      else (entry.value "resend").toObject.value l := by
  simp only [resendRequest]
  rw [if_neg (by simp [hr, he]), JsonObject.value_insert, JsonObject.value_insert]

/-- An attempt under a bumpable floor is outbid by the bump of the floor. -/
theorem outbids_of_le {r : JsonObject} {f t oldFee oldTip fee tip : Nat}
    (hf : weiOf (r.value "maxFeePerGas") = some f)
    (ht : weiOf (r.value "maxPriorityFeePerGas") = some t)
    (hfo : f ≤ oldFee) (hto : t ≤ oldTip)
    (hof : oldFee ≤ kMaxBumpable) (hot : oldTip ≤ kMaxBumpable)
    (hfee : bump oldFee ≤ fee) (htip : bump oldTip ≤ tip) : Outbids fee tip r := by
  obtain ⟨-, -, hf₁, hf₂⟩ := bump_spec hof
  obtain ⟨-, -, ht₁, ht₂⟩ := bump_spec hot
  exact ⟨f, t, hf, ht, by omega, by omega, by omega, by omega⟩

theorem noWrap_of_str {v : JsonValue} {s : String} {x : Nat} (hv : v = some (.str s))
    (hx : toULongLong s = some x) (hle : x ≤ kMaxBumpable) : NoWrap v :=
  ⟨x, by rw [hv]; exact hx, (bump_spec hle).1⟩

/-- A request that is produced replaces every attempt, and its bumps do not wrap. -/
theorem pricedResend_replaces {rows stranded : JsonArray} {c n0 : Int}
    {tier e₀ first : JsonObject} {rest : List JsonObject} (he₀ : e₀.value "resend" = none)
    (hlow : ∀ n r, Waits rows c n r → n0 ≤ n) (hgap : ∀ n, Stranded rows stranded c n → n0 ≤ n)
    (hmem : ∀ r, Waits rows c n0 r ↔ r ∈ first :: rest)
    {entry : JsonObject}
    (hentry : entry = withResend e₀ (newestOf first (first :: rest)) c n0
      ((first :: rest).foldl Floor.raise {}))
    (hsome : (entry.value "resend").toObject.isEmpty = false)
    (hok : (replacementFees tier (entry.value "floorMaxFeePerGas").toString
      (entry.value "floorMaxPriorityFeePerGas").toString).error.isEmpty = true) :
    Replaces rows stranded tier (pricedResend tier entry) c n0 (newestOf first (first :: rest)) ∧
      NoWrap (entry.value "floorMaxFeePerGas") ∧
      NoWrap (entry.value "floorMaxPriorityFeePerGas") := by
  obtain ⟨htr, hknown, hff, hft, hres⟩ :=
    @withResend_spec _ _ c n0 _ he₀ (hentry ▸ hsome)
  rw [← hentry] at hff hft hres
  obtain ⟨tierFee, tierTip, oldFee, oldTip, hfee, htip, hof, hot, hlf, hlt, hfees⟩ :=
    replacementFees_spec hok
  have hof' : toULongLong (number ((first :: rest).foldl Floor.raise {}).floorFee) =
      some oldFee := by
    rw [hff] at hof
    exact hof
  have hot' : toULongLong (number ((first :: rest).foldl Floor.raise {}).floorTip) =
      some oldTip := by
    rw [hft] at hot
    exact hot
  have hFloor := eq_of_toULongLong_number hof'
  have hTip := eq_of_toULongLong_number hot'
  have hvalue : ∀ l, (pricedResend tier entry).value l = _ := resendRequest_value hsome hok
  simp only [hfees, hres, JsonValue.toObject] at hvalue
  obtain ⟨hmeta, hamount, hkind⟩ := transferOf_spec htr
  obtain ⟨hnew, -, hnewest⟩ := newestOf_spec first (first :: rest)
  have hbf := bump_spec hlf
  have hbt := bump_spec hlt
  have hlt₁ : tierFee < 2 ^ 64 := toULongLong_lt hfee
  have hlt₂ : tierTip < 2 ^ 64 := toULongLong_lt htip
  refine ⟨⟨?chain, ?nonce, ?lowest, ?attempt, ?isNewest, ?sender, ?recipient, ?amount, ?token,
    ?fees⟩, noWrap_of_str hff hof' hlf, noWrap_of_str hft hot' hlt⟩
  case chain => simp [hvalue, JsonObject.value_insert_ne]
  case nonce => simp [hvalue]
  case lowest =>
    rintro n (⟨r, hr⟩ | hs)
    · exact hlow n r hr
    · exact hgap n hs
  case attempt =>
    rw [hmem]
    rcases hnew with h | h
    · rw [h]
      exact List.mem_cons_self
    · exact h
  case isNewest => exact fun r hr => hnewest r ((hmem r).mp hr)
  case sender => simp [hvalue, JsonObject.value_insert]
  case recipient => simp [hvalue, JsonObject.value_insert, hmeta]
  case amount => simp [hvalue, JsonObject.value_insert, hamount]
  case token =>
    exact hkind.imp (fun h => ⟨h.1, by simp [hvalue, JsonObject.value_insert, h.2]⟩)
      (fun h => ⟨h.1, by simp [hvalue, JsonObject.value_insert, h.2]⟩)
  case fees =>
    obtain ⟨-, -, -, hall⟩ := floor_raise hknown
    rw [hFloor, hTip] at hall
    have hfeeLt : max (max tierFee (bump oldFee)) (max tierTip (bump oldTip)) < 2 ^ 64 := by omega
    have htipLt : max tierTip (bump oldTip) < 2 ^ 64 := by omega
    refine ⟨max (max tierFee (bump oldFee)) (max tierTip (bump oldTip)), max tierTip (bump oldTip),
      tierFee, tierTip, ?_, ?_, hfee, htip, by omega, by omega, by omega, fun r hr => ?_⟩
    · rw [hvalue, if_neg (by decide), if_pos rfl]
      exact toULongLong_number hfeeLt
    · rw [hvalue, if_pos rfl]
      exact toULongLong_number htipLt
    · obtain ⟨f, t, hf, ht, hfo, hto⟩ := hall r ((hmem r).mp hr)
      exact outbids_of_le hf ht hfo hto hlf hlt (by omega) (by omega)

/-- Every entry names its chain and its nonce; the request it is resent with, if there is one,
replaces every attempt that waits there, and there is none if any of their fees is unreadable. -/
theorem blockedNonces_resend (rows stranded : JsonArray) (now : Int) (tier entry : JsonObject)
    (h : .obj entry ∈ blockedNonces rows stranded now) :
    ∃ c n0, entry.value "chainId" = some (.int c) ∧ entry.value "nonce" = some (.int n0) ∧
      (pricedResend tier entry ≠ [] →
        (∃ newest, Replaces rows stranded tier (pricedResend tier entry) c n0 newest) ∧
        NoWrap (entry.value "floorMaxFeePerGas") ∧
        NoWrap (entry.value "floorMaxPriorityFeePerGas")) ∧
      ((∃ r, Waits rows c n0 r ∧ (weiOf (r.value "maxFeePerGas") = none ∨
        weiOf (r.value "maxPriorityFeePerGas") = none)) → pricedResend tier entry = []) := by
  obtain ⟨e, he, hee⟩ := List.mem_map.mp h
  cases hee
  obtain ⟨c, -, hc⟩ := List.mem_filterMap.mp he
  obtain ⟨n0, hchain, hnonce, hlow, hgap, hresend⟩ := blockedEntry_spec hc
  have hs : pricedResend tier entry ≠ [] →
      (∃ newest, Replaces rows stranded tier (pricedResend tier entry) c n0 newest) ∧
        NoWrap (entry.value "floorMaxFeePerGas") ∧
        NoWrap (entry.value "floorMaxPriorityFeePerGas") := by
    intro hne
    have hsome : (entry.value "resend").toObject.isEmpty = false := by
      by_contra hx
      exact hne (resendRequest_empty (.inl (by simpa using hx)))
    have hok : (replacementFees tier (entry.value "floorMaxFeePerGas").toString
        (entry.value "floorMaxPriorityFeePerGas").toString).error.isEmpty = true := by
      by_contra hx
      exact hne (resendRequest_empty (.inr (by simpa using hx)))
    obtain ⟨first, rest, hmem, e₀, he₀, hentry⟩ := hresend hsome
    obtain ⟨hrep, hnw⟩ := pricedResend_replaces he₀ hlow hgap hmem hentry hsome hok
    exact ⟨⟨_, hrep⟩, hnw⟩
  refine ⟨c, n0, hchain, hnonce, hs, ?_⟩
  rintro ⟨r, hr, hbad⟩
  by_contra hne
  obtain ⟨⟨newest, hrep⟩, -⟩ := hs hne
  obtain ⟨fee, tip, -, -, -, -, -, -, -, -, -, hall⟩ := hrep.fees
  obtain ⟨f, t, hf, ht, -⟩ := hall r hr
  rcases hbad with hbad | hbad
  · rw [hbad] at hf; cases hf
  · rw [hbad] at ht; cases ht

/-- A transfer at nonce 7 with a second attempt, and a send that waits behind it at nonce 8. -/
def stuckRows : JsonArray :=
  let transfer : Json := .obj [("kind", .str "native"), ("recipient", .str "0xB0B"),
    ("amount", .str "5")]
  [.obj [("chainId", .int 1), ("nonce", .int 7), ("status", .str "pending"),
     ("timestamp", .int 100), ("from", .str "0xA11CE"), ("maxFeePerGas", .str "100"),
     ("maxPriorityFeePerGas", .str "3"), ("meta", transfer)],
   .obj [("chainId", .int 1), ("nonce", .int 7), ("status", .str "pending"),
     ("timestamp", .int 200), ("from", .str "0xA11CE"), ("maxFeePerGas", .str "90"),
     ("maxPriorityFeePerGas", .str "9"), ("meta", transfer)],
   .obj [("chainId", .int 1), ("nonce", .int 8), ("status", .str "pending"),
     ("timestamp", .int 300)]]

/-- The entry of `stuckRows` at 1000 s. -/
def stuckEntry : JsonObject :=
  [("chainId", .int 1), ("nonce", .int 7), ("behind", .int 1), ("why", .str "pending"),
    ("since", .int 200),
    ("resend", .obj [("to", .str "0xB0B"), ("amount", .str "5"), ("chainId", .int 1),
      ("from", .str "0xA11CE"), ("nonce", .int 7)]),
    ("floorMaxFeePerGas", .str "100"), ("floorMaxPriorityFeePerGas", .str "9")]

def stuckTier : JsonObject :=
  [("maxFeePerGas", .str "50"), ("maxPriorityFeePerGas", .str "2")]

theorem blockedNonces_resend_stuck :
    pricedResend stuckTier stuckEntry ≠ [] ∧
    ∃ c n0, stuckEntry.value "chainId" = some (.int c) ∧
      stuckEntry.value "nonce" = some (.int n0) ∧
      (pricedResend stuckTier stuckEntry ≠ [] →
        (∃ newest, Replaces stuckRows [] stuckTier (pricedResend stuckTier stuckEntry) c n0
          newest) ∧
        NoWrap (stuckEntry.value "floorMaxFeePerGas") ∧
        NoWrap (stuckEntry.value "floorMaxPriorityFeePerGas")) ∧
      ((∃ r, Waits stuckRows c n0 r ∧ (weiOf (r.value "maxFeePerGas") = none ∨
        weiOf (r.value "maxPriorityFeePerGas") = none)) →
        pricedResend stuckTier stuckEntry = []) :=
  ⟨by decide +kernel,
    blockedNonces_resend stuckRows [] 1000 stuckTier stuckEntry (by decide +kernel)⟩

end EthWalletUi
