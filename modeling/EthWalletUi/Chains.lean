import EthWalletUi.Replaced
import EthWalletUi.Apply

/-!
# Chain ids past 32 bits

A chain id is read with `toInt`, which answers 0 for one that does not fit, and 0 is the selection
without a network.

* `repliesApart_iff`, `rowsApart_iff`, `chooseChain_iff`: when replies, rows and the choice of a
  network tell two ids apart.
* `chains_distinct_iff`: the three together.
-/

namespace EthWalletUi

open Qt

/-- An ok reply that names `a` is not taken for a selection on `b`, or for one without a network. -/
def RepliesApart (a b : Int) : Prop :=
  ∀ reply shown, replyOk reply = true → Names ((parseObject reply).value "chainId") a →
    (shown.chainId = 0 ∨ ∃ account network, shown = selectionOf account network ∧
      Names ((parseObject network).value "chainId") b) →
    answersFor reply shown = false

/-- A row mined on `a` does not decide whether a row on `b` is marked or waits. -/
def RowsApart (a b : Int) : Prop :=
  ∀ before m after, rowMined (asObject m) = true → Names ((asObject m).value "chainId") a →
    ∀ v ∈ before ++ after, Names ((asObject v).value "chainId") b →
      markRow (before ++ m :: after) v = markRow (before ++ after) v ∧
      ∀ n, (n, asObject v) ∈ waiting (before ++ m :: after) (rowChain (asObject v)) ↔
        (n, asObject v) ∈ waiting (before ++ after) (rowChain (asObject v))

/-- The choice is a row's id. -/
def Chooses (networks : JsonArray) (current : Int) : Prop :=
  (∃ v ∈ networks, Names ((asObject v).value "chainId") (chooseChain networks current)) ∧
    chooseChain networks current ≠ 0

/-- A network whose id fits 32 bits. -/
def Fits (v : Json) : Prop :=
  ∃ a, Names ((asObject v).value "chainId") a ∧ inInt32 a = true

/-! ## Replies -/

section

variable {a b : Int}

/-- An ok reply naming an id that does not fit, and nothing else. -/
def chainReply (a : Int) : Text := toJsonCompact [("ok", .bool true), ("chainId", .int a)]

theorem repliesApart_iff (ha : 0 < a) (hne : a ≠ b) : RepliesApart a b ↔ inInt32 a = true := by
  constructor
  · intro h
    by_contra hfits
    have := h (chainReply a) {} rfl (.inl rfl) (.inl rfl)
    simp [chainReply, answersFor, replyScope, toJsonCompact, parseObject, ReplyScope.agreesWith,
      ReplyScope.names, JsonObject.value_cons, JsonValue.isDouble, JsonValue.toInt,
      JsonValue.isString, hfits] at this
  · intro hfits reply shown hok hnames hshown
    have hread : (replyScope (parseObject reply)).chainId = a := by
      simp only [replyScope, hnames.isDouble, if_true]
      rw [hnames.toInt, if_pos hfits]
    have hother : shown.chainId ≠ a := by
      rcases hshown with h0 | ⟨account, network, rfl, hb⟩
      · rw [h0]
        exact ha.ne
      · have hb' := hb.toInt
        simp only [selectionOf]
        rw [hb']
        split
        · exact hne.symm
        · exact ha.ne
    cases hans : answersFor reply shown with
    | false => rfl
    | true =>
      have hagree := chainAgrees_of_answersFor hans
      simp only [chainAgrees, hread, Bool.or_eq_true, Bool.not_eq_true', beq_iff_eq] at hagree
      rcases hagree with h | h
      · rw [replyScope, hnames.isDouble] at h
        cases h
      · exact absurd h.symm hother

/-! ## Rows -/

/-- A row mined elsewhere is not seen. -/
theorem flagged_insert {before after : JsonArray} {m v : Json}
    (h : rowChain (asObject m) ≠ rowChain (asObject v)) :
    Flagged (before ++ m :: after) (asObject v) ↔ Flagged (before ++ after) (asObject v) := by
  unfold Flagged Reading.Flagged
  simp only [overtaken_iff]
  refine or_congr_right (and_congr_right fun _ => exists_congr fun n => and_congr_right fun _ => ?_)
  constructor
  · rintro ⟨x, hx, hmined, hc, hn⟩
    refine ⟨x, ?_, hmined, hc, hn⟩
    rcases List.mem_append.mp hx with hx | hx
    · exact List.mem_append_left _ hx
    · rcases List.mem_cons.mp hx with rfl | hx
      · exact absurd hc h
      · exact List.mem_append_right _ hx
  · rintro ⟨x, hx, hmined, hc, hn⟩
    refine ⟨x, ?_, hmined, hc, hn⟩
    rcases List.mem_append.mp hx with hx | hx
    · exact List.mem_append_left _ hx
    · exact List.mem_append_right _ (List.mem_cons_of_mem _ hx)

theorem minedUpTo_insert {before after : JsonArray} {m : Json} {c : Int}
    (h : rowChain (asObject m) ≠ c) :
    minedUpTo (before ++ m :: after) c = minedUpTo (before ++ after) c := by
  have hstep : ∀ k, minedStep c k m = k := by
    intro k
    simp only [minedStep]
    cases nonceOf (asObject m) with
    | none => rfl
    | some n => simp [h]
  unfold minedUpTo
  rw [List.foldl_append, List.foldl_cons, hstep, ← List.foldl_append]

theorem waiting_insert {before after : JsonArray} {m : Json} {c : Int}
    (h : rowChain (asObject m) ≠ c) :
    waiting (before ++ m :: after) c = waiting (before ++ after) c := by
  unfold waiting
  rw [minedUpTo_insert h, List.filterMap_append, List.filterMap_append, List.filterMap_cons_none]
  cases hn : nonceOf (asObject m) with
  | none => simp [hn]
  | some n => simp [hn, h]

theorem rowsApart_iff (ha : 0 < a) (hb : 0 < b) (hne : a ≠ b) :
    RowsApart a b ↔ inInt32 a = true ∨ inInt32 b = true := by
  constructor
  · intro h
    by_contra hfits
    rw [not_or] at hfits
    have hnot : ¬Flagged [rowOn b "pending"] (asObject (rowOn b "pending")) := by
      rintro (hs | ⟨-, -, -, -, v, hv, hmined, -⟩)
      · exact absurd hs (by simp [rowOn, asObject, JsonValue.toObject, JsonObject.value_cons,
          JsonValue.toString])
      · rw [List.mem_singleton.mp hv] at hmined
        exact absurd hmined (by simp [rowOn, rowMined, asObject, JsonValue.toObject,
          JsonObject.value_cons, JsonValue.toString])
    have hflagged : Flagged [rowOn b "pending", rowOn a "confirmed"]
        (asObject (rowOn b "pending")) := by
      refine .inr ⟨by simp [rowOn, rowWaiting, asObject, JsonValue.toObject,
        JsonObject.value_cons, JsonValue.toString, JsonValue.toBool],
        overtaken_iff.mpr ⟨0, rfl, rowOn a "confirmed", by simp, ?_, ?_, rfl⟩⟩
      · simp [rowOn, rowMined, asObject, JsonValue.toObject, JsonObject.value_cons,
          JsonValue.toString]
      · simp [rowOn, rowChain, asObject, JsonValue.toObject, JsonObject.value_cons,
          JsonValue.toInt, hfits.1, hfits.2]
    have hsame := (h [rowOn b "pending"] (rowOn a "confirmed") [] (by
      simp [rowOn, rowMined, asObject, JsonValue.toObject, JsonObject.value_cons,
        JsonValue.toString]) (.inl rfl) (rowOn b "pending") (by simp) (.inl rfl)).1
    rw [List.append_nil, markRow_of_not_flagged hnot, List.singleton_append,
      markRow_of_flagged hflagged] at hsame
    have := congrArg (fun v => (asObject v).value "replaced") hsame
    simp [asObject, JsonValue.toObject, rowOn, JsonObject.value_cons] at this
  · intro hfits before m after hmined hm v hv hnames
    have hchain : rowChain (asObject m) ≠ rowChain (asObject v) :=
      hm.toInt_ne hnames hne ha hb hfits
    exact ⟨markRow_congr (flagged_insert hchain), fun n => by rw [waiting_insert hchain]⟩

end

/-! ## The choice of a network -/

theorem Fits.of_names {v : Json} {a : Int} (h : Names ((asObject v).value "chainId") a) :
    Fits v ↔ inInt32 a = true := by
  constructor
  · rintro ⟨b, hb, hfits⟩
    rwa [h.unique hb]
  · intro hfits
    exact ⟨a, h, hfits⟩

/-- A network whose id does not fit is read as none. -/
theorem toInt_of_not_fits {v : Json} {a : Int} (h : Names ((asObject v).value "chainId") a)
    (hfits : ¬Fits v) : ((asObject v).value "chainId").toInt = 0 := by
  rw [h.toInt, if_neg fun hf => hfits ((Fits.of_names h).mpr hf)]

/-- The choice is a row's id exactly if the current one is, or the first fits and, without a current
network, so do the others. -/
theorem chooseChain_iff {first : Json} {rest : JsonArray} {current : Int}
    (hnames : ∀ v ∈ first :: rest, ∃ a, 0 < a ∧ Names ((asObject v).value "chainId") a)
    (hcurrent : inInt32 current = true) :
    Chooses (first :: rest) current ↔
      (∃ v ∈ first :: rest, Names ((asObject v).value "chainId") current) ∨
        Fits first ∧ (current = 0 → ∀ v ∈ first :: rest, Fits v) := by
  obtain ⟨a, ha, hfirst⟩ := hnames first (List.mem_cons_self ..)
  cases hany : (first :: rest).any fun v => ((asObject v).value "chainId").toInt == current with
  | true =>
    have hchoice : chooseChain (first :: rest) current = current := by
      unfold chooseChain
      rw [hany]
      rfl
    obtain ⟨v, hv, hread⟩ := List.any_eq_true.mp hany
    rw [beq_iff_eq] at hread
    unfold Chooses
    rw [hchoice]
    constructor
    · exact fun h => .inl h.1
    · rintro (h | ⟨-, hall⟩)
      · obtain ⟨w, hw, hcur⟩ := h
        obtain ⟨b, hb, hwb⟩ := hnames w hw
        exact ⟨⟨w, hw, hcur⟩, by rw [hcur.unique hwb]; exact hb.ne'⟩
      · obtain ⟨b, hb, hvb⟩ := hnames v hv
        -- The row that reads as the current id fits, so it names it.
        have hfits : Fits v := by
          by_contra hfits
          exact hfits (hall (hread.symm.trans (toInt_of_not_fits hvb hfits)) v hv)
        have hcur : b = current := by
          rw [← hread, hvb.toInt, if_pos ((Fits.of_names hvb).mp hfits)]
        subst hcur
        exact ⟨⟨v, hv, hvb⟩, hb.ne'⟩
  | false =>
    have hchoice : chooseChain (first :: rest) current =
        ((asObject first).value "chainId").toInt := by
      unfold chooseChain
      rw [hany]
      rfl
    have hread : ∀ v ∈ first :: rest, ((asObject v).value "chainId").toInt ≠ current := by
      intro v hv heq
      rw [List.any_eq_false] at hany
      exact hany v hv (beq_iff_eq.mpr heq)
    have hnot : ¬∃ v ∈ first :: rest, Names ((asObject v).value "chainId") current := by
      rintro ⟨v, hv, hcur⟩
      exact hread v hv (by rw [hcur.toInt, if_pos hcurrent])
    have hall : current = 0 → ∀ v ∈ first :: rest, Fits v := by
      rintro rfl v hv
      obtain ⟨b, -, hvb⟩ := hnames v hv
      by_contra hfits
      exact hread v hv (toInt_of_not_fits hvb hfits)
    rw [or_iff_right hnot, and_iff_left hall]
    unfold Chooses
    rw [hchoice]
    constructor
    · rintro ⟨-, hne⟩
      by_contra hfits
      exact hne (toInt_of_not_fits hfirst hfits)
    · intro hfits
      have hown : ((asObject first).value "chainId").toInt = a := by
        rw [hfirst.toInt, if_pos ((Fits.of_names hfirst).mp hfits)]
      rw [hown]
      exact ⟨⟨first, List.mem_cons_self .., hfirst⟩, ha.ne'⟩

/-- Two ids are told apart in replies exactly if the one named fits 32 bits, in rows exactly if one
of them does; the choice of a network is one of the networks exactly if the current one is, or the
first fits and, without a current network, so do the others. -/
theorem chains_distinct_iff (a b : Int) (first : Json) (rest : JsonArray) (current : Int) :
    (0 < a → 0 < b → a ≠ b →
      (RepliesApart a b ↔ inInt32 a = true) ∧
      (RowsApart a b ↔ inInt32 a = true ∨ inInt32 b = true)) ∧
    ((∀ v ∈ first :: rest, ∃ c, 0 < c ∧ Names ((asObject v).value "chainId") c) →
      inInt32 current = true →
      (Chooses (first :: rest) current ↔
        (∃ v ∈ first :: rest, Names ((asObject v).value "chainId") current) ∨
          Fits first ∧ (current = 0 → ∀ v ∈ first :: rest, Fits v))) :=
  ⟨fun ha hb hne => ⟨repliesApart_iff ha hne, rowsApart_iff ha hb hne⟩, chooseChain_iff⟩

theorem chains_distinct_iff_large :
    RowsApart 1 2147483648 ∧ ¬RepliesApart 2147483648 1 ∧ Chooses [rowOn 1 ""] 1 := by
  refine ⟨?_, ?_, ?_⟩
  · exact ((chains_distinct_iff 1 2147483648 (rowOn 1 "") [] 0).1 (by decide) (by decide)
      (by decide)).2.mpr (.inl (by decide))
  · intro h
    exact absurd (((chains_distinct_iff 2147483648 1 (rowOn 1 "") [] 0).1 (by decide) (by decide)
      (by decide)).1.mp h) (by decide)
  · refine ((chains_distinct_iff 1 2 (rowOn 1 "") [] 1).2 (fun v hv => ?_) (by decide)).mpr
      (.inl ⟨_, List.mem_cons_self .., .inl rfl⟩)
    obtain rfl := List.mem_singleton.mp hv
    exact ⟨1, by decide, .inl rfl⟩

/-- Past 32 bits: a reply about 2147483648 is taken for a selection without a network, a row mined
on it marks a row on 2147483649, and it is chosen as no network at all. -/
theorem chains_collide :
    answersFor (chainReply 2147483648) {} = true ∧
      markReplaced [rowOn 2147483649 "pending", rowOn 2147483648 "confirmed"] ≠
        [rowOn 2147483649 "pending", rowOn 2147483648 "confirmed"] ∧
      waiting [rowOn 2147483649 "pending", rowOn 2147483648 "confirmed"] 0 ≠
        waiting [rowOn 2147483649 "pending"] 0 ∧
      chooseChain [rowOn 2147483648 ""] 0 = 0 := by
  decide +kernel

end EthWalletUi
