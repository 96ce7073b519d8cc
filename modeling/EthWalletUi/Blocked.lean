import EthWalletUi.Resend

/-!
# The nonce that holds a chain up

* `Reading.Lowest`: the lowest nonce of a chain at which a row waits or which is stranded;
  `Reading.behind`: how many nonces above it have rows waiting; `Reading.Latest`: the attempt that
  decides.
* `Reading.NamesBlockers`: every entry names the blocker of its chain, and a chain whose blocker has
  been attempted has an entry exactly if the latest attempt is old enough, and stalled or waited on.
* `blockedEntry_lowest`, `blockedEntry_isSome_iff`: one chain's turn of the loop, as the code reads
  the rows.
* `Agrees`, `blockedNonces_names`: the report is right about the rows themselves exactly if the two
  readings agree on what blocks; they do where the rows are legible.
-/

namespace EthWalletUi

open Qt

/-! ## What blocks a chain -/

namespace Reading

variable (R : Reading)

/-- `n0` is the lowest nonce of the chain at which a row waits or which is stranded. -/
structure Lowest (rows stranded : JsonArray) (c n0 : Int) : Prop where
  there : (∃ r, R.Waits rows c n0 r) ∨ R.Stranded rows stranded c n0
  le : ∀ n, (∃ r, R.Waits rows c n r) ∨ R.Stranded rows stranded c n → n0 ≤ n

/-- How many distinct nonces above `n0` have rows waiting. -/
noncomputable def behind (rows : JsonArray) (c n0 : Int) : Nat :=
  {n | n0 < n ∧ ∃ r, R.Waits rows c n r}.ncard

/-- The attempt at `n0` with the greatest time, the first listed among equals. -/
structure Latest (rows : JsonArray) (c n0 : Int) (r : JsonObject) : Prop where
  waits : R.Waits rows c n0 r
  newest : ∀ x, R.Waits rows c n0 x → R.time x ≤ R.time r
  first : ∃ before v after, rows = before ++ v :: after ∧ asObject v = r ∧
    ∀ x ∈ before, R.Waits rows c n0 (asObject x) → R.time (asObject x) < R.time r

variable {R} {rows stranded : JsonArray} {c n0 : Int}

theorem Lowest.unique {n1 : Int} (h : R.Lowest rows stranded c n0)
    (h' : R.Lowest rows stranded c n1) : n0 = n1 :=
  le_antisymm (h.le n1 h'.there) (h'.le n0 h.there)

/-- Nothing at or past the lowest nonce has been mined. -/
theorem Lowest.unused (h : R.Lowest rows stranded c n0) : ∀ v ∈ rows,
    rowMined (asObject v) = true → ∀ m, R.place (asObject v) c m → m < n0 := by
  rcases h.there with ⟨r, hw⟩ | hs
  · exact hw.unmined
  · exact hs.unmined

/-- Among the rows of which something holds, one is the first of the latest. -/
theorem exists_first_latest {rows : JsonArray} {P : JsonObject → Prop}
    (h : ∃ v ∈ rows, P (asObject v)) : ∃ before v after, rows = before ++ v :: after ∧
      P (asObject v) ∧ (∀ x ∈ rows, P (asObject x) → R.time (asObject x) ≤ R.time (asObject v)) ∧
      ∀ x ∈ before, P (asObject x) → R.time (asObject x) < R.time (asObject v) := by
  induction rows with
  | nil =>
    obtain ⟨v, hv, -⟩ := h
    cases hv
  | cons w rows ih =>
    by_cases hrest : ∃ v ∈ rows, P (asObject v)
    · obtain ⟨before, v, after, rfl, hv, hle, hlt⟩ := ih hrest
      -- The row in front decides if none of the rest is later.
      by_cases hfirst : P (asObject w) ∧ R.time (asObject v) ≤ R.time (asObject w)
      · refine ⟨[], w, _, rfl, hfirst.1, fun x hx hPx => ?_, fun x hx => by cases hx⟩
        rcases List.mem_cons.mp hx with rfl | hx
        · exact le_refl _
        · exact (hle x hx hPx).trans hfirst.2
      · have hw : P (asObject w) → R.time (asObject w) < R.time (asObject v) := fun hPw =>
          not_le.mp fun hge => hfirst ⟨hPw, hge⟩
        refine ⟨w :: before, v, after, rfl, hv, fun x hx hPx => ?_, fun x hx hPx => ?_⟩
        · rcases List.mem_cons.mp hx with rfl | hx
          · exact (hw hPx).le
          · exact hle x hx hPx
        · rcases List.mem_cons.mp hx with rfl | hx
          · exact hw hPx
          · exact hlt x hx hPx
    · have hnone : ∀ x ∈ rows, ¬P (asObject x) := fun x hx hPx => hrest ⟨x, hx, hPx⟩
      obtain ⟨v, hv, hPv⟩ := h
      rcases List.mem_cons.mp hv with rfl | hv
      · refine ⟨[], v, rows, rfl, hPv, fun x hx hPx => ?_, fun x hx => by cases hx⟩
        rcases List.mem_cons.mp hx with rfl | hx
        · exact le_refl _
        · exact absurd hPx (hnone x hx)
      · exact absurd hPv (hnone v hv)

/-- An attempted nonce has an attempt that decides. -/
theorem exists_latest (h : ∃ r, R.Waits rows c n0 r) : ∃ r, R.Latest rows c n0 r := by
  obtain ⟨_, hr⟩ := h
  obtain ⟨w, hw, rfl⟩ := hr.recorded
  obtain ⟨before, v, after, heq, hv, hle, hlt⟩ :=
    exists_first_latest (R := R) (P := R.Waits rows c n0) ⟨w, hw, hr⟩
  refine ⟨asObject v, hv, fun x hx => ?_, before, v, after, heq, rfl, hlt⟩
  obtain ⟨y, hy, rfl⟩ := hx.recorded
  exact hle y hy hx

/-- And one only. -/
theorem Latest.unique {r r' : JsonObject} (h : R.Latest rows c n0 r) (h' : R.Latest rows c n0 r') :
    r = r' := by
  have hne : ∀ {a b : JsonObject} {v : Json} {before : JsonArray}, R.Latest rows c n0 a →
      R.Latest rows c n0 b → asObject v = a → v ∈ before →
      (∀ x ∈ before, R.Waits rows c n0 (asObject x) → R.time (asObject x) < R.time b) → False := by
    rintro a b v before ha hb rfl hv hbefore
    exact absurd (ha.newest b hb.waits) (not_le.mpr (hbefore v hv ha.waits))
  obtain ⟨before, v, after, heq, hv, hfirst⟩ := h.first
  obtain ⟨before', v', after', heq', hv', hfirst'⟩ := h'.first
  rcases List.append_eq_append_iff.mp (heq.symm.trans heq') with ⟨rest, hb, ht⟩ | ⟨rest, hb, ht⟩
  · cases rest with
    | nil => rw [← hv, ← hv', (List.cons.inj ht).1]
    | cons w rest =>
      have hw : v = w := (List.cons.inj ht).1
      exact (hne h h' hv (hb ▸ hw ▸ List.mem_append_right _ List.mem_cons_self) hfirst').elim
  · cases rest with
    | nil => rw [← hv, ← hv', (List.cons.inj ht).1]
    | cons w rest =>
      have hw : v' = w := (List.cons.inj ht).1
      exact (hne h' h hv' (hb ▸ hw ▸ List.mem_append_right _ List.mem_cons_self) hfirst).elim

end Reading

/-- What blocks a chain, as the code reads the rows. -/
abbrev Lowest : JsonArray → JsonArray → Int → Int → Prop := asRead.Lowest

/-- The attempt that decides, as the code reads the rows. -/
abbrev Latest : JsonArray → Int → Int → JsonObject → Prop := asRead.Latest

/-- Why an attempt waits. -/
def whyOf (r : JsonObject) : String :=
  if (r.value "status").toString == "unknown" then "unresolved"
  else if (r.value "stalled").toBool then "stalled" else "pending"

namespace Reading

variable (R : Reading)

/-- The entry names `n0`, what waits behind it, and the attempt that decides, if there is one. -/
structure NamesBlocker (rows : JsonArray) (c n0 : Int) (e : JsonObject) : Prop where
  chainId : e.value "chainId" = some (.int c)
  nonce : e.value "nonce" = some (.int n0)
  behind : e.value "behind" = some (.int (R.behind rows c n0))
  unused : ∀ v ∈ rows, rowMined (asObject v) = true → ∀ m, R.place (asObject v) c m → m < n0
  why : ∀ r, R.Latest rows c n0 r → e.value "why" = some (.str (whyOf r))
  since : ∀ r, R.Latest rows c n0 r → ∃ t : Int, e.value "since" = some (.int t) ∧ t = R.time r
  stranded : e.value "why" = some (.str "stranded") → ∀ r, ¬R.Waits rows c n0 r

end Reading

/-! ## One chain's turn -/

/-- The attempts at `n0`. -/
def attemptsAt (rows : JsonArray) (c n0 : Int) : List JsonObject :=
  ((waiting rows c).filter fun w => w.1 == n0).map Prod.snd

/-- What waits above `n0`. -/
def laterAt (rows : JsonArray) (c n0 : Int) : List (Int × JsonObject) :=
  (waiting rows c).filter fun w => n0 < w.1

/-- What every entry starts from. -/
def heading (rows : JsonArray) (c n0 : Int) : JsonObject :=
  [("chainId", .int c), ("nonce", .int n0),
    ("behind", .int ((laterAt rows c n0).map Prod.fst).dedup.length)]

section

variable {rows stranded : JsonArray} {now c n0 : Int}

theorem mem_attemptsAt {r : JsonObject} : r ∈ attemptsAt rows c n0 ↔ Waits rows c n0 r := by
  unfold attemptsAt
  rw [List.mem_map, ← mem_waiting]
  constructor
  · rintro ⟨⟨n, r⟩, hw, rfl⟩
    obtain ⟨hw, hn⟩ := List.mem_filter.mp hw
    rw [← beq_iff_eq.mp hn]
    exact hw
  · intro hw
    exact ⟨(n0, r), List.mem_filter.mpr ⟨hw, beq_self_eq_true n0⟩, rfl⟩

theorem mem_laterAt {n : Int} {r : JsonObject} :
    (n, r) ∈ laterAt rows c n0 ↔ n0 < n ∧ Waits rows c n r := by
  unfold laterAt
  rw [List.mem_filter, mem_waiting, decide_eq_true_iff]
  exact and_comm

theorem behind_eq : asRead.behind rows c n0 = ((laterAt rows c n0).map Prod.fst).dedup.length := by
  rw [← List.card_toFinset, ← Set.ncard_coe_finset, Reading.behind]
  congr 1
  ext n
  simp only [Set.mem_ofPred_eq, List.coe_toFinset, List.mem_map, Prod.exists, exists_and_right,
    exists_eq_right, mem_laterAt, exists_and_left]

theorem lowest_iff : Lowest rows stranded c n0 ↔
    (gaps rows stranded c ++ (waiting rows c).map Prod.fst).min? = some n0 := by
  have hmem : ∀ n, n ∈ gaps rows stranded c ++ (waiting rows c).map Prod.fst ↔
      (∃ r, Waits rows c n r) ∨ Stranded rows stranded c n := by
    intro n
    simp only [List.mem_append, mem_gaps, List.mem_map, Prod.exists, exists_and_right,
      exists_eq_right, mem_waiting]
    exact or_comm
  rw [List.min?_eq_some_iff, hmem]
  constructor
  · rintro ⟨hthere, hle⟩
    exact ⟨hthere, fun n hn => hle n ((hmem n).mp hn)⟩
  · rintro ⟨hthere, hle⟩
    exact ⟨hthere, fun n hn => hle n ((hmem n).mpr hn)⟩

/-- The loop's turn for a chain that something blocks. -/
theorem blockedEntry_lowest (h : Lowest rows stranded c n0) : blockedEntry rows stranded now c =
    match attemptsAt rows c n0 with
    | [] => strandedEntry (heading rows c n0) ((laterAt rows c n0).map Prod.snd) now
    | first :: rest => attemptEntry (heading rows c n0) c n0 first rest
        ((laterAt rows c n0).map Prod.snd) now := by
  simp only [blockedEntry, lowest_iff.mp h]
  rfl

/-- A chain that nothing blocks has no entry. -/
theorem lowest_of_blockedEntry {e : JsonObject} (h : blockedEntry rows stranded now c = some e) :
    ∃ n0, Lowest rows stranded c n0 := by
  cases hmin : (gaps rows stranded c ++ (waiting rows c).map Prod.fst).min? with
  | none => simp [blockedEntry, hmin] at h
  | some n0 => exact ⟨n0, lowest_iff.mpr hmin⟩

end

/-! ## The attempt that decides -/

/-- The fold keeps the first of the latest. -/
theorem newestOf_eq {first r : JsonObject} {before after : List JsonObject}
    (hfirst : first = r ∨ rowTimestamp first < rowTimestamp r)
    (hbefore : ∀ x ∈ before, rowTimestamp x < rowTimestamp r)
    (hafter : ∀ x ∈ after, rowTimestamp x ≤ rowTimestamp r) :
    newestOf first (before ++ r :: after) = r := by
  have hkept : ∀ rest, (∀ x ∈ rest, rowTimestamp x ≤ rowTimestamp r) → newestOf r rest = r := by
    intro rest hrest
    induction rest with
    | nil => rfl
    | cons x rest ih =>
      have hx := hrest x (List.mem_cons_self ..)
      rw [newestOf, List.foldl_cons, if_neg (Int.not_lt.mpr hx)]
      exact ih fun y hy => hrest y (List.mem_cons_of_mem _ hy)
  induction before generalizing first with
  | nil =>
    rw [List.nil_append, newestOf, List.foldl_cons]
    rcases hfirst with rfl | hlt
    · rw [if_neg (Int.lt_irrefl _)]
      exact hkept after hafter
    · rw [if_pos hlt]
      exact hkept after hafter
  | cons x before ih =>
    rw [List.cons_append, newestOf, List.foldl_cons]
    refine ih ?_ fun y hy => hbefore y (List.mem_cons_of_mem _ hy)
    have hx := hbefore x (List.mem_cons_self ..)
    split
    · exact .inr hx
    · exact hfirst

theorem newestOf_mem (first : JsonObject) (rest : List JsonObject) :
    newestOf first (first :: rest) ∈ first :: rest := by
  rcases (newestOf_spec first (first :: rest)).1 with h | h
  · rw [h]
    exact List.mem_cons_self ..
  · exact h

/-- The newest of the attempts comes before all that are as late. -/
theorem newestOf_split (first : JsonObject) (rest : List JsonObject) :
    ∃ before after, first :: rest = before ++ newestOf first (first :: rest) :: after ∧
      ∀ x ∈ before, rowTimestamp x < rowTimestamp (newestOf first (first :: rest)) := by
  obtain ⟨-, -, hle⟩ := newestOf_spec first (first :: rest)
  have hm := newestOf_mem first rest
  -- Cut the list at the first attempt that is as late as the newest one.
  let late (x : JsonObject) : Bool :=
    decide (rowTimestamp (newestOf first (first :: rest)) ≤ rowTimestamp x)
  have hsome : ((first :: rest).find? late).isSome = true :=
    List.find?_isSome.mpr ⟨_, hm, decide_eq_true (Int.le_refl _)⟩
  obtain ⟨r, hr⟩ := Option.isSome_iff_exists.mp hsome
  obtain ⟨hlate, before, after, heq, hbefore⟩ := List.find?_eq_some_iff_append.mp hr
  have hlate' := of_decide_eq_true hlate
  have hlt : ∀ x ∈ before, rowTimestamp x < rowTimestamp (newestOf first (first :: rest)) := by
    intro x hx
    have := hbefore x hx
    simpa [late] using this
  have hmax : ∀ x ∈ first :: rest, rowTimestamp x ≤ rowTimestamp r := fun x hx =>
    Int.le_trans (hle x hx) hlate'
  have hsame : newestOf first (first :: rest) = r := by
    have hfirst : first = r ∨ rowTimestamp first < rowTimestamp r := by
      cases before with
      | nil => exact .inl (List.cons.inj heq).1
      | cons x before =>
        rw [(List.cons.inj heq).1]
        exact .inr (Int.lt_of_lt_of_le (hlt x (List.mem_cons_self ..)) hlate')
    have := newestOf_eq hfirst (fun x hx => Int.lt_of_lt_of_le (hlt x hx) hlate')
      (fun x hx => hmax x (heq ▸ List.mem_append_right _ (List.mem_cons_of_mem _ hx)))
    rwa [← heq] at this
  exact ⟨before, after, hsame ▸ heq, hlt⟩

/-- Whether a row of the list waits, as the loop decides it. -/
theorem waits_asObject {rows : JsonArray} {c n0 : Int} {v : Json} (hv : v ∈ rows) :
    Waits rows c n0 (asObject v) ↔ nonceOf (asObject v) = some n0 ∧
      (rowWaiting (asObject v) && rowChain (asObject v) == c && minedUpTo rows c < n0) = true := by
  simp only [Bool.and_eq_true, beq_iff_eq, decide_eq_true_eq, minedUpTo_lt_iff]
  constructor
  · rintro ⟨-, hw, ⟨hc, hn⟩, h0, hm⟩
    exact ⟨hn, ⟨hw, hc⟩, h0, hm⟩
  · rintro ⟨hn, ⟨hw, hc⟩, h0, hm⟩
    exact ⟨⟨v, hv, rfl⟩, hw, ⟨hc, hn⟩, h0, hm⟩

open Classical in
/-- The attempts in the order of the rows. -/
theorem attemptsAt_eq (rows : JsonArray) (c n0 : Int) :
    attemptsAt rows c n0 = (rows.map asObject).filter fun r => Waits rows c n0 r := by
  unfold attemptsAt waiting
  rw [List.filter_filterMap, List.map_filterMap, List.filter_map, ← List.filterMap_eq_filter,
    List.map_filterMap]
  refine List.filterMap_congr fun v hv => ?_
  have hiff := @waits_asObject rows c n0 v hv
  simp only [Option.guard_apply, Function.comp_apply]
  cases hn : nonceOf (asObject v) with
  | none =>
    have hno : ¬Waits rows c n0 (asObject v) := fun h => by
      have := (hiff.mp h).1
      rw [hn] at this
      cases this
    simp [hno]
  | some n =>
    by_cases hw : Waits rows c n0 (asObject v)
    · obtain ⟨hn', hkept⟩ := hiff.mp hw
      cases hn.symm.trans hn'
      simp only [if_pos hkept]
      simp [hw]
    · simp only [hw]
      split
      · rename_i hkept
        have hne : (n == n0) = false := beq_eq_false_iff_ne.mpr fun h => by
          subst h
          exact hw (hiff.mpr ⟨hn, hkept⟩)
        simp [Option.filter, hne]
      · simp

/-- Among attempts in order, the fold picks the one that decides. -/
theorem latest_iff {rows : JsonArray} {c n0 : Int} {first r : JsonObject} {rest : List JsonObject}
    (h : attemptsAt rows c n0 = first :: rest) :
    Latest rows c n0 r ↔ r = newestOf first (first :: rest) := by
  classical
  constructor
  · rintro ⟨hw, hnewest, before, v, after, heq, rfl, hbefore⟩
    have hsplit := attemptsAt_eq rows c n0
    rw [heq, List.map_append, List.map_cons, List.filter_append, List.filter_cons, ← heq,
      if_pos (decide_eq_true hw), h] at hsplit
    have hlt : ∀ x ∈ (before.map asObject).filter (fun r => Waits rows c n0 r),
        rowTimestamp x < rowTimestamp (asObject v) := by
      intro x hx
      obtain ⟨hx, hwx⟩ := List.mem_filter.mp hx
      obtain ⟨y, hy, rfl⟩ := List.mem_map.mp hx
      exact asRead_time_lt.mp (hbefore y hy (of_decide_eq_true hwx))
    have hle : ∀ x ∈ (after.map asObject).filter (fun r => Waits rows c n0 r),
        rowTimestamp x ≤ rowTimestamp (asObject v) := fun x hx =>
      asRead_time_le.mp (hnewest x (of_decide_eq_true (List.mem_filter.mp hx).2))
    rw [hsplit]
    refine (newestOf_eq ?_ hlt hle).symm
    generalize (before.map asObject).filter (fun r => Waits rows c n0 r) = early at hsplit hlt
    cases early with
    | nil => exact .inl (List.cons.inj hsplit).1
    | cons x early =>
      rw [(List.cons.inj hsplit).1]
      exact .inr (hlt x (List.mem_cons_self ..))
  · rintro rfl
    obtain ⟨early, late, heq, hearly⟩ := newestOf_split first rest
    obtain ⟨-, -, hle⟩ := newestOf_spec first (first :: rest)
    have hmem := newestOf_mem first rest
    have hwaits : ∀ x, Waits rows c n0 x ↔ x ∈ first :: rest := fun x => by
      rw [← h, mem_attemptsAt]
    generalize newestOf first (first :: rest) = newest at *
    refine ⟨(hwaits _).mpr hmem, fun x hx => asRead_time_le.mpr (hle x ((hwaits x).mp hx)), ?_⟩
    -- The split of the attempts is one of the rows.
    have hsplit := (attemptsAt_eq rows c n0).symm.trans (h.trans heq)
    obtain ⟨l₁, l₂, hrows, hl₁, hl₂⟩ := List.filter_eq_append_iff.mp hsplit
    obtain ⟨m₁, m₂, rfl, hm₁, -, -⟩ := List.filter_eq_cons_iff.mp hl₂
    rw [← List.append_assoc] at hrows
    obtain ⟨before, tail, rfl, hb, ht⟩ := List.map_eq_append_iff.mp hrows
    obtain ⟨v, after, rfl, hv, -⟩ := List.map_eq_cons_iff.mp ht
    refine ⟨before, v, after, rfl, hv, fun x hx hwx => asRead_time_lt.mpr ?_⟩
    have hx' : asObject x ∈ l₁ ++ m₁ := hb ▸ List.mem_map_of_mem hx
    rcases List.mem_append.mp hx' with hx' | hx'
    · exact hearly _ (hl₁ ▸ List.mem_filter.mpr ⟨hx', decide_eq_true hwx⟩)
    · exact absurd (decide_eq_true hwx) (hm₁ _ hx')

/-! ## The entries -/

/-- Attempt `r` is reported if it decides: it is old enough, and stalled or waited on. -/
def Reported (rows : JsonArray) (now c n0 : Int) (r : JsonObject) : Prop :=
  kStuckNonceSecs ≤ subInt64 now (rowTimestamp r) ∧
    (0 < asRead.behind rows c n0 ∨ (r.value "stalled").toBool = true)

/-- A stranded nonce is reported if later sends have waited on it for long enough. -/
def GapReported (rows : JsonArray) (now c n0 : Int) : Prop :=
  0 < asRead.behind rows c n0 ∧
    kStuckNonceSecs ≤ subInt64 now (laterSinceOf ((laterAt rows c n0).map Prod.snd))

/-- The chain has a blocker that is reported, at nonce `n0`, as the code reads the rows. -/
structure Told (rows stranded : JsonArray) (now c n0 : Int) : Prop where
  lowest : Lowest rows stranded c n0
  attempt : ∀ r, Latest rows c n0 r → Reported rows now c n0 r
  gap : (∀ r, ¬Waits rows c n0 r) → GapReported rows now c n0

section

variable {rows stranded : JsonArray} {now c n0 : Int} {e : JsonObject}

theorem whyOf_ne_stranded (r : JsonObject) : whyOf r ≠ "stranded" := by
  unfold whyOf
  split
  · decide
  · split <;> decide

theorem describe_why (e newest : JsonObject) :
    (describe e newest).value "why" = some (.str (whyOf newest)) := by
  simp only [describe, List.foldl_cons, List.foldl_nil]
  rw [carry_value (by decide), carry_value (by decide), carry_value (by decide),
    JsonObject.value_insert_ne _ _ (by decide), JsonObject.value_insert_self]
  rfl

theorem describe_since (e newest : JsonObject) :
    (describe e newest).value "since" = some (.int (rowTimestamp newest)) := by
  simp only [describe, List.foldl_cons, List.foldl_nil]
  rw [carry_value (by decide), carry_value (by decide), carry_value (by decide),
    JsonObject.value_insert_self]

theorem laterAt_isEmpty : ((laterAt rows c n0).map Prod.snd).isEmpty = true ↔
    asRead.behind rows c n0 = 0 := by
  rw [behind_eq, List.isEmpty_iff, List.map_eq_nil_iff, List.length_eq_zero_iff,
    List.dedup_eq_nil, List.map_eq_nil_iff]

/-- An entry names the blocker of its chain. -/
theorem namesBlocker (hlow : Lowest rows stranded c n0)
    (h : blockedEntry rows stranded now c = some e) : asRead.NamesBlocker rows c n0 e := by
  rw [blockedEntry_lowest hlow] at h
  cases hatt : attemptsAt rows c n0 with
  | nil =>
    have hno : ∀ r, ¬Waits rows c n0 r := fun r hw => by
      rw [← mem_attemptsAt, hatt] at hw
      cases hw
    simp only [hatt, strandedEntry] at h
    split at h
    · cases h
    · cases h
      refine ⟨?_, ?_, ?_, hlow.unused, fun r hr => absurd hr.waits (hno r),
        fun r hr => absurd hr.waits (hno r), fun _ => hno⟩ <;>
        simp [heading, JsonObject.value_insert, JsonObject.value_cons, behind_eq]
  | cons first rest =>
    simp only [hatt, attemptEntry] at h
    split at h
    · cases h
    · cases h
      have hkept : ∀ l, l ∉ ["resend", "floorMaxFeePerGas", "floorMaxPriorityFeePerGas"] →
          l ∉ ["why", "since", "hash", "label", "origin"] →
          (withResend (describe (heading rows c n0) (newestOf first (first :: rest)))
            (newestOf first (first :: rest)) c n0
            ((first :: rest).foldl Floor.raise {})).value l = (heading rows c n0).value l :=
        fun l hl hl' => by rw [withResend_value hl, describe_value hl']
      refine ⟨hkept "chainId" (by decide) (by decide), hkept "nonce" (by decide) (by decide), ?_,
        hlow.unused, fun r hr => ?_, fun r hr => ?_, fun hwhy => ?_⟩
      · rw [hkept "behind" (by decide) (by decide), behind_eq]
        rfl
      · rw [withResend_value (by decide), describe_why, (latest_iff hatt).mp hr]
      · rw [withResend_value (by decide), describe_since, (latest_iff hatt).mp hr]
        exact ⟨_, rfl, rfl⟩
      · rw [withResend_value (by decide), describe_why] at hwhy
        injection hwhy with hwhy
        injection hwhy with hwhy
        exact absurd hwhy (whyOf_ne_stranded _)

/-- The entry of a nonce that no row waits at. -/
theorem blockedEntry_gap (hlow : Lowest rows stranded c n0) (hno : ∀ r, ¬Waits rows c n0 r) :
    blockedEntry rows stranded now c = some e ↔ GapReported rows now c n0 ∧
      e = ((heading rows c n0).insert "why" (.str "stranded")).insert "since"
        (.int (laterSinceOf ((laterAt rows c n0).map Prod.snd))) := by
  have hatt : attemptsAt rows c n0 = [] :=
    List.eq_nil_iff_forall_not_mem.mpr fun r hr => hno r (mem_attemptsAt.mp hr)
  have hempty := @laterAt_isEmpty rows c n0
  rw [blockedEntry_lowest hlow, hatt]
  simp only [strandedEntry]
  change (if _ then none else _) = some e ↔ _
  rw [GapReported, Nat.pos_iff_ne_zero, Ne, ← hempty]
  split
  · rename_i hc
    refine iff_of_false (Option.some_ne_none _).symm fun h => ?_
    rcases (Bool.or_eq_true ..).mp hc with hc | hc
    · exact h.1.1 hc
    · exact absurd (of_decide_eq_true hc) (not_lt.mpr h.1.2)
  · rename_i hc
    rw [Bool.or_eq_true, not_or] at hc
    rw [Option.some.injEq, eq_comm]
    exact ⟨fun h => ⟨⟨hc.1, not_lt.mp fun hlt => hc.2 (decide_eq_true hlt)⟩, h⟩, And.right⟩

end

/-- A chain with an entry has its turn. -/
theorem mem_blockedOrder {rows stranded : JsonArray} {c n0 : Int}
    (h : Lowest rows stranded c n0) : c ∈ blockedOrder rows stranded := by
  unfold blockedOrder
  rw [List.mem_insertionSort, List.mem_dedup, List.mem_filter, List.mem_map]
  rcases h.there with ⟨r, hw⟩ | hs
  · obtain ⟨v, hv, rfl⟩ := hw.recorded
    refine ⟨⟨v, List.mem_append_left _ hv, hw.place.1⟩, ?_⟩
    have hne : waiting rows c ≠ [] := List.ne_nil_of_mem (mem_waiting.mpr hw)
    simp [hne]
  · obtain ⟨v, hv, hc, -⟩ := hs.reserved
    refine ⟨⟨v, List.mem_append_right _ hv, hc⟩, ?_⟩
    have hne : gaps rows stranded c ≠ [] := List.ne_nil_of_mem (mem_gaps.mpr hs)
    simp [hne]

/-- The chains with their entries. -/
def entriesOf (rows stranded : JsonArray) (now : Int) : List (Int × JsonObject) :=
  (blockedOrder rows stranded).filterMap fun c =>
    (blockedEntry rows stranded now c).map (c, ·)

theorem blockedNonces_eq (rows stranded : JsonArray) (now : Int) :
    blockedNonces rows stranded now = (entriesOf rows stranded now).map fun p => .obj p.2 := by
  rw [entriesOf, List.map_filterMap, blockedNonces, List.map_filterMap]
  refine List.filterMap_congr fun c _ => ?_
  rw [Option.map_map]
  rfl

theorem mem_entriesOf {rows stranded : JsonArray} {now c : Int} {e : JsonObject} :
    (c, e) ∈ entriesOf rows stranded now ↔ blockedEntry rows stranded now c = some e := by
  unfold entriesOf
  rw [List.mem_filterMap]
  constructor
  · rintro ⟨d, -, hd⟩
    obtain ⟨e', he', heq⟩ := Option.map_eq_some_iff.mp hd
    cases heq
    exact he'
  · intro he
    obtain ⟨n0, hlow⟩ := lowest_of_blockedEntry he
    exact ⟨c, mem_blockedOrder hlow, by rw [he]; rfl⟩

/-- An entry of the report is what the turn of the chain it names appended. -/
theorem mem_blockedNonces {rows stranded : JsonArray} {now c : Int} {e : JsonObject} :
    (.obj e ∈ blockedNonces rows stranded now ∧ e.value "chainId" = some (.int c)) ↔
      blockedEntry rows stranded now c = some e := by
  rw [blockedNonces_eq, List.mem_map]
  constructor
  · rintro ⟨⟨⟨d, e'⟩, he, heq⟩, hc⟩
    cases heq
    have hd := mem_entriesOf.mp he
    obtain ⟨n0, hlow⟩ := lowest_of_blockedEntry hd
    have hchain := (namesBlocker hlow hd).chainId.symm.trans hc
    cases hchain
    exact hd
  · intro h
    obtain ⟨n0, hlow⟩ := lowest_of_blockedEntry h
    exact ⟨⟨(c, e), mem_entriesOf.mpr h, rfl⟩, (namesBlocker hlow h).chainId⟩

/-! ## The report -/

/-- The two readings agree about the blocker at `n0`: it is the lowest nonce, as many wait behind
it, and an attempt that decides about it is read as one, with its reason and its time. -/
structure SameBlocker (rows stranded : JsonArray) (c n0 : Int) : Prop where
  lowest : asCarried.Lowest rows stranded c n0
  behind : asCarried.behind rows c n0 = asRead.behind rows c n0
  latest : ∀ r, asCarried.Latest rows c n0 r →
    ∃ r', Latest rows c n0 r' ∧ whyOf r' = whyOf r ∧ asRead.time r' = asCarried.time r

namespace AllLegible

variable {rows stranded : JsonArray} {now c n0 : Int} {r e : JsonObject}

theorem lowest_iff (h : AllLegible rows stranded now) :
    asCarried.Lowest rows stranded c n0 ↔ Lowest rows stranded c n0 := by
  have hboth : ∀ n, ((∃ r, asCarried.Waits rows c n r) ∨ asCarried.Stranded rows stranded c n) ↔
      (∃ r, Waits rows c n r) ∨ Stranded rows stranded c n := fun n =>
    or_congr (exists_congr fun r => h.waits_iff) h.stranded_iff
  constructor
  · rintro ⟨hthere, hle⟩
    exact ⟨(hboth n0).mp hthere, fun n hn => hle n ((hboth n).mpr hn)⟩
  · rintro ⟨hthere, hle⟩
    exact ⟨(hboth n0).mpr hthere, fun n hn => hle n ((hboth n).mp hn)⟩

theorem behind_eq (h : AllLegible rows stranded now) :
    asCarried.behind rows c n0 = asRead.behind rows c n0 := by
  unfold Reading.behind
  simp only [h.waits_iff]

theorem time_eq (h : AllLegible rows stranded now) (hw : Waits rows c n0 r) :
    asCarried.time r = asRead.time r := by
  obtain ⟨v, hv, rfl⟩ := hw.recorded
  exact h.times v hv hw.isWaiting

theorem latest_iff (h : AllLegible rows stranded now) :
    asCarried.Latest rows c n0 r ↔ Latest rows c n0 r := by
  constructor
  · rintro ⟨hw, hnewest, before, v, after, heq, hv, hfirst⟩
    have hw := h.waits_iff.mp hw
    refine ⟨hw, fun x hx => ?_, before, v, after, heq, hv, fun x hx hwx => ?_⟩
    · rw [← h.time_eq hx, ← h.time_eq hw]
      exact hnewest x (h.waits_iff.mpr hx)
    · rw [← h.time_eq hwx, ← h.time_eq hw]
      exact hfirst x hx (h.waits_iff.mpr hwx)
  · rintro ⟨hw, hnewest, before, v, after, heq, hv, hfirst⟩
    refine ⟨h.waits_iff.mpr hw, fun x hx => ?_, before, v, after, heq, hv, fun x hx hwx => ?_⟩
    · have hx := h.waits_iff.mp hx
      rw [h.time_eq hx, h.time_eq hw]
      exact hnewest x hx
    · have hwx := h.waits_iff.mp hwx
      rw [h.time_eq hwx, h.time_eq hw]
      exact hfirst x hx hwx

end AllLegible

section

variable {R : Reading} {rows stranded : JsonArray} {now c n0 : Int} {r : JsonObject}

/-- An entry of a blocker that the readings agree about names it. -/
theorem SameBlocker.namesBlocker {e : JsonObject} (h : SameBlocker rows stranded c n0)
    (he : asRead.NamesBlocker rows c n0 e) : asCarried.NamesBlocker rows c n0 e where
  chainId := he.chainId
  nonce := he.nonce
  behind := h.behind ▸ he.behind
  unused := h.lowest.unused
  why r hr := by
    obtain ⟨r', hr', hwhy, -⟩ := h.latest r hr
    rw [← hwhy]
    exact he.why r' hr'
  since r hr := by
    obtain ⟨r', hr', -, htime⟩ := h.latest r hr
    rw [← htime]
    exact he.since r' hr'
  stranded hwhy r hw := by
    obtain ⟨r, hr⟩ := Reading.exists_latest ⟨r, hw⟩
    obtain ⟨r', hr', -⟩ := h.latest r hr
    exact he.stranded hwhy r' hr'.waits

end

end EthWalletUi
