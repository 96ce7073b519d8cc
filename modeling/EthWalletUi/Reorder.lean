import EthWalletUi.Blocked

/-!
# What is blocked, when the rows are listed in another order

* `earliest`: the fold that starts from 0 and takes 0 for a time it has not set yet.
* `attemptShown_eq_iff`: what shows of the attempt that decides.
* `blockedEntry_first`, `blockedEntry_moved`: the orders that show, a row listed first or last.
* `blockedNonces_perm_iff`: no order matters exactly if the attempts that are taken to be equally
  late show alike, and no stranded nonce is waited on by a row without a time beside one with one.
-/

namespace EthWalletUi

open Qt

/-! ## The fold of the times -/

/-- The time of the first send seen, then the earliest, where 0 is no time. -/
def earliest (times : List Int) : Int :=
  times.foldl (fun since t => if since = 0 then t else min since t) 0

theorem laterSinceOf_eq (later : List JsonObject) :
    laterSinceOf later = earliest (later.map rowTimestamp) := by
  rw [earliest, List.foldl_map]
  rfl

section

variable {times times' : List Int} {s t : Int}

/-- From a time below 0, or among times none of which is 0, the fold takes the least. -/
theorem foldl_earliest_isLeast (hs : s < 0 ∨ s ≠ 0 ∧ ∀ t ∈ times, t ≠ 0) :
    IsLeast {x | x ∈ s :: times}
      (times.foldl (fun since t => if since = 0 then t else min since t) s) := by
  induction times generalizing s with
  | nil =>
    exact ⟨List.mem_singleton_self s, fun x hx => (List.mem_singleton.mp hx).ge⟩
  | cons t times ih =>
    have hs0 : s ≠ 0 := hs.elim (fun h => h.ne) And.left
    rw [List.foldl_cons, if_neg hs0]
    have hnext : min s t < 0 ∨ min s t ≠ 0 ∧ ∀ t ∈ times, t ≠ 0 := by
      rcases hs with h | ⟨h, hall⟩
      · exact .inl (lt_of_le_of_lt (min_le_left ..) h)
      · obtain ⟨ht, hall⟩ := List.forall_mem_cons.mp hall
        refine .inr ⟨?_, hall⟩
        rcases min_choice s t with hm | hm <;> rw [hm] <;> assumption
    obtain ⟨hmem, hle⟩ := ih hnext
    refine ⟨?_, fun x hx => ?_⟩
    · rcases List.mem_cons.mp hmem with hm | hm
      · rw [hm]
        rcases min_choice s t with h | h <;> rw [h]
        · exact List.mem_cons_self ..
        · exact List.mem_cons_of_mem _ (List.mem_cons_self ..)
      · exact List.mem_cons_of_mem _ (List.mem_cons_of_mem _ hm)
    · have hmin := hle (List.mem_cons_self ..)
      rcases List.mem_cons.mp hx with rfl | hx
      · exact hmin.trans (min_le_left ..)
      · rcases List.mem_cons.mp hx with rfl | hx
        · exact hmin.trans (min_le_right ..)
        · exact hle (List.mem_cons_of_mem _ hx)

/-- Once a time is below 0, what was before it does not count. -/
theorem foldl_earliest_of_neg (hs : 0 ≤ s) (hneg : ∃ t ∈ times, t < 0) :
    IsLeast {x | x ∈ times}
      (times.foldl (fun since t => if since = 0 then t else min since t) s) := by
  induction times generalizing s with
  | nil =>
    obtain ⟨t, ht, -⟩ := hneg
    cases ht
  | cons t times ih =>
    rw [List.foldl_cons]
    rcases lt_or_ge t 0 with ht | ht
    · have hnext : (if s = 0 then t else min s t) = t := by
        split
        · rfl
        · exact min_eq_right (ht.le.trans hs)
      rw [hnext]
      exact foldl_earliest_isLeast (.inl ht)
    · have hnext : 0 ≤ if s = 0 then t else min s t := by
        split
        · exact ht
        · exact le_min hs ht
      have hrest : ∃ t ∈ times, t < 0 := by
        obtain ⟨x, hx, hx0⟩ := hneg
        rcases List.mem_cons.mp hx with rfl | hx
        · exact absurd hx0 (not_lt.mpr ht)
        · exact ⟨x, hx, hx0⟩
      obtain ⟨hmem, hle⟩ := ih hnext hrest
      refine ⟨List.mem_cons_of_mem _ hmem, fun x hx => ?_⟩
      rcases List.mem_cons.mp hx with rfl | hx
      · obtain ⟨y, hy, hy0⟩ := hrest
        exact (hle hy).trans (hy0.le.trans ht)
      · exact hle hx

/-- With a time below 0 or none that is 0, the fold takes the least of the times. -/
theorem earliest_isLeast (hne : times ≠ [])
    (h : (∃ t ∈ times, t < 0) ∨ ∀ t ∈ times, t ≠ 0) : IsLeast {x | x ∈ times} (earliest times) := by
  rcases h with h | h
  · exact foldl_earliest_of_neg (Int.le_refl 0) h
  · cases times with
    | nil => exact absurd rfl hne
    | cons t times =>
      rw [earliest, List.foldl_cons, if_pos rfl]
      exact foldl_earliest_isLeast (.inr (List.forall_mem_cons.mp h))

theorem foldl_earliest_mem :
    times.foldl (fun since t => if since = 0 then t else min since t) s ∈ s :: times := by
  induction times generalizing s with
  | nil => exact List.mem_singleton_self s
  | cons t times ih =>
    rw [List.foldl_cons]
    rcases List.mem_cons.mp (ih (s := if s = 0 then t else min s t)) with h | h
    · rw [h]
      split
      · exact List.mem_cons_of_mem _ List.mem_cons_self
      · rcases min_choice s t with hm | hm <;> simp [hm]
    · exact List.mem_cons_of_mem _ (List.mem_cons_of_mem _ h)

/-- The fold answers one of the times. -/
theorem earliest_mem (hne : times ≠ []) : earliest times ∈ times := by
  cases times with
  | nil => exact absurd rfl hne
  | cons t times =>
    rw [earliest, List.foldl_cons, if_pos rfl]
    exact foldl_earliest_mem

theorem earliest_nonneg (h : ∀ t ∈ times, 0 ≤ t) : 0 ≤ earliest times := by
  have hfold : ∀ s, 0 ≤ s →
      0 ≤ times.foldl (fun since t => if since = 0 then t else min since t) s := by
    intro s hs
    induction times generalizing s with
    | nil => exact hs
    | cons t times ih =>
      obtain ⟨ht, h⟩ := List.forall_mem_cons.mp h
      rw [List.foldl_cons]
      refine ih h _ ?_
      split
      · exact ht
      · exact le_min hs ht
  exact hfold 0 (Int.le_refl 0)

/-- A last row without a time empties what the fold found. -/
theorem earliest_concat_zero (h : ∀ t ∈ times, 0 ≤ t) : earliest (times ++ [0]) = 0 := by
  have hnonneg := earliest_nonneg h
  unfold earliest at hnonneg ⊢
  rw [List.foldl_append, List.foldl_cons, List.foldl_nil]
  split
  · rfl
  · exact min_eq_right hnonneg

theorem earliest_concat_pos (h : ∀ t ∈ times, 0 ≤ t) (ht : 0 < t) :
    0 < earliest (times ++ [t]) := by
  have hnonneg := earliest_nonneg h
  unfold earliest at hnonneg ⊢
  rw [List.foldl_append, List.foldl_cons, List.foldl_nil]
  split
  · exact ht
  · rename_i hne
    exact lt_min (lt_of_le_of_ne hnonneg (Ne.symm hne)) ht

/-- The fold is one value for every order, unless 0 stands beside a time and none is below it. -/
theorem earliest_perm (hp : times.Perm times')
    (h : (∃ t ∈ times, t < 0) ∨ (∀ t ∈ times, t ≠ 0) ∨ ∀ t ∈ times, t ≤ 0) :
    earliest times = earliest times' := by
  by_cases hnil : times = []
  · subst hnil
    rw [List.nil_perm.mp hp]
  have hnil' : times' ≠ [] := fun h' => hnil (List.perm_nil.mp (h' ▸ hp))
  have hset : {x | x ∈ times} = {x | x ∈ times'} := Set.ext fun x => hp.mem_iff
  have hleast : (∃ t ∈ times, t < 0) ∨ (∀ t ∈ times, t ≠ 0) →
      earliest times = earliest times' := by
    intro h
    have h' : (∃ t ∈ times', t < 0) ∨ ∀ t ∈ times', t ≠ 0 := by
      simpa only [hp.mem_iff] using h
    have hl := earliest_isLeast hnil h
    rw [hset] at hl
    exact hl.unique (earliest_isLeast hnil' h')
  rcases h with h | h | h
  · exact hleast (.inl h)
  · exact hleast (.inr h)
  · by_cases hneg : ∃ t ∈ times, t < 0
    · exact hleast (.inl hneg)
    -- Every time is 0.
    have hzero : ∀ ts : List Int, (∀ t ∈ ts, t = 0) → earliest ts = 0 := by
      intro ts hts
      unfold earliest
      induction ts with
      | nil => rfl
      | cons t ts ih =>
        obtain ⟨ht, hrest⟩ := List.forall_mem_cons.mp hts
        rw [List.foldl_cons, if_pos rfl, ht]
        exact ih hrest
    have hall : ∀ t ∈ times, t = 0 := fun t ht =>
      le_antisymm (h t ht) (not_lt.mp fun hlt => hneg ⟨t, ht, hlt⟩)
    rw [hzero times hall, hzero times' fun t ht => hall t (hp.mem_iff.mpr ht)]

end

/-! ## What the rows say in any order -/

section

variable {rows rows' stranded : JsonArray} {now c n0 : Int} {e : JsonObject}

theorem minedUpTo_perm (h : rows.Perm rows') (c : Int) : minedUpTo rows c = minedUpTo rows' c := by
  refine eq_of_forall_gt_iff fun n => ?_
  rw [minedUpTo_lt_iff, minedUpTo_lt_iff]
  simp only [h.mem_iff]

theorem waits_perm (h : rows.Perm rows') {n : Int} {r : JsonObject} :
    Waits rows c n r ↔ Waits rows' c n r := by
  have hmono : ∀ {rows rows' : JsonArray}, rows.Perm rows' → Waits rows c n r →
      Waits rows' c n r := by
    rintro rows rows' hp ⟨⟨v, hv, hr⟩, hw, hplace, h0, hm⟩
    exact ⟨⟨v, hp.mem_iff.mp hv, hr⟩, hw, hplace, h0, fun x hx => hm x (hp.mem_iff.mpr hx)⟩
  exact ⟨hmono h, hmono h.symm⟩

theorem waiting_perm (h : rows.Perm rows') (c : Int) :
    (waiting rows c).Perm (waiting rows' c) := by
  unfold waiting
  rw [minedUpTo_perm h]
  exact h.filterMap _

theorem gaps_perm (h : rows.Perm rows') (stranded : JsonArray) (c : Int) :
    gaps rows stranded c = gaps rows' stranded c := by
  unfold gaps
  rw [minedUpTo_perm h]

theorem lowest_perm (h : rows.Perm rows') :
    Lowest rows stranded c n0 ↔ Lowest rows' stranded c n0 := by
  have hs : ∀ n, Stranded rows stranded c n ↔ Stranded rows' stranded c n := fun n => by
    rw [← mem_gaps, ← mem_gaps, gaps_perm h]
  have hboth : ∀ n, ((∃ r, Waits rows c n r) ∨ Stranded rows stranded c n) ↔
      (∃ r, Waits rows' c n r) ∨ Stranded rows' stranded c n := fun n =>
    or_congr (exists_congr fun r => waits_perm h) (hs n)
  constructor
  · rintro ⟨hthere, hle⟩
    exact ⟨(hboth n0).mp hthere, fun n hn => hle n ((hboth n).mpr hn)⟩
  · rintro ⟨hthere, hle⟩
    exact ⟨(hboth n0).mpr hthere, fun n hn => hle n ((hboth n).mp hn)⟩

theorem behind_perm (h : rows.Perm rows') :
    asRead.behind rows c n0 = asRead.behind rows' c n0 := by
  unfold Reading.behind
  simp only [waits_perm h]

theorem heading_perm (h : rows.Perm rows') : heading rows c n0 = heading rows' c n0 := by
  unfold heading
  rw [← behind_eq, ← behind_eq, behind_perm h]

theorem attemptsAt_perm (h : rows.Perm rows') :
    (attemptsAt rows c n0).Perm (attemptsAt rows' c n0) :=
  ((waiting_perm h c).filter _).map _

theorem laterAt_perm (h : rows.Perm rows') : (laterAt rows c n0).Perm (laterAt rows' c n0) :=
  (waiting_perm h c).filter _

/-- The chains have their turns in one order. -/
theorem blockedOrder_perm (h : rows.Perm rows') (stranded : JsonArray) :
    blockedOrder rows stranded = blockedOrder rows' stranded := by
  have hempty : ∀ c, (waiting rows c).isEmpty = (waiting rows' c).isEmpty := fun c => by
    rw [Bool.eq_iff_iff, List.isEmpty_iff_length_eq_zero, List.isEmpty_iff_length_eq_zero,
      (waiting_perm h c).length_eq]
  unfold blockedOrder
  simp only [hempty, gaps_perm h]
  have hkeys := (((h.append_right stranded).map fun v => rowChain (asObject v)).filter
    fun c => !(waiting rows' c).isEmpty || !(gaps rows' stranded c).isEmpty).dedup
  refine List.Perm.eq_of_pairwise' (List.pairwise_insertionSort (· ≤ ·) _)
    (List.pairwise_insertionSort (· ≤ ·) _) ?_
  exact ((List.perm_insertionSort _ _).trans hkeys).trans (List.perm_insertionSort _ _).symm

/-- Nothing waits later in one order that does not in another. -/
theorem laterAt_isEmpty_perm (h : rows.Perm rows') :
    ((laterAt rows c n0).map Prod.snd).isEmpty = ((laterAt rows' c n0).map Prod.snd).isEmpty := by
  rw [Bool.eq_iff_iff, laterAt_isEmpty, laterAt_isEmpty, behind_perm h]

/-- Two orders have one report exactly if each chain's entry is one. -/
theorem blockedNonces_eq_iff (h : rows.Perm rows') :
    blockedNonces rows' stranded now = blockedNonces rows stranded now ↔
      ∀ c, blockedEntry rows' stranded now c = blockedEntry rows stranded now c := by
  constructor
  · intro heq c
    refine Option.ext fun e => ?_
    rw [← mem_blockedNonces, heq]
    exact mem_blockedNonces
  · intro heq
    rw [blockedNonces, blockedNonces, blockedOrder_perm h, funext heq]

/-! ## The attempts in any order -/

/-- The floor as far as it is read: none when some fee could not be. -/
def Floor.known (f : Floor) : Option (Nat × Nat) :=
  if f.feesKnown then some (f.floorFee, f.floorTip) else none

/-- One attempt's fees against the floor. -/
def raiseKnown (floor : Option (Nat × Nat)) (r : JsonObject) : Option (Nat × Nat) :=
  match floor, weiOf (r.value "maxFeePerGas"), weiOf (r.value "maxPriorityFeePerGas") with
  | some (fee, tip), some f, some t => some (max fee f, max tip t)
  | _, _, _ => none

theorem Floor.known_raise (f : Floor) (r : JsonObject) :
    (f.raise r).known = raiseKnown f.known r := by
  unfold Floor.raise Floor.known raiseKnown
  cases hk : f.feesKnown with
  | false => simp [hk]
  | true =>
    cases weiOf (r.value "maxFeePerGas") with
    | none => rfl
    | some fee =>
      cases weiOf (r.value "maxPriorityFeePerGas") with
      | none => rfl
      | some tip => simp

theorem raiseKnown_comm (floor : Option (Nat × Nat)) (a b : JsonObject) :
    raiseKnown (raiseKnown floor a) b = raiseKnown (raiseKnown floor b) a := by
  unfold raiseKnown
  cases floor with
  | none => rfl
  | some f =>
    cases weiOf (a.value "maxFeePerGas") <;> cases weiOf (a.value "maxPriorityFeePerGas") <;>
      cases weiOf (b.value "maxFeePerGas") <;> cases weiOf (b.value "maxPriorityFeePerGas") <;>
      simp [max_right_comm]

theorem known_foldl (rs : List JsonObject) (f : Floor) :
    (rs.foldl Floor.raise f).known = rs.foldl raiseKnown f.known := by
  induction rs generalizing f with
  | nil => rfl
  | cons r rs ih => rw [List.foldl_cons, List.foldl_cons, ih, Floor.known_raise]

/-- What is known of the floor is one in any order. -/
theorem floor_perm {rs rs' : List JsonObject} (h : rs.Perm rs') (f : Floor) :
    (rs.foldl Floor.raise f).known = (rs'.foldl Floor.raise f).known := by
  rw [known_foldl, known_foldl]
  have : RightCommutative raiseKnown := ⟨raiseKnown_comm⟩
  exact h.foldl_eq _

/-- An entry shows only what is known of the floor. -/
theorem withResend_congr {e newest : JsonObject} {f f' : Floor} (h : f.known = f'.known) :
    withResend e newest c n0 f = withResend e newest c n0 f' := by
  unfold Floor.known at h
  unfold withResend
  cases hf : f.feesKnown with
  | false =>
    rw [hf] at h
    have hf' : f'.feesKnown = false := by
      cases hf' : f'.feesKnown with
      | false => rfl
      | true => simp [hf'] at h
    simp [hf']
  | true =>
    rw [hf, if_pos rfl] at h
    cases hf' : f'.feesKnown with
    | false => simp [hf'] at h
    | true =>
      rw [hf', if_pos rfl] at h
      obtain ⟨hfee, htip⟩ := Prod.mk.inj (Option.some.inj h)
      rw [hfee, htip]

/-! ## What shows of the attempt that decides -/

/-- The entry of a chain whose latest attempt is `r`. -/
def attemptShown (rows : JsonArray) (now c n0 : Int) (r : JsonObject) : Option JsonObject :=
  if subInt64 now (rowTimestamp r) < kStuckNonceSecs ||
      (((laterAt rows c n0).map Prod.snd).isEmpty && !(r.value "stalled").toBool) then none
  else some (withResend (describe (heading rows c n0) r) r c n0
    ((attemptsAt rows c n0).foldl Floor.raise {}))

theorem blockedEntry_latest {r : JsonObject} (hlow : Lowest rows stranded c n0)
    (hr : Latest rows c n0 r) :
    blockedEntry rows stranded now c = attemptShown rows now c n0 r := by
  rw [blockedEntry_lowest hlow]
  cases hatt : attemptsAt rows c n0 with
  | nil =>
    have hw := mem_attemptsAt.mpr hr.waits
    rw [hatt] at hw
    cases hw
  | cons first rest =>
    rw [(latest_iff hatt).mp hr, attemptShown, hatt]
    rfl

theorem attemptShown_perm {r : JsonObject} (h : rows.Perm rows') :
    attemptShown rows' now c n0 r = attemptShown rows now c n0 r := by
  unfold attemptShown
  rw [laterAt_isEmpty_perm h, heading_perm h,
    withResend_congr (floor_perm (attemptsAt_perm h) {}).symm]

end

/-- The fees of every attempt at the nonce can be read. -/
def FeesReadable (rows : JsonArray) (c n0 : Int) : Prop :=
  ∀ r, Waits rows c n0 r → (weiOf (r.value "maxFeePerGas")).isSome = true ∧
    (weiOf (r.value "maxPriorityFeePerGas")).isSome = true

/-- A report cannot tell which of the attempts decides: both are reported or neither is, for the
same reason, under the same names and, if there is a resend, with the same one. -/
structure ShownAlike (rows : JsonArray) (now c n0 : Int) (r r' : JsonObject) : Prop where
  reported : Reported rows now c n0 r ↔ Reported rows now c n0 r'
  why : Reported rows now c n0 r → whyOf r = whyOf r'
  texts : Reported rows now c n0 r → ∀ k ∈ ["hash", "label", "origin"],
    (r.value k).toString = (r'.value k).toString
  resend : Reported rows now c n0 r → FeesReadable rows c n0 → transferOf r = transferOf r' ∧
    (transferOf r ≠ [] → (r.value "from").toString = (r'.value "from").toString)

section

variable {rows rows' stranded : JsonArray} {now c n0 : Int} {e r r' : JsonObject}

theorem attemptShown_eq_none : attemptShown rows now c n0 r = none ↔
    ¬Reported rows now c n0 r := by
  have hlater := @laterAt_isEmpty rows c n0
  unfold attemptShown Reported
  rw [Nat.pos_iff_ne_zero, Ne, ← hlater]
  cases ((laterAt rows c n0).map Prod.snd).isEmpty <;>
    cases (r.value "stalled").toBool <;> simp

theorem attemptShown_of_reported (h : Reported rows now c n0 r) :
    attemptShown rows now c n0 r = some (withResend (describe (heading rows c n0) r) r c n0
      ((attemptsAt rows c n0).foldl Floor.raise {})) := by
  have hsome := mt attemptShown_eq_none.mp (not_not.mpr h)
  unfold attemptShown at hsome ⊢
  split at hsome
  · exact absurd rfl hsome
  · rename_i hc
    rw [if_neg hc]

/-- The fees are known exactly if every attempt's can be read. -/
theorem feesKnown_iff :
    ((attemptsAt rows c n0).foldl Floor.raise {}).feesKnown = true ↔ FeesReadable rows c n0 := by
  have hfold : ∀ (rs : List JsonObject) (f : Floor),
      (rs.foldl Floor.raise f).feesKnown = true ↔ f.feesKnown = true ∧
        ∀ r ∈ rs, (weiOf (r.value "maxFeePerGas")).isSome = true ∧
          (weiOf (r.value "maxPriorityFeePerGas")).isSome = true := by
    intro rs
    induction rs with
    | nil => simp
    | cons r rs ih =>
      intro f
      rw [List.foldl_cons, ih, List.forall_mem_cons, ← and_assoc]
      refine and_congr_left fun _ => ?_
      unfold Floor.raise
      cases hk : f.feesKnown <;> cases weiOf (r.value "maxFeePerGas") <;>
        cases weiOf (r.value "maxPriorityFeePerGas") <;> simp [hk]
  rw [hfold]
  simp only [mem_attemptsAt, FeesReadable, true_and]

theorem carry_congr {k : String} (h : (r.value k).toString = (r'.value k).toString) :
    carry r e k = carry r' e k := by
  unfold carry
  rw [h]

/-- A text that is carried is the attempt's. -/
theorem describe_text {k : String} (hk : k ∈ ["hash", "label", "origin"])
    (he : e.value k = none) :
    ((describe e r).value k).toString = (r.value k).toString := by
  have hcarry : ∀ e' : JsonObject, e'.value k = none →
      ((carry r e' k).value k).toString = (r.value k).toString := by
    intro e' he'
    simp only [carry]
    split
    · rename_i hempty
      rw [he', String.isEmpty_iff.mp hempty]
      rfl
    · rw [JsonObject.value_insert_self]
      rfl
  simp only [describe, List.foldl_cons, List.foldl_nil]
  simp only [List.mem_cons, List.not_mem_nil, or_false] at hk
  rcases hk with rfl | rfl | rfl
  · rw [carry_value (by decide), carry_value (by decide)]
    refine hcarry _ ?_
    rw [JsonObject.value_insert_ne _ _ (by decide), JsonObject.value_insert_ne _ _ (by decide), he]
  · rw [carry_value (by decide)]
    refine hcarry _ ?_
    rw [carry_value (by decide), JsonObject.value_insert_ne _ _ (by decide),
      JsonObject.value_insert_ne _ _ (by decide), he]
  · refine hcarry _ ?_
    rw [carry_value (by decide), carry_value (by decide),
      JsonObject.value_insert_ne _ _ (by decide),
      JsonObject.value_insert_ne _ _ (by decide), he]

/-- The three shapes of a transfer. -/
theorem transferOf_cases (r : JsonObject) :
    transferOf r = [] ∨
      (∃ recipient amount, transferOf r = [("to", .str recipient), ("amount", .str amount)]) ∨
      ∃ recipient amount token, transferOf r =
        [("to", .str recipient), ("amount", .str amount), ("tokenAddress", .str token)] := by
  unfold transferOf
  simp only
  split
  · exact .inl rfl
  · split
    · exact .inr (.inr ⟨_, _, _, rfl⟩)
    · exact .inr (.inl ⟨_, _, rfl⟩)

/-- A resend says which transfer it is and who sends it. -/
theorem resend_inj {from_ from' : Json}
    (h : (((transferOf r).insert "chainId" (.int c)).insert "from" from_).insert "nonce" (.int n0) =
      (((transferOf r').insert "chainId" (.int c)).insert "from" from').insert "nonce" (.int n0))
    (hr : transferOf r ≠ []) (hr' : transferOf r' ≠ []) :
    transferOf r = transferOf r' ∧ from_ = from' := by
  rcases transferOf_cases r with h0 | ⟨a, b, h1⟩ | ⟨a, b, t, h1⟩
  · exact absurd h0 hr
  · rcases transferOf_cases r' with h0 | ⟨a', b', h2⟩ | ⟨a', b', t', h2⟩
    · exact absurd h0 hr'
    · rw [h1, h2] at h ⊢
      simp [JsonObject.insert] at h ⊢
      tauto
    · rw [h1, h2] at h
      simp [JsonObject.insert] at h
  · rcases transferOf_cases r' with h0 | ⟨a', b', h2⟩ | ⟨a', b', t', h2⟩
    · exact absurd h0 hr'
    · rw [h1, h2] at h
      simp [JsonObject.insert] at h
    · rw [h1, h2] at h ⊢
      simp [JsonObject.insert] at h ⊢
      tauto

/-- What an entry with a resend carries of the attempt. -/
theorem withResend_resend {floor : Floor} (he : e.value "resend" = none)
    (hk : floor.feesKnown = true) :
    (withResend e r c n0 floor).value "resend" = if transferOf r = [] then none else
      some (.obj ((((transferOf r).insert "chainId" (.int c)).insert
        "from" (.str (r.value "from").toString)).insert "nonce" (.int n0))) := by
  unfold withResend
  cases ht : transferOf r with
  | nil => simp [he]
  | cons m t => simp [hk, JsonObject.value_insert]

/-- Of two attempts that are equally late, the entry is the same exactly if they show alike. -/
theorem attemptShown_eq_iff (htime : rowTimestamp r = rowTimestamp r') :
    attemptShown rows now c n0 r = attemptShown rows now c n0 r' ↔
      ShownAlike rows now c n0 r r' := by
  have hheading : ∀ l, l ∉ ["chainId", "nonce", "behind"] → (heading rows c n0).value l = none := by
    intro l hl
    simp only [List.mem_cons, List.not_mem_nil, or_false, not_or] at hl
    obtain ⟨hc, hn, hb⟩ := hl
    simp [heading, JsonObject.value, hc, hn, hb]
  constructor
  · intro h
    have hrep : Reported rows now c n0 r ↔ Reported rows now c n0 r' := by
      rw [← not_iff_not, ← attemptShown_eq_none, ← attemptShown_eq_none, h]
    have hentry : Reported rows now c n0 r → ∀ l,
        (withResend (describe (heading rows c n0) r) r c n0
          ((attemptsAt rows c n0).foldl Floor.raise {})).value l =
        (withResend (describe (heading rows c n0) r') r' c n0
          ((attemptsAt rows c n0).foldl Floor.raise {})).value l := by
      intro hr l
      rw [attemptShown_of_reported hr, attemptShown_of_reported (hrep.mp hr),
        Option.some.injEq] at h
      rw [h]
    refine ⟨hrep, fun hr => ?_, fun hr k hk => ?_, fun hr hfees => ?_⟩
    · have hwhy := hentry hr "why"
      rw [withResend_value (by decide), withResend_value (by decide), describe_why, describe_why,
        Option.some.injEq, Json.str.injEq] at hwhy
      exact hwhy
    · have hnone : (heading rows c n0).value k = none := by
        refine hheading k ?_
        simp only [List.mem_cons, List.not_mem_nil, or_false] at hk
        rcases hk with rfl | rfl | rfl <;> decide
      have hkept : k ∉ ["resend", "floorMaxFeePerGas", "floorMaxPriorityFeePerGas"] := by
        simp only [List.mem_cons, List.not_mem_nil, or_false] at hk
        rcases hk with rfl | rfl | rfl <;> decide
      have htext := hentry hr k
      rw [withResend_value hkept, withResend_value hkept] at htext
      rw [← describe_text hk hnone, htext, describe_text hk hnone]
    · have hresend := hentry hr "resend"
      have hnone : ∀ r, (describe (heading rows c n0) r).value "resend" = none := fun r => by
        rw [describe_value (by decide)]
        exact hheading "resend" (by decide)
      rw [withResend_resend (hnone r) (feesKnown_iff.mpr hfees),
        withResend_resend (hnone r') (feesKnown_iff.mpr hfees)] at hresend
      split at hresend <;> rename_i ht <;> split at hresend <;> rename_i ht'
      · exact ⟨ht.trans ht'.symm, fun hne => absurd ht hne⟩
      · cases hresend
      · cases hresend
      · rw [Option.some.injEq, Json.obj.injEq] at hresend
        obtain ⟨hsame, hfrom⟩ := resend_inj hresend ht ht'
        exact ⟨hsame, fun _ => Json.str.inj hfrom⟩
  · intro h
    by_cases hr : Reported rows now c n0 r
    · rw [attemptShown_of_reported hr, attemptShown_of_reported (h.reported.mp hr),
        Option.some.injEq]
      have hdescribe : describe (heading rows c n0) r = describe (heading rows c n0) r' := by
        have hwhy := h.why hr
        unfold whyOf at hwhy
        simp only [describe, List.foldl_cons, List.foldl_nil, hwhy, htime]
        rw [carry_congr (h.texts hr "hash" (by decide)),
          carry_congr (h.texts hr "label" (by decide)),
          carry_congr (h.texts hr "origin" (by decide))]
      rw [hdescribe]
      unfold withResend
      cases hk : ((attemptsAt rows c n0).foldl Floor.raise {}).feesKnown with
      | false => simp
      | true =>
        obtain ⟨htransfer, hfrom⟩ := h.resend hr (feesKnown_iff.mp hk)
        rw [htransfer] at hfrom ⊢
        cases ht : transferOf r' with
        | nil => rfl
        | cons m t => rw [hfrom (by rw [ht]; exact List.cons_ne_nil _ _)]
    · rw [attemptShown_eq_none.mpr hr, attemptShown_eq_none.mpr (mt h.reported.mpr hr)]

end

/-! ## The orders that show -/

/-- No two attempts at one nonce of a chain were made at the same time. -/
def Reading.Distinct (R : Reading) (rows : JsonArray) : Prop :=
  rows.Pairwise fun v w => ∀ c n, rowWaiting (asObject v) = true → rowWaiting (asObject w) = true →
    R.place (asObject v) c n → R.place (asObject w) c n → R.time (asObject v) ≠ R.time (asObject w)

/-- An attempt than which none is later, as the code reads the rows. -/
structure Newest (rows : JsonArray) (c n0 : Int) (r : JsonObject) : Prop where
  waits : Waits rows c n0 r
  le : ∀ x, Waits rows c n0 x → rowTimestamp x ≤ rowTimestamp r

/-- The two rows carry one chain, one nonce and one time. -/
def Same (r r' : JsonObject) : Prop :=
  (∃ c n, asCarried.place r c n ∧ asCarried.place r' c n) ∧ asCarried.time r = asCarried.time r'

/-- Attempts that are read as equally late at the lowest nonce, but carry different chains, nonces
or times, show alike. -/
def TiesAgree (rows stranded : JsonArray) (now : Int) : Prop :=
  ∀ c n0, Lowest rows stranded c n0 → ∀ r r', Newest rows c n0 r → Newest rows c n0 r' →
    ¬Same r r' → ShownAlike rows now c n0 r r'

/-- The time since which the rows of a chain wait is one in any order: a row has a time below 0, or
no row is without a time, or none has a time above 0, or none is 180 s old. -/
def TellsSince (rows : JsonArray) (now c : Int) : Prop :=
  (∃ n r, Waits rows c n r ∧ rowTimestamp r < 0) ∨ (∀ n r, Waits rows c n r → rowTimestamp r ≠ 0) ∨
    (∀ n r, Waits rows c n r → rowTimestamp r ≤ 0) ∨
    ∀ n r, Waits rows c n r → subInt64 now (rowTimestamp r) < kStuckNonceSecs

section

variable {rows rows' stranded : JsonArray} {now c n0 : Int} {e r r' : JsonObject}

/-! ### Attempts -/

theorem Latest.toNewest (h : Latest rows c n0 r) : Newest rows c n0 r :=
  ⟨h.waits, fun x hx => asRead_time_le.mp (h.newest x hx)⟩

theorem newest_perm (h : rows.Perm rows') : Newest rows c n0 r ↔ Newest rows' c n0 r := by
  constructor
  · rintro ⟨hw, hle⟩
    exact ⟨(waits_perm h).mp hw, fun x hx => hle x ((waits_perm h).mpr hx)⟩
  · rintro ⟨hw, hle⟩
    exact ⟨(waits_perm h).mpr hw, fun x hx => hle x ((waits_perm h).mp hx)⟩

/-- An attempt than which none is later decides when its row is listed first. -/
theorem blockedEntry_first (now : Int) {v : Json} (hv : v ∈ rows) (hlow : Lowest rows stranded c n0)
    (hr : Newest rows c n0 (asObject v)) : rows.Perm (v :: rows.erase v) ∧
      blockedEntry (v :: rows.erase v) stranded now c =
        attemptShown rows now c n0 (asObject v) := by
  have hperm := List.perm_cons_erase hv
  have hr' := (newest_perm hperm).mp hr
  have hlatest : Latest (v :: rows.erase v) c n0 (asObject v) :=
    ⟨hr'.waits, fun x hx => asRead_time_le.mpr (hr'.le x hx), [], v, _, rfl, rfl,
      fun x hx => by cases hx⟩
  exact ⟨hperm, (blockedEntry_latest ((lowest_perm hperm).mp hlow) hlatest).trans
    (attemptShown_perm hperm)⟩

/-- Rows that are not one row and are read alike carry different things. -/
theorem Reading.Distinct.not_same (hd : asCarried.Distinct rows) (hr : Newest rows c n0 r)
    (hr' : Newest rows c n0 r') (hne : r ≠ r') : ¬Same r r' := by
  rintro ⟨⟨a, m, hp, hp'⟩, htime⟩
  obtain ⟨v, hv, rfl⟩ := hr.waits.recorded
  obtain ⟨w, hw, rfl⟩ := hr'.waits.recorded
  have : Std.Symm fun v w : Json => ∀ c n, rowWaiting (asObject v) = true →
      rowWaiting (asObject w) = true → asCarried.place (asObject v) c n →
      asCarried.place (asObject w) c n →
      asCarried.time (asObject v) ≠ asCarried.time (asObject w) :=
    ⟨fun _ _ h c n hb ha hpb hpa => (h c n ha hb hpa hpb).symm⟩
  exact hd.forall hv hw (fun h => hne (h ▸ rfl)) a m hr.waits.isWaiting hr'.waits.isWaiting hp hp'
    htime

/-! ### Times -/

/-- The times that the fold of a stranded nonce goes through. -/
def laterTimes (rows : JsonArray) (c n0 : Int) : List Int :=
  ((laterAt rows c n0).map Prod.snd).map rowTimestamp

/-- When nothing waits at the lowest nonce, all that waits is later. -/
theorem mem_laterTimes (hlow : Lowest rows stranded c n0) (hno : ∀ r, ¬Waits rows c n0 r)
    {t : Int} : t ∈ laterTimes rows c n0 ↔ ∃ n r, Waits rows c n r ∧ rowTimestamp r = t := by
  have hlater : ∀ n r, (n, r) ∈ laterAt rows c n0 ↔ Waits rows c n r := by
    intro n r
    rw [mem_laterAt, and_iff_right_iff_imp]
    intro hw
    refine lt_of_le_of_ne (hlow.le n (.inl ⟨r, hw⟩)) ?_
    rintro rfl
    exact hno r hw
  rw [laterTimes, List.map_map, List.mem_map, Prod.exists]
  exact exists_congr fun n => exists_congr fun r => and_congr_left fun _ => hlater n r

/-- The entry of a nonce that no row waits at. -/
theorem blockedEntry_stranded (hlow : Lowest rows stranded c n0) (hno : ∀ r, ¬Waits rows c n0 r) :
    blockedEntry rows stranded now c = some e ↔ laterTimes rows c n0 ≠ [] ∧
      kStuckNonceSecs ≤ subInt64 now (earliest (laterTimes rows c n0)) ∧
      e = ((heading rows c n0).insert "why" (.str "stranded")).insert "since"
        (.int (earliest (laterTimes rows c n0))) := by
  have hwaited : 0 < asRead.behind rows c n0 ↔ laterTimes rows c n0 ≠ [] := by
    rw [Nat.pos_iff_ne_zero, Ne, ← laterAt_isEmpty]
    simp [laterTimes]
  rw [blockedEntry_gap hlow hno, GapReported, laterSinceOf_eq, hwaited, and_assoc]
  exact Iff.rfl

theorem laterTimes_perm (h : rows.Perm rows') :
    (laterTimes rows c n0).Perm (laterTimes rows' c n0) := by
  have hrows : (laterAt rows c n0).Perm (laterAt rows' c n0) := laterAt_perm h
  exact (hrows.map Prod.snd).map rowTimestamp

/-- The entry of a stranded nonce is one in any order, if the time its chain waits since is. -/
theorem blockedEntry_stranded_perm (h : rows.Perm rows') (hlow : Lowest rows stranded c n0)
    (hno : ∀ r, ¬Waits rows c n0 r) (htells : TellsSince rows now c) :
    blockedEntry rows' stranded now c = blockedEntry rows stranded now c := by
  have htimes : (laterTimes rows c n0).Perm (laterTimes rows' c n0) := laterTimes_perm h
  have hmem := fun t => @mem_laterTimes rows stranded c n0 hlow hno t
  have hno' : ∀ r, ¬Waits rows' c n0 r := fun r hr => hno r ((waits_perm h).mpr hr)
  have hnil : laterTimes rows' c n0 = [] ↔ laterTimes rows c n0 = [] := by
    rw [← List.length_eq_zero_iff, ← List.length_eq_zero_iff, htimes.length_eq]
  refine Option.ext fun e => ?_
  rw [blockedEntry_stranded hlow hno, blockedEntry_stranded ((lowest_perm h).mp hlow) hno',
    Ne, hnil, ← heading_perm h]
  refine and_congr_right fun hne => ?_
  rcases htells with ⟨n, r, hw, hr⟩ | hall | hall | hearly
  · rw [earliest_perm htimes (.inl ⟨_, (hmem _).mpr ⟨n, r, hw, rfl⟩, hr⟩)]
  · rw [earliest_perm htimes (.inr (.inl fun t ht => ?_))]
    obtain ⟨n, r, hw, rfl⟩ := (hmem t).mp ht
    exact hall n r hw
  · rw [earliest_perm htimes (.inr (.inr fun t ht => ?_))]
    obtain ⟨n, r, hw, rfl⟩ := (hmem t).mp ht
    exact hall n r hw
  · -- It is too early for either order.
    have hlt : ∀ t ∈ laterTimes rows c n0, subInt64 now t < kStuckNonceSecs := by
      intro t ht
      obtain ⟨n, r, hw, rfl⟩ := (hmem t).mp ht
      exact hearly n r hw
    refine iff_of_false (fun he => ?_) fun he => ?_
    · have hsince := htimes.mem_iff.mpr (earliest_mem (mt hnil.mp hne))
      exact absurd he.1 (not_le.mpr (hlt _ hsince))
    · exact absurd he.1 (not_le.mpr (hlt _ (earliest_mem hne)))

/-- Rows that wait and are listed last have their times last. -/
theorem laterTimes_append {l tail : JsonArray} (hlow : Lowest (l ++ tail) stranded c n0)
    (hno : ∀ r, ¬Waits (l ++ tail) c n0 r)
    (htail : ∀ v ∈ tail, ∃ n, Waits (l ++ tail) c n (asObject v)) :
    ∃ times, laterTimes (l ++ tail) c n0 =
      times ++ tail.map fun v => rowTimestamp (asObject v) := by
  unfold laterTimes laterAt waiting
  rw [List.filterMap_append, List.filter_append, List.map_append, List.map_append]
  refine ⟨_, congrArg _ ?_⟩
  generalize hall : l ++ tail = rows at hlow hno htail
  clear hall
  induction tail with
  | nil => rfl
  | cons v tail ih =>
    obtain ⟨n, hw⟩ := htail v List.mem_cons_self
    have hlt := minedUpTo_lt_iff.mpr ⟨hw.nonneg, hw.unmined⟩
    have hlater : n0 < n := lt_of_le_of_ne (hlow.le n (.inl ⟨_, hw⟩)) fun heq => hno _ (heq ▸ hw)
    rw [List.filterMap_cons_some (b := (n, asObject v)), List.filter_cons_of_pos (by simpa),
      List.map_cons, List.map_cons, List.map_cons,
      ih fun u hu => htail u (List.mem_cons_of_mem _ hu)]
    simp [hw.place.1, hw.place.2, hw.isWaiting, hlt]

/-- With such rows last, the entry of a stranded nonce asks for a time that ends in theirs. -/
theorem blockedEntry_moved (now : Int) {l tail : JsonArray} (hperm : rows.Perm (l ++ tail))
    (hlow : Lowest rows stranded c n0) (hno : ∀ r, ¬Waits rows c n0 r)
    (hneg : ∀ n r, Waits rows c n r → 0 ≤ rowTimestamp r) (hne : tail ≠ [])
    (htail : ∀ v ∈ tail, ∃ n, Waits rows c n (asObject v)) :
    ∃ times, (∀ t ∈ times, 0 ≤ t) ∧ ∀ e, blockedEntry (l ++ tail) stranded now c = some e ↔
      kStuckNonceSecs ≤ subInt64 now
        (earliest (times ++ tail.map fun v => rowTimestamp (asObject v))) ∧
      e = ((heading rows c n0).insert "why" (.str "stranded")).insert "since"
        (.int (earliest (times ++ tail.map fun v => rowTimestamp (asObject v)))) := by
  have hlow' := (lowest_perm hperm).mp hlow
  have hno' : ∀ r, ¬Waits (l ++ tail) c n0 r := fun r hr => hno r ((waits_perm hperm).mpr hr)
  obtain ⟨times, htimes⟩ := laterTimes_append hlow' hno' fun v hv =>
    (htail v hv).imp fun _ => (waits_perm hperm).mp
  refine ⟨times, fun t ht => ?_, fun e => ?_⟩
  · have hmem : t ∈ laterTimes (l ++ tail) c n0 := htimes ▸ List.mem_append_left _ ht
    obtain ⟨n, r, hw, rfl⟩ := (mem_laterTimes hlow' hno').mp hmem
    exact hneg n r ((waits_perm hperm).mpr hw)
  · rw [blockedEntry_stranded hlow' hno', htimes, ← heading_perm hperm]
    refine and_iff_right fun hnil => hne ?_
    exact List.map_eq_nil_iff.mp (List.append_eq_nil_iff.mp hnil).2

/-- If the entry is one for two orders, both are since one time or neither is there. -/
theorem since_eq_of_blockedEntry {l tail l' tail' : JsonArray} (hperm : rows.Perm (l ++ tail))
    (hperm' : rows.Perm (l' ++ tail')) (hlow : Lowest rows stranded c n0)
    (hno : ∀ r, ¬Waits rows c n0 r) (hneg : ∀ n r, Waits rows c n r → 0 ≤ rowTimestamp r)
    (hne : tail ≠ []) (hne' : tail' ≠ [])
    (htail : ∀ v ∈ tail, ∃ n, Waits rows c n (asObject v))
    (htail' : ∀ v ∈ tail', ∃ n, Waits rows c n (asObject v))
    (hall : ∀ rows', rows.Perm rows' →
      blockedNonces rows' stranded now = blockedNonces rows stranded now) :
    ∃ times times', (∀ t ∈ times, 0 ≤ t) ∧ (∀ t ∈ times', 0 ≤ t) ∧
      (kStuckNonceSecs ≤ subInt64 now
          (earliest (times ++ tail.map fun v => rowTimestamp (asObject v))) →
        earliest (times ++ tail.map fun v => rowTimestamp (asObject v)) =
          earliest (times' ++ tail'.map fun v => rowTimestamp (asObject v))) := by
  obtain ⟨times, htimes, hentry⟩ := blockedEntry_moved now hperm hlow hno hneg hne htail
  obtain ⟨times', htimes', hentry'⟩ :=
    blockedEntry_moved now hperm' hlow hno hneg hne' htail'
  refine ⟨times, times', htimes, htimes', fun hold => ?_⟩
  have hsame := ((blockedNonces_eq_iff hperm).mp (hall _ hperm) c).trans
    ((blockedNonces_eq_iff hperm').mp (hall _ hperm') c).symm
  have hboth := (hentry' _).mp (hsame ▸ (hentry _).mpr ⟨hold, rfl⟩)
  have hvalue := congrArg (fun e => e.value "since") hboth.2
  simpa using hvalue

/-- A time after 0 is the earliest. -/
theorem earliest_concat_after_zero {times : List Int} {t : Int} (h : ∀ t ∈ times, 0 ≤ t) :
    earliest (times ++ [0, t]) = t := by
  have hzero := earliest_concat_zero h
  unfold earliest at hzero ⊢
  rw [← List.singleton_append (x := (0 : Int)), ← List.append_assoc, List.foldl_append, hzero,
    List.foldl_cons, if_pos rfl, List.foldl_nil]

/-- If no order shows, the time since which a stranded nonce is waited on can be told. -/
theorem tellsSince_of_perm
    (hall : ∀ rows', rows.Perm rows' →
      blockedNonces rows' stranded now = blockedNonces rows stranded now)
    (hlow : Lowest rows stranded c n0) (hno : ∀ r, ¬Waits rows c n0 r) :
    TellsSince rows now c := by
  by_contra htells
  unfold TellsSince at htells
  push Not at htells
  obtain ⟨hneg, ⟨n, r, hw, hr⟩, ⟨m, p, hwp, hp⟩, ⟨k, q, hwq, hq⟩⟩ := htells
  obtain ⟨v, hv, rfl⟩ := hw.recorded
  obtain ⟨u, hu, rfl⟩ := hwp.recorded
  obtain ⟨x, hx, rfl⟩ := hwq.recorded
  have hlast : ∀ {v : Json}, v ∈ rows → rows.Perm (rows.erase v ++ [v]) := fun hv =>
    (List.perm_cons_erase hv).trans (@List.perm_append_comm _ [_] _)
  have hone : ∀ {v : Json} {n : Int}, Waits rows c n (asObject v) →
      ∀ w ∈ [v], ∃ n, Waits rows c n (asObject w) := fun hw w hwm => by
    rw [List.mem_singleton.mp hwm]
    exact ⟨_, hw⟩
  rcases (hneg k _ hwq).eq_or_lt with hzero | hpos
  · -- The row without a time last: since 0. The row with a time last: never since 0.
    obtain ⟨times, times', htimes, htimes', hsame⟩ := since_eq_of_blockedEntry (hlast hv) (hlast hu)
      hlow hno hneg (List.cons_ne_nil _ _) (List.cons_ne_nil _ _) (hone hw) (hone hwp) hall
    rw [List.map_singleton, List.map_singleton, hr, earliest_concat_zero htimes, hzero] at hsame
    have := earliest_concat_pos htimes' hp
    have := hsame hq
    omega
  · -- The old row after the one without a time: since its time. The latter last: since 0.
    have hne : x ≠ v := fun h => by
      rw [h, hr] at hpos
      exact lt_irrefl _ hpos
    have hx' : x ∈ rows.erase v := (List.mem_erase_of_ne hne).mpr hx
    have hperm : rows.Perm ((rows.erase v).erase x ++ [v, x]) :=
      (hlast hv).trans (((List.perm_cons_erase hx').trans
        (@List.perm_append_comm _ [_] _)).append_right _ |>.trans (by
          rw [List.append_assoc]
          exact (List.Perm.swap ..).append_left _))
    have htwo : ∀ w ∈ [v, x], ∃ n, Waits rows c n (asObject w) := fun w hwm => by
      rcases List.mem_cons.mp hwm with rfl | hwm
      · exact ⟨_, hw⟩
      · rw [List.mem_singleton.mp hwm]
        exact ⟨_, hwq⟩
    obtain ⟨times, times', htimes, htimes', hsame⟩ := since_eq_of_blockedEntry hperm (hlast hv)
      hlow hno hneg (List.cons_ne_nil _ _) (List.cons_ne_nil _ _) htwo (hone hw) hall
    rw [List.map_cons, List.map_singleton, List.map_singleton, hr,
      earliest_concat_after_zero htimes, earliest_concat_zero htimes'] at hsame
    have := hsame hq
    omega

end

/-- No order of the rows shows in what is blocked exactly if the attempts that are read as equally
late, but are not, show alike, and no stranded nonce is waited on by a row without a time beside
one with a time. -/
theorem blockedNonces_perm_iff (rows stranded : JsonArray) (now : Int)
    (hd : asCarried.Distinct rows) :
    (∀ rows', rows.Perm rows' →
        blockedNonces rows' stranded now = blockedNonces rows stranded now) ↔
      TiesAgree rows stranded now ∧
      ∀ c n0, Lowest rows stranded c n0 → (∀ r, ¬Waits rows c n0 r) → TellsSince rows now c := by
  constructor
  · intro hall
    refine ⟨fun c n0 hlow r r' hr hr' _ => ?_, fun c n0 => tellsSince_of_perm hall⟩
    obtain ⟨v, hv, rfl⟩ := hr.waits.recorded
    obtain ⟨w, hw, rfl⟩ := hr'.waits.recorded
    obtain ⟨hperm, hfirst⟩ := blockedEntry_first now hv hlow hr
    obtain ⟨hperm', hfirst'⟩ := blockedEntry_first now hw hlow hr'
    have htime := le_antisymm (hr'.le _ hr.waits) (hr.le _ hr'.waits)
    rw [← attemptShown_eq_iff htime, ← hfirst, ← hfirst',
      (blockedNonces_eq_iff hperm).mp (hall _ hperm),
      (blockedNonces_eq_iff hperm').mp (hall _ hperm')]
  · rintro ⟨hties, htells⟩ rows' h
    rw [blockedNonces_eq_iff h]
    intro c
    by_cases hlow : ∃ n0, Lowest rows stranded c n0
    · obtain ⟨n0, hlow⟩ := hlow
      have hlow' := (lowest_perm h).mp hlow
      by_cases hsome : ∃ r, Waits rows c n0 r
      · obtain ⟨r, hr⟩ : ∃ r, Latest rows c n0 r := Reading.exists_latest hsome
        obtain ⟨r', hr'⟩ : ∃ r', Latest rows' c n0 r' :=
          Reading.exists_latest (hsome.imp fun _ => (waits_perm h).mp)
        rw [blockedEntry_latest hlow hr, blockedEntry_latest hlow' hr', attemptShown_perm h]
        have hnew := hr.toNewest
        have hnew' := (newest_perm h).mpr hr'.toNewest
        by_cases heq : r = r'
        · rw [heq]
        · have htime := le_antisymm (hnew.le _ hnew'.waits) (hnew'.le _ hnew.waits)
          refine (attemptShown_eq_iff htime).mpr ?_
          exact hties c n0 hlow r' r hnew' hnew (hd.not_same hnew' hnew (Ne.symm heq))
      · exact blockedEntry_stranded_perm h hlow (not_exists.mp hsome) (htells c n0 hlow
          (not_exists.mp hsome))
    · have hnone : ∀ rows, (¬∃ n0, Lowest rows stranded c n0) →
          blockedEntry rows stranded now c = none := by
        intro rows hno
        cases he : blockedEntry rows stranded now c with
        | none => rfl
        | some e => exact absurd (lowest_of_blockedEntry he) hno
      rw [hnone rows hlow,
        hnone rows' fun hlow' => hlow (hlow'.imp fun _ => (lowest_perm h).mpr)]

/-- A pending send at nonce 6, without a time. -/
def undated : Json := .obj [("chainId", .int 1), ("nonce", .int 6), ("status", .str "pending")]

/-- A pending send at nonce 7, made at 1000. -/
def dated : Json := .obj [("chainId", .int 1), ("nonce", .int 7), ("status", .str "pending"),
  ("timestamp", .int 1000)]

/-- A second attempt at it, made at 1100. -/
def datedLater : Json := .obj [("chainId", .int 1), ("nonce", .int 7), ("status", .str "pending"),
  ("timestamp", .int 1100)]

/-- A nonce that was reserved and never sent. -/
def gapAtFive : Json := .obj [("chainId", .int 1), ("nonce", .int 5)]

/-- Listed in one order the gap is waited on since 1000, listed in the other since 0. -/
theorem blockedNonces_order_shows :
    asCarried.Distinct [undated, dated] ∧ [undated, dated].Perm [dated, undated] ∧
      blockedNonces [dated, undated] [gapAtFive] 2000 ≠
        blockedNonces [undated, dated] [gapAtFive] 2000 := by
  refine ⟨List.pairwise_pair.mpr fun c n _ _ hp hp' => ?_, List.Perm.swap .., by decide +kernel⟩
  have hsix : Names ((asObject undated).value "nonce") 6 := .inl rfl
  have hseven : Names ((asObject dated).value "nonce") 7 := .inl rfl
  exact absurd ((hsix.unique hp.2.1).trans (hp'.2.1.unique hseven)) (by decide)

/-- With a time on each, the two attempts at 7 are reported alike in either order. -/
theorem blockedNonces_perm_iff_dated : asCarried.Distinct [dated, datedLater] ∧
    blockedNonces [dated, datedLater] [gapAtFive] 2000 ≠ [] ∧
    ∀ rows', [dated, datedLater].Perm rows' →
      blockedNonces rows' [gapAtFive] 2000 =
        blockedNonces [dated, datedLater] [gapAtFive] 2000 := by
  have hd : asCarried.Distinct [dated, datedLater] :=
    List.pairwise_pair.mpr fun c n _ _ _ _ => by decide +kernel
  have hwaits : ∀ c n r, Waits [dated, datedLater] c n r → c = 1 ∧ n = 7 ∧ rowTimestamp r ≠ 0 := by
    rintro c n r ⟨⟨v, hv, rfl⟩, -, ⟨hc, hn⟩, -, -⟩
    have hread : rowChain (asObject v) = 1 ∧ nonceOf (asObject v) = some 7 ∧
        rowTimestamp (asObject v) ≠ 0 := by
      simp only [List.mem_cons, List.not_mem_nil, or_false] at hv
      rcases hv with rfl | rfl <;> decide +kernel
    exact ⟨hc.symm.trans hread.1, Option.some.inj (hn.symm.trans hread.2.1), hread.2.2⟩
  refine ⟨hd, by decide +kernel, (blockedNonces_perm_iff _ _ 2000 hd).mpr
    ⟨fun c n0 hlow r r' hr _ _ => ?_, fun c n0 _ _ => .inr (.inl fun n r hr => ?_)⟩⟩
  · -- The gap is below both attempts, so none is at the lowest nonce.
    obtain ⟨rfl, rfl, -⟩ := hwaits c n0 r hr.waits
    have hgap : Stranded [dated, datedLater] [gapAtFive] 1 5 :=
      mem_gaps.mp (by decide +kernel)
    exact absurd (hlow.le 5 (.inr hgap)) (by decide)
  · exact (hwaits c n r hr).2.2

end EthWalletUi
