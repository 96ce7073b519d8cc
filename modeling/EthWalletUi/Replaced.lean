import EthWalletUi.Resend

/-!
# Marking replaced rows decides nothing about what is blocked

* `Reading.Flagged`: the rows that are to be marked, with no reference to the loops of
  `markReplaced`; `flagged_iff`: it marks those, as it reads them.
* `markReplaced_getElem`: a row keeps its place and its fields; `markReplaced_reorder`: the marking
  does not look at the order.
* `SafelyMarked`: with these, that marking twice is marking once, and that `blockedNonces` does not
  notice it: what an exact match marks is at or below the highest mined nonce.
* `markReplaced_safe_iff`: all of it holds exactly if no waiting row is read where it is not.
-/

namespace EthWalletUi

open Qt

namespace Reading

variable (R : Reading)

/-- A confirmed or failed row is at the chain and the nonce of `r`. -/
def Overtaken (rows : JsonArray) (r : JsonObject) : Prop :=
  ∃ c n, R.place r c n ∧ ∃ v ∈ rows, rowMined (asObject v) = true ∧ R.place (asObject v) c n

/-- The sender settled `r` as replaced, or it waits at a nonce that another row has mined. -/
def Flagged (rows : JsonArray) (r : JsonObject) : Prop :=
  (r.value "status").toString = "replaced" ∨ rowWaiting r = true ∧ R.Overtaken rows r

end Reading

/-- The rows to be marked, as the code reads them. -/
abbrev Flagged : JsonArray → JsonObject → Prop := asRead.Flagged

/-- The items of `l` in another order. -/
def reorder {α : Type} (l : List α) (order : List Nat) : List α := order.filterMap fun i => l[i]?

section

variable {α β : Type}

theorem reorder_map (f : α → β) (l : List α) (order : List Nat) :
    reorder (l.map f) order = (reorder l order).map f := by
  unfold reorder
  rw [List.map_filterMap]
  exact List.filterMap_congr fun i _ => List.getElem?_map

theorem reorder_perm {l : List α} {order : List Nat} (h : order.Perm (List.range l.length)) :
    (reorder l order).Perm l := by
  have hall : ∀ l : List α, (List.range l.length).filterMap (fun i => l[i]?) = l := by
    intro l
    induction l with
    | nil => rfl
    | cons x l ih =>
      rw [List.length_cons, List.range_succ_eq_map, List.filterMap_cons]
      simp only [List.getElem?_cons_zero, List.filterMap_map, Function.comp_def,
        List.getElem?_cons_succ, ih]
  have := h.filterMap fun i => l[i]?
  rwa [hall] at this

end

/-! ## The rows that are marked -/

/-- What `markReplaced` asks of a row. -/
def flagged (rows : JsonArray) (r : JsonObject) : Bool :=
  (r.value "status").toString == "replaced" ||
    match nonceOf r with
    | some n => rowWaiting r && (rows.filterMap fun v => match nonceOf (asObject v) with
      | some n => if rowMined (asObject v) then some (rowChain (asObject v), n) else none
      | none => none).contains (rowChain r, n)
    | none => false

/-- A row as `markReplaced` leaves it. -/
def markRow (rows : JsonArray) (v : Json) : Json :=
  if flagged rows (asObject v) then .obj ((asObject v).insert "replaced" (.bool true)) else v

theorem markReplaced_eq (rows : JsonArray) : markReplaced rows = rows.map (markRow rows) := rfl

section

variable {rows rows' : JsonArray} {r : JsonObject} {v : Json}

theorem overtaken_iff : asRead.Overtaken rows r ↔ ∃ n, nonceOf r = some n ∧
    ∃ v ∈ rows, rowMined (asObject v) = true ∧ rowChain (asObject v) = rowChain r ∧
      nonceOf (asObject v) = some n := by
  constructor
  · rintro ⟨c, n, ⟨rfl, hn⟩, h⟩
    exact ⟨n, hn, h⟩
  · rintro ⟨n, hn, h⟩
    exact ⟨_, n, ⟨rfl, hn⟩, h⟩

theorem flagged_iff : flagged rows r = true ↔ Flagged rows r := by
  have hmined : ∀ n, (rows.filterMap fun v => match nonceOf (asObject v) with
      | some n => if rowMined (asObject v) then some (rowChain (asObject v), n) else none
      | none => none).contains (rowChain r, n) = true ↔
        ∃ v ∈ rows, rowMined (asObject v) = true ∧ rowChain (asObject v) = rowChain r ∧
          nonceOf (asObject v) = some n := by
    intro n
    rw [List.contains_iff_mem, List.mem_filterMap]
    refine exists_congr fun v => and_congr_right fun _ => ?_
    cases nonceOf (asObject v) with
    | none => simp
    | some k => by_cases hm : rowMined (asObject v) = true <;> simp [hm]
  unfold flagged Flagged Reading.Flagged
  rw [Bool.or_eq_true, beq_iff_eq, overtaken_iff]
  refine or_congr_right ?_
  cases nonceOf r with
  | none => simp
  | some n =>
    simp only [Bool.and_eq_true, hmined, Option.some.injEq]
    exact and_congr_right fun _ => ⟨fun h => ⟨n, rfl, h⟩, fun ⟨_, hk, h⟩ => hk ▸ h⟩

/-- No mined row is marked. -/
theorem Reading.Flagged.not_mined {R : Reading} (h : R.Flagged rows r) : rowMined r = false := by
  unfold rowMined
  rcases h with h | ⟨h, -⟩
  · rw [h]
    decide
  · unfold rowWaiting at h
    simp only [Bool.and_eq_true, Bool.or_eq_true, beq_iff_eq] at h
    rcases h.1 with h | h <;> rw [h] <;> decide

/-- A row that waits is not settled. -/
theorem status_of_waiting (h : rowWaiting r = true) : (r.value "status").toString ≠ "replaced" := by
  intro hs
  unfold rowWaiting at h
  rw [hs] at h
  exact absurd h (by simp)

theorem markRow_of_flagged (h : Flagged rows (asObject v)) :
    markRow rows v = .obj ((asObject v).insert "replaced" (.bool true)) := by
  unfold markRow
  rw [if_pos (flagged_iff.mpr h)]

theorem markRow_of_not_flagged (h : ¬Flagged rows (asObject v)) : markRow rows v = v := by
  unfold markRow
  rw [if_neg fun hf => h (flagged_iff.mp hf)]

/-- Every other field of a row is as it was. -/
theorem markRow_value {k : String} (hk : k ≠ "replaced") :
    (asObject (markRow rows v)).value k = (asObject v).value k := by
  by_cases h : Flagged rows (asObject v)
  · rw [markRow_of_flagged h]
    exact JsonObject.value_insert_ne _ _ hk
  · rw [markRow_of_not_flagged h]

theorem markRow_nonceOf : nonceOf (asObject (markRow rows v)) = nonceOf (asObject v) := by
  unfold nonceOf
  rw [markRow_value (by decide)]

theorem markRow_rowMined : rowMined (asObject (markRow rows v)) = rowMined (asObject v) := by
  unfold rowMined
  rw [markRow_value (by decide)]

theorem markRow_rowChain : rowChain (asObject (markRow rows v)) = rowChain (asObject v) := by
  unfold rowChain
  rw [markRow_value (by decide)]

/-- Which rows are marked depends on the mined rows alone, and not on their order. -/
theorem Flagged.congr (h : ∀ n c, (∃ v ∈ rows, rowMined (asObject v) = true ∧
      rowChain (asObject v) = c ∧ nonceOf (asObject v) = some n) ↔
    ∃ v ∈ rows', rowMined (asObject v) = true ∧ rowChain (asObject v) = c ∧
      nonceOf (asObject v) = some n) : Flagged rows r ↔ Flagged rows' r := by
  unfold Flagged Reading.Flagged
  simp only [overtaken_iff, h]

theorem markRow_congr (h : Flagged rows (asObject v) ↔ Flagged rows' (asObject v)) :
    markRow rows v = markRow rows' v := by
  by_cases hf : Flagged rows (asObject v)
  · rw [markRow_of_flagged hf, markRow_of_flagged (h.mp hf)]
  · rw [markRow_of_not_flagged hf, markRow_of_not_flagged fun hf' => hf (h.mpr hf')]

/-! ## The marking as a whole -/

/-- The row at a place stays there, marked or as it was. -/
theorem markReplaced_getElem (rows : JsonArray) (i : Nat) :
    (markReplaced rows)[i]? = rows[i]?.map (markRow rows) := by
  rw [markReplaced_eq, List.getElem?_map]

theorem markReplaced_reorder {order : List Nat} (h : order.Perm (List.range rows.length)) :
    markReplaced (reorder rows order) = reorder (markReplaced rows) order := by
  have hperm := reorder_perm h
  rw [markReplaced_eq, markReplaced_eq, reorder_map]
  refine List.map_congr_left fun v _ => markRow_congr (Flagged.congr fun n c => ?_)
  exact exists_congr fun v => and_congr_left fun _ => hperm.mem_iff

/-- The marked rows mine the same nonces. -/
theorem markReplaced_mined (rows : JsonArray) (n c : Int) :
    (∃ v ∈ markReplaced rows, rowMined (asObject v) = true ∧ rowChain (asObject v) = c ∧
      nonceOf (asObject v) = some n) ↔ ∃ v ∈ rows, rowMined (asObject v) = true ∧
        rowChain (asObject v) = c ∧ nonceOf (asObject v) = some n := by
  rw [markReplaced_eq]
  simp only [List.mem_map, exists_exists_and_eq_and, markRow_rowMined, markRow_rowChain,
    markRow_nonceOf]

theorem markReplaced_idem (rows : JsonArray) :
    markReplaced (markReplaced rows) = markReplaced rows := by
  rw [markReplaced_eq (markReplaced rows), markReplaced_eq rows, List.map_map]
  refine List.map_congr_left fun v _ => ?_
  rw [Function.comp_apply, ← markReplaced_eq,
    markRow_congr (Flagged.congr (markReplaced_mined rows))]
  by_cases h : Flagged rows (asObject v)
  · rw [markRow_of_flagged h]
    unfold markRow
    split
    · exact congrArg Json.obj (JsonObject.insert_eq_self (JsonObject.value_insert_self ..))
    · rfl
  · rw [markRow_of_not_flagged h, markRow_of_not_flagged h]

/-! ## What is blocked -/

theorem markReplaced_minedUpTo (rows : JsonArray) (c : Int) :
    minedUpTo (markReplaced rows) c = minedUpTo rows c := by
  unfold minedUpTo
  rw [markReplaced_eq, List.foldl_map]
  congr 1
  funext m v
  simp only [minedStep, markRow_nonceOf, markRow_rowMined, markRow_rowChain]

/-- A row that is marked waited at nothing: its nonce is not above the mined ones. -/
theorem Flagged.not_above (h : Flagged rows r) {n : Int} (hn : nonceOf r = some n) :
    ¬(rowWaiting r = true ∧ minedUpTo rows (rowChain r) < n) := by
  rintro ⟨hw, hlt⟩
  rcases h with hs | ⟨-, hover⟩
  · exact status_of_waiting hw hs
  · obtain ⟨m, hm, v, hv, hmined, hc, hvm⟩ := overtaken_iff.mp hover
    cases hn.symm.trans hm
    exact Int.lt_irrefl _ ((minedUpTo_lt_iff.mp hlt).2 v hv hmined _ ⟨hc, hvm⟩)

theorem markReplaced_waiting (rows : JsonArray) (c : Int) :
    waiting (markReplaced rows) c = waiting rows c := by
  unfold waiting
  rw [markReplaced_minedUpTo, markReplaced_eq, List.filterMap_map]
  refine List.filterMap_congr fun v _ => ?_
  simp only [Function.comp_apply, markRow_nonceOf, markRow_rowChain]
  by_cases h : Flagged rows (asObject v)
  · have hout : rowWaiting (asObject (markRow rows v)) = false := by
      unfold rowWaiting
      rw [markRow_of_flagged h]
      simp [asObject, JsonValue.toObject, JsonValue.toBool]
    cases hn : nonceOf (asObject v) with
    | none => rfl
    | some n =>
      have hnot := h.not_above hn
      simp only [hout, Bool.false_and, Bool.false_eq_true, ↓reduceIte]
      rw [if_neg]
      simp only [Bool.and_eq_true, beq_iff_eq, decide_eq_true_eq]
      rintro ⟨⟨hw, rfl⟩, hlt⟩
      exact hnot ⟨hw, hlt⟩
  · rw [markRow_of_not_flagged h]

theorem markReplaced_gaps (rows stranded : JsonArray) (c : Int) :
    gaps (markReplaced rows) stranded c = gaps rows stranded c := by
  unfold gaps
  rw [markReplaced_minedUpTo]

theorem blockedNonces_markReplaced (rows stranded : JsonArray) (now : Int) :
    blockedNonces (markReplaced rows) stranded now = blockedNonces rows stranded now := by
  have hentry : blockedEntry (markReplaced rows) stranded now =
      blockedEntry rows stranded now := by
    funext c
    simp only [blockedEntry, markReplaced_waiting, markReplaced_gaps]
  have hkeys : (markReplaced rows ++ stranded).map (fun v => rowChain (asObject v)) =
      (rows ++ stranded).map fun v => rowChain (asObject v) := by
    rw [List.map_append, List.map_append, markReplaced_eq, List.map_map]
    congr 1
    exact List.map_congr_left fun v _ => markRow_rowChain
  have horder : blockedOrder (markReplaced rows) stranded = blockedOrder rows stranded := by
    simp only [blockedOrder, markReplaced_waiting, markReplaced_gaps, hkeys]
  rw [blockedNonces, hentry, horder]
  rfl

end

/-- Marking keeps every row in its place and every other field, marks exactly the rows to be marked
and no mined one, is idempotent, does not look at the order, and leaves what is blocked as it is. -/
structure SafelyMarked (rows : JsonArray) : Prop where
  length : (markReplaced rows).length = rows.length
  marks : ∀ (i : Nat) (v : Json), rows[i]? = some v → ∃ w, (markReplaced rows)[i]? = some w ∧
    (∀ k, k ≠ "replaced" → (asObject w).value k = (asObject v).value k) ∧
    (asCarried.Flagged rows (asObject v) → rowMined (asObject v) = false ∧
      w = .obj ((asObject v).insert "replaced" (.bool true))) ∧
    (¬asCarried.Flagged rows (asObject v) → w = v)
  idem : markReplaced (markReplaced rows) = markReplaced rows
  reorder : ∀ order, order.Perm (List.range rows.length) →
    markReplaced (reorder rows order) = reorder (markReplaced rows) order
  blocked : ∀ stranded now,
    blockedNonces (markReplaced rows) stranded now = blockedNonces rows stranded now

section

variable {rows : JsonArray} {v : Json}

/-- A waiting row that is marked is not the row it was. -/
theorem insert_replaced_ne (hw : rowWaiting (asObject v) = true) :
    .obj ((asObject v).insert "replaced" (.bool true)) ≠ v := by
  intro heq
  have hmarked : ∀ o : JsonObject,
      rowWaiting (asObject (.obj (o.insert "replaced" (.bool true)))) = false := fun o => by
    simp [rowWaiting, asObject, JsonValue.toObject, JsonValue.toBool]
  have hout := hmarked (asObject v)
  rw [heq, hw] at hout
  cases hout

/-- The rows that are marked are those to be marked, if each waiting row is read beside a mined one
exactly if it is beside one. -/
theorem flagged_carried_iff
    (h : ∀ v ∈ rows, rowWaiting (asObject v) = true →
      (asRead.Overtaken rows (asObject v) ↔ asCarried.Overtaken rows (asObject v)))
    (hv : v ∈ rows) : asCarried.Flagged rows (asObject v) ↔ Flagged rows (asObject v) :=
  or_congr_right (and_congr_right fun hw => (h v hv hw).symm)

/-- Legible rows are read where they are. -/
theorem AllLegible.overtaken_iff {stranded : JsonArray} {now : Int}
    (h : AllLegible rows stranded now) (hv : v ∈ rows) (hw : rowWaiting (asObject v) = true) :
    asRead.Overtaken rows (asObject v) ↔ asCarried.Overtaken rows (asObject v) := by
  refine exists_congr fun c => exists_congr fun n => ?_
  refine and_congr (h.listed v hv (.inl hw) c n).symm (exists_congr fun m => ?_)
  exact and_congr_right fun hm => and_congr_right fun hmined =>
    (h.listed m hm (.inr hmined) c n).symm

end

/-- Marking is safe exactly if of every waiting row a mined row is read at its chain and nonce when,
and only when, one carries them. -/
theorem markReplaced_safe_iff (rows : JsonArray) : SafelyMarked rows ↔
    ∀ v ∈ rows, rowWaiting (asObject v) = true →
      (asRead.Overtaken rows (asObject v) ↔ asCarried.Overtaken rows (asObject v)) := by
  constructor
  · intro h v hv hw
    obtain ⟨i, hi⟩ := List.mem_iff_getElem?.mp hv
    obtain ⟨w, hget, -, hmark, hkeep⟩ := h.marks i v hi
    rw [markReplaced_getElem, hi, Option.map_some, Option.some.injEq] at hget
    have hflagged : ∀ R : Reading, R.Flagged rows (asObject v) ↔ R.Overtaken rows (asObject v) :=
      fun R => (or_iff_right (status_of_waiting hw)).trans (and_iff_right hw)
    constructor
    · intro hover
      by_contra hno
      have hkept := hkeep (mt (hflagged asCarried).mp hno)
      rw [← hget, markRow_of_flagged ((hflagged asRead).mpr hover)] at hkept
      exact insert_replaced_ne hw hkept
    · intro hover
      by_contra hno
      have hmarked := (hmark ((hflagged asCarried).mpr hover)).2
      rw [← hget, markRow_of_not_flagged (mt (hflagged asRead).mp hno)] at hmarked
      exact insert_replaced_ne hw hmarked.symm
  · intro h
    refine ⟨by rw [markReplaced_eq, List.length_map], fun i v hv => ?_, markReplaced_idem rows,
      fun order => markReplaced_reorder, blockedNonces_markReplaced rows⟩
    have hiff := flagged_carried_iff h (List.mem_of_getElem? hv)
    refine ⟨markRow rows v, by rw [markReplaced_getElem, hv]; rfl, fun k => markRow_value,
      fun hf => ⟨hf.not_mined, markRow_of_flagged (hiff.mp hf)⟩,
      fun hf => markRow_of_not_flagged (mt hiff.mpr hf)⟩

/-- A row at nonce 0 of chain `a`. -/
def rowOn (a : Int) (status : String) : Json :=
  .obj [("chainId", .int a), ("nonce", .int 0), ("status", .str status)]

/-- A send on one chain whose id does not fit 32 bits is marked for a send mined on another. -/
theorem markReplaced_collides :
    ¬SafelyMarked [rowOn 2147483649 "pending", rowOn 2147483648 "confirmed"] := by
  intro h
  obtain ⟨w, hget, -, -, hkeep⟩ := h.marks 0 _ rfl
  have hnot : ¬asCarried.Flagged [rowOn 2147483649 "pending", rowOn 2147483648 "confirmed"]
      (asObject (rowOn 2147483649 "pending")) := by
    rintro (hs | ⟨-, c, n, hp, v, hv, hmined, hpv⟩)
    · exact absurd hs (by decide)
    · simp only [List.mem_cons, List.not_mem_nil, or_false] at hv
      rcases hv with rfl | rfl
      · exact absurd hmined (by decide)
      · have hown : Names ((asObject (rowOn 2147483649 "pending")).value "chainId") 2147483649 :=
          .inl rfl
        have hother : Names ((asObject (rowOn 2147483648 "confirmed")).value "chainId")
            2147483648 := .inl rfl
        exact absurd ((hp.1.unique hown).symm.trans (hpv.1.unique hother)) (by decide)
  rw [hkeep hnot] at hget
  exact absurd hget (by decide +kernel)

end EthWalletUi
