import EthWalletUi.Qt.Json

/-!
# JSON documents, as JavaScript reads them

The view parses the texts it is given with `JSON.parse`. A member that is absent is `undefined`, so
a `JsonValue` is a JavaScript value too. Integers are taken to be of at most 53 bits, where the two
languages agree.

* `jsString`: `String(v)`; `truthy`; `strictEq`: `===`, which no two documents of their own pass.
* `inheritedNames`: what an object used as a map answers to before anything is put into it.
* `decimal_colon_inj`: a decimal number in front of a colon is told from what follows it.
-/

namespace Qt

namespace Json

mutual

/-- `String(v)`. -/
def jsString : Json → String
  | .null => "null"
  | .bool b => if b then "true" else "false"
  | .int n => toString n
  | .double _ digits => digits
  | .str s => s
  | .arr items => jsJoin items
  | .obj _ => "[object Object]"

/-- `items.join(",")`: a null item is empty. -/
def jsJoin : List Json → String
  | [] => ""
  | [.null] => ""
  | [j] => j.jsString
  | .null :: js => "," ++ jsJoin js
  | j :: js => j.jsString ++ "," ++ jsJoin js

end

end Json

namespace JsonValue

def jsString : JsonValue → String
  | some j => j.jsString
  | none => "undefined"

/-- What an `if` takes a value for. -/
def truthy : JsonValue → Bool
  | none | some .null => false
  | some (.bool b) => b
  | some (.int n) => n != 0
  | some (.double q _) => q != 0
  | some (.str s) => !s.isEmpty
  | some (.arr _) | some (.obj _) => true

/-- `===`: objects and arrays that were parsed apart are not the same. -/
def strictEq : JsonValue → JsonValue → Bool
  | none, none => true
  | some .null, some .null => true
  | some (.bool a), some (.bool b) => a == b
  | some (.int a), some (.int b) => a == b
  | some (.int a), some (.double q _) | some (.double q _), some (.int a) => q == a
  | some (.double p _), some (.double q _) => p == q
  | some (.str a), some (.str b) => a == b
  | _, _ => false

/-- `v === true`. -/
def isTrue (v : JsonValue) : Bool := v.strictEq (some (.bool true))

@[simp] theorem strictEq_int (a b : Int) :
    strictEq (some (.int a)) (some (.int b)) = (a == b) := rfl

end JsonValue

/-- `toLowerCase`, on the letters of an address. -/
def toLowerCase (s : String) : String := String.ofList (s.toList.map Char.toLower)

theorem toLowerCase_inj {a b : String} : toLowerCase a = toLowerCase b ↔ sameFolded a b = true := by
  unfold toLowerCase
  rw [String.ofList_inj, sameFolded, beq_iff_eq]

/-- The names that every JavaScript object answers to, `({})` too. -/
def inheritedNames : List String :=
  ["constructor", "hasOwnProperty", "isPrototypeOf", "propertyIsEnumerable", "toLocaleString",
    "toString", "valueOf", "__proto__", "__defineGetter__", "__defineSetter__", "__lookupGetter__",
    "__lookupSetter__"]

/-! ## Decimal numbers -/

theorem repr_injective_nat {m n : Nat} (h : m.repr = n.repr) : m = n := by
  have hm := readDigits_toDigits m
  rw [← Nat.toList_repr, h, Nat.toList_repr, readDigits_toDigits] at hm
  exact (Option.some.inj hm).symm

theorem isDigit_of_mem_repr {n : Nat} {c : Char} (h : c ∈ n.repr.toList) : c.isDigit = true := by
  rw [Nat.toList_repr] at h
  exact List.all_eq_true.mp (digits_isDigit n) c h

/-- The characters of a number written in decimal. -/
theorem toList_decimal (n : Int) :
    ∃ k : Nat, (toString n).toList = k.repr.toList ∧ n = k ∨
      (toString n).toList = '-' :: k.repr.toList ∧ n = -k := by
  cases n with
  | ofNat k => exact ⟨k, .inl ⟨rfl, rfl⟩⟩
  | negSucc k => exact ⟨k + 1, .inr ⟨by simp [toString, Int.repr], by omega⟩⟩

theorem decimal_injective {m n : Int} (h : toString m = toString n) : m = n := by
  have hminus : ∀ k l : Nat, k.repr.toList ≠ '-' :: l.repr.toList := fun k l he => by
    have := @isDigit_of_mem_repr k '-' (he ▸ List.mem_cons_self ..)
    simp [Char.isDigit] at this
  obtain ⟨k, ⟨hk, rfl⟩ | ⟨hk, rfl⟩⟩ := toList_decimal m <;>
    obtain ⟨l, ⟨hl, rfl⟩ | ⟨hl, rfl⟩⟩ := toList_decimal n <;> rw [h, hl] at hk
  · rw [repr_injective_nat (String.toList_inj.mp hk)]
  · exact absurd hk.symm (hminus k l)
  · exact absurd hk (hminus l k)
  · rw [repr_injective_nat (String.toList_inj.mp (List.cons.inj hk).2)]

theorem colon_not_mem_decimal (n : Int) : ':' ∉ (toString n).toList := by
  have hdigits : ∀ k : Nat, ':' ∉ k.repr.toList := fun k hc => by
    have := isDigit_of_mem_repr hc
    simp [Char.isDigit] at this
  obtain ⟨k, ⟨hk, -⟩ | ⟨hk, -⟩⟩ := toList_decimal n
  · rw [hk]
    exact hdigits k
  · rw [hk, List.mem_cons]
    rintro (h | h)
    · cases h
    · exact hdigits k h

/-- What stands before the first colon is told from what follows it. -/
theorem prefix_colon_inj {a b x y : List Char} (ha : ':' ∉ a) (hb : ':' ∉ b)
    (h : a ++ ':' :: x = b ++ ':' :: y) : a = b ∧ x = y := by
  induction a generalizing b with
  | nil =>
    cases b with
    | nil => exact ⟨rfl, (List.cons.inj h).2⟩
    | cons c b => exact absurd (List.mem_cons.mpr (.inl (List.cons.inj h).1)) hb
  | cons d a ih =>
    cases b with
    | nil => exact absurd (List.mem_cons.mpr (.inl (List.cons.inj h).1.symm)) ha
    | cons c b =>
      obtain ⟨rfl, htail⟩ := List.cons.inj h
      obtain ⟨rfl, rfl⟩ := ih (fun h => ha (List.mem_cons_of_mem _ h))
        (fun h => hb (List.mem_cons_of_mem _ h)) htail
      exact ⟨rfl, rfl⟩

/-- A decimal number in front of a colon is told from what follows it. -/
theorem decimal_colon_inj {m n : Int} {x y : String}
    (h : toString m ++ ":" ++ x = toString n ++ ":" ++ y) : m = n ∧ x = y := by
  have hl := congrArg String.toList h
  simp only [String.toList_append, List.append_assoc] at hl
  obtain ⟨hmn, hxy⟩ := prefix_colon_inj (colon_not_mem_decimal m) (colon_not_mem_decimal n) hl
  exact ⟨decimal_injective (String.toList_inj.mp hmn), String.toList_inj.mp hxy⟩

end Qt
