import EthWalletUi.Qt.Str

/-!
# JSON values and JSON texts, as Qt's `QJson` classes read them

* `Json`: a parsed document. A number is an integer (`QJsonValue` keeps those that fit 64 bits as
  integers) or a double; a double carries the decimal text that Qt prints it as.
* `JsonValue`: a `QJsonValue`, which may be undefined. Its accessors answer a default for a value
  of another type: `toInt` answers 0 for everything but an integer of 32 bits.
* `JsonObject`, `JsonArray`: members and items in a list. Qt sorts the members of an object by
  key; no accessor here shows their order.
* `Text`: a `QString` that holds a JSON text, with the document that `QJsonDocument::fromJson`
  reads in it. Two texts are the same string only if they have the same characters.
-/

namespace Qt

/-- A JSON document. `double q digits`: a double of exact value `q` that prints as `digits`. -/
inductive Json where
  | null
  | bool (b : Bool)
  | int (n : Int)
  | double (q : Rat) (digits : String)
  | str (s : String)
  | arr (items : List Json)
  | obj (members : List (String × Json))
  deriving Inhabited

/-- A `QJsonValue`: `none` is undefined. -/
abbrev JsonValue := Option Json

abbrev JsonObject := List (String × Json)

abbrev JsonArray := List Json

namespace Json

mutual

/-- Equality of documents is decidable. -/
def decEq : (a b : Json) → Decidable (a = b)
  | .null, .null => isTrue rfl
  | .bool a, .bool b => if h : a = b then isTrue (by rw [h]) else isFalse (by simpa using h)
  | .int a, .int b => if h : a = b then isTrue (by rw [h]) else isFalse (by simpa using h)
  | .double a s, .double b t =>
    if h : a = b ∧ s = t then isTrue (by rw [h.1, h.2]) else isFalse (by simpa using h)
  | .str a, .str b => if h : a = b then isTrue (by rw [h]) else isFalse (by simpa using h)
  | .arr a, .arr b => match decEqItems a b with
    | isTrue h => isTrue (by rw [h])
    | isFalse h => isFalse (by simpa using h)
  | .obj a, .obj b => match decEqMembers a b with
    | isTrue h => isTrue (by rw [h])
    | isFalse h => isFalse (by simpa using h)
  | .null, .bool _ | .null, .int _ | .null, .double _ _ | .null, .str _ | .null, .arr _
  | .null, .obj _ | .bool _, .null | .bool _, .int _ | .bool _, .double _ _ | .bool _, .str _
  | .bool _, .arr _ | .bool _, .obj _ | .int _, .null | .int _, .bool _ | .int _, .double _ _
  | .int _, .str _ | .int _, .arr _ | .int _, .obj _ | .double _ _, .null | .double _ _, .bool _
  | .double _ _, .int _ | .double _ _, .str _ | .double _ _, .arr _ | .double _ _, .obj _
  | .str _, .null | .str _, .bool _ | .str _, .int _ | .str _, .double _ _ | .str _, .arr _
  | .str _, .obj _ | .arr _, .null | .arr _, .bool _ | .arr _, .int _ | .arr _, .double _ _
  | .arr _, .str _ | .arr _, .obj _ | .obj _, .null | .obj _, .bool _ | .obj _, .int _
  | .obj _, .double _ _ | .obj _, .str _ | .obj _, .arr _ => isFalse (by simp)

def decEqItems : (a b : List Json) → Decidable (a = b)
  | [], [] => isTrue rfl
  | [], _ :: _ | _ :: _, [] => isFalse (by simp)
  | a :: as, b :: bs => match decEq a b, decEqItems as bs with
    | isTrue h, isTrue hs => isTrue (by rw [h, hs])
    | isFalse h, _ => isFalse (by simp [h])
    | _, isFalse h => isFalse (by simp [h])

def decEqMembers : (a b : List (String × Json)) → Decidable (a = b)
  | [], [] => isTrue rfl
  | [], _ :: _ | _ :: _, [] => isFalse (by simp)
  | (k, a) :: as, (l, b) :: bs =>
    if hk : k = l then match decEq a b, decEqMembers as bs with
      | isTrue h, isTrue hs => isTrue (by rw [hk, h, hs])
      | isFalse h, _ => isFalse (by simp [h])
      | _, isFalse h => isFalse (by simp [h])
    else isFalse (by simp [hk])

end

instance : DecidableEq Json := decEq

/-! ## Printing -/

/-- A character of a string as `QJsonDocument::toJson` writes it. -/
def escape (c : Char) : List Char :=
  if c = '"' then ['\\', '"']
  else if c = '\\' then ['\\', '\\']
  else if c.toNat = 8 then ['\\', 'b']
  else if c.toNat = 9 then ['\\', 't']
  else if c.toNat = 10 then ['\\', 'n']
  else if c.toNat = 12 then ['\\', 'f']
  else if c.toNat = 13 then ['\\', 'r']
  else if c.toNat < 32 then
    ['\\', 'u', '0', '0', Nat.digitChar (c.toNat / 16), Nat.digitChar (c.toNat % 16)]
  else [c]

def quote (s : String) : String := "\"" ++ String.ofList (s.toList.flatMap escape) ++ "\""

mutual

/-- `QJsonDocument::toJson(Compact)`. -/
def render : Json → String
  | .null => "null"
  | .bool b => if b then "true" else "false"
  | .int n => toString n
  | .double _ digits => digits
  | .str s => quote s
  | .arr items => "[" ++ renderItems items ++ "]"
  | .obj members => "\x7b" ++ renderMembers members ++ "\x7d"

def renderItems : List Json → String
  | [] => ""
  | [j] => render j
  | j :: js => render j ++ "," ++ renderItems js

def renderMembers : List (String × Json) → String
  | [] => ""
  | [(k, j)] => quote k ++ ":" ++ render j
  | (k, j) :: js => quote k ++ ":" ++ render j ++ "," ++ renderMembers js

end

end Json

/-! ## Numbers -/

def inInt32 (n : Int) : Bool := -2147483648 ≤ n && n ≤ 2147483647

/-- An integer rounded to a double, ties to even: only past `2 ^ 53` does it move. -/
def doubleOfInt (n : Int) : Int :=
  if n.natAbs ≤ 2 ^ 53 then n
  else
    let unit := 2 ^ (Nat.log2 n.natAbs - 52)
    let q := n.natAbs / unit
    let r := n.natAbs % unit
    let q := if 2 * r < unit then q else if unit < 2 * r then q + 1 else q + q % 2
    n.sign * (q * unit : Nat)

/-- `static_cast<qint64>` of a double. Out of range it is undefined; this is what x86-64 gives. -/
def castInt64 (q : Rat) : Int :=
  let t := if 0 ≤ q then q.floor else q.ceil
  if -2 ^ 63 ≤ t ∧ t < 2 ^ 63 then t else -2 ^ 63

/-- `qRound64`: to the nearest integer, halves away from zero. -/
def qRound64 (q : Rat) : Int :=
  if 0 ≤ q then castInt64 (q + 1 / 2) else -castInt64 (-q + 1 / 2)

/-- `a - b` of `qint64`s. Its overflow is undefined; this is what x86-64 gives. -/
def subInt64 (a b : Int) : Int := (a - b).bmod (2 ^ 64)

namespace JsonValue

def isBool : JsonValue → Bool
  | some (.bool _) => true
  | _ => false

def isDouble : JsonValue → Bool
  | some (.int _) | some (.double _ _) => true
  | _ => false

def isString : JsonValue → Bool
  | some (.str _) => true
  | _ => false

def isArray : JsonValue → Bool
  | some (.arr _) => true
  | _ => false

def isNull : JsonValue → Bool
  | some .null => true
  | _ => false

def isUndefined (v : JsonValue) : Bool := v.isNone

def toBool : JsonValue → Bool
  | some (.bool b) => b
  | _ => false

/-- 0 for anything but an integer of 32 bits. -/
def toInt : JsonValue → Int
  | some (.int n) => if inInt32 n then n else 0
  | some (.double q _) => if q.den = 1 ∧ inInt32 q.num then q.num else 0
  | _ => 0

/-- A 64-bit integer, 0 for anything else. -/
def toInteger : JsonValue → Int
  | some (.int n) => n
  | some (.double q _) => if q.den = 1 ∧ -2 ^ 63 ≤ q.num ∧ q.num < 2 ^ 63 then q.num else 0
  | _ => 0

def toDouble : JsonValue → Rat
  | some (.int n) => doubleOfInt n
  | some (.double q _) => q
  | _ => 0

/-- `toString(fallback)`; the fallback is empty by default. -/
def toString (v : JsonValue) (fallback : String := "") : String :=
  match v with
  | some (.str s) => s
  | _ => fallback

def toObject : JsonValue → JsonObject
  | some (.obj o) => o
  | _ => []

def toArray : JsonValue → JsonArray
  | some (.arr a) => a
  | _ => []

/-- `toVariant().toString()`: numbers and booleans print, containers do not. -/
def toVariantString : JsonValue → String
  | some (.str s) => s
  | some (.bool b) => if b then "true" else "false"
  | some (.int n) => s!"{n}"
  | some (.double _ digits) => digits
  | _ => ""

/-- `toVariant().toLongLong()`. -/
def toVariantLongLong : JsonValue → Int
  | some (.str s) => (toLongLong s).getD 0
  | some (.bool b) => if b then 1 else 0
  | some (.int n) => n
  | some (.double q _) => qRound64 q
  | _ => 0

/-- `toInt` stays within 32 bits. -/
theorem toInt_inInt32 (v : JsonValue) : inInt32 v.toInt = true := by
  unfold toInt
  split
  · split
    · assumption
    · rfl
  · split
    · rename_i h; exact h.2
    · rfl
  · rfl

theorem toInt_int {n : Int} (h : inInt32 n = true) : JsonValue.toInt (some (.int n)) = n := by
  simp [toInt, h]

/-- An integer past 32 bits reads as 0. -/
theorem toInt_int_or (n : Int) :
    JsonValue.toInt (some (.int n)) = n ∨ JsonValue.toInt (some (.int n)) = 0 := by
  cases h : inInt32 n
  · exact .inr (by simp [toInt, h])
  · exact .inl (toInt_int h)

end JsonValue

/-! ## Objects -/

namespace JsonObject

/-- `QJsonObject::value`: undefined when there is no such member. -/
def value (o : JsonObject) (k : String) : JsonValue := o.lookup k

def contains (o : JsonObject) (k : String) : Bool := (o.value k).isSome

/-- `QJsonObject::insert` of a defined value: it replaces the member if there is one. -/
def insert : JsonObject → String → Json → JsonObject
  | [], k, j => [(k, j)]
  | (l, i) :: o, k, j => if k = l then (k, j) :: o else (l, i) :: insert o k j

def remove (o : JsonObject) (k : String) : JsonObject := o.filter fun m => m.1 != k

/-- `QJsonObject::insert`: an undefined value removes the member. -/
def insertValue (o : JsonObject) (k : String) : JsonValue → JsonObject
  | some j => o.insert k j
  | none => o.remove k

@[simp] theorem value_nil (k : String) : value [] k = none := rfl

theorem value_cons (k l : String) (j : Json) (o : JsonObject) :
    value ((l, j) :: o) k = if k = l then some j else o.value k := by
  unfold value
  rw [List.lookup_cons]
  by_cases h : k = l
  · simp [h]
  · rw [if_neg h, beq_eq_false_iff_ne.mpr h]

theorem value_insert (o : JsonObject) (k l : String) (j : Json) :
    (o.insert k j).value l = if l = k then some j else o.value l := by
  induction o with
  | nil => rw [insert, value_cons]
  | cons m o ih =>
    obtain ⟨a, i⟩ := m
    unfold insert
    split
    · rename_i h
      subst h
      simp only [value_cons]
      split <;> rfl
    · rename_i h
      simp only [value_cons, ih]
      by_cases hla : l = a
      · rw [if_pos hla, if_pos hla, if_neg]
        rintro rfl; exact h hla
      · rw [if_neg hla, if_neg hla]

@[simp] theorem value_insert_self (o : JsonObject) (k : String) (j : Json) :
    (o.insert k j).value k = some j := by rw [value_insert, if_pos rfl]

theorem value_insert_ne (o : JsonObject) {k l : String} (j : Json) (h : l ≠ k) :
    (o.insert k j).value l = o.value l := by rw [value_insert, if_neg h]

theorem value_remove (o : JsonObject) (k l : String) :
    (o.remove k).value l = if l = k then none else o.value l := by
  induction o with
  | nil => simp [remove]
  | cons m o ih =>
    obtain ⟨a, i⟩ := m
    unfold remove at ih ⊢
    rw [List.filter_cons]
    by_cases ha : a = k
    · subst ha
      simp only [bne_self_eq_false, Bool.false_eq_true, ↓reduceIte, ih, value_cons]
      split <;> rfl
    · simp only [bne_iff_ne, ne_eq, ha, not_false_eq_true, ↓reduceIte, value_cons, ih]
      by_cases hl : l = a
      · simp [hl, ha]
      · simp [hl]

theorem value_insertValue (o : JsonObject) (k l : String) (v : JsonValue) :
    (o.insertValue k v).value l = if l = k then v else o.value l := by
  cases v with
  | none => exact value_remove o k l
  | some j => exact value_insert o k l j

@[simp] theorem insert_ne_nil (o : JsonObject) (k : String) (j : Json) : o.insert k j ≠ [] := by
  cases o with
  | nil => simp [insert]
  | cons m o => unfold insert; split <;> simp

/-- Inserting what a member already holds changes nothing. -/
theorem insert_eq_self {o : JsonObject} {k : String} {j : Json} (h : o.value k = some j) :
    o.insert k j = o := by
  induction o with
  | nil => simp at h
  | cons m o ih =>
    obtain ⟨a, i⟩ := m
    rw [value_cons] at h
    unfold insert
    split
    · rename_i hk
      rw [if_pos hk] at h
      cases h
      rw [hk]
    · rename_i hk
      rw [if_neg hk] at h
      rw [ih h]

end JsonObject

/-! ## Texts -/

/-- A `QString` that may hold a JSON text: `doc` is the document read in it, if it is one. -/
inductive Text where
  | empty
  | text (chars : String) (doc : Option Json)
  deriving DecidableEq, Inhabited

namespace Text

def isEmpty : Text → Bool
  | .empty => true
  | .text _ _ => false

/-- `QJsonDocument::fromJson`. -/
def doc : Text → Option Json
  | .empty => none
  | .text _ d => d

/-- `QJsonDocument::fromJson(text).object()`. -/
def object (t : Text) : JsonObject := JsonValue.toObject t.doc

/-- `QJsonDocument::fromJson(text).array()`. -/
def array (t : Text) : JsonArray := JsonValue.toArray t.doc

/-- `QJsonDocument(json).toJson(QJsonDocument::Compact)`. -/
def compact (j : Json) : Text := .text j.render (some j)

/-- `QJsonDocument` reads back what it wrote. -/
@[simp] theorem object_compact (o : JsonObject) : (compact (.obj o)).object = o := rfl

@[simp] theorem array_compact (a : JsonArray) : (compact (.arr a)).array = a := rfl

@[simp] theorem object_empty : Text.object .empty = [] := rfl

@[simp] theorem isEmpty_compact (j : Json) : (compact j).isEmpty = false := rfl

@[simp] theorem compact_ne_empty (j : Json) : compact j ≠ .empty := by simp [compact]

theorem isEmpty_iff {t : Text} : t.isEmpty = true ↔ t = .empty := by cases t <;> simp [isEmpty]

end Text

end Qt
