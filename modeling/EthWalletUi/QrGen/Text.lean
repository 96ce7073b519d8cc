import Mathlib

/-!
# The bytes of a text (`toUtf8` of `qrcodegen.js`)

A QML import has no `TextEncoder`, so the encoder escapes the text with `encodeURIComponent` and
reads the bytes out of the escapes. `toUtf8_eq`: what it reads is the UTF-8 encoding of the text.
Texts are sequences of Unicode characters; a lone surrogate, on which `encodeURIComponent` throws, is
none.
-/

namespace EthWalletUi.QrGen

/-- The characters `encodeURIComponent` keeps. -/
def unreserved (c : Char) : Bool := c.isAlphanum || "-_.!~*'()".toList.contains c

/-- An upper-case hexadecimal digit. -/
def hexDigit (n : Nat) : Char := (Nat.digitChar n).toUpper

def escapeByte (b : UInt8) : List Char := ['%', hexDigit (b.toNat / 16), hexDigit (b.toNat % 16)]

def encodeURIComponent (str : String) : List Char :=
  str.toList.flatMap fun c =>
    if unreserved c then [c] else (String.utf8EncodeChar c).flatMap escapeByte

/-- The value of a hexadecimal digit. -/
def hexValue (c : Char) : Nat :=
  if c.isDigit then c.toNat - '0'.toNat
  else if c.isUpper then c.toNat - 'A'.toNat + 10
  else c.toNat - 'a'.toNat + 10

/-- The loop of `toUtf8` over the escaped text. -/
def unescape : List Char → List Nat
  | '%' :: hi :: lo :: esc => (hexValue hi * 16 + hexValue lo) :: unescape esc
  | c :: esc => c.toNat :: unescape esc
  | [] => []

def toUtf8 (str : String) : List Nat := unescape (encodeURIComponent str)

/-- The UTF-8 encoding of a text. -/
def utf8 (str : String) : List Nat := (str.toList.flatMap String.utf8EncodeChar).map UInt8.toNat

theorem unescape_escapeByte (b : UInt8) (esc : List Char) :
    unescape (escapeByte b ++ esc) = b.toNat :: unescape esc := by
  have hdigits : ∀ n : Fin 16, hexValue (hexDigit n) = n := by decide
  have hlt : b.toNat < 256 := b.toNat_lt
  have hhi := hdigits ⟨b.toNat / 16, by omega⟩
  have hlo := hdigits ⟨b.toNat % 16, by omega⟩
  simp only [escapeByte, List.cons_append, List.nil_append, unescape, hhi, hlo]
  rw [Nat.mul_comm, Nat.div_add_mod]

theorem unescape_escapeBytes (bs : List UInt8) (esc : List Char) :
    unescape (bs.flatMap escapeByte ++ esc) = bs.map UInt8.toNat ++ unescape esc := by
  induction bs with
  | nil => rfl
  | cons b bs ih =>
    rw [List.flatMap_cons, List.append_assoc, unescape_escapeByte, ih]
    rfl

/-- A character that is kept is one byte, and is not the escape sign. -/
theorem unreserved_ascii {c : Char} (h : unreserved c = true) :
    c ≠ '%' ∧ String.utf8EncodeChar c = [c.val.toUInt8] ∧ c.val.toUInt8.toNat = c.toNat := by
  have hmarks : ∀ c ∈ "-_.!~*'()".toList, c.val ≤ 127 := by simp
  have hascii : c.val ≤ 127 := by
    simp only [unreserved, Char.isAlphanum, Char.isAlpha, Char.isUpper, Char.isLower, Char.isDigit,
      Bool.or_eq_true, Bool.and_eq_true, decide_eq_true_eq, List.contains_iff_mem] at h
    rcases h with ((⟨-, h⟩ | ⟨-, h⟩) | ⟨-, h⟩) | h
    · exact UInt32.le_trans h (by decide)
    · exact UInt32.le_trans h (by decide)
    · exact UInt32.le_trans h (by decide)
    · exact hmarks c h
  refine ⟨?_, String.utf8EncodeChar_eq_singleton (Char.utf8Size_eq_one_iff.mpr hascii), ?_⟩
  · rintro rfl
    revert h
    decide
  · have hlt : c.val.toNat ≤ 127 := UInt32.le_iff_toNat_le.mp hascii
    rw [UInt32.toNat_toUInt8]
    exact Nat.mod_eq_of_lt (by omega)

/-- The bytes read out of the escapes are those of the text. -/
theorem toUtf8_eq (str : String) : toUtf8 str = utf8 str := by
  unfold toUtf8 utf8 encodeURIComponent
  induction str.toList with
  | nil => rfl
  | cons c cs ih =>
    rw [List.flatMap_cons, List.flatMap_cons, List.map_append]
    split
    · rename_i hc
      obtain ⟨hne, henc, hval⟩ := unreserved_ascii hc
      rw [henc, List.map_singleton, hval, List.singleton_append, List.singleton_append, ← ih]
      exact unescape.eq_2 c _ fun hi lo esc hp _ => hne hp
    · rw [unescape_escapeBytes, ih]

/-- Bytes read as a text, where they are one. -/
def readUtf8 (bytes : List Nat) : Option String :=
  String.fromUTF8? (bytes.map UInt8.ofNat).toByteArray

/-- The bytes of a text read as that text. -/
theorem readUtf8_utf8 (str : String) : readUtf8 (utf8 str) = some str := by
  have hbytes : ((utf8 str).map UInt8.ofNat).toByteArray = str.toByteArray := by
    rw [utf8, List.map_map, ← String.utf8Encode_toList, List.utf8Encode]
    congr 1
    conv_rhs => rw [← List.map_id (str.toList.flatMap String.utf8EncodeChar)]
    exact List.map_congr_left fun b _ => UInt8.ofNat_toNat
  rw [readUtf8, hbytes, String.fromUTF8?, dif_pos str.isValidUTF8]
  rfl

theorem utf8_lt (str : String) : ∀ b ∈ utf8 str, b < 256 := by
  intro b hb
  obtain ⟨u, -, rfl⟩ := List.mem_map.mp hb
  exact u.toNat_lt

end EthWalletUi.QrGen
