import Mathlib.Data.List.Basic
import Mathlib.Data.Nat.Notation

/-!
# Bytes as hexadecimal text

`buffer.toString('hex')`, which writes two small digits a byte, and `Buffer.from(text, 'hex')`, which
reads digits of either case and stops, without a complaint, where no pair of them follows. It looks at
the low byte of each code unit only, so that a digit has many spellings. A text is read as the bytes `bs`
exactly when its low bytes begin with a spelling of `bs` and cannot be read further (`hexBytes_eq_iff`).
-/

set_option autoImplicit false

namespace ThalosBackend.Js

/-- The sixteen digits. -/
def hexAlphabet : List Char := "0123456789abcdef".toList

/-- The digit of a number below sixteen. -/
def hexChar (n : ℕ) : Char := hexAlphabet.getD n '0'

/-- The value of a digit, in either case. -/
def hexValue (c : Char) : Option ℕ := hexAlphabet.findIdx? (· = c.toLower)

/-- The digits of a byte. -/
def hexDigits (byte : UInt8) : List Char := [hexChar (byte.toNat / 16), hexChar (byte.toNat % 16)]

/-- `buffer.toString('hex')`. -/
def hexText (bytes : List UInt8) : List Char := bytes.flatMap hexDigits

/-- The byte that two digits stand for. -/
def hexPair (a b : Char) : Option UInt8 :=
  match hexValue a, hexValue b with
  | some high, some low => some (UInt8.ofNat (16 * high + low))
  | _, _ => none

/-- The bytes that pairs of digits stand for, up to the first two characters that are none. -/
def readHex : List Char → List UInt8
  | a :: b :: rest =>
    match hexPair a b with
    | some byte => byte :: readHex rest
    | none => []
  | _ => []

/-- The UTF-16 code units of a character. -/
def codeUnits (c : Char) : List ℕ :=
  if c.toNat < 0x10000 then [c.toNat]
  else [0xD800 + (c.toNat - 0x10000) / 0x400, 0xDC00 + (c.toNat - 0x10000) % 0x400]

/-- The low bytes of the code units of a text, as characters. -/
def lowBytes (text : List Char) : List Char :=
  (text.flatMap codeUnits).map fun unit => Char.ofNat (unit % 256)

/-- `Buffer.from(text, 'hex')`. -/
def hexBytes (text : List Char) : List UInt8 := readHex (lowBytes text)

/-! ## Digits -/

/-- A digit is one of the sixteen, small or capital. -/
theorem hexValue_eq_some {c : Char} {n : ℕ} :
    hexValue c = some n ↔ n < 16 ∧ c.toLower = hexChar n := by
  have hvalue : ∀ n < 16, hexAlphabet.findIdx? (· = hexChar n) = some n := by decide
  constructor
  · intro h
    obtain ⟨hlt, hdigit, -⟩ := List.findIdx?_eq_some_iff_getElem.mp h
    have hlt : n < 16 := hlt
    refine ⟨hlt, ?_⟩
    have hdigit : hexAlphabet[n] = c.toLower := of_decide_eq_true hdigit
    rw [← hdigit, hexChar, List.getD_eq_getElem?_getD, List.getElem?_eq_getElem hlt]
    rfl
  · rintro ⟨hlt, hdigit⟩
    rw [hexValue, hdigit]
    exact hvalue n hlt

/-- Two characters stand for a byte exactly when they are its digits. -/
theorem hexPair_eq_some {a b : Char} {byte : UInt8} :
    hexPair a b = some byte ↔ [a, b].map Char.toLower = hexDigits byte := by
  have hbyte : byte.toNat < 256 := byte.toNat_lt
  have hdigits : [a, b].map Char.toLower = hexDigits byte ↔
      a.toLower = hexChar (byte.toNat / 16) ∧ b.toLower = hexChar (byte.toNat % 16) := by
    simp [hexDigits]
  rw [hdigits]
  constructor
  · intro h
    unfold hexPair at h
    split at h
    · rename_i high low hhigh hlow
      obtain ⟨hm, ha⟩ := hexValue_eq_some.mp hhigh
      obtain ⟨hn, hb⟩ := hexValue_eq_some.mp hlow
      cases h
      have hnat : (UInt8.ofNat (16 * high + low)).toNat = 16 * high + low := by
        rw [UInt8.toNat_ofNat']
        omega
      rw [hnat, show (16 * high + low) / 16 = high by omega,
        show (16 * high + low) % 16 = low by omega]
      exact ⟨ha, hb⟩
    · cases h
  · rintro ⟨ha, hb⟩
    have hhigh : hexValue a = some (byte.toNat / 16) := hexValue_eq_some.mpr ⟨by omega, ha⟩
    have hlow : hexValue b = some (byte.toNat % 16) := hexValue_eq_some.mpr ⟨by omega, hb⟩
    rw [hexPair, hhigh, hlow]
    have hsum : 16 * (byte.toNat / 16) + byte.toNat % 16 = byte.toNat := by omega
    simp only [hsum, UInt8.ofNat_toNat]

/-! ## Texts -/

@[simp] theorem readHex_nil : readHex [] = [] := rfl

@[simp] theorem hexText_cons (byte : UInt8) (bytes : List UInt8) :
    hexText (byte :: bytes) = hexDigits byte ++ hexText bytes := rfl

/-- A spelling of bytes is read before what follows it. -/
theorem readHex_append {bytes : List UInt8} {digits rest : List Char}
    (h : digits.map Char.toLower = hexText bytes) :
    readHex (digits ++ rest) = bytes ++ readHex rest := by
  induction bytes generalizing digits with
  | nil =>
      obtain rfl : digits = [] := List.map_eq_nil_iff.mp h
      rfl
  | cons byte bytes ih =>
      -- the first two characters are the digits of the first byte
      obtain ⟨a, b, digits, rfl⟩ : ∃ a b tail, digits = a :: b :: tail := by
        rcases digits with _ | ⟨a, _ | ⟨b, tail⟩⟩
        · simp [hexDigits] at h
        · simp [hexDigits] at h
        · exact ⟨a, b, tail, rfl⟩
      have hsplit : [a, b].map Char.toLower ++ digits.map Char.toLower =
          hexDigits byte ++ hexText bytes := h
      obtain ⟨hpair, hrest⟩ := List.append_inj hsplit rfl
      rw [List.cons_append, List.cons_append, readHex, hexPair_eq_some.mpr hpair]
      exact congrArg (byte :: ·) (ih hrest)

/-- The low byte of a character below 256 is the character. -/
theorem lowBytes_cons {c : Char} (hc : c.toNat < 256) (text : List Char) :
    lowBytes (c :: text) = c :: lowBytes text := by
  have hunits : codeUnits c = [c.toNat] := if_pos (by omega)
  rw [lowBytes, List.flatMap_cons, hunits, List.map_append, List.map_singleton,
    Nat.mod_eq_of_lt hc, Char.ofNat_toNat]
  rfl

theorem lowBytes_hexText (bytes : List UInt8) : lowBytes (hexText bytes) = hexText bytes := by
  have hdigit : ∀ n < 16, (hexChar n).toNat < 256 := by decide
  induction bytes with
  | nil => rfl
  | cons byte bytes ih =>
      have hbyte : byte.toNat < 256 := byte.toNat_lt
      rw [hexText_cons, hexDigits, List.cons_append, List.cons_append, List.nil_append,
        lowBytes_cons (hdigit _ (by omega)), lowBytes_cons (hdigit _ (by omega)), ih]

/-- What was written is read again, and what follows it too. -/
theorem hexBytes_hexText (bytes : List UInt8) : hexBytes (hexText bytes) = bytes := by
  have hlower : ∀ n < 16, (hexChar n).toLower = hexChar n := by decide
  have hspelling : (hexText bytes).map Char.toLower = hexText bytes := by
    induction bytes with
    | nil => rfl
    | cons byte bytes ih =>
        have hbyte : byte.toNat < 256 := byte.toNat_lt
        rw [hexText_cons, List.map_append, ih, hexDigits, List.map_cons, List.map_cons,
          List.map_nil, hlower _ (by omega), hlower _ (by omega)]
  have hread : readHex (hexText bytes ++ []) = bytes ++ readHex [] := readHex_append hspelling
  rw [hexBytes, lowBytes_hexText]
  rwa [List.append_nil, readHex_nil, List.append_nil] at hread

theorem readHex_eq_iff {text : List Char} {bytes : List UInt8} :
    readHex text = bytes ↔ ∃ digits rest, text = digits ++ rest ∧
      digits.map Char.toLower = hexText bytes ∧ readHex rest = [] := by
  constructor
  · intro h
    fun_induction readHex text generalizing bytes with
    | case1 a b rest byte hpair ih =>
        subst h
        obtain ⟨digits, tail, rfl, hdigits, hend⟩ := ih rfl
        refine ⟨a :: b :: digits, tail, rfl, ?_, hend⟩
        rw [hexText_cons, ← hexPair_eq_some.mp hpair, ← hdigits]
        rfl
    | case2 a b rest hpair =>
        subst h
        refine ⟨[], a :: b :: rest, rfl, rfl, ?_⟩
        rw [readHex, hpair]
    | case3 text hshort =>
        subst h
        refine ⟨[], text, rfl, rfl, ?_⟩
        rw [readHex]
        exact hshort
  · rintro ⟨digits, rest, rfl, hdigits, hend⟩
    rw [readHex_append hdigits, hend, List.append_nil]

/-- **What a text is read as.** -/
theorem hexBytes_eq_iff {text : List Char} {bytes : List UInt8} :
    hexBytes text = bytes ↔ ∃ digits rest, lowBytes text = digits ++ rest ∧
      digits.map Char.toLower = hexText bytes ∧ readHex rest = [] := readHex_eq_iff

end ThalosBackend.Js
