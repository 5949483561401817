import ThalosBackend.Js.Hex

/-!
# Columns of type `uuid`

The ids of rows are columns of type `uuid`, and a text that a query names one by is read by PostgreSQL:
sixteen bytes in digits of either case, with a dash or none after each group of four digits but the last,
in braces or not. It is written in one way only. So one id has many spellings, and two of them are equal for
a query and different texts for the code. `uuidOf` is the text that is written for the id a text stands for.
-/

set_option autoImplicit false

namespace ThalosBackend

open Js (hexDigits hexPair)

/-! ## Reading -/

/-- A dash that may be left out. -/
def skipDash : List Char → List Char
  | '-' :: rest => rest
  | text => text

/-- Groups of four digits, each two bytes, and what follows them. -/
def readGroups : ℕ → List Char → Option (List UInt8 × List Char)
  | 0, rest => some ([], rest)
  | n + 1, a :: b :: c :: d :: rest =>
    match hexPair a b, hexPair c d, readGroups n (if n = 0 then rest else skipDash rest) with
    | some first, some second, some (bytes, rest) => some (first :: second :: bytes, rest)
    | _, _, _ => none
  | _ + 1, _ => none

/-- The bytes of a UUID. -/
def readUuid (text : List Char) : Option (List UInt8) :=
  match text with
  | '{' :: rest =>
    match readGroups 8 rest with
    | some (bytes, ['}']) => some bytes
    | _ => none
  | _ =>
    match readGroups 8 text with
    | some (bytes, []) => some bytes
    | _ => none

/-! ## Writing -/

/-- Groups of four digits, with a dash after those that have one. -/
def writeGroups : List Bool → List UInt8 → List Char
  | dash :: dashes, first :: second :: bytes =>
    hexDigits first ++ (hexDigits second ++ ((if dash then ['-'] else []) ++ writeGroups dashes bytes))
  | _, _ => []

/-- Eight, four, four, four and twelve digits. -/
def uuidDashes : List Bool := [false, true, true, true, true, false, false, false]

/-- The id that the text stands for, as it is written. A text that is no UUID names no row of the source,
and stands for itself. -/
def uuidOf (text : String) : String :=
  match readUuid text.toList with
  | some bytes => String.ofList (writeGroups uuidDashes bytes)
  | none => text

example : uuidOf "{5D1C3F0E2B7A-4a58B1A4-6C0D8E9F7A32}" = "5d1c3f0e-2b7a-4a58-b1a4-6c0d8e9f7a32" := by
  decide +kernel

/-! ## What was written is read again -/

theorem hexPair_hexDigits (byte : UInt8) (rest : List Char) : ∃ a b,
    hexDigits byte ++ rest = a :: b :: rest ∧ hexPair a b = some byte ∧ a ≠ '-' ∧ a ≠ '{' := by
  have hbyte : byte.toNat < 256 := byte.toNat_lt
  have hlower : ∀ n < 16, (Js.hexChar n).toLower = Js.hexChar n := by decide
  have hdigit : ∀ n < 16, Js.hexChar n ≠ '-' ∧ Js.hexChar n ≠ '{' := by decide
  refine ⟨_, _, rfl, Js.hexPair_eq_some.mpr ?_, hdigit _ (by omega)⟩
  rw [List.map_cons, List.map_cons, List.map_nil, hlower _ (by omega), hlower _ (by omega)]
  rfl

/-- A dash is skipped where there is one, and nothing else is. -/
theorem skipDash_writeGroups (dash : Bool) (dashes : List Bool) (bytes : List UInt8) :
    skipDash ((if dash then ['-'] else []) ++ writeGroups dashes bytes) = writeGroups dashes bytes := by
  cases dash with
  | true => rfl
  | false =>
      fun_cases writeGroups dashes bytes with
      | case1 dash dashes first second bytes =>
          obtain ⟨a, b, htext, -, ha, -⟩ := hexPair_hexDigits first
            (hexDigits second ++ ((if dash then ['-'] else []) ++ writeGroups dashes bytes))
          rw [htext]
          simp [skipDash, ha]
      | case2 => rfl

theorem readGroups_writeGroups (dashes : List Bool) {bytes : List UInt8}
    (hbytes : bytes.length = 2 * dashes.length) (hlast : dashes.getLast? ≠ some true) :
    readGroups dashes.length (writeGroups dashes bytes) = some (bytes, []) := by
  induction dashes generalizing bytes with
  | nil =>
      obtain rfl : bytes = [] := List.length_eq_zero_iff.mp hbytes
      rfl
  | cons dash dashes ih =>
      obtain ⟨first, second, bytes, rfl⟩ : ∃ first second tail, bytes = first :: second :: tail := by
        rcases bytes with _ | ⟨first, _ | ⟨second, tail⟩⟩
        · simp at hbytes
        · simp at hbytes
          omega
        · exact ⟨first, second, tail, rfl⟩
      have hlength : bytes.length = 2 * dashes.length := by
        simp only [List.length_cons] at hbytes
        omega
      obtain ⟨c, d, hsecond, hread', -⟩ := hexPair_hexDigits second
        ((if dash then ['-'] else []) ++ writeGroups dashes bytes)
      obtain ⟨a, b, hfirst, hread, -⟩ := hexPair_hexDigits first
        (c :: d :: ((if dash then ['-'] else []) ++ writeGroups dashes bytes))
      rw [writeGroups, hsecond, hfirst, List.length_cons, readGroups, hread, hread']
      cases dashes with
      | nil =>
          -- no dash follows the last group
          obtain rfl : dash = false := by simpa using hlast
          obtain rfl : bytes = [] := List.length_eq_zero_iff.mp hlength
          rfl
      | cons next dashes =>
          have hrest : (next :: dashes).getLast? ≠ some true := by
            rwa [List.getLast?_cons_cons] at hlast
          rw [if_neg (by simp), skipDash_writeGroups, ih hlength hrest]

/-- Each group that is read is two bytes. -/
theorem length_of_readGroups {n : ℕ} {text rest : List Char} {bytes : List UInt8}
    (h : readGroups n text = some (bytes, rest)) : bytes.length = 2 * n := by
  fun_induction readGroups n text generalizing bytes rest with
  | case1 rest =>
      cases h
      rfl
  | case2 n a b c d text first second bytes' rest' hgroups hfirst hsecond ih =>
      cases h
      have hlength := ih hgroups
      simp only [List.length_cons]
      omega
  | case3 => cases h
  | case4 => cases h

theorem length_of_readUuid {text : List Char} {bytes : List UInt8} (h : readUuid text = some bytes) :
    bytes.length = 16 := by
  unfold readUuid at h
  split at h
  · split at h
    · rename_i hgroups
      cases h
      exact length_of_readGroups hgroups
    · cases h
  · split at h
    · rename_i hgroups
      cases h
      exact length_of_readGroups hgroups
    · cases h

/-- The first character of a UUID as it is written is a digit. -/
theorem writeGroups_uuid {bytes : List UInt8} (h : bytes.length = 16) :
    ∃ a rest, writeGroups uuidDashes bytes = a :: rest ∧ a ≠ '{' := by
  rcases bytes with _ | ⟨first, _ | ⟨second, bytes⟩⟩
  · simp at h
  · simp at h
  · obtain ⟨a, b, htext, -, -, ha⟩ := hexPair_hexDigits first
      (hexDigits second ++ ([] ++ writeGroups uuidDashes.tail bytes))
    exact ⟨a, _, htext, ha⟩

theorem readUuid_writeGroups {bytes : List UInt8} (h : bytes.length = 16) :
    readUuid (writeGroups uuidDashes bytes) = some bytes := by
  have hgroups : readGroups 8 (writeGroups uuidDashes bytes) = some (bytes, []) :=
    readGroups_writeGroups uuidDashes h (by decide)
  obtain ⟨a, rest, htext, ha⟩ := writeGroups_uuid h
  rw [htext] at hgroups ⊢
  unfold readUuid
  split
  · rename_i heq
    cases heq
    exact absurd rfl ha
  · rw [hgroups]

/-- **The spelling that is written stands for the same id.** -/
@[simp] theorem uuidOf_uuidOf (text : String) : uuidOf (uuidOf text) = uuidOf text := by
  cases hread : readUuid text.toList with
  | none => simp [uuidOf, hread]
  | some bytes =>
      have hof : uuidOf text = String.ofList (writeGroups uuidDashes bytes) := by
        rw [uuidOf, hread]
      have hagain : readUuid (String.ofList (writeGroups uuidDashes bytes)).toList = some bytes := by
        rw [String.toList_ofList]
        exact readUuid_writeGroups (length_of_readUuid hread)
      rw [hof, uuidOf, hagain]

/-- Only the empty text stands for it. -/
@[simp] theorem uuidOf_eq_empty {text : String} : uuidOf text = "" ↔ text = "" := by
  constructor
  · intro h
    cases hread : readUuid text.toList with
    | none => rwa [uuidOf, hread] at h
    | some bytes =>
        obtain ⟨a, rest, htext, -⟩ := writeGroups_uuid (length_of_readUuid hread)
        rw [uuidOf, hread] at h
        have hchars := congrArg String.toList h
        rw [String.toList_ofList, htext] at hchars
        cases hchars
  · rintro rfl
    rfl

end ThalosBackend
