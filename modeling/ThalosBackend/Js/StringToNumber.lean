import Mathlib.Algebra.Order.Field.Basic
import Mathlib.Data.Rat.Defs
import ThalosBackend.Js.Number
import ThalosBackend.Js.Text

/-!
# Texts as numbers

`stringToNumber` is `Number(text)`: white space around the text is ignored, the empty text is zero,
`0x`, `0o` and `0b` introduce integers without a sign, and everything else is a decimal literal with
an optional sign and exponent, or `Infinity`. A decimal literal keeps its exact value unless it lies
outside the range of doubles: beyond it the result is an infinity, closer to zero than half of
the smallest double it is zero.
-/

set_option autoImplicit false

namespace ThalosBackend.Js

namespace Number

/-- The value of a digit, in any base up to sixteen. -/
def digitValue (c : Char) : Option ℕ :=
  if '0' ≤ c ∧ c ≤ '9' then some (c.toNat - '0'.toNat)
  else if 'a' ≤ c ∧ c ≤ 'f' then some (c.toNat - 'a'.toNat + 10)
  else if 'A' ≤ c ∧ c ≤ 'F' then some (c.toNat - 'A'.toNat + 10)
  else none

/-- The digits of a base that a text starts with, and the rest of the text. -/
def spanDigits (base : ℕ) : List Char → List ℕ × List Char
  | [] => ([], [])
  | c :: cs =>
      match digitValue c with
      | some d => if d < base then (d :: (spanDigits base cs).1, (spanDigits base cs).2)
          else ([], c :: cs)
      | none => ([], c :: cs)

/-- The value of a list of digits. -/
def ofDigits (base : ℕ) (digits : List ℕ) : ℕ := digits.foldl (fun n d => n * base + d) 0

/-- The digits of a whole text, at least one. -/
def allDigits (base : ℕ) (cs : List Char) : Option ℕ :=
  match spanDigits base cs with
  | (d :: ds, []) => some (ofDigits base (d :: ds))
  | _ => none

/-- The value of an exponent part; an absent one is zero. -/
def exponentPart : List Char → Option ℤ
  | [] => some 0
  | e :: rest =>
      if e = 'e' ∨ e = 'E' then
        match rest with
        | '-' :: ds => (allDigits 10 ds).map fun n => -(n : ℤ)
        | '+' :: ds => (allDigits 10 ds).map fun n => (n : ℤ)
        | ds => (allDigits 10 ds).map fun n => (n : ℤ)
      else none

/-- The value of `whole.fraction` times a power of ten; one of the two parts has a digit. -/
def decimalValue (whole fraction : List ℕ) (exponent : List Char) : Option ℚ :=
  if whole = [] ∧ fraction = [] then none
  else (exponentPart exponent).map fun e : ℤ =>
    (ofDigits 10 (whole ++ fraction) : ℚ) * (10 : ℚ) ^ (e - (fraction.length : ℤ))

/-- The value of a decimal literal without a sign. -/
def decimalLiteral (cs : List Char) : Option ℚ :=
  match spanDigits 10 cs with
  | (whole, '.' :: rest) =>
      let (fraction, exponent) := spanDigits 10 rest
      decimalValue whole fraction exponent
  | (whole, exponent) => decimalValue whole [] exponent

/-- The number an exact value is read as. -/
def ofExact (q : ℚ) : Number :=
  if 2 ^ 1024 - 2 ^ 970 ≤ |q| then .infinity (decide (q < 0))
  else if |q| * 2 ^ 1075 ≤ 1 then 0
  else .finite q

/-- A literal without a sign: `Infinity` or a decimal literal. -/
def unsignedLiteral (negative : Bool) (cs : List Char) : Number :=
  if cs = "Infinity".toList then .infinity negative
  else match decimalLiteral cs with
    | some q => ofExact (if negative then -q else q)
    | none => .nan

/-- A literal with an optional sign. -/
def signedLiteral : List Char → Number
  | '-' :: cs => unsignedLiteral true cs
  | '+' :: cs => unsignedLiteral false cs
  | cs => unsignedLiteral false cs

/-- The base a prefix announces. -/
def prefixBase : Char → Option ℕ
  | 'x' | 'X' => some 16
  | 'o' | 'O' => some 8
  | 'b' | 'B' => some 2
  | _ => none

/-- An integer of the base its prefix announces, or else a decimal literal. -/
def numericLiteral (cs : List Char) : Number :=
  match cs with
  | '0' :: p :: digits =>
      match prefixBase p with
      | some base =>
          match allDigits base digits with
          | some n => ofExact n
          | none => .nan
      | none => signedLiteral cs
  | _ => signedLiteral cs

/-- `Number(text)`. -/
def stringToNumber (s : String) : Number :=
  match (trim s).toList with
  | [] => 0
  | cs => numericLiteral cs

example : stringToNumber " 1.50e1 " = .finite 15 := by decide +kernel

end Number

end ThalosBackend.Js
