import ThalosBackend.Js.StringToNumber
import ThalosBackend.Js.Value

/-!
# Conversions of values

What a condition makes of a value, what `Number(value)` makes of it, and the comparison `<` of a
value with a number. Lists and objects go through their text; `none` stands for the `TypeError`
of an object whose `toString` is not a function.
-/

set_option autoImplicit false

namespace ThalosBackend.Js

namespace Value

/-- Whether a condition holds of the value. -/
def truthy : Value → Bool
  | .undefined | .null => false
  | .bool b => b
  | .number x => x ≠ 0 ∧ x ≠ .nan
  | .string s => s ≠ ""
  | .array _ | .object _ => true

/-- `Number(value)`. -/
def toNumber : Value → Option Number
  | .undefined => some .nan
  | .null => some 0
  | .bool b => some (if b then 1 else 0)
  | .number x => some x
  | .string s => some (Number.stringToNumber s)
  | v => v.toText.map Number.stringToNumber

/-- `value < bound`. -/
def ltNumber (v : Value) (bound : Number) : Option Bool := v.toNumber.map fun x => x.lt bound

@[simp] theorem truthy_string (s : String) : (string s).truthy = decide (s ≠ "") := rfl

end Value

/-- `a === b` for numbers; `NaN` equals nothing. -/
def Number.strictEq (a b : Number) : Bool := a = b ∧ a ≠ .nan

/-- Double precision arithmetic and its conversions, where a result depends on the rounding. -/
structure FloatArithmetic where
  /-- `Number(s)`. -/
  number : String → Number
  parseFloat : String → Number
  add : Number → Number → Number
  mul : Number → Number → Number
  div : Number → Number → Number
  /-- `Math.round`. -/
  round : Number → Number
  toFixed : Number → ℕ → String

/-- An optional text that a condition accepts: there, and not empty. -/
def nonEmpty : Option String → Option String
  | some s => if s = "" then none else some s
  | none => none

theorem nonEmpty_eq_some {t : Option String} {s : String} :
    nonEmpty t = some s ↔ t = some s ∧ s ≠ "" := by
  cases t with
  | none => simp [nonEmpty]
  | some t =>
      simp only [nonEmpty]
      split
      · rename_i hempty
        simp [hempty]
      · rename_i hne
        constructor
        · rintro ⟨rfl⟩
          exact ⟨rfl, hne⟩
        · rintro ⟨h, -⟩
          exact h

end ThalosBackend.Js
