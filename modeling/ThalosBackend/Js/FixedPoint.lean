import ThalosBackend.Js.Numerals
import ThalosBackend.Js.Print

/-!
# Decimal texts of a fixed number of places

`fixedText` is `toFixed`: the nearest number with so many decimals, in decimal notation. Of two that
are equally near it takes the larger one, and the text of a negative number is a minus sign before
the text of its opposite, so ties go away from zero.

`fixedText_value` reads the text back. `halfAway_add_eq_iff` says when the roundings of two numbers
with an integer sum add up to it: ties are the only obstacle, and only between numbers of one sign.
-/

set_option autoImplicit false

namespace ThalosBackend.Js

namespace Number

/-! ## Texts -/

/-- The last digits of a number, so many of them. -/
def lastDigits : ℕ → ℕ → List Char
  | 0, _ => []
  | places + 1, n => lastDigits places (n / 10) ++ [Nat.digitChar (n % 10)]

/-- The characters of `n / 10 ^ places`. -/
def fixedChars (places n : ℕ) : List Char :=
  (toString (n / 10 ^ places)).toList ++
    if places = 0 then [] else '.' :: lastDigits places n

/-- `x.toFixed(places)`, in decimal notation whatever the size. -/
def fixedText (x : Number) (places : ℕ) : String :=
  match x with
  | .finite q =>
    if q < 0 then String.ofList ('-' :: fixedChars places ⌊-q * 10 ^ places + 1 / 2⌋.toNat)
    else String.ofList (fixedChars places ⌊q * 10 ^ places + 1 / 2⌋.toNat)
  | x => x.toText

/-- The value of a decimal text with an optional minus sign. -/
def signedValue (s : String) : ℚ :=
  match s.toList with
  | '-' :: cs => -(decimalLiteral cs).getD 0
  | cs => (decimalLiteral cs).getD 0

/-- The nearest integer, ties away from zero. -/
def halfAway (q : ℚ) : ℤ := if q < 0 then -⌊-q + 1 / 2⌋ else ⌊q + 1 / 2⌋

example : fixedText (.finite (1 / 200)) 2 = "0.01" := by decide +kernel

/-! ## Reading the text -/

theorem isDigit_digitChar : ∀ d < 10, (Nat.digitChar d).isDigit = true := by decide

theorem decimalDigit_digitChar : ∀ d < 10, decimalDigit (Nat.digitChar d) = d := by decide

theorem isDigit_of_mem_lastDigits {places n : ℕ} :
    ∀ c ∈ lastDigits places n, c.isDigit = true := by
  induction places generalizing n with
  | zero =>
      intro c hc
      cases hc
  | succ places ih =>
      intro c hc
      rcases List.mem_append.mp hc with hc | hc
      · exact ih c hc
      · rw [List.mem_singleton.mp hc]
        exact isDigit_digitChar _ (Nat.mod_lt _ (by norm_num))

theorem length_lastDigits (places n : ℕ) : (lastDigits places n).length = places := by
  induction places generalizing n with
  | zero => rfl
  | succ places ih => rw [lastDigits, List.length_append, ih, List.length_singleton]

theorem ofDigits_append (base : ℕ) (ds es : List ℕ) :
    ofDigits base (ds ++ es) = ofDigits base ds * base ^ es.length + ofDigits base es := by
  induction es using List.reverseRecOn with
  | nil => simp [ofDigits]
  | append_singleton es e ih =>
      have hlast : ∀ xs : List ℕ, ofDigits base (xs ++ [e]) = ofDigits base xs * base + e := by
        intro xs
        rw [ofDigits, List.foldl_append]
        rfl
      rw [← List.append_assoc, hlast, hlast, ih, List.length_append, List.length_singleton, pow_succ]
      ring

/-- The last digits have the value that is left of the number. -/
theorem ofDigits_lastDigits (places n : ℕ) :
    ofDigits 10 ((lastDigits places n).map decimalDigit) = n % 10 ^ places := by
  induction places generalizing n with
  | zero => simp [lastDigits, ofDigits, Nat.mod_one]
  | succ places ih =>
      have hlast : decimalDigit (Nat.digitChar (n % 10)) = n % 10 :=
        decimalDigit_digitChar _ (Nat.mod_lt _ (by norm_num))
      rw [lastDigits, List.map_append, ofDigits_append, ih, List.map_singleton, hlast, pow_succ',
        Nat.mod_mul]
      simp [ofDigits]
      ring

/-- The characters have the value they are written for. -/
theorem decimalLiteral_fixedChars (places n : ℕ) :
    decimalLiteral (fixedChars places n) = some ((n : ℚ) / 10 ^ places) := by
  have hwhole : ∀ c ∈ (toString (n / 10 ^ places)).toList, c.isDigit = true :=
    isDigit_of_mem_numeral
  have hne := numeral_ne_nil (n / 10 ^ places)
  have hvalue := ofDigits_numeral (n / 10 ^ places)
  unfold fixedChars decimalLiteral
  generalize (toString (n / 10 ^ places)).toList = whole at hwhole hne hvalue ⊢
  rw [spanDigits_ten]
  by_cases hplaces : places = 0
  · -- without decimals there is no point
    subst hplaces
    have hall : whole.takeWhile Char.isDigit = whole := List.takeWhile_eq_self_iff.mpr hwhole
    have hnone : whole.dropWhile Char.isDigit = [] := List.dropWhile_eq_nil_iff.mpr hwhole
    simp only [pow_zero, Nat.div_one] at hvalue
    simp [hall, hnone, decimalValue, exponentPart, hne, hvalue]
  · rw [if_neg hplaces]
    have hpoint : ('.' : Char).isDigit = false := rfl
    have htake : (whole ++ '.' :: lastDigits places n).takeWhile Char.isDigit = whole := by
      rw [List.takeWhile_append_of_pos hwhole, List.takeWhile_cons_of_neg (by simp [hpoint]),
        List.append_nil]
    have hdrop : (whole ++ '.' :: lastDigits places n).dropWhile Char.isDigit =
        '.' :: lastDigits places n := by
      rw [List.dropWhile_append_of_pos hwhole, List.dropWhile_cons_of_neg (by simp [hpoint])]
    have hfraction : (lastDigits places n).takeWhile Char.isDigit = lastDigits places n :=
      List.takeWhile_eq_self_iff.mpr isDigit_of_mem_lastDigits
    have hend : (lastDigits places n).dropWhile Char.isDigit = [] :=
      List.dropWhile_eq_nil_iff.mpr isDigit_of_mem_lastDigits
    have hsum : ofDigits 10 (whole.map decimalDigit ++ (lastDigits places n).map decimalDigit) = n := by
      rw [ofDigits_append, hvalue, ofDigits_lastDigits, List.length_map, length_lastDigits]
      exact Nat.div_add_mod' n (10 ^ places)
    simp only [htake, hdrop, spanDigits_ten, hfraction, hend, decimalValue, exponentPart, hsum,
      List.map_eq_nil_iff, hne, false_and, if_false, Option.map_some, List.length_map,
      length_lastDigits, zero_sub, zpow_neg, zpow_natCast, div_eq_mul_inv]

/-- **The value of `toFixed`.** -/
theorem fixedText_value (q : ℚ) (places : ℕ) :
    signedValue (fixedText (.finite q) places) = halfAway (q * 10 ^ places) / 10 ^ places := by
  have hnonneg : ∀ x : ℚ, 0 ≤ x → (⌊x * 10 ^ places + 1 / 2⌋.toNat : ℤ) = ⌊x * 10 ^ places + 1 / 2⌋ :=
    fun x hx => Int.toNat_of_nonneg (Int.floor_nonneg.mpr (by positivity))
  have hcast : ∀ x : ℚ, 0 ≤ x →
      ((⌊x * 10 ^ places + 1 / 2⌋.toNat : ℕ) : ℚ) = ⌊x * 10 ^ places + 1 / 2⌋ := by
    intro x hx
    exact_mod_cast hnonneg x hx
  have hpow : (0 : ℚ) < 10 ^ places := by positivity
  unfold fixedText signedValue halfAway
  dsimp only
  by_cases hq : q < 0
  · have hneg : q * 10 ^ places < 0 := mul_neg_of_neg_of_pos hq hpow
    rw [if_pos hq, if_pos hneg, String.toList_ofList]
    change -(decimalLiteral (fixedChars places _)).getD 0 = _
    rw [decimalLiteral_fixedChars, Option.getD_some, hcast _ (by linarith), neg_mul]
    push_cast
    ring
  · have hpos : ¬ q * 10 ^ places < 0 := not_lt.mpr (mul_nonneg (not_lt.mp hq) hpow.le)
    rw [if_neg hq, if_neg hpos, String.toList_ofList]
    split
    · rename_i cs hcs
      -- the text starts with a digit
      obtain ⟨c, rest, hrest⟩ := List.exists_cons_of_ne_nil (numeral_ne_nil
        (⌊q * 10 ^ places + 1 / 2⌋.toNat / 10 ^ places))
      have hdigit : c.isDigit = true :=
        isDigit_of_mem_numeral c (by rw [hrest]; exact List.mem_cons_self)
      rw [fixedChars, hrest, List.cons_append, List.cons.injEq] at hcs
      rw [hcs.1] at hdigit
      cases hdigit
    · rw [decimalLiteral_fixedChars, Option.getD_some, hcast _ (not_lt.mp hq)]

/-! ## Roundings that add up -/

/-- The two directions of rounding differ at ties only. -/
theorem floor_add_half_eq_iff (x : ℚ) : ⌊x + 1 / 2⌋ = -⌊-x + 1 / 2⌋ ↔ Int.fract x ≠ 1 / 2 := by
  have hx := Int.floor_add_fract x
  have hlow := Int.fract_nonneg x
  have hhigh := Int.fract_lt_one x
  rcases lt_trichotomy (Int.fract x) (1 / 2) with hless | htie | hmore
  · have hup : ⌊x + 1 / 2⌋ = ⌊x⌋ := by
      rw [Int.floor_eq_iff]
      constructor <;> linarith
    have hdown : ⌊-x + 1 / 2⌋ = -⌊x⌋ := by
      rw [Int.floor_eq_iff]
      push_cast
      constructor <;> linarith
    rw [hup, hdown, neg_neg]
    exact iff_of_true rfl hless.ne
  · -- at a tie both sides go up
    have hup : ⌊x + 1 / 2⌋ = ⌊x⌋ + 1 := by
      rw [Int.floor_eq_iff]
      push_cast
      constructor <;> linarith
    have hdown : ⌊-x + 1 / 2⌋ = -⌊x⌋ := by
      rw [Int.floor_eq_iff]
      push_cast
      constructor <;> linarith
    rw [hup, hdown, neg_neg]
    exact iff_of_false (by omega) (not_not.mpr htie)
  · have hup : ⌊x + 1 / 2⌋ = ⌊x⌋ + 1 := by
      rw [Int.floor_eq_iff]
      push_cast
      constructor <;> linarith
    have hdown : ⌊-x + 1 / 2⌋ = -(⌊x⌋ + 1) := by
      rw [Int.floor_eq_iff]
      push_cast
      constructor <;> linarith
    rw [hup, hdown, neg_neg]
    exact iff_of_true rfl hmore.ne'

/-- **Roundings of two parts.** The roundings of two numbers whose sum is an integer that is not
negative add up to it, unless both are ties and neither is negative. -/
theorem halfAway_add_eq_iff {x y : ℚ} {total : ℕ} (h : x + y = total) :
    halfAway x + halfAway y = total ↔ Int.fract x ≠ 1 / 2 ∨ x < 0 ∨ y < 0 := by
  have hy : y = total - x := by linarith
  have htotal : (0 : ℚ) ≤ total := Nat.cast_nonneg total
  have hfloor : ∀ z : ℚ, ⌊(total : ℚ) + z⌋ = total + ⌊z⌋ := fun z => Int.floor_natCast_add total z
  unfold halfAway
  by_cases hx : x < 0
  · -- one negative share: its half goes down, and the roundings cancel
    have hypos : ¬ y < 0 := by linarith
    have hround : ⌊y + 1 / 2⌋ = total + ⌊-x + 1 / 2⌋ := by
      rw [← hfloor, hy]
      congr 1
      ring
    rw [if_pos hx, if_neg hypos, hround]
    exact iff_of_true (by ring) (.inr (.inl hx))
  · by_cases hyneg : y < 0
    · have hround : ⌊x + 1 / 2⌋ = total + ⌊-y + 1 / 2⌋ := by
        rw [← hfloor, hy]
        congr 1
        ring
      rw [if_neg hx, if_pos hyneg, hround]
      exact iff_of_true (by ring) (.inr (.inr hyneg))
    · have hround : ⌊y + 1 / 2⌋ = total + ⌊-x + 1 / 2⌋ := by
        rw [← hfloor, hy]
        congr 1
        ring
      rw [if_neg hx, if_neg hyneg, hround, or_iff_left (by simp [hx, hyneg]),
        ← floor_add_half_eq_iff]
      constructor
      · intro hsum
        linarith
      · intro heq
        linarith

end Number

end ThalosBackend.Js
