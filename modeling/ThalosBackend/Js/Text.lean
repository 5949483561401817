import Mathlib.Data.List.DropRight

/-!
# JavaScript strings

Strings are Lean strings, read character by character; the source only ever cuts white space
and line terminators off them, compares them and joins them. `isWhiteSpace` is the class that
`String.prototype.trim` and `\s` share: the ECMAScript white space and line terminators.
-/

set_option autoImplicit false

namespace ThalosBackend.Js

/-- The line terminators: line feed, carriage return, U+2028 and U+2029. The regular expression
class `.` is its complement. -/
def isLineTerminator (c : Char) : Bool :=
  c = '\n' || c = '\r' || c = '\u2028' || c = '\u2029'

/-- White space in the sense of `trim` and of `\s`. -/
def isWhiteSpace (c : Char) : Bool :=
  isLineTerminator c || c = '\t' || c = '\u000b' || c = '\u000c' || c = ' ' || c = '\u00a0' ||
    c = '\u1680' || ('\u2000' ≤ c && c ≤ '\u200a') || c = '\u202f' || c = '\u205f' ||
    c = '\u3000' || c = '\ufeff'

/-- `trimStart` on characters. -/
def trimStartChars (cs : List Char) : List Char := cs.dropWhile isWhiteSpace

/-- `trimEnd` on characters. -/
def trimEndChars (cs : List Char) : List Char := (cs.reverse.dropWhile isWhiteSpace).reverse

/-- `String.prototype.trimEnd`. -/
def trimEnd (s : String) : String := String.ofList (trimEndChars s.toList)

/-- `String.prototype.trim`. -/
def trim (s : String) : String := String.ofList (trimEndChars (trimStartChars s.toList))

/-- What begins with no white space still does so once its end is cut off. -/
theorem trimEndChars_cons {c : Char} (cs : List Char) (h : isWhiteSpace c = false) :
    ∃ rest, trimEndChars (c :: cs) = c :: rest := by
  rw [trimEndChars, List.reverse_cons, List.dropWhile_append]
  split
  · refine ⟨[], ?_⟩
    rw [List.dropWhile_cons_of_neg (by simp [h])]
    rfl
  · refine ⟨(cs.reverse.dropWhile isWhiteSpace).reverse, ?_⟩
    rw [List.reverse_append]
    rfl

/-- White space that was cut off is cut off. -/
@[simp] theorem trim_trim (s : String) : trim (trim s) = trim s := by
  have hend : ∀ cs, trimEndChars (trimEndChars cs) = trimEndChars cs := by
    intro cs
    rw [trimEndChars, trimEndChars, List.reverse_reverse, List.dropWhile_idempotent]
  have hstart : trimStartChars (trimEndChars (trimStartChars s.toList)) =
      trimEndChars (trimStartChars s.toList) := by
    cases hcs : trimStartChars s.toList with
    | nil => rfl
    | cons c cs =>
        have hc : isWhiteSpace c = false := by
          have heq : s.toList.dropWhile isWhiteSpace = c :: cs := hcs
          have hhead := List.head_dropWhile_not isWhiteSpace (heq ▸ List.cons_ne_nil c cs)
          simpa [heq] using hhead
        obtain ⟨rest, hrest⟩ := trimEndChars_cons cs hc
        rw [hrest, trimStartChars, List.dropWhile_cons_of_neg (by simp [hc])]
  rw [trim, trim, String.toList_ofList, hstart, hend]

end ThalosBackend.Js
