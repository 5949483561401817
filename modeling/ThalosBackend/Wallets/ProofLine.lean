import Mathlib.Data.List.TakeWhile
import ThalosBackend.Wallets.StellarVerification

/-!
# The Proof line of a message

Lemmas that read a message line by line: a line that begins with another letter is no Proof line to
either regular expression, and a Proof that is one line long is found as it is and cut off as it is.
-/

set_option autoImplicit false

namespace ThalosBackend.Wallets

open Js (isLineTerminator isWhiteSpace trimEndChars trimStartChars)

/-- A first character that cannot begin a Proof line. -/
structure OtherHead (c : Char) : Prop where
  notWhiteSpace : isWhiteSpace c = false
  notMarker : c ≠ 'P'

/-- A text of one line that begins with something. -/
structure OneLine (cs : List Char) : Prop where
  head : ∃ c rest, cs = c :: rest ∧ isWhiteSpace c = false
  noBreak : ∀ c ∈ cs, isLineTerminator c = false

theorem proofMarker_eq : proofMarker = ['P', 'r', 'o', 'o', 'f', ':'] := by
  simp [proofMarker]

theorem trimStartChars_cons {c : Char} (h : isWhiteSpace c = false) (cs : List Char) :
    trimStartChars (c :: cs) = c :: cs := by
  simp [trimStartChars, h]

/-- A line feed is no part of a line. -/
theorem ne_newline_of_not_isLineTerminator {c : Char} (h : isLineTerminator c = false) :
    c ≠ '\n' := by
  rintro rfl
  simp [isLineTerminator] at h

/-- Nothing follows a marker that is not there. -/
theorem afterMarker_cons {c : Char} (h : OtherHead c) (cs : List Char) :
    afterMarker (c :: cs) = none := by
  have hne : ¬ proofMarker <+: c :: cs := by
    rw [proofMarker_eq, List.cons_prefix_cons]
    intro hprefix
    exact h.notMarker hprefix.1.symm
  simp only [afterMarker, trimStartChars_cons h.notWhiteSpace, if_neg hne]

theorem afterMarker_marker (rest : List Char) : afterMarker (proofMarker ++ rest) = some rest := by
  have htrim : trimStartChars (proofMarker ++ rest) = proofMarker ++ rest := by
    rw [proofMarker_eq]
    exact trimStartChars_cons (by decide) _
  simp [afterMarker, htrim]

theorem trimStartChars_space {proof : List Char} (h : OneLine proof) :
    trimStartChars (' ' :: proof) = proof := by
  obtain ⟨c, rest, rfl, hc⟩ := h.head
  have hspace : isWhiteSpace ' ' = true := by decide
  simp [trimStartChars, hspace, hc]

/-! ## Finding it -/

/-- Inside a line nothing is found. -/
theorem findProof_inside {line : List Char} (h : ∀ c ∈ line, isLineTerminator c = false)
    (rest : List Char) : findProof false (line ++ '\n' :: rest) = findProof true rest := by
  induction line with
  | nil => simp [findProof, isLineTerminator]
  | cons c line ih =>
      have hc : isLineTerminator c = false := h c List.mem_cons_self
      simp only [List.cons_append, findProof, Bool.false_eq_true, if_false, hc]
      exact ih fun d hd => h d (List.mem_cons_of_mem c hd)

/-- A line with another first letter is passed over. -/
theorem findProof_otherLine {c : Char} {line : List Char} (hhead : OtherHead c)
    (h : ∀ d ∈ c :: line, isLineTerminator d = false) (rest : List Char) :
    findProof true (c :: line ++ '\n' :: rest) = findProof true rest := by
  have hc : isLineTerminator c = false := h c List.mem_cons_self
  simp only [List.cons_append, findProof, if_true, proofAt, afterMarker_cons hhead, hc,
    Option.bind_none]
  exact findProof_inside (fun d hd => h d (List.mem_cons_of_mem c hd)) rest

/-- Behind a marker, a Proof that is one line long is captured as it is. -/
theorem proofAt_proof {proof : List Char} (h : OneLine proof) :
    proofAt (proofMarker ++ ' ' :: proof) = some proof := by
  obtain ⟨c, rest, hproof, -⟩ := h.head
  have hline : restOfLine proof = proof := by
    refine List.takeWhile_eq_self_iff.mpr fun d hd => ?_
    simp [h.noBreak d hd]
  rw [proofAt, afterMarker_marker, Option.bind_some, captureLine, trimStartChars_space h]
  rw [hproof] at hline ⊢
  simp only [hline]

/-- A Proof that is the rest of the message is captured. -/
theorem findProof_proof {proof : List Char} (h : OneLine proof) :
    findProof true (proofMarker ++ ' ' :: proof) = some proof := by
  have hat := proofAt_proof h
  rw [proofMarker_eq] at hat ⊢
  simp only [List.cons_append, findProof, if_true] at hat ⊢
  rw [hat]

/-! ## Cutting it off -/

/-- Inside a line nothing is cut. -/
theorem dropProofLine_inside {line : List Char} (h : ∀ c ∈ line, isLineTerminator c = false)
    (rest : List Char) : dropProofLine (line ++ rest) = line ++ dropProofLine rest := by
  induction line with
  | nil => rfl
  | cons c line ih =>
      have hc : c ≠ '\n' := ne_newline_of_not_isLineTerminator (h c List.mem_cons_self)
      simp only [List.cons_append, dropProofLine, hc, false_and, if_false]
      rw [ih fun d hd => h d (List.mem_cons_of_mem c hd)]

/-- Before a line with another first letter nothing is cut. -/
theorem dropProofLine_otherLine {c : Char} (hhead : OtherHead c) (line rest : List Char) :
    dropProofLine ('\n' :: (c :: line ++ rest)) = '\n' :: dropProofLine (c :: line ++ rest) := by
  have hno : proofToEnd (c :: line ++ rest) = false := by
    simp [proofToEnd, afterMarker_cons hhead]
  rw [dropProofLine, hno]
  simp

/-- A Proof that is one line long goes to the end of the message. -/
theorem proofToEnd_proof {proof : List Char} (h : OneLine proof) :
    proofToEnd (proofMarker ++ ' ' :: proof) = true := by
  obtain ⟨c, rest, hproof, -⟩ := h.head
  rw [proofToEnd, afterMarker_marker, Option.any_some, reachesEnd, trimStartChars_space h]
  have hall := h.noBreak
  rw [hproof] at hall ⊢
  simpa using hall

/-- A last line that is a Proof is cut off, with the line feed before it. -/
theorem dropProofLine_proof {proof : List Char} (h : OneLine proof) :
    dropProofLine ('\n' :: (proofMarker ++ ' ' :: proof)) = [] := by
  rw [dropProofLine, proofToEnd_proof h]
  simp

/-- What is trimmed at the end is white space. -/
theorem trimEndChars_append_eq (cs : List Char) :
    ∃ blanks, (∀ c ∈ blanks, isWhiteSpace c = true) ∧ cs = trimEndChars cs ++ blanks := by
  refine ⟨(cs.reverse.takeWhile isWhiteSpace).reverse, ?_, ?_⟩
  · exact fun c hc => List.mem_takeWhile_imp (List.mem_reverse.mp hc)
  · rw [trimEndChars, ← List.reverse_append, List.takeWhile_append_dropWhile, List.reverse_reverse]

/-! ## Its parts -/

/-- The two sides of the first dot. -/
theorem splitProof_dot {payload hmac : String} (hpayload : ∀ c ∈ payload.toList, c ≠ '.')
    (hhmac : ∀ c ∈ hmac.toList, c ≠ '.') :
    splitProof (payload.toList ++ '.' :: hmac.toList) = (payload, some hmac) := by
  have hleft : (payload.toList ++ '.' :: hmac.toList).takeWhile (· ≠ '.') = payload.toList := by
    rw [List.takeWhile_append_of_pos fun c hc => by simpa using hpayload c hc]
    simp
  have hright : hmac.toList.takeWhile (· ≠ '.') = hmac.toList :=
    List.takeWhile_eq_self_iff.mpr fun c hc => by simpa using hhmac c hc
  simp only [splitProof, hleft, List.drop_left, hright, String.ofList_toList]

end ThalosBackend.Wallets
