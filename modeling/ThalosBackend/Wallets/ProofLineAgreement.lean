import ThalosBackend.Wallets.ChallengeBinding

/-!
# One Proof line, located twice

`parseAndVerifyChallenge` checks the first Proof line of a message, on whatever line it is.
`stripProofLine` cuts the first one off that follows a line feed and goes to the very end. What is
cut off is the line that was checked exactly when the message ends with it
(`proof_lines_agree_iff`): then no Proof line is left in the text whose signature is checked.

A line is identified by what follows its marker, a suffix of the message. `checkedRest` finds the one
that is checked, and both searches are described by what they find first (`checkedRest_first`,
`dropProofLine_first`).
-/

set_option autoImplicit false

namespace ThalosBackend.Wallets

open Js (Value Timestamp isLineTerminator isWhiteSpace trimEndChars trimStartChars)

/-! ## Where the checked line is -/

/-- What follows the marker of the first match of `/^\s*Proof:\s*(.+)$/m`. -/
def checkedRest (lineStart : Bool) : List Char → Option (List Char)
  | [] => none
  | c :: cs =>
      match (if lineStart then (afterMarker (c :: cs)).filter fun rest => (captureLine rest).isSome
        else none) with
      | some rest => some rest
      | none => checkedRest (isLineTerminator c) cs

/-- The Proof that is checked is captured there. -/
theorem findProof_eq (lineStart : Bool) (cs : List Char) :
    findProof lineStart cs = (checkedRest lineStart cs).bind captureLine := by
  induction cs generalizing lineStart with
  | nil => rfl
  | cons c cs ih =>
      rw [findProof, checkedRest]
      cases lineStart with
      | false => exact ih _
      | true =>
          simp only [if_true, proofAt]
          cases hmarker : afterMarker (c :: cs) with
          | none => exact ih _
          | some rest =>
              cases hcapture : captureLine rest with
              | none =>
                  rw [Option.bind_some, hcapture, Option.filter_some_neg (by simp [hcapture])]
                  exact ih _
              | some proof =>
                  rw [Option.bind_some, hcapture, Option.filter_some_pos (by simp [hcapture])]
                  exact hcapture.symm

/-- The text is white space. -/
def Blank (cs : List Char) : Prop := ∀ c ∈ cs, isWhiteSpace c = true

/-- A line starts behind the text; `lineStart` says whether one starts behind nothing. -/
def StartsLine (lineStart : Bool) (before : List Char) : Prop :=
  match before.getLast? with
  | none => lineStart = true
  | some c => isLineTerminator c = true

/-- A line of the text begins with the marker, after white space. -/
def HasMarkerLine (cs : List Char) : Prop :=
  ∃ before gap rest, cs = before ++ (gap ++ (proofMarker ++ rest)) ∧ StartsLine true before ∧ Blank gap

/-- Both regular expressions locate the same line, and what `stripProofLine` leaves has no Proof line:
what is cut off is a line feed, white space, the marker and, after white space, the Proof that was
captured there. -/
structure ProofLinesAgree (signedMessage : String) : Prop where
  same : ∃ gap space proof, Blank gap ∧ Blank space ∧
    signedMessage.toList =
      dropProofLine signedMessage.toList ++ '\n' :: (gap ++ (proofMarker ++ (space ++ proof))) ∧
    checkedRest true signedMessage.toList = some (space ++ proof) ∧
    findProof true signedMessage.toList = some proof
  noneLeft : findProof true (stripProofLine signedMessage).toList = none

/-- The message ends with its first marker line: a line feed is before it, with white space at most
in between, and nothing is after it but the rest of its line. -/
def EndsWithProof (signedMessage : String) : Prop :=
  ∃ before gap rest, signedMessage.toList = before ++ '\n' :: (gap ++ (proofMarker ++ rest)) ∧
    Blank gap ∧ reachesEnd rest = true ∧ ¬HasMarkerLine before

/-! ## Markers -/

section Markers

variable {cs rest : List Char}

/-- The text before a marker is white space, and the text after it is the given one. -/
theorem afterMarker_eq_some :
    afterMarker cs = some rest ↔ ∃ gap, cs = gap ++ (proofMarker ++ rest) ∧ Blank gap := by
  have hmarker : trimStartChars (proofMarker ++ rest) = proofMarker ++ rest := by
    rw [proofMarker_eq]
    exact trimStartChars_cons (by decide) _
  unfold afterMarker
  dsimp only
  constructor
  · intro h
    split at h
    · rename_i hprefix
      obtain ⟨rest', hrest'⟩ := hprefix
      obtain rfl : rest' = rest := by simpa [← hrest'] using h
      refine ⟨cs.takeWhile isWhiteSpace, ?_, fun c hc => List.mem_takeWhile_imp hc⟩
      rw [hrest']
      exact (List.takeWhile_append_dropWhile ..).symm
    · cases h
  · rintro ⟨gap, rfl, hgap⟩
    have htrim : trimStartChars (gap ++ (proofMarker ++ rest)) = proofMarker ++ rest := by
      rw [← hmarker, trimStartChars, List.dropWhile_append_of_pos hgap]
      exact hmarker
    rw [htrim, if_pos (List.prefix_append _ _), List.drop_left]

/-- A marker has one text of white space before it. -/
theorem marker_unique {gap gap' rest' : List Char} (hgap : Blank gap) (hgap' : Blank gap')
    (h : gap ++ (proofMarker ++ rest) = gap' ++ (proofMarker ++ rest')) :
    gap = gap' ∧ rest = rest' := by
  have hrest : some rest = some rest' := by
    rw [← afterMarker_eq_some.mpr ⟨gap, rfl, hgap⟩, ← afterMarker_eq_some.mpr ⟨gap', rfl, hgap'⟩, h]
  obtain rfl := Option.some.inj hrest
  exact ⟨List.append_cancel_right h, rfl⟩

/-- Of two markers, one after white space, the other one is before the white space or not before
its marker. -/
theorem marker_before {before gap before' rest' : List Char} (hgap : Blank gap)
    (h : before' ++ (proofMarker ++ rest') = before ++ (gap ++ (proofMarker ++ rest))) :
    (∃ more, before = before' ++ (proofMarker ++ more)) ∨ rest'.length ≤ rest.length := by
  by_contra hno
  obtain ⟨hnot, hlong⟩ := not_or.mp hno
  have hwhole : before' ++ proofMarker <+: before ++ (gap ++ (proofMarker ++ rest)) :=
    ⟨rest', by rw [List.append_assoc, h]⟩
  rcases List.prefix_or_prefix_of_prefix hwhole (List.prefix_append _ _) with hinside | hbeyond
  · -- the whole marker is before the white space
    obtain ⟨more, hmore⟩ := hinside
    exact hnot ⟨more, by rw [← hmore, List.append_assoc]⟩
  · obtain ⟨t, ht⟩ := hbeyond
    have hrest : t ++ rest' = gap ++ (proofMarker ++ rest) := by
      have h' : before ++ (t ++ rest') = before ++ (gap ++ (proofMarker ++ rest)) := by
        rw [← List.append_assoc, ht, List.append_assoc, h]
      exact List.append_cancel_left h'
    have htail : t ≠ [] := by
      rintro rfl
      exact hnot ⟨[], by rw [List.append_nil] at ht; rw [ht, List.append_nil]⟩
    have hcolon : t.getLast htail = ':' := by
      have hlast : (before ++ t).getLast (by simp [htail]) = ':' := by
        simp only [ht, proofMarker_eq]
        simp
      rwa [List.getLast_append_of_ne_nil _ htail] at hlast
    -- so the marker would end inside the white space or inside the other one
    have hmem : ':' ∈ gap ++ ['P', 'r', 'o', 'o', 'f'] := by
      have hlength : t.length ≤ (gap ++ ['P', 'r', 'o', 'o', 'f']).length := by
        have hsum := congrArg List.length hrest
        simp only [List.length_append, proofMarker_eq, List.length_cons, List.length_nil] at hsum ⊢
        omega
      have hprefix : t <+: gap ++ ['P', 'r', 'o', 'o', 'f'] := by
        refine List.prefix_of_prefix_length_le ⟨rest', hrest⟩ ⟨':' :: rest, ?_⟩ hlength
        simp [proofMarker_eq]
      exact hprefix.subset (hcolon ▸ List.getLast_mem htail)
    rcases List.mem_append.mp hmem with hblank | hletter
    · exact absurd (hgap _ hblank) (by decide)
    · exact absurd hletter (by decide)

end Markers

/-! ## What the two searches find -/

section Searches

variable {lineStart : Bool} {cs rest : List Char}

/-- A place where the first regular expression matches. -/
def LineAt (lineStart : Bool) (cs rest : List Char) : Prop :=
  ∃ before gap, cs = before ++ (gap ++ (proofMarker ++ rest)) ∧ StartsLine lineStart before ∧
    Blank gap ∧ captureLine rest ≠ none

theorem startsLine_cons {c : Char} {before : List Char} :
    StartsLine lineStart (c :: before) ↔ StartsLine (isLineTerminator c) before := by
  unfold StartsLine
  rw [List.getLast?_cons]
  cases before.getLast? with
  | none => exact Iff.rfl
  | some d => exact Iff.rfl

theorem startsLine_concat {c : Char} (before : List Char) (h : isLineTerminator c = true) :
    StartsLine lineStart (before ++ [c]) := by
  simpa [StartsLine] using h

theorem blank_cons {c : Char} {gap : List Char} (hc : isWhiteSpace c = true) (hgap : Blank gap) :
    Blank (c :: gap) :=
  List.forall_mem_cons.mpr ⟨hc, hgap⟩

/-- What follows the marker ends on its line, so there is something to capture. -/
theorem captureLine_of_reachesEnd (h : reachesEnd rest = true) : captureLine rest ≠ none := by
  unfold reachesEnd at h
  unfold captureLine
  cases htrim : trimStartChars rest with
  | cons c cs => simp
  | nil =>
      rw [htrim] at h
      obtain ⟨c, hlast, hc⟩ := (Option.any_eq_true ..).mp h
      obtain ⟨init, rfl⟩ := List.getLast?_eq_some_iff.mp hlast
      simp [hc]

/-- What is captured of a line that goes to the end is all of it. -/
theorem captureLine_eq_of_reachesEnd (h : reachesEnd rest = true) :
    ∃ space proof, rest = space ++ proof ∧ Blank space ∧ captureLine rest = some proof := by
  unfold reachesEnd at h
  unfold captureLine
  cases htrim : trimStartChars rest with
  | cons c cs =>
      rw [htrim] at h
      have hline : restOfLine (c :: cs) = c :: cs :=
        List.takeWhile_eq_self_iff.mpr (List.all_eq_true.mp h)
      refine ⟨rest.takeWhile isWhiteSpace, c :: cs, ?_, fun d hd => List.mem_takeWhile_imp hd, ?_⟩
      · rw [← htrim]
        exact (List.takeWhile_append_dropWhile ..).symm
      · dsimp only
        rw [hline]
  | nil =>
      rw [htrim] at h
      obtain ⟨c, hlast, hc⟩ := (Option.any_eq_true ..).mp h
      obtain ⟨init, rfl⟩ := List.getLast?_eq_some_iff.mp hlast
      have hblank : Blank (init ++ [c]) := List.dropWhile_eq_nil_iff.mp htrim
      refine ⟨init, [c], rfl, fun d hd => hblank d (List.mem_append_left _ hd), ?_⟩
      simp [hc]

/-- A longer text has something to capture, too. -/
theorem captureLine_append (h : captureLine rest ≠ none) (more : List Char) :
    captureLine (rest ++ more) ≠ none := by
  unfold captureLine at h ⊢
  cases htrim : trimStartChars (rest ++ more) with
  | cons c cs => simp
  | nil =>
      have hall : Blank (rest ++ more) := List.dropWhile_eq_nil_iff.mp htrim
      have hnone : trimStartChars rest = [] :=
        List.dropWhile_eq_nil_iff.mpr fun c hc => hall c (List.mem_append_left _ hc)
      rw [hnone] at h
      simp only [ne_eq, Option.map_eq_none_iff, List.find?_eq_none, not_forall] at h ⊢
      obtain ⟨c, hc, hline⟩ := h
      exact ⟨c, by simpa using Or.inr (List.mem_reverse.mp hc), hline⟩

theorem checkedRest_here {c : Char} (hmarker : afterMarker (c :: cs) = some rest)
    (hcapture : captureLine rest ≠ none) : checkedRest true (c :: cs) = some rest := by
  rw [checkedRest, if_pos rfl, hmarker,
    Option.filter_some_pos (by simpa [Option.isSome_iff_ne_none] using hcapture)]

theorem checkedRest_later {c : Char} (h : ∀ rest, lineStart = true →
    afterMarker (c :: cs) = some rest → captureLine rest = none) :
    checkedRest lineStart (c :: cs) = checkedRest (isLineTerminator c) cs := by
  rw [checkedRest]
  cases lineStart with
  | false => rfl
  | true =>
      cases hmarker : afterMarker (c :: cs) with
      | none => rfl
      | some rest =>
          have hnone := h rest rfl hmarker
          rw [if_pos rfl, Option.filter_some_neg (by simp [hnone])]

/-- The checked line is a match. -/
theorem lineAt_of_checkedRest (h : checkedRest lineStart cs = some rest) :
    LineAt lineStart cs rest := by
  induction cs generalizing lineStart with
  | nil => cases h
  | cons c cs ih =>
      by_cases hhere : ∃ r, lineStart = true ∧ afterMarker (c :: cs) = some r ∧ captureLine r ≠ none
      · obtain ⟨r, rfl, hmarker, hcapture⟩ := hhere
        rw [checkedRest_here hmarker hcapture] at h
        obtain rfl := Option.some.inj h
        obtain ⟨gap, hcs, hgap⟩ := afterMarker_eq_some.mp hmarker
        exact ⟨[], gap, hcs, rfl, hgap, hcapture⟩
      · rw [checkedRest_later fun r hstart hmarker => by
          by_contra hcapture
          exact hhere ⟨r, hstart, hmarker, hcapture⟩] at h
        obtain ⟨before, gap, rfl, hstart, hgap, hcapture⟩ := ih h
        exact ⟨c :: before, gap, rfl, startsLine_cons.mpr hstart, hgap, hcapture⟩

/-- **The checked line is the first match.** -/
theorem checkedRest_first (h : LineAt lineStart cs rest) :
    ∃ first, checkedRest lineStart cs = some first ∧ rest.length ≤ first.length := by
  induction cs generalizing lineStart with
  | nil =>
      obtain ⟨before, gap, hcs, -⟩ := h
      simp [proofMarker_eq] at hcs
  | cons c cs ih =>
      obtain ⟨before, gap, hcs, hstart, hgap, hcapture⟩ := h
      by_cases hhere : ∃ r, lineStart = true ∧ afterMarker (c :: cs) = some r ∧ captureLine r ≠ none
      · obtain ⟨r, rfl, hmarker, hcaptured⟩ := hhere
        refine ⟨r, checkedRest_here hmarker hcaptured, ?_⟩
        obtain ⟨gap', hcs', hgap'⟩ := afterMarker_eq_some.mp hmarker
        have heq : (before ++ gap) ++ (proofMarker ++ rest) = [] ++ (gap' ++ (proofMarker ++ r)) := by
          rw [List.append_assoc, ← hcs, hcs', List.nil_append]
        rcases marker_before hgap' heq with ⟨more, hmore⟩ | hle
        · simp [proofMarker_eq] at hmore
        · exact hle
      · rw [checkedRest_later fun r hstart hmarker => by
          by_contra hcaptured
          exact hhere ⟨r, hstart, hmarker, hcaptured⟩]
        cases before with
        | nil => exact absurd ⟨rest, hstart, afterMarker_eq_some.mpr ⟨gap, hcs, hgap⟩, hcapture⟩ hhere
        | cons d before =>
            obtain ⟨rfl, htail⟩ := List.cons.inj hcs
            exact ih ⟨before, gap, htail, startsLine_cons.mp hstart, hgap, hcapture⟩

theorem proofToEnd_iff : proofToEnd cs = true ↔
    ∃ gap rest, cs = gap ++ (proofMarker ++ rest) ∧ Blank gap ∧ reachesEnd rest = true := by
  rw [proofToEnd, Option.any_eq_true]
  constructor
  · rintro ⟨rest, hmarker, hend⟩
    obtain ⟨gap, hcs, hgap⟩ := afterMarker_eq_some.mp hmarker
    exact ⟨gap, rest, hcs, hgap, hend⟩
  · rintro ⟨gap, rest, hcs, hgap, hend⟩
    exact ⟨rest, afterMarker_eq_some.mpr ⟨gap, hcs, hgap⟩, hend⟩

/-- Nothing is cut off, or a line that goes to the end. -/
theorem dropProofLine_cases (cs : List Char) : dropProofLine cs = cs ∨
    ∃ gap rest, cs = dropProofLine cs ++ '\n' :: (gap ++ (proofMarker ++ rest)) ∧ Blank gap ∧
      reachesEnd rest = true := by
  induction cs with
  | nil => exact .inl rfl
  | cons c cs ih =>
      rw [dropProofLine]
      split
      · rename_i hcut
        obtain ⟨rfl, hend⟩ := hcut
        obtain ⟨gap, rest, hcs, hgap, hend⟩ := proofToEnd_iff.mp hend
        exact .inr ⟨gap, rest, by rw [List.nil_append, ← hcs], hgap, hend⟩
      · rcases ih with hsame | ⟨gap, rest, hcs, hgap, hend⟩
        · exact .inl (by rw [hsame])
        · exact .inr ⟨gap, rest, by rw [List.cons_append, ← hcs], hgap, hend⟩

/-- **What is cut off is the first line that goes to the end.** -/
theorem dropProofLine_first {before gap : List Char}
    (hcs : cs = before ++ '\n' :: (gap ++ (proofMarker ++ rest))) (hgap : Blank gap)
    (hend : reachesEnd rest = true) :
    ∃ gap' first, cs = dropProofLine cs ++ '\n' :: (gap' ++ (proofMarker ++ first)) ∧ Blank gap' ∧
      reachesEnd first = true ∧ rest.length ≤ first.length := by
  induction cs generalizing before with
  | nil => simp at hcs
  | cons c cs ih =>
      rw [dropProofLine]
      split
      · rename_i hcut
        obtain ⟨rfl, hcut⟩ := hcut
        obtain ⟨gap', first, hcs', hgap', hend'⟩ := proofToEnd_iff.mp hcut
        refine ⟨gap', first, by rw [List.nil_append, ← hcs'], hgap', hend', ?_⟩
        have heq : (before ++ '\n' :: gap) ++ (proofMarker ++ rest) =
            [] ++ (('\n' :: gap') ++ (proofMarker ++ first)) := by
          rw [List.append_assoc, List.cons_append, ← hcs, hcs']
          rfl
        rcases marker_before (blank_cons (by decide) hgap') heq with ⟨more, hmore⟩ | hle
        · simp at hmore
        · exact hle
      · rename_i hkept
        cases before with
        | nil =>
            obtain ⟨rfl, htail⟩ := List.cons.inj hcs
            exact absurd ⟨rfl, proofToEnd_iff.mpr ⟨gap, rest, htail, hgap, hend⟩⟩ hkept
        | cons d before =>
            obtain ⟨rfl, htail⟩ := List.cons.inj hcs
            obtain ⟨gap', first, hcs', hrest⟩ := ih htail
            exact ⟨gap', first, by rw [List.cons_append, ← hcs'], hrest⟩

end Searches

/-! ## When they agree -/

section Agreement

variable {cs rest : List Char}

/-- A match stays one when the text goes on. -/
theorem LineAt.append {lineStart : Bool} (h : LineAt lineStart cs rest) (more : List Char) :
    LineAt lineStart (cs ++ more) (rest ++ more) := by
  obtain ⟨before, gap, rfl, hstart, hgap, hcapture⟩ := h
  refine ⟨before, gap, ?_, hstart, hgap, captureLine_append hcapture more⟩
  simp only [List.append_assoc]

/-- Nothing is found in a text that ends before the marker. -/
theorem checkedRest_eq_none {kept more : List Char}
    (h : checkedRest true (kept ++ more) = some rest) (hlt : rest.length < more.length) :
    checkedRest true kept = none := by
  rw [Option.eq_none_iff_forall_ne_some]
  intro other hother
  obtain ⟨first, hfirst, hle⟩ := checkedRest_first ((lineAt_of_checkedRest hother).append more)
  obtain rfl := Option.some.inj (hfirst.symm.trans h)
  rw [List.length_append] at hle
  omega

/-- A text that goes on with another marker has something to capture. -/
theorem captureLine_marker (more tail : List Char) :
    captureLine (more ++ (proofMarker ++ tail)) ≠ none := by
  have hsome : trimStartChars (more ++ (proofMarker ++ tail)) ≠ [] := by
    intro hnone
    have hblank : Blank (more ++ (proofMarker ++ tail)) := List.dropWhile_eq_nil_iff.mp hnone
    have hletter := hblank 'P' (by simp [proofMarker_eq])
    exact absurd hletter (by decide)
  unfold captureLine
  split
  · rename_i hnone
    exact absurd hnone hsome
  · simp

/-- Where the first marker line of the message goes to the end, it is the one that is checked. -/
theorem checkedRest_of_endsWithProof {before gap : List Char}
    (hcs : cs = before ++ '\n' :: (gap ++ (proofMarker ++ rest))) (hgap : Blank gap)
    (hend : reachesEnd rest = true) (hno : ¬HasMarkerLine before) :
    checkedRest true cs = some rest := by
  have hline : LineAt true cs rest := by
    refine ⟨before ++ ['\n'], gap, ?_, startsLine_concat before (by decide), hgap,
      captureLine_of_reachesEnd hend⟩
    rw [hcs, List.append_assoc]
    rfl
  obtain ⟨first, hfirst, hle⟩ := checkedRest_first hline
  obtain ⟨before', gap', hcs', hstart, hgap', -⟩ := lineAt_of_checkedRest hfirst
  have heq : (before' ++ gap') ++ (proofMarker ++ first) =
      before ++ (('\n' :: gap) ++ (proofMarker ++ rest)) := by
    rw [List.append_assoc, ← hcs', hcs]
    rfl
  rcases marker_before (blank_cons (by decide) hgap) heq with ⟨more, hmore⟩ | hge
  · -- the checked line would be a marker line before this one
    exact absurd ⟨before', gap', more, by rw [hmore, List.append_assoc], hstart, hgap'⟩ hno
  · have hboth : (before' ++ gap' ++ proofMarker) ++ first =
        (before ++ '\n' :: gap ++ proofMarker) ++ rest := by
      simpa only [List.append_assoc, List.cons_append] using heq
    rw [hfirst, (List.append_inj' hboth (le_antisymm hge hle)).2]

/-- That line is the one that is cut off, too. -/
theorem dropProofLine_of_endsWithProof {before gap : List Char}
    (hcs : cs = before ++ '\n' :: (gap ++ (proofMarker ++ rest))) (hgap : Blank gap)
    (hend : reachesEnd rest = true) (hno : ¬HasMarkerLine before) :
    ∃ gap', Blank gap' ∧ cs = dropProofLine cs ++ '\n' :: (gap' ++ (proofMarker ++ rest)) := by
  have hchecked := checkedRest_of_endsWithProof hcs hgap hend hno
  obtain ⟨gap', first, hcs', hgap', hend', hle⟩ := dropProofLine_first hcs hgap hend
  -- what is cut off goes to the end, too, and is not before the checked line
  have hline : LineAt true cs first := by
    refine ⟨dropProofLine cs ++ ['\n'], gap', ?_, startsLine_concat _ (by decide), hgap',
      captureLine_of_reachesEnd hend'⟩
    rw [List.append_assoc]
    exact hcs'
  obtain ⟨other, hother, hge⟩ := checkedRest_first hline
  obtain rfl := Option.some.inj (hother.symm.trans hchecked)
  have hboth : (dropProofLine cs ++ '\n' :: gap' ++ proofMarker) ++ first =
      (before ++ '\n' :: gap ++ proofMarker) ++ other := by
    simpa only [List.append_assoc, List.cons_append] using hcs'.symm.trans hcs
  obtain rfl := (List.append_inj' hboth (le_antisymm hge hle)).2
  exact ⟨gap', hgap', hcs'⟩

/-- **One Proof line.** The line that is checked is the line that is cut off, and no other is left,
exactly when the message ends with its first marker line. -/
theorem proof_lines_agree_iff (signedMessage : String) :
    ProofLinesAgree signedMessage ↔ EndsWithProof signedMessage := by
  constructor
  · rintro ⟨⟨gap, space, proof, hgap, -, hcs, hchecked, -⟩, -⟩
    rcases dropProofLine_cases signedMessage.toList with hsame | ⟨gap', rest, hcs', hgap', hend⟩
    · have hlength := congrArg List.length hcs
      rw [hsame, List.length_append, List.length_cons] at hlength
      omega
    · have hcut : gap ++ (proofMarker ++ (space ++ proof)) = gap' ++ (proofMarker ++ rest) :=
        (List.cons.inj (List.append_cancel_left (hcs.symm.trans hcs'))).2
      obtain ⟨-, rfl⟩ := marker_unique hgap hgap' hcut
      refine ⟨_, gap, _, hcs, hgap, hend, ?_⟩
      -- an earlier marker line would have been checked
      rintro ⟨before, gap₁, more, hdrop, hstart, hgap₁⟩
      have hline : LineAt true signedMessage.toList
          (more ++ '\n' :: (gap ++ (proofMarker ++ (space ++ proof)))) := by
        refine ⟨before, gap₁, ?_, hstart, hgap₁, ?_⟩
        · rw [hcs, hdrop]
          simp only [List.append_assoc]
        · have hcapture := captureLine_marker (more ++ '\n' :: gap) (space ++ proof)
          simpa only [List.append_assoc, List.cons_append] using hcapture
      obtain ⟨first, hfirst, hle⟩ := checkedRest_first hline
      obtain rfl := Option.some.inj (hfirst.symm.trans hchecked)
      simp only [List.length_append, List.length_cons] at hle
      omega
  · rintro ⟨before, gap, rest, hcs, hgap, hend, hno⟩
    have hchecked := checkedRest_of_endsWithProof hcs hgap hend hno
    obtain ⟨gap', hgap', hcs'⟩ := dropProofLine_of_endsWithProof hcs hgap hend hno
    obtain ⟨space, proof, rfl, hspace, hcapture⟩ := captureLine_eq_of_reachesEnd hend
    have hfound : findProof true signedMessage.toList = some proof := by
      rw [findProof_eq, hchecked, Option.bind_some, hcapture]
    refine ⟨⟨gap', space, proof, hgap', hspace, hcs', hchecked, hfound⟩, ?_⟩
    obtain ⟨more, -, hmore⟩ := trimEndChars_append_eq (dropProofLine signedMessage.toList)
    have hwhole : checkedRest true (trimEndChars (dropProofLine signedMessage.toList) ++
        (more ++ '\n' :: (gap' ++ (proofMarker ++ (space ++ proof))))) = some (space ++ proof) := by
      rw [← List.append_assoc, ← hmore, ← hcs']
      exact hchecked
    have hkept := checkedRest_eq_none hwhole (by
      simp only [List.length_append, List.length_cons]
      omega)
    rw [findProof_eq, stripProofLine, String.toList_ofList, hkept]
    rfl

end Agreement

/-! ## A line break at the end -/

/-- What goes to the end does not end with a line break. -/
theorem getLast?_of_reachesEnd {rest : List Char} (h : reachesEnd rest = true) :
    ∃ c, rest.getLast? = some c ∧ isLineTerminator c = false := by
  unfold reachesEnd at h
  cases htrim : trimStartChars rest with
  | nil =>
      rw [htrim] at h
      obtain ⟨c, hlast, hc⟩ := (Option.any_eq_true ..).mp h
      exact ⟨c, hlast, by simpa using hc⟩
  | cons c cs =>
      rw [htrim] at h
      have hall : ∀ d ∈ c :: cs, isLineTerminator d = false := by simpa using h
      have hrest : rest = rest.takeWhile isWhiteSpace ++ (c :: cs) := by
        rw [← htrim]
        exact (List.takeWhile_append_dropWhile ..).symm
      refine ⟨(c :: cs).getLast (by simp), ?_, hall _ (List.getLast_mem _)⟩
      rw [hrest, List.getLast?_append_of_ne_nil _ (by simp), List.getLast?_eq_getLast_of_ne_nil]

/-- A message that ends with a line break loses no Proof line. -/
theorem dropProofLine_newline (cs : List Char) : dropProofLine (cs ++ ['\n']) = cs ++ ['\n'] := by
  rcases dropProofLine_cases (cs ++ ['\n']) with hsame | ⟨gap, rest, hcs, -, hend⟩
  · exact hsame
  · obtain ⟨c, hlast, hc⟩ := getLast?_of_reachesEnd hend
    obtain ⟨init, rfl⟩ := List.getLast?_eq_some_iff.mp hlast
    have heq := congrArg List.getLast? hcs
    rw [List.getLast?_concat] at heq
    simp only [← List.append_assoc, ← List.cons_append, List.getLast?_concat] at heq
    rw [← Option.some.inj heq] at hc
    cases hc

/-- A Proof on a line of its own is captured. -/
theorem findProof_proofLine {proof : List Char} (h : OneLine proof) (rest : List Char) :
    findProof true (proofMarker ++ ' ' :: (proof ++ '\n' :: rest)) = some proof := by
  obtain ⟨c, line, rfl, hc⟩ := h.head
  have htrim : trimStartChars (' ' :: (c :: line ++ '\n' :: rest)) = c :: line ++ '\n' :: rest := by
    have hspace : isWhiteSpace ' ' = true := by decide
    simp [trimStartChars, hspace, hc]
  have hline : restOfLine (c :: line ++ '\n' :: rest) = c :: line := by
    unfold restOfLine
    rw [List.takeWhile_append_of_pos fun d hd => by simp [h.noBreak d hd]]
    simp [isLineTerminator]
  have hat : proofAt (proofMarker ++ ' ' :: (c :: line ++ '\n' :: rest)) = some (c :: line) := by
    rw [proofAt, afterMarker_marker, Option.bind_some, captureLine, htrim]
    simp only [List.cons_append] at hline ⊢
    rw [hline]
  rw [proofMarker_eq] at hat ⊢
  simp only [List.cons_append, findProof, if_true] at hat ⊢
  rw [hat]

/-- The other text with the fresh Proof below it, and a line break. -/
def brokenMessage : String := splicedMessage ++ "\n"

theorem brokenMessage_toList : brokenMessage.toList = splicedMessage.toList ++ ['\n'] := by
  simp only [brokenMessage, String.toList_append, String.reduceToList]

theorem findProof_brokenMessage : findProof true brokenMessage.toList = some freshProof := by
  have hbreak : ∀ (line line' proof : List Char) (c d : Char),
      (c :: line ++ '\n' :: (d :: line' ++ '\n' :: (proofMarker ++ ' ' :: proof))) ++ ['\n'] =
        c :: line ++ '\n' :: (d :: line' ++ '\n' :: (proofMarker ++ ' ' :: (proof ++ '\n' :: []))) := by
    intro line line' proof c d
    simp only [List.append_assoc, List.cons_append]
  rw [brokenMessage_toList, splicedMessage_toList, hbreak,
    findProof_otherLine ⟨by decide, by decide⟩ (unterminated_of_all (by decide +kernel)),
    findProof_otherLine ⟨by decide, by decide⟩ (unterminated_of_all (by decide +kernel)),
    findProof_proofLine freshProof_oneLine]

/-- Only the line break is cut off. -/
theorem stripProofLine_brokenMessage : stripProofLine brokenMessage = splicedMessage := by
  have hhmac : freshHmac.toList.getLast? = some 'I' := by decide +kernel
  obtain ⟨init, hinit⟩ := List.getLast?_eq_some_iff.mp hhmac
  obtain ⟨start, hstart⟩ : ∃ start, splicedMessage.toList = start ++ ['I'] := by
    refine ⟨(otherText ++ "\nProof: ").toList ++ freshPayloadB64.toList ++ '.' :: init, ?_⟩
    rw [splicedMessage, String.toList_append, String.toList_ofList, freshProof, hinit]
    simp only [List.append_assoc, List.cons_append]
  have htrim : trimEndChars (splicedMessage.toList ++ ['\n']) = splicedMessage.toList := by
    have hbreak : isWhiteSpace '\n' = true := by decide
    have hletter : isWhiteSpace 'I' = false := by decide
    simp [hstart, trimEndChars, hbreak, hletter]
  rw [stripProofLine, brokenMessage_toList, dropProofLine_newline, htrim, String.ofList_toList]

/-- The message is accepted, and the signature is checked against a text with the Proof line. -/
theorem proof_line_left :
    parseAndVerifyChallenge exampleEnv.platform 1767225600000 brokenMessage
        "unit-test-jwt-secret" = .ok freshPayload ∧
      findProof true (stripProofLine brokenMessage).toList = some freshProof ∧
      ¬ProofLinesAgree brokenMessage := by
  have hleft : findProof true (stripProofLine brokenMessage).toList = some freshProof := by
    rw [stripProofLine_brokenMessage]
    exact findProof_splicedMessage
  refine ⟨?_, hleft, fun h => ?_⟩
  · exact parseAndVerifyChallenge_eq_ok.mpr (authenticProof_of_freshProof findProof_brokenMessage)
  · rw [h.noneLeft] at hleft
    cases hleft

end ThalosBackend.Wallets
