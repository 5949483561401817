import ThalosBackend.Wallets.ChallengeBinding

/-!
# A challenge comes back

`generateVerificationChallenge` writes the text of a challenge and a Proof below it, and
`parseAndVerifyChallenge` and `stripProofLine` take the two apart again, by two regular expressions
whose white space crosses lines. The text is nine lines, none of which begins as a Proof does, and the
Proof is found behind the blank line after them (`findProof_message`). What is cut off is the Proof
with both line feeds before it, so that the rest is what `buildChallengeMessage` writes up to white
space at the end.

`challenge_round_trip` is about every challenge but those whose expiry is in the first second of
1970: their expiry is zero, and is refused as if it were missing.
-/

set_option autoImplicit false

namespace ThalosBackend.Wallets

open Js (Number Value Timestamp nonEmpty trimEnd trimEndChars isoText isWhiteSpace isLineTerminator
  ofTimestamp timeClip trimStartChars)

/-! ## The lines of a challenge -/

/-- A text that fits on a line. -/
def IsLine (s : String) : Prop := ∀ c ∈ s.toList, isLineTerminator c = false

/-- The lines of a challenge up to its expiry, and what follows them. -/
def challengeChars (fields : ChallengeFields) (tail : List Char) : List Char :=
  'S' :: "tellar Signed Message:".toList ++ '\n' ::
    ('T' :: "halos Wallet Ownership Proof".toList ++ '\n' :: '\n' ::
      ('I' :: " authorize linking this wallet to my Thalos account.".toList ++ '\n' ::
        ('A' :: ("ccount: " ++ fields.sub).toList ++ '\n' ::
          ('W' :: ("allet: " ++ fields.addr).toList ++ '\n' ::
            ('N' :: ("once: " ++ fields.nonce).toList ++ '\n' ::
              ('I' :: ("ssued At: " ++ fields.iat).toList ++ '\n' ::
                ('E' :: ("xpires At: " ++ fields.exp).toList ++ tail)))))))

/-- Every field of the challenge fits on its line. -/
structure FieldLines (fields : ChallengeFields) : Prop where
  sub : IsLine fields.sub
  addr : IsLine fields.addr
  nonce : IsLine fields.nonce
  iat : IsLine fields.iat
  exp : IsLine fields.exp

theorem buildChallengeMessage_toList (fields : ChallengeFields) :
    (buildChallengeMessage fields).toList = challengeChars fields ['\n'] := by
  simp [buildChallengeMessage, challengeChars, walletOwnershipPrefix, String.intercalate_cons_cons,
    String.intercalate_singleton]

/-- The parts of a Proof: something, without dots and white space. -/
structure IsToken (s : String) : Prop where
  ne_empty : s ≠ ""
  plain : ∀ c ∈ s.toList, isWhiteSpace c = false ∧ c ≠ '.'

/-- The payload and its HMAC, as they stand in a Proof. -/
def proofChars (payloadB64 sig : String) : List Char := payloadB64.toList ++ '.' :: sig.toList

theorem challengeMessage_toList (userId address nonce payloadB64 sig : String)
    (issuedAt expiresAt : Timestamp) :
    (challengeMessage userId address nonce issuedAt expiresAt payloadB64 sig).toList =
      challengeChars ⟨userId, address, nonce, isoText issuedAt, isoText expiresAt⟩
        ('\n' :: '\n' :: (proofMarker ++ ' ' :: proofChars payloadB64 sig)) := by
  have hsep : "Stellar Signed Message:\n".toList =
      'S' :: "tellar Signed Message:".toList ++ ['\n'] := by decide
  have hprefix : walletOwnershipPrefix.toList = 'T' :: "halos Wallet Ownership Proof".toList := by
    decide
  have hlink : "I authorize linking this wallet to my Thalos account.\n".toList =
      'I' :: " authorize linking this wallet to my Thalos account.".toList ++ ['\n'] := by decide
  have hsub : "Account: ".toList = 'A' :: "ccount: ".toList := by decide
  have haddr : "Wallet: ".toList = 'W' :: "allet: ".toList := by decide
  have hnonce : "Nonce: ".toList = 'N' :: "once: ".toList := by decide
  have hiat : "Issued At: ".toList = 'I' :: "ssued At: ".toList := by decide
  have hexp : "Expires At: ".toList = 'E' :: "xpires At: ".toList := by decide
  have hproof : "Proof: ".toList = proofMarker ++ [' '] := by decide
  have hbreak : "\n".toList = ['\n'] := by decide
  have hdot : ".".toList = ['.'] := by decide
  unfold challengeMessage
  generalize isoText issuedAt = iat
  generalize isoText expiresAt = exp
  simp only [challengeChars, proofChars, String.toList_append, hsep, hprefix, hlink,
    hsub, haddr, hnonce, hiat, hexp, hproof, hbreak, hdot, List.append_assoc, List.cons_append,
    List.nil_append]

theorem isLine_of_plain {s : String} (h : ∀ c ∈ s.toList, isWhiteSpace c = false) : IsLine s := by
  intro c hc
  have hplain := h c hc
  simp only [isWhiteSpace, Bool.or_eq_false_iff] at hplain
  exact hplain.1.1.1.1.1.1.1.1.1.1.1

/-- A label and a field make a line. -/
theorem line_of_label (c : Char) (label : String) {field : String}
    (hlabel : (c :: label.toList).all (!isLineTerminator ·) = true) (hfield : IsLine field) :
    ∀ d ∈ c :: (label ++ field).toList, isLineTerminator d = false := by
  intro d hd
  rw [String.toList_append, ← List.cons_append, List.mem_append] at hd
  rcases hd with hd | hd
  · exact unterminated_of_all hlabel d hd
  · exact hfield d hd

/-! The lines of a challenge that say the same in each. -/

theorem heading_line : ∀ d ∈ 'S' :: "tellar Signed Message:".toList, isLineTerminator d = false :=
  unterminated_of_all (by decide +kernel)

theorem title_line : ∀ d ∈ 'T' :: "halos Wallet Ownership Proof".toList,
    isLineTerminator d = false :=
  unterminated_of_all (by decide +kernel)

theorem link_line : ∀ d ∈ 'I' :: " authorize linking this wallet to my Thalos account.".toList,
    isLineTerminator d = false :=
  unterminated_of_all (by decide +kernel)

theorem isToken_head {s : String} (h : IsToken s) :
    ∃ c rest, s.toList = c :: rest ∧ isWhiteSpace c = false := by
  cases hs : s.toList with
  | nil => exact absurd (String.toList_eq_nil_iff.mp hs) h.ne_empty
  | cons c rest => exact ⟨c, rest, rfl, (h.plain c (by simp [hs])).1⟩

theorem proofChars_oneLine {payloadB64 sig : String} (hpayload : IsToken payloadB64)
    (hsig : IsToken sig) : OneLine (proofChars payloadB64 sig) := by
  constructor
  · obtain ⟨c, rest, hcons, hc⟩ := isToken_head hpayload
    exact ⟨c, rest ++ '.' :: sig.toList, by rw [proofChars, hcons, List.cons_append], hc⟩
  · intro c hc
    rcases List.mem_append.mp hc with hc | hc
    · exact isLine_of_plain (fun d hd => (hpayload.plain d hd).1) c hc
    · rcases List.mem_cons.mp hc with rfl | hc
      · decide
      · exact isLine_of_plain (fun d hd => (hsig.plain d hd).1) c hc

/-! ## Finding the Proof -/

/-- White space crosses the end of a line. -/
theorem afterMarker_newline (cs : List Char) : afterMarker ('\n' :: cs) = afterMarker cs := by
  have hspace : isWhiteSpace '\n' = true := by decide
  have htrim : trimStartChars ('\n' :: cs) = trimStartChars cs := by
    simp [trimStartChars, hspace]
  simp only [afterMarker, htrim]

/-- An empty line before another one is passed over. -/
theorem findProof_blank {c : Char} (h : OtherHead c) (line rest : List Char) :
    findProof true ('\n' :: (c :: line ++ rest)) = findProof true (c :: line ++ rest) := by
  have hbreak : isLineTerminator '\n' = true := by decide
  have hnone : afterMarker (c :: line ++ rest) = none := afterMarker_cons h _
  conv_lhs => unfold findProof
  simp only [if_true, proofAt, afterMarker_newline, hnone, Option.bind_none, hbreak]

/-- The Proof is found from the empty line above it. -/
theorem findProof_blank_proof {proof : List Char} (h : OneLine proof) :
    findProof true ('\n' :: (proofMarker ++ ' ' :: proof)) = some proof := by
  have hat : proofAt ('\n' :: (proofMarker ++ ' ' :: proof)) = some proof := by
    rw [proofAt, afterMarker_newline, ← proofAt, proofAt_proof h]
  unfold findProof
  rw [if_pos rfl, hat]

/-- A last line with another first letter holds no Proof. -/
theorem findProof_lastLine {c : Char} {line : List Char} (hhead : OtherHead c)
    (h : ∀ d ∈ c :: line, isLineTerminator d = false) : findProof true (c :: line) = none := by
  have hinside : ∀ cs : List Char, (∀ d ∈ cs, isLineTerminator d = false) →
      findProof false cs = none := by
    intro cs hcs
    induction cs with
    | nil => rfl
    | cons d cs ih =>
        have hd := hcs d List.mem_cons_self
        simp only [findProof, Bool.false_eq_true, if_false, hd]
        exact ih fun e he => hcs e (List.mem_cons_of_mem d he)
  have hc := h c List.mem_cons_self
  simp only [findProof, if_true, proofAt, afterMarker_cons hhead, Option.bind_none, hc]
  exact hinside line fun d hd => h d (List.mem_cons_of_mem c hd)

/-- The lines before the last are passed over. -/
theorem findProof_challengeChars {fields : ChallengeFields} (h : FieldLines fields)
    (tail : List Char) :
    findProof true (challengeChars fields tail) =
      findProof true ('E' :: ("xpires At: " ++ fields.exp).toList ++ tail) := by
  rw [challengeChars,
    findProof_otherLine ⟨by decide, by decide⟩ heading_line,
    findProof_otherLine ⟨by decide, by decide⟩ title_line,
    findProof_blank ⟨by decide, by decide⟩,
    findProof_otherLine ⟨by decide, by decide⟩ link_line,
    findProof_otherLine ⟨by decide, by decide⟩ (line_of_label 'A' "ccount: " (by decide) h.sub),
    findProof_otherLine ⟨by decide, by decide⟩ (line_of_label 'W' "allet: " (by decide) h.addr),
    findProof_otherLine ⟨by decide, by decide⟩ (line_of_label 'N' "once: " (by decide) h.nonce),
    findProof_otherLine ⟨by decide, by decide⟩ (line_of_label 'I' "ssued At: " (by decide) h.iat)]

/-- The Proof of a message is found. -/
theorem findProof_message {fields : ChallengeFields} (h : FieldLines fields)
    {proof : List Char} (hproof : OneLine proof) :
    findProof true (challengeChars fields ('\n' :: '\n' :: (proofMarker ++ ' ' :: proof))) =
      some proof := by
  rw [findProof_challengeChars h,
    findProof_otherLine ⟨by decide, by decide⟩ (line_of_label 'E' "xpires At: " (by decide) h.exp),
    findProof_blank_proof hproof]

/-- The text that is signed has no Proof. -/
theorem findProof_text {fields : ChallengeFields} (h : FieldLines fields) :
    findProof true (challengeChars fields []) = none := by
  rw [findProof_challengeChars h, List.append_nil]
  exact findProof_lastLine ⟨by decide, by decide⟩ (line_of_label 'E' "xpires At: " (by decide) h.exp)

/-! ## Cutting it off -/

/-- Before an empty line and another line nothing is cut. -/
theorem dropProofLine_blank {c : Char} (h : OtherHead c) (line rest : List Char) :
    dropProofLine ('\n' :: '\n' :: (c :: line ++ rest)) =
      '\n' :: dropProofLine ('\n' :: (c :: line ++ rest)) := by
  have hnone : afterMarker (c :: line ++ rest) = none := afterMarker_cons h _
  have hno : proofToEnd ('\n' :: (c :: line ++ rest)) = false := by
    rw [proofToEnd, afterMarker_newline, hnone]
    rfl
  rw [dropProofLine, hno]
  simp

/-- A Proof goes with both line feeds above it. -/
theorem dropProofLine_blank_proof {proof : List Char} (h : OneLine proof) :
    dropProofLine ('\n' :: '\n' :: (proofMarker ++ ' ' :: proof)) = [] := by
  have hend : proofToEnd ('\n' :: (proofMarker ++ ' ' :: proof)) = true := by
    rw [proofToEnd, afterMarker_newline, ← proofToEnd, proofToEnd_proof h]
  rw [dropProofLine, hend]
  simp

/-- The lines of the challenge stay. -/
theorem dropProofLine_challengeChars {fields : ChallengeFields} (h : FieldLines fields)
    (tail : List Char) :
    dropProofLine (challengeChars fields tail) = challengeChars fields (dropProofLine tail) := by
  rw [challengeChars,
    dropProofLine_inside heading_line,
    dropProofLine_otherLine ⟨by decide, by decide⟩,
    dropProofLine_inside title_line,
    dropProofLine_blank ⟨by decide, by decide⟩,
    dropProofLine_otherLine ⟨by decide, by decide⟩,
    dropProofLine_inside link_line,
    dropProofLine_otherLine ⟨by decide, by decide⟩,
    dropProofLine_inside (line_of_label 'A' "ccount: " (by decide) h.sub),
    dropProofLine_otherLine ⟨by decide, by decide⟩,
    dropProofLine_inside (line_of_label 'W' "allet: " (by decide) h.addr),
    dropProofLine_otherLine ⟨by decide, by decide⟩,
    dropProofLine_inside (line_of_label 'N' "once: " (by decide) h.nonce),
    dropProofLine_otherLine ⟨by decide, by decide⟩,
    dropProofLine_inside (line_of_label 'I' "ssued At: " (by decide) h.iat),
    dropProofLine_otherLine ⟨by decide, by decide⟩,
    dropProofLine_inside (line_of_label 'E' "xpires At: " (by decide) h.exp)]
  rfl

theorem challengeChars_append (fields : ChallengeFields) (tail : List Char) :
    challengeChars fields tail = challengeChars fields [] ++ tail := by
  simp only [challengeChars, List.append_assoc, List.cons_append, List.append_nil]

/-- Only the white space behind the last letter is trimmed. -/
theorem trimEndChars_append {init blanks : List Char} {c : Char} (hc : isWhiteSpace c = false)
    (hblanks : ∀ d ∈ blanks, isWhiteSpace d = true) :
    trimEndChars (init ++ [c] ++ blanks) = init ++ [c] := by
  have hdrop : (blanks.reverse ++ ([c] ++ init.reverse)).dropWhile isWhiteSpace =
      [c] ++ init.reverse := by
    rw [List.dropWhile_append_of_pos fun d hd => hblanks d (List.mem_reverse.mp hd)]
    exact List.dropWhile_cons_of_neg (by simp [hc])
  rw [trimEndChars, List.reverse_append, List.reverse_append, List.reverse_singleton, hdrop,
    List.reverse_append, List.reverse_reverse, List.reverse_singleton]

/-- A challenge ends with the letter of a time zone. -/
theorem challengeChars_ends (fields : ChallengeFields) {init : List Char}
    (h : fields.exp.toList = init ++ ['Z']) :
    ∃ front, challengeChars fields [] = front ++ ['Z'] := by
  refine ⟨challengeChars { fields with exp := "" } init, ?_⟩
  simp only [challengeChars, String.toList_append, h, List.append_assoc, List.cons_append,
    List.append_nil, String.toList_empty]

/-! ## Generated challenges -/

/-- What the libraries do with a payload: JSON in base64url is decoded to what was encoded, and it and
its HMAC are tokens. -/
structure Encodes (platform : Platform) (encodeJson : Value → String) (secret : String)
    (payload : Value) : Prop where
  decode_encode : platform.decodeJson (encodeJson payload) = some payload
  token : IsToken (encodeJson payload)
  hmacToken : IsToken (platform.hmac secret (encodeJson payload))

theorem toHex_plain (bytes : List (Fin 256)) : ∀ c ∈ (toHex bytes).toList, isWhiteSpace c = false := by
  have hdigits : ∀ b : Fin 256, isWhiteSpace (Nat.digitChar (b.val / 16)) = false ∧
      isWhiteSpace (Nat.digitChar (b.val % 16)) = false := by decide +kernel
  intro c hc
  rw [toHex, String.toList_ofList, List.mem_flatMap] at hc
  obtain ⟨b, -, hb⟩ := hc
  rcases List.mem_cons.mp hb with rfl | hb
  · exact (hdigits b).1
  · rw [List.mem_singleton.mp hb]
    exact (hdigits b).2

/-- The fields of a challenge, as `buildChallengeMessage` takes them. -/
def challengeFields (userId address nonce : String) (issuedAt expiresAt : Timestamp) :
    ChallengeFields where
  sub := userId
  addr := address
  nonce
  iat := isoText issuedAt
  exp := isoText expiresAt

section Generated

variable {env : WalletEnv} {encodeJson : Value → String} {issuedAt : Timestamp}
  {random : List (Fin 256)} {userId address secret : String}

theorem fieldLines_challengeFields (huser : IsLine userId) (haddress : IsLine address)
    (random : List (Fin 256)) (issuedAt expiresAt : Timestamp) :
    FieldLines (challengeFields userId address (toHex random) issuedAt expiresAt) :=
  ⟨huser, haddress, isLine_of_plain (toHex_plain random), isLine_of_plain (Js.isoText_plain issuedAt),
    isLine_of_plain (Js.isoText_plain expiresAt)⟩

/-- With a secret, and where the expiry is a date, there is a challenge. -/
theorem generateVerificationChallenge_eq (hsecret : env.jwtSecret = some secret) (hne : secret ≠ "")
    (hdate : |issuedAt + challengeTtl| ≤ 8640000000000000) :
    generateVerificationChallenge env encodeJson issuedAt random userId address =
      .ok
        { message := challengeMessage userId address (toHex random) issuedAt
            (issuedAt + challengeTtl)
            (encodeJson (challengePayload userId address (toHex random) (issuedAt + challengeTtl)))
            (env.platform.hmac secret (encodeJson
              (challengePayload userId address (toHex random) (issuedAt + challengeTtl))))
          expiresAt := isoText (issuedAt + challengeTtl) } := by
  have hsome : nonEmpty env.jwtSecret = some secret := Js.nonEmpty_eq_some.mpr ⟨hsecret, hne⟩
  simp only [generateVerificationChallenge, hsome, Js.timeClip_ofTimestamp_eq hdate]

/-- A challenge expires five minutes after its issue, and its Proof is under the configured secret. -/
theorem generateVerificationChallenge_ok {challenge : VerificationChallenge}
    (hsecret : env.jwtSecret = some secret)
    (h : generateVerificationChallenge env encodeJson issuedAt random userId address =
      .ok challenge) :
    challenge.message = challengeMessage userId address (toHex random) issuedAt
      (issuedAt + challengeTtl)
      (encodeJson (challengePayload userId address (toHex random) (issuedAt + challengeTtl)))
      (env.platform.hmac secret
        (encodeJson (challengePayload userId address (toHex random) (issuedAt + challengeTtl)))) := by
  unfold generateVerificationChallenge at h
  split at h
  · cases h
  · rename_i secret' hsome
    obtain rfl : secret = secret' := by
      have := (Js.nonEmpty_eq_some.mp hsome).1
      rw [hsecret] at this
      exact Option.some.inj this
    split at h
    · cases h
    · rename_i expiresAt hclip
      obtain rfl := Js.timeClip_ofTimestamp hclip
      cases h
      rfl

/-- Of a generated message the payload is checked. -/
theorem parse_message (huser : IsLine userId) (haddress : IsLine address) (now : Timestamp)
    {expiresAt : Timestamp} {payloadB64 : String} {payload : Value} (hpayload : IsToken payloadB64)
    (hhmac : IsToken (env.platform.hmac secret payloadB64))
    (hdecode : env.platform.decodeJson payloadB64 = some payload) :
    parseAndVerifyChallenge env.platform now
      (challengeMessage userId address (toHex random) issuedAt expiresAt payloadB64
        (env.platform.hmac secret payloadB64)) secret = checkPayload now payload := by
  have hlist := challengeMessage_toList userId address (toHex random) payloadB64
    (env.platform.hmac secret payloadB64) issuedAt expiresAt
  have hlines := fieldLines_challengeFields huser haddress random issuedAt expiresAt
  have hfound := findProof_message hlines (proofChars_oneLine hpayload hhmac)
  rw [challengeFields, ← hlist] at hfound
  have hsome : challengeMessage userId address (toHex random) issuedAt expiresAt payloadB64
      (env.platform.hmac secret payloadB64) ≠ "" := by
    intro hempty
    rw [hempty] at hfound
    cases hfound
  have hsplit : splitProof (proofChars payloadB64 (env.platform.hmac secret payloadB64)) =
      (payloadB64, some (env.platform.hmac secret payloadB64)) :=
    splitProof_dot (fun c hc => (hpayload.plain c hc).2) fun c hc => (hhmac.plain c hc).2
  have hparts : ¬ (payloadB64 = "" ∨
      (some (env.platform.hmac secret payloadB64)).all (· = "") = true) := by
    simpa using ⟨hpayload.ne_empty, hhmac.ne_empty⟩
  unfold parseAndVerifyChallenge
  simp only [if_neg hsome, hfound, hsplit, if_neg hparts, ne_eq, not_true_eq_false, if_false,
    hdecode]

/-- A payload with its fields that has not expired passes. -/
theorem checkPayload_ok {now expiresAt : Timestamp} {nonce : String} (huser : userId ≠ "")
    (haddress : address ≠ "") (hexp : expiresAt / 1000 ≠ 0) (hnow : now ≤ expiresAt) :
    checkPayload now (challengePayload userId address nonce expiresAt) =
      .ok (challengePayload userId address nonce expiresAt) := by
  have hobject : challengePayload userId address nonce expiresAt ≠ .null := by
    simp [challengePayload]
  have hsub : (challengePayload userId address nonce expiresAt).field "sub" = .string userId := rfl
  have haddr : (challengePayload userId address nonce expiresAt).field "addr" = .string address :=
    rfl
  have hexp' : (challengePayload userId address nonce expiresAt).field "exp" =
      .number (.finite (expiresAt / 1000 : ℤ)) := rfl
  have hfresh : ¬ ((expiresAt / 1000 : ℤ) : ℚ) < (now / 1000 : ℤ) := by
    rw [Int.cast_lt, not_lt]
    exact Int.ediv_le_ediv (by norm_num) hnow
  have hset : (Value.number (.finite ((expiresAt / 1000 : ℤ) : ℚ))).truthy = true := by
    simp [Value.truthy, hexp]
  simp [checkPayload, hobject, hsub, haddr, hexp', huser, haddress, hset, Value.ltNumber,
    Value.toNumber, nowSeconds, hfresh]

/-- What `trimEnd` leaves of the text of a challenge. -/
theorem trimEndChars_challengeChars (userId address nonce : String) (issuedAt expiresAt : Timestamp)
    {blanks : List Char} (hblanks : ∀ d ∈ blanks, isWhiteSpace d = true) :
    trimEndChars (challengeChars (challengeFields userId address nonce issuedAt expiresAt) blanks) =
      challengeChars (challengeFields userId address nonce issuedAt expiresAt) [] := by
  obtain ⟨init, hinit⟩ := Js.isoText_ends expiresAt
  obtain ⟨front, hfront⟩ := challengeChars_ends
    (challengeFields userId address nonce issuedAt expiresAt) hinit
  rw [challengeChars_append, hfront]
  exact trimEndChars_append (by decide) hblanks

/-- Without its Proof line, a generated message is the text of its challenge. -/
theorem stripProofLine_message (issuedAt expiresAt : Timestamp) (random : List (Fin 256))
    (huser : IsLine userId) (haddress : IsLine address) {payloadB64 sig : String} (hpayload : IsToken payloadB64)
    (hsig : IsToken sig) :
    (stripProofLine (challengeMessage userId address (toHex random) issuedAt expiresAt payloadB64
      sig)).toList =
      challengeChars (challengeFields userId address (toHex random) issuedAt expiresAt) [] := by
  have hlines := fieldLines_challengeFields huser haddress random issuedAt expiresAt
  rw [stripProofLine, String.toList_ofList, challengeMessage_toList, ← challengeFields,
    dropProofLine_challengeChars hlines, dropProofLine_blank_proof (proofChars_oneLine hpayload hsig)]
  exact trimEndChars_challengeChars _ _ _ _ _ (by simp)

/-- What `buildChallengeMessage` writes, without the line break at its end. -/
theorem trimEnd_buildChallengeMessage (userId address nonce : String) (issuedAt expiresAt : Timestamp) :
    (trimEnd (buildChallengeMessage
        (challengeFields userId address nonce issuedAt expiresAt))).toList =
      challengeChars (challengeFields userId address nonce issuedAt expiresAt) [] := by
  have hblank : ∀ d ∈ ['\n'], isWhiteSpace d = true := by
    intro d hd
    rw [List.mem_singleton.mp hd]
    rfl
  rw [trimEnd, String.toList_ofList, buildChallengeMessage_toList,
    trimEndChars_challengeChars _ _ _ _ _ hblank]

/-- It is what `buildChallengeMessage` writes, up to white space at the end. -/
theorem stripProofLine_challengeMessage (issuedAt expiresAt : Timestamp) (random : List (Fin 256))
    (huser : IsLine userId) (haddress : IsLine address) {payloadB64 sig : String}
    (hpayload : IsToken payloadB64) (hsig : IsToken sig) :
    stripProofLine (challengeMessage userId address (toHex random) issuedAt expiresAt payloadB64 sig) =
      trimEnd (buildChallengeMessage
        (challengeFields userId address (toHex random) issuedAt expiresAt)) := by
  rw [← String.toList_inj, stripProofLine_message issuedAt expiresAt random huser haddress hpayload hsig,
    trimEnd_buildChallengeMessage]

/-- **Challenges come back.** Up to its expiry a generated challenge is parsed to the user, the address,
the nonce and the expiry it was generated with, unless it expires in the first second of 1970; without
its Proof line it has no Proof, and is the text that `buildChallengeMessage` makes of these fields. -/
theorem challenge_round_trip {challenge : VerificationChallenge} {now : Timestamp}
    (hsecret : env.jwtSecret = some secret)
    (hgenerated : generateVerificationChallenge env encodeJson issuedAt random userId address =
      .ok challenge)
    (huser : userId ≠ "") (haddress : address ≠ "") (huserLine : IsLine userId)
    (haddressLine : IsLine address)
    (hencodes : Encodes env.platform encodeJson secret
      (challengePayload userId address (toHex random) (issuedAt + challengeTtl)))
    (hexp : (issuedAt + challengeTtl) / 1000 ≠ 0) (hnow : now ≤ issuedAt + challengeTtl) :
    (∃ payload, parseAndVerifyChallenge env.platform now challenge.message secret = .ok payload ∧
      payload.field "sub" = .string userId ∧ payload.field "addr" = .string address ∧
      payload.field "nonce" = .string (toHex random) ∧
      payload.field "exp" = .number (.finite ((issuedAt + challengeTtl) / 1000 : ℤ))) ∧
    findProof true (stripProofLine challenge.message).toList = none ∧
    stripProofLine challenge.message = trimEnd (buildChallengeMessage
      (challengeFields userId address (toHex random) issuedAt (issuedAt + challengeTtl))) := by
  rw [generateVerificationChallenge_ok hsecret hgenerated]
  set expiresAt := issuedAt + challengeTtl
  have hstripped := stripProofLine_message issuedAt expiresAt random huserLine haddressLine
    hencodes.token hencodes.hmacToken
  refine ⟨⟨challengePayload userId address (toHex random) expiresAt, ?_, rfl, rfl, rfl, rfl⟩, ?_, ?_⟩
  · rw [parse_message huserLine haddressLine now hencodes.token hencodes.hmacToken
      hencodes.decode_encode]
    exact checkPayload_ok huser haddress hexp hnow
  · rw [hstripped]
    exact findProof_text (fieldLines_challengeFields huserLine haddressLine random issuedAt expiresAt)
  · exact stripProofLine_challengeMessage issuedAt expiresAt random huserLine haddressLine
      hencodes.token hencodes.hmacToken

end Generated

/-! ## Two challenges -/

/-- Sixteen bytes of a random generator. -/
def freshRandom : List (Fin 256) :=
  [0x9f, 0x86, 0xd0, 0x81, 0x88, 0x4c, 0x7d, 0x65, 0x9a, 0x2f, 0xea, 0xa0, 0xc5, 0x5a, 0xd0, 0x15]

/-- The payload of a challenge from five minutes before 1970, in parts: it expires at zero. -/
def epochParts : List String := freshParts.take 5 ++ ["MGM1NWFkMDE1IiwiZXhwIjowfQ"]

def epochPayloadB64 : String := String.join epochParts

def epochHmac : String := "0y42FpSuZsHdhiLxXqpiRSlFya1lRKDC6o7mZ7sa8TI"

def epochPayload : Value := challengePayload otherAccount otherWallet (toHex freshRandom) 0

/-- The libraries on that payload. -/
def epochEnv : WalletEnv where
  platform := {
    hmac := fun secret text =>
      if secret = "unit-test-jwt-secret" ∧ text = epochPayloadB64 then epochHmac else ""
    decodeJson := fun text => if text = epochPayloadB64 then some epochPayload else none
    isPublicKey := fun address => address = otherWallet
    verify := fun _ _ _ => some false }
  jwtSecret := some "unit-test-jwt-secret"

/-- JSON in base64url of these two payloads. -/
def encodeExample (payload : Value) : String :=
  if payload = freshPayload then freshPayloadB64
  else if payload = epochPayload then epochPayloadB64 else ""

theorem isLine_otherAccount : IsLine otherAccount := unterminated_of_all (by decide +kernel)

theorem isLine_otherWallet : IsLine otherWallet := unterminated_of_all (by decide +kernel)

theorem isToken_of_all {s : String} (hne : s ≠ "")
    (h : (s.toList.all fun c => !isWhiteSpace c && c ≠ '.') = true) : IsToken s := by
  refine ⟨hne, fun c hc => ?_⟩
  have hplain := List.all_eq_true.mp h c hc
  simpa using hplain

/-- Joined parts are a token when each of them is made of the characters of one. -/
theorem isToken_join {parts : List String} (hne : String.join parts ≠ "")
    (h : (parts.all fun part => part.toList.all fun c => !isWhiteSpace c && c ≠ '.') = true) :
    IsToken (String.join parts) := by
  refine ⟨hne, fun c hc => ?_⟩
  rw [String.toList_join, List.mem_flatMap] at hc
  obtain ⟨part, hpart, hc⟩ := hc
  have hplain := List.all_eq_true.mp (List.all_eq_true.mp h part hpart) c hc
  simpa using hplain

theorem freshPayload_eq :
    challengePayload otherAccount otherWallet (toHex freshRandom) (1767225600000 + challengeTtl) =
      freshPayload := by
  decide +kernel

theorem encodes_freshPayload :
    Encodes exampleEnv.platform encodeExample "unit-test-jwt-secret" freshPayload := by
  have hencode : encodeExample freshPayload = freshPayloadB64 := if_pos rfl
  have hhmac : exampleEnv.platform.hmac "unit-test-jwt-secret" freshPayloadB64 = freshHmac := by
    simp only [exampleEnv, and_self, if_true]
  constructor
  · rw [hencode]
    simp only [exampleEnv, if_true]
  · rw [hencode]
    exact isToken_join (by decide +kernel) (by decide +kernel)
  · rw [hencode, hhmac]
    exact isToken_of_all (by decide +kernel) (by decide +kernel)

/-- The challenge of the account for the wallet at the beginning of 2026, parsed as it expires. -/
theorem challenge_round_trip_fresh :
    ∃ challenge, generateVerificationChallenge exampleEnv encodeExample 1767225600000 freshRandom
        otherAccount otherWallet = .ok challenge ∧
      (∃ payload, parseAndVerifyChallenge exampleEnv.platform 1767225900000 challenge.message
          "unit-test-jwt-secret" = .ok payload ∧ payload.field "sub" = .string otherAccount ∧
        payload.field "addr" = .string otherWallet ∧
        payload.field "nonce" = .string (toHex freshRandom) ∧
        payload.field "exp" = .number (.finite ((1767225600000 + challengeTtl) / 1000 : ℤ))) ∧
      findProof true (stripProofLine challenge.message).toList = none ∧
      stripProofLine challenge.message = trimEnd (buildChallengeMessage
        (challengeFields otherAccount otherWallet (toHex freshRandom) 1767225600000
          (1767225600000 + challengeTtl))) := by
  have hgenerated := @generateVerificationChallenge_eq exampleEnv encodeExample 1767225600000
    freshRandom otherAccount otherWallet "unit-test-jwt-secret" rfl (by decide) (by decide)
  refine ⟨_, hgenerated, challenge_round_trip rfl hgenerated (by decide) (by decide)
    isLine_otherAccount isLine_otherWallet ?_ (by decide) (by decide)⟩
  rw [freshPayload_eq]
  exact encodes_freshPayload

theorem encodes_epochPayload :
    Encodes epochEnv.platform encodeExample "unit-test-jwt-secret" epochPayload := by
  have hencode : encodeExample epochPayload = epochPayloadB64 := by
    rw [encodeExample, if_neg (by decide +kernel), if_pos rfl]
  have hhmac : epochEnv.platform.hmac "unit-test-jwt-secret" epochPayloadB64 = epochHmac := by
    simp only [epochEnv, and_self, if_true]
  constructor
  · rw [hencode]
    simp only [epochEnv, if_true]
  · rw [hencode]
    exact isToken_join (by decide +kernel) (by decide +kernel)
  · rw [hencode, hhmac]
    exact isToken_of_all (by decide +kernel) (by decide +kernel)

/-- A challenge from five minutes before 1970 is refused at once: its expiry counts as missing. -/
theorem epoch_challenge_refused :
    ∃ challenge, generateVerificationChallenge epochEnv encodeExample (-300000) freshRandom
        otherAccount otherWallet = .ok challenge ∧
      otherAccount ≠ "" ∧ otherWallet ≠ "" ∧ IsLine otherAccount ∧ IsLine otherWallet ∧
      Encodes epochEnv.platform encodeExample "unit-test-jwt-secret"
        (challengePayload otherAccount otherWallet (toHex freshRandom) (-300000 + challengeTtl)) ∧
      parseAndVerifyChallenge epochEnv.platform (-300000) challenge.message
        "unit-test-jwt-secret" = .error (.forbidden "Incomplete proof payload") := by
  have hgenerated := @generateVerificationChallenge_eq epochEnv encodeExample (-300000) freshRandom
    otherAccount otherWallet "unit-test-jwt-secret" rfl (by decide) (by decide)
  have hpayload : challengePayload otherAccount otherWallet (toHex freshRandom)
      (-300000 + challengeTtl) = epochPayload := by
    decide +kernel
  have hencodes := encodes_epochPayload
  rw [hpayload] at hgenerated
  refine ⟨_, hgenerated, by decide, by decide, isLine_otherAccount, isLine_otherWallet,
    hpayload ▸ hencodes, ?_⟩
  rw [parse_message isLine_otherAccount isLine_otherWallet (-300000) hencodes.token
    hencodes.hmacToken hencodes.decode_encode]
  decide +kernel

end ThalosBackend.Wallets
