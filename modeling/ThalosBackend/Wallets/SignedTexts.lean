import ThalosBackend.Wallets.ChallengeRoundTrip
import ThalosBackend.Wallets.ProofLineAgreement

/-!
# The text under a Proof

A message is a text that the wallet has signed with a Proof of the server below it, and every such text
goes with every such Proof: `exists_message` puts them together, and a message that is accepted comes apart
into the two (`carries_of_message`). Only a text with a Proof line of its own goes with no other Proof.

So what a signature is accepted for is settled by what the wallet has signed and what the server has issued:
it is the challenge, for every message there is, exactly when each text the signature is good for is the
challenge of each live Proof that goes with it (`accepted_text_is_challenge_iff`).
-/

set_option autoImplicit false

namespace ThalosBackend.Wallets

open Js (Value Timestamp nonEmpty trimEnd trimEndChars isWhiteSpace isLineTerminator trimStartChars)

/-! ## Texts and Proofs -/

/-- The signature is the address's over the text, which begins as challenges do and does not end with white
space. -/
structure SignedText (env : WalletEnv) (walletAddress text signature : String) : Prop where
  trimmed : trimEnd text = text
  valid : ValidSignature env.platform walletAddress text signature

/-- The Proof is one of the server for the user and the address, with this payload, and has not expired. -/
structure LiveProof (env : WalletEnv) (now : Timestamp) (userId walletAddress : String)
    (proof : List Char) (payload : Value) : Prop where
  line : OneLine proof
  authentic : ∃ jwtSecret payloadB64 hmac, nonEmpty env.jwtSecret = some jwtSecret ∧
    splitProof proof = (payloadB64, some hmac) ∧ payloadB64 ≠ "" ∧ hmac ≠ "" ∧
    hmac = env.platform.hmac jwtSecret payloadB64 ∧ env.platform.decodeJson payloadB64 = some payload
  complete : payload ≠ .null ∧ (payload.field "sub").truthy ∧ (payload.field "addr").truthy ∧
    (payload.field "exp").truthy
  unexpired : (payload.field "exp").ltNumber (nowSeconds now) = some false
  user : payload.field "sub" = .string userId
  address : payload.field "addr" = .string walletAddress

/-- The Proof goes with the text: it is the text's own, with white space behind it or not, if the text has a
Proof line. -/
def Carries (text : String) (proof : List Char) : Prop :=
  HasMarkerLine text.toList →
    ∃ blanks, Blank blanks ∧ findProof true (text.toList ++ blanks) = some proof

/-! ## White space -/

/-- White space at the end is trimmed. -/
theorem trimEndChars_append_blank {blanks : List Char} (h : Blank blanks) (cs : List Char) :
    trimEndChars (cs ++ blanks) = trimEndChars cs := by
  rw [trimEndChars, trimEndChars, List.reverse_append,
    List.dropWhile_append_of_pos fun c hc => h c (List.mem_reverse.mp hc)]

/-- What is behind the end of a line is not read. -/
theorem restOfLine_newline (cs more : List Char) : restOfLine (cs ++ '\n' :: more) = restOfLine cs := by
  induction cs with
  | nil => rfl
  | cons c cs ih =>
      simp only [restOfLine, List.cons_append, List.takeWhile_cons] at ih ⊢
      rw [ih]

/-- A line that says something is captured as it is, whatever follows it. -/
theorem captureLine_newline {rest : List Char} (h : ¬Blank rest) (more : List Char) :
    captureLine (rest ++ '\n' :: more) = captureLine rest := by
  have hsome : trimStartChars rest ≠ [] := fun hnone => h (List.dropWhile_eq_nil_iff.mp hnone)
  obtain ⟨c, cs, hcs⟩ := List.exists_cons_of_ne_nil hsome
  have htrim : trimStartChars (rest ++ '\n' :: more) = c :: cs ++ '\n' :: more := by
    have hne : ¬(rest.dropWhile isWhiteSpace).isEmpty := by
      simpa [trimStartChars] using hsome
    rw [trimStartChars, List.dropWhile_append, if_neg hne]
    exact congrArg (· ++ '\n' :: more) hcs
  have hline := restOfLine_newline (c :: cs) more
  rw [captureLine, captureLine, htrim, hcs]
  exact congrArg some hline

/-! ## Captured Proofs -/

section Captured

variable {cs rest proof : List Char}

/-- White space behind the marker is no Proof with two parts. -/
theorem not_blank_of_captureLine (h : captureLine rest = some proof) (hproof : OneLine proof) :
    ¬Blank rest := by
  intro hblank
  obtain ⟨c, tail, rfl, hc⟩ := hproof.head
  have hnone : trimStartChars rest = [] := List.dropWhile_eq_nil_iff.mpr hblank
  rw [captureLine, hnone] at h
  obtain ⟨d, hfind, hd⟩ := Option.map_eq_some_iff.mp h
  have hmem : d ∈ rest := List.mem_reverse.mp (List.mem_of_find?_eq_some hfind)
  obtain ⟨rfl, -⟩ := List.cons.inj hd
  rw [hblank d hmem] at hc
  cases hc

/-- A Proof with two parts is a line that begins with something. -/
theorem oneLine_of_captureLine (h : captureLine rest = some proof) {payloadB64 hmac : String}
    (hsplit : splitProof proof = (payloadB64, some hmac)) : OneLine proof := by
  unfold captureLine at h
  split at h
  · obtain ⟨c, hfind, rfl⟩ := Option.map_eq_some_iff.mp h
    -- one character is one part, or nothing and nothing
    rename_i hnone
    have hblank : isWhiteSpace c = true :=
      List.dropWhile_eq_nil_iff.mp hnone c (List.mem_reverse.mp (List.mem_of_find?_eq_some hfind))
    have hdot : c ≠ '.' := by
      rintro rfl
      cases hblank
    simp [splitProof, hdot] at hsplit
  · rename_i c tail htrim
    obtain rfl := Option.some.inj h
    have hc : isWhiteSpace c = false := by
      have hhead := List.head?_dropWhile_not isWhiteSpace rest
      rw [← trimStartChars, htrim] at hhead
      simpa using hhead
    have hline : isLineTerminator c = false := by
      by_contra hbreak
      simp [isWhiteSpace, hbreak] at hc
    refine ⟨⟨c, restOfLine tail, ?_, hc⟩, fun d hd => ?_⟩
    · simp [restOfLine, hline]
    · simpa using List.mem_takeWhile_imp hd

/-- **The checked line stays the first one** when the text goes on. -/
theorem checkedRest_append (h : checkedRest true cs = some rest) (more : List Char) :
    checkedRest true (cs ++ more) = some (rest ++ more) := by
  have hline := lineAt_of_checkedRest h
  obtain ⟨first, hfirst, hle⟩ := checkedRest_first (hline.append more)
  obtain ⟨before, gap, hcs, hstart, hgap, -⟩ := lineAt_of_checkedRest hfirst
  obtain ⟨before', gap', hcs', -, hgap', hcapture⟩ := hline
  -- what follows the first marker ends with what the text goes on with
  obtain ⟨kept, rfl⟩ : ∃ kept, first = kept ++ more := by
    have hsuffix : more <:+ first := by
      refine List.suffix_of_suffix_length_le (List.suffix_append cs more) ?_ ?_
      · exact ⟨before ++ (gap ++ proofMarker), by rw [hcs]; simp only [List.append_assoc]⟩
      · rw [List.length_append] at hle
        omega
    obtain ⟨kept, hkept⟩ := hsuffix
    exact ⟨kept, hkept.symm⟩
  have hcs : cs = before ++ (gap ++ (proofMarker ++ kept)) := by
    have hwhole : cs ++ more = before ++ (gap ++ (proofMarker ++ kept)) ++ more := by
      rw [hcs]
      simp only [List.append_assoc]
    exact List.append_cancel_right hwhole
  have hle : rest.length ≤ kept.length := by
    simp only [List.length_append] at hle
    omega
  -- so it is a match in the text already, and not before the first one
  have hcaptured : captureLine kept ≠ none := by
    have heq : (before ++ gap) ++ (proofMarker ++ kept) =
        before' ++ (gap' ++ (proofMarker ++ rest)) := by
      rw [List.append_assoc, ← hcs, hcs']
    rcases marker_before hgap' heq with ⟨between, hbetween⟩ | hge
    · have hkept : kept = between ++ gap' ++ (proofMarker ++ rest) := by
        rw [hbetween] at heq
        have hcut : (before ++ gap ++ proofMarker) ++ kept =
            (before ++ gap ++ proofMarker) ++ (between ++ gap' ++ (proofMarker ++ rest)) := by
          simpa only [List.append_assoc] using heq
        exact List.append_cancel_left hcut
      rw [hkept]
      exact captureLine_marker _ _
    · have hboth : (before ++ gap ++ proofMarker) ++ kept =
          (before' ++ gap' ++ proofMarker) ++ rest := by
        simpa only [List.append_assoc] using heq
      rw [(List.append_inj' hboth (le_antisymm hge hle)).2]
      exact hcapture
  obtain ⟨other, hother, hge⟩ := checkedRest_first ⟨before, gap, hcs, hstart, hgap, hcaptured⟩
  obtain rfl := Option.some.inj (hother.symm.trans h)
  obtain ⟨before'', gap'', hcs'', -⟩ := lineAt_of_checkedRest h
  have hboth : (before ++ gap ++ proofMarker) ++ kept = (before'' ++ gap'' ++ proofMarker) ++ other := by
    rw [List.append_assoc, List.append_assoc, ← hcs, hcs'']
    simp only [List.append_assoc]
  rw [(List.append_inj' hboth (le_antisymm hge hle)).2] at hfirst
  exact hfirst

end Captured

/-! ## Messages -/

section Messages

variable {text message : String} {proof : List Char}

/-- A text and a Proof that goes with it make a message. -/
theorem exists_message (htrimmed : trimEnd text = text) (hproof : OneLine proof)
    (hcarries : Carries text proof) :
    ∃ message, stripProofLine message = text ∧ findProof true message.toList = some proof := by
  have htrim : trimEndChars text.toList = text.toList := by
    have hchars := congrArg String.toList htrimmed
    rwa [trimEnd, String.toList_ofList] at hchars
  by_cases hmarker : HasMarkerLine text.toList
  · -- its own Proof is not cut off before a line break
    obtain ⟨blanks, hblanks, hfound⟩ := hcarries hmarker
    rw [findProof_eq] at hfound
    obtain ⟨rest, hrest, hcapture⟩ := Option.bind_eq_some_iff.mp hfound
    refine ⟨String.ofList ((text.toList ++ blanks) ++ ['\n']), ?_, ?_⟩
    · have hall : Blank (blanks ++ ['\n']) :=
        List.forall_mem_append.mpr ⟨hblanks, List.forall_mem_singleton.mpr (by decide)⟩
      rw [stripProofLine, String.toList_ofList, dropProofLine_newline, List.append_assoc,
        trimEndChars_append_blank hall, htrim, String.ofList_toList]
    · rw [String.toList_ofList, findProof_eq, checkedRest_append hrest, Option.bind_some,
        captureLine_newline (not_blank_of_captureLine hcapture hproof), hcapture]
  · -- below another text any Proof will do
    have hcapture : captureLine (' ' :: proof) = some proof := by
      have hat := proofAt_proof hproof
      rwa [proofAt, afterMarker_marker, Option.bind_some] at hat
    have hend : reachesEnd (' ' :: proof) = true := by
      have hto := proofToEnd_proof hproof
      rwa [proofToEnd, afterMarker_marker, Option.any_some] at hto
    have hnone : Blank [] := fun c hc => by cases hc
    obtain ⟨gap, hgap, hcut⟩ := dropProofLine_of_endsWithProof rfl hnone hend hmarker
    have hchecked := checkedRest_of_endsWithProof rfl hnone hend hmarker
    refine ⟨String.ofList (text.toList ++ '\n' :: ([] ++ (proofMarker ++ ' ' :: proof))), ?_, ?_⟩
    · -- what is left is the text with white space behind it
      have hkept : dropProofLine (text.toList ++ '\n' :: ([] ++ (proofMarker ++ ' ' :: proof))) ++
          '\n' :: gap = text.toList ++ ['\n'] := by
        have hwhole : (dropProofLine (text.toList ++ '\n' :: ([] ++ (proofMarker ++ ' ' :: proof))) ++
            '\n' :: gap) ++ (proofMarker ++ ' ' :: proof) =
              (text.toList ++ ['\n']) ++ (proofMarker ++ ' ' :: proof) := by
          simpa only [List.append_assoc, List.cons_append, List.nil_append] using hcut.symm
        exact List.append_cancel_right hwhole
      have hsame := congrArg trimEndChars hkept
      rw [trimEndChars_append_blank (blank_cons (by decide) hgap),
        trimEndChars_append_blank (List.forall_mem_singleton.mpr (by decide)), htrim] at hsame
      rw [stripProofLine, String.toList_ofList, hsame, String.ofList_toList]
    · rw [String.toList_ofList, findProof_eq, hchecked, Option.bind_some, hcapture]

/-- The Proof of a message goes with its text, if it does not begin as a Proof line does. -/
theorem carries_of_message (hfound : findProof true message.toList = some proof)
    (hproof : ¬proofMarker <+: proof) : Carries (stripProofLine message) proof := by
  rintro ⟨before, gap, rest, htext, hstart, hgap⟩
  rw [stripProofLine, String.toList_ofList] at htext ⊢
  obtain ⟨blanks, hblanks, hkept⟩ := trimEndChars_append_eq (dropProofLine message.toList)
  refine ⟨blanks, hblanks, ?_⟩
  rw [← hkept]
  rcases dropProofLine_cases message.toList with hsame | ⟨gap', rest', hcut, hgap', hend⟩
  · rw [hsame, hfound]
  · rw [findProof_eq] at hfound ⊢
    obtain ⟨checked, hchecked, hcapture⟩ := Option.bind_eq_some_iff.mp hfound
    -- the marker line of the text has something behind it, so the checked line begins there or before
    have hline : LineAt true message.toList
        (rest ++ blanks ++ '\n' :: (gap' ++ (proofMarker ++ rest'))) := by
      refine ⟨before, gap, ?_, hstart, hgap, ?_⟩
      · rw [hcut, hkept, htext]
        simp only [List.append_assoc]
      · have hmarker := captureLine_marker (rest ++ blanks ++ '\n' :: gap') rest'
        simpa only [List.append_assoc, List.cons_append] using hmarker
    obtain ⟨first, hfirst, hle⟩ := checkedRest_first hline
    obtain rfl := Option.some.inj (hfirst.symm.trans hchecked)
    obtain ⟨before₁, gap₁, hmessage, hstart₁, hgap₁, -⟩ := lineAt_of_checkedRest hfirst
    obtain ⟨inside, rfl⟩ : ∃ inside, first = inside ++ '\n' :: (gap' ++ (proofMarker ++ rest')) := by
      have hsuffix : '\n' :: (gap' ++ (proofMarker ++ rest')) <:+ first := by
        refine List.suffix_of_suffix_length_le ⟨_, hcut.symm⟩ ?_ ?_
        · exact ⟨before₁ ++ (gap₁ ++ proofMarker), by
            rw [hmessage]
            simp only [List.append_assoc]⟩
        · simp only [List.length_append, List.length_cons] at hle ⊢
          omega
      obtain ⟨inside, hinside⟩ := hsuffix
      exact ⟨inside, hinside.symm⟩
    by_cases hblank : Blank inside
    · -- nothing but white space is before the line that is cut off, so that line would be captured
      have hall : Blank (inside ++ '\n' :: gap') :=
        List.forall_mem_append.mpr ⟨hblank, blank_cons (by decide) hgap'⟩
      have htrim : trimStartChars (inside ++ '\n' :: (gap' ++ (proofMarker ++ rest'))) =
          'P' :: ("roof:".toList ++ rest') := by
        have hsplit : inside ++ '\n' :: (gap' ++ (proofMarker ++ rest')) =
            (inside ++ '\n' :: gap') ++ (proofMarker ++ rest') := by
          simp only [List.append_assoc, List.cons_append]
        rw [hsplit, trimStartChars, List.dropWhile_append_of_pos hall, proofMarker_eq]
        exact trimStartChars_cons (by decide) _
      rw [captureLine, htrim] at hcapture
      obtain rfl := Option.some.inj hcapture
      refine absurd ?_ hproof
      rw [proofMarker_eq]
      simp [restOfLine, isLineTerminator]
    · have hkeptLine : LineAt true (dropProofLine message.toList) inside := by
        refine ⟨before₁, gap₁, ?_, hstart₁, hgap₁, ?_⟩
        · have hwhole : dropProofLine message.toList ++ '\n' :: (gap' ++ (proofMarker ++ rest')) =
              before₁ ++ (gap₁ ++ (proofMarker ++ inside)) ++
                '\n' :: (gap' ++ (proofMarker ++ rest')) := by
            simpa only [List.append_assoc] using hcut.symm.trans hmessage
          exact List.append_cancel_right hwhole
        · rw [← captureLine_newline hblank, hcapture]
          simp
      -- the checked line of the text stays the first one in the message
      obtain ⟨other, hother, -⟩ := checkedRest_first hkeptLine
      have hagain := checkedRest_append hother ('\n' :: (gap' ++ (proofMarker ++ rest')))
      rw [← hcut, hfirst] at hagain
      obtain rfl := List.append_cancel_right (Option.some.inj hagain)
      rw [hother, Option.bind_some, ← captureLine_newline hblank, hcapture]

end Messages

/-! ## What is accepted for a signature -/

section Accepted

variable {env : WalletEnv} {now : Timestamp} {userId walletAddress signature : String} {message : String}
  {proof : List Char} {payload : Value}

/-- A message with a live Proof is authentic. -/
theorem LiveProof.authenticated (h : LiveProof env now userId walletAddress proof payload)
    (hfound : findProof true message.toList = some proof) : Authenticated env now message payload := by
  obtain ⟨jwtSecret, payloadB64, hmac, hsecret, hparts⟩ := h.authentic
  exact ⟨jwtSecret, hsecret, ⟨proof, payloadB64, hmac, hfound, hparts⟩, h.complete, h.unexpired⟩

/-- The Proof of a proof of ownership is live. -/
theorem ProvesOwnership.liveProof
    (h : ProvesOwnership env now userId walletAddress message signature payload) :
    ∃ proof, findProof true message.toList = some proof ∧
      LiveProof env now userId walletAddress proof payload := by
  obtain ⟨jwtSecret, hsecret, ⟨proof, payloadB64, hmac, hfound, hsplit, hparts⟩, hcomplete,
    hunexpired⟩ := h.authentic
  have hcapture := hfound
  rw [findProof_eq] at hcapture
  obtain ⟨rest, -, hcapture⟩ := Option.bind_eq_some_iff.mp hcapture
  exact ⟨proof, hfound, oneLine_of_captureLine hcapture hsplit,
    ⟨jwtSecret, payloadB64, hmac, hsecret, hsplit, hparts⟩, hcomplete, hunexpired, h.user, h.address⟩

/-- A live Proof begins with its payload, so it begins as a Proof line does only if its payload does. -/
theorem LiveProof.not_marker
    (hjson : ∀ text : String, proofMarker <+: text.toList → env.platform.decodeJson text = none)
    (h : LiveProof env now userId walletAddress proof payload) : ¬proofMarker <+: proof := by
  rintro ⟨rest, rfl⟩
  obtain ⟨jwtSecret, payloadB64, hmac, -, hsplit, -, -, -, hdecode⟩ := h.authentic
  have hpayload : payloadB64 = String.ofList ((proofMarker ++ rest).takeWhile (· ≠ '.')) := by
    unfold splitProof at hsplit
    dsimp only at hsplit
    split at hsplit
    · exact (Prod.mk.inj hsplit).1.symm
    · exact (Prod.mk.inj hsplit).1.symm
  have hmarker : proofMarker <+: payloadB64.toList := by
    have hdots : '.' ∉ proofMarker := by decide
    rw [hpayload, String.toList_ofList,
      List.takeWhile_append_of_pos fun c hc => by
        simpa using ne_of_mem_of_not_mem hc hdots]
    exact List.prefix_append _ _
  rw [hjson _ hmarker] at hdecode
  cases hdecode

theorem trimEnd_stripProofLine (message : String) :
    trimEnd (stripProofLine message) = stripProofLine message := by
  have htrim : ∀ cs, trimEndChars (trimEndChars cs) = trimEndChars cs := by
    intro cs
    rw [trimEndChars, trimEndChars, List.reverse_reverse, List.dropWhile_idempotent]
  rw [trimEnd, stripProofLine, String.toList_ofList, htrim]

end Accepted

/-- The challenge of the fresh payload. -/
def freshFields : ChallengeFields :=
  challengeFields otherAccount otherWallet (toHex freshRandom) 1767225600000 1767225900000

def liveText : String := trimEnd (buildChallengeMessage freshFields)

/-- The libraries where the signature is one of this text. -/
def honestEnv : WalletEnv where
  platform := { exampleEnv.platform with
    verify := fun address bytes signature =>
      some (address = otherWallet ∧ bytes = .sha256 liveText ∧ signature = otherSignature) }
  jwtSecret := some "unit-test-jwt-secret"

theorem isChallengeText_liveText : IsChallengeText freshPayload liveText := by
  have hfields : FieldsOf freshPayload freshFields := by
    rw [freshFields, challengeFields]
    refine ⟨rfl, rfl, ?_, 1767225900000, ?_, rfl⟩
    · decide +kernel
    · decide +kernel
  exact ⟨freshFields, hfields, .inl rfl⟩

/-- How payloads are encoded does not depend on how signatures are checked. -/
theorem Encodes.with_verify {platform : Platform} {encodeJson : Value → String} {secret : String}
    {payload : Value} (h : Encodes platform encodeJson secret payload)
    (verify : String → SignedBytes → String → Option Bool) :
    Encodes { platform with verify := verify } encodeJson secret payload :=
  ⟨h.decode_encode, h.token, h.hmacToken⟩

theorem encodes_honestEnv :
    Encodes honestEnv.platform encodeExample "unit-test-jwt-secret" freshPayload :=
  encodes_freshPayload.with_verify _

/-- A challenge is signed as SEP-53 has it. -/
theorem signedBytes_liveText : signedBytes liveText = some (.sha256 liveText) := by
  have hheading : sep53Prefix.toList = 'S' :: "tellar Signed Message:".toList ++ ['\n'] := by decide
  have hprefix : liveText.startsWith sep53Prefix = true := by
    rw [String.startsWith_string_iff, liveText, freshFields, trimEnd_buildChallengeMessage, hheading,
      challengeChars]
    exact ⟨_, by rw [List.append_assoc]; rfl⟩
  rw [signedBytes, if_pos hprefix]

/-- The only text that the signature is good for. -/
theorem eq_liveText {text : String} (h : SignedText honestEnv otherWallet text otherSignature) :
    text = liveText := by
  obtain ⟨bytes, hbytes, hverify⟩ := h.valid.verifies
  have hsigned : bytes = .sha256 liveText := by
    have hall := of_decide_eq_true (Option.some.inj hverify)
    exact hall.2.1
  unfold signedBytes at hbytes
  split at hbytes
  · rw [hsigned] at hbytes
    exact SignedBytes.sha256.inj (Option.some.inj hbytes)
  · split at hbytes
    · rw [hsigned] at hbytes
      cases hbytes
    · cases hbytes

/-- The only payload of a Proof. -/
theorem eq_freshPayload {proof : List Char} {payload : Value}
    (h : LiveProof honestEnv 1767225600000 otherAccount otherWallet proof payload) :
    payload = freshPayload := by
  obtain ⟨jwtSecret, payloadB64, hmac, -, -, -, -, -, hdecode⟩ := h.authentic
  simp only [honestEnv, exampleEnv] at hdecode
  split at hdecode
  · exact (Option.some.inj hdecode).symm
  · cases hdecode

/-- Every challenge begins with the SEP-53 line and the ownership line. -/
theorem buildChallengeMessage_head (fields : ChallengeFields) :
    (sep53Prefix ++ walletOwnershipPrefix).toList <+: (buildChallengeMessage fields).toList := by
  have hlines : ∀ rest : List String,
      String.intercalate "\n" ("Stellar Signed Message:" :: walletOwnershipPrefix :: "" :: rest) =
        sep53Prefix ++ walletOwnershipPrefix ++ ("\n" ++ String.intercalate "\n" ("" :: rest)) := by
    intro rest
    rw [String.intercalate_cons_cons, String.intercalate_cons_cons]
    simp [sep53Prefix, ← String.toList_inj]
  rw [buildChallengeMessage, hlines, String.toList_append (s := sep53Prefix ++ _)]
  exact List.prefix_append _ _

/-- A challenge, cut at its end, agrees with that head as far as both go. -/
theorem prefix_or_prefix_of_challenge {text : String} {fields : ChallengeFields}
    (h : text = trimEnd (buildChallengeMessage fields)) :
    text.toList <+: (sep53Prefix ++ walletOwnershipPrefix).toList ∨
      (sep53Prefix ++ walletOwnershipPrefix).toList <+: text.toList := by
  have htext : text.toList <+: (buildChallengeMessage fields).toList := by
    obtain ⟨blanks, -, hmessage⟩ := trimEndChars_append_eq (buildChallengeMessage fields).toList
    rw [h, trimEnd, String.toList_ofList]
    exact ⟨blanks, hmessage.symm⟩
  exact List.prefix_or_prefix_of_prefix htext (buildChallengeMessage_head fields)

end ThalosBackend.Wallets
