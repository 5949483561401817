import ThalosBackend.Common.HttpException
import ThalosBackend.Js.Url
import ThalosBackend.Js.Value

/-!
# The relay to Trustless Work

`assertAllowedPath` compares the beginning of the path text with three prefixes, and
`relayToTrustless` requests what the URL parser makes of that text, with the API key. The parser
resolves dot segments, so the requested path need not begin as the text does.

`relay_within_iff` says for every path when it begins with the base and one of the prefixes after all:
when its dot segments never climb out of the first segment, or lead back.
-/

set_option autoImplicit false

namespace ThalosBackend.InternalTrustless

open Js (Url Value encodeURIComponent endWithName isPlain newUrl pathText segmentKind splitPath
  urlInput PlainName)

/-! ## The helper -/

/-- `TRUSTLESSWORK_API_URL` without its last slash, as the URL parser leaves it. -/
structure BaseUrl where
  origin : List Char
  path : List (List Char)
  plain : ∀ segment ∈ path, PlainName segment

def BaseUrl.text (base : BaseUrl) : List Char := base.origin ++ pathText base.path

/-- The names of `ALLOWED_PREFIXES`. -/
def allowedNames : List (List Char) := ["deployer".toList, "escrow".toList, "helper".toList]

/-- `ALLOWED_PREFIXES`. -/
def allowedPrefixes : List (List Char) := allowedNames.map (· ++ ['/'])

/-- `path.replace(/^\/+/, '')`. -/
def stripSlashes (path : String) : List Char := path.toList.dropWhile (· = '/')

/-- `assertAllowedPath(path)`. -/
def assertAllowedPath (path : String) : Except HttpException Unit :=
  if allowedPrefixes.any (·.isPrefixOf (stripSlashes path)) then .ok ()
  else .error (.badRequest "Path not allowed for Trustless relay")

/-- The method of a relayed request. -/
inductive RelayMethod where
  | get
  | post
  deriving DecidableEq

/-- What `searchParams.set` gets: the entries that have a value, as texts. -/
def relayParams (query : List (String × Value)) : List (String × String) :=
  query.filterMap fun (key, value) =>
    if value.isNullish ∨ value = .string "" then none else value.toText.map fun text => (key, text)

/-- The URL `relayToTrustless(method, path, query)` requests. `searchParams.set` rewrites the query. -/
def relayUrl (setParam : Option (List Char) → String × String → Option (List Char))
    (base : Option BaseUrl) (method : RelayMethod) (path : String) (query : List (String × Value)) :
    Except HttpException Url := do
  assertAllowedPath path
  match base with
  | none => throw (.badRequest "TRUSTLESSWORK_API_URL not set")
  | some base =>
    let url := newUrl base.origin (pathText base.path ++ '/' :: stripSlashes path)
    match method with
    | .get => return { url with query := (relayParams query).foldl setParam url.query }
    | .post => return url

/-- The path `fetchTrustlessEscrow` asks for. -/
def escrowPath (contractId : String) : String :=
  "escrow/" ++ String.ofList (encodeURIComponent contractId)

/-! ## Where the request goes -/

/-- The requested URL begins with the base and one of the prefixes. -/
def Within (base : BaseUrl) (url : Url) : Prop :=
  ∃ allowed ∈ allowedPrefixes, base.text ++ '/' :: allowed <+: url.text

instance (base : BaseUrl) (url : Url) : Decidable (Within base url) :=
  inferInstanceAs (Decidable (∃ allowed ∈ allowedPrefixes, base.text ++ '/' :: allowed <+: url.text))

/-- The segments of the path after its first one, as the parser reads them. -/
def laterSegments (path : String) : List (List Char) :=
  endWithName (splitPath [] (urlInput (((stripSlashes path).dropWhile (· ≠ '/')).drop 1)))

/-- How many of the segments before it the later segments climb over, and which of them stay. -/
def settled (path : String) : ℕ × List (List Char) :=
  DotSegments.settle segmentKind (laterSegments path)

/-- The dot segments of the path never climb out of its first segment, or the segments that stay lead
back into an allowed one. -/
def LeadsBack (base : BaseUrl) (path : String) : Prop :=
  (settled path).1 = 0 ∨ ∃ name ∈ allowedNames, ∃ entry rest, (settled path).2 =
    base.path.drop (base.path.length + 1 - (settled path).1) ++ name :: entry :: rest

section Paths

variable {base : BaseUrl} {path : String}

theorem plain_allowedNames : ∀ name ∈ allowedNames, PlainName name := by
  have hplain : allowedNames.all
      (fun name => decide (segmentKind name = .name) && name.all isPlain) = true := by
    decide +kernel
  intro name hname
  simpa [PlainName] using List.all_eq_true.mp hplain name hname

/-- An accepted path is an allowed name, a slash and the later segments. -/
theorem exists_of_allowed (h : assertAllowedPath path = .ok ()) :
    ∃ name ∈ allowedNames, ∃ rest, stripSlashes path = name ++ '/' :: rest ∧
      laterSegments path = endWithName (splitPath [] (urlInput rest)) := by
  unfold assertAllowedPath at h
  split at h
  · rename_i hany
    obtain ⟨allowed, hallowed, hprefix⟩ := List.any_eq_true.mp hany
    obtain ⟨name, hname, rfl⟩ := List.mem_map.mp hallowed
    obtain ⟨rest, hrest⟩ := List.isPrefixOf_iff_prefix.mp hprefix
    rw [List.append_assoc, List.singleton_append] at hrest
    refine ⟨name, hname, rest, hrest.symm, ?_⟩
    have hslash : ∀ c ∈ name, c ≠ '/' := by
      rintro c hc rfl
      exact absurd ((plain_allowedNames name hname).2 '/' hc) (by decide)
    rw [laterSegments, ← hrest, List.dropWhile_append_of_pos (by simpa using hslash)]
    rfl
  · cases h

variable {setParam : Option (List Char) → String × String → Option (List Char)}
  {method : RelayMethod} {query : List (String × Value)} {url : Url}

/-- A requested URL has the base's origin and the path the parser resolves below it. -/
theorem relayUrl_eq_ok (h : relayUrl setParam (some base) method path query = .ok url) :
    assertAllowedPath path = .ok () ∧ url.origin = base.origin ∧
      url.path = (newUrl base.origin (pathText base.path ++ '/' :: stripSlashes path)).path := by
  unfold relayUrl at h
  cases hallowed : assertAllowedPath path with
  | error e =>
      rw [hallowed] at h
      cases h
  | ok _ =>
      rw [hallowed] at h
      cases method with
      | get =>
          cases h
          exact ⟨rfl, rfl, rfl⟩
      | post =>
          cases h
          exact ⟨rfl, rfl, rfl⟩

theorem unstopped_of_plain {segments : List (List Char)} (h : ∀ s ∈ segments, PlainName s) :
    Js.Unstopped segments := fun s hs c hc => Js.not_stop_of_plain ((h s hs).2 c hc)

/-- What a text prefix says about the path. -/
theorem within_iff (horigin : url.origin = base.origin) (hpath : Js.Unstopped url.path) :
    Within base url ↔ DotSegments.Within base.path allowedNames url.path := by
  have htext : ∀ name ∈ allowedNames, base.text ++ '/' :: (name ++ ['/']) <+: url.text ↔
      ∃ entry rest, url.path = base.path ++ name :: entry :: rest := by
    intro name hname
    have hsegments : ∀ s ∈ base.path ++ [name], PlainName s := by
      intro s hs
      rcases List.mem_append.mp hs with hs | hs
      · exact base.plain s hs
      · exact List.mem_singleton.mp hs ▸ plain_allowedNames name hname
    have hbase : base.text ++ '/' :: (name ++ ['/']) =
        base.origin ++ (pathText (base.path ++ [name]) ++ ['/']) := by
      simp [BaseUrl.text, pathText]
    have hurl : url.text = base.origin ++ (pathText url.path ++ url.tail) := by
      simp [Url.text, horigin]
    rw [hbase, hurl, List.prefix_append_right_inj,
      Js.prefix_pathText_iff (unstopped_of_plain hsegments) hpath (Js.head_tail_endsPath url)]
    simp
  constructor
  · rintro ⟨allowed, hallowed, hprefix⟩
    obtain ⟨name, hname, rfl⟩ := List.mem_map.mp hallowed
    exact ⟨name, hname, (htext name hname).mp hprefix⟩
  · rintro ⟨name, hname, hentry⟩
    exact ⟨name ++ ['/'], List.mem_map_of_mem hname, (htext name hname).mpr hentry⟩

/-- Where the parser takes an accepted path. -/
theorem path_within_iff (h : relayUrl setParam (some base) method path query = .ok url) :
    Within base url ↔ LeadsBack base path := by
  obtain ⟨hallowed, horigin, hpath⟩ := relayUrl_eq_ok h
  obtain ⟨name, hname, rest, hstrip, hlater⟩ := exists_of_allowed hallowed
  have hsegments : ∀ s ∈ base.path ++ [name], PlainName s := by
    intro s hs
    rcases List.mem_append.mp hs with hs | hs
    · exact base.plain s hs
    · exact List.mem_singleton.mp hs ▸ plain_allowedNames name hname
  have htext : pathText base.path ++ '/' :: stripSlashes path =
      pathText (base.path ++ [name]) ++ '/' :: rest := by
    simp [hstrip, pathText]
  have hresolved : url.path =
      DotSegments.resolve segmentKind (base.path ++ [name]) (laterSegments path) := by
    rw [hpath, htext, Js.newUrl_path hsegments, hlater]
  obtain ⟨init, last, hinit, hlast⟩ := Js.endWithName_eq (Js.splitPath_ne_nil [] (urlInput rest))
  rw [within_iff horigin (hpath ▸ Js.unstopped_newUrl _ _), hresolved, LeadsBack, settled, hlater, hinit]
  exact DotSegments.resolve_within_iff hname hlast

end Paths

/-! ## The server's own path -/

section Escrow

theorem stripSlashes_escrowPath (contractId : String) :
    stripSlashes (escrowPath contractId) =
      "escrow".toList ++ '/' :: encodeURIComponent contractId := by
  simp [stripSlashes, escrowPath]

/-- A contract id is one segment. -/
theorem laterSegments_escrowPath (contractId : String) :
    laterSegments (escrowPath contractId) = endWithName [encodeURIComponent contractId] := by
  have hplain := Js.plain_encodeURIComponent contractId
  have hsplit : splitPath [] (encodeURIComponent contractId) = [encodeURIComponent contractId] := by
    simpa [splitPath] using Js.splitPath_plain hplain [] []
  have hrest : ((("escrow".toList ++ '/' :: encodeURIComponent contractId).dropWhile
      (· ≠ '/')).drop 1) = encodeURIComponent contractId := by
    simp
  rw [laterSegments, stripSlashes_escrowPath, hrest, Js.urlInput_plain hplain, hsplit]

/-- `..` climbs out of `escrow/`; no other contract id does. -/
theorem leadsBack_escrowPath (base : BaseUrl) (contractId : String) :
    LeadsBack base (escrowPath contractId) ↔ contractId ≠ ".." := by
  have hup : segmentKind (encodeURIComponent contractId) = .up ↔ contractId = ".." :=
    Js.segmentKind_encodeURIComponent_eq_up
  rw [LeadsBack, settled, laterSegments_escrowPath]
  cases hkind : segmentKind (encodeURIComponent contractId) with
  | up =>
      have hsettled : DotSegments.settle segmentKind (endWithName [encodeURIComponent contractId]) =
          (1, [[]]) := by
        simp [endWithName, hkind, DotSegments.settle, Js.segmentKind_nil]
      rw [hsettled]
      constructor
      · rintro (hzero | ⟨name, -, entry, rest, hkept⟩)
        · cases hzero
        · -- one empty segment is left, too few to lead back
          have hlength := congrArg List.length hkept
          simp only [List.length_append, List.length_cons, List.length_nil] at hlength
          omega
      · intro hne
        exact absurd (hup.mp hkind) hne
  | here =>
      have hsettled : DotSegments.settle segmentKind (endWithName [encodeURIComponent contractId]) =
          (0, [[]]) := by
        simp [endWithName, hkind, DotSegments.settle, Js.segmentKind_nil]
      rw [hsettled]
      refine ⟨fun _ heq => ?_, fun _ => .inl rfl⟩
      rw [hup.mpr heq] at hkind
      cases hkind
  | name =>
      have hsettled : DotSegments.settle segmentKind (endWithName [encodeURIComponent contractId]) =
          (0, [encodeURIComponent contractId]) := by
        simp [endWithName, hkind, DotSegments.settle]
      rw [hsettled]
      refine ⟨fun _ heq => ?_, fun _ => .inl rfl⟩
      rw [hup.mpr heq] at hkind
      cases hkind

end Escrow

/-- **The relay's paths.** A requested URL begins with the base and an allowed prefix exactly when the
dot segments of the path never climb out of its first segment, or lead back; for the server's own path
that is when the contract id is not `..`. -/
theorem relay_within_iff (setParam : Option (List Char) → String × String → Option (List Char))
    (base : BaseUrl) (method : RelayMethod) (query : List (String × Value)) (url : Url) :
    (∀ path, relayUrl setParam (some base) method path query = .ok url →
      (Within base url ↔ LeadsBack base path)) ∧
    ∀ contractId, relayUrl setParam (some base) method (escrowPath contractId) query = .ok url →
      (Within base url ↔ contractId ≠ "..") :=
  ⟨fun _ h => path_within_iff h, fun contractId h =>
    (path_within_iff h).trans (leadsBack_escrowPath base contractId)⟩

/-- A base with a path of its own. -/
def sampleBase : BaseUrl where
  origin := "https://api.trustlesswork.example".toList
  path := ["v1".toList]
  plain := by
    intro segment hsegment
    obtain rfl := List.mem_singleton.mp hsegment
    have hplain : "v1".toList.all isPlain = true := by decide
    exact ⟨by decide, List.all_eq_true.mp hplain⟩

/-- The URL of a path without parameters. -/
def sampleUrl (path : String) : Url :=
  newUrl sampleBase.origin (pathText sampleBase.path ++ '/' :: stripSlashes path)

theorem relay_within_iff_sample :
    (Within sampleBase (sampleUrl "escrow/a/../b") ↔ LeadsBack sampleBase "escrow/a/../b") ∧
    (Within sampleBase (sampleUrl (escrowPath "CA7Q")) ↔ "CA7Q" ≠ "..") :=
  ⟨(relay_within_iff (fun q _ => q) sampleBase .post [] _).1 "escrow/a/../b" rfl,
    (relay_within_iff (fun q _ => q) sampleBase .post [] _).2 "CA7Q" rfl⟩

/-- The path is accepted, and the request goes to another endpoint. -/
theorem not_relay_within :
    ¬ ∀ (base : BaseUrl) (method : RelayMethod) (path : String) (query : List (String × Value))
      (url : Url), relayUrl (fun q _ => q) (some base) method path query = .ok url →
        Within base url := by
  intro h
  have hwithin := h sampleBase .post "helper/%2e%2e/admin/keys" [] _ rfl
  exact absurd hwithin (by decide +kernel)

end ThalosBackend.InternalTrustless
