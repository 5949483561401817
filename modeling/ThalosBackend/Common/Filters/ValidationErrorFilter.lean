import ThalosBackend.Agreements.AgreementLifecycle

/-!
# The filter of validation errors

`common/filters`: what `ValidationExceptionFilter` sends for a `BadRequestException`. The response of
the exception is any JSON value; the one of a `TrustlessRelayError` is whatever the upstream sent.

A value that `isValidationFailure` accepts is sent as it is, and the check does not look at the code
or into the list of details. Of other objects the filter takes over `details` when it is a list: an
entry `null` ends it with a `TypeError`, and a field that is there stays what it is.
`documented_iff` says of which responses the documented shape leaves.
-/

set_option autoImplicit false

namespace ThalosBackend.Common

open Js (Value)
open Agreements (failureBody)

/-! ## The filter -/

/-- What the filter reads of the exception: `getStatus()` and `getResponse()`. -/
structure BadRequestException where
  status : ℕ
  response : Value
  deriving DecidableEq

/-- A list. -/
def isArray : Value → Bool
  | .array _ => true
  | _ => false

/-- `isValidationFailure(obj)`. A name is never `in` a list, so only records pass. -/
def isValidationFailure (obj : Value) : Bool :=
  obj.hasField "success" && obj.field "success" = .bool false && obj.hasField "error" &&
    (obj.field "error").hasField "code" && (obj.field "error").hasField "details" &&
      isArray ((obj.field "error").field "details")

/-- `JSON.stringify(value)` as a value. -/
def jsonText (v : Value) : Value := (v.stringify.map Value.string).getD .undefined

/-- `value ?? other`. -/
def orElse (v other : Value) : Value := if v.isNullish then other else v

/-- `value ? (typeof value === 'string' ? value : JSON.stringify(value)) : other`. -/
def textOr (v other : Value) : Value :=
  if v.truthy then
    match v with
    | .string s => .string s
    | v => jsonText v
  else other

/-- A detail of the answer. -/
def detail (field code message : Value) : Value :=
  .record [("field", field), ("code", code), ("message", message)]

/-- The detail that stands for the whole body. -/
def bodyDetail (message : Value) : Value :=
  detail (.string "body") (.string "VALIDATION_ERROR") message

/-- What `map` makes of an entry of `details`; reading a field of `null` throws. -/
def normalizeDetail (d : Value) : Option Value :=
  if d.isNullish then none
  else some (detail (orElse (d.field "field") (.string "body"))
    (orElse (d.field "code") (.string "VALIDATION_ERROR")) (orElse (d.field "message") (jsonText d)))

/-- The body with this code and these details. -/
def failureOf (code : Value) (details : List Value) : Value :=
  failureBody (.record [("code", code), ("details", .array details)])

/-- The details made of an object. -/
def detailsOf (obj : Value) : Option (List Value) :=
  match obj.field "details" with
  | .array entries => entries.mapM normalizeDetail
  | _ => some [bodyDetail (textOr (obj.field "message") (jsonText obj))]

/-- The body made of a response; `none` stands for a `TypeError`. -/
def bodyOf (raw : Value) : Option Value :=
  if isValidationFailure raw then some raw
  else match raw with
    | .string s => some (failureOf (.string "VALIDATION_ERROR") [bodyDetail (.string s)])
    | .array _ | .object _ =>
      (detailsOf raw).map (failureOf (textOr (raw.field "code") (.string "VALIDATION_ERROR")))
    | _ => raw.toText.map fun text =>
      failureOf (.string "VALIDATION_ERROR") [bodyDetail (.string text)]

/-- `ValidationExceptionFilter.catch(exception, host)`: the status and the body that are sent. -/
def catchException (exception : BadRequestException) : Option (ℕ × Value) :=
  (bodyOf exception.response).map fun body => (exception.status, body)

/-! ## The documented shape -/

/-- A string. -/
def IsText (v : Value) : Prop := ∃ s, v = .string s

/-- The items of a list; other values have none. -/
def items : Value → List Value
  | .array vs => vs
  | _ => []

/-- The fields of a detail. -/
def detailFields : List String := ["field", "code", "message"]

/-- `ValidationErrorDetail`. -/
structure DetailShape (d : Value) : Prop where
  record : d.isRecord = true
  texts : ∀ name ∈ detailFields, IsText (d.field name)

/-- `ValidationError`. -/
structure ErrorShape (error : Value) : Prop where
  record : error.isRecord = true
  code : IsText (error.field "code")
  list : isArray (error.field "details") = true
  details : ∀ d ∈ items (error.field "details"), DetailShape d

/-- `ValidationFailure`: `{ success: false, error: { code, details } }`. -/
structure FailureShape (body : Value) : Prop where
  record : body.isRecord = true
  success : body.field "success" = .bool false
  error : ErrorShape (body.field "error")

/-- The value has no other fields than these. -/
def OnlyFields (names : List String) (v : Value) : Prop := ∀ f ∈ v.fields, f.1 ∈ names

/-- Neither the body nor its error has a field that is not documented. -/
def NothingElse (body : Value) : Prop :=
  OnlyFields ["success", "error"] body ∧ OnlyFields ["code", "details"] (body.field "error")

/-- The filter answers with the status of the exception and a body of the documented shape. -/
def Documented (exception : BadRequestException) : Prop :=
  ∃ body, catchException exception = some (exception.status, body) ∧ FailureShape body

/-- The body has the documented fields, and no others. -/
def DocumentedExactly (exception : BadRequestException) : Prop :=
  ∃ body, catchException exception = some (exception.status, body) ∧ FailureShape body ∧
    NothingElse body

/-! ## The condition -/

/-- An entry that `map` makes a detail of: not `null`, and a field that it has is a string. -/
def WellFormedEntry (d : Value) : Prop :=
  d.isNullish = false ∧
    ∀ name ∈ detailFields, (d.field name).isNullish = true ∨ IsText (d.field name)

/-- What is sent as it is has a text as its code and details of the documented shape; what is not
has entries that a detail can be made of, if it has a list of them. -/
def Normalizable (raw : Value) : Prop :=
  if isValidationFailure raw then
    IsText ((raw.field "error").field "code") ∧
      ∀ d ∈ items ((raw.field "error").field "details"), DetailShape d
  else ∀ d ∈ items (raw.field "details"), WellFormedEntry d

/-! ## Details -/

@[simp] theorem isText_string (s : String) : IsText (.string s) := ⟨s, rfl⟩

/-- The text of a value is a string unless the value is `undefined`. -/
theorem isText_jsonText {v : Value} (h : v ≠ .undefined) : IsText (jsonText v) := by
  unfold jsonText
  cases v with
  | undefined => exact absurd rfl h
  | _ => exact ⟨_, rfl⟩

theorem isText_textOr {v other : Value} (h : IsText other) : IsText (textOr v other) := by
  unfold textOr
  split
  · rename_i htruthy
    split
    · exact isText_string _
    · refine isText_jsonText ?_
      rintro rfl
      cases htruthy
  · exact h

/-- `??` gives a string when the value is absent and the other side is one, or when the value is. -/
theorem isText_orElse {v other : Value} (h : IsText other) :
    IsText (orElse v other) ↔ v.isNullish = true ∨ IsText v := by
  unfold orElse
  split
  · rename_i hnullish
    exact iff_of_true h (.inl hnullish)
  · rename_i hthere
    exact (or_iff_right hthere).symm

theorem field_detail (field code message : Value) :
    (detail field code message).field "field" = field ∧
      (detail field code message).field "code" = code ∧
      (detail field code message).field "message" = message := by
  have hfield : ∀ name, (detail field code message).field name = _ := Value.field_record (by simp)
  exact ⟨hfield "field", hfield "code", hfield "message"⟩

theorem detailShape_detail {field code message : Value} :
    DetailShape (detail field code message) ↔ IsText field ∧ IsText code ∧ IsText message := by
  obtain ⟨hfield, hcode, hmessage⟩ := field_detail field code message
  have htexts : (∀ name ∈ detailFields, IsText ((detail field code message).field name)) ↔
      IsText field ∧ IsText code ∧ IsText message := by
    simp [detailFields, hfield, hcode, hmessage]
  exact ⟨fun h => htexts.mp h.texts, fun h => ⟨rfl, htexts.mpr h⟩⟩

theorem detailShape_bodyDetail {message : Value} (h : IsText message) :
    DetailShape (bodyDetail message) :=
  detailShape_detail.mpr ⟨isText_string _, isText_string _, h⟩

/-- An entry becomes a detail of the documented shape exactly when it is well formed. -/
theorem normalizeDetail_shape (d : Value) :
    (∃ d', normalizeDetail d = some d' ∧ DetailShape d') ↔ WellFormedEntry d := by
  unfold normalizeDetail WellFormedEntry
  cases hnull : d.isNullish with
  | true => simp
  | false =>
      have hjson : IsText (jsonText d) := isText_jsonText (by rintro rfl; cases hnull)
      simp only [Bool.false_eq_true, if_false, Option.some.injEq, exists_eq_left',
        detailShape_detail, isText_orElse (isText_string _), isText_orElse hjson, true_and]
      simp [detailFields]

/-- The entries become details of the documented shape exactly when each is well formed. -/
theorem mapM_normalizeDetail_shape (entries : List Value) :
    (∃ ds, entries.mapM normalizeDetail = some ds ∧ ∀ d ∈ ds, DetailShape d) ↔
      ∀ d ∈ entries, WellFormedEntry d := by
  induction entries with
  | nil => simp
  | cons d entries ih =>
      rw [List.forall_mem_cons, ← normalizeDetail_shape, ← ih]
      constructor
      · rintro ⟨ds, hds, hshape⟩
        rw [List.mapM_cons] at hds
        obtain ⟨d', hd', hrest⟩ := Option.bind_eq_some_iff.mp hds
        obtain ⟨rest, hmap, hcons⟩ := Option.bind_eq_some_iff.mp hrest
        obtain rfl := Option.some.inj hcons
        obtain ⟨hfirst, hothers⟩ := List.forall_mem_cons.mp hshape
        exact ⟨⟨d', hd', hfirst⟩, rest, hmap, hothers⟩
      · rintro ⟨⟨d', hd', hfirst⟩, rest, hmap, hothers⟩
        refine ⟨d' :: rest, ?_, List.forall_mem_cons.mpr ⟨hfirst, hothers⟩⟩
        rw [List.mapM_cons, hd', hmap]
        rfl

/-- The details made of an object have the documented shape exactly when its entries are well
formed. -/
theorem detailsOf_shape {obj : Value} (h : obj ≠ .undefined) :
    (∃ ds, detailsOf obj = some ds ∧ ∀ d ∈ ds, DetailShape d) ↔
      ∀ d ∈ items (obj.field "details"), WellFormedEntry d := by
  unfold detailsOf
  split
  · rename_i entries hentries
    rw [hentries]
    exact mapM_normalizeDetail_shape entries
  · rename_i hno
    have hnone : items (obj.field "details") = [] := by
      unfold items
      split
      · rename_i vs hvs
        exact absurd hvs (hno vs)
      · rfl
    have hbody := detailShape_bodyDetail (isText_textOr (v := obj.field "message") (isText_jsonText h))
    rw [hnone]
    exact iff_of_true ⟨_, rfl, by simpa using hbody⟩ (by simp)

/-! ## Bodies -/

theorem field_failureOf (code : Value) (ds : List Value) :
    (failureOf code ds).field "success" = .bool false ∧
      (failureOf code ds).field "error" = .record [("code", code), ("details", .array ds)] := by
  have hfield : ∀ name, (failureOf code ds).field name = _ := Value.field_record (by simp)
  exact ⟨hfield "success", hfield "error"⟩

theorem failureShape_failureOf {code : Value} {ds : List Value} :
    FailureShape (failureOf code ds) ↔ IsText code ∧ ∀ d ∈ ds, DetailShape d := by
  obtain ⟨hsuccess, herror⟩ := field_failureOf code ds
  have hfield : ∀ name, (Value.record [("code", code), ("details", .array ds)]).field name = _ :=
    Value.field_record (by simp)
  have hcode : (Value.record [("code", code), ("details", .array ds)]).field "code" = code :=
    hfield "code"
  have hdetails : (Value.record [("code", code), ("details", .array ds)]).field "details" =
      .array ds := hfield "details"
  constructor
  · intro h
    have hshape := h.error
    rw [herror] at hshape
    have hall := hshape.details
    have htext := hshape.code
    rw [hdetails] at hall
    rw [hcode] at htext
    exact ⟨htext, hall⟩
  · rintro ⟨htext, hall⟩
    refine ⟨rfl, hsuccess, ?_⟩
    rw [herror]
    exact ⟨rfl, by rwa [hcode], by rw [hdetails]; rfl, by rwa [hdetails]⟩

/-- The bodies that the filter builds have the documented fields only. -/
theorem nothingElse_failureOf (code : Value) (ds : List Value) : NothingElse (failureOf code ds) := by
  obtain ⟨-, herror⟩ := field_failureOf code ds
  have hfields : ∀ fs : List (String × Value), ∀ f ∈ (Value.record fs).fields,
      f.1 ∈ fs.map Prod.fst := fun fs f hf =>
    List.mem_map_of_mem (List.mem_filter.mp hf).1
  refine ⟨fun f hf => hfields _ f hf, fun f hf => ?_⟩
  rw [herror] at hf
  exact hfields _ f hf

/-- What `isValidationFailure` accepts has the documented shape when its code and its details have. -/
theorem failureShape_of_isValidationFailure {raw : Value} (h : isValidationFailure raw = true) :
    FailureShape raw ↔ IsText ((raw.field "error").field "code") ∧
      ∀ d ∈ items ((raw.field "error").field "details"), DetailShape d := by
  simp only [isValidationFailure, Bool.and_eq_true, decide_eq_true_eq] at h
  obtain ⟨⟨⟨⟨⟨hhas, hsuccess⟩, -⟩, hcode⟩, -⟩, hlist⟩ := h
  have hrecord : ∀ {v : Value} {name : String}, v.hasField name = true → v.isRecord = true := by
    intro v name hv
    cases v with
    | object fs => rfl
    | _ => cases hv
  constructor
  · intro hshape
    exact ⟨hshape.error.code, hshape.error.details⟩
  · rintro ⟨htext, hall⟩
    exact ⟨hrecord hhas, hsuccess, hrecord hcode, htext, hlist, hall⟩

/-- What is built has the documented shape exactly when the response is normalizable. -/
theorem bodyOf_shape (raw : Value) :
    (∃ body, bodyOf raw = some body ∧ FailureShape body) ↔ Normalizable raw := by
  unfold bodyOf Normalizable
  split
  · rename_i hfailure
    simp only [Option.some.injEq, exists_eq_left']
    exact failureShape_of_isValidationFailure hfailure
  · have hcode : IsText (textOr (raw.field "code") (.string "VALIDATION_ERROR")) :=
      isText_textOr (isText_string _)
    have hobject : raw ≠ .undefined →
        ((∃ body, (detailsOf raw).map (failureOf (textOr (raw.field "code")
          (.string "VALIDATION_ERROR"))) = some body ∧ FailureShape body) ↔
            ∀ d ∈ items (raw.field "details"), WellFormedEntry d) := by
      intro hdefined
      rw [← detailsOf_shape hdefined]
      constructor
      · rintro ⟨body, hbody, hshape⟩
        obtain ⟨ds, hds, rfl⟩ := Option.map_eq_some_iff.mp hbody
        exact ⟨ds, hds, (failureShape_failureOf.mp hshape).2⟩
      · rintro ⟨ds, hds, hall⟩
        exact ⟨_, by rw [hds]; rfl, failureShape_failureOf.mpr ⟨hcode, hall⟩⟩
    -- a value without fields has one detail, its text
    have hplain : ∀ text : String, ∃ body,
        some (failureOf (.string "VALIDATION_ERROR") [bodyDetail (.string text)]) = some body ∧
          FailureShape body := fun text =>
      ⟨_, rfl, failureShape_failureOf.mpr ⟨isText_string _, by
        simpa using detailShape_bodyDetail (isText_string text)⟩⟩
    have hnone : ∀ {v : Value}, v.isRecord = false → items (v.field "details") = [] := by
      intro v hv
      cases v with
      | object fs => cases hv
      | _ => rfl
    cases raw with
    | array vs => exact hobject (by simp)
    | object fs => exact hobject (by simp)
    | _ => exact iff_of_true (hplain _) (by rw [hnone rfl]; exact List.forall_mem_nil _)

theorem nothingElse_bodyOf {raw body : Value} (hbody : bodyOf raw = some body) :
    NothingElse body ↔ (isValidationFailure raw = true → NothingElse raw) := by
  unfold bodyOf at hbody
  split at hbody
  · rename_i hfailure
    obtain rfl := Option.some.inj hbody
    exact (imp_iff_right hfailure).symm
  · rename_i hnot
    have hbuilt : NothingElse body := by
      split at hbody
      · obtain rfl := Option.some.inj hbody
        exact nothingElse_failureOf _ _
      · obtain ⟨ds, -, rfl⟩ := Option.map_eq_some_iff.mp hbody
        exact nothingElse_failureOf _ _
      · obtain ⟨ds, -, rfl⟩ := Option.map_eq_some_iff.mp hbody
        exact nothingElse_failureOf _ _
      · obtain ⟨text, -, rfl⟩ := Option.map_eq_some_iff.mp hbody
        exact nothingElse_failureOf _ _
    exact iff_of_true hbuilt fun hfailure => absurd hfailure hnot

/-! ## What leaves the filter -/

theorem exists_catchException {exception : BadRequestException} {P : Value → Prop} :
    (∃ body, catchException exception = some (exception.status, body) ∧ P body) ↔
      ∃ body, bodyOf exception.response = some body ∧ P body := by
  refine exists_congr fun body => and_congr_left fun _ => ?_
  rw [catchException, Option.map_eq_some_iff]
  simp

/-- **Shape of validation errors.** The filter answers in the documented shape exactly when the
response is normalizable, and with nothing else in the body exactly when the response, if it is sent as
it is, has no other fields. -/
theorem documented_iff (exception : BadRequestException) :
    (Documented exception ↔ Normalizable exception.response) ∧
      (DocumentedExactly exception ↔ Normalizable exception.response ∧
        (isValidationFailure exception.response = true → NothingElse exception.response)) := by
  have hshape : Documented exception ↔ Normalizable exception.response :=
    exists_catchException.trans (bodyOf_shape _)
  refine ⟨hshape, ?_⟩
  rw [← bodyOf_shape]
  constructor
  · intro h
    obtain ⟨body, hbody, hdocumented, hnothing⟩ := exists_catchException.mp h
    exact ⟨⟨body, hbody, hdocumented⟩, (nothingElse_bodyOf hbody).mp hnothing⟩
  · rintro ⟨⟨body, hbody, hdocumented⟩, hsent⟩
    exact exists_catchException.mpr ⟨body, hbody, hdocumented, (nothingElse_bodyOf hbody).mpr hsent⟩

/-- What a `TrustlessRelayError` carries when the upstream lists a detail as `null`. -/
def nullDetail : BadRequestException where
  status := 400
  response := .object [("details", .array [.null])]

/-- A failure that passes the check: its code is a number. -/
def numberedFailure : BadRequestException where
  status := 400
  response := .object [("success", .bool false),
    ("error", .object [("code", .number 7), ("details", .array [])])]

/-- The first ends the filter, the second is sent as it is; neither answer is documented. -/
theorem undocumented_responses :
    catchException nullDetail = none ∧
      catchException numberedFailure = some (400, numberedFailure.response) ∧
      ¬Documented nullDetail ∧ ¬Documented numberedFailure := by
  have hsent : catchException numberedFailure = some (400, numberedFailure.response) := by
    decide +kernel
  have hnone : catchException nullDetail = none := by decide +kernel
  refine ⟨hnone, hsent, ?_, ?_⟩
  · rintro ⟨body, hbody, -⟩
    rw [hnone] at hbody
    cases hbody
  · rintro ⟨body, hbody, hshape⟩
    obtain rfl : numberedFailure.response = body :=
      congrArg Prod.snd (Option.some.inj (hsent.symm.trans hbody))
    obtain ⟨code, hcode⟩ := hshape.error.code
    cases hcode

/-! ## The errors of the validators -/

/-- **What the validators report is sent as it is**, in the documented shape. -/
theorem catchException_failureBody (error : Agreements.ValidationError) :
    catchException ⟨400, failureBody error.value⟩ = some (400, failureBody error.value) ∧
      DocumentedExactly ⟨400, failureBody error.value⟩ := by
  have heq : failureBody error.value =
      failureOf (.string error.code) (error.details.map (·.value)) := rfl
  have hshape : FailureShape (failureBody error.value) := by
    rw [heq, failureShape_failureOf]
    refine ⟨isText_string _, fun d hd => ?_⟩
    obtain ⟨e, -, rfl⟩ := List.mem_map.mp hd
    exact detailShape_detail.mpr ⟨isText_string _, isText_string _, isText_string _⟩
  have hfailure : isValidationFailure (failureBody error.value) = true := rfl
  have hbody : bodyOf (failureBody error.value) = some (failureBody error.value) := if_pos hfailure
  have hsent : catchException ⟨400, failureBody error.value⟩ =
      some (400, failureBody error.value) := by
    rw [catchException, hbody]
    rfl
  exact ⟨hsent, _, hsent, hshape, heq ▸ nothingElse_failureOf _ _⟩

end ThalosBackend.Common
