import ThalosBackend.Agreements.AnsweringDb
import ThalosBackend.Agreements.MilestoneWrites

/-!
# One milestone a webhook

`applyMilestoneUpdate` compares the index of a payload with `<` and `>=` and then uses it as the key of
a property. An index that is neither below zero nor past the end need not name an entry: a fraction,
`null`, or a text like `length` or `__proto__` is no number of the list. A write then throws, or goes to
an object that all lists share.

`editTraced` is `editMilestones` together with the objects it writes to, and `harmless` is the test of a
payload. Whatever the payload, no row but one and no entry but one changes; `touchesOneMilestone_iff`
says when nothing else is written and nothing is thrown.
-/

set_option autoImplicit false

namespace ThalosBackend.Webhooks

open Js (Number Timestamp Value)
open Calls (ask Ensures)
open Agreements
open Wallets (maybeSingle)

/-! ## What a key leads to -/

/-- An object that `milestones[key]` is. -/
inductive NamedObject where
  | entry (index : ℕ)
  /-- A property that every list inherits. -/
  | inherited (name : String)
  deriving DecidableEq

/-- The object under a key of a list of this length. There is none under other names, and the length is
no object. -/
def namedObject (key : String) (length : ℕ) : Option NamedObject :=
  match entryIndex key length with
  | some index => some (.entry index)
  | none => if isArrayMethod key || isInheritedName key then some (.inherited key) else none

theorem entryIndex_lt {key : String} {length index : ℕ} (h : entryIndex key length = some index) :
    index < length :=
  List.mem_range.mp (List.mem_of_find?_eq_some h)

theorem namedObject_eq_entry {key : String} {length index : ℕ} :
    namedObject key length = some (.entry index) ↔ entryIndex key length = some index := by
  unfold namedObject
  split
  · rename_i found hfound
    simp [hfound]
  · rename_i hnone
    split <;> simp [hnone]

/-- A write throws exactly where the key leads to no object. -/
theorem writeEntry_isSome {key : String} {write : Milestone → Milestone}
    {milestones : List Milestone} :
    (writeEntry key write milestones).isSome = (namedObject key milestones.length).isSome := by
  unfold writeEntry namedObject
  cases entryIndex key milestones.length with
  | some index => rfl
  | none =>
      dsimp only
      split <;> rfl

/-! ## Writes of a request -/

/-- An assignment to a field. -/
structure FieldWrite where
  object : NamedObject
  field : String
  deriving DecidableEq

/-- What a computation assigned before it ended, and its value if it did not throw. -/
structure Traced (α : Type) where
  writes : List FieldWrite
  value : Option α

namespace Traced

variable {α β : Type}

/-- Go on after the value. -/
protected def bind (x : Traced α) (f : α → Traced β) : Traced β :=
  match x.value with
  | none => ⟨x.writes, none⟩
  | some a => ⟨x.writes ++ (f a).writes, (f a).value⟩

theorem bind_value (x : Traced α) (f : α → Traced β) :
    (x.bind f).value = x.value.bind fun a => (f a).value := by
  unfold Traced.bind
  cases hvalue : x.value with
  | none => rfl
  | some a => rfl

theorem mem_bind_writes {x : Traced α} {f : α → Traced β} {w : FieldWrite} :
    w ∈ (x.bind f).writes ↔ w ∈ x.writes ∨ ∃ a, x.value = some a ∧ w ∈ (f a).writes := by
  unfold Traced.bind
  cases hvalue : x.value with
  | none => simp
  | some a => simp

end Traced

/-- `milestones[key].field = value`, with the object that is assigned to. -/
def writeEntryTraced (key field : String) (write : Milestone → Milestone)
    (milestones : List Milestone) : Traced (List Milestone) where
  writes := (namedObject key milestones.length).toList.map fun object => ⟨object, field⟩
  value := writeEntry key write milestones

/-- `writeMilestoneStatus` with the objects it writes to. -/
def writeStatusTraced (key : String) (status : Value) (milestones : List Milestone) :
    Traced (List Milestone) :=
  match normalizeMilestoneStatus status with
  | some normalized =>
    writeEntryTraced key "status" (fun m => { m with status := normalized }) milestones
  | none => ⟨[], if status.truthy then status.toText.map fun _ => milestones else some milestones⟩

/-- `writeMilestoneDescription` with the objects it writes to. -/
def writeDescriptionTraced (key : String) (description : Value) (milestones : List Milestone) :
    Traced (List Milestone) :=
  if description.truthy then
    writeEntryTraced key "description" (fun m => { m with description }) milestones
  else ⟨[], some milestones⟩

/-- What becomes of the index of a payload. -/
inductive ReadIndex where
  /-- The request ends without writing. -/
  | ignored
  /-- The comparison throws. -/
  | unreadable
  | key (key : String)
  deriving DecidableEq

/-- The index of a payload, for a list of this length. -/
def readIndex (payload : Value) (length : ℕ) : ReadIndex :=
  let index := milestoneIndex payload
  if index.isUndefined then .ignored
  else match index.toNumber, index.toText with
    | some number, some key =>
      if number.lt 0 || Number.le (.finite length) number then .ignored else .key key
    | _, _ => .unreadable

/-- `editMilestones` with the objects it writes to. -/
def editTraced (payload : Value) (milestones : List Milestone) : Traced (Option (List Milestone)) :=
  let milestone := payload.field "milestone"
  match readIndex payload milestones.length with
  | .ignored => ⟨[], some none⟩
  | .unreadable => ⟨[], none⟩
  | .key key =>
    (writeStatusTraced key (milestone.field "status") milestones).bind fun milestones =>
      (writeDescriptionTraced key (milestone.field "description") milestones).bind fun milestones =>
        ⟨[], some (some milestones)⟩

theorem writeStatusTraced_value (key : String) (status : Value) (milestones : List Milestone) :
    (writeStatusTraced key status milestones).value = writeMilestoneStatus key status milestones := by
  unfold writeStatusTraced writeMilestoneStatus
  cases normalizeMilestoneStatus status with
  | none => rfl
  | some normalized => rfl

theorem writeDescriptionTraced_value (key : String) (description : Value)
    (milestones : List Milestone) :
    (writeDescriptionTraced key description milestones).value =
      writeMilestoneDescription key description milestones := by
  unfold writeDescriptionTraced writeMilestoneDescription
  split
  · rfl
  · rfl

/-- The edit is the traced one without its trace. -/
theorem editTraced_value (payload : Value) (milestones : List Milestone) :
    (editTraced payload milestones).value = (editMilestones payload milestones).toOption := by
  unfold editTraced editMilestones readIndex
  dsimp only
  -- both read the index twice, as a number and as a key, and refuse it for the same reasons
  split_ifs with hundefined
  · rfl
  · cases hnumber : (milestoneIndex payload).toNumber with
    | none => rfl
    | some number =>
        cases hkey : (milestoneIndex payload).toText with
        | none => rfl
        | some key =>
            dsimp only
            cases hnegative : number.lt 0 with
            | true => rfl
            | false =>
                cases hpast : Number.le (.finite milestones.length) number with
                | true => rfl
                | false =>
                    simp only [Bool.or_self, Bool.false_eq_true, if_false, Traced.bind_value,
                      writeStatusTraced_value, writeDescriptionTraced_value]
                    cases writeMilestoneStatus key ((payload.field "milestone").field "status")
                        milestones with
                    | none => rfl
                    | some between =>
                        dsimp only [Option.bind_some]
                        cases writeMilestoneDescription key
                            ((payload.field "milestone").field "description") between with
                        | none => rfl
                        | some edited => rfl

/-! ## Harmless payloads -/

/-- The status of a payload can be put into the log entry, if it is put there. -/
def statusReads (payload : Value) : Bool :=
  let status := (payload.field "milestone").field "status"
  (normalizeMilestoneStatus status).isSome || !status.truthy || status.toText.isSome

/-- The index is ignored, or it names an entry, or there is nothing to write. -/
def harmless (payload : Value) (length : ℕ) : Bool :=
  match readIndex payload length with
  | .ignored => true
  | .unreadable => false
  | .key key => statusReads payload &&
      ((entryIndex key length).isSome ||
        (payloadStatus payload).isNone && (payloadDescription payload).isNone)

section Writes

variable {payload : Value} {key : String} {milestones : List Milestone}

theorem writeMilestoneStatus_isSome :
    (writeMilestoneStatus key ((payload.field "milestone").field "status") milestones).isSome =
      (statusReads payload &&
        ((payloadStatus payload).isNone || (namedObject key milestones.length).isSome)) := by
  unfold writeMilestoneStatus statusReads payloadStatus
  cases hnormalized : normalizeMilestoneStatus ((payload.field "milestone").field "status") with
  | some normalized => simp [writeEntry_isSome, hnormalized]
  | none =>
      cases htruthy : ((payload.field "milestone").field "status").truthy with
      | true => simp [hnormalized, htruthy]
      | false => simp [hnormalized, htruthy]

theorem writeMilestoneDescription_isSome :
    (writeMilestoneDescription key ((payload.field "milestone").field "description")
        milestones).isSome =
      ((payloadDescription payload).isNone || (namedObject key milestones.length).isSome) := by
  unfold writeMilestoneDescription payloadDescription
  dsimp only
  split
  · simp [writeEntry_isSome]
  · rfl

theorem isSome_bind_of_forall {α β : Type} {x : Option α} {f : α → Option β} {b : Bool}
    (h : ∀ a, x = some a → (f a).isSome = b) : (x.bind f).isSome = (x.isSome && b) := by
  cases x with
  | none => rfl
  | some a => simpa using h a rfl

/-- With an index that can be compared the request throws where it writes to no object, or cannot read
the status. -/
theorem editTraced_isSome (hkey : readIndex payload milestones.length = .key key) :
    (editTraced payload milestones).value.isSome =
      (statusReads payload && ((namedObject key milestones.length).isSome ||
        (payloadStatus payload).isNone && (payloadDescription payload).isNone)) := by
  have hdescription : ∀ between,
      writeMilestoneStatus key ((payload.field "milestone").field "status") milestones =
        some between →
      ((writeMilestoneDescription key ((payload.field "milestone").field "description")
        between).bind fun edited => some (some edited)).isSome =
      ((payloadDescription payload).isNone || (namedObject key milestones.length).isSome) := by
    intro between hbetween
    rw [isSome_bind_of_forall (b := true) fun _ _ => rfl, writeMilestoneDescription_isSome,
      length_of_writeMilestoneStatus hbetween, Bool.and_true]
  simp only [editTraced, hkey, Traced.bind_value, writeStatusTraced_value,
    writeDescriptionTraced_value]
  rw [isSome_bind_of_forall hdescription, writeMilestoneStatus_isSome]
  cases (namedObject key milestones.length).isSome with
  | true => simp
  | false => simp [Bool.and_assoc]

/-- Every assignment is to a status or a description of the object the key leads to. -/
theorem mem_writes (hkey : readIndex payload milestones.length = .key key) {w : FieldWrite}
    (hw : w ∈ (editTraced payload milestones).writes) :
    namedObject key milestones.length = some w.object ∧
      (w.field = "status" ∧ (payloadStatus payload).isSome ∨
        w.field = "description" ∧ (payloadDescription payload).isSome) := by
  simp only [editTraced, hkey, Traced.mem_bind_writes, writeStatusTraced_value] at hw
  rcases hw with hw | ⟨between, hbetween, hw | ⟨_, _, hw⟩⟩
  · unfold writeStatusTraced at hw
    split at hw
    · rename_i normalized hnormalized
      obtain ⟨object, hobject, rfl⟩ := List.mem_map.mp hw
      exact ⟨Option.mem_toList.mp hobject, .inl ⟨rfl, by simp [payloadStatus, hnormalized]⟩⟩
    · cases hw
  · unfold writeDescriptionTraced at hw
    split at hw
    · rename_i htruthy
      obtain ⟨object, hobject, rfl⟩ := List.mem_map.mp hw
      rw [length_of_writeMilestoneStatus hbetween] at hobject
      exact ⟨Option.mem_toList.mp hobject, .inr ⟨rfl, by simp [payloadDescription, htruthy]⟩⟩
    · cases hw
  · cases hw

theorem mem_writeEntryTraced {field : String} {write : Milestone → Milestone} {object : NamedObject}
    (hobject : namedObject key milestones.length = some object) :
    ⟨object, field⟩ ∈ (writeEntryTraced key field write milestones).writes :=
  List.mem_map.mpr ⟨object, Option.mem_toList.mpr hobject, rfl⟩

/-- A request with something to write assigns to the object the key leads to. -/
theorem exists_write (hkey : readIndex payload milestones.length = .key key) {object : NamedObject}
    (hobject : namedObject key milestones.length = some object)
    (hreads : statusReads payload = true)
    (hwritten : (payloadStatus payload).isSome ∨ (payloadDescription payload).isSome) :
    ∃ w ∈ (editTraced payload milestones).writes, w.object = object := by
  simp only [editTraced, hkey, Traced.mem_bind_writes, writeStatusTraced_value]
  cases hstatus : payloadStatus payload with
  | some normalized =>
      refine ⟨⟨object, "status"⟩, .inl ?_, rfl⟩
      rw [payloadStatus] at hstatus
      simp only [writeStatusTraced, hstatus]
      exact mem_writeEntryTraced hobject
  | none =>
      -- the status is left alone, and the description comes to its turn
      have hgoes : (writeMilestoneStatus key ((payload.field "milestone").field "status")
          milestones).isSome = true := by
        rw [writeMilestoneStatus_isSome, hreads, hstatus]
        rfl
      obtain ⟨between, hbetween⟩ := Option.isSome_iff_exists.mp hgoes
      have hdescribed : (payloadDescription payload).isSome := by
        rcases hwritten with hwritten | hwritten
        · rw [hstatus] at hwritten
          cases hwritten
        · exact hwritten
      have htruthy : ((payload.field "milestone").field "description").truthy = true := by
        by_contra hfalsy
        rw [payloadDescription, if_neg hfalsy] at hdescribed
        cases hdescribed
      refine ⟨⟨object, "description"⟩, .inr ⟨between, hbetween, .inl ?_⟩, rfl⟩
      rw [writeDescriptionTraced, if_pos htruthy]
      refine mem_writeEntryTraced ?_
      rw [length_of_writeMilestoneStatus hbetween]
      exact hobject

/-! ## What the condition says -/

/-- All assignments of the request are to the status or the description of one entry. -/
def WritesOneEntry (payload : Value) (milestones : List Milestone) : Prop :=
  ∃ index, ∀ w ∈ (editTraced payload milestones).writes,
    index < milestones.length ∧ w.object = .entry index ∧
      (w.field = "status" ∨ w.field = "description")

/-- A harmless payload is not thrown at, and writes to one entry. -/
theorem goes_of_harmless (h : harmless payload milestones.length = true) :
    (editTraced payload milestones).value.isSome = true ∧ WritesOneEntry payload milestones := by
  unfold harmless at h
  cases hread : readIndex payload milestones.length with
  | ignored => simp [WritesOneEntry, editTraced, hread]
  | unreadable => simp [hread] at h
  | key key =>
      simp only [hread, Bool.and_eq_true, Bool.or_eq_true] at h
      obtain ⟨hreads, hentry | ⟨hstatus, hdescription⟩⟩ := h
      · obtain ⟨index, hindex⟩ := Option.isSome_iff_exists.mp hentry
        have hobject := namedObject_eq_entry.mpr hindex
        refine ⟨by simp [editTraced_isSome hread, hreads, hobject], index, fun w hw => ?_⟩
        obtain ⟨hnamed, hfield⟩ := mem_writes hread hw
        rw [hobject] at hnamed
        exact ⟨entryIndex_lt hindex, (Option.some.inj hnamed).symm, hfield.imp And.left And.left⟩
      · refine ⟨by simp [editTraced_isSome hread, hreads, hstatus, hdescription], 0, fun w hw => ?_⟩
        rw [Option.isNone_iff_eq_none] at hstatus hdescription
        obtain ⟨-, ⟨-, hwritten⟩ | ⟨-, hwritten⟩⟩ := mem_writes hread hw
        · rw [hstatus] at hwritten
          cases hwritten
        · rw [hdescription] at hwritten
          cases hwritten

/-- Any other payload is thrown at, or writes to what every list inherits. -/
theorem harmless_of_goes (hgoes : (editTraced payload milestones).value.isSome = true)
    (hwrites : WritesOneEntry payload milestones) : harmless payload milestones.length = true := by
  unfold harmless
  cases hread : readIndex payload milestones.length with
  | ignored => rfl
  | unreadable => simp [editTraced, hread] at hgoes
  | key key =>
      rw [editTraced_isSome hread, Bool.and_eq_true, Bool.or_eq_true] at hgoes
      obtain ⟨hreads, hobject | hnothing⟩ := hgoes
      · obtain ⟨object, hobject⟩ := Option.isSome_iff_exists.mp hobject
        simp only [hreads, Bool.true_and, Bool.or_eq_true]
        -- what is written goes to the object the key leads to, which must be an entry
        by_cases hwritten : (payloadStatus payload).isSome ∨ (payloadDescription payload).isSome
        · obtain ⟨w, hw, rfl⟩ := exists_write hread hobject hreads hwritten
          obtain ⟨index, hentry⟩ := hwrites
          rw [(hentry w hw).2.1, namedObject_eq_entry] at hobject
          exact .inl (by rw [hobject]; rfl)
        · exact .inr (by simpa using hwritten)
      · simp [hreads, hnothing]

end Writes

/-! ## Runs -/

/-- Nothing changes, or the status and the description of one entry do. -/
def OneEntry (milestones milestones' : List Milestone) : Prop :=
  milestones' = milestones ∨ ∃ index m status description, milestones[index]? = some m ∧
    milestones' = milestones.set index { m with status, description }

/-- Nothing changes, or one entry of one agreement does, and the time of the update. -/
inductive OneMilestone (now : Timestamp) : List Agreement → List Agreement → Prop where
  | unchanged (rows : List Agreement) : OneMilestone now rows rows
  | entry (before : List Agreement) (a : Agreement) (after : List Agreement)
      (milestones : List Milestone) (hentry : OneEntry a.milestones milestones) :
      OneMilestone now (before ++ a :: after)
        (before ++ { a with milestones, updatedAt := now } :: after)

/-- The store after a webhook: one milestone, and what was logged. -/
def MilestoneFrame (now : Timestamp) (db db' : AgreementDb) : Prop :=
  ∃ rows log, OneMilestone now db.agreements rows ∧
    db' = { db with agreements := rows, activity := db.activity ++ log }

theorem MilestoneFrame.refl (now : Timestamp) (db : AgreementDb) : MilestoneFrame now db db :=
  ⟨db.agreements, [], .unchanged _, by rw [List.append_nil]⟩

theorem MilestoneFrame.log {now : Timestamp} {db db' : AgreementDb} (h : MilestoneFrame now db db')
    (row : Activity) : MilestoneFrame now db { db' with activity := db'.activity ++ [row] } := by
  obtain ⟨rows, log, hrows, rfl⟩ := h
  exact ⟨rows, log ++ [row], hrows, by rw [← List.append_assoc]⟩

theorem editMilestones_oneEntry {payload : Value} {milestones milestones' : List Milestone}
    (h : editMilestones payload milestones = .ok (some milestones')) :
    OneEntry milestones milestones' := by
  rw [editMilestones_eq h]
  cases payloadEntry payload milestones.length with
  | none => exact .inl rfl
  | some index =>
      dsimp only
      rw [List.modify_eq_set_getElem?]
      cases hm : milestones[index]? with
      | none => exact .inl rfl
      | some m => exact .inr ⟨index, m, _, _, hm, rfl⟩

section Runs

variable {now : Timestamp} {payload : Value} {contractId : String} {db : AgreementDb} {a : Agreement}

/-- The update of the only agreement with the contract. -/
theorem updateAgreements_oneMilestone {milestones : List Milestone}
    (ha : db.byContract contractId = [a]) (hentry : OneEntry a.milestones milestones) :
    MilestoneFrame now db (db.updateAgreements (fun b => b.contractId = some contractId)
      { milestones := some milestones, updatedAt := now }) := by
  obtain ⟨before, after, hrows, hupdated⟩ := Table.updateWhere_of_filter_eq_singleton
    (f := Agreement.apply { milestones := some milestones, updatedAt := now }) ha
  refine ⟨_, [], ?_, by rw [AgreementDb.updateAgreements, List.append_nil]⟩
  rw [hupdated, hrows]
  exact .entry before a after milestones hentry

/-- Whatever the payload, and whichever queries fail, no row but one and no entry but one changes. -/
theorem applyMilestoneUpdate_frame :
    Ensures Executes (applyMilestoneUpdate now payload contractId) db
      fun _ db' => MilestoneFrame now db db' := by
  refine Calls.ensures_ask fun x db₁ hx => ?_
  obtain ⟨rfl, hfound⟩ := findByContract_found hx
  rcases x with e | _ | a
  · exact .refl now db₁
  · exact .refl now db₁
  · refine Calls.ensures_bind.mpr (Calls.ensures_ofExcept.mpr ⟨fun edited hedited => ?_, ?_⟩)
    · cases edited with
      | none => exact .refl now db₁
      | some milestones =>
          -- the update is by contract id, which this agreement alone has
          refine Calls.ensures_ask fun y db₂ hy => ?_
          rcases hy with ⟨rfl, rfl⟩ | ⟨-, ⟨e, rfl⟩, rfl⟩
          · have hframe : MilestoneFrame now db₁ (db₁.updateAgreements
                (fun b => b.contractId = some contractId)
                { milestones := some milestones, updatedAt := now }) :=
              updateAgreements_oneMilestone (hfound (some a) rfl) (editMilestones_oneEntry hedited)
            refine Calls.ensures_ask fun z db₃ hz => ?_
            rcases hz with ⟨-, rfl⟩ | ⟨-, -, rfl⟩
            · exact hframe.log _
            · exact hframe
          · exact .refl now _
    · exact fun e _ => .refl now db₁

theorem data_findByContract {x : Wallets.Reply (Option Agreement)} {db' : AgreementDb}
    (h : Answers (.findByContract contractId) db x db') :
    db' = db ∧ Wallets.Reply.data x = Table.sole (db.byContract contractId) := by
  obtain ⟨rfl, rfl⟩ := h
  exact ⟨rfl, data_maybeSingle _⟩

/-- When no query fails the request ends as its edit does. -/
theorem applyMilestoneUpdate_ends
    (h : ∀ a, db.byContract contractId = [a] →
      (editTraced payload a.milestones).value.isSome = true) :
    Ensures Answers (applyMilestoneUpdate now payload contractId) db fun out _ => out = .ok () := by
  refine Calls.ensures_ask fun x db₁ hx => ?_
  obtain ⟨rfl, hdata⟩ := data_findByContract hx
  rw [hdata]
  cases hsole : Table.sole (db₁.byContract contractId) with
  | none => rfl
  | some a =>
      have hgoes := h a (Table.sole_eq_some.mp hsole)
      rw [editTraced_value] at hgoes
      dsimp only
      cases hedited : editMilestones payload a.milestones with
      | error e =>
          rw [hedited] at hgoes
          cases hgoes
      | ok edited =>
          cases edited with
          | none => rfl
          | some milestones =>
              refine Calls.ensures_ask fun y db₂ hy => ?_
              obtain ⟨rfl, -⟩ := hy
              exact Calls.ensures_ask fun z db₃ hz => rfl

theorem applyMilestoneUpdate_throws (ha : db.byContract contractId = [a])
    (h : (editTraced payload a.milestones).value = none) :
    Ensures Answers (applyMilestoneUpdate now payload contractId) db
      fun out _ => ∃ e, out = .error e := by
  refine Calls.ensures_ask fun x db₁ hx => ?_
  obtain ⟨rfl, hdata⟩ := data_findByContract hx
  rw [hdata, ha]
  rw [editTraced_value] at h
  dsimp only [Table.sole]
  cases hedited : editMilestones payload a.milestones with
  | error e => exact ⟨e, rfl⟩
  | ok edited =>
      rw [hedited] at h
      cases h

/-! ## One milestone -/

/-- A webhook touches one milestone: in the store, among the objects of the process, and it throws only
where a query fails. -/
structure TouchesOneMilestone (now : Timestamp) (payload : Value) (contractId : String)
    (db : AgreementDb) : Prop where
  stored : ∀ out db', Calls.Runs Executes (applyMilestoneUpdate now payload contractId) db out db' →
    MilestoneFrame now db db'
  assigned : ∀ a, db.byContract contractId = [a] → WritesOneEntry payload a.milestones
  ends : ∀ out db', Calls.Runs Answers (applyMilestoneUpdate now payload contractId) db out db' →
    out = .ok ()

theorem harmless_of_touches (h : TouchesOneMilestone now payload contractId db)
    (ha : db.byContract contractId = [a]) : harmless payload a.milestones.length = true := by
  refine harmless_of_goes ?_ (h.assigned a ha)
  by_contra hstuck
  rw [Option.not_isSome_iff_eq_none] at hstuck
  -- the request runs to its end, which would be an error
  have hrun := Calls.runs_run (fun c db => db.answers_answer c)
    (applyMilestoneUpdate now payload contractId) db
  obtain ⟨e, he⟩ := Calls.ensures_iff.mp (applyMilestoneUpdate_throws ha hstuck) _ _ hrun
  rw [h.ends _ _ hrun] at he
  cases he

/-- **One milestone a webhook.** It touches one milestone exactly when the index of its payload is
ignored, names an entry of the agreement, or comes with nothing to write. -/
theorem touchesOneMilestone_iff (now : Timestamp) (payload : Value) (contractId : String)
    (db : AgreementDb) :
    TouchesOneMilestone now payload contractId db ↔
      ∀ a, db.byContract contractId = [a] → harmless payload a.milestones.length = true := by
  constructor
  · intro h a ha
    exact harmless_of_touches h ha
  · intro h
    exact
      { stored := Calls.ensures_iff.mp applyMilestoneUpdate_frame
        assigned := fun a ha => (goes_of_harmless (h a ha)).2
        ends := Calls.ensures_iff.mp
          (applyMilestoneUpdate_ends fun a ha => (goes_of_harmless (h a ha)).1) }

end Runs

/-- A store with one agreement over two milestones, linked to `C`. -/
def linkedToC : AgreementDb :=
  storeWith twoParties [(sampleDto "10" (some "C") splitTen).row.row "i" 0] []

/-- The approval of the milestone under an index. -/
def approvalAt (index : Value) : Value :=
  .object [("event", .string "milestone.approved"), ("contractId", .string "C"),
    ("milestone", .object [("index", index), ("status", .string "approved")])]

/-- Neither the prototype of all lists nor half an index is a milestone. -/
theorem not_touchesOneMilestone :
    ¬ TouchesOneMilestone 0 (approvalAt (.string "__proto__")) "C" linkedToC ∧
      ¬ TouchesOneMilestone 0 (approvalAt (.number (.finite (1 / 2)))) "C" linkedToC := by
  constructor
  · intro h
    have hharmless := harmless_of_touches h rfl
    revert hharmless
    decide +kernel
  · intro h
    have hharmless := harmless_of_touches h rfl
    revert hharmless
    decide +kernel

end ThalosBackend.Webhooks
