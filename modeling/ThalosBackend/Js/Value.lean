import ThalosBackend.Js.Print

/-!
# JavaScript values

What `JSON.parse` and a JSON request body can hold, plus `undefined`. Objects are their own fields
in order; a read of a field takes the first one of the name, and a field that is not there reads as
`undefined`. `toText` is `String(value)` and `stringify` is `JSON.stringify(value)`.
-/

set_option autoImplicit false

namespace ThalosBackend.Js

/-- A JavaScript value without functions and symbols. -/
inductive Value where
  | undefined
  | null
  | bool (b : Bool)
  | number (x : Number)
  | string (s : String)
  | array (items : List Value)
  | object (fields : List (String × Value))

namespace Value

instance : Inhabited Value := ⟨undefined⟩

/-! ## Equality -/

mutual

/-- Values can be compared. -/
def decEq : (a b : Value) → Decidable (a = b)
  | .undefined, b => match b with
      | .undefined => isTrue rfl
      | .null | .bool _ | .number _ | .string _ | .array _ | .object _ => isFalse nofun
  | .null, b => match b with
      | .null => isTrue rfl
      | .undefined | .bool _ | .number _ | .string _ | .array _ | .object _ => isFalse nofun
  | .bool p, b => match b with
      | .bool q => decidable_of_iff (p = q) (by simp)
      | .undefined | .null | .number _ | .string _ | .array _ | .object _ => isFalse nofun
  | .number x, b => match b with
      | .number y => decidable_of_iff (x = y) (by simp)
      | .undefined | .null | .bool _ | .string _ | .array _ | .object _ => isFalse nofun
  | .string s, b => match b with
      | .string t => decidable_of_iff (s = t) (by simp)
      | .undefined | .null | .bool _ | .number _ | .array _ | .object _ => isFalse nofun
  | .array vs, b => match b with
      | .array ws => have := decEqItems vs ws; decidable_of_iff (vs = ws) (by simp)
      | .undefined | .null | .bool _ | .number _ | .string _ | .object _ => isFalse nofun
  | .object fs, b => match b with
      | .object gs => have := decEqFields fs gs; decidable_of_iff (fs = gs) (by simp)
      | .undefined | .null | .bool _ | .number _ | .string _ | .array _ => isFalse nofun

/-- Lists of values can be compared. -/
def decEqItems : (vs ws : List Value) → Decidable (vs = ws)
  | [], [] => isTrue rfl
  | [], _ :: _ => isFalse nofun
  | _ :: _, [] => isFalse nofun
  | v :: vs, w :: ws =>
      have := decEq v w
      have := decEqItems vs ws
      decidable_of_iff (v = w ∧ vs = ws) (by simp)

/-- Lists of fields can be compared. -/
def decEqFields : (fs gs : List (String × Value)) → Decidable (fs = gs)
  | [], [] => isTrue rfl
  | [], _ :: _ => isFalse nofun
  | _ :: _, [] => isFalse nofun
  | (name, v) :: fs, (name', w) :: gs =>
      have := decEq v w
      have := decEqFields fs gs
      decidable_of_iff (name = name' ∧ v = w ∧ fs = gs) (by simp [and_assoc])

end

instance : DecidableEq Value := decEq

/-! ## Fields -/

/-- The value under a name in a list of fields. -/
def lookup (fields : List (String × Value)) (name : String) : Value :=
  ((fields.find? fun f => f.1 = name).map Prod.snd).getD .undefined

/-- The fields of an object, as a list; other values have none. -/
def fields : Value → List (String × Value)
  | .object fs => fs
  | _ => []

/-- `value.name` for a value known to be an object. -/
def field (v : Value) (name : String) : Value := lookup v.fields name

/-- `name in value` for an object. -/
def hasField (v : Value) (name : String) : Bool := v.fields.any fun f => f.1 = name

/-- An object that is neither `null` nor a list. -/
def isRecord : Value → Bool
  | .object _ => true
  | _ => false

/-- `value === true`. -/
def isTrue : Value → Bool
  | .bool true => true
  | _ => false

/-- `value === undefined`. -/
def isUndefined : Value → Bool
  | .undefined => true
  | _ => false

/-- `value ?? other` reads the other side on these. -/
def isNullish : Value → Bool
  | .undefined | .null => true
  | _ => false

/-- The text of a string value. -/
def text? : Value → Option String
  | .string s => some s
  | _ => none

/-- The object literal of these fields as it is sent: fields that are `undefined` do not appear. -/
def record (fields : List (String × Value)) : Value :=
  .object (fields.filter fun f => !f.2.isUndefined)

/-- Texts between commas, the way `Array.prototype.join` and JSON put them. -/
def joinComma (texts : List String) : String := String.intercalate "," texts

mutual

/-- `String(value)`. An object that has a `toString` of its own is no text: the field is not a
function, and the conversion throws. -/
def toText : Value → Option String
  | .undefined => some "undefined"
  | .null => some "null"
  | .bool b => some (if b then "true" else "false")
  | .number x => some x.toText
  | .string s => some s
  | .array items => (itemTexts items).map joinComma
  | .object fs => if fs.any (fun f => f.1 = "toString") then none else some "[object Object]"

/-- The texts of the items of a list; `null` and `undefined` have the empty one. -/
def itemTexts : List Value → Option (List String)
  | [] => some []
  | .undefined :: rest => (itemTexts rest).map ("" :: ·)
  | .null :: rest => (itemTexts rest).map ("" :: ·)
  | v :: rest =>
      match toText v, itemTexts rest with
      | some t, some ts => some (t :: ts)
      | _, _ => none

end

/-- Four hexadecimal digits. -/
def hexCode (n : ℕ) : List Char :=
  let digits := Nat.toDigits 16 n
  List.replicate (4 - digits.length) '0' ++ digits

/-- A character inside a JSON string. -/
def escapeChar (c : Char) : List Char :=
  if c = '"' then ['\\', '"']
  else if c = '\\' then ['\\', '\\']
  else if c = '\u0008' then ['\\', 'b']
  else if c = '\u000c' then ['\\', 'f']
  else if c = '\n' then ['\\', 'n']
  else if c = '\r' then ['\\', 'r']
  else if c = '\t' then ['\\', 't']
  else if c.toNat < 32 then '\\' :: 'u' :: hexCode c.toNat
  else [c]

/-- A JSON string literal. -/
def quote (s : String) : String :=
  "\"" ++ String.ofList (s.toList.flatMap escapeChar) ++ "\""

mutual

/-- `JSON.stringify(value)`; `none` stands for its result `undefined`. -/
def stringify : Value → Option String
  | .undefined => none
  | .null => some "null"
  | .bool b => some (if b then "true" else "false")
  | .number x => some (if x.isFinite then x.toText else "null")
  | .string s => some (quote s)
  | .array items => some ("[" ++ joinComma (stringifyItems items) ++ "]")
  | .object fs => some ("\x7b" ++ joinComma (stringifyFields fs) ++ "\x7d")

/-- The items of a JSON list; `undefined` is written as `null`. -/
def stringifyItems : List Value → List String
  | [] => []
  | v :: rest => (stringify v).getD "null" :: stringifyItems rest

/-- The members of a JSON object; a field that is `undefined` is left out. -/
def stringifyFields : List (String × Value) → List String
  | [] => []
  | (name, v) :: rest =>
      match stringify v with
      | some t => (quote name ++ ":" ++ t) :: stringifyFields rest
      | none => stringifyFields rest

end

@[simp] theorem fields_object (fs : List (String × Value)) : (object fs).fields = fs := rfl

@[simp] theorem lookup_nil (name : String) : lookup [] name = .undefined := rfl

/-! ## Records -/

theorem isUndefined_eq_true {v : Value} : v.isUndefined = true ↔ v = .undefined := by
  cases v with
  | undefined => simp [isUndefined]
  | _ => simp [isUndefined]

/-- Dropping undefined fields loses nothing that the names do not restore. -/
theorem filter_defined_inj : ∀ {fs gs : List (String × Value)},
    fs.map Prod.fst = gs.map Prod.fst → (fs.map Prod.fst).Nodup →
    fs.filter (fun f => !f.2.isUndefined) = gs.filter (fun f => !f.2.isUndefined) → fs = gs
  | [], gs, hnames, _, _ => (List.map_eq_nil_iff.mp hnames.symm).symm
  | (name, v) :: fs, [], hnames, _, _ => by simp at hnames
  | (name, v) :: fs, (name', w) :: gs, hnames, hnodup, h => by
      simp only [List.map_cons, List.cons.injEq] at hnames
      obtain ⟨rfl, hrest⟩ := hnames
      simp only [List.map_cons, List.nodup_cons] at hnodup
      -- a field of this name cannot come from the rest of either list
      have hfresh : ∀ {x : Value} {hs : List (String × Value)}, hs.map Prod.fst = fs.map Prod.fst →
          (name, x) ∉ hs.filter (fun f => !f.2.isUndefined) := fun {x hs} hhs hmem =>
        hnodup.1 (hhs ▸ List.mem_map_of_mem (List.mem_filter.mp hmem).1)
      cases hv : v.isUndefined <;> cases hw : w.isUndefined <;>
        simp only [List.filter_cons, hv, hw, Bool.not_false, Bool.not_true, if_true,
          Bool.false_eq_true, if_false] at h
      · simp only [List.cons.injEq, Prod.mk.injEq, true_and] at h
        rw [h.1, filter_defined_inj hrest hnodup.2 h.2]
      · exact absurd (h ▸ List.mem_cons_self) (hfresh hrest.symm)
      · exact absurd (h ▸ List.mem_cons_self) (hfresh rfl)
      · rw [filter_defined_inj hrest hnodup.2 h, isUndefined_eq_true.mp hv, isUndefined_eq_true.mp hw]

/-- A field of a record reads as it was given, an undefined one too. -/
theorem field_record {fs : List (String × Value)} (hnodup : (fs.map Prod.fst).Nodup)
    (name : String) : (record fs).field name = lookup fs name := by
  change lookup (fs.filter fun f => !f.2.isUndefined) name = lookup fs name
  induction fs with
  | nil => rfl
  | cons f fs ih =>
      obtain ⟨hfresh, hrest⟩ := List.nodup_cons.mp hnodup
      have htail := ih hrest
      unfold lookup at htail ⊢
      rw [List.filter_cons, List.find?_cons]
      by_cases hname : f.1 = name
      · rw [decide_eq_true hname]
        cases hf : f.2.isUndefined with
        | false => simp [hname]
        | true =>
            -- no other field has this name
            have hnone : fs.find? (fun g => decide (g.1 = name)) = none := by
              refine List.find?_eq_none.mpr fun g hg => ?_
              have hne : g.1 ≠ f.1 := fun heq => hfresh (heq ▸ List.mem_map_of_mem hg)
              simpa [hname] using hne
            rw [hnone] at htail
            simpa [isUndefined_eq_true.mp hf] using htail
      · rw [decide_eq_false hname]
        cases hf : f.2.isUndefined with
        | false => simpa [hname] using htail
        | true => simpa using htail

/-- Records with the same names agree when their fields do. -/
theorem record_inj {fs gs : List (String × Value)} (hnames : fs.map Prod.fst = gs.map Prod.fst)
    (hnodup : (fs.map Prod.fst).Nodup) : record fs = record gs ↔ fs = gs := by
  constructor
  · intro h
    exact filter_defined_inj hnames hnodup (object.inj h)
  · rintro rfl
    rfl

end Value

end ThalosBackend.Js
