import Woodstar.MergePatches
import Woodstar.Targeting
import Woodstar.TextPieces

/-!
# Munki software titles

`internal/munki/software`: the editable part of a title, the patches of `internal/patch` for
it, and the rows that its title and its targets are written to. Objects of a document that
repeat a key are left out; what `huma.Validate` checks beyond the decoding is a parameter.
-/
namespace SoftwareTitles

open MergePatches
open Primitives (Fault isText trimSpace)
open Targeting (Direction LabelRef)

inductive Action where
  | managedInstalls
  | managedUninstalls
  | managedUpdates
  | optionalInstalls
  | optionalUninstalls
  | featuredItems
  | defaultInstalls
  deriving DecidableEq, Repr

def Action.text : Action → String
  | .managedInstalls => "managed_installs"
  | .managedUninstalls => "managed_uninstalls"
  | .managedUpdates => "managed_updates"
  | .optionalInstalls => "optional_installs"
  | .optionalUninstalls => "optional_uninstalls"
  | .featuredItems => "featured_items"
  | .defaultInstalls => "default_installs"

def actionValues : List Action :=
  [.managedInstalls, .managedUninstalls, .managedUpdates, .optionalInstalls, .optionalUninstalls,
    .featuredItems, .defaultInstalls]

inductive PackageStrategy where
  | latest
  | specific
  deriving DecidableEq, Repr

def PackageStrategy.text : PackageStrategy → String
  | .latest => "latest"
  | .specific => "specific"

def packageStrategyValues : List PackageStrategy := [.latest, .specific]

structure PackageSelector where
  strategy : PackageStrategy
  packageID : Option Int
  deriving DecidableEq, Repr

structure Include where
  labelID : Int
  package : PackageSelector
  actions : List Action
  deriving DecidableEq, Repr

structure Targets where
  includes : List Include := []
  excludes : List LabelRef := []
  deriving DecidableEq, Repr

structure UpdateMutation where
  displayName : String := ""
  description : String := ""
  category : String := ""
  developer : String := ""
  iconObjectID : Option Int := none
  targets : Targets := {}
  deriving DecidableEq, Repr

def UpdateMutation.normalize (m : UpdateMutation) (name : String) : UpdateMutation :=
  { m with
    displayName := if trimSpace m.displayName = name then "" else trimSpace m.displayName
    description := trimSpace m.description
    category := trimSpace m.category
    developer := trimSpace m.developer }

def requirePositive (field : String) (id : Int) : Except Fault Unit :=
  if 0 < id then .ok () else .error (.invalidInput s!"{field} must be greater than 0")

/-- The rules of `PackageID`. -/
def PackageSelector.validate : PackageSelector → Except Fault Unit
  | ⟨.latest, none⟩ => .ok ()
  | ⟨.latest, some _⟩ => .error (.invalidInput "PackageID is not allowed")
  | ⟨.specific, none⟩ => .error (.invalidInput "PackageID is required")
  | ⟨.specific, some id⟩ => requirePositive "PackageID" id

def Include.validate (row : Include) : Except Fault Unit := do
  requirePositive "LabelID" row.labelID
  row.package.validate
  if row.actions = [] then .error (.invalidInput "Actions must be at least 1") else .ok ()

def validateIncludes : List Include → Except Fault Unit
  | [] => .ok ()
  | row :: rows => do
    row.validate
    validateIncludes rows

def Targets.validate (targets : Targets) : Except Fault Unit := do
  validateIncludes targets.includes
  match Targeting.validateTargets Include.labelID targets.includes targets.excludes with
  | .ok () => .ok ()
  | .error message => .error (.invalidInput message)

def requireIcon : Option Int → Except Fault Unit
  | some id => requirePositive "IconObjectID" id
  | none => .ok ()

/-- The icon, then what `validation.Struct` and `Targets.validate` say of the targets. -/
def UpdateMutation.validate (m : UpdateMutation) : Except Fault Unit := do
  requireIcon m.iconObjectID
  m.targets.validate

/-- A number is an integer of 64 bits, or another one by its text. -/
inductive Scalar where
  | text (value : String)
  | integer (value : Int)
  | number (value : String)
  | bool (value : Bool)
  deriving DecidableEq, Repr

abbrev Json := Value Scalar

/-- `omitempty`. -/
def encodeText (key value : String) : Fields Scalar :=
  if value = "" then [] else [(key, .scalar (.text value))]

def encodeInteger (key : String) : Option Int → Fields Scalar
  | none => []
  | some value => [(key, .scalar (.integer value))]

def encodeSelector (package : PackageSelector) : Json :=
  .object ([("strategy", .scalar (.text package.strategy.text))] ++ encodeInteger "package_id" package.packageID)

def encodeInclude (row : Include) : Json :=
  .object [("label_id", .scalar (.integer row.labelID)), ("package", encodeSelector row.package),
    ("actions", .array (row.actions.map (fun action => .scalar (.text action.text))))]

def encodeLabelRef (ref : LabelRef) : Json := .object [("label_id", .scalar (.integer ref.labelID))]

def encodeTargets (targets : Targets) : Json :=
  .object [("include", .array (targets.includes.map encodeInclude)),
    ("exclude", .array (targets.excludes.map encodeLabelRef))]

/-- `json.Marshal` of a mutation whose targets are not nil. -/
def encode (m : UpdateMutation) : Fields Scalar :=
  encodeText "display_name" m.displayName ++ encodeText "description" m.description ++
    encodeText "category" m.category ++ encodeText "developer" m.developer ++
    encodeInteger "icon_object_id" m.iconObjectID ++ [("targets", encodeTargets m.targets)]

def decodeText : Option Json → Option String
  | none | some .null => some ""
  | some (.scalar (.text value)) => some value
  | some _ => none

/-- A pointer to an integer. -/
def decodePointer : Option Json → Option (Option Int)
  | none | some .null => some none
  | some (.scalar (.integer value)) => some (some value)
  | some _ => none

def decodeInteger : Option Json → Option Int
  | some (.scalar (.integer value)) => some value
  | _ => none

def decodeArray {α : Type} (decode : Json → Option α) : Option Json → Option (List α)
  | none | some .null => some []
  | some (.array items) => items.mapM decode
  | some _ => none

/-- A text among the values of an enumeration. -/
def decodeEnum {α : Type} (values : List α) (text : α → String) : Option Json → Option α
  | some (.scalar (.text value)) => values.find? (fun a => text a = value)
  | _ => none

def decodeAction (item : Json) : Option Action := decodeEnum actionValues Action.text (some item)

/-- The fields of an array's element are complete. -/
def decodeSelector : Option Json → Option PackageSelector
  | some (.object fields) => do
    let strategy ← decodeEnum packageStrategyValues PackageStrategy.text (valueAt fields "strategy")
    let packageID ← decodePointer (valueAt fields "package_id")
    some ⟨strategy, packageID⟩
  | _ => none

def decodeActions : Option Json → Option (List Action)
  | some (.array items) => items.mapM decodeAction
  | _ => none

def decodeInclude : Json → Option Include
  | .object fields => do
    let labelID ← decodeInteger (valueAt fields "label_id")
    let package ← decodeSelector (valueAt fields "package")
    let actions ← decodeActions (valueAt fields "actions")
    some ⟨labelID, package, actions⟩
  | _ => none

def decodeLabelRef : Json → Option LabelRef
  | .object fields => (decodeInteger (valueAt fields "label_id")).map LabelRef.mk
  | _ => none

def decodeTargets : Option Json → Option Targets
  | none | some .null => some {}
  | some (.object fields) => do
    let includes ← decodeArray decodeInclude (valueAt fields "include")
    let excludes ← decodeArray decodeLabelRef (valueAt fields "exclude")
    some ⟨includes, excludes⟩
  | some _ => none

def decode : Json → Option UpdateMutation
  | .object fields => do
    let displayName ← decodeText (valueAt fields "display_name")
    let description ← decodeText (valueAt fields "description")
    let category ← decodeText (valueAt fields "category")
    let developer ← decodeText (valueAt fields "developer")
    let iconObjectID ← decodePointer (valueAt fields "icon_object_id")
    let targets ← decodeTargets (valueAt fields "targets")
    some ⟨displayName, description, category, developer, iconObjectID, targets⟩
  | _ => none

inductive Contract where
  | scalar (nullable : Bool)
  | array (items : Contract)
  | object (properties : List (String × Contract))

def includeContract : Contract :=
  .object [("label_id", .scalar false),
    ("package", .object [("strategy", .scalar false), ("package_id", .scalar true)]),
    ("actions", .array (.scalar false))]

def labelRefContract : Contract := .object [("label_id", .scalar false)]

def targetsContract : Contract :=
  .object [("include", .array includeContract), ("exclude", .array labelRefContract)]

/-- The properties that `schema` derives: texts and pointers can be cleared. -/
def contract : Contract :=
  .object [("display_name", .scalar true), ("description", .scalar true), ("category", .scalar true),
    ("developer", .scalar true), ("icon_object_id", .scalar true), ("targets", targetsContract)]

def Contract.nullable : Contract → Bool
  | .scalar nullable => nullable
  | .array _ | .object _ => false

def Contract.property : Contract → String → Option Contract
  | .object properties, key => (properties.find? (fun property => property.1 = key)).map Prod.snd
  | _, _ => none

def Contract.items : Contract → Option Contract
  | .array items => some items
  | _ => none

mutual

/-- Known fields only, and null only where it clears something. -/
def checkFields (contract : Contract) : Value Scalar → Bool
  | .null => contract.nullable
  | .scalar _ => true
  | .array items =>
    match contract.items with
    | some item => checkItems item items
    | none => true
  | .object fields => checkProperties contract fields

def checkItems (item : Contract) : List (Value Scalar) → Bool
  | [] => true
  | value :: values => checkFields item value && checkItems item values

def checkProperties (contract : Contract) : List (String × Value Scalar) → Bool
  | [] => true
  | (key, value) :: fields =>
    (match contract.property key with
      | some property => checkFields property value
      | none => false) && checkProperties contract fields

end

/-- A patch that `UnmarshalJSON` took. What `huma.Validate` refuses beyond the types is left out. -/
structure Document where
  value : Json
  distinct : value.isDistinct = true
  known : checkFields contract value = true
  typed : (decode value).isSome = true

def Document.apply (document : Document) (current : UpdateMutation) : Option UpdateMutation :=
  decode (merge (some (.object (encode current))) document.value)

def namedText (value : Option Json) (current : String) : String :=
  match value with
  | none => current
  | some value => (decodeText (some value)).getD ""

def namedPointer (value : Option Json) (current : Option Int) : Option Int :=
  match value with
  | none => current
  | some value => (decodePointer (some value)).getD none

def namedArray {α : Type} (decode : Json → Option α) (value : Option Json) (current : List α) : List α :=
  match value with
  | none => current
  | some value => (decodeArray decode (some value)).getD []

def namedTargets (value : Option Json) (current : Targets) : Targets :=
  match value with
  | some (.object fields) =>
    ⟨namedArray decodeInclude (valueAt fields "include") current.includes,
      namedArray decodeLabelRef (valueAt fields "exclude") current.excludes⟩
  | _ => current

/-- The fields that the document names, and the others as they are. -/
def Document.patched (document : Document) (current : UpdateMutation) : UpdateMutation :=
  let named := valueAt document.value.fields
  { displayName := namedText (named "display_name") current.displayName
    description := namedText (named "description") current.description
    category := namedText (named "category") current.category
    developer := namedText (named "developer") current.developer
    iconObjectID := namedPointer (named "icon_object_id") current.iconObjectID
    targets := namedTargets (named "targets") current.targets }

section Apply

theorem decodeText_patched (current : String) {value : Option Json} (h : (decodeText value).isSome = true) :
    decodeText (patchedField (if current = "" then none else some (.scalar (.text current))) value) =
      some (namedText value current) := by
  cases value with
  | none =>
    by_cases hempty : current = "" <;> simp [patchedField, namedText, decodeText, hempty]
  | some value =>
    cases value with
    | null => rfl
    | array items => cases h
    | object fields => cases h
    | scalar scalar =>
      cases scalar with
      | text text => rfl
      | integer n => cases h
      | number text => cases h
      | bool b => cases h

theorem decodePointer_patched (current : Option Int) {value : Option Json}
    (h : (decodePointer value).isSome = true) :
    decodePointer (patchedField (current.map (fun id => .scalar (.integer id))) value) =
      some (namedPointer value current) := by
  cases value with
  | none => cases current <;> rfl
  | some value =>
    cases value with
    | null => rfl
    | array items => cases h
    | object fields => cases h
    | scalar scalar =>
      cases scalar with
      | integer n => rfl
      | text text => cases h
      | number text => cases h
      | bool b => cases h

theorem mapM_encoded {α : Type} {encode : α → Json} {decode : Json → Option α}
    (h : ∀ a, decode (encode a) = some a) (as : List α) : (as.map encode).mapM decode = some as := by
  induction as with
  | nil => rfl
  | cons a as ih => simp only [List.map_cons, List.mapM_cons, h, ih, Option.bind_eq_bind, Option.bind_some,
      Option.pure_def]

theorem decodeEnum_encoded {α : Type} {values : List α} {text : α → String} (hall : ∀ a, a ∈ values)
    (hinj : ∀ a b, text a = text b → a = b) (a : α) :
    decodeEnum values text (some (.scalar (.text (text a)))) = some a := by
  simp only [decodeEnum]
  cases hfind : values.find? (fun b => text b = text a) with
  | none =>
    have := List.find?_eq_none.mp hfind a (hall a)
    simp at this
  | some b =>
    have hb : text b = text a := by simpa using List.find?_some hfind
    rw [hinj b a hb]

theorem decodeAction_encoded (action : Action) : decodeAction (.scalar (.text action.text)) = some action := by
  apply decodeEnum_encoded
  · intro action
    cases action <;> decide
  · intro a b h
    cases a <;> cases b <;> first | rfl | exact absurd h (by decide)

theorem decodeSelector_encoded (package : PackageSelector) :
    decodeSelector (some (encodeSelector package)) = some package := by
  have hstrategy : decodeEnum packageStrategyValues PackageStrategy.text
      (some (.scalar (.text package.strategy.text))) = some package.strategy := by
    apply decodeEnum_encoded
    · intro strategy
      cases strategy <;> decide
    · intro a b h
      cases a <;> cases b <;> first | rfl | exact absurd h (by decide)
  obtain ⟨strategy, packageID⟩ := package
  cases packageID <;>
    simp [decodeSelector, encodeSelector, encodeInteger, hstrategy, decodePointer]

theorem decodeInclude_encoded (row : Include) : decodeInclude (encodeInclude row) = some row := by
  have hactions : decodeActions (some (.array (row.actions.map (fun action => .scalar (.text action.text))))) =
      some row.actions := mapM_encoded decodeAction_encoded row.actions
  simp [encodeInclude, decodeInclude, decodeInteger, decodeSelector_encoded, hactions]

theorem decodeLabelRef_encoded (ref : LabelRef) : decodeLabelRef (encodeLabelRef ref) = some ref := by
  simp [encodeLabelRef, decodeLabelRef, decodeInteger]

theorem decodeArray_patched {α : Type} {encode : α → Json} {decode : Json → Option α}
    (hcode : ∀ a, decode (encode a) = some a) (current : List α) {value : Option Json}
    (h : (decodeArray decode value).isSome = true) (hnull : value ≠ some .null) :
    decodeArray decode (patchedField (some (.array (current.map encode))) value) =
      some (namedArray decode value current) := by
  cases value with
  | none => exact mapM_encoded hcode current
  | some value =>
    cases value with
    | null => exact absurd rfl hnull
    | scalar scalar => cases h
    | object fields => cases h
    | array items =>
      obtain ⟨decoded, hdecoded⟩ := Option.isSome_iff_exists.mp h
      simp only [patchedField, merge, namedArray, hdecoded, Option.getD_some]

/-- What a contract says of a field. -/
theorem checkProperties_valueAt {c : Contract} {fields : Fields Scalar} (h : checkProperties c fields = true)
    {key : String} {value : Json} (hvalue : valueAt fields key = some value) :
    ∃ property, c.property key = some property ∧ checkFields property value = true := by
  induction fields with
  | nil => cases hvalue
  | cons field fields ih =>
    obtain ⟨name, first⟩ := field
    simp only [checkProperties, Bool.and_eq_true] at h
    rw [Fields.valueAt_cons] at hvalue
    split_ifs at hvalue with hname
    · obtain rfl := Option.some.inj hvalue
      subst hname
      cases hproperty : c.property name with
      | none => simp [hproperty] at h
      | some property => exact ⟨property, rfl, by simpa [hproperty] using h.1⟩
    · exact ih h.2 hvalue

theorem named_not_null {c : Contract} {fields : Fields Scalar} (h : checkProperties c fields = true)
    {key : String} {property : Contract} (hproperty : c.property key = some property)
    (hnullable : property.nullable = false) : valueAt fields key ≠ some .null := by
  intro hnull
  obtain ⟨property', hproperty', hcheck⟩ := checkProperties_valueAt h hnull
  rw [hproperty] at hproperty'
  obtain rfl := Option.some.inj hproperty'
  rw [checkFields, hnullable] at hcheck
  cases hcheck

theorem decodeTargets_isSome {fields : Fields Scalar} (h : (decodeTargets (some (.object fields))).isSome = true) :
    (decodeArray decodeInclude (valueAt fields "include")).isSome = true ∧
      (decodeArray decodeLabelRef (valueAt fields "exclude")).isSome = true := by
  obtain ⟨targets, htargets⟩ := Option.isSome_iff_exists.mp h
  obtain ⟨includes, hincludes, hrest⟩ := Option.bind_eq_some_iff.mp htargets
  obtain ⟨excludes, hexcludes, -⟩ := Option.bind_eq_some_iff.mp hrest
  exact ⟨Option.isSome_of_eq_some hincludes, Option.isSome_of_eq_some hexcludes⟩

theorem decodeTargets_patched (current : Targets) {value : Option Json}
    (h : (decodeTargets value).isSome = true) (hdistinct : ∀ v ∈ value, v.isDistinct = true)
    (hknown : ∀ v ∈ value, checkFields targetsContract v = true) :
    decodeTargets (patchedField (some (encodeTargets current)) value) = some (namedTargets value current) := by
  have hencoded : valueAt (encodeTargets current).fields "include" =
      some (.array (current.includes.map encodeInclude)) ∧
      valueAt (encodeTargets current).fields "exclude" =
        some (.array (current.excludes.map encodeLabelRef)) := by
    simp [encodeTargets, Value.fields]
  cases value with
  | none =>
    simp only [patchedField, encodeTargets, decodeTargets]
    simp [decodeArray, mapM_encoded decodeInclude_encoded, mapM_encoded decodeLabelRef_encoded, namedTargets]
  | some value =>
    have hcheck := hknown value rfl
    cases value with
    | null => cases hcheck
    | scalar scalar => cases h
    | array items => cases h
    | object fields =>
      rw [checkFields] at hcheck
      obtain ⟨hincludes, hexcludes⟩ := decodeTargets_isSome h
      have hfields := fields_distinct (hdistinct _ rfl)
      have hinclude := decodeArray_patched decodeInclude_encoded current.includes hincludes
        (named_not_null hcheck rfl rfl)
      have hexclude := decodeArray_patched decodeLabelRef_encoded current.excludes hexcludes
        (named_not_null hcheck rfl rfl)
      have hmerged : patchedField (some (encodeTargets current)) (some (.object fields)) =
          some (.object (mergeFields (encodeTargets current).fields fields)) := by
        simp only [patchedField, merge, Option.map_some, Option.getD_some]
      rw [hmerged]
      simp only [decodeTargets, valueAt_mergeFields hfields, hencoded.1, hencoded.2, hinclude, hexclude,
        namedTargets]
      rfl

theorem valueAt_encodeText {key value k : String} :
    valueAt (encodeText key value) k =
      if key = k then (if value = "" then none else some (.scalar (.text value))) else none := by
  simp only [encodeText]
  split_ifs <;> simp [*]

theorem valueAt_encodeInteger {key k : String} {value : Option Int} :
    valueAt (encodeInteger key value) k =
      if key = k then value.map (fun id => .scalar (.integer id)) else none := by
  cases value <;> simp only [encodeInteger] <;> split_ifs <;> simp [*]

/-- The fields of an encoded mutation. -/
theorem encoded_fields (m : UpdateMutation) :
    valueAt (encode m) "display_name" =
        (if m.displayName = "" then none else some (.scalar (.text m.displayName))) ∧
      valueAt (encode m) "description" =
        (if m.description = "" then none else some (.scalar (.text m.description))) ∧
      valueAt (encode m) "category" =
        (if m.category = "" then none else some (.scalar (.text m.category))) ∧
      valueAt (encode m) "developer" =
        (if m.developer = "" then none else some (.scalar (.text m.developer))) ∧
      valueAt (encode m) "icon_object_id" = m.iconObjectID.map (fun id => .scalar (.integer id)) ∧
      valueAt (encode m) "targets" = some (encodeTargets m.targets) := by
  simp [encode, valueAt_encodeText, valueAt_encodeInteger]

/-- What the types of an accepted document are. -/
theorem decode_isSome {fields : Fields Scalar} (h : (decode (.object fields)).isSome = true) :
    (decodeText (valueAt fields "display_name")).isSome = true ∧
      (decodeText (valueAt fields "description")).isSome = true ∧
      (decodeText (valueAt fields "category")).isSome = true ∧
      (decodeText (valueAt fields "developer")).isSome = true ∧
      (decodePointer (valueAt fields "icon_object_id")).isSome = true ∧
      (decodeTargets (valueAt fields "targets")).isSome = true := by
  obtain ⟨m, hm⟩ := Option.isSome_iff_exists.mp h
  obtain ⟨_, hdisplay, hm⟩ := Option.bind_eq_some_iff.mp hm
  obtain ⟨_, hdescription, hm⟩ := Option.bind_eq_some_iff.mp hm
  obtain ⟨_, hcategory, hm⟩ := Option.bind_eq_some_iff.mp hm
  obtain ⟨_, hdeveloper, hm⟩ := Option.bind_eq_some_iff.mp hm
  obtain ⟨_, hicon, hm⟩ := Option.bind_eq_some_iff.mp hm
  obtain ⟨_, htargets, -⟩ := Option.bind_eq_some_iff.mp hm
  exact ⟨Option.isSome_of_eq_some hdisplay, Option.isSome_of_eq_some hdescription,
    Option.isSome_of_eq_some hcategory, Option.isSome_of_eq_some hdeveloper,
    Option.isSome_of_eq_some hicon, Option.isSome_of_eq_some htargets⟩

/-- A document is applied field by field, and never refused by the merged mutation. -/
theorem apply_eq (document : Document) (current : UpdateMutation) :
    document.apply current = some (document.patched current) := by
  obtain ⟨value, hdistinct, hknown, htyped⟩ := document
  cases value with
  | null => cases htyped
  | scalar scalar => cases htyped
  | array items => cases htyped
  | object fields =>
    obtain ⟨hdisplay, hdescription, hcategory, hdeveloper, hicon, htargets⟩ := decode_isSome htyped
    obtain ⟨edisplay, edescription, ecategory, edeveloper, eicon, etargets⟩ := encoded_fields current
    rw [checkFields] at hknown
    have hfields := fields_distinct hdistinct
    have hnested : ∀ v ∈ valueAt fields "targets", v.isDistinct = true :=
      fun v hv => value_distinct hdistinct hv
    have hcontract : ∀ v ∈ valueAt fields "targets", checkFields targetsContract v = true := by
      intro v hv
      obtain ⟨property, hproperty, hcheck⟩ := checkProperties_valueAt hknown hv
      obtain rfl : targetsContract = property := Option.some.inj hproperty
      exact hcheck
    have hmerged : merge (some (.object (encode current))) (.object fields) =
        .object (mergeFields (encode current) fields) := by
      simp only [merge, Option.map_some, Option.getD_some, Value.fields]
    simp only [Document.apply, hmerged, decode, valueAt_mergeFields hfields, edisplay, edescription, ecategory,
      edeveloper, eicon, etargets, decodeText_patched _ hdisplay, decodeText_patched _ hdescription,
      decodeText_patched _ hcategory, decodeText_patched _ hdeveloper, decodePointer_patched _ hicon,
      decodeTargets_patched _ htargets hnested hcontract]
    rfl

end Apply

end SoftwareTitles
