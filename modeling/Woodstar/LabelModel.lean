import Woodstar.PolicyModel

/-!
# Labels

`internal/labels/model.go` and the label tables: what a mutation must hold before
the database sees it, and the row it writes.
-/
namespace LabelModel

open Primitives (Fault bind_eq_ok isText notBlank trimSpace btrimNotEmpty)
open PolicyModel (requireText requireText_ok)

inductive LabelType where
  | builtin | regular
  deriving DecidableEq, Repr

inductive LabelMembershipType where
  | dynamic | manual | derived
  deriving DecidableEq, Repr

inductive DerivedAttribute where
  | userDepartment | directoryGroup | user
  deriving DecidableEq, Repr

def LabelMembershipType.ofText : String → Option LabelMembershipType
  | "dynamic" => some .dynamic
  | "manual" => some .manual
  | "derived" => some .derived
  | _ => none

def DerivedAttribute.ofText : String → Option DerivedAttribute
  | "user_department" => some .userDepartment
  | "directory_group" => some .directoryGroup
  | "user" => some .user
  | _ => none

structure Criteria where
  attributeName : String
  values : List String
  deriving DecidableEq, Repr

structure LabelMutation where
  name : String
  description : String := ""
  query : Option String := none
  criteria : Option Criteria := none
  hostIDs : List Int := []
  labelMembershipType : String := ""
  deriving DecidableEq, Repr

def normalizeCriteriaValues (values : List String) : List String :=
  (values.map trimSpace).filter (fun value => value != "")

def Criteria.normalize (c : Criteria) : Criteria where
  attributeName := trimSpace c.attributeName
  values := normalizeCriteriaValues c.values

def LabelMutation.normalize (p : LabelMutation) : LabelMutation where
  name := trimSpace p.name
  description := trimSpace p.description
  query := p.query.map trimSpace
  criteria := p.criteria.map Criteria.normalize
  hostIDs := p.hostIDs
  labelMembershipType :=
    trimSpace (if p.labelMembershipType = "" then "dynamic" else p.labelMembershipType)

def invalid {α : Type} (message : String) : Except Fault α := .error (.invalidInput message)

def validateCriteria : Option Criteria → Except Fault Unit
  | none => invalid "criteria is required for derived labels"
  | some criteria =>
    if DerivedAttribute.ofText criteria.attributeName = none then invalid "unknown derived label attribute"
    else if normalizeCriteriaValues criteria.values = [] then invalid "derived label values are required"
    else .ok ()

def validateDynamicMembership (p : LabelMutation) : Except Fault Unit :=
  if p.query.all (fun query => trimSpace query == "") = true then
    invalid "query is required for dynamic labels"
  else if p.criteria.isSome = true then invalid "criteria is only allowed for derived labels"
  else if p.hostIDs ≠ [] then invalid "hosts are only allowed for manual labels"
  else .ok ()

def validateManualMembership (p : LabelMutation) : Except Fault Unit :=
  if p.query.isSome = true then invalid "query is only allowed for dynamic labels"
  else if p.criteria.isSome = true then invalid "criteria is only allowed for derived labels"
  else .ok ()

def validateDerivedMembership (p : LabelMutation) : Except Fault Unit :=
  if p.query.isSome = true then invalid "query is only allowed for dynamic labels"
  else if p.hostIDs ≠ [] then invalid "hosts are only allowed for manual labels"
  else validateCriteria p.criteria

/-- The membership type that the mutation names, if its other fields fit it. -/
def validateMembershipPairing (p : LabelMutation) : Except Fault LabelMembershipType :=
  match LabelMembershipType.ofText p.labelMembershipType with
  | some .dynamic => do
    validateDynamicMembership p
    return .dynamic
  | some .manual => do
    validateManualMembership p
    return .manual
  | some .derived => do
    validateDerivedMembership p
    return .derived
  | none => invalid "membership type must be dynamic, manual, or derived"

def LabelMutation.validate (p : LabelMutation) : Except Fault LabelMembershipType := do
  requireText "Name" p.name
  validateMembershipPairing p

/-- The CHECK constraint on query and criteria. -/
def shaped (membershipType : LabelMembershipType) (query : Option String) (criteria : Option Criteria) :
    Bool :=
  match membershipType with
  | .dynamic => query.any btrimNotEmpty && criteria.isNone
  | .manual => query.isNone && criteria.isNone
  | .derived => query.isNone && criteria.isSome

/-- The editable columns with their constraint. -/
structure LabelWrite where
  name : String
  description : String
  query : Option String
  criteria : Option Criteria
  labelMembershipType : LabelMembershipType
  shape_check : shaped labelMembershipType query criteria = true
  deriving Repr

theorem validateMembershipPairing_shaped {p : LabelMutation} {t : LabelMembershipType}
    (h : validateMembershipPairing p = .ok t) : shaped t p.query p.criteria = true := by
  unfold validateMembershipPairing at h
  split at h
  · obtain ⟨⟨⟩, hv, ht⟩ := bind_eq_ok.mp h
    cases ht
    unfold validateDynamicMembership invalid at hv
    split_ifs at hv with hq hc
    cases hquery : p.query with
    | none => simp [hquery] at hq
    | some query =>
      have hb : btrimNotEmpty query = true := by
        apply Primitives.btrimNotEmpty_of_notBlank
        simpa [hquery, notBlank] using hq
      simpa [shaped, hb] using hc
  · obtain ⟨⟨⟩, hv, ht⟩ := bind_eq_ok.mp h
    cases ht
    unfold validateManualMembership invalid at hv
    split_ifs at hv with hq hc
    simpa [shaped] using And.intro hq hc
  · obtain ⟨⟨⟩, hv, ht⟩ := bind_eq_ok.mp h
    cases ht
    unfold validateDerivedMembership invalid at hv
    split_ifs at hv with hq hh
    cases hcriteria : p.criteria with
    | none => simp [hcriteria, validateCriteria, invalid] at hv
    | some criteria => simpa [shaped] using hq
  · cases h

theorem validate_shaped {p : LabelMutation} {t : LabelMembershipType} (h : p.validate = .ok t) :
    shaped t p.query p.criteria = true := by
  obtain ⟨⟨⟩, -, hp⟩ := bind_eq_ok.mp h
  exact validateMembershipPairing_shaped hp

def newLabelWrite (p : LabelMutation) (t : LabelMembershipType) (h : p.validate = .ok t) : LabelWrite where
  name := p.name
  description := p.description
  query := p.query
  criteria := p.criteria
  labelMembershipType := t
  shape_check := validate_shaped h

def Criteria.storable (c : Criteria) : Bool := isText c.attributeName && c.values.all isText

def LabelWrite.storable (write : LabelWrite) : Bool :=
  isText write.name && isText write.description && write.query.all isText &&
    write.criteria.all Criteria.storable

/-- What Create and Update do with their input before they find a row. -/
def LabelMutation.checked (p : LabelMutation) : Except Fault LabelWrite :=
  match h : p.normalize.validate with
  | .error e => .error e
  | .ok t =>
    let write := newLabelWrite p.normalize t h
    if write.storable = true then .ok write else .error (.database "character_not_in_repertoire")

structure LabelRow extends LabelWrite where
  labelType : LabelType
  deriving Repr

/-- Only a dynamic label has a query. -/
theorem LabelWrite.dynamic_iff_query (write : LabelWrite) :
    write.labelMembershipType = .dynamic ↔ ∃ query, write.query = some query := by
  have h := write.shape_check
  cases ht : write.labelMembershipType with
  | dynamic =>
    rw [ht] at h
    cases hq : write.query with
    | none => simp [shaped, hq] at h
    | some query => exact iff_of_true rfl ⟨query, rfl⟩
  | manual =>
    rw [ht] at h
    apply iff_of_false nofun
    rintro ⟨query, hq⟩
    simp [shaped, hq] at h
  | derived =>
    rw [ht] at h
    apply iff_of_false nofun
    rintro ⟨query, hq⟩
    simp [shaped, hq] at h

end LabelModel
