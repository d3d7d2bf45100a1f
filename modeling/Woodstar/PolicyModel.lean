import Woodstar.KeyedRows
import Woodstar.Targeting

/-!
# Policies and their tables

`internal/osquery/policies/model.go` and the tables of the policy migrations. The
CHECK constraints of a table are fields of its row type. What `crypto/sha256` and
`crypto/rand` answer is a parameter.
-/
namespace PolicyModel

open Primitives (Fault bind_eq_ok isText notBlank trimSpace btrimNotEmpty)
open Targeting (LabelSet validateLabelSets)
open KeyedRows (Table)

inductive PolicyStatus where
  | pending | pass | fail | error
  deriving DecidableEq, Repr

structure PolicyRemediationMutation where
  script : String
  automatic : Bool := false
  deriving DecidableEq, Repr

structure PolicyMutation where
  name : String
  query : String
  targets : LabelSet := {}
  remediation : Option PolicyRemediationMutation := none
  deriving DecidableEq, Repr

def PolicyMutation.normalize (p : PolicyMutation) : PolicyMutation :=
  { p with name := trimSpace p.name, query := trimSpace p.query }

/-- The validation `required,notblank` of one field. -/
def requireText (field value : String) : Except Fault Unit :=
  if value = "" then .error (.invalidInput s!"{field} is required")
  else if notBlank value = true then .ok ()
  else .error (.invalidInput s!"{field} must not be blank")

def requireScript : Option PolicyRemediationMutation → Except Fault Unit
  | none => .ok ()
  | some remediation => requireText "Script" remediation.script

def validateTargets (targets : LabelSet) : Except Fault Unit :=
  match validateLabelSets targets with
  | .error message => .error (.invalidInput message)
  | .ok () => .ok ()

def PolicyMutation.validate (p : PolicyMutation) : Except Fault Unit := do
  requireText "Name" p.name
  requireText "Query" p.query
  requireScript p.remediation
  validateTargets p.targets

theorem requireText_ok {field value : String} (h : requireText field value = .ok ()) :
    notBlank value = true := by
  unfold requireText at h
  split_ifs at h with _ hb
  exact hb

theorem requireScript_ok {remediation : PolicyRemediationMutation}
    (h : requireScript (some remediation) = .ok ()) : btrimNotEmpty remediation.script = true :=
  Primitives.btrimNotEmpty_of_notBlank (requireText_ok h)

theorem validateTargets_ok {targets : LabelSet} (h : validateTargets targets = .ok ()) :
    targets.labelIDs.Nodup := by
  unfold validateTargets at h
  cases ht : validateLabelSets targets with
  | error e => simp [ht] at h
  | ok u => exact (Targeting.validateLabelSets_ok.mp ht).2

theorem validate_ok {p : PolicyMutation} (h : p.validate = .ok ()) :
    requireScript p.remediation = .ok () ∧ validateTargets p.targets = .ok () := by
  unfold PolicyMutation.validate at h
  simp only [bind_eq_ok, Unique.exists_iff] at h
  exact h.2.2

/-- The editable columns with their constraints. Validation and the column default
also leave no script that is blank but not empty. -/
structure PolicyWrite where
  name : String
  query : String
  remediationScript : String := ""
  automaticRemediationEnabled : Bool := false
  targets : LabelSet := {}
  automatic_check : automaticRemediationEnabled = true → btrimNotEmpty remediationScript = true
  script_valid : remediationScript = "" ∨ btrimNotEmpty remediationScript = true
  targets_key : targets.labelIDs.Nodup
  deriving DecidableEq, Repr

def newPolicyWrite (p : PolicyMutation) (h : p.validate = .ok ()) : PolicyWrite where
  name := p.name
  query := p.query
  remediationScript := match p.remediation with
    | none => ""
    | some remediation => remediation.script
  automaticRemediationEnabled := match p.remediation with
    | none => false
    | some remediation => remediation.automatic
  targets := p.targets
  automatic_check := by
    have hscript := (validate_ok h).1
    cases hr : p.remediation with
    | none => nofun
    | some remediation =>
      rw [hr] at hscript
      exact fun _ => requireScript_ok hscript
  script_valid := by
    have hscript := (validate_ok h).1
    cases hr : p.remediation with
    | none => exact .inl rfl
    | some remediation =>
      rw [hr] at hscript
      exact .inr (requireScript_ok hscript)
  targets_key := validateTargets_ok (validate_ok h).2

def PolicyWrite.storable (write : PolicyWrite) : Bool :=
  isText write.name && isText write.query && isText write.remediationScript

/-- What Create and Update do with their input before they find a row. -/
def PolicyMutation.checked (p : PolicyMutation) : Except Fault PolicyWrite :=
  match h : p.normalize.validate with
  | .error e => .error e
  | .ok () =>
    let write := newPolicyWrite p.normalize h
    if write.storable = true then .ok write else .error (.database "character_not_in_repertoire")

structure PolicyRow extends PolicyWrite where
  evaluationRevision : Int := 1
  remediationRevision : Int := 1
  evaluation_check : 0 < evaluationRevision
  remediation_check : 0 < remediationRevision
  deriving DecidableEq, Repr

structure MembershipRow where
  status : PolicyStatus := .pending
  lastConclusivePasses : Option Bool := none
  error : String := ""
  lastIssuedSequence : Int := 0
  lastCompletedSequence : Int := 0
  remediationFailureSequence : Int := 0
  sequence_check : 0 ≤ lastIssuedSequence ∧ 0 ≤ lastCompletedSequence ∧
    lastCompletedSequence ≤ lastIssuedSequence
  failure_check : 0 ≤ remediationFailureSequence
  deriving DecidableEq, Repr

/-- The columns that hold a value once `reported_at` does. -/
structure Report where
  output : String
  runtimeSeconds : Int
  exitCode : Int
  runtime_check : 0 ≤ runtimeSeconds
  deriving DecidableEq, Repr

structure RunRow where
  executionID : String
  scriptContents : String
  remediationRevision : Int
  failureSequence : Int
  automatic : Bool
  reported : Option Report := none
  script_check : btrimNotEmpty scriptContents = true
  revision_check : 0 < remediationRevision
  failure_check : 0 < failureSequence
  deriving DecidableEq, Repr

structure HostRow where
  orbitScriptsEnabled : Option Bool := none
  orbitNodeKey : String := ""
  deriving DecidableEq, Repr

/-- `orbit_script_execution_available`. -/
def HostRow.runsScripts (host : HostRow) : Bool :=
  host.orbitScriptsEnabled.getD false && host.orbitNodeKey != ""

/-- The primary key of the membership table and of the runs table. -/
structure Pair where
  policyID : Int
  hostID : Int
  deriving DecidableEq, Repr

/-- `drawn` counts the random tokens generated so far. -/
structure Db where
  labels : Int → Bool := fun _ => false
  labelMembership : Int → Int → Bool := fun _ _ => false
  hosts : Table HostRow := .empty
  policies : Table PolicyRow := .empty
  membership : Pair → Option MembershipRow := fun _ => none
  runs : Pair → Option RunRow := fun _ => none
  drawn : Nat := 0

/-- The view `osquery_policy_assignments`. -/
def Db.assigned (db : Db) (k : Pair) : Bool :=
  match db.policies.row k.policyID with
  | none => false
  | some policy => policy.targets.reaches (fun label => db.labelMembership label k.hostID)

/-- `queryHash` is the SHA-256 of a query in hex, `draw n` the n-th random token. -/
structure Crypto where
  queryHash : String → String
  draw : Nat → String

/-- The first `n` tokens are distinct. -/
def Crypto.DistinctTokens (crypto : Crypto) (n : Nat) : Prop :=
  ∀ i < n, ∀ j < n, crypto.draw i = crypto.draw j → i = j

instance (crypto : Crypto) (n : Nat) : Decidable (crypto.DistinctTokens n) :=
  inferInstanceAs (Decidable (∀ i < n, ∀ j < n, crypto.draw i = crypto.draw j → i = j))

structure Evaluation where
  policyID : Int
  query : String
  revision : Int
  sequence : Int
  deriving DecidableEq, Repr

structure EvaluationResult where
  policyID : Int
  queryHash : String
  revision : Int
  sequence : Int
  status : PolicyStatus
  error : String := ""
  deriving DecidableEq, Repr

end PolicyModel
