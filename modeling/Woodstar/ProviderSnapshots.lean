import Mathlib.Data.Finset.Basic
import Mathlib.Data.String.Basic
import Woodstar.DerivedLabels
import Woodstar.KeyedUpserts
import Woodstar.LatestRows

/-!
# Provider snapshots

`internal/directory/provider_store.go`: the tables of the directory and the transaction that
applies a provider's snapshot to them. Text is ordered by its code points, which decides only
in which order new rows get their ids.
-/
namespace ProviderSnapshots

open DerivedLabels (Source PrimaryUserSource nullString)
open KeyedRows (Table)
open KeyedUpserts (Upsert putAll putAllChecked find keep isDistinct)
open LabelModel (LabelRow validateCriteria)
open LatestRows (distinctOn)
open Primitives (Fault trimSpace isText)

structure User where
  email : String
  name : String := ""
  apiKey : Option String := none
  source : Source := .sourceLocal
  externalID : Option String := none
  userPrincipalName : Option String := none
  mailNickname : Option String := none
  givenName : Option String := none
  familyName : Option String := none
  department : Option String := none
  deletedAt : Option Int := none
  updatedAt : Int := 0
  deriving DecidableEq, Repr

structure Group where
  source : Source
  externalID : String
  displayName : String
  mailNickname : Option String := none
  updatedAt : Int := 0
  deriving DecidableEq, Repr

/-- A membership has the user first, a role assignment the user or the group, a label member
the label. -/
structure Tables where
  users : Table User := .empty
  groups : Table Group := .empty
  memberships : Finset (Int × Int) := ∅
  userRoles : Finset (Int × Int) := ∅
  groupRoles : Finset (Int × Int) := ∅
  labels : AList (fun _ : Int => LabelRow) := ∅
  hosts : List Int := []
  primaryUsers : AList (fun _ : Int × PrimaryUserSource => String) := ∅
  labelMembers : Finset (Int × Int) := ∅

/-- `UNIQUE (source, external_id)`. -/
def userKey (user : User) : Option (Source × String) := user.externalID.map (fun e => (user.source, e))

def groupKey (group : Group) : Option (Source × String) := some (group.source, group.externalID)

/-- The rows of the partial indexes on providers' users. -/
def User.indexed (user : User) : Bool := user.deletedAt.isNone && decide (user.source ≠ .sourceLocal)

/-- `users_active_provider_email_idx`. -/
def providerEmail (user : User) : Option String := if user.indexed = true then some user.email else none

/-- `users_active_provider_upn_idx`. -/
def providerUPN (user : User) : Option String :=
  if user.indexed = true then user.userPrincipalName else none

/-- `users_active_local_email_idx`. -/
def localEmail (user : User) : Option String :=
  if user.deletedAt = none ∧ user.source = .sourceLocal then some user.email else none

structure ProviderUser where
  externalID : String
  userPrincipalName : String := ""
  mail : String := ""
  mailNickname : String := ""
  displayName : String := ""
  givenName : String := ""
  familyName : String := ""
  department : String := ""
  enabled : Bool := true
  groupExternalIDs : List String := []
  deriving DecidableEq, Repr

structure ProviderGroup where
  externalID : String
  displayName : String := ""
  mailNickname : String := ""
  deriving DecidableEq, Repr

structure ProviderSnapshot where
  users : List ProviderUser := []
  groups : List ProviderGroup := []
  deriving DecidableEq, Repr

/-- A row of `directory_group_snapshot` but its position. -/
structure GroupSnapshot where
  externalID : String
  displayName : String
  mailNickname : Option String
  deriving DecidableEq

/-- A row of `directory_user_snapshot` but its position. -/
structure UserSnapshot where
  externalID : String
  userPrincipalName : String
  mail : Option String
  mailNickname : Option String
  displayName : String
  givenName : Option String
  familyName : Option String
  department : Option String
  enabled : Bool
  groupExternalIDs : List String
  deriving DecidableEq

def ProviderGroup.staged (group : ProviderGroup) : GroupSnapshot where
  externalID := group.externalID
  displayName := group.displayName
  mailNickname := nullString group.mailNickname

def ProviderUser.staged (user : ProviderUser) : UserSnapshot where
  externalID := user.externalID
  userPrincipalName := trimSpace user.userPrincipalName
  mail := nullString (trimSpace user.mail)
  mailNickname := nullString user.mailNickname
  displayName := user.displayName
  givenName := nullString user.givenName
  familyName := nullString user.familyName
  department := nullString user.department
  enabled := user.enabled
  groupExternalIDs := user.groupExternalIDs

def GroupSnapshot.texts (row : GroupSnapshot) : List String :=
  [row.externalID, row.displayName] ++ row.mailNickname.toList

def UserSnapshot.texts (row : UserSnapshot) : List String :=
  [row.externalID, row.userPrincipalName, row.displayName] ++
    [row.mail, row.mailNickname, row.givenName, row.familyName, row.department].flatMap Option.toList ++
    row.groupExternalIDs

/-- PostgreSQL takes every text. -/
def ProviderSnapshot.storable (snapshot : ProviderSnapshot) : Bool :=
  snapshot.groups.all (fun group => group.staged.texts.all isText) &&
    snapshot.users.all (fun user => user.staged.texts.all isText)

/-- The two temporary tables, their rows with their positions. -/
structure Staged where
  groups : List (GroupSnapshot × Nat)
  users : List (UserSnapshot × Nat)

inductive SnapshotError where
  | message (text : String)
  | database (constraint : String)
  | label (fault : Fault)
  deriving DecidableEq, Repr

def ProviderSnapshot.staged (snapshot : ProviderSnapshot) : Staged where
  groups := (snapshot.groups.map ProviderGroup.staged).zipIdx
  users := (snapshot.users.map ProviderUser.staged).zipIdx

def stageProviderSnapshot (snapshot : ProviderSnapshot) : Except SnapshotError Staged :=
  if snapshot.storable = true then .ok snapshot.staged
  else .error (.database "character_not_in_repertoire")

section

variable (now : Int) (source : Source)

def groupUpsert : Upsert Group GroupSnapshot (Source × String) where
  key := groupKey
  slot row := (source, row.externalID)
  make row :=
    { source := source, externalID := row.externalID, displayName := row.displayName,
      mailNickname := row.mailNickname, updatedAt := now }
  merge row group :=
    { group with displayName := row.displayName, mailNickname := row.mailNickname, updatedAt := now }
  key_make _ := rfl
  key_merge _ _ h := h

/-- The rows of groups that are gone go with them. -/
def reconcileGroupSnapshot (staged : Staged) (t : Tables) : Tables :=
  let groups := keep
    (fun group => !(decide (group.source = source) &&
      !staged.groups.any (fun row => decide (row.1.externalID = group.externalID))))
    (putAll (groupUpsert now source) t.groups (distinctOn GroupSnapshot.externalID staged.groups))
  { t with
    groups := groups
    memberships := t.memberships.filter (fun row => (groups.row row.2).isSome = true)
    groupRoles := t.groupRoles.filter (fun row => (groups.row row.1).isSome = true) }

/-- The current generation of the provider's users is deleted first. -/
def tombstone (user : User) : User :=
  if user.source = source ∧ user.deletedAt = none then
    { user with deletedAt := some now, updatedAt := now }
  else user

def userUpsert : Upsert User UserSnapshot (Source × String) where
  key := userKey
  slot row := (source, row.externalID)
  make row :=
    { email := row.mail.getD row.userPrincipalName, name := row.displayName, source := source,
      externalID := some row.externalID, userPrincipalName := some row.userPrincipalName,
      mailNickname := row.mailNickname, givenName := row.givenName, familyName := row.familyName,
      department := row.department, deletedAt := if row.enabled = true then none else some now,
      updatedAt := now }
  merge row user :=
    { user with
      email := row.mail.getD row.userPrincipalName, name := row.displayName,
      userPrincipalName := some row.userPrincipalName, mailNickname := row.mailNickname,
      givenName := row.givenName, familyName := row.familyName, department := row.department,
      deletedAt := if row.enabled = true then none else some now, updatedAt := now }
  key_make _ := rfl
  key_merge _ _ h := h

def checkIndexes (users : Table User) : Except SnapshotError Unit :=
  if isDistinct providerEmail users = false then .error (.database "users_active_provider_email_idx")
  else if isDistinct providerUPN users = false then .error (.database "users_active_provider_upn_idx")
  else .ok ()

def reconcileUserSnapshot (staged : Staged) (t : Tables) : Except SnapshotError Tables :=
  (putAllChecked (userUpsert now source) checkIndexes (t.users.map (tombstone now source))
    (distinctOn UserSnapshot.externalID staged.users)).map (fun users => { t with users := users })

/-- The memberships of the provider's users in its groups, rebuilt from the snapshot. -/
def reconcileGroupMembershipSnapshot (staged : Staged) (t : Tables) : Tables :=
  let kept := t.memberships.filter (fun row =>
    ¬((t.users.row row.1).any (fun user => decide (user.source = source)) = true ∧
      (t.groups.row row.2).any (fun group => decide (group.source = source)) = true))
  let listed := (distinctOn UserSnapshot.externalID staged.users).flatMap (fun row =>
    (find userKey t.users (source, row.externalID)).toList.flatMap (fun userID =>
      row.groupExternalIDs.flatMap (fun externalID =>
        (find groupKey t.groups (source, externalID)).toList.map (fun groupID => (userID, groupID)))))
  { t with memberships := kept ∪ listed.toFinset }

end

/-- What the refresh of derived labels reads of a user. -/
def User.view (user : User) : DerivedLabels.User where
  email := user.email
  source := user.source
  externalID := user.externalID
  userPrincipalName := user.userPrincipalName
  department := user.department
  deleted := user.deletedAt.isSome

/-- The tables as the refresh of derived labels reads them. -/
def Tables.view (t : Tables) : DerivedLabels.Db where
  hosts := t.hosts
  labels := t.labels
  sources := t.primaryUsers
  users := (t.users.ids.filterMap (fun id => (t.users.row id).map (fun user => ⟨id, user.view⟩))).toAList
  groups := t.groups.ids.filterMap (fun id => (t.groups.row id).bind groupKey)
  groupMembers := t.users.ids.flatMap (fun userID =>
    (t.groups.ids.filter (fun groupID => decide ((userID, groupID) ∈ t.memberships))).filterMap (fun groupID =>
      (t.groups.row groupID).map (fun group => (userID, group.source, group.externalID))))

def checkLabels : List (Int × LabelRow) → Except SnapshotError Unit
  | [] => .ok ()
  | label :: labels => do
    (validateCriteria label.2.criteria).mapError SnapshotError.label
    checkLabels labels

/-- `RefreshDerivedTx` of `internal/labels/store.go`. -/
def refreshDerivedTx (t : Tables) : Except SnapshotError Tables := do
  checkLabels (DerivedLabels.derivedLabels t.view {})
  .ok { t with
    labelMembers :=
      t.labelMembers.filter (fun row => ¬(t.labels.lookup row.1).any DerivedLabels.isDerived = true) ∪
        (DerivedLabels.matching t.view {}).toFinset }

def reconcile (now : Int) (source : Source) (staged : Staged) (t : Tables) : Except SnapshotError Tables :=
  (reconcileUserSnapshot now source staged (reconcileGroupSnapshot now source staged t)).map
    (reconcileGroupMembershipSnapshot source staged)

def applyProviderSnapshot (now : Int) (source : Source) (snapshot : ProviderSnapshot) (t : Tables) :
    Except SnapshotError Tables :=
  if source = .sourceLocal then
    .error (.message "directory: local source cannot apply provider snapshot")
  else do
    let staged ← stageProviderSnapshot snapshot
    let reconciled ← reconcile now source staged t
    refreshDerivedTx reconciled

/-- What is left after `pgx.BeginFunc`: an error rolls back. -/
def committed (t : Tables) (outcome : Except SnapshotError Tables) : Tables :=
  match outcome with
  | .ok t' => t'
  | .error _ => t

end ProviderSnapshots
