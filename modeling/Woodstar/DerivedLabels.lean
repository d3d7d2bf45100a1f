import Mathlib.Data.List.AList
import Mathlib.Data.List.MinMax
import Mathlib.Data.Prod.Lex
import Woodstar.GoText
import Woodstar.LabelModel
import Woodstar.ReadCommitted

/-!
# Derived labels

`internal/labels/store.go` and the stores that refresh derived membership: the tables that
decide it, the statements of their transactions, and the membership that the tables declare.
A unique index that refuses a statement is a rollback, which may come at any step.
-/
namespace DerivedLabels

open Primitives (trimSpace)
open LabelModel
open KeyedRows (Table)

inductive Source where
  | sourceLocal | sourceEntra
  deriving DecidableEq, Repr

inductive PrimaryUserSource where
  | manual | orbitProfile
  deriving DecidableEq, Repr

structure User where
  email : String
  source : Source := .sourceLocal
  externalID : Option String := none
  userPrincipalName : Option String := none
  department : Option String := none
  deleted : Bool := false
  deriving DecidableEq, Repr

/-- `groups` is a group's source and external id, the columns that are unique. A row of
`groupMembers` has the user first, one of `members` the label. -/
structure Db where
  hosts : List Int := []
  labels : AList (fun _ : Int => LabelRow) := ∅
  members : List (Int × Int) := []
  sources : AList (fun _ : Int × PrimaryUserSource => String) := ∅
  users : AList (fun _ : Int => User) := ∅
  groups : List (Source × String) := []
  groupMembers : List (Int × Source × String) := []

/-- A missing label or host stands for all of them. -/
structure Scope where
  labelID : Option Int := none
  hostID : Option Int := none
  deriving DecidableEq, Repr

def Scope.covers (scope : Scope) (labelID hostID : Int) : Bool :=
  scope.labelID.all (fun id => id == labelID) && scope.hostID.all (fun id => id == hostID)

/-- The order of `primaryUserSourceOrderSQL`. -/
def PrimaryUserSource.order : PrimaryUserSource → Nat
  | .manual => 0
  | .orbitProfile => 1

/-- `SELECT DISTINCT ON (host_id)` in that order. -/
def preferred (db : Db) (hostID : Int) : Option String :=
  [PrimaryUserSource.manual, .orbitProfile].findSome? (fun source => db.sources.lookup (hostID, source))

def User.answersTo (user : User) (email : String) : Bool :=
  !user.deleted && (user.email == email || user.userPrincipalName == some email)

-- The instances are spelled out: the order of `Int` that is found first may be noncomputable.
instance rankOrder : LinearOrder (Nat ×ₗ Nat ×ₗ Int) :=
  @Prod.Lex.instLinearOrder Nat (Nat ×ₗ Int) Nat.instLinearOrder
    (@Prod.Lex.instLinearOrder Nat Int Nat.instLinearOrder Int.instLinearOrder)

instance rankPreorder : Preorder (Nat ×ₗ Nat ×ₗ Int) := rankOrder.toPreorder

instance rankDecidableLT : DecidableLT (Nat ×ₗ Nat ×ₗ Int) := rankOrder.toDecidableLT

/-- An e-mail match before a UPN match, a provider's user before a local one, the lowest id. -/
def userOrder (email : String) (entry : Int × User) : Nat ×ₗ Nat ×ₗ Int :=
  toLex (if entry.2.email = email then 0 else 1,
    toLex (if entry.2.source ≠ .sourceLocal then 0 else 1, entry.1))

def candidates (db : Db) (email : String) : List (Int × User) :=
  (db.users.entries.map (fun entry => (entry.1, entry.2))).filter (fun entry => entry.2.answersTo email)

/-- The rows of `resolved`. -/
def resolved (db : Db) (hostID : Int) : Option (Int × User) :=
  (preferred db hostID).bind (fun email => (candidates db email).argmin (userOrder email))

def btrim (s : String) : String :=
  String.ofList (((s.toList.dropWhile (fun c => c == ' ')).reverse.dropWhile (fun c => c == ' ')).reverse)

def criteriaValues (criteria : Criteria) : List String :=
  (criteria.values.map btrim).filter (fun value => value != "")

def criteriaMatch (db : Db) (criteria : Criteria) (userID : Int) (user : User) : Bool :=
  let values := criteriaValues criteria
  match DerivedAttribute.ofText criteria.attributeName with
  | some .userDepartment => values.contains (user.department.getD "")
  | some .directoryGroup =>
    db.groupMembers.any (fun row => row.1 == userID && db.groups.contains row.2 && values.contains row.2.2)
  | some .user => values.contains (String.ofList (GoText.formatInt userID))
  | none => false

def isDerived (row : LabelRow) : Bool := row.labelMembershipType == .derived

def labelMatch (db : Db) (row : LabelRow) (userID : Int) (user : User) : Bool :=
  row.criteria.any (fun criteria => criteriaMatch db criteria userID user)

/-- The derived labels of `listDerivedLabels`. -/
def derivedLabels (db : Db) (scope : Scope) : List (Int × LabelRow) :=
  (db.labels.entries.map (fun entry => (entry.1, entry.2))).filter (fun entry =>
    isDerived entry.2 && scope.labelID.all (fun id => id == entry.1))

def primaryHosts (db : Db) (scope : Scope) : List Int :=
  ((db.sources.keys.map Prod.fst).filter (fun hostID => scope.hostID.all (fun id => id == hostID))).dedup

/-- The rows of `matching_memberships`. -/
def matching (db : Db) (scope : Scope) : List (Int × Int) :=
  (derivedLabels db scope).flatMap (fun label =>
    ((primaryHosts db scope).filter (fun hostID =>
      (resolved db hostID).any (fun entry => labelMatch db label.2 entry.1 entry.2))).map
        (fun hostID => (label.1, hostID)))

/-- `insertMember` is an INSERT that no conflict clause saves. -/
inductive Change where
  | putLabel (id : Int) (write : LabelWrite)
  | setLabel (id : Int) (write : LabelWrite)
  | dropLabel (id : Int)
  | putSource (key : Int × PrimaryUserSource) (email : String)
  | dropSource (key : Int × PrimaryUserSource)
  | putUser (id : Int) (user : User)
  | lockUser (id : Int)
  | tombstoneUser (id : Int)
  | dropUser (id : Int)
  | putGroup (key : Source × String)
  | dropGroup (key : Source × String)
  | putGroupMember (row : Int × Source × String)
  | dropGroupMember (row : Int × Source × String)
  | insertMember (row : Int × Int)
  | putMember (row : Int × Int)
  | dropMember (row : Int × Int)

inductive Lock where
  | label (id : Int)
  | labelGone (id : Int)
  | source (key : Int × PrimaryUserSource)
  | user (id : Int)
  | userGone (id : Int)
  | external (source : Source) (externalID : String)
  | group (key : Source × String)
  | groupGone (key : Source × String)
  | groupMember (row : Int × Source × String)
  | member (row : Int × Int)
  deriving DecidableEq, Repr

/-- A child row waits for its parent's deletion, and a deletion for new child rows. -/
def Lock.isParent : Lock → Lock → Bool
  | .labelGone id, .member row => row.1 == id
  | .userGone id, .groupMember row => row.1 == id
  | .groupGone key, .groupMember row => row.2 == key
  | _, _ => false

def Lock.meets (a b : Lock) : Bool := a == b || a.isParent b || b.isParent a

/-- The row that ON CONFLICT (source, external_id) finds. -/
def Db.external (db : Db) (source : Source) (externalID : Option String) : Option Int :=
  (db.users.entries.find? (fun entry =>
    externalID.isSome && entry.2.source == source && entry.2.externalID == externalID)).map Sigma.fst

def labelRow (write : LabelWrite) : LabelRow := { write with labelType := .regular }

def Change.apply (db : Db) : Change → Db
  | .putLabel id write => { db with labels := db.labels.insert id (labelRow write) }
  | .setLabel id write =>
    match db.labels.lookup id with
    | some row => { db with labels := db.labels.insert id { write with labelType := row.labelType } }
    | none => db
  | .dropLabel id => { db with
      labels := db.labels.erase id
      members := db.members.filter (fun row => decide (row.1 ≠ id)) }
  | .putSource key email => { db with sources := db.sources.insert key email }
  | .dropSource key => { db with sources := db.sources.erase key }
  | .putUser id user =>
    { db with users := db.users.insert ((db.external user.source user.externalID).getD id) user }
  | .lockUser _ => db
  | .tombstoneUser id =>
    match db.users.lookup id with
    | some user => { db with users := db.users.insert id { user with deleted := true } }
    | none => db
  | .dropUser id => { db with
      users := db.users.erase id
      groupMembers := db.groupMembers.filter (fun row => decide (row.1 ≠ id)) }
  | .putGroup key => { db with groups := db.groups.insert key }
  | .dropGroup key => { db with
      groups := db.groups.filter (fun other => decide (other ≠ key))
      groupMembers := db.groupMembers.filter (fun row => decide (row.2 ≠ key)) }
  | .putGroupMember row => { db with groupMembers := db.groupMembers.insert row }
  | .dropGroupMember row =>
    { db with groupMembers := db.groupMembers.filter (fun other => decide (other ≠ row)) }
  | .insertMember row => { db with members := db.members.insert row }
  | .putMember row => { db with members := db.members.insert row }
  | .dropMember row => { db with members := db.members.filter (fun other => decide (other ≠ row)) }

def Db.regular (db : Db) (id : Int) : Bool :=
  (db.labels.lookup id).any (fun row => row.labelType == .regular)

def Db.active (db : Db) (id : Int) : Bool := (db.users.lookup id).any (fun user => !user.deleted)

/-- The foreign keys, the primary key of an insert, and the row that a statement returns. -/
def Change.fits (db : Db) : Change → Bool
  | .setLabel id _ => db.regular id
  | .dropLabel id => db.regular id
  | .putSource key _ => db.hosts.contains key.1
  | .lockUser id => db.active id
  | .putGroupMember row => (db.users.lookup row.1).isSome && db.groups.contains row.2
  | .insertMember row =>
    (db.labels.lookup row.1).isSome && db.hosts.contains row.2 && !db.members.contains row
  | .putMember row => (db.labels.lookup row.1).isSome && db.hosts.contains row.2
  | _ => true

def Change.locks (db : Db) : Change → List Lock
  | .putLabel id _ => [.label id]
  | .setLabel id _ => [.label id]
  | .dropLabel id => [.label id, .labelGone id]
  | .putSource key _ => [.source key]
  | .dropSource key => [.source key]
  | .putUser id user =>
    .user ((db.external user.source user.externalID).getD id) ::
      (user.externalID.map (Lock.external user.source)).toList
  | .lockUser id => [.user id]
  | .tombstoneUser id => [.user id]
  | .dropUser id => [.user id, .userGone id]
  | .putGroup key => [.group key]
  | .dropGroup key => [.group key, .groupGone key]
  | .putGroupMember row => [.groupMember row]
  | .dropGroupMember row => [.groupMember row]
  | .insertMember row => [.member row]
  | .putMember row => [.member row]
  | .dropMember row => [.member row]

structure ProviderUser where
  externalID : String
  userPrincipalName : String
  mail : String := ""
  department : String := ""
  enabled : Bool := true
  groupExternalIDs : List String := []
  deriving DecidableEq, Repr

structure ProviderSnapshot where
  users : List ProviderUser := []
  groups : List String := []
  deriving DecidableEq, Repr

def nullString (value : String) : Option String := if value = "" then none else some value

/-- `DISTINCT ON (external_id) ... ORDER BY external_id, position DESC`. -/
def latest {α : Type} (externalID : α → String) : List α → List α
  | [] => []
  | row :: rows =>
    if rows.any (fun later => externalID later == externalID row) = true then latest externalID rows
    else row :: latest externalID rows

def ProviderUser.row (source : Source) (p : ProviderUser) : User where
  email := (nullString (trimSpace p.mail)).getD (trimSpace p.userPrincipalName)
  source := source
  externalID := some p.externalID
  userPrincipalName := some (trimSpace p.userPrincipalName)
  department := nullString p.department
  deleted := !p.enabled

/-- The snapshot of a statement is a copy of the one that was staged. `firstID` is the first
id that the statement draws. -/
inductive Statement where
  | insertLabel (id : Int) (write : LabelWrite)
  | updateLabel (id : Int) (write : LabelWrite)
  | deleteLabel (id : Int)
  | deleteMembership (labelID : Int)
  | insertMembership (labelID : Int) (hostIDs : List Int)
  | upsertPrimaryUser (hostID : Int) (source : PrimaryUserSource) (email : String)
  | deletePrimaryUser (hostID : Int) (source : PrimaryUserSource)
  | upsertGroups (source : Source) (groups : List String)
  | deleteGroups (source : Source) (groups : List String)
  | tombstoneUsers (source : Source)
  | upsertUsers (source : Source) (firstID : Int) (users : List ProviderUser)
  | deleteGroupMemberships (source : Source)
  | insertGroupMemberships (source : Source) (users : List ProviderUser)
  | insertUser (id : Int) (email : String)
  | selectUserForUpdate (id : Int)
  | deleteUser (id : Int)
  | listDerivedLabels (scope : Scope)
  | deleteDerivedMemberships (scope : Scope)
  | insertDerivedMemberships (scope : Scope)

def isOk {ε α : Type} : Except ε α → Bool
  | .ok _ => true
  | .error _ => false

/-- What a statement finds when it starts. -/
def Statement.start (db : Db) : Statement → Option (List Change)
  | .insertLabel id write => some [.putLabel id write]
  | .updateLabel id write => if db.regular id = true then some [.setLabel id write] else none
  | .deleteLabel id => if db.regular id = true then some [.dropLabel id] else none
  | .deleteMembership labelID =>
    some ((db.members.filter (fun row => decide (row.1 = labelID))).map .dropMember)
  | .insertMembership labelID hostIDs =>
    if hostIDs.Nodup then some (hostIDs.map (fun hostID => .insertMember (labelID, hostID))) else none
  | .upsertPrimaryUser hostID source email => some [.putSource (hostID, source) email]
  | .deletePrimaryUser hostID source =>
    if (db.sources.lookup (hostID, source)).isSome = true then some [.dropSource (hostID, source)]
    else if db.hosts.contains hostID = true then some []
    else none
  | .upsertGroups source groups => some ((latest id groups).map (fun group => .putGroup (source, group)))
  | .deleteGroups source groups =>
    some ((db.groups.filter (fun key => key.1 == source && !groups.contains key.2)).map .dropGroup)
  | .tombstoneUsers source =>
    some ((db.users.entries.filter (fun entry => entry.2.source == source && !entry.2.deleted)).map
      (fun entry => .tombstoneUser entry.1))
  | .upsertUsers source firstID users =>
    some ((latest ProviderUser.externalID users).zipIdx.map
      (fun entry => .putUser (firstID + entry.2) (entry.1.row source)))
  | .deleteGroupMemberships source =>
    some ((db.groupMembers.filter (fun row => row.2.1 == source &&
      (db.users.lookup row.1).any (fun user => user.source == source))).map .dropGroupMember)
  | .insertGroupMemberships source users =>
    some ((latest ProviderUser.externalID users).flatMap (fun p =>
      (db.external source (some p.externalID)).toList.flatMap (fun userID =>
        ((p.groupExternalIDs.filter (fun group => db.groups.contains (source, group))).dedup).map
          (fun group => .putGroupMember (userID, source, group)))))
  | .insertUser id email => some [.putUser id { email := email }]
  | .selectUserForUpdate id => if db.active id = true then some [.lockUser id] else none
  | .deleteUser id =>
    (db.users.lookup id).map (fun user =>
      if user.source = .sourceLocal then [.dropUser id] else [.tombstoneUser id])
  | .listDerivedLabels scope =>
    if (derivedLabels db scope).all (fun label => isOk (validateCriteria label.2.criteria)) = true then some []
    else none
  | .deleteDerivedMemberships scope =>
    some ((db.members.filter (fun row =>
      (db.labels.lookup row.1).any isDerived && scope.covers row.1 row.2)).map .dropMember)
  | .insertDerivedMemberships scope => some ((matching db scope).map .putMember)

def system : ReadCommitted.System Db Statement Change Lock where
  start := Statement.start
  fits := Change.fits
  apply := Change.apply
  locks := Change.locks
  meets := Lock.meets

def refreshDerivedTx (scope : Scope) : List Statement :=
  [.listDerivedLabels scope, .deleteDerivedMemberships scope, .insertDerivedMemberships scope]

def replaceMembership (labelID : Int) (write : LabelWrite) (hostIDs : List Int) : List Statement :=
  match write.labelMembershipType with
  | .manual =>
    .deleteMembership labelID :: (if hostIDs = [] then [] else [.insertMembership labelID hostIDs])
  | .derived => refreshDerivedTx { labelID := some labelID }
  | .dynamic => [.deleteMembership labelID]

/-- The writers of the tables. The e-mail addresses passed their validation. -/
inductive Operation where
  | create (p : LabelMutation)
  | update (id : Int) (p : LabelMutation)
  | delete (id : Int)
  | upsertPrimaryUser (hostID : Int) (email : String) (source : PrimaryUserSource)
  | deletePrimaryUser (hostID : Int) (source : PrimaryUserSource)
  | applyProviderSnapshot (source : Source) (snapshot : ProviderSnapshot)
  | createUser (email : String)
  | deleteUser (id : Int)
  | refreshDerived

/-- The next values of the two id sequences. -/
structure Sequences where
  label : Int := 1
  user : Int := 1
  deriving DecidableEq, Repr

def reconcile (source : Source) (snapshot : ProviderSnapshot) (firstID : Int) : List Statement :=
  [.upsertGroups source snapshot.groups, .deleteGroups source snapshot.groups, .tombstoneUsers source,
    .upsertUsers source firstID snapshot.users, .deleteGroupMemberships source,
    .insertGroupMemberships source snapshot.users]

/-- The pairs that an operation can change, its statements, and the sequences after it drew
its ids. BEGIN reads nothing, so the draws may as well come first. -/
def Operation.begin (seqs : Sequences) : Operation → Option (Scope × List Statement × Sequences)
  | .create p =>
    match p.checked with
    | .error _ => none
    | .ok write => some ({ labelID := some seqs.label },
        .insertLabel seqs.label write :: replaceMembership seqs.label write p.hostIDs,
        { seqs with label := seqs.label + 1 })
  | .update id p =>
    match p.checked with
    | .error _ => none
    | .ok write => some ({ labelID := some id },
        .updateLabel id write :: replaceMembership id write p.hostIDs, seqs)
  | .delete id => some ({ labelID := some id }, [.deleteLabel id], seqs)
  | .upsertPrimaryUser hostID email source => some ({ hostID := some hostID },
      .upsertPrimaryUser hostID source (trimSpace email) :: refreshDerivedTx { hostID := some hostID }, seqs)
  | .deletePrimaryUser hostID source => some ({ hostID := some hostID },
      .deletePrimaryUser hostID source :: refreshDerivedTx { hostID := some hostID }, seqs)
  | .applyProviderSnapshot source snapshot =>
    if source = .sourceLocal then none
    else some ({}, reconcile source snapshot seqs.user ++ refreshDerivedTx {},
      { seqs with user := seqs.user + (latest ProviderUser.externalID snapshot.users).length })
  | .createUser email => some ({}, .insertUser seqs.user (trimSpace email) :: refreshDerivedTx {},
      { seqs with user := seqs.user + 1 })
  | .deleteUser id => some ({}, .selectUserForUpdate id :: .deleteUser id :: refreshDerivedTx {}, seqs)
  | .refreshDerived => some ({}, refreshDerivedTx {}, seqs)

abbrev Tx := ReadCommitted.Tx Scope Statement Change Lock

structure World where
  base : ReadCommitted.World Db Scope Statement Change Lock
  seqs : Sequences := {}

inductive Event where
  | start (op : Operation)
  | next (t : Int)
  | finish (t : Int)
  | commit (t : Int)
  | rollback (t : Int)

/-- The step of the transactions that an event is, and the sequences after it. -/
def Event.base (seqs : Sequences) : Event → Option (ReadCommitted.Event Scope Statement × Sequences)
  | .start op => (op.begin seqs).map (fun begun => (.begin begun.1 begun.2.1, begun.2.2))
  | .next t => some (.next t, seqs)
  | .finish t => some (.finish t, seqs)
  | .commit t => some (.commit t, seqs)
  | .rollback t => some (.rollback t, seqs)

/-- A request that is refused begins no transaction. -/
def step (w : World) (e : Event) : World :=
  match e.base w.seqs with
  | some (base, seqs) => { base := ReadCommitted.step system w.base base, seqs := seqs }
  | none => w

end DerivedLabels
