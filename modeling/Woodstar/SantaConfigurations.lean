import Mathlib.Data.List.Sort
import Woodstar.RankedTables
import Woodstar.Runs
import Woodstar.Targeting

/-!
# Santa configurations

`internal/santa/configurations`: the store of configurations in an order of priority, their
labels, and the one that a host is sent. Every transaction is one step. A request is refused
whole, with the error of its first check.
-/
namespace SantaConfigurations

open KeyedRows (Table)
open Primitives
open RankedTables
open Targeting (Direction LabelRef LabelSet)

/-- A type of the schema: its values and how they are written. -/
structure Enumeration (α : Type) where
  values : List α
  text : α → String
  complete : ∀ a, a ∈ values
  distinct : ∀ a b, text a = text b → a = b

section Enumeration

variable {α : Type} (kind : Enumeration α) {s : String} {a : α}

/-- The `oneof` validation. -/
def Enumeration.oneof (s : String) : Bool := kind.values.any (fun a => kind.text a == s)

/-- The cast of a text. -/
def Enumeration.cast (s : String) : Option α := kind.values.find? (fun a => kind.text a == s)

variable {kind}

theorem Enumeration.text_of_cast (h : kind.cast s = some a) : kind.text a = s := by
  simpa using List.find?_some h

theorem Enumeration.cast_text (a : α) : kind.cast (kind.text a) = some a := by
  cases h : kind.cast (kind.text a) with
  | none =>
    have hne := List.find?_eq_none.mp h a (kind.complete a)
    simp at hne
  | some b => rw [kind.distinct b a (Enumeration.text_of_cast h)]

theorem Enumeration.cast_of_oneof (h : kind.oneof s = true) : ∃ a, kind.cast s = some a ∧ kind.text a = s := by
  obtain ⟨a, -, htext⟩ := List.any_eq_true.mp h
  have hs : kind.text a = s := by simpa using htext
  exact ⟨a, hs ▸ Enumeration.cast_text a, hs⟩

end Enumeration

inductive ClientMode where
  | monitor | lockdown | standalone
  deriving DecidableEq, Repr

def clientModes : Enumeration ClientMode where
  values := [.monitor, .lockdown, .standalone]
  text
    | .monitor => "monitor"
    | .lockdown => "lockdown"
    | .standalone => "standalone"
  complete := by intro a; cases a <;> decide
  distinct := by intro a b; cases a <;> cases b <;> decide

inductive FileAccessAction where
  | none | auditOnly | disable
  deriving DecidableEq, Repr

def fileAccessActions : Enumeration FileAccessAction where
  values := [.none, .auditOnly, .disable]
  text
    | .none => "none"
    | .auditOnly => "audit_only"
    | .disable => "disable"
  complete := by intro a; cases a <;> decide
  distinct := by intro a b; cases a <;> cases b <;> decide

inductive RemovableMediaAction where
  | allow | block | remount
  deriving DecidableEq, Repr

def removableMediaActions : Enumeration RemovableMediaAction where
  values := [.allow, .block, .remount]
  text
    | .allow => "allow"
    | .block => "block"
    | .remount => "remount"
  complete := by intro a; cases a <;> decide
  distinct := by intro a b; cases a <;> cases b <;> decide

inductive RemountFlag where
  | readOnly | noExec | noSUID | noBrowse | noOwners | noDev | noJournal | async
  deriving DecidableEq, Repr

def remountFlags : Enumeration RemountFlag where
  values := [.readOnly, .noExec, .noSUID, .noBrowse, .noOwners, .noDev, .noJournal, .async]
  text
    | .readOnly => "rdonly"
    | .noExec => "noexec"
    | .noSUID => "nosuid"
    | .noBrowse => "nobrowse"
    | .noOwners => "noowners"
    | .noDev => "nodev"
    | .noJournal => "-j"
    | .async => "async"
  complete := by intro a; cases a <;> decide
  distinct := by intro a b; cases a <;> cases b <;> decide

/-- The flags are nil or a slice. -/
structure RemovableMediaPolicy where
  action : String
  remountFlags : Option (List String) := none
  deriving DecidableEq, Repr

structure SyncSettings where
  clientMode : String
  enableBundles : Bool := false
  enableTransitiveRules : Bool := false
  enableAllEventUpload : Bool := false
  disableUnknownEventUpload : Bool := false
  overrideFileAccessAction : String
  fullSyncIntervalSeconds : Int
  batchSize : Int
  allowedPathRegex : Option String := none
  blockedPathRegex : Option String := none
  removableMediaPolicy : Option RemovableMediaPolicy := none
  encryptedRemovableMediaPolicy : Option RemovableMediaPolicy := none
  eventDetailURL : Option String := none
  eventDetailText : Option String := none
  deriving DecidableEq, Repr

structure ConfigurationMutation where
  settings : SyncSettings
  name : String
  description : String := ""
  targets : LabelSet := {}
  deriving DecidableEq, Repr

def normalizeOptionalString (value : Option String) : Option String :=
  value.bind (fun value => if trimSpace value = "" then none else some (trimSpace value))

/-- The place of a flag; an unknown one counts as the first. -/
def flagOrder (flag : String) : Nat :=
  match remountFlags.cast flag with
  | some flag => remountFlags.values.idxOf flag
  | none => 0

def normalizeRemovableMediaPolicy (policy : RemovableMediaPolicy) : RemovableMediaPolicy where
  action := trimSpace policy.action
  remountFlags := policy.remountFlags.map (fun flags =>
    (flags.map trimSpace).insertionSort (fun left right => flagOrder left ≤ flagOrder right))

def ConfigurationMutation.normalize (p : ConfigurationMutation) : ConfigurationMutation where
  settings :=
    { p.settings with
      allowedPathRegex := normalizeOptionalString p.settings.allowedPathRegex
      blockedPathRegex := normalizeOptionalString p.settings.blockedPathRegex
      removableMediaPolicy := p.settings.removableMediaPolicy.map normalizeRemovableMediaPolicy
      encryptedRemovableMediaPolicy := p.settings.encryptedRemovableMediaPolicy.map normalizeRemovableMediaPolicy
      eventDetailURL := normalizeOptionalString p.settings.eventDetailURL
      eventDetailText := normalizeOptionalString p.settings.eventDetailText }
  name := trimSpace p.name
  description := trimSpace p.description
  targets := p.targets

def validateFlags (flags : List String) (index : Nat) : Except Fault Unit :=
  match flags with
  | [] => .ok ()
  | flag :: flags => do
    check (remountFlags.oneof flag)
      s!"RemountFlags[{index}] must be one of rdonly noexec nosuid nobrowse noowners nodev -j async"
    validateFlags flags (index + 1)

theorem validateFlags_ok {flags : List String} {index : Nat} :
    validateFlags flags index = .ok () ↔ ∀ flag ∈ flags, remountFlags.oneof flag = true := by
  induction flags generalizing index with
  | nil => simp [validateFlags]
  | cons flag flags ih =>
    simp only [validateFlags, bind_unit_ok, check_ok, ih, List.forall_mem_cons]

/-- A slice counts as present as soon as it is not nil. -/
def RemovableMediaPolicy.validate (policy : RemovableMediaPolicy) : Except Fault Unit := do
  check (policy.action != "") "Action is required"
  check (removableMediaActions.oneof policy.action) "Action must be one of allow block remount"
  check (policy.action == "remount" || policy.remountFlags.isNone) "RemountFlags is not allowed"
  check (policy.action != "remount" || policy.remountFlags.isSome) "RemountFlags is required"
  check (decide (policy.remountFlags.getD []).Nodup) "RemountFlags must not contain duplicates"
  validateFlags (policy.remountFlags.getD []) 0

def validatePolicy (policy : Option RemovableMediaPolicy) : Except Fault Unit :=
  match policy with
  | none => .ok ()
  | some policy => policy.validate

/-- The fields in the order of the source. `httpsURL` is the check of that name. -/
def ConfigurationMutation.validate (httpsURL : String → Bool) (p : ConfigurationMutation) : Except Fault Unit := do
  check (p.settings.clientMode != "") "ClientMode is required"
  check (clientModes.oneof p.settings.clientMode) "ClientMode must be one of monitor lockdown standalone"
  check (p.settings.overrideFileAccessAction != "") "OverrideFileAccessAction is required"
  check (fileAccessActions.oneof p.settings.overrideFileAccessAction)
    "OverrideFileAccessAction must be one of none audit_only disable"
  check (decide (60 ≤ p.settings.fullSyncIntervalSeconds)) "FullSyncIntervalSeconds must be at least 60"
  check (decide (5 ≤ p.settings.batchSize)) "BatchSize must be at least 5"
  check (decide (p.settings.batchSize ≤ 100)) "BatchSize must be at most 100"
  validatePolicy p.settings.removableMediaPolicy
  validatePolicy p.settings.encryptedRemovableMediaPolicy
  check (p.settings.eventDetailURL.all httpsURL) "EventDetailURL must be an HTTPS URL"
  check (p.name != "") "Name is required"
  check (notBlank p.name) "Name must not be blank"
  match Targeting.validateLabelSets p.targets with
  | .ok () => .ok ()
  | .error message => .error (.invalidInput message)

structure ConfigurationRow where
  name : String
  description : String
  position : Int
  clientMode : ClientMode
  enableBundles : Bool
  enableTransitiveRules : Bool
  enableAllEventUpload : Bool
  disableUnknownEventUpload : Bool
  overrideFileAccessAction : FileAccessAction
  fullSyncIntervalSeconds : Int
  batchSize : Int
  allowedPathRegex : Option String
  blockedPathRegex : Option String
  removableMediaAction : Option RemovableMediaAction
  removableMediaRemountFlags : Option (List RemountFlag)
  encryptedRemovableMediaAction : Option RemovableMediaAction
  encryptedRemovableMediaRemountFlags : Option (List RemountFlag)
  eventDetailURL : Option String
  eventDetailText : Option String
  deriving DecidableEq, Repr

structure TargetRow where
  configurationID : Int
  labelID : Int
  direction : Direction
  position : Int
  deriving DecidableEq, Repr

/-- `membership` is of a label and a host. -/
structure State where
  configurations : Table ConfigurationRow := .empty
  targets : List TargetRow := []
  labels : Table String := .empty
  membership : Int → Int → Bool := fun _ _ => false

def removableMediaWriteFields (policy : Option RemovableMediaPolicy) : Option String × Option (List String) :=
  match policy with
  | none => (none, none)
  | some policy =>
    if policy.action ≠ "remount" then (some policy.action, none)
    else (some policy.action, some (policy.remountFlags.getD []))

/-- The casts of the two columns. -/
def castPolicy (fields : Option String × Option (List String)) :
    Option (Option RemovableMediaAction × Option (List RemountFlag)) := do
  let action ← match fields.1 with
    | none => some none
    | some action => (removableMediaActions.cast action).map some
  let flags ← match fields.2 with
    | none => some none
    | some flags => (flags.mapM remountFlags.cast).map some
  return (action, flags)

/-- The row of `newConfigurationWrite`, once its texts are cast to the types of the columns. -/
def newConfigurationWrite (p : ConfigurationMutation) (position : Int) : Option ConfigurationRow := do
  let clientMode ← clientModes.cast p.settings.clientMode
  let overrideFileAccessAction ← fileAccessActions.cast p.settings.overrideFileAccessAction
  let removable ← castPolicy (removableMediaWriteFields p.settings.removableMediaPolicy)
  let encrypted ← castPolicy (removableMediaWriteFields p.settings.encryptedRemovableMediaPolicy)
  return {
    name := p.name
    description := p.description
    position := position
    clientMode := clientMode
    enableBundles := p.settings.enableBundles
    enableTransitiveRules := p.settings.enableTransitiveRules
    enableAllEventUpload := p.settings.enableAllEventUpload
    disableUnknownEventUpload := p.settings.disableUnknownEventUpload
    overrideFileAccessAction := overrideFileAccessAction
    fullSyncIntervalSeconds := p.settings.fullSyncIntervalSeconds
    batchSize := p.settings.batchSize
    allowedPathRegex := p.settings.allowedPathRegex
    blockedPathRegex := p.settings.blockedPathRegex
    removableMediaAction := removable.1
    removableMediaRemountFlags := removable.2
    encryptedRemovableMediaAction := encrypted.1
    encryptedRemovableMediaRemountFlags := encrypted.2
    eventDetailURL := p.settings.eventDetailURL
    eventDetailText := p.settings.eventDetailText }

/-- The CHECK of an action and its flags. -/
def policyCheck : Option RemovableMediaAction → Option (List RemountFlag) → Bool
  | some .remount, some flags =>
    0 < flags.length && flags.length == (remountFlags.values.filter (fun flag => flag ∈ flags)).length
  | some .remount, none => false
  | _, flags => flags.isNone

def ConfigurationRow.texts (row : ConfigurationRow) : List String :=
  [row.name, row.description] ++
    [row.allowedPathRegex, row.blockedPathRegex, row.eventDetailURL, row.eventDetailText].filterMap id

/-- The constraints of a row but for its place, and the name that no other row has. -/
def writeRow (s : State) (id : Int) (row : ConfigurationRow) : Except Fault ConfigurationRow := do
  require (row.texts.all isText) (.database "invalid byte sequence for encoding")
  check (decide (60 ≤ row.fullSyncIntervalSeconds)) "santa_configurations_full_sync_interval_seconds_check"
  check (decide (5 ≤ row.batchSize ∧ row.batchSize ≤ 100)) "santa_configurations_batch_size_check"
  check (row.allowedPathRegex.all btrimNotEmpty) "santa_configurations_allowed_path_regex_check"
  check (row.blockedPathRegex.all btrimNotEmpty) "santa_configurations_blocked_path_regex_check"
  check (row.eventDetailURL.all btrimNotEmpty) "santa_configurations_event_detail_url_check"
  check (row.eventDetailText.all btrimNotEmpty) "santa_configurations_event_detail_text_check"
  check (policyCheck row.removableMediaAction row.removableMediaRemountFlags)
    "santa_configurations_removable_media_policy_check"
  check (policyCheck row.encryptedRemovableMediaAction row.encryptedRemovableMediaRemountFlags)
    "santa_configurations_encrypted_removable_media_policy_check"
  require (!(entries s.configurations).any (fun other => other.1 != id && other.2.name == row.name)) .alreadyExists
  return row

def targetWrites (configurationID : Int) (targets : LabelSet) : List TargetRow :=
  targets.includes.mapIdx (fun i ref => ⟨configurationID, ref.labelID, .included, i⟩) ++
    targets.excludes.mapIdx (fun i ref => ⟨configurationID, ref.labelID, .excluded, i⟩)

def replaceConfigurationTargets (s : State) (configurationID : Int) (targets : LabelSet) : Except Fault State := do
  let rows := targetWrites configurationID targets
  require (decide (rows.map TargetRow.labelID).Nodup) .alreadyExists
  require (rows.all (fun row => (s.labels.row row.labelID).isSome)) .notFound
  return { s with targets := s.targets.filter (fun row => row.configurationID ≠ configurationID) ++ rows }

def create (httpsURL : String → Bool) (s : State) (params : ConfigurationMutation) : Except Fault State := do
  let p := params.normalize
  let position := nextRank ConfigurationRow.position s.configurations
  p.validate httpsURL
  require (decide (position ≤ 2147483647)) (.database "integer out of range")
  match newConfigurationWrite p position with
  | none => throw (.invalidInput "invalid input value for enum")
  | some row =>
    let row ← writeRow s s.configurations.next row
    replaceConfigurationTargets { s with configurations := s.configurations.insert row }
      s.configurations.next p.targets

/-- An update leaves the position. -/
def update (httpsURL : String → Bool) (s : State) (id : Int) (params : ConfigurationMutation) : Except Fault State := do
  let p := params.normalize
  p.validate httpsURL
  match s.configurations.row id with
  | none => throw .notFound
  | some old =>
    match newConfigurationWrite p old.position with
    | none => throw (.invalidInput "invalid input value for enum")
    | some row =>
      let row ← writeRow s id row
      replaceConfigurationTargets { s with configurations := s.configurations.modify id (fun _ => row) } id p.targets

/-- Targets go with their configuration. -/
def deleteMany (s : State) (ids : List Int) : State :=
  { s with
    configurations := eraseAll s.configurations ids
    targets := s.targets.filter (fun row => row.configurationID ∉ ids) }

def delete (s : State) (id : Int) : Except Fault State :=
  if (s.configurations.row id).isSome = true then .ok (deleteMany s [id]) else .error .notFound

/-- The rows are numbered from one in negative numbers, then moved to where they belong. Without a
row, as many are renumbered as there are, whatever the list. -/
def reorderConfigurations (s : State) (orderedIDs : List Int) : Except Fault State :=
  let total := s.configurations.ids.length
  let requested := orderedIDs.length
  let distinctRequested := orderedIDs.dedup.length
  let matched := (orderedIDs.filter (fun id => (s.configurations.row id).isSome)).length
  let (updated, negated) :=
    if total = requested ∧ requested = distinctRequested ∧ requested = matched then
      (matched, updateAll s.configurations (fun id row => { row with position := -(orderedIDs.idxOf id + 1 : Int) }))
    else (0, s.configurations)
  if updated = total then
    .ok { s with configurations := updateAll negated (fun _ row => { row with position := -row.position - 1 }) }
  else .error (.invalidInput "ordered_ids must exactly match existing configuration IDs")

inductive Event where
  | create (params : ConfigurationMutation)
  | update (id : Int) (params : ConfigurationMutation)
  | delete (id : Int)
  | deleteMany (ids : List Int)
  | reorder (orderedIDs : List Int)
  | createLabel (name : String)
  | renameLabel (id : Int) (name : String)
  | deleteLabel (id : Int)
  | setMembership (labelID hostID : Int) (member : Bool)

/-- A label that a configuration names is not deleted. -/
def deleteLabel (s : State) (id : Int) : Except Fault State :=
  if s.targets.any (fun row => row.labelID == id) then .error (.conflict "Label is still referenced")
  else .ok { s with labels := s.labels.erase id }

def attempt (httpsURL : String → Bool) (s : State) : Event → Except Fault State
  | .create params => create httpsURL s params
  | .update id params => update httpsURL s id params
  | .delete id => delete s id
  | .deleteMany ids => .ok (deleteMany s ids)
  | .reorder orderedIDs => reorderConfigurations s orderedIDs
  | .createLabel name => .ok { s with labels := s.labels.insert name }
  | .renameLabel id name => .ok { s with labels := s.labels.modify id (fun _ => name) }
  | .deleteLabel id => deleteLabel s id
  | .setMembership labelID hostID member =>
    .ok { s with membership := fun label host =>
      if label = labelID ∧ host = hostID then member else s.membership label host }

def step (httpsURL : String → Bool) (s : State) (e : Event) : State :=
  match attempt httpsURL s e with
  | .ok s' => s'
  | .error _ => s

structure Configuration where
  settings : SyncSettings
  id : Int
  name : String
  description : String
  position : Int
  targets : LabelSet
  deriving DecidableEq, Repr

def removableMediaPolicyFromRow (action : Option RemovableMediaAction) (flags : Option (List RemountFlag)) :
    Option RemovableMediaPolicy :=
  action.map (fun action =>
    { action := removableMediaActions.text action, remountFlags := some ((flags.getD []).map remountFlags.text) })

def configurationFromRow (id : Int) (row : ConfigurationRow) : Configuration where
  settings :=
    { clientMode := clientModes.text row.clientMode
      enableBundles := row.enableBundles
      enableTransitiveRules := row.enableTransitiveRules
      enableAllEventUpload := row.enableAllEventUpload
      disableUnknownEventUpload := row.disableUnknownEventUpload
      overrideFileAccessAction := fileAccessActions.text row.overrideFileAccessAction
      fullSyncIntervalSeconds := row.fullSyncIntervalSeconds
      batchSize := row.batchSize
      allowedPathRegex := row.allowedPathRegex
      blockedPathRegex := row.blockedPathRegex
      removableMediaPolicy :=
        removableMediaPolicyFromRow row.removableMediaAction row.removableMediaRemountFlags
      encryptedRemovableMediaPolicy :=
        removableMediaPolicyFromRow row.encryptedRemovableMediaAction row.encryptedRemovableMediaRemountFlags
      eventDetailURL := row.eventDetailURL
      eventDetailText := row.eventDetailText }
  id := id
  name := row.name
  description := row.description
  position := row.position
  targets := {}

/-- `ORDER BY configuration_id, direction, position`; an include comes before an exclude. -/
def TargetRow.Before (a b : TargetRow) : Prop :=
  a.configurationID < b.configurationID ∨ a.configurationID = b.configurationID ∧
    (a.direction = .included ∧ b.direction = .excluded ∨ a.direction = b.direction ∧ a.position ≤ b.position)

instance TargetRow.decidableBefore : DecidableRel TargetRow.Before :=
  fun a b => inferInstanceAs (Decidable (a.configurationID < b.configurationID ∨
    a.configurationID = b.configurationID ∧ (a.direction = .included ∧ b.direction = .excluded ∨
      a.direction = b.direction ∧ a.position ≤ b.position)))

def addTarget (targets : LabelSet) (row : TargetRow) : LabelSet :=
  match row.direction with
  | .included => { targets with includes := targets.includes ++ [⟨row.labelID⟩] }
  | .excluded => { targets with excludes := targets.excludes ++ [⟨row.labelID⟩] }

/-- Every row of the query goes to the configuration it names. -/
def attachConfigurationTargets (s : State) (configurations : List Configuration) : List Configuration :=
  let ids := configurations.map Configuration.id
  let rows := (s.targets.filter (fun row => row.configurationID ∈ ids)).insertionSort TargetRow.Before
  configurations.map (fun configuration =>
    { configuration with
      targets := (rows.filter (fun row => row.configurationID = configuration.id)).foldl addTarget {} })

/-- All pages of `List` in its default order, without a search. -/
def list (s : State) : List Configuration :=
  attachConfigurationTargets s ((ordered ConfigurationRow.position (entries s.configurations)).map
    (fun entry => configurationFromRow entry.1 entry.2))

def getByID (s : State) (id : Int) : Except Fault Configuration :=
  if id ≤ 0 then .error .notFound
  else match s.configurations.row id with
    | none => .error .notFound
    | some row =>
      match attachConfigurationTargets s [configurationFromRow id row] with
      | configuration :: _ => .ok configuration
      | [] => .error .notFound

structure LabelMatch where
  id : Int
  name : String
  deriving DecidableEq, Repr

structure ConfigurationMatch where
  configuration : Configuration
  matchedViaLabel : LabelMatch
  deriving DecidableEq, Repr

/-- The first included label of the configuration that the host holds. -/
def matchedLabel (s : State) (hostID configurationID : Int) : Option LabelMatch :=
  let rows := s.targets.filter (fun row => decide (row.configurationID = configurationID) &&
    decide (row.direction = .included) && s.membership row.labelID hostID)
  let labels := rows.filterMap (fun row => (s.labels.row row.labelID).map (fun name =>
    (row.position, LabelMatch.mk row.labelID name)))
  ((labels.insertionSort (fun a b => a.1 ≤ b.1)).head?).map Prod.snd

def isExcluded (s : State) (hostID configurationID : Int) : Bool :=
  s.targets.any (fun row => decide (row.configurationID = configurationID) &&
    decide (row.direction = .excluded) && s.membership row.labelID hostID)

def resolveConfigurationForHost (s : State) (hostID : Int) : Option ConfigurationMatch :=
  let rows := (entries s.configurations).filter (fun entry =>
    (matchedLabel s hostID entry.1).isSome && !isExcluded s hostID entry.1)
  (ordered ConfigurationRow.position rows).head?.bind (fun entry =>
    (matchedLabel s hostID entry.1).map (fun label => ⟨configurationFromRow entry.1 entry.2, label⟩))

def resolveConfigurationForHostWithTargets (s : State) (hostID : Int) : Option ConfigurationMatch :=
  (resolveConfigurationForHost s hostID).bind (fun found =>
    (attachConfigurationTargets s [found.configuration]).head?.map (fun configuration =>
      { found with configuration := configuration }))

end SantaConfigurations
