import Woodstar.ChildRows
import Woodstar.PackageMutations
import Woodstar.Runs

/-!
# The store of Munki packages

`internal/munki/packages`: the rows that a package is written to, its references, and the
requests that create, change and delete packages, with the deletion of titles
(`internal/munki/software`) that takes their packages along. The numbers that a failed transaction
drew are not missed.
-/
namespace PackageStore

open ChildRows
open KeyedRows
open MergePatches
open PackageMutations
open Primitives
open RankedTables
open RecordCodecs
open Runs
open SoftwareTitles (Scalar Json)

/-- `postgres.JSONSlice` -/
def jsonSlice {α : Type} (I : Item Scalar α) (values : List α) : Json := .array (values.map I.encode)

def scanSlice {α : Type} (I : Item Scalar α) : Json → Option (List α)
  | .null => some []
  | .array items => items.mapM I.decode
  | _ => none

def scanLabels : Json → Option PackageActionLabels
  | .null => some {}
  | .object fields => actionLabels.decode fields
  | _ => none

/-- The columns of `munki_packages`, without the times. -/
structure PackageRow where
  softwareID : Int
  version : String
  installerType : String
  uninstallable : Bool
  uninstallMethod : String
  restartAction : String
  restartActionForUninstall : String
  minimumMunkiVersion : String
  minimumOSVersion : String
  maximumOSVersion : String
  supportedArchitectures : List String
  blockingApplications : List String
  blockingApplicationsNone : Bool
  installableCondition : String
  blockingAppsManualQuit : Bool
  blockingAppsQuitScript : String
  blockingAppsLaunchArgs : Json
  downloadOnLowData : String
  customActionLabels : Json
  unattendedInstall : Bool
  unattendedUninstall : Bool
  onDemand : Bool
  precache : Bool
  autoremove : Bool
  appleItem : Bool
  forceInstallAfterDate : Option Date
  installedSize : Int
  packagePath : String
  installerChoicesXML : Json
  installerEnvironment : Json
  installs : Json
  receipts : Json
  itemsToCopy : Json
  notes : String
  installcheckScript : String
  uninstallcheckScript : String
  preinstallScript : String
  postinstallScript : String
  preuninstallScript : String
  postuninstallScript : String
  uninstallScript : String
  versionScript : String
  preinstallAlertEnabled : Bool
  preinstallAlertTitle : String
  preinstallAlertDetail : String
  preinstallAlertOKLabel : String
  preinstallAlertCancelLabel : String
  preuninstallAlertEnabled : Bool
  preuninstallAlertTitle : String
  preuninstallAlertDetail : String
  preuninstallAlertOKLabel : String
  preuninstallAlertCancelLabel : String
  installerObjectID : Option Int

def newPackageWrite (softwareID : Int) (params : PackageMutation) : PackageRow where
  softwareID := softwareID
  version := params.version
  installerType := params.installerType
  uninstallable := params.uninstallable
  uninstallMethod := params.uninstallMethod
  restartAction := params.restartAction
  restartActionForUninstall := params.restartActionForUninstall
  minimumMunkiVersion := params.minimumMunkiVersion
  minimumOSVersion := params.minimumOSVersion
  maximumOSVersion := params.maximumOSVersion
  supportedArchitectures := params.supportedArchitectures
  blockingApplications := params.blockingApplications
  blockingApplicationsNone := params.blockingApplicationsNone
  installableCondition := params.installableCondition
  blockingAppsManualQuit := params.blockingAppsManualQuit
  blockingAppsQuitScript := params.blockingAppsQuitScript
  blockingAppsLaunchArgs := jsonSlice launchArguments.item params.blockingAppsLaunchArgs
  downloadOnLowData := params.downloadOnLowData
  customActionLabels := .object (actionLabels.encode params.customActionLabels)
  unattendedInstall := params.unattendedInstall
  unattendedUninstall := params.unattendedUninstall
  onDemand := params.onDemand
  precache := params.precache
  autoremove := params.autoremove
  appleItem := params.appleItem
  forceInstallAfterDate := params.forceInstallAfterDate
  installedSize := params.installedSize
  packagePath := params.packagePath
  installerChoicesXML := jsonSlice installerChoice.item params.installerChoicesXML
  installerEnvironment := jsonSlice environmentVariable.item params.installerEnvironment
  installs := jsonSlice installItem.item params.installs
  receipts := jsonSlice receipt.item params.receipts
  itemsToCopy := jsonSlice itemToCopy.item params.itemsToCopy
  notes := params.notes
  installcheckScript := params.installcheckScript
  uninstallcheckScript := params.uninstallcheckScript
  preinstallScript := params.preinstallScript
  postinstallScript := params.postinstallScript
  preuninstallScript := params.preuninstallScript
  postuninstallScript := params.postuninstallScript
  uninstallScript := params.uninstallScript
  versionScript := params.versionScript
  preinstallAlertEnabled := params.preinstallAlert.enabled
  preinstallAlertTitle := params.preinstallAlert.title
  preinstallAlertDetail := params.preinstallAlert.detail
  preinstallAlertOKLabel := params.preinstallAlert.okLabel
  preinstallAlertCancelLabel := params.preinstallAlert.cancelLabel
  preuninstallAlertEnabled := params.preuninstallAlert.enabled
  preuninstallAlertTitle := params.preuninstallAlert.title
  preuninstallAlertDetail := params.preuninstallAlert.detail
  preuninstallAlertOKLabel := params.preuninstallAlert.okLabel
  preuninstallAlertCancelLabel := params.preuninstallAlert.cancelLabel
  installerObjectID := params.installerObjectID

/-- `packageFromRow`, the relations of the package and `Package.Mutation`. -/
def packageMutation (row : PackageRow) (requires updateFor : List PackageReferenceMutation) :
    Option PackageMutation := do
  let blockingAppsLaunchArgs ← scanSlice launchArguments.item row.blockingAppsLaunchArgs
  let customActionLabels ← scanLabels row.customActionLabels
  let installerChoicesXML ← scanSlice installerChoice.item row.installerChoicesXML
  let installerEnvironment ← scanSlice environmentVariable.item row.installerEnvironment
  let installs ← scanSlice installItem.item row.installs
  let receipts ← scanSlice receipt.item row.receipts
  let itemsToCopy ← scanSlice itemToCopy.item row.itemsToCopy
  some
    { version := row.version
      installerType := row.installerType
      unattendedInstall := row.unattendedInstall
      unattendedUninstall := row.unattendedUninstall
      uninstallable := row.uninstallable
      uninstallMethod := row.uninstallMethod
      restartAction := row.restartAction
      restartActionForUninstall := row.restartActionForUninstall
      minimumMunkiVersion := row.minimumMunkiVersion
      minimumOSVersion := row.minimumOSVersion
      maximumOSVersion := row.maximumOSVersion
      supportedArchitectures := row.supportedArchitectures
      blockingApplications := row.blockingApplications
      blockingApplicationsNone := row.blockingApplicationsNone
      installableCondition := row.installableCondition
      blockingAppsManualQuit := row.blockingAppsManualQuit
      blockingAppsQuitScript := row.blockingAppsQuitScript
      blockingAppsLaunchArgs := blockingAppsLaunchArgs
      downloadOnLowData := row.downloadOnLowData
      customActionLabels := customActionLabels
      requires := requires
      updateFor := updateFor
      onDemand := row.onDemand
      precache := row.precache
      autoremove := row.autoremove
      appleItem := row.appleItem
      forceInstallAfterDate := row.forceInstallAfterDate
      installedSize := row.installedSize
      packagePath := row.packagePath
      installerChoicesXML := installerChoicesXML
      installerEnvironment := installerEnvironment
      installs := installs
      receipts := receipts
      itemsToCopy := itemsToCopy
      notes := row.notes
      installcheckScript := row.installcheckScript
      uninstallcheckScript := row.uninstallcheckScript
      preinstallScript := row.preinstallScript
      postinstallScript := row.postinstallScript
      preuninstallScript := row.preuninstallScript
      postuninstallScript := row.postuninstallScript
      uninstallScript := row.uninstallScript
      versionScript := row.versionScript
      preinstallAlert :=
        ⟨row.preinstallAlertEnabled, row.preinstallAlertTitle, row.preinstallAlertDetail, row.preinstallAlertOKLabel,
          row.preinstallAlertCancelLabel⟩
      preuninstallAlert :=
        ⟨row.preuninstallAlertEnabled, row.preuninstallAlertTitle, row.preuninstallAlertDetail,
          row.preuninstallAlertOKLabel, row.preuninstallAlertCancelLabel⟩
      installerObjectID := row.installerObjectID }

theorem scanSlice_jsonSlice {α : Type} (I : Item Scalar α) (values : List α) :
    scanSlice I (jsonSlice I values) = some values :=
  mapM_decode I.decode_encode values

/-- The hand-written columns lose nothing. -/
theorem packageMutation_newPackageWrite (softwareID : Int) (m : PackageMutation) :
    packageMutation (newPackageWrite softwareID m) m.requires m.updateFor = some m := by
  simp only [packageMutation, newPackageWrite, scanSlice_jsonSlice, scanLabels, Record.decode_encode,
    Option.bind_eq_bind, Option.bind_some]

mutual

/-- `jsonb` takes no NUL. -/
def isStorable : Value Scalar → Bool
  | .null => true
  | .scalar (.text value) => isText value
  | .scalar _ => true
  | .array items => areStorable items
  | .object fields => fieldsStorable fields

def areStorable : List (Value Scalar) → Bool
  | [] => true
  | item :: items => isStorable item && areStorable items

def fieldsStorable : List (String × Value Scalar) → Bool
  | [] => true
  | (_, value) :: fields => isStorable value && fieldsStorable fields

end

def PackageRow.texts (row : PackageRow) : List String :=
  [
    row.version, row.installerType, row.uninstallMethod, row.restartAction, row.restartActionForUninstall,
    row.minimumMunkiVersion, row.minimumOSVersion, row.maximumOSVersion, row.installableCondition,
    row.blockingAppsQuitScript, row.downloadOnLowData, row.packagePath, row.notes, row.installcheckScript,
    row.uninstallcheckScript, row.preinstallScript, row.postinstallScript, row.preuninstallScript,
    row.postuninstallScript, row.uninstallScript, row.versionScript, row.preinstallAlertTitle,
    row.preinstallAlertDetail, row.preinstallAlertOKLabel, row.preinstallAlertCancelLabel,
    row.preuninstallAlertTitle, row.preuninstallAlertDetail, row.preuninstallAlertOKLabel,
    row.preuninstallAlertCancelLabel] ++
    row.supportedArchitectures ++ row.blockingApplications

def PackageRow.documents (row : PackageRow) : List Json :=
  [
    row.blockingAppsLaunchArgs, row.customActionLabels, row.installerChoicesXML, row.installerEnvironment,
    row.installs, row.receipts, row.itemsToCopy]

def PackageRow.isStorable (row : PackageRow) : Bool :=
  row.texts.all isText && row.documents.all PackageStore.isStorable

def isArray : Json → Bool
  | .array _ => true
  | _ => false

def isObject : Json → Bool
  | .object _ => true
  | _ => false

/-- `= '[]'::JSONB` -/
def isEmptyArray : Json → Bool
  | .array [] => true
  | _ => false

/-- The CHECK constraints of `munki_packages`. -/
def PackageRow.checks (row : PackageRow) : List (String × Bool) :=
  [
    ("munki_packages_uninstall_method_check", ("" :: uninstallMethodValues).contains row.uninstallMethod),
    ("munki_packages_restart_action_check", ("" :: restartActionValues).contains row.restartAction),
    ("munki_packages_restart_action_for_uninstall_check",
      ("" :: "None" :: restartActionValues).contains row.restartActionForUninstall),
    ("munki_packages_download_on_low_data_check", downloadOnLowDataValues.contains row.downloadOnLowData),
    ("munki_packages_installed_size_check", decide (0 ≤ row.installedSize)),
    ("munki_packages_blocking_applications_none_check",
      !row.blockingApplicationsNone || row.blockingApplications.isEmpty),
    ("munki_packages_blocking_applications_launch_args_check",
      !row.blockingApplicationsNone || isEmptyArray row.blockingAppsLaunchArgs),
    ("munki_packages_installer_object_check",
      row.installerType == "nopkg" && row.installerObjectID.isNone ||
        ["pkg", "copy_from_dmg"].contains row.installerType && row.installerObjectID.isSome),
    ("munki_packages_blocking_applications_with_launch_args_check", isArray row.blockingAppsLaunchArgs),
    ("munki_packages_custom_action_labels_check", isObject row.customActionLabels),
    ("munki_packages_installer_choices_xml_check", isArray row.installerChoicesXML),
    ("munki_packages_installer_environment_check", isArray row.installerEnvironment),
    ("munki_packages_installs_check", isArray row.installs),
    ("munki_packages_receipts_check", isArray row.receipts),
    ("munki_packages_items_to_copy_check", isArray row.itemsToCopy)]

theorem download_mem {m : PackageMutation} (hnormal : m.normalize = m) (hvalid : Valid m) :
    m.downloadOnLowData ∈ downloadOnLowDataValues := by
  cases hvalid.downloadOnLowData with
  | inl h =>
    rw [← hnormal] at h
    exact absurd h (orDefault_ne auto_ne)
  | inr h => exact h

theorem installerType_mem {m : PackageMutation} (hnormal : m.normalize = m) (hvalid : Valid m) :
    m.installerType ∈ installerTypeValues := by
  cases hvalid.installerType with
  | inl h =>
    rw [← hnormal] at h
    exact absurd h (orDefault_ne pkg_ne)
  | inr h => exact h

/-- What validation accepts meets every CHECK. -/
theorem checks_newPackageWrite {m : PackageMutation} (hnormal : m.normalize = m) (hvalid : Valid m)
    (softwareID : Int) : ∀ c ∈ (newPackageWrite softwareID m).checks, c.2 = true := by
  simp only [PackageRow.checks, newPackageWrite, List.forall_mem_cons, List.contains_iff_mem]
  refine ⟨?method, ?restart, ?restartForUninstall, download_mem hnormal hvalid, ?size, ?blocking, ?launch,
    ?object, rfl, rfl, rfl, rfl, rfl, rfl, rfl, fun x hx => absurd hx List.not_mem_nil⟩
  case method => exact List.mem_cons.mpr hvalid.uninstallMethod
  case restart => exact List.mem_cons.mpr hvalid.restartAction
  case restartForUninstall => exact List.mem_cons.mpr hvalid.restartActionForUninstall
  case size => exact decide_eq_true hvalid.installedSize
  case blocking =>
    cases hflag : m.blockingApplicationsNone with
    | false => rfl
    | true =>
      rw [(hvalid.blockingNone hflag).1]
      rfl
  case launch =>
    cases hflag : m.blockingApplicationsNone with
    | false => rfl
    | true =>
      rw [(hvalid.blockingNone hflag).2]
      rfl
  case object =>
    have htype := installerType_mem hnormal hvalid
    have hobject := hvalid.object
    simp only [installerTypeValues, List.mem_cons, List.not_mem_nil, or_false] at htype
    rcases htype with h | h | h <;> cases hid : m.installerObjectID <;> simp_all

/-- A row of `storage_objects`, its prefix as `folder`. -/
structure StorageObject where
  folder : String
  available : Bool := false
  deriving DecidableEq

def ObjectPrefix : String := "munki/packages"

inductive RelationKind where
  | requires
  | updateFor
  deriving DecidableEq, Repr

/-- A row of `munki_package_relations`. -/
structure RelationRow where
  packageID : Int
  relationKind : RelationKind
  targetSoftwareID : Int
  targetPackageID : Option Int
  position : Int
  deriving DecidableEq, Repr

def RelationRow.owner (row : RelationRow) : Int × RelationKind := (row.packageID, row.relationKind)

/-- `pins` are the packages that the targets of a title select. -/
structure Store where
  software : Table Unit := .empty
  objects : Table StorageObject := .empty
  packages : Table PackageRow := .empty
  relations : Table RelationRow := .empty
  pins : List (Int × Int) := []

inductive Failure where
  | invalid (reason : Invalid)
  | softwareID
  | notFound
  | objectPrefix
  | objectUnfinalized
  | objectOwned (ownerID : Int)
  | notText
  | check (name : String)
  | unique (name : String)
  | foreignKey (name : String)
  | referenced
  | softwareReferenced
  | undecodable
  deriving DecidableEq, Repr

/-- What the caller is told, by `postgres.MutationError` where the database refused. -/
def Failure.fault (quote : String → String) : Failure → Fault
  | .invalid reason => .invalidInput (reason.text quote)
  | .softwareID => .invalidInput "SoftwareID must be greater than 0"
  | .notFound => .notFound
  | .objectPrefix => .invalidInput "installer_object_id must reference a package installer"
  | .objectUnfinalized => .invalidInput "installer_object_id must reference a finalized object"
  | .objectOwned ownerID => .conflict s!"installer object is already owned by package {ownerID}"
  | .notText => .database "untranslatable character"
  | .check name => .invalidInput name
  | .unique _ => .alreadyExists
  | .foreignKey _ => .notFound
  | .referenced => .conflict "Munki package is still referenced"
  | .softwareReferenced => .conflict "Munki software is still referenced"
  | .undecodable => .database "decode JSON slice"

namespace Store

/-- A package other than this one that has the object. -/
def owner (s : Store) (objectID packageID : Int) : Option Int :=
  ((entries s.packages).find? (fun e => e.2.installerObjectID == some objectID && e.1 != packageID)).map Prod.fst

def validateAndLockInstallerObject (s : Store) (objectID : Option Int) (packageID : Int) : Except Failure Unit :=
  match objectID with
  | none => .ok ()
  | some objectID =>
    match s.objects.row objectID with
    | none => .error .notFound
    | some object => do
      require (object.folder == ObjectPrefix) .objectPrefix
      require object.available .objectUnfinalized
      match s.owner objectID packageID with
      | some ownerID => .error (.objectOwned ownerID)
      | none => .ok ()

/-- The first CHECK that fails is reported. -/
def checkAll : List (String × Bool) → Except Failure Unit
  | [] => .ok ()
  | (name, ok) :: checks => do
    require ok (.check name)
    checkAll checks

/-- What PostgreSQL asks of a row that is written under `id`. -/
def checkRow (s : Store) (id : Int) (row : PackageRow) : Except Failure Unit := do
  require row.isStorable .notText
  checkAll row.checks
  require (!(entries s.packages).any
    (fun e => e.1 != id && e.2.softwareID == row.softwareID && e.2.version == row.version))
    (.unique "munki_packages_software_id_version_key")
  require (!(entries s.packages).any
    (fun e => e.1 != id && row.installerObjectID.isSome && e.2.installerObjectID == row.installerObjectID))
    (.unique "munki_packages_installer_object_idx")
  require (s.software.row row.softwareID).isSome (.foreignKey "munki_packages_software_id_fkey")
  require (row.installerObjectID.all (fun objectID => (s.objects.row objectID).isSome))
    (.foreignKey "munki_packages_installer_object_id_fkey")

def checkRelation (s : Store) (row : RelationRow) : Except Failure Unit := do
  require (decide (0 ≤ row.position)) (.check "munki_package_relations_position_check")
  require (s.packages.row row.packageID).isSome (.foreignKey "munki_package_relations_package_id_fkey")
  require (row.targetPackageID.all (fun id => (s.packages.row id).isSome))
    (.foreignKey "munki_package_relations_target_package_id_fkey")
  require (s.software.row row.targetSoftwareID).isSome
    (.foreignKey "munki_package_relations_target_software_id_fkey")
  require (row.targetPackageID.all
    (fun id => (s.packages.row id).any (fun target => target.softwareID == row.targetSoftwareID)))
    (.foreignKey "munki_package_relations_target_software_package_fkey")

/-- The inserts of `postgres.ReplaceChildren`, until one fails. -/
def insertRelations (s : Store) : List RelationRow → Except Failure Store
  | [] => .ok s
  | row :: rows => do
    s.checkRelation row
    insertRelations { s with relations := s.relations.insert row } rows

end Store

def optionalPositiveInt64 (value : Int) : Option Int := if value ≤ 0 then none else some value

/-- The positions are converted to 32 bits. -/
def relationRows (packageID : Int) (kind : RelationKind) (references : List PackageReferenceMutation) :
    List RelationRow :=
  references.zipIdx.map (fun (ref, i) =>
    { packageID := packageID
      relationKind := kind
      targetSoftwareID := ref.softwareID
      targetPackageID := optionalPositiveInt64 ref.packageID
      position := (Int32.ofNat i).toInt })

def isOf (packageID : Int) (kind : RelationKind) (row : RelationRow) : Bool :=
  row.packageID == packageID && row.relationKind == kind

def RelationRow.reference (row : RelationRow) : PackageReferenceMutation :=
  ⟨row.targetSoftwareID, row.targetPackageID.getD 0⟩

/-- `ValidateStruct` of the whole, then `Validate` of the mutation. -/
def prepareCreateMutation (softwareID : Int) (m : PackageMutation) : Except Failure PackageMutation := do
  m.normalize.validateFields.mapError .invalid
  require (decide (0 < softwareID)) .softwareID
  m.normalize.validate.mapError .invalid
  .ok m.normalize

def prepareMutation (m : PackageMutation) : Except Failure PackageMutation := do
  m.normalize.validate.mapError .invalid
  .ok m.normalize

namespace Store

def replacePackageRelations (s : Store) (packageID : Int) (kind : RelationKind)
    (references : List PackageReferenceMutation) : Except Failure Store :=
  { s with relations := eraseWhere s.relations (isOf packageID kind) }.insertRelations
    (relationRows packageID kind references)

def writePackageRelations (s : Store) (packageID : Int) (params : PackageMutation) : Except Failure Store := do
  let s ← s.replacePackageRelations packageID .requires params.requires
  s.replacePackageRelations packageID .updateFor params.updateFor

def create (s : Store) (softwareID : Int) (m : PackageMutation) : Except Failure Store := do
  let params ← prepareCreateMutation softwareID m
  s.validateAndLockInstallerObject params.installerObjectID 0
  s.checkRow s.packages.next (newPackageWrite softwareID params)
  { s with packages := s.packages.insert (newPackageWrite softwareID params) }.writePackageRelations
    s.packages.next params

/-- One kind of `packageRelationsByPackage`, joined with the titles. -/
def references (s : Store) (packageID : Int) (kind : RelationKind) : List PackageReferenceMutation :=
  ((children RelationRow.owner RelationRow.position s.relations (packageID, kind)).filter
    (fun row => (s.software.row row.targetSoftwareID).isSome)).map RelationRow.reference

/-- The title of a package and its mutation. -/
def getPackageByID (s : Store) (id : Int) : Except Failure (Int × PackageMutation) :=
  match s.packages.row id with
  | none => .error .notFound
  | some row =>
    if (s.software.row row.softwareID).isSome = true then
      match packageMutation row (s.references id .requires) (s.references id .updateFor) with
      | some m => .ok (row.softwareID, m)
      | none => .error .undecodable
    else .error .notFound

/-- What is written is read again before the commit. -/
def update (s : Store) (id : Int) (mutate : PackageMutation → Option PackageMutation) : Except Failure Store := do
  let (softwareID, current) ← s.getPackageByID id
  let m ← (mutate current).elim (.error .undecodable) .ok
  let params ← prepareMutation m
  s.validateAndLockInstallerObject params.installerObjectID id
  s.checkRow id (newPackageWrite softwareID params)
  let written ← { s with packages := s.packages.modify id (fun _ => newPackageWrite softwareID params) }
    |>.writePackageRelations id params
  let _ ← written.getPackageByID id
  .ok written

/-- A package that a reference of another package or a target still needs. -/
def isReferenced (s : Store) (id : Int) : Bool :=
  (entries s.relations).any (fun e => e.2.targetPackageID == some id) || s.pins.any (fun pin => pin.2 == id)

/-- The relations of the packages go first, then the packages. -/
def withoutRelations (s : Store) (ids : List Int) : Store :=
  { s with relations := eraseWhere s.relations (fun row => ids.contains row.packageID) }

def deleteMany (s : Store) (ids : List Int) : Except Failure Store :=
  if ids.isEmpty = true then .ok s
  else if ids.any (fun id => (s.packages.row id).isSome && (s.withoutRelations ids).isReferenced id) = true then
    .error .referenced
  else .ok { s.withoutRelations ids with packages := eraseAll s.packages ids }

/-- A reference names the title. RESTRICT is asked before the cascade reaches the relations of the
packages that go, so that a reference of such a package counts too. -/
def isTargeted (s : Store) (softwareID : Int) : Bool :=
  (entries s.relations).any (fun e => e.2.targetSoftwareID == softwareID)

/-- The package belongs to one of the titles. -/
def isUnder (s : Store) (softwareIDs : List Int) (id : Int) : Bool :=
  (s.packages.row id).any (fun row => softwareIDs.contains row.softwareID)

/-- The packages of the titles, the relations of these packages and the targets go with them. -/
def withoutSoftware (s : Store) (ids : List Int) : Store :=
  { s with
    software := eraseAll s.software ids
    packages := eraseWhere s.packages (fun row => ids.contains row.softwareID)
    relations := eraseWhere s.relations (fun row => s.isUnder ids row.packageID)
    pins := s.pins.filter (fun pin => !ids.contains pin.1) }

/-- `DeleteMany` of the titles. -/
def deleteManySoftware (s : Store) (ids : List Int) : Except Failure Store :=
  if ids.isEmpty = true then .ok s
  else if ids.any (fun id => (s.software.row id).isSome && s.isTargeted id) = true then .error .softwareReferenced
  else .ok (s.withoutSoftware ids)

/-- `Delete` of a title. -/
def deleteSoftware (s : Store) (id : Int) : Except Failure Store := do
  let deleted ← s.deleteManySoftware [id]
  require (s.software.row id).isSome .notFound
  .ok deleted

end Store

/-- The requests of the package store, and what else happens to the rows it depends on: `pin` is
the part of a new list of targets that names packages. -/
inductive Request (times : DateTexts) where
  | create (softwareID : Int) (m : PackageMutation)
  | update (id : Int) (m : PackageMutation)
  | patch (id : Int) (document : Patch times)
  | deleteMany (ids : List Int)
  | addSoftware
  | deleteSoftware (id : Int)
  | deleteManySoftware (ids : List Int)
  | addObject (folder : String)
  | finalizeObject (id : Int)
  | deleteObject (id : Int)
  | pin (softwareID : Int) (ids : List Int)

variable {times : DateTexts}

def serve (s : Store) : Request times → Except Failure Store
  | .create softwareID m => s.create softwareID m
  | .update id m => s.update id (fun _ => some m)
  | .patch id document => s.update id document.apply
  | .deleteMany ids => s.deleteMany ids
  | .addSoftware => .ok { s with software := s.software.insert () }
  | .deleteSoftware id => s.deleteSoftware id
  | .deleteManySoftware ids => s.deleteManySoftware ids
  | .addObject folder => .ok { s with objects := s.objects.insert { folder := folder } }
  | .finalizeObject id =>
    .ok { s with objects := s.objects.modify id (fun object => { object with available := true }) }
  | .deleteObject id =>
    if (entries s.packages).any (fun e => e.2.installerObjectID == some id) = true then .error .referenced
    else .ok { s with objects := s.objects.erase id }
  | .pin softwareID ids => do
    require (ids.all (fun id => (s.packages.row id).any (fun row => row.softwareID == softwareID)))
      (.foreignKey "munki_software_targets_pinned_package_software_fkey")
    .ok { s with pins := s.pins.filter (fun pin => pin.1 != softwareID) ++ ids.map (Prod.mk softwareID) }

/-- A failed request is rolled back. -/
def step (s : Store) (r : Request times) : Store :=
  match serve s r with
  | .ok s' => s'
  | .error _ => s

end PackageStore
