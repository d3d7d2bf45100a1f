import Mathlib.Data.Fin.VecNotation
import Mathlib.Data.Fintype.Basic
import Mathlib.Tactic.FinCases
import Woodstar.RecordCodecs
import Woodstar.Rfc3339
import Woodstar.SoftwareTitles

/-!
# Mutations of Munki packages

`internal/munki/packages/model.go`: the editable fields of a package, their JSON and its merge
patches, normalization and validation. A nil slice and an empty one are one list. Objects of a
document that repeat a key are left out, and so is what `huma.Validate` checks beyond the types.
-/
namespace PackageMutations

open MergePatches
open Primitives
open RecordCodecs
open SoftwareTitles (Scalar Json)
open TextPieces (trimSpace_trimSpace)

/-- The instants, in nanoseconds since 1970, that have a year of four digits in UTC. -/
structure Date where
  nanoseconds : Int
  from_year_zero : -62167219200000000000 ≤ nanoseconds
  to_year_9999 : nanoseconds < 253402300800000000000
  deriving DecidableEq

/-- `UTC().Truncate(time.Microsecond)`. -/
def Date.truncate (date : Date) : Date where
  nanoseconds := date.nanoseconds / 1000 * 1000
  from_year_zero := by
    have := date.from_year_zero
    omega
  to_year_9999 := by
    have := date.to_year_9999
    omega

theorem Date.truncate_truncate (date : Date) : date.truncate.truncate = date.truncate := by
  simp only [truncate, mk.injEq]
  omega

/-- How `encoding/json` writes and reads a date. -/
structure DateTexts where
  format : Date → String
  parse : String → Option Date
  parse_format : ∀ date, parse (format date) = some date

def Date.ofNanoseconds (n : Int) : Option Date :=
  if h : -62167219200000000000 ≤ n ∧ n < 253402300800000000000 then some ⟨n, h.1, h.2⟩ else none

theorem Date.ofNanoseconds_nanoseconds (date : Date) : ofNanoseconds date.nanoseconds = some date :=
  dif_pos ⟨date.from_year_zero, date.to_year_9999⟩

/-- The texts of `time.Time`, without those that only the lenient `time.Parse` reads. -/
def rfc3339 : DateTexts where
  format date := String.ofList (Rfc3339.format date.nanoseconds)
  parse text := (Rfc3339.parse text.toList).bind Date.ofNanoseconds
  parse_format := by
    intro date
    rw [String.toList_ofList, Rfc3339.parse_format date.from_year_zero date.to_year_9999, Option.bind_some,
      Date.ofNanoseconds_nanoseconds]

/-- `packageID` is 0 where any version is meant. -/
structure PackageReferenceMutation where
  softwareID : Int := 0
  packageID : Int := 0
  deriving DecidableEq, Repr

structure PackageInstallerEnvironmentVariable where
  name : String := ""
  value : String := ""
  deriving DecidableEq, Repr

structure PackageInstallerChoice where
  choiceIdentifier : String := ""
  choiceAttribute : String := ""
  attributeSetting : Int32 := 0
  deriving DecidableEq, Repr

structure PackageInstallItem where
  type : String := ""
  path : String := ""
  bundleIdentifier : String := ""
  bundleName : String := ""
  bundleShortVersion : String := ""
  bundleVersion : String := ""
  versionComparisonKey : String := ""
  minimumUpdateVersion : String := ""
  md5Checksum : String := ""
  minimumOSVersion : String := ""
  installerItemLocation : String := ""
  deriving DecidableEq, Repr

structure PackageReceipt where
  packageID : String := ""
  version : String := ""
  name : String := ""
  installedSize : Int := 0
  optional : Bool := false
  deriving DecidableEq, Repr

structure PackageItemToCopy where
  sourceItem : String := ""
  destinationPath : String := ""
  destinationItem : String := ""
  user : String := ""
  group : String := ""
  mode : String := ""
  deriving DecidableEq, Repr

structure PackageAlert where
  enabled : Bool := false
  title : String := ""
  detail : String := ""
  okLabel : String := ""
  cancelLabel : String := ""
  deriving DecidableEq, Repr

structure PackageLaunchArguments where
  application : String := ""
  arguments : List String := []
  deriving DecidableEq, Repr

structure PackageActionLabels where
  install : String := ""
  installing : String := ""
  installed : String := ""
  remove : String := ""
  removing : String := ""
  update : String := ""
  deriving DecidableEq, Repr

structure PackageMutation where
  version : String
  installerType : String := ""
  unattendedInstall : Bool := false
  unattendedUninstall : Bool := false
  uninstallable : Bool := false
  uninstallMethod : String := ""
  restartAction : String := ""
  restartActionForUninstall : String := ""
  minimumMunkiVersion : String := ""
  minimumOSVersion : String := ""
  maximumOSVersion : String := ""
  supportedArchitectures : List String := []
  blockingApplications : List String := []
  blockingApplicationsNone : Bool := false
  installableCondition : String := ""
  blockingAppsManualQuit : Bool := false
  blockingAppsQuitScript : String := ""
  blockingAppsLaunchArgs : List PackageLaunchArguments := []
  downloadOnLowData : String := ""
  customActionLabels : PackageActionLabels := {}
  requires : List PackageReferenceMutation := []
  updateFor : List PackageReferenceMutation := []
  onDemand : Bool := false
  precache : Bool := false
  autoremove : Bool := false
  appleItem : Bool := false
  forceInstallAfterDate : Option Date := none
  installedSize : Int := 0
  packagePath : String := ""
  installerChoicesXML : List PackageInstallerChoice := []
  installerEnvironment : List PackageInstallerEnvironmentVariable := []
  installs : List PackageInstallItem := []
  receipts : List PackageReceipt := []
  itemsToCopy : List PackageItemToCopy := []
  notes : String := ""
  installcheckScript : String := ""
  uninstallcheckScript : String := ""
  preinstallScript : String := ""
  postinstallScript : String := ""
  preuninstallScript : String := ""
  postuninstallScript : String := ""
  uninstallScript : String := ""
  versionScript : String := ""
  preinstallAlert : PackageAlert := {}
  preuninstallAlert : PackageAlert := {}
  installerObjectID : Option Int := none
  deriving DecidableEq

def decodeText : Scalar → Option String
  | .text s => some s
  | _ => none

/-- `clearable` lets a patch put null, `omitted` is `omitempty`. -/
def text (clearable omitted : Bool) : Codec Scalar String :=
  Codec.scalars (fun s => if (omitted && s == "") = true then none else some (.text s)) "" decodeText clearable (by
    intro s
    split_ifs with h
    · rw [Bool.and_eq_true, beq_iff_eq] at h
      rw [h.2]
      rfl
    · rfl)

def decodeFlag : Scalar → Option Bool
  | .bool b => some b
  | _ => none

def flag (omitted : Bool) : Codec Scalar Bool :=
  Codec.scalars (fun b => if (omitted && !b) = true then none else some (.bool b)) false decodeFlag false (by
    intro b
    cases omitted <;> cases b <;> rfl)

def decodeInteger : Scalar → Option Int
  | .integer i => some i
  | _ => none

def integer (omitted : Bool) : Codec Scalar Int :=
  Codec.scalars (fun i => if (omitted && i == 0) = true then none else some (.integer i)) 0 decodeInteger false (by
    intro i
    split_ifs with h
    · rw [Bool.and_eq_true, beq_iff_eq] at h
      rw [h.2]
      rfl
    · rfl)

def decodeInt32 : Scalar → Option Int32
  | .integer i => if (Int32.ofInt i).toInt = i then some (Int32.ofInt i) else none
  | _ => none

def int32 : Codec Scalar Int32 :=
  Codec.scalars (fun i => some (.integer i.toInt)) 0 decodeInt32 false (by
    intro i
    simp [decodeScalar, decodeInt32])

def pointer : Codec Scalar (Option Int) :=
  Codec.scalars (fun id => id.map Scalar.integer) none (fun value => (decodeInteger value).map some) true (by
    intro id
    cases id <;> rfl)

def DateTexts.decode (times : DateTexts) : Scalar → Option (Option Date)
  | .text s => (times.parse s).map some
  | _ => none

def DateTexts.pointer (times : DateTexts) : Codec Scalar (Option Date) :=
  Codec.scalars (fun date => date.map (fun d => .text (times.format d))) none times.decode true (by
    intro date
    cases date with
    | none => rfl
    | some d =>
      rw [Option.map_some, decodeScalar, decode, times.parse_format]
      rfl)

/-- A text in an array. -/
def textItem : Item Scalar String where
  encode := fun s => .scalar (.text s)
  decode := fun
    | .scalar value => decodeText value
    | .null => some ""
    | _ => none
  takes := fun
    | .scalar _ => true
    | _ => false
  decode_encode _ := rfl
  takes_encode _ := rfl
  distinct_encode _ := rfl

def reference : Record Scalar PackageReferenceMutation where
  Key := Fin 2
  keys := List.finRange 2
  mem_keys := List.mem_finRange
  name := !["software_id", "package_id"]
  nodup_names := by decide
  Kind := fun _ => Int
  codec := fun
    | 0 => integer false
    | 1 => integer true
  get := fun m => ![m.softwareID, m.packageID]
  make := fun f => ⟨f 0, f 1⟩
  get_make := by
    intro f
    funext i
    fin_cases i <;> rfl
  make_get _ := rfl

def environmentVariable : Record Scalar PackageInstallerEnvironmentVariable where
  Key := Fin 2
  keys := List.finRange 2
  mem_keys := List.mem_finRange
  name := !["name", "value"]
  nodup_names := by decide
  Kind := fun _ => String
  codec := fun
    | 0 => text false false
    | 1 => text true false
  get := fun m => ![m.name, m.value]
  make := fun f => ⟨f 0, f 1⟩
  get_make := by
    intro f
    funext i
    fin_cases i <;> rfl
  make_get _ := rfl

def installerChoice : Record Scalar PackageInstallerChoice where
  Key := Fin 3
  keys := List.finRange 3
  mem_keys := List.mem_finRange
  name := !["choice_identifier", "choice_attribute", "attribute_setting"]
  nodup_names := by decide
  Kind := ![String, String, Int32]
  codec := fun
    | 0 => text false true
    | 1 => text true true
    | 2 => int32
  get := fun m => fun
    | 0 => m.choiceIdentifier
    | 1 => m.choiceAttribute
    | 2 => m.attributeSetting
  make := fun f => ⟨f 0, f 1, f 2⟩
  get_make := by
    intro f
    funext i
    fin_cases i <;> rfl
  make_get _ := rfl

def installItem : Record Scalar PackageInstallItem where
  Key := Fin 11
  keys := List.finRange 11
  mem_keys := List.mem_finRange
  name := ![
    "type", "path", "bundle_identifier", "bundle_name", "bundle_short_version", "bundle_version",
    "version_comparison_key", "minimum_update_version", "md5checksum", "minimum_os_version",
    "installer_item_location"]
  nodup_names := by decide
  Kind := fun _ => String
  codec := fun
    | 0 => text false false
    | 1 => text false false
    | 2 => text true true
    | 3 => text true true
    | 4 => text true true
    | 5 => text true true
    | 6 => text true true
    | 7 => text true true
    | 8 => text true true
    | 9 => text true true
    | 10 => text true true
  get := fun m =>
    ![
      m.type, m.path, m.bundleIdentifier, m.bundleName, m.bundleShortVersion, m.bundleVersion,
      m.versionComparisonKey, m.minimumUpdateVersion, m.md5Checksum, m.minimumOSVersion,
      m.installerItemLocation]
  make := fun f => ⟨f 0, f 1, f 2, f 3, f 4, f 5, f 6, f 7, f 8, f 9, f 10⟩
  get_make := by
    intro f
    funext i
    fin_cases i <;> rfl
  make_get _ := rfl

def receipt : Record Scalar PackageReceipt where
  Key := Fin 5
  keys := List.finRange 5
  mem_keys := List.mem_finRange
  name := ![
    "package_id", "version", "name", "installed_size", "optional"]
  nodup_names := by decide
  Kind := ![String, String, String, Int, Bool]
  codec := fun
    | 0 => text false false
    | 1 => text true true
    | 2 => text true true
    | 3 => integer true
    | 4 => flag true
  get := fun m => fun
    | 0 => m.packageID
    | 1 => m.version
    | 2 => m.name
    | 3 => m.installedSize
    | 4 => m.optional
  make := fun f => ⟨f 0, f 1, f 2, f 3, f 4⟩
  get_make := by
    intro f
    funext i
    fin_cases i <;> rfl
  make_get _ := rfl

def itemToCopy : Record Scalar PackageItemToCopy where
  Key := Fin 6
  keys := List.finRange 6
  mem_keys := List.mem_finRange
  name := ![
    "source_item", "destination_path", "destination_item", "user", "group", "mode"]
  nodup_names := by decide
  Kind := fun _ => String
  codec := fun
    | 0 => text false false
    | 1 => text false false
    | 2 => text true true
    | 3 => text true true
    | 4 => text true true
    | 5 => text true true
  get := fun m => ![m.sourceItem, m.destinationPath, m.destinationItem, m.user, m.group, m.mode]
  make := fun f => ⟨f 0, f 1, f 2, f 3, f 4, f 5⟩
  get_make := by
    intro f
    funext i
    fin_cases i <;> rfl
  make_get _ := rfl

def alert : Record Scalar PackageAlert where
  Key := Fin 5
  keys := List.finRange 5
  mem_keys := List.mem_finRange
  name := ![
    "enabled", "title", "detail", "ok_label", "cancel_label"]
  nodup_names := by decide
  Kind := ![Bool, String, String, String, String]
  codec := fun
    | 0 => flag false
    | 1 => text true true
    | 2 => text true true
    | 3 => text true true
    | 4 => text true true
  get := fun m => fun
    | 0 => m.enabled
    | 1 => m.title
    | 2 => m.detail
    | 3 => m.okLabel
    | 4 => m.cancelLabel
  make := fun f => ⟨f 0, f 1, f 2, f 3, f 4⟩
  get_make := by
    intro f
    funext i
    fin_cases i <;> rfl
  make_get _ := rfl

theorem alert_nil : alert.decode [] = some {} := by
  rw [Record.decode_eq_some]
  intro i
  change Fin 5 at i
  fin_cases i <;> rfl

def launchArguments : Record Scalar PackageLaunchArguments where
  Key := Fin 2
  keys := List.finRange 2
  mem_keys := List.mem_finRange
  name := !["application", "arguments"]
  nodup_names := by decide
  Kind := ![String, List String]
  codec := fun
    | 0 => text false false
    | 1 => textItem.list false
  get := fun m => fun
    | 0 => m.application
    | 1 => m.arguments
  make := fun f => ⟨f 0, f 1⟩
  get_make := by
    intro f
    funext i
    fin_cases i <;> rfl
  make_get _ := rfl

def actionLabels : Record Scalar PackageActionLabels where
  Key := Fin 6
  keys := List.finRange 6
  mem_keys := List.mem_finRange
  name := ![
    "install", "installing", "installed", "remove", "removing", "update"]
  nodup_names := by decide
  Kind := fun _ => String
  codec := fun _ => text true true
  get := fun m => ![m.install, m.installing, m.installed, m.remove, m.removing, m.update]
  make := fun f => ⟨f 0, f 1, f 2, f 3, f 4, f 5⟩
  get_make := by
    intro f
    funext i
    fin_cases i <;> rfl
  make_get _ := rfl

theorem actionLabels_nil : actionLabels.decode [] = some {} := by
  rw [Record.decode_eq_some]
  intro i
  change Fin 6 at i
  fin_cases i <;> rfl

inductive Key where
  | version | installerType | unattendedInstall | unattendedUninstall | uninstallable | uninstallMethod
  | restartAction | restartActionForUninstall | minimumMunkiVersion | minimumOSVersion | maximumOSVersion
  | supportedArchitectures | blockingApplications | blockingApplicationsNone | installableCondition
  | blockingAppsManualQuit | blockingAppsQuitScript | blockingAppsLaunchArgs | downloadOnLowData
  | customActionLabels | requires | updateFor | onDemand | precache | autoremove | appleItem
  | forceInstallAfterDate | installedSize | packagePath | installerChoicesXML | installerEnvironment
  | installs | receipts | itemsToCopy | notes | installcheckScript | uninstallcheckScript
  | preinstallScript | postinstallScript | preuninstallScript | postuninstallScript | uninstallScript
  | versionScript | preinstallAlert | preuninstallAlert | installerObjectID
  deriving DecidableEq

namespace Key

def all : List Key :=
  [.version, .installerType, .unattendedInstall, .unattendedUninstall, .uninstallable, .uninstallMethod,
    .restartAction, .restartActionForUninstall, .minimumMunkiVersion, .minimumOSVersion, .maximumOSVersion,
    .supportedArchitectures, .blockingApplications, .blockingApplicationsNone, .installableCondition,
    .blockingAppsManualQuit, .blockingAppsQuitScript, .blockingAppsLaunchArgs, .downloadOnLowData,
    .customActionLabels, .requires, .updateFor, .onDemand, .precache, .autoremove, .appleItem,
    .forceInstallAfterDate, .installedSize, .packagePath, .installerChoicesXML, .installerEnvironment,
    .installs, .receipts, .itemsToCopy, .notes, .installcheckScript, .uninstallcheckScript,
    .preinstallScript, .postinstallScript, .preuninstallScript, .postuninstallScript, .uninstallScript,
    .versionScript, .preinstallAlert, .preuninstallAlert, .installerObjectID]

theorem mem_all (k : Key) : k ∈ all := by
  cases k <;> decide

def name : Key → String
  | .version => "version"
  | .installerType => "installer_type"
  | .unattendedInstall => "unattended_install"
  | .unattendedUninstall => "unattended_uninstall"
  | .uninstallable => "uninstallable"
  | .uninstallMethod => "uninstall_method"
  | .restartAction => "restart_action"
  | .restartActionForUninstall => "restart_action_for_uninstall"
  | .minimumMunkiVersion => "minimum_munki_version"
  | .minimumOSVersion => "minimum_os_version"
  | .maximumOSVersion => "maximum_os_version"
  | .supportedArchitectures => "supported_architectures"
  | .blockingApplications => "blocking_applications"
  | .blockingApplicationsNone => "blocking_applications_none"
  | .installableCondition => "installable_condition"
  | .blockingAppsManualQuit => "blocking_applications_manual_quit_only"
  | .blockingAppsQuitScript => "blocking_applications_quit_script"
  | .blockingAppsLaunchArgs => "blocking_applications_with_launch_args"
  | .downloadOnLowData => "download_on_low_data"
  | .customActionLabels => "custom_action_labels"
  | .requires => "requires"
  | .updateFor => "update_for"
  | .onDemand => "on_demand"
  | .precache => "precache"
  | .autoremove => "autoremove"
  | .appleItem => "apple_item"
  | .forceInstallAfterDate => "force_install_after_date"
  | .installedSize => "installed_size"
  | .packagePath => "package_path"
  | .installerChoicesXML => "installer_choices_xml"
  | .installerEnvironment => "installer_environment"
  | .installs => "installs"
  | .receipts => "receipts"
  | .itemsToCopy => "items_to_copy"
  | .notes => "notes"
  | .installcheckScript => "installcheck_script"
  | .uninstallcheckScript => "uninstallcheck_script"
  | .preinstallScript => "preinstall_script"
  | .postinstallScript => "postinstall_script"
  | .preuninstallScript => "preuninstall_script"
  | .postuninstallScript => "postuninstall_script"
  | .uninstallScript => "uninstall_script"
  | .versionScript => "version_script"
  | .preinstallAlert => "preinstall_alert"
  | .preuninstallAlert => "preuninstall_alert"
  | .installerObjectID => "installer_object_id"

def Kind : Key → Type
  | .version => String
  | .installerType => String
  | .unattendedInstall => Bool
  | .unattendedUninstall => Bool
  | .uninstallable => Bool
  | .uninstallMethod => String
  | .restartAction => String
  | .restartActionForUninstall => String
  | .minimumMunkiVersion => String
  | .minimumOSVersion => String
  | .maximumOSVersion => String
  | .supportedArchitectures => List String
  | .blockingApplications => List String
  | .blockingApplicationsNone => Bool
  | .installableCondition => String
  | .blockingAppsManualQuit => Bool
  | .blockingAppsQuitScript => String
  | .blockingAppsLaunchArgs => List PackageLaunchArguments
  | .downloadOnLowData => String
  | .customActionLabels => PackageActionLabels
  | .requires => List PackageReferenceMutation
  | .updateFor => List PackageReferenceMutation
  | .onDemand => Bool
  | .precache => Bool
  | .autoremove => Bool
  | .appleItem => Bool
  | .forceInstallAfterDate => Option Date
  | .installedSize => Int
  | .packagePath => String
  | .installerChoicesXML => List PackageInstallerChoice
  | .installerEnvironment => List PackageInstallerEnvironmentVariable
  | .installs => List PackageInstallItem
  | .receipts => List PackageReceipt
  | .itemsToCopy => List PackageItemToCopy
  | .notes => String
  | .installcheckScript => String
  | .uninstallcheckScript => String
  | .preinstallScript => String
  | .postinstallScript => String
  | .preuninstallScript => String
  | .postuninstallScript => String
  | .uninstallScript => String
  | .versionScript => String
  | .preinstallAlert => PackageAlert
  | .preuninstallAlert => PackageAlert
  | .installerObjectID => Option Int

/-- A nullable field is one that the schema of a patch lets a null clear. -/
def codec (times : DateTexts) : (k : Key) → Codec Scalar k.Kind
  | .version => text false false
  | .installerType => text false true
  | .unattendedInstall => flag true
  | .unattendedUninstall => flag true
  | .uninstallable => flag true
  | .uninstallMethod => text true true
  | .restartAction => text true true
  | .restartActionForUninstall => text true true
  | .minimumMunkiVersion => text true true
  | .minimumOSVersion => text true true
  | .maximumOSVersion => text true true
  | .supportedArchitectures => textItem.list true
  | .blockingApplications => textItem.list true
  | .blockingApplicationsNone => flag true
  | .installableCondition => text true true
  | .blockingAppsManualQuit => flag true
  | .blockingAppsQuitScript => text true true
  | .blockingAppsLaunchArgs => launchArguments.item.list true
  | .downloadOnLowData => text false true
  | .customActionLabels => actionLabels.nested {} actionLabels_nil
  | .requires => reference.item.list true
  | .updateFor => reference.item.list true
  | .onDemand => flag true
  | .precache => flag true
  | .autoremove => flag true
  | .appleItem => flag true
  | .forceInstallAfterDate => times.pointer
  | .installedSize => integer true
  | .packagePath => text true true
  | .installerChoicesXML => installerChoice.item.list true
  | .installerEnvironment => environmentVariable.item.list true
  | .installs => installItem.item.list true
  | .receipts => receipt.item.list true
  | .itemsToCopy => itemToCopy.item.list true
  | .notes => text true true
  | .installcheckScript => text true true
  | .uninstallcheckScript => text true true
  | .preinstallScript => text true true
  | .postinstallScript => text true true
  | .preuninstallScript => text true true
  | .postuninstallScript => text true true
  | .uninstallScript => text true true
  | .versionScript => text true true
  | .preinstallAlert => alert.nested {} alert_nil
  | .preuninstallAlert => alert.nested {} alert_nil
  | .installerObjectID => pointer

end Key

def PackageMutation.at (m : PackageMutation) : (k : Key) → k.Kind
  | .version => m.version
  | .installerType => m.installerType
  | .unattendedInstall => m.unattendedInstall
  | .unattendedUninstall => m.unattendedUninstall
  | .uninstallable => m.uninstallable
  | .uninstallMethod => m.uninstallMethod
  | .restartAction => m.restartAction
  | .restartActionForUninstall => m.restartActionForUninstall
  | .minimumMunkiVersion => m.minimumMunkiVersion
  | .minimumOSVersion => m.minimumOSVersion
  | .maximumOSVersion => m.maximumOSVersion
  | .supportedArchitectures => m.supportedArchitectures
  | .blockingApplications => m.blockingApplications
  | .blockingApplicationsNone => m.blockingApplicationsNone
  | .installableCondition => m.installableCondition
  | .blockingAppsManualQuit => m.blockingAppsManualQuit
  | .blockingAppsQuitScript => m.blockingAppsQuitScript
  | .blockingAppsLaunchArgs => m.blockingAppsLaunchArgs
  | .downloadOnLowData => m.downloadOnLowData
  | .customActionLabels => m.customActionLabels
  | .requires => m.requires
  | .updateFor => m.updateFor
  | .onDemand => m.onDemand
  | .precache => m.precache
  | .autoremove => m.autoremove
  | .appleItem => m.appleItem
  | .forceInstallAfterDate => m.forceInstallAfterDate
  | .installedSize => m.installedSize
  | .packagePath => m.packagePath
  | .installerChoicesXML => m.installerChoicesXML
  | .installerEnvironment => m.installerEnvironment
  | .installs => m.installs
  | .receipts => m.receipts
  | .itemsToCopy => m.itemsToCopy
  | .notes => m.notes
  | .installcheckScript => m.installcheckScript
  | .uninstallcheckScript => m.uninstallcheckScript
  | .preinstallScript => m.preinstallScript
  | .postinstallScript => m.postinstallScript
  | .preuninstallScript => m.preuninstallScript
  | .postuninstallScript => m.postuninstallScript
  | .uninstallScript => m.uninstallScript
  | .versionScript => m.versionScript
  | .preinstallAlert => m.preinstallAlert
  | .preuninstallAlert => m.preuninstallAlert
  | .installerObjectID => m.installerObjectID

def mutation (times : DateTexts) : Record Scalar PackageMutation where
  Key := Key
  keys := Key.all
  mem_keys := Key.mem_all
  name := Key.name
  nodup_names := by decide +kernel
  Kind := Key.Kind
  codec := Key.codec times
  get := PackageMutation.at
  make := fun f =>
    ⟨f .version, f .installerType, f .unattendedInstall, f .unattendedUninstall, f .uninstallable,
      f .uninstallMethod, f .restartAction, f .restartActionForUninstall, f .minimumMunkiVersion,
      f .minimumOSVersion, f .maximumOSVersion, f .supportedArchitectures, f .blockingApplications,
      f .blockingApplicationsNone, f .installableCondition, f .blockingAppsManualQuit,
      f .blockingAppsQuitScript, f .blockingAppsLaunchArgs, f .downloadOnLowData, f .customActionLabels,
      f .requires, f .updateFor, f .onDemand, f .precache, f .autoremove, f .appleItem,
      f .forceInstallAfterDate, f .installedSize, f .packagePath, f .installerChoicesXML,
      f .installerEnvironment, f .installs, f .receipts, f .itemsToCopy, f .notes, f .installcheckScript,
      f .uninstallcheckScript, f .preinstallScript, f .postinstallScript, f .preuninstallScript,
      f .postuninstallScript, f .uninstallScript, f .versionScript, f .preinstallAlert,
      f .preuninstallAlert, f .installerObjectID⟩
  get_make := by
    intro f
    funext k
    cases k <;> rfl
  make_get _ := rfl

/-- A patch that `UnmarshalJSON` took. -/
structure Patch (times : DateTexts) where
  fields : Fields Scalar
  distinct : (Value.object fields).isDistinct = true
  known : (mutation times).takes fields = true
  typed : ((mutation times).decode fields).isSome = true

def Patch.apply {times : DateTexts} (document : Patch times) (current : PackageMutation) : Option PackageMutation :=
  (mutation times).decode (mergeFields ((mutation times).encode current) document.fields)

/-- A patch is applied field by field, and never refused by the merged mutation. -/
theorem Patch.apply_eq {times : DateTexts} (document : Patch times) (current : PackageMutation) :
    document.apply current = some ((mutation times).named document.fields current) :=
  Record.decode_merge (Record.decode_encode current) document.known document.distinct document.typed

/-- A trimmed text, the default where nothing is left. -/
@[irreducible] def orDefault (d s : String) : String := if trimSpace s = "" then d else trimSpace s

theorem orDefault_orDefault {d s : String} (hd : trimSpace d = d) (hne : d ≠ "") :
    orDefault d (orDefault d s) = orDefault d s := by
  by_cases h : trimSpace s = ""
  · rw [orDefault, orDefault, if_pos h, hd, if_neg hne]
  · rw [orDefault, orDefault, if_neg h, trimSpace_trimSpace, if_neg h]

theorem orDefault_ne {d s : String} (hne : d ≠ "") : orDefault d s ≠ "" := by
  rw [orDefault]
  split_ifs with h
  · exact hne
  · exact h

def PackageMutation.normalize (m : PackageMutation) : PackageMutation :=
  { m with
    installerType := orDefault "pkg" m.installerType
    version := trimSpace m.version
    uninstallMethod := trimSpace m.uninstallMethod
    restartAction := trimSpace m.restartAction
    restartActionForUninstall := trimSpace m.restartActionForUninstall
    downloadOnLowData := orDefault "auto" m.downloadOnLowData
    minimumMunkiVersion := trimSpace m.minimumMunkiVersion
    minimumOSVersion := trimSpace m.minimumOSVersion
    maximumOSVersion := trimSpace m.maximumOSVersion
    packagePath := trimSpace m.packagePath
    forceInstallAfterDate := m.forceInstallAfterDate.map Date.truncate
    supportedArchitectures := m.supportedArchitectures.map trimSpace
    blockingApplications := m.blockingApplications.map trimSpace
    blockingAppsLaunchArgs := m.blockingAppsLaunchArgs.map
      (fun entry => { entry with application := trimSpace entry.application })
    installerChoicesXML := m.installerChoicesXML.map
      (fun choice => { choice with choiceIdentifier := trimSpace choice.choiceIdentifier })
    installerEnvironment := m.installerEnvironment.map
      (fun entry => { entry with name := trimSpace entry.name })
    installs := m.installs.map (fun item => { item with type := trimSpace item.type, path := trimSpace item.path })
    receipts := m.receipts.map (fun entry => { entry with packageID := trimSpace entry.packageID })
    itemsToCopy := m.itemsToCopy.map (fun item =>
      { item with sourceItem := trimSpace item.sourceItem, destinationPath := trimSpace item.destinationPath }) }

/-- What normalization does to a field. -/
def Key.normalize : (k : Key) → k.Kind → k.Kind
  | .installerType, s => orDefault "pkg" s
  | .downloadOnLowData, s => orDefault "auto" s
  | .version, s | .uninstallMethod, s | .restartAction, s | .restartActionForUninstall, s
  | .minimumMunkiVersion, s | .minimumOSVersion, s | .maximumOSVersion, s | .packagePath, s => trimSpace s
  | .forceInstallAfterDate, date => date.map Date.truncate
  | .supportedArchitectures, values | .blockingApplications, values => values.map trimSpace
  | .blockingAppsLaunchArgs, entries =>
    entries.map (fun entry => { entry with application := trimSpace entry.application })
  | .installerChoicesXML, choices =>
    choices.map (fun choice => { choice with choiceIdentifier := trimSpace choice.choiceIdentifier })
  | .installerEnvironment, entries =>
    entries.map (fun entry => { entry with name := trimSpace entry.name })
  | .installs, items =>
    items.map (fun item => { item with type := trimSpace item.type, path := trimSpace item.path })
  | .receipts, entries => entries.map (fun entry => { entry with packageID := trimSpace entry.packageID })
  | .itemsToCopy, items => items.map (fun item =>
    { item with sourceItem := trimSpace item.sourceItem, destinationPath := trimSpace item.destinationPath })
  | _, value => value

theorem at_normalize (m : PackageMutation) (k : Key) : m.normalize.at k = k.normalize (m.at k) := by
  cases k <;> rfl

theorem trimSpace_pkg : trimSpace "pkg" = "pkg" := by decide

theorem pkg_ne : "pkg" ≠ "" := by decide

theorem trimSpace_auto : trimSpace "auto" = "auto" := by decide

theorem auto_ne : "auto" ≠ "" := by decide

theorem normalize_normalize (m : PackageMutation) : m.normalize.normalize = m.normalize := by
  simp only [PackageMutation.normalize, trimSpace_trimSpace, List.map_map, Option.map_map, Function.comp_def,
    Date.truncate_truncate, orDefault_orDefault trimSpace_pkg pkg_ne, orDefault_orDefault trimSpace_auto auto_ne]

/-- What is wrong with a mutation. -/
inductive Invalid where
  | field (message : String)
  | nopkgObject
  | noItemsToCopy
  | noUninstallMethod
  | noReceipts
  | noCopiedItems
  | noUninstallScript
  | duplicateVariable (name : String)
  | blockedAndNone
  | duplicateApplication (application : String)
  | noInstaller (installerType : String)
  deriving DecidableEq, Repr

/-- The texts behind `fault.ErrInvalidInput`; `quote` is `%q`. -/
def Invalid.text (quote : String → String) : Invalid → String
  | .field message => message
  | .nopkgObject => "nopkg must not reference installer_object_id"
  | .noItemsToCopy => "copy_from_dmg requires items_to_copy entries"
  | .noUninstallMethod => "uninstallable requires uninstall_method"
  | .noReceipts => "removepackages requires receipts"
  | .noCopiedItems => "remove_copied_items requires items_to_copy entries"
  | .noUninstallScript => "uninstall_script requires uninstall_script"
  | .duplicateVariable name => "installer_environment contains duplicate name " ++ quote name
  | .blockedAndNone => "blocking_applications_none cannot be set with blocking application entries"
  | .duplicateApplication application =>
    "blocking_applications_with_launch_args contains duplicate application " ++ quote application
  | .noInstaller installerType => installerType ++ " requires installer_object_id"

/-- `dive`: every entry, the first to fail is reported. -/
def checkEach {α : Type} (f : Nat → α → Except Invalid Unit) : Nat → List α → Except Invalid Unit
  | _, [] => .ok ()
  | i, a :: as => do
    f i a
    checkEach f (i + 1) as

theorem checkEach_ok {α : Type} {f : Nat → α → Except Invalid Unit} {p : α → Prop} (h : ∀ i a, f i a = .ok () ↔ p a)
    (i : Nat) (as : List α) : checkEach f i as = .ok () ↔ ∀ a ∈ as, p a := by
  induction as generalizing i with
  | nil => simp [checkEach]
  | cons a as ih => rw [checkEach, bind_unit_ok, h, ih, List.forall_mem_cons]

def field (ok : Bool) (message : String) : Except Invalid Unit := require ok (.field message)

theorem field_ok {ok : Bool} {message : String} : field ok message = .ok () ↔ ok = true := require_ok

/-- `required,notblank`. -/
def notBlankField (name value : String) : Except Invalid Unit := do
  field (value != "") (name ++ " is required")
  field (notBlank value) (name ++ " must not be blank")

/-- `omitempty,oneof`. -/
def oneofField (name : String) (values : List String) (value : String) : Except Invalid Unit :=
  field (value == "" || values.contains value) (name ++ " must be one of " ++ " ".intercalate values)

theorem oneofField_ok {name value : String} {values : List String} :
    oneofField name values value = .ok () ↔ value = "" ∨ value ∈ values := by
  rw [oneofField, field_ok, Bool.or_eq_true, beq_iff_eq, List.contains_iff_mem]

def installerTypeValues : List String := ["pkg", "nopkg", "copy_from_dmg"]

def uninstallMethodValues : List String := ["removepackages", "remove_copied_items", "uninstall_script"]

def restartActionValues : List String := ["RequireLogout", "RecommendRestart", "RequireRestart", "RequireShutdown"]

def downloadOnLowDataValues : List String := ["auto", "always", "never"]

def installItemTypeValues : List String := ["application", "bundle", "plist", "file"]

def PackageReferenceMutation.validate (ref : PackageReferenceMutation) : Except Invalid Unit := do
  field (decide (0 < ref.softwareID)) "SoftwareID must be greater than 0"
  field (decide (0 ≤ ref.packageID)) "PackageID must be at least 0"

def PackageInstallItem.validate (item : PackageInstallItem) : Except Invalid Unit := do
  field (item.type != "") "Type is required"
  field (installItemTypeValues.contains item.type) "Type must be one of application bundle plist file"
  notBlankField "Path" item.path

def PackageReceipt.validate (receipt : PackageReceipt) : Except Invalid Unit := do
  notBlankField "PackageID" receipt.packageID
  field (decide (0 ≤ receipt.installedSize)) "InstalledSize must be at least 0"

def PackageItemToCopy.validate (item : PackageItemToCopy) : Except Invalid Unit := do
  notBlankField "SourceItem" item.sourceItem
  notBlankField "DestinationPath" item.destinationPath

/-- `validation.Struct`, the fields in the order of the source. -/
def PackageMutation.validateFields (m : PackageMutation) : Except Invalid Unit := do
  notBlankField "Version" m.version
  oneofField "InstallerType" installerTypeValues m.installerType
  oneofField "UninstallMethod" uninstallMethodValues m.uninstallMethod
  oneofField "RestartAction" restartActionValues m.restartAction
  oneofField "RestartActionForUninstall" ("None" :: restartActionValues) m.restartActionForUninstall
  checkEach (fun i architecture => field (["arm64", "x86_64"].contains architecture)
    s!"SupportedArchitectures[{i}] must be one of arm64 x86_64") 0 m.supportedArchitectures
  checkEach (fun i application => notBlankField s!"BlockingApplications[{i}]" application) 0 m.blockingApplications
  checkEach (fun _ entry => notBlankField "Application" entry.application) 0 m.blockingAppsLaunchArgs
  oneofField "DownloadOnLowData" downloadOnLowDataValues m.downloadOnLowData
  checkEach (fun _ ref => ref.validate) 0 m.requires
  checkEach (fun _ ref => ref.validate) 0 m.updateFor
  field (decide (0 ≤ m.installedSize)) "InstalledSize must be at least 0"
  checkEach (fun _ choice => notBlankField "ChoiceIdentifier" choice.choiceIdentifier) 0 m.installerChoicesXML
  checkEach (fun _ entry => notBlankField "Name" entry.name) 0 m.installerEnvironment
  checkEach (fun _ item => item.validate) 0 m.installs
  checkEach (fun _ receipt => receipt.validate) 0 m.receipts
  checkEach (fun _ item => item.validate) 0 m.itemsToCopy
  field (m.installerObjectID.all (fun id => decide (0 < id))) "InstallerObjectID must be greater than 0"

/-- What the method of an uninstallable package needs. -/
def PackageMutation.validateUninstall (m : PackageMutation) : Except Invalid Unit :=
  if !m.uninstallable then .ok ()
  else if m.uninstallMethod = "" then .error .noUninstallMethod
  else if m.uninstallMethod = "removepackages" then require (!m.receipts.isEmpty) .noReceipts
  else if m.uninstallMethod = "remove_copied_items" then require (!m.itemsToCopy.isEmpty) .noCopiedItems
  else if m.uninstallMethod = "uninstall_script" then require (trimSpace m.uninstallScript != "") .noUninstallScript
  else .ok ()

/-- No value was there before. -/
def checkDistinct (fault : String → Invalid) (seen : List String) : List String → Except Invalid Unit
  | [] => .ok ()
  | value :: values => do
    require (!seen.contains value) (fault value)
    checkDistinct fault (value :: seen) values

def PackageMutation.validateRelations (m : PackageMutation) : Except Invalid Unit := do
  require (m.installerType != "nopkg" || m.installerObjectID.isNone) .nopkgObject
  require (m.installerType != "copy_from_dmg" || !m.itemsToCopy.isEmpty) .noItemsToCopy
  m.validateUninstall
  checkDistinct .duplicateVariable [] (m.installerEnvironment.map (fun entry => trimSpace entry.name))
  require (!m.blockingApplicationsNone || (m.blockingApplications.isEmpty && m.blockingAppsLaunchArgs.isEmpty))
    .blockedAndNone
  checkDistinct .duplicateApplication [] (m.blockingAppsLaunchArgs.map PackageLaunchArguments.application)

def PackageMutation.validateMetadata (m : PackageMutation) : Except Invalid Unit := do
  m.validateFields
  m.validateRelations

def PackageMutation.validate (m : PackageMutation) : Except Invalid Unit := do
  m.validateMetadata
  require (m.installerType == "nopkg" || m.installerObjectID.isSome) (.noInstaller m.installerType)

/-- What a valid mutation is known to meet. -/
structure Valid (m : PackageMutation) : Prop where
  installerType : m.installerType = "" ∨ m.installerType ∈ installerTypeValues
  uninstallMethod : m.uninstallMethod = "" ∨ m.uninstallMethod ∈ uninstallMethodValues
  restartAction : m.restartAction = "" ∨ m.restartAction ∈ restartActionValues
  restartActionForUninstall :
    m.restartActionForUninstall = "" ∨ m.restartActionForUninstall ∈ "None" :: restartActionValues
  downloadOnLowData : m.downloadOnLowData = "" ∨ m.downloadOnLowData ∈ downloadOnLowDataValues
  installedSize : 0 ≤ m.installedSize
  requires : ∀ ref ∈ m.requires, 0 < ref.softwareID ∧ 0 ≤ ref.packageID
  updateFor : ∀ ref ∈ m.updateFor, 0 < ref.softwareID ∧ 0 ≤ ref.packageID
  blockingNone : m.blockingApplicationsNone = true → m.blockingApplications = [] ∧ m.blockingAppsLaunchArgs = []
  object : m.installerType = "nopkg" ↔ m.installerObjectID = none

theorem validateReference_ok {ref : PackageReferenceMutation} :
    ref.validate = .ok () ↔ 0 < ref.softwareID ∧ 0 ≤ ref.packageID := by
  simp only [PackageReferenceMutation.validate, bind_unit_ok, field_ok, decide_eq_true_eq]

theorem validateReferences_ok {refs : List PackageReferenceMutation} :
    checkEach (fun _ ref => ref.validate) 0 refs = .ok () ↔ ∀ ref ∈ refs, 0 < ref.softwareID ∧ 0 ≤ ref.packageID :=
  checkEach_ok (fun _ ref => @validateReference_ok ref) 0 refs

theorem valid_of_validate {m : PackageMutation} (h : m.validate = .ok ()) : Valid m := by
  simp only [PackageMutation.validate, PackageMutation.validateMetadata, PackageMutation.validateFields,
    PackageMutation.validateRelations, bind_unit_ok, oneofField_ok, field_ok, require_ok, decide_eq_true_eq,
    validateReferences_ok] at h
  obtain ⟨⟨⟨-, htype, hmethod, hrestart, hrestart', -, -, -, hdownload, hrequires, hupdate, hsize, -⟩,
    hnopkg, -, -, -, hnone, -⟩, hobject⟩ := h
  constructor
  · exact htype
  · exact hmethod
  · exact hrestart
  · exact hrestart'
  · exact hdownload
  · exact hsize
  · exact hrequires
  · exact hupdate
  · intro hflag
    simpa [hflag] using hnone
  · constructor
    · intro heq
      simpa [heq] using hnopkg
    · intro heq
      simpa [heq] using hobject

end PackageMutations
