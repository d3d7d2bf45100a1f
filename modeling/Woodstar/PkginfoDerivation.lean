import Mathlib.Data.List.AList
import Woodstar.JsonValues
import Woodstar.LexicalPaths
import Woodstar.Primitives

/-!
# Derivation of native pkginfo

`Derive` fills the fields that a declaration leaves out from the evidence of a prepared
artifact. What the plugin package does with a subject is a parameter. The texts of
`encoding/json` errors are one text here.
-/
namespace PkginfoDerivation

open JsonValues
open Primitives (trimSpace)

structure AppFacts where
  bundleID : String := ""
  name : String := ""
  version : String := ""
  build : String := ""
  minimumOS : String := ""
  deriving DecidableEq, Repr

structure PackageFacts where
  identifier : String := ""
  version : String := ""
  installedSize : Int64 := 0
  hasPayload : Bool := false
  deriving DecidableEq

structure InstallerFacts where
  restartAction : String := ""
  deriving DecidableEq, Repr

/-- One inspected part of an artifact. -/
structure Subject where
  id : String := ""
  kind : String := ""
  path : String := ""
  installedPath : String := ""
  app : Option AppFacts := none
  package : Option PackageFacts := none
  installer : Option InstallerFacts := none
  deriving DecidableEq

structure Artifact where
  path : String := ""
  filename : String := ""
  format : String := ""
  version : String := ""
  sha256 : String := ""
  subjects : List Subject := []
  evidence : Fields := fun _ => none

structure MinimumOS where
  version : String
  origin : String
  deriving DecidableEq, Repr

structure ReconcileRequest where
  resourceName : String
  prepared : Bool
  artifact : Artifact
  minimumOS : Option MinimumOS := none

/-- What the plugin package does: a strict and a lenient decoding of a subject, `none` when
it fails or the value is null, and the version key of an application. -/
structure Plugin where
  decodeSubject : Json → Option Subject
  unmarshalSubject : Json → Option Subject
  versionKey : AppFacts → String

structure PackageItemToCopy where
  sourceItem : String := ""
  destinationPath : String := ""
  destinationItem : String := ""
  user : String := ""
  group : String := ""
  mode : String := ""
  deriving DecidableEq, Repr

def decodeCopy : Json → PackageItemToCopy × Bool
  | .null => ({}, true)
  | .object fields =>
    let texts := ["source_item", "destination_path", "destination_item", "user", "group", "mode"].map
      (textField fields)
    ({ sourceItem := (textField fields "source_item").1
       destinationPath := (textField fields "destination_path").1
       destinationItem := (textField fields "destination_item").1
       user := (textField fields "user").1
       group := (textField fields "group").1
       mode := (textField fields "mode").1 }, texts.all Prod.snd)
  | _ => ({}, false)

/-- The items that a decoding fills in, and whether it is without error. -/
def decodeCopies : Json → List PackageItemToCopy × Bool
  | .null => ([], true)
  | .array items => (items.map (fun item => (decodeCopy item).1), items.all (fun item => (decodeCopy item).2))
  | _ => ([], false)

def encodeCopy (copy : PackageItemToCopy) : Json :=
  .object ([("source_item", .string copy.sourceItem), ("destination_path", .string copy.destinationPath)] ++
    ([("destination_item", copy.destinationItem), ("user", copy.user), ("group", copy.group),
      ("mode", copy.mode)].filter (fun field => field.2 ≠ "")).map (fun field => (field.1, .string field.2)))

/-- The copy takes the source along. -/
def covers (source item : List Char) : Bool := source = item || (item ++ ['/']).isPrefixOf source

def trimPrefix (lead text : List Char) : List Char := (GoText.cutPrefix lead text).getD text

/-- Where the copy puts a source that it takes along. -/
def copiedPath (action : PackageItemToCopy) (source : List Char) : List Char :=
  let item := LexicalPaths.clean action.sourceItem.toList
  let name := if action.destinationItem = "" then LexicalPaths.base item else action.destinationItem.toList
  LexicalPaths.join [action.destinationPath.toList, name, trimPrefix ['/'] (trimPrefix item source)]

/-- The loop over the copies. -/
def copyLoop (source : List Char) (copied : List Char) :
    List PackageItemToCopy → Except String (List Char)
  | [] => .ok copied
  | action :: actions =>
    if covers source (LexicalPaths.clean action.sourceItem.toList) = true then
      if copied = [] then copyLoop source (copiedPath action source) actions
      else .error "application has multiple copy destinations; write a native installs item"
    else copyLoop source copied actions

def installedPath (source observed : String) (copies : List PackageItemToCopy) : Except String String := do
  let copied ← copyLoop (LexicalPaths.clean source.toList) [] copies
  if observed ≠ "" ∧ copied ≠ [] ∧ observed ≠ String.ofList copied then
    .error "application.installed_path disagrees with items_to_copy"
  else if copied ≠ [] then .ok (String.ofList copied)
  else .ok observed

def safeLocation (value : String) : Bool :=
  let clean := LexicalPaths.clean value.toList
  value ≠ "" && !LexicalPaths.isAbs value.toList && clean ≠ ['.'] && clean ≠ ['.', '.'] &&
    !(['.', '.', '/'].isPrefixOf clean) && !(value.toList.any (fun c => c = '\\' || c.toNat = 0))

section

variable (plugin : Plugin)

def applicationItem (app : AppFacts) (endpoint versionKey : String) : Except String Json :=
  let key := if versionKey = "" then plugin.versionKey app else versionKey
  let version := if key = "CFBundleVersion" then app.build else app.version
  if app.bundleID = "" ∨ version = "" then .error "bundle identifier and comparison version are required"
  else .ok (.object [("type", .string "application"), ("path", .string endpoint),
    ("CFBundleIdentifier", .string app.bundleID), ("CFBundleName", .string app.name),
    ("CFBundleShortVersionString", .string app.version), ("CFBundleVersion", .string app.build),
    ("version_comparison_key", .string key), ("minosversion", .string app.minimumOS)])

/-- A native item has a type; what is no object passes through as well. -/
def isNative : Json → Bool
  | .object fields => fields.any (fun field => field.1 == "type")
  | _ => true

def resolveItem (copies : List PackageItemToCopy) (index : Nat) (item : Json) : Except String Json :=
  if isNative item = true then .ok item
  else
    let lead := "installs item " ++ toString (index + 1) ++ ": "
    match (plugin.decodeSubject item).bind (fun subject =>
        if subject.kind = "app" then subject.app.map (fun app => (subject, app)) else none) with
    | none => .error (lead ++ "expected a native installs item or an inspected application, such as " ++
        "\x7b\x7b facts.name \x7d\x7d")
    | some (subject, app) => do
      let endpoint ← (installedPath subject.path subject.installedPath copies).mapError (lead ++ ·)
      if endpoint = "" then
        .error (lead ++ "application " ++ subject.id ++
          " has no known installed path; write a native installs item")
      else (applicationItem plugin app endpoint "").mapError (lead ++ "application " ++ subject.id ++ ": " ++ ·)

def resolveItems (copies : List PackageItemToCopy) : Nat → List Json → Except String (List Json)
  | _, [] => .ok []
  | index, item :: items => do
    let native ← resolveItem plugin copies index item
    let rest ← resolveItems copies (index + 1) items
    .ok (native :: rest)

def resolveSubjects (explicit : Fields) : Except String Fields :=
  match explicit "installs" with
  | some (.array items) =>
    (resolveItems plugin (decodeCopies ((explicit "items_to_copy").getD .null)).1 0 items).map
      (fun resolved => Function.update explicit "installs" (some (.array resolved)))
  | _ => .ok explicit

end

structure NativeDefaults where
  values : Fields
  explicit : Fields
  origins : String → Option String

structure Derived where
  values : Fields
  origins : String → Option String

namespace NativeDefaults

variable (d : NativeDefaults)

def declared (key : String) : Bool := (d.explicit key).isSome

def put (key : String) (value : Json) (origin : String) : NativeDefaults :=
  if d.declared key = true then d
  else { d with
    values := Function.update d.values key (some value)
    origins := Function.update d.origins ("pkginfo." ++ key) (some origin) }

/-- Derivation supplies the installs list. -/
def detects : Bool := !d.declared "installcheck_script" && !d.declared "receipts" && !d.declared "installs"

/-- The owned fields that are cleared when nothing supplies them. -/
def clearedDefaults (kind : String) : Fields := fun key =>
  if kind = "pkg" ∨ kind = "copy_from_dmg" then
    match key with
    | "receipts" => some (.array [])
    | "installed_size" => some (.number 0)
    | "RestartAction" => some .null
    | "items_to_copy" => some (.array [])
    | "uninstallable" => some (.bool false)
    | "uninstall_method" => some .null
    | "installs" => if d.detects = true then some (.array []) else none
    | _ => none
  else none

def result (kind : String) : Derived where
  values := fun key => (d.values key).or (d.clearedDefaults kind key)
  origins := d.origins

def lowered (text : String) : List Char :=
  text.toList.map (fun c => if c = '\u212a' then 'k' else c.toLower)

def formatKind (artifact : Artifact) : String :=
  if artifact.format = "pkg" ∨ ".pkg".toList.isSuffixOf (lowered artifact.filename) = true then "pkg"
  else if artifact.format = "dmg" ∨ ".dmg".toList.isSuffixOf (lowered artifact.filename) = true then
    "copy_from_dmg"
  else ""

/-- The kind that is declared, if any. -/
def declaredKind : String :=
  match d.values "installer_type" with
  | some (.string kind) => kind
  | _ => ""

def installerType (artifact : Artifact) : String × NativeDefaults :=
  if d.declaredKind ≠ "" then (d.declaredKind, d)
  else if formatKind artifact ≠ "" then
    (formatKind artifact, d.put "installer_type" (.string (formatKind artifact)) "installer.format")
  else ("", d)

/-- The packages whose receipts are recorded. -/
def recorded (subjects : List Subject) : List PackageFacts :=
  (subjects.filterMap Subject.package).filter (fun pkg => pkg.hasPayload && pkg.identifier ≠ "")

def receiptOf (pkg : PackageFacts) : Json :=
  .object [("packageid", .string pkg.identifier), ("version", .string pkg.version),
    ("installed_size", .number pkg.installedSize.toInt)]

def totalInstalledSize (subjects : List Subject) : Int64 :=
  (recorded subjects).foldl (fun size pkg => size + pkg.installedSize) 0

/-- The installer facts of the last subject that has some. -/
def lastInstaller (subjects : List Subject) : InstallerFacts :=
  ((subjects.filterMap Subject.installer).getLast?).getD {}

def putIf (p : Prop) [Decidable p] (key : String) (value : Json) (origin : String) : NativeDefaults :=
  if p then d.put key value origin else d

def packageDefaults (subjects : List Subject) (kind : String) : NativeDefaults :=
  if kind = "pkg" then
    ((d.putIf (recorded subjects ≠ []) "receipts" (.array ((recorded subjects).map receiptOf))
          "installer.receipts").putIf
        (0 < totalInstalledSize subjects) "installed_size" (.number (totalInstalledSize subjects).toInt)
          "installer.receipts").putIf
      ((lastInstaller subjects).restartAction ≠ "") "RestartAction"
        (.string (lastInstaller subjects).restartAction) "installer.restart_action"
  else d

def hasEntries : Option Json → Bool
  | some (.array (_ :: _)) => true
  | _ => false

/-- The method of removal and where it comes from. -/
def removal (kind : String) : String × String :=
  if d.declared "uninstall_method" = true then
    (match d.explicit "uninstall_method" with
      | some (.string method) => method
      | _ => "", "pkginfo.uninstall_method")
  else if kind = "pkg" ∧ hasEntries (d.values "receipts") = true then
    ("removepackages", "installer.receipts")
  else if kind = "copy_from_dmg" ∧ hasEntries (d.values "items_to_copy") = true then
    ("remove_copied_items", "app.archive_path")
  else ("", "")

def removable : Bool :=
  match d.explicit "uninstallable" with
  | some (.bool value) => value
  | some _ => false
  | none => true

def uninstall (kind : String) : NativeDefaults :=
  let (method, origin) := d.removal kind
  if method ≠ "" ∧ d.removable = true then
    (d.put "uninstallable" (.bool true) origin).put "uninstall_method" (.string method) origin
  else d

/-- The copy of the selected application when none is declared. -/
def selectedCopy (source endpoint : String) : PackageItemToCopy where
  sourceItem := source
  destinationPath := if endpoint = "" then "/Applications" else String.ofList (LexicalPaths.dir endpoint.toList)
  destinationItem :=
    if endpoint = "" ∨ LexicalPaths.base endpoint.toList = LexicalPaths.base source.toList then ""
    else String.ofList (LexicalPaths.base endpoint.toList)

def putCopy (source endpoint : String) : Except String NativeDefaults :=
  if (d.values "items_to_copy").isSome = true then .ok d
  else if safeLocation source = true then
    .ok (d.put "items_to_copy" (.array [encodeCopy (selectedCopy source endpoint)]) "app.archive_path")
  else .error "selected DMG application requires a safe relative archive path"

def copyDestination (source endpoint : String) : Except String (NativeDefaults × String) := do
  let d ← d.putCopy source endpoint
  if d.detects = false then .ok (d, endpoint)
  else
    match decodeCopies ((d.values "items_to_copy").getD .null) with
    | (_, false) => .error "json: cannot unmarshal"
    | (copies, true) => (installedPath source endpoint copies).map (fun path => (d, path))

/-- Where the selected application is installed. -/
def endpointOf (subject : Subject) (kind : String) : Except String (NativeDefaults × String) :=
  if kind = "copy_from_dmg" then d.copyDestination subject.path subject.installedPath
  else .ok (d, subject.installedPath)

def application (plugin : Plugin) (subject : Subject) (app : AppFacts) (versionKey kind : String) :
    Except String NativeDefaults := do
  let (d, endpoint) ← d.endpointOf subject kind
  if d.detects = false then .ok d
  else if endpoint = "" then
    .error "selected application has no known installed path; set application.installed_path or installs"
  else
    let item ← (applicationItem plugin app endpoint versionKey).mapError ("selected application: " ++ ·)
    .ok (d.put "installs" (.array [item]) "app.installed_path")

def selectedApplication (plugin : Plugin) (selected : Option (Subject × AppFacts)) (versionKey kind : String) :
    Except String NativeDefaults :=
  match selected with
  | none => .ok d
  | some (subject, app) => d.application plugin subject app versionKey kind

end NativeDefaults

section

variable (plugin : Plugin)

def evidenceApplication (artifact : Artifact) : Except String (Option (Subject × AppFacts)) :=
  match artifact.evidence "macos.application" with
  | none => .ok none
  | some data =>
    match (plugin.unmarshalSubject data).bind (fun subject => subject.app.map (fun app => (subject, app))) with
    | none => .error "macos.application evidence requires an application subject"
    | some selected => .ok (some selected)

def evidenceVersionKey (artifact : Artifact) : Except String String :=
  match artifact.evidence "macos.version_key" with
  | none => .ok ""
  | some (.string "CFBundleVersion") => .ok "CFBundleVersion"
  | some (.string "CFBundleShortVersionString") => .ok "CFBundleShortVersionString"
  | some _ => .error "unsupported macos.version_key evidence"

def macEvidence (artifact : Artifact) : Except String (Option (Subject × AppFacts) × String) := do
  let selected ← evidenceApplication plugin artifact
  let versionKey ← evidenceVersionKey artifact
  .ok (selected, versionKey)

def componentVersions (subjects : List Subject) : String :=
  let listed := ((subjects.filterMap Subject.package).filter (fun pkg => pkg.identifier ≠ "")).map
    (fun pkg => trimSpace (pkg.identifier ++ " " ++ pkg.version))
  let shown := 6
  if listed.length < 2 then ""
  else if shown < listed.length then
    ": its components carry " ++ String.intercalate ", " (listed.take shown) ++ " and " ++
      toString (listed.length - shown) ++ " more"
  else ": its components carry " ++ String.intercalate ", " listed

def sourceVersion (artifact : Artifact) : String :=
  match artifact.evidence "source" with
  | some (.object fields) =>
    match textField fields "version" with
    | (_, false) => ""
    | ("", true) => ""
    | (version, true) => "; the source states " ++ version ++ " as evidence.source.version"
  | _ => ""

/-- The declaration with its numbers as binary64. -/
def unmarshal (declared : AList (fun _ : String => Json)) : Except String Fields :=
  if declared.entries.all (fun entry => entry.2.viaAny.isSome) = true then
    .ok (fun key => (declared.lookup key).bind Json.viaAny)
  else .error "json: cannot unmarshal"

/-- The declared fields and the name. -/
def identify (request : ReconcileRequest) (explicit : Fields) : NativeDefaults :=
  NativeDefaults.put
    { values := explicit
      explicit := explicit
      origins := fun origin =>
        (GoText.cutPrefix "pkginfo.".toList origin.toList).bind (fun key =>
          (explicit (String.ofList key)).map (fun _ => "explicit")) }
    "name" (.string request.resourceName) "software.name"

/-- The version and the minimum system of a prepared artifact. -/
def describe (request : ReconcileRequest) (d : NativeDefaults) : NativeDefaults :=
  let d := d.putIf (request.artifact.version ≠ "") "version" (.string request.artifact.version) "artifact.version"
  match request.minimumOS with
  | some minimum => d.put "minimum_os_version" (.string minimum.version) minimum.origin
  | none => { d with values := Function.update d.values "minimum_os_version" (some .null) }

/-- What an installer that is no `nopkg` brings. -/
def deriveInstaller (request : ReconcileRequest) (kind : String) (d : NativeDefaults) :
    Except String Derived := do
  let (selected, versionKey) ← macEvidence plugin request.artifact
  let d ← (d.packageDefaults request.artifact.subjects kind).selectedApplication plugin selected versionKey kind
  if d.values "version" = none ∧ (kind = "pkg" ∨ kind = "copy_from_dmg") then
    .error ("the prepared installer has no managed version" ++ componentVersions request.artifact.subjects ++
      "; select an application or set pkginfo.version" ++ sourceVersion request.artifact)
  else .ok ((d.uninstall kind).result kind)

/-- What a prepared artifact brings. -/
def derivePrepared (request : ReconcileRequest) (kind : String) (d : NativeDefaults) : Except String Derived :=
  if kind = "nopkg" then
    if request.artifact.path ≠ "" ∨ request.artifact.sha256 ≠ "" then
      .error "nopkg must not include installer content"
    else .ok (d.result kind)
  else deriveInstaller plugin request kind d

def derive (request : ReconcileRequest) (declared : AList (fun _ : String => Json)) :
    Except String Derived := do
  let explicit ← unmarshal declared
  let explicit ← resolveSubjects plugin explicit
  if request.prepared = false ∧ request.artifact.path = "" then .ok ((identify request explicit).result "")
  else
    let typed := (describe request (identify request explicit)).installerType request.artifact
    derivePrepared plugin request typed.1 typed.2

end

end PkginfoDerivation
