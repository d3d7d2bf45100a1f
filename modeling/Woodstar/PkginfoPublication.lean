import Woodstar.PkginfoDerivation

/-!
# Publication of derived pkginfo

The owned fields of a package after the importer and the merge of its patch, and what a
publication is to keep: declared values, no trace of an earlier publication, a removal that
works and a path that the copies lead to.
-/
namespace PkginfoDerivation

open JsonValues

@[ext] structure OwnedFields where
  receipts : List Json := []
  installs : List Json := []
  itemsToCopy : List Json := []
  installedSize : Int := 0
  restartAction : String := ""
  uninstallable : Bool := false
  uninstallMethod : String := ""
  minimumOSVersion : String := ""

/-- An entry under the field names of the API, which it must not use itself. -/
def importEntry (aliases : List (String × String)) : Json → Option Json
  | .object fields =>
    if fields.any (fun field => aliases.any (fun rename => rename.2 == field.1)) = true then none
    else some (.object (fields.map (fun field =>
      (((aliases.find? (fun rename => rename.1 == field.1)).map Prod.snd).getD field.1, field.2))))
  | _ => none

def importList (aliases : List (String × String)) : Option Json → Option (Option Json)
  | none => some none
  | some (.array entries) => (entries.mapM (importEntry aliases)).map (fun es => some (.array es))
  | some _ => none

def receiptAliases : List (String × String) := [("packageid", "package_id")]

def installAliases : List (String × String) :=
  [("CFBundleIdentifier", "bundle_identifier"), ("CFBundleName", "bundle_name"),
    ("CFBundleShortVersionString", "bundle_short_version"), ("CFBundleVersion", "bundle_version"),
    ("minosversion", "minimum_os_version")]

/-- Native `None` is the absent restart action of the API. -/
def importRestartAction : Option Json → Option Json
  | some (.string "None") => some .null
  | value => value

def mergeText (current : String) : Option Json → Option String
  | none => some current
  | some .null => some ""
  | some (.string text) => some text
  | some _ => none

def mergeBool (current : Bool) : Option Json → Option Bool
  | none => some current
  | some (.bool value) => some value
  | some _ => none

def mergeInt (current : Int) : Option Json → Option Int
  | none => some current
  | some (.number value) =>
    if value.den = 1 ∧ 0 ≤ value.num ∧ value.num < 2 ^ 63 then some value.num else none
  | some _ => none

def isObject : Json → Bool
  | .object _ => true
  | _ => false

def mergeList (current : List Json) : Option Json → Option (List Json)
  | none => some current
  | some (.array entries) => if entries.all isObject = true then some entries else none
  | some _ => none

/-- The owned fields of the package under the version after the import of the values and the
merge of its patch; `none` when the importer or the patch refuses a value. -/
def publish (values : Fields) (current : OwnedFields) : Option OwnedFields := do
  let receipts ← importList receiptAliases (values "receipts")
  let installs ← importList installAliases (values "installs")
  let receipts ← mergeList current.receipts receipts
  let installs ← mergeList current.installs installs
  let itemsToCopy ← mergeList current.itemsToCopy (values "items_to_copy")
  let installedSize ← mergeInt current.installedSize (values "installed_size")
  let restartAction ← mergeText current.restartAction (importRestartAction (values "RestartAction"))
  let uninstallable ← mergeBool current.uninstallable (values "uninstallable")
  let uninstallMethod ← mergeText current.uninstallMethod (values "uninstall_method")
  let minimumOSVersion ← mergeText current.minimumOSVersion (values "minimum_os_version")
  some { receipts, installs, itemsToCopy, installedSize, restartAction, uninstallable, uninstallMethod,
         minimumOSVersion }

/-- What is left of the source inside the copied item. -/
def Inside (source : List Char) (action : PackageItemToCopy) (rest : List Char) : Prop :=
  (source = LexicalPaths.clean action.sourceItem.toList ∧ rest = []) ∨
    source = LexicalPaths.clean action.sourceItem.toList ++ '/' :: rest

/-- Where a copy puts what is inside its item: under the destination path, then the
destination item or the base name of the source item, then the rest. -/
def placed (action : PackageItemToCopy) (rest : List Char) : List Char :=
  LexicalPaths.join [action.destinationPath.toList,
    if action.destinationItem = "" then LexicalPaths.base (LexicalPaths.clean action.sourceItem.toList)
    else action.destinationItem.toList, rest]

/-- One copy takes the source along and puts it at the path, which is the observed one if
there is one, or no copy does and the path is the observed one. -/
def CopyRule (copies : List PackageItemToCopy) (source observed path : String) : Prop :=
  (∃ before action after rest, copies = before ++ action :: after ∧
    Inside (LexicalPaths.clean source.toList) action rest ∧ path.toList = placed action rest ∧
    (∀ other ∈ before ++ after, ∀ rest, ¬Inside (LexicalPaths.clean source.toList) other rest) ∧
    (observed = "" ∨ observed = path)) ∨
  ((∀ action ∈ copies, ∀ rest, ¬Inside (LexicalPaths.clean source.toList) action rest) ∧ path = observed)

def copiesOf (values : Fields) : List PackageItemToCopy :=
  (decodeCopies ((values "items_to_copy").getD .null)).1

section

variable (plugin : Plugin)

/-- A native entry of the installs list stays, and an inspected application is replaced by
its native item at the path where the declared copies put it. -/
def EntryKept (copies : List PackageItemToCopy) (entry kept : Json) : Prop :=
  if isNative entry = true then kept = entry
  else ∃ decoded subject app path, entry.viaAny = some decoded ∧
    plugin.decodeSubject decoded = some subject ∧ subject.kind = "app" ∧ subject.app = some app ∧
    path ≠ "" ∧ CopyRule copies subject.path subject.installedPath path ∧
    applicationItem plugin app path "" = .ok kept

def DeclaredKept (declared : AList (fun _ : String => Json)) (key : String) (value : Json)
    (kept : Option Json) : Prop :=
  match key, value with
  | "installs", .array entries => ∃ items, kept = some (.array items) ∧
      List.Forall₂ (EntryKept plugin
        (copiesOf (fun key => (declared.lookup key).bind Json.viaAny))) entries items
  | _, value => kept = some value

/-- The parts of a declared value that are to stay as they are. -/
def stayingParts (key : String) (value : Json) : List Json :=
  match key, value with
  | "installs", .array entries => entries.filter (fun entry => isNative entry)
  | _, value => [value]

/-- The installer type, declared or by the format. -/
def installerKind (request : ReconcileRequest) (declared : AList (fun _ : String => Json)) : String :=
  match declared.lookup "installer_type" with
  | some (.string kind) => if kind ≠ "" then kind else NativeDefaults.formatKind request.artifact
  | _ => NativeDefaults.formatKind request.artifact

def Managed (request : ReconcileRequest) (declared : AList (fun _ : String => Json)) : Prop :=
  installerKind request declared = "pkg" ∨ installerKind request declared = "copy_from_dmg"

/-- The item is that of the selected application at the path where it is installed: by the
copies of a disk image, else the observed one. -/
def Located (request : ReconcileRequest) (kind : String) (copies : List PackageItemToCopy) (item : Json) : Prop :=
  ∃ subject app versionKey path, macEvidence plugin request.artifact = .ok (some (subject, app), versionKey) ∧
    path ≠ "" ∧ applicationItem plugin app path versionKey = .ok item ∧
    if kind = "copy_from_dmg" then CopyRule copies subject.path subject.installedPath path
    else path = subject.installedPath

/-- The declaration or the derivation supplies the installs list: a declared receipts list or
check script is the detection instead. -/
def SuppliesInstalls (declared : AList (fun _ : String => Json)) : Prop :=
  (declared.lookup "installs").isSome = true ∨
    ((declared.lookup "receipts").isSome = false ∧ (declared.lookup "installcheck_script").isSome = false)

/-- What the derived values of a declaration keep, and what their publication to a package
version leaves of an earlier one: nothing but an installs list that they do not supply. -/
structure Lawful (request : ReconcileRequest) (declared : AList (fun _ : String => Json))
    (values : Fields) : Prop where
  declaredKept : ∀ key value, declared.lookup key = some value →
    (∀ part ∈ stayingParts key value, ∀ number ∈ part.numbers, Json.Survives number) →
    DeclaredKept plugin declared key value (values key)
  historyFree : Managed request declared → SuppliesInstalls declared → ∀ stored published fresh,
    publish values stored = some published → publish values {} = some fresh → published = fresh
  unmanaged : Managed request declared → ¬SuppliesInstalls declared → ∀ stored published fresh,
    publish values stored = some published → publish values {} = some fresh →
    published = { fresh with installs := stored.installs }
  removal : declared.lookup "uninstall_method" = none → ∀ method,
    values "uninstall_method" = some (.string method) → values "uninstallable" = some (.bool true) ∧
      (NativeDefaults.hasEntries (values "receipts") = true ∨
        NativeDefaults.hasEntries (values "items_to_copy") = true)
  located : declared.lookup "installs" = none → ∀ items, values "installs" = some (.array items) →
    ∀ item ∈ items, Located plugin request (installerKind request declared) (copiesOf values) item

end

end PkginfoDerivation
