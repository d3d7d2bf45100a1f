import Woodstar.KeyedUpserts
import Woodstar.SoftwarePruning

/-!
# Software snapshots

`internal/inventory/projection_store.go` in one transaction of its own: the staged
entries of a report, the catalog of titles and versions that they are reconciled
with, and the rows of the host that they replace. Times of writing are left out.
-/
namespace SoftwareCatalog

open FirstWins (firstBy)
open KeyedRows (Table upsertAll)
open KeyedUpserts (Distinct Upsert isDistinct keep putAllChecked)
open Primitives (Fault isText)
open SoftwarePruning (HostSoftwareEntry Software SoftwareTitle nullIfEmpty softwareSourceValues
  stageSoftwareSnapshot)

structure TitleRow where
  name : String
  source : String
  extensionFor : String
  bundleIdentifier : String
  vendor : String
  deriving DecidableEq, Repr

/-- The name of a version is not in its unique key. -/
structure VersionRow where
  key : Software
  name : String
  deriving DecidableEq, Repr

structure PathRow where
  hostID : Int
  softwareID : Int
  installedPath : String
  signatureSigned : Option Bool
  identifier : String
  signingAuthority : String
  teamIdentifier : String
  cdhash : Option String
  executableSHA256 : Option String
  executablePath : Option String
  deriving DecidableEq, Repr

/-- UNIQUE (name, source, extension_for, bundle_identifier). -/
def TitleRow.nameKey (title : TitleRow) : Option (String × String × String × String) :=
  some (title.name, title.source, title.extensionFor, title.bundleIdentifier)

/-- `software_titles_bundle_idx`, WHERE bundle_identifier <> ''. -/
def TitleRow.bundleKey (title : TitleRow) : Option (String × String × String) :=
  if title.bundleIdentifier = "" then none
  else some (title.bundleIdentifier, title.source, title.extensionFor)

def PathRow.key (path : PathRow) : Int × Int × String := (path.hostID, path.softwareID, path.installedPath)

/-- A link is under its host and version and holds when the software was last opened. -/
structure Db where
  hosts : List Int := []
  titles : Table TitleRow := Table.empty
  software : Table VersionRow := Table.empty
  links : Int × Int → Option (Option Int) := fun _ => none
  paths : Table PathRow := Table.empty

/-- The unique keys, and the title of a version. -/
structure Db.Valid (db : Db) : Prop where
  names : Distinct TitleRow.nameKey db.titles
  bundles : Distinct TitleRow.bundleKey db.titles
  versions : Distinct (fun row : VersionRow => some row.key) db.software
  paths : Distinct (fun row : PathRow => some row.key) db.paths
  version_title : ∀ id row, db.software.row id = some row →
    (db.titles.row row.key.titleID).isSome = true

/-- Rows in an order that the statements leave open. -/
structure Plan where
  titles : List TitleRow → List TitleRow
  versions : List VersionRow → List VersionRow
  paths : List PathRow → List PathRow
  titles_perm : ∀ rows, (titles rows).Perm rows
  versions_perm : ∀ rows, (versions rows).Perm rows
  paths_perm : ∀ rows, (paths rows).Perm rows

/-- INSERT ... ON CONFLICT (key) DO UPDATE, which may not meet a row twice. -/
def upsertStatement {α β κ : Type} [DecidableEq κ] (u : Upsert α β κ) (check : Table α → Except Fault Unit)
    (rows : Table α) (entries : List β) : Except Fault (Table α) :=
  if (entries.map u.slot).Nodup then putAllChecked u check rows entries
  else .error (.database "cardinality_violation")

def uniqueViolation {α : Type} : Except Fault α := .error (.database "unique_violation")

def notNullViolation {α : Type} : Except Fault α := .error (.database "not_null_violation")

/-- `(array_agg(vendor ORDER BY (vendor <> '') DESC, position DESC))[1]`. -/
def lastVendor (rows : List HostSoftwareEntry) : String :=
  ((rows.filter (fun entry => entry.vendor ≠ "")).getLast?.map (fun entry => entry.vendor)).getD ""

def titleRow (entry : HostSoftwareEntry) (vendor : String) : TitleRow where
  name := entry.name
  source := entry.source
  extensionFor := entry.extensionFor
  bundleIdentifier := entry.bundleIdentifier
  vendor := vendor

/-- GROUP BY, with the name of the first position. -/
def groupedTitles {κ : Type} [DecidableEq κ] (group : HostSoftwareEntry → κ) (rows : List HostSoftwareEntry) :
    List TitleRow :=
  (firstBy group [] rows).map (fun entry =>
    titleRow entry (lastVendor (rows.filter (fun other => decide (group other = group entry)))))

def bundleGroup (entry : HostSoftwareEntry) : String × String × String :=
  (entry.source, entry.extensionFor, entry.bundleIdentifier)

def nameGroup (entry : HostSoftwareEntry) : String × String × String × String :=
  (entry.name, entry.source, entry.extensionFor, entry.bundleIdentifier)

/-- `vendor = COALESCE(NULLIF(EXCLUDED.vendor, ''), software_titles.vendor)`. -/
def mergeVendor (excluded stored : TitleRow) : TitleRow :=
  { stored with vendor := if excluded.vendor = "" then stored.vendor else excluded.vendor }

/-- A row that the partial index covers. -/
abbrev BundleTitle := { title : TitleRow // title.bundleIdentifier ≠ "" }

def toBundleTitle (title : TitleRow) : Option BundleTitle :=
  if h : title.bundleIdentifier ≠ "" then some ⟨title, h⟩ else none

def bundleUpsert : Upsert TitleRow BundleTitle (String × String × String) where
  key := TitleRow.bundleKey
  slot title := (title.1.bundleIdentifier, title.1.source, title.1.extensionFor)
  make title := title.1
  merge title := mergeVendor title.1
  key_make title := if_neg title.2
  key_merge _ _ h := h

def nameUpsert : Upsert TitleRow TitleRow (String × String × String × String) where
  key := TitleRow.nameKey
  slot title := (title.name, title.source, title.extensionFor, title.bundleIdentifier)
  make title := title
  merge := mergeVendor
  key_make _ := rfl
  key_merge _ _ h := h

/-- Both unique keys of the titles. -/
def checkTitles (titles : Table TitleRow) : Except Fault Unit :=
  if isDistinct TitleRow.nameKey titles && isDistinct TitleRow.bundleKey titles then .ok ()
  else uniqueViolation

def reconcileTitles (plan : Plan) (titles : Table TitleRow) (staged : List HostSoftwareEntry) :
    Except Fault (Table TitleRow) := do
  let titles ← upsertStatement bundleUpsert checkTitles titles
    ((plan.titles (groupedTitles bundleGroup
      (staged.filter (fun entry => entry.bundleIdentifier ≠ "")))).filterMap toBundleTitle)
  upsertStatement nameUpsert checkTitles titles
    (plan.titles (groupedTitles nameGroup (staged.filter (fun entry => entry.bundleIdentifier = ""))))

/-- The condition of the join back. -/
def isTitleOf (title : TitleRow) (entry : HostSoftwareEntry) : Bool :=
  title.source == entry.source && title.extensionFor == entry.extensionFor &&
    ((entry.bundleIdentifier != "" && title.bundleIdentifier == entry.bundleIdentifier) ||
      (entry.bundleIdentifier == "" && title.bundleIdentifier == "" && title.name == entry.name))

/-- `snapshot.title_id` after the join back. -/
def titleID (titles : Table TitleRow) (entry : HostSoftwareEntry) : Option Int :=
  titles.ids.find? (fun id => (titles.row id).any (fun title => isTitleOf title entry))

def versionUpsert : Upsert VersionRow VersionRow Software where
  key row := some row.key
  slot row := row.key
  make row := row
  merge _ stored := stored
  key_make _ := rfl
  key_merge _ _ h := h

def checkVersions (software : Table VersionRow) : Except Fault Unit :=
  if isDistinct (fun row : VersionRow => some row.key) software then .ok () else uniqueViolation

/-- The entries with a value that may be NULL, which a column refuses. -/
def withIDs (id : HostSoftwareEntry → Option Int) (entries : List HostSoftwareEntry) :
    Except Fault (List (Int × HostSoftwareEntry)) :=
  match entries.mapM (fun entry => (id entry).map (fun found => (found, entry))) with
  | some rows => .ok rows
  | none => notNullViolation

/-- DISTINCT ON the unique key, ORDER BY ..., position. -/
def versionRows (titled : List (Int × HostSoftwareEntry)) : List VersionRow :=
  (firstBy (fun row : Int × HostSoftwareEntry => row.2.software row.1) [] titled).map (fun row =>
    { key := row.2.software row.1, name := row.2.name })

/-- `snapshot.software_id` after its join back. -/
def softwareID (titles : Table TitleRow) (software : Table VersionRow) (entry : HostSoftwareEntry) : Option Int :=
  (titleID titles entry).bind (fun title =>
    software.ids.find? (fun id => (software.row id).any (fun row => row.key == entry.software title)))

/-- DISTINCT ON (software_id), position DESC. -/
def linkRows (hostID : Int) (linked : List (Int × HostSoftwareEntry)) : List ((Int × Int) × Option Int) :=
  (firstBy Prod.fst [] linked.reverse).map (fun row => ((hostID, row.1), row.2.lastOpenedAt))

def pathRow (hostID softwareID : Int) (entry : HostSoftwareEntry) : PathRow where
  hostID := hostID
  softwareID := softwareID
  installedPath := entry.installedPath
  signatureSigned := entry.signature.map (fun signature => signature.signed)
  identifier := (entry.signature.map (fun signature => signature.identifier)).getD ""
  signingAuthority := (entry.signature.map (fun signature => signature.authority)).getD ""
  teamIdentifier := (entry.signature.map (fun signature => signature.teamIdentifier)).getD ""
  cdhash := nullIfEmpty ((entry.signature.map (fun signature => signature.cdHash)).getD "")
  executableSHA256 := nullIfEmpty entry.executableSHA256
  executablePath := nullIfEmpty entry.executablePath

/-- DISTINCT ON (software_id, installed_path), position DESC. -/
def pathRows (hostID : Int) (linked : List (Int × HostSoftwareEntry)) : List PathRow :=
  (firstBy (fun row : Int × HostSoftwareEntry => (row.1, row.2.installedPath)) []
    (linked.filter (fun row => row.2.installedPath ≠ "")).reverse).map (fun row => pathRow hostID row.1 row.2)

def pathUpsert : Upsert PathRow PathRow (Int × Int × String) where
  key row := some row.key
  slot := PathRow.key
  make row := row
  merge row _ := row
  key_make _ := rfl
  key_merge _ _ _ := rfl

def checkPaths (paths : Table PathRow) : Except Fault Unit :=
  if isDistinct (fun row : PathRow => some row.key) paths then .ok () else uniqueViolation

def replaceHostSoftwareSnapshot (plan : Plan) (db : Db) (hostID : Int) (linked : List (Int × HostSoftwareEntry)) :
    Except Fault Db := do
  if linked ≠ [] ∧ hostID ∉ db.hosts then
    throw (.database "foreign_key_violation")
  let paths ← upsertStatement pathUpsert checkPaths (keep (fun row => row.hostID ≠ hostID) db.paths)
    (plan.paths (pathRows hostID linked))
  return { db with
    links := upsertAll Prod.fst (fun row _ => row.2) (fun key => if key.1 = hostID then none else db.links key)
      (linkRows hostID linked)
    paths := paths }

def SoftwareSource.valid (source : String) : Bool := softwareSourceValues.contains source

/-- The texts of the COPY. -/
def texts (entry : HostSoftwareEntry) : List String :=
  [entry.name, entry.version, entry.source, entry.bundleIdentifier, entry.extensionID, entry.extensionFor,
    entry.vendor, entry.arch, entry.release, entry.installedPath, entry.executableSHA256,
    entry.executablePath] ++
    (entry.signature.map (fun s => [s.identifier, s.authority, s.teamIdentifier, s.cdHash])).getD []

def reconcileSoftwareCatalog (plan : Plan) (db : Db) (staged : List HostSoftwareEntry) :
    Except Fault (Db × List (Int × HostSoftwareEntry)) := do
  let titles ← reconcileTitles plan db.titles staged
  let titled ← withIDs (titleID titles) staged
  let software ← upsertStatement versionUpsert checkVersions db.software (plan.versions (versionRows titled))
  let linked ← withIDs (softwareID titles software) staged
  return ({ db with titles := titles, software := software }, linked)

def replaceHostSoftware (plan : Plan) (db : Db) (hostID : Int) (entries : List HostSoftwareEntry) :
    Except Fault Db := do
  if entries.any (fun entry => entry.name ≠ "" && !SoftwareSource.valid entry.source) then
    throw (.invalidInput "unsupported software source")
  let staged := stageSoftwareSnapshot entries
  if staged.any (fun entry => !(texts entry).all isText) then
    throw (.database "character_not_in_repertoire")
  let (db, linked) ← reconcileSoftwareCatalog plan db staged
  replaceHostSoftwareSnapshot plan db hostID linked

end SoftwareCatalog
