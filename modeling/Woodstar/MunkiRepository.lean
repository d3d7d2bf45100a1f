import Mathlib.Data.Finset.Sort
import Mathlib.Data.List.AList
import Woodstar.MunkiProjection
import Woodstar.Targeting

/-!
# A host's Munki repository

`internal/munki/service.go` over one snapshot of the tables and of the storage objects:
the manifest, the catalog, the icon hashes, and the files that paths resolve to.
-/
namespace MunkiRepository

open GoText (IsInt64)
open MunkiPackages
open MunkiProjection
open Primitives (trimSpace)
open Targeting (Direction)

structure PackageRow where
  id : Int
  softwareID : Int
  version : String
  installerType : InstallerType
  installerObjectID : Option Int := none
  deriving DecidableEq, Repr

inductive RelationKind where
  | requires
  | updateFor
  deriving DecidableEq, Repr

structure RelationRow where
  id : Int
  packageID : Int
  kind : RelationKind
  targetSoftwareID : Int
  targetPackageID : Option Int := none
  position : Int
  deriving DecidableEq, Repr

/-- An exclude row has no actions and no selection. -/
structure TargetRow where
  softwareID : Int
  direction : Direction
  position : Int
  labelID : Int
  actions : List Action := []
  packageSelection : Option PackageStrategy := none
  pinnedPackageID : Option Int := none
  deriving DecidableEq, Repr

structure Tables where
  software : List PackageSoftware := []
  packages : List PackageRow := []
  relations : List RelationRow := []
  targets : List TargetRow := []
  /-- Label and host. -/
  labelMembership : List (Int × Int) := []

section Queries

variable (t : Tables)

/-- A row of `packageRelationsByPackage`. -/
def reference (r : RelationRow) : Option PackageReference :=
  (t.software.find? (fun software => software.id = r.targetSoftwareID)).map (fun software =>
    { softwareID := r.targetSoftwareID, softwareName := software.name
      packageID := r.targetPackageID.getD 0
      packageVersion :=
        (t.packages.find? (fun row => r.targetPackageID = some row.id)).elim "" PackageRow.version })

def packageRelations (kind : RelationKind) (packageID : Int) : List PackageReference :=
  let rows := t.relations.filter (fun r => decide (r.packageID = packageID ∧ r.kind = kind))
  let ordered := rows.mergeSort (fun a b =>
    decide (a.position < b.position ∨ a.position = b.position ∧ a.id ≤ b.id))
  ordered.filterMap (reference t)

/-- A row of `packageSelectSQL` with its relations. -/
def packageFromRow (row : PackageRow) : Option Package :=
  (t.software.find? (fun software => software.id = row.softwareID)).map (fun software =>
    { id := row.id, software := software, version := row.version
      installerType := row.installerType, installerObjectID := row.installerObjectID
      requires := packageRelations t .requires row.id
      updateFor := packageRelations t .updateFor row.id })

/-- `nameLe` compares `lower(name)` in the collation of the database. -/
def listRepositoryPackages (nameLe : String → String → Bool) : List Package :=
  (t.packages.filterMap (packageFromRow t)).mergeSort (fun a b =>
    nameLe a.software.name b.software.name &&
      (!nameLe b.software.name a.software.name ||
        decide (a.software.id < b.software.id ∨ a.software.id = b.software.id ∧ a.id ≤ b.id)))

def packagesByID (ids : List Int) : List Package :=
  (t.packages.filter (fun row => decide (row.id ∈ ids))).filterMap (packageFromRow t)

local instance lawfulPair : LawfulBEq (Int × Int) := inferInstance

def holdsLabel (hostID labelID : Int) : Bool := decide ((labelID, hostID) ∈ t.labelMembership)

/-- `matching_includes` of one title. -/
def matchingIncludes (hostID softwareID : Int) : List TargetRow :=
  let excluded := t.targets.any (fun target =>
    decide (target.softwareID = softwareID ∧ target.direction = .excluded) && holdsLabel t hostID target.labelID)
  if excluded = true then []
  else
    t.targets.filter (fun target =>
      decide (target.softwareID = softwareID ∧ target.direction = .included) &&
        holdsLabel t hostID target.labelID &&
        t.packages.any (fun row => decide (row.softwareID = softwareID ∧
          (target.packageSelection = some .latest ∨ target.pinnedPackageID = some row.id))))

def munkiResolvedSoftwareForHost (hostID : Int) : List (Int × TargetRow) :=
  t.software.filterMap (fun software =>
    let ranked := (matchingIncludes t hostID software.id).mergeSort (fun a b => decide (a.position ≤ b.position))
    ranked.head?.map (fun target => (software.id, target)))

/-- The join of a resolved title with its packages. -/
def selects (target : TargetRow) (row : PackageRow) : Bool :=
  match target.packageSelection with
  | some .latest => target.pinnedPackageID.isNone
  | some .specific => decide (target.pinnedPackageID = some row.id)
  | none => false

def effectivePackageRows (hostID : Int) : List (PackageRow × TargetRow) :=
  let rows := (munkiResolvedSoftwareForHost t hostID).flatMap (fun resolved =>
    (t.packages.filter (fun row => decide (row.softwareID = resolved.1) && selects resolved.2 row)).map
      (fun row => (row, resolved.2)))
  rows.mergeSort (fun a b =>
    decide (a.1.softwareID < b.1.softwareID ∨ a.1.softwareID = b.1.softwareID ∧ a.1.id ≤ b.1.id))

def effectivePackagesForHost (hostID : Int) : List EffectivePackage :=
  let rows := effectivePackageRows t hostID
  let pkgs := packagesByID t (rows.map (fun row => row.1.id))
  rows.filterMap (fun row =>
    (pkgs.find? (fun pkg => pkg.id = row.1.id)).map (fun pkg =>
      { actions := row.2.actions, package := pkg
        selector := { strategy := row.2.packageSelection.getD .latest, packageID := row.2.pinnedPackageID } }))

end Queries

/-- One state of the tables, as the constraints and the stores keep it, and of the object
service, which finds the objects asked for. -/
structure Snapshot extends Tables where
  nameLe : String → String → Bool
  stored : Int → Option Object
  listByIDs : List Int → Int → Option Object
  lists : ∀ ids id, listByIDs ids id = if id ∈ ids then stored id else none
  finalized : ∀ id obj, stored id = some obj → obj.id = id ∧ obj.Finalized
  softwareKey : (software.map PackageSoftware.id).Nodup
  packageKey : (packages.map PackageRow.id).Nodup
  packageID : ∀ row ∈ packages, 0 < row.id ∧ IsInt64 row.id
  packageTitle : ∀ row ∈ packages, row.softwareID ∈ software.map PackageSoftware.id
  relationTarget : ∀ r ∈ relations, ∀ id ∈ r.targetPackageID,
    ∃ row ∈ packages, row.id = id ∧ row.softwareID = r.targetSoftwareID
  name : ∀ title ∈ software, trimSpace title.name = title.name
  version : ∀ row ∈ packages, trimSpace row.version = row.version
  installerType : ∀ row ∈ packages, row.installerType = .nopkg ↔ row.installerObjectID = none
  installerStored : ∀ row ∈ packages, ∀ id ∈ row.installerObjectID, (stored id).isSome
  iconStored : ∀ title ∈ software, ∀ id ∈ title.iconObjectID, (stored id).isSome

inductive ServiceError where
  | notFound
  | notFinalized (packageID : Int)
  deriving DecidableEq, Repr

structure RenderedManifest where
  catalogs : List String
  managedInstalls : List String := []
  managedUninstalls : List String := []
  managedUpdates : List String := []
  optionalInstalls : List String := []
  optionalUninstalls : List String := []
  defaultInstalls : List String := []
  featuredItems : List String := []
  deriving DecidableEq, Repr

def RenderedManifest.entries (m : RenderedManifest) : List String :=
  m.managedInstalls ++ m.managedUninstalls ++ m.managedUpdates ++ m.optionalInstalls ++
    m.optionalUninstalls ++ m.defaultInstalls ++ m.featuredItems

def catalogName : String := "woodstar"

def appendUnique (values : List String) (value : String) : List String :=
  if value ∈ values then values else values ++ [value]

def manifestItemName (pkg : EffectivePackage) : String :=
  if pkg.selector.strategy = .specific then
    munkiVersionedSoftwareName pkg.package.software.name pkg.package.version
  else pkg.package.software.name

def addAction (name : String) (m : RenderedManifest) : Action → RenderedManifest
  | .managedInstalls => { m with managedInstalls := appendUnique m.managedInstalls name }
  | .managedUninstalls => { m with managedUninstalls := appendUnique m.managedUninstalls name }
  | .managedUpdates => { m with managedUpdates := appendUnique m.managedUpdates name }
  | .optionalInstalls => { m with optionalInstalls := appendUnique m.optionalInstalls name }
  | .optionalUninstalls => { m with optionalUninstalls := appendUnique m.optionalUninstalls name }
  | .defaultInstalls => { m with defaultInstalls := appendUnique m.defaultInstalls name }
  | .featuredItems => { m with featuredItems := appendUnique m.featuredItems name }

def addManifestPackage (m : RenderedManifest) (pkg : EffectivePackage) : RenderedManifest :=
  pkg.actions.foldl (addAction (manifestItemName pkg)) m

structure PackageInstaller where
  packageID : Int
  installerItemLocation : List Char
  object : Object
  deriving DecidableEq, Repr

def objectByID (objects : Int → Option Object) (id : Option Int) : Option Object := id.bind objects

def packageObjects (pkg : Package) (objects : Int → Option Object) : PkginfoObjects :=
  { installer := objectByID objects pkg.installerObjectID
    icon := objectByID objects pkg.software.iconObjectID }

section Service

variable (s : Snapshot) (hostID : Int)

def manifest : RenderedManifest :=
  (effectivePackagesForHost s.toTables hostID).foldl addManifestPackage { catalogs := [catalogName] }

def repository : List Package := listRepositoryPackages s.toTables s.nameLe

def projection : RepositoryProjection :=
  buildRepositoryProjection (effectivePackagesForHost s.toTables hostID) (repository s)

def objectsForPackages (pkgs : List Package) : Int → Option Object :=
  let ids := pkgs.flatMap (fun pkg => pkg.installerObjectID.toList ++ pkg.software.iconObjectID.toList)
  if ids = [] then fun _ => none else s.listByIDs ids

def catalogItems (pkgs : List Package) : Except ServiceError (List MunkiPkginfo) :=
  pkgs.mapM (fun pkg =>
    match pkginfo pkg (packageObjects pkg (objectsForPackages s pkgs)) with
    | some item => .ok item
    | none => .error (.notFinalized pkg.id))

def catalog (name : String) : Except ServiceError (List MunkiPkginfo) :=
  if name ≠ catalogName then .error .notFound else catalogItems s (projection s hostID).packages

def addIconHash (objects : Int → Option Object) (hashes : AList (fun _ : List Char => String)) (id : Int) :
    AList (fun _ : List Char => String) :=
  match objects id with
  | some obj => if obj.available = true then hashes.insert (iconName obj) obj.sha256Value else hashes
  | none => hashes

def iconHashes : AList (fun _ : List Char => String) :=
  let iconIDs := (projection s hostID).iconObjectIDs.sort (· ≤ ·)
  if iconIDs = [] then ∅ else iconIDs.foldl (addIconHash (s.listByIDs iconIDs)) ∅

def resolvePackageFile (key : List Char) : Except ServiceError PackageInstaller :=
  if key = [] then .error .notFound
  else
    match parseInstallerItemLocation key with
    | none => .error .notFound
    | some packageID =>
      if packageID ∉ (projection s hostID).packageIDs then .error .notFound
      else
        match packagesByID s.toTables [packageID] with
        | [] => .error .notFound
        | pkg :: _ =>
          if pkg.installerType = .nopkg then .error .notFound
          else
            match objectByID (objectsForPackages s [pkg]) pkg.installerObjectID with
            | none => .error (.notFinalized pkg.id)
            | some obj =>
              if obj.available = false then .error (.notFinalized pkg.id)
              else if installerItemLocation pkg obj ≠ key then .error .notFound
              else .ok { packageID := pkg.id, installerItemLocation := key, object := obj }

def resolveIconFile (key : List Char) : Except ServiceError Object :=
  if key = [] then .error .notFound
  else
    match parseIconName key with
    | none => .error .notFound
    | some iconObjectID =>
      if iconObjectID ∉ (projection s hostID).iconObjectIDs then .error .notFound
      else
        match s.listByIDs [iconObjectID] iconObjectID with
        | none => .error .notFound
        | some obj =>
          if obj.available = false ∨ iconName obj ≠ key then .error .notFound else .ok obj

end Service

variable {t : Tables} {s : Snapshot} {hostID : Int} {pkg other : Package} {pkgs : List Package}

section Queries

theorem packageFromRow_some {row : PackageRow} (h : packageFromRow t row = some pkg) :
    ∃ title ∈ t.software, title.id = row.softwareID ∧
      pkg = { id := row.id, software := title, version := row.version
              installerType := row.installerType, installerObjectID := row.installerObjectID
              requires := packageRelations t .requires row.id
              updateFor := packageRelations t .updateFor row.id } := by
  obtain ⟨title, htitle, rfl⟩ := Option.map_eq_some_iff.mp h
  have hid := List.find?_some htitle
  rw [decide_eq_true_eq] at hid
  exact ⟨title, List.mem_of_find?_eq_some htitle, hid, rfl⟩

theorem packageFromRow_id {row : PackageRow} (h : packageFromRow t row = some pkg) : pkg.id = row.id := by
  obtain ⟨title, -, -, rfl⟩ := packageFromRow_some h
  rfl

theorem packageFromRow_exists {row : PackageRow} (hrow : row ∈ s.packages) :
    ∃ pkg, packageFromRow s.toTables row = some pkg := by
  obtain ⟨title, htitle, hid⟩ := List.mem_map.mp (s.packageTitle row hrow)
  have hsome : (s.software.find? (fun software => software.id = row.softwareID)).isSome :=
    List.find?_isSome.mpr ⟨title, htitle, decide_eq_true hid⟩
  obtain ⟨found, hfound⟩ := Option.isSome_iff_exists.mp hsome
  exact ⟨_, Option.map_eq_some_iff.mpr ⟨found, hfound, rfl⟩⟩

theorem mem_packagesByID {ids : List Int} : pkg ∈ packagesByID t ids ↔
    ∃ row ∈ t.packages, row.id ∈ ids ∧ packageFromRow t row = some pkg := by
  simp only [packagesByID, List.mem_filterMap, List.mem_filter, decide_eq_true_eq, and_assoc]

theorem mem_repository : pkg ∈ repository s ↔
    ∃ row ∈ s.packages, packageFromRow s.toTables row = some pkg := by
  simp only [repository, listRepositoryPackages, List.mem_mergeSort, List.mem_filterMap]

theorem repository_unique (h : pkg ∈ repository s) (h' : other ∈ repository s) (hid : pkg.id = other.id) :
    pkg = other := by
  obtain ⟨row, hrow, hpkg⟩ := mem_repository.mp h
  obtain ⟨row', hrow', hother⟩ := mem_repository.mp h'
  rw [packageFromRow_id hpkg, packageFromRow_id hother] at hid
  obtain rfl := List.inj_on_of_nodup_map s.packageKey hrow hrow' hid
  exact Option.some.inj (hpkg.symm.trans hother)

theorem mem_repository_of_packagesByID {ids : List Int} (h : pkg ∈ packagesByID s.toTables ids) :
    pkg ∈ repository s ∧ pkg.id ∈ ids := by
  obtain ⟨row, hrow, hid, hpkg⟩ := mem_packagesByID.mp h
  exact ⟨mem_repository.mpr ⟨row, hrow, hpkg⟩, packageFromRow_id hpkg ▸ hid⟩

/-- A package asked for by its id is the first that is found. -/
theorem packagesByID_self (h : pkg ∈ repository s) : ∃ rest, packagesByID s.toTables [pkg.id] = pkg :: rest := by
  obtain ⟨row, hrow, hpkg⟩ := mem_repository.mp h
  have hmem : pkg ∈ packagesByID s.toTables [pkg.id] :=
    mem_packagesByID.mpr ⟨row, hrow, List.mem_singleton.mpr (packageFromRow_id hpkg).symm, hpkg⟩
  obtain ⟨first, rest, hlist⟩ := List.exists_cons_of_ne_nil (List.ne_nil_of_mem hmem)
  have hfirst : first ∈ packagesByID s.toTables [pkg.id] := hlist ▸ List.mem_cons_self
  obtain ⟨hin, hid⟩ := mem_repository_of_packagesByID hfirst
  obtain rfl := repository_unique hin h (List.mem_singleton.mp hid)
  exact ⟨rest, hlist⟩

/-- What the host is assigned is in the repository of the same snapshot. -/
theorem effective_mem_repository {e : EffectivePackage} (h : e ∈ effectivePackagesForHost s.toTables hostID) :
    e.package ∈ repository s := by
  obtain ⟨row, -, hfound⟩ := List.mem_filterMap.mp h
  obtain ⟨pkg, hpkg, rfl⟩ := Option.map_eq_some_iff.mp hfound
  exact (mem_repository_of_packagesByID (List.mem_of_find?_eq_some hpkg)).1

theorem mem_projection : pkg ∈ (projection s hostID).packages ↔
    pkg ∈ repository s ∧ pkg.id ∈ (projection s hostID).packageIDs := by
  simp only [projection, buildRepositoryProjection, List.mem_filter, decide_eq_true_eq]

theorem effective_mem_projection {e : EffectivePackage}
    (h : e ∈ effectivePackagesForHost s.toTables hostID) : e.package ∈ (projection s hostID).packages := by
  obtain ⟨⟨hstart, -⟩, -⟩ :=
    packageIDs_least (effectivePackagesForHost s.toTables hostID) (repository s)
  refine mem_projection.mpr ⟨effective_mem_repository h, hstart ?_⟩
  exact Finset.mem_coe.mpr (List.mem_toFinset.mpr (List.mem_map_of_mem h))

/-- A package that a catalog package refers to is in the catalog. -/
theorem referred_mem_projection {ref : PackageReference} (h : pkg ∈ (projection s hostID).packages)
    (href : ref ∈ pkg.requires ++ pkg.updateFor) (hother : other ∈ repository s)
    (hrefers : Refers (repository s) ref other.id) : other ∈ (projection s hostID).packages := by
  obtain ⟨⟨-, hclosed⟩, -⟩ :=
    packageIDs_least (effectivePackagesForHost s.toTables hostID) (repository s)
  obtain ⟨hpkg, hin⟩ := mem_projection.mp h
  exact mem_projection.mpr ⟨hother, hclosed other.id (.reference hpkg hin href hrefers)⟩

end Queries

section Objects

theorem mem_software_of_mem_repository (h : pkg ∈ repository s) : pkg.software ∈ s.software := by
  obtain ⟨row, -, hpkg⟩ := mem_repository.mp h
  obtain ⟨title, htitle, -, rfl⟩ := packageFromRow_some hpkg
  exact htitle

theorem objectsForPackages_eq {id : Int} (hpkg : pkg ∈ pkgs)
    (hid : id ∈ pkg.installerObjectID.toList ++ pkg.software.iconObjectID.toList) :
    objectsForPackages s pkgs id = s.stored id := by
  have hmem : id ∈ pkgs.flatMap
      (fun pkg => pkg.installerObjectID.toList ++ pkg.software.iconObjectID.toList) :=
    List.mem_flatMap.mpr ⟨pkg, hpkg, hid⟩
  simp only [objectsForPackages, if_neg (List.ne_nil_of_mem hmem), s.lists, if_pos hmem]

/-- The installer of a package, as storage holds it. -/
theorem installer_stored (h : pkg ∈ repository s) (htype : pkg.installerType ≠ .nopkg) :
    ∃ id obj, pkg.installerObjectID = some id ∧ s.stored id = some obj ∧ obj.Finalized := by
  obtain ⟨row, hrow, hpkg⟩ := mem_repository.mp h
  obtain ⟨title, -, -, rfl⟩ := packageFromRow_some hpkg
  obtain ⟨id, hid⟩ := Option.ne_none_iff_exists'.mp (fun hnone => htype ((s.installerType row hrow).mpr hnone))
  obtain ⟨obj, hobj⟩ := Option.isSome_iff_exists.mp (s.installerStored row hrow id hid)
  exact ⟨id, obj, hid, hobj, (s.finalized id obj hobj).2⟩

theorem icon_stored (h : pkg ∈ repository s) {id : Int} (hid : pkg.software.iconObjectID = some id) :
    ∃ obj, s.stored id = some obj ∧ obj.id = id ∧ obj.Finalized := by
  obtain ⟨obj, hobj⟩ := Option.isSome_iff_exists.mp
    (s.iconStored pkg.software (mem_software_of_mem_repository h) id hid)
  exact ⟨obj, hobj, s.finalized id obj hobj⟩

theorem packageObjects_installer (hpkg : pkg ∈ pkgs) {id : Int} (hid : pkg.installerObjectID = some id) :
    (packageObjects pkg (objectsForPackages s pkgs)).installer = s.stored id := by
  simp only [packageObjects, objectByID, hid, Option.bind_some]
  exact objectsForPackages_eq hpkg (List.mem_append_left _ (by rw [hid]; exact List.mem_singleton_self id))

theorem packageObjects_icon (hpkg : pkg ∈ pkgs) :
    (packageObjects pkg (objectsForPackages s pkgs)).icon = pkg.software.iconObjectID.bind s.stored := by
  cases hid : pkg.software.iconObjectID with
  | none => simp only [packageObjects, objectByID, hid, Option.bind_none]
  | some id =>
    simp only [packageObjects, objectByID, hid, Option.bind_some]
    exact objectsForPackages_eq hpkg (List.mem_append_right _ (by rw [hid]; exact List.mem_singleton_self id))

/-- The item of a package of the catalog. -/
def itemOf (s : Snapshot) (pkgs : List Package) (pkg : Package) : MunkiPkginfo :=
  munkiPkginfoFromPackage pkg (packageObjects pkg (objectsForPackages s pkgs))

theorem catalogItems_ok (h : ∀ pkg ∈ pkgs, pkg ∈ repository s) :
    catalogItems s pkgs = .ok (pkgs.map (itemOf s pkgs)) := by
  have hitem : ∀ pkg ∈ pkgs, pkginfo pkg (packageObjects pkg (objectsForPackages s pkgs)) =
      some (itemOf s pkgs pkg) := by
    intro pkg hpkg
    refine pkginfo_ok (fun htype => ?_)
    obtain ⟨id, obj, hid, hobj, hfinal⟩ := installer_stored (h pkg hpkg) htype
    exact ⟨obj, (packageObjects_installer hpkg hid).trans hobj, hfinal⟩
  suffices hall : ∀ rest : List Package, rest ⊆ pkgs →
      rest.mapM (fun pkg => match pkginfo pkg (packageObjects pkg (objectsForPackages s pkgs)) with
        | some item => Except.ok item
        | none => Except.error (ServiceError.notFinalized pkg.id)) =
      .ok (rest.map (itemOf s pkgs)) from hall pkgs (List.Subset.refl pkgs)
  intro rest hrest
  induction rest with
  | nil => rfl
  | cons pkg rest ih =>
    obtain ⟨hpkg, hmore⟩ := List.cons_subset.mp hrest
    rw [List.mapM_cons, hitem pkg hpkg, ih hmore]
    rfl

theorem catalog_ok (s : Snapshot) (hostID : Int) :
    let pkgs := (projection s hostID).packages
    catalog s hostID "woodstar" = .ok (pkgs.map (itemOf s pkgs)) :=
  catalogItems_ok (fun _ hpkg => (mem_projection.mp hpkg).1)

end Objects

section Files

variable {key : List Char}

/-- What an installer path resolves to. -/
theorem resolvePackageFile_ok {file : PackageInstaller} : resolvePackageFile s hostID key = .ok file ↔
    ∃ pkg ∈ (projection s hostID).packages, ∃ obj, pkg.installerType ≠ .nopkg ∧
      pkg.installerObjectID.bind s.stored = some obj ∧ installerItemLocation pkg obj = key ∧
      file = { packageID := pkg.id, installerItemLocation := key, object := obj } := by
  constructor
  · intro h
    unfold resolvePackageFile at h
    split at h
    · cases h
    split at h
    · cases h
    rename_i packageID hparse
    by_cases hallowed : packageID ∉ (projection s hostID).packageIDs
    · rw [if_pos hallowed] at h
      cases h
    rw [if_neg hallowed] at h
    split at h
    · cases h
    rename_i pkg rest hfound
    by_cases htype : pkg.installerType = .nopkg
    · rw [if_pos htype] at h
      cases h
    rw [if_neg htype] at h
    obtain ⟨hpkg, hid⟩ := mem_repository_of_packagesByID
      (show pkg ∈ packagesByID s.toTables [packageID] from hfound ▸ List.mem_cons_self)
    obtain rfl := List.mem_singleton.mp hid
    have hstored : objectByID (objectsForPackages s [pkg]) pkg.installerObjectID =
        pkg.installerObjectID.bind s.stored := by
      obtain ⟨id, -, hsome, -⟩ := installer_stored hpkg htype
      calc objectByID (objectsForPackages s [pkg]) pkg.installerObjectID
          = s.stored id := packageObjects_installer (List.mem_singleton_self pkg) hsome
        _ = pkg.installerObjectID.bind s.stored := by rw [hsome, Option.bind_some]
    rw [hstored] at h
    split at h
    · cases h
    rename_i obj hobj
    by_cases havailable : obj.available = false
    · rw [if_pos havailable] at h
      cases h
    rw [if_neg havailable] at h
    by_cases hkey : installerItemLocation pkg obj ≠ key
    · rw [if_pos hkey] at h
      cases h
    rw [if_neg hkey] at h
    exact ⟨pkg, mem_projection.mpr ⟨hpkg, not_not.mp hallowed⟩, obj, htype, hobj, not_not.mp hkey,
      (Except.ok.inj h).symm⟩
  · rintro ⟨pkg, hmem, obj, htype, hobj, rfl, rfl⟩
    obtain ⟨hpkg, hin⟩ := mem_projection.mp hmem
    obtain ⟨id, obj', hid, hobj', hfinal⟩ := installer_stored hpkg htype
    rw [hid, Option.bind_some, hobj'] at hobj
    obtain rfl := Option.some.inj hobj
    obtain ⟨row, hrow, hfrom⟩ := mem_repository.mp hpkg
    obtain ⟨hpos, hfits⟩ := packageFromRow_id hfrom ▸ s.packageID row hrow
    obtain ⟨rest, hfound⟩ := packagesByID_self hpkg
    have hstored : objectByID (objectsForPackages s [pkg]) pkg.installerObjectID = some obj' :=
      (packageObjects_installer (List.mem_singleton_self pkg) hid).trans hobj'
    simp only [resolvePackageFile, if_neg (installerItemLocation_ne_nil hpos hfits hfinal),
      parse_installerItemLocation hpos hfits hfinal, if_neg (not_not.mpr hin), hfound, if_neg htype,
      hstored, hfinal.available, Bool.true_eq_false, if_false, ne_eq, not_true_eq_false]

theorem mem_iconObjectIDs {id : Int} : id ∈ (projection s hostID).iconObjectIDs ↔
    ∃ pkg ∈ (projection s hostID).packages, pkg.software.iconObjectID = some id := by
  simp only [projection, buildRepositoryProjection, List.mem_toFinset, List.mem_filterMap]

/-- What an icon path resolves to. -/
theorem resolveIconFile_ok {obj : Object} : resolveIconFile s hostID key = .ok obj ↔
    ∃ pkg ∈ (projection s hostID).packages,
      pkg.software.iconObjectID.bind s.stored = some obj ∧ iconName obj = key := by
  constructor
  · intro h
    unfold resolveIconFile at h
    split at h
    · cases h
    split at h
    · cases h
    rename_i id hparse
    by_cases hallowed : id ∉ (projection s hostID).iconObjectIDs
    · rw [if_pos hallowed] at h
      cases h
    rw [if_neg hallowed] at h
    split at h
    · cases h
    rename_i found hfound
    by_cases hbad : found.available = false ∨ iconName found ≠ key
    · rw [if_pos hbad] at h
      cases h
    rw [if_neg hbad] at h
    obtain rfl := Except.ok.inj h
    obtain ⟨pkg, hpkg, hid⟩ := mem_iconObjectIDs.mp (not_not.mp hallowed)
    rw [s.lists, if_pos (List.mem_singleton_self id)] at hfound
    refine ⟨pkg, hpkg, ?_, not_not.mp (not_or.mp hbad).2⟩
    rw [hid, Option.bind_some, hfound]
  · rintro ⟨pkg, hpkg, hobj, rfl⟩
    obtain ⟨id, hid, hobj⟩ := Option.bind_eq_some_iff.mp hobj
    obtain ⟨rfl, hfinal⟩ := s.finalized id obj hobj
    have hin := mem_iconObjectIDs.mpr ⟨pkg, hpkg, hid⟩
    simp only [resolveIconFile, if_neg (iconName_ne_nil hfinal), parseIconName_iconName hfinal,
      if_neg (not_not.mpr hin), s.lists, if_pos (List.mem_singleton_self _), hobj, hfinal.available,
      Bool.true_eq_false, ne_eq, not_true_eq_false, or_self, if_false]

end Files

section Icons

variable {objects : Int → Option Object} {id : Int} {ids : List Int} {name : List Char} {hash : String}

/-- An available object under its icon name. -/
def HasIcon (objects : Int → Option Object) (id : Int) (name : List Char) (hash : String) : Prop :=
  ∃ obj, objects id = some obj ∧ obj.available = true ∧ iconName obj = name ∧ obj.sha256Value = hash

theorem addIconHash_of_not (h : ¬ ∃ hash, HasIcon objects id name hash)
    (hashes : AList (fun _ : List Char => String)) :
    (addIconHash objects hashes id).lookup name = hashes.lookup name := by
  unfold addIconHash
  cases hobj : objects id with
  | none => rfl
  | some obj =>
    by_cases havailable : obj.available = true
    · simp only [if_pos havailable]
      refine AList.lookup_insert_ne (fun hname => h ⟨obj.sha256Value, obj, hobj, havailable, ?_, rfl⟩)
      exact hname.symm
    · simp only [if_neg havailable]

theorem addIconHash_of (h : HasIcon objects id name hash)
    (hashes : AList (fun _ : List Char => String)) :
    (addIconHash objects hashes id).lookup name = some hash := by
  obtain ⟨obj, hobj, havailable, rfl, rfl⟩ := h
  simp only [addIconHash, hobj, if_pos havailable]
  exact AList.lookup_insert _

/-- A name keeps its hash when no other object has it. -/
theorem lookup_foldl_addIconHash
    (hsame : ∀ id ∈ ids, ∀ id' ∈ ids, ∀ hash hash', HasIcon objects id name hash →
      HasIcon objects id' name hash' → hash = hash')
    (hashes : AList (fun _ : List Char => String)) :
    (ids.foldl (addIconHash objects) hashes).lookup name = some hash ↔
      (∃ id ∈ ids, HasIcon objects id name hash) ∨
        (∀ id ∈ ids, ∀ hash', ¬ HasIcon objects id name hash') ∧ hashes.lookup name = some hash := by
  induction ids generalizing hashes with
  | nil => simp
  | cons id ids ih =>
    rw [List.foldl_cons, ih (fun a ha b hb => hsame a (List.mem_cons_of_mem id ha) b (List.mem_cons_of_mem id hb))]
    simp only [List.exists_mem_cons_iff, List.forall_mem_cons]
    by_cases hhas : ∃ hash', HasIcon objects id name hash'
    · obtain ⟨hash', hicon⟩ := hhas
      rw [addIconHash_of hicon]
      constructor
      · rintro (⟨later, hmem, hlater⟩ | ⟨-, heq⟩)
        · exact .inl (.inr ⟨later, hmem, hlater⟩)
        · exact .inl (.inl (Option.some.inj heq ▸ hicon))
      · rintro ((hhere | ⟨later, hmem, hlater⟩) | ⟨⟨hnone, -⟩, -⟩)
        · by_cases hlater : ∃ later ∈ ids, ∃ hash'', HasIcon objects later name hash''
          · obtain ⟨later, hmem, hash'', hicon''⟩ := hlater
            have heq := hsame id List.mem_cons_self later (List.mem_cons_of_mem id hmem) _ _ hhere hicon''
            exact .inl ⟨later, hmem, heq ▸ hicon''⟩
          · push Not at hlater
            have heq := hsame id List.mem_cons_self id List.mem_cons_self _ _ hicon hhere
            exact .inr ⟨hlater, congrArg some heq⟩
        · exact .inl ⟨later, hmem, hlater⟩
        · exact absurd hicon (hnone hash')
    · rw [addIconHash_of_not hhas]
      have hnone : ∀ hash', ¬ HasIcon objects id name hash' := fun hash' h => hhas ⟨hash', h⟩
      simp only [hnone hash, false_or, hnone, not_false_eq_true, implies_true, true_and]

/-- The hashes of the icons of the repository, each under its own name. -/
theorem lookup_iconHashes : (iconHashes s hostID).lookup name = some hash ↔
    ∃ pkg ∈ (projection s hostID).packages, ∃ obj,
      pkg.software.iconObjectID.bind s.stored = some obj ∧ iconName obj = name ∧ obj.sha256Value = hash := by
  have hicon : ∀ id ∈ (projection s hostID).iconObjectIDs.sort (· ≤ ·), ∀ hash,
      HasIcon (s.listByIDs ((projection s hostID).iconObjectIDs.sort (· ≤ ·))) id name hash ↔
        ∃ obj, s.stored id = some obj ∧ iconName obj = name ∧ obj.sha256Value = hash := by
    intro id hid hash
    simp only [HasIcon, s.lists, if_pos hid]
    constructor
    · rintro ⟨obj, hobj, -, hname⟩
      exact ⟨obj, hobj, hname⟩
    · rintro ⟨obj, hobj, hname⟩
      exact ⟨obj, hobj, (s.finalized id obj hobj).2.available, hname⟩
  have hlookup : (iconHashes s hostID).lookup name = some hash ↔
      ∃ id ∈ (projection s hostID).iconObjectIDs, ∃ obj,
        s.stored id = some obj ∧ iconName obj = name ∧ obj.sha256Value = hash := by
    unfold iconHashes
    by_cases hempty : (projection s hostID).iconObjectIDs.sort (· ≤ ·) = []
    · have hnone : ∀ id, id ∉ (projection s hostID).iconObjectIDs := fun id hid =>
        List.ne_nil_of_mem ((Finset.mem_sort (· ≤ ·)).mpr hid) hempty
      simp only [if_pos hempty, hnone, false_and, exists_const, iff_false]
      exact fun h => nomatch h
    · rw [if_neg hempty, lookup_foldl_addIconHash]
      · have hnil : (∅ : AList (fun _ : List Char => String)).lookup name ≠ some hash := nofun
        simp only [hnil, and_false, or_false]
        constructor
        · rintro ⟨id, hid, h⟩
          exact ⟨id, (Finset.mem_sort (· ≤ ·)).mp hid, (hicon id hid hash).mp h⟩
        · rintro ⟨id, hid, h⟩
          exact ⟨id, (Finset.mem_sort (· ≤ ·)).mpr hid, (hicon id ((Finset.mem_sort (· ≤ ·)).mpr hid) hash).mpr h⟩
      · intro id hid id' hid' hash hash' h h'
        obtain ⟨obj, hobj, hname, rfl⟩ := (hicon id hid hash).mp h
        obtain ⟨obj', hobj', hname', rfl⟩ := (hicon id' hid' hash').mp h'
        have hparse := parseIconName_iconName (s.finalized id obj hobj).2
        rw [hname, ← hname', parseIconName_iconName (s.finalized id' obj' hobj').2,
          (s.finalized id obj hobj).1, (s.finalized id' obj' hobj').1] at hparse
        obtain rfl := Option.some.inj hparse
        rw [Option.some.inj (hobj.symm.trans hobj')]
  rw [hlookup]
  constructor
  · rintro ⟨id, hid, obj, hobj, hname⟩
    obtain ⟨pkg, hpkg, hicon⟩ := mem_iconObjectIDs.mp hid
    exact ⟨pkg, hpkg, obj, by rw [hicon, Option.bind_some, hobj], hname⟩
  · rintro ⟨pkg, hpkg, obj, hbind, hname⟩
    obtain ⟨id, hid, hobj⟩ := Option.bind_eq_some_iff.mp hbind
    exact ⟨id, mem_iconObjectIDs.mpr ⟨pkg, hpkg, hid⟩, obj, hobj, hname⟩

end Icons

section References

/-- The entry is the name of the item, or the name with the version. -/
def Names (name version entry : String) : Prop := entry = name ∨ entry = name ++ "--" ++ version

theorem munkiVersionedSoftwareName_trimmed {name version : String} (hname : trimSpace name = name) :
    munkiVersionedSoftwareName name version =
      if trimSpace version = "" then name else name ++ "--" ++ trimSpace version := by
  rw [munkiVersionedSoftwareName, hname]

theorem names_versioned {name version : String} (hname : trimSpace name = name)
    (hversion : trimSpace version = version) :
    Names name version (munkiVersionedSoftwareName name version) := by
  rw [munkiVersionedSoftwareName_trimmed hname, hversion]
  by_cases hempty : version = ""
  · rw [if_pos hempty]
    exact .inl rfl
  · rw [if_neg hempty]
    exact .inr rfl

theorem mem_packageRelations {kind : RelationKind} {packageID : Int} {ref : PackageReference}
    (h : ref ∈ packageRelations t kind packageID) : ∃ r ∈ t.relations, reference t r = some ref := by
  obtain ⟨r, hr, href⟩ := List.mem_filterMap.mp h
  exact ⟨r, (List.mem_filter.mp (List.mem_mergeSort.mp hr)).1, href⟩

theorem reference_of_mem {ref : PackageReference} (h : pkg ∈ repository s)
    (href : ref ∈ pkg.requires ++ pkg.updateFor) : ∃ r ∈ s.relations, reference s.toTables r = some ref := by
  obtain ⟨row, -, hpkg⟩ := mem_repository.mp h
  obtain ⟨title, -, -, rfl⟩ := packageFromRow_some hpkg
  exact (List.mem_append.mp href).elim mem_packageRelations mem_packageRelations

theorem version_trimmed (h : pkg ∈ repository s) : trimSpace pkg.version = pkg.version := by
  obtain ⟨row, hrow, hpkg⟩ := mem_repository.mp h
  obtain ⟨title, -, -, rfl⟩ := packageFromRow_some hpkg
  exact s.version row hrow

theorem name_trimmed (h : pkg ∈ repository s) : trimSpace pkg.software.name = pkg.software.name :=
  s.name pkg.software (mem_software_of_mem_repository h)

/-- The repository has the package that is referred to, or one of the title that is, under
the name in the reference. -/
theorem reference_resolves {r : RelationRow} {ref : PackageReference} (hr : r ∈ s.relations)
    (href : reference s.toTables r = some ref)
    (htitle : ∃ row ∈ s.packages, row.softwareID = ref.softwareID) :
    ∃ other ∈ repository s, Refers (repository s) ref other.id ∧
      Names other.software.name other.version
        (munkiVersionedSoftwareName ref.softwareName ref.packageVersion) := by
  obtain ⟨title, hfound, rfl⟩ := Option.map_eq_some_iff.mp href
  have hid := List.find?_some hfound
  rw [decide_eq_true_eq] at hid
  have hnamed : ∀ other ∈ repository s, other.software.id = r.targetSoftwareID → other.software = title := by
    intro other hother hsame
    exact List.inj_on_of_nodup_map s.softwareKey (mem_software_of_mem_repository hother)
      (List.mem_of_find?_eq_some hfound) (hsame.trans hid.symm)
  cases htarget : r.targetPackageID with
  | some packageID =>
    obtain ⟨row, hrow, rfl, hsoftware⟩ := s.relationTarget r hr packageID htarget
    obtain ⟨other, hother⟩ := packageFromRow_exists hrow
    have hmem := mem_repository.mpr ⟨row, hrow, hother⟩
    obtain ⟨owner, -, howner, heq⟩ := packageFromRow_some hother
    have hsame : other.software = title :=
      hnamed other hmem (by rw [heq]; exact howner.trans hsoftware)
    have hversion : (s.packages.find? (fun row' => some row.id = some row'.id)).elim "" PackageRow.version =
        other.version := by
      obtain ⟨found, hfind⟩ := Option.isSome_iff_exists.mp
        (List.find?_isSome.mpr ⟨row, hrow, decide_eq_true rfl⟩ :
          (s.packages.find? (fun row' => some row.id = some row'.id)).isSome)
      have hkey := List.find?_some hfind
      rw [decide_eq_true_eq] at hkey
      obtain rfl := List.inj_on_of_nodup_map s.packageKey hrow (List.mem_of_find?_eq_some hfind)
        (Option.some.inj hkey)
      rw [hfind, heq]
      rfl
    refine ⟨other, hmem, ?_, ?_⟩
    · simp only [Refers, Option.getD_some, if_pos (s.packageID row hrow).1]
      rw [packageFromRow_id hother]
    · simp only [hversion]
      rw [← hsame]
      exact names_versioned (name_trimmed hmem) (version_trimmed hmem)
  | none =>
    obtain ⟨row, hrow, hsoftware⟩ := htitle
    obtain ⟨other, hother⟩ := packageFromRow_exists hrow
    have hmem := mem_repository.mpr ⟨row, hrow, hother⟩
    obtain ⟨owner, -, howner, heq⟩ := packageFromRow_some hother
    have hof : other.software.id = r.targetSoftwareID := by rw [heq]; exact howner.trans hsoftware
    have hsame := hnamed other hmem hof
    have hversion : (s.packages.find? (fun row' => none = some row'.id)).elim "" PackageRow.version = "" := by
      rw [List.find?_eq_none.mpr (fun row' _ => by simp)]
      rfl
    refine ⟨other, hmem, ?_, ?_⟩
    · simp only [Refers, Option.getD_none, lt_irrefl, if_false]
      exact ⟨other, hmem, hof, rfl⟩
    · simp only [hversion]
      rw [← hsame, munkiVersionedSoftwareName_trimmed (name_trimmed hmem), if_pos (by decide)]
      exact .inl rfl

end References

section Manifest

theorem mem_appendUnique {values : List String} {value entry : String}
    (h : entry ∈ appendUnique values value) : entry ∈ values ∨ entry = value := by
  unfold appendUnique at h
  by_cases hmem : value ∈ values
  · rw [if_pos hmem] at h
    exact .inl h
  · rw [if_neg hmem, List.mem_append, List.mem_singleton] at h
    exact h

theorem mem_entries_addAction {name entry : String} {m : RenderedManifest} {action : Action}
    (h : entry ∈ (addAction name m action).entries) : entry ∈ m.entries ∨ entry = name := by
  simp only [RenderedManifest.entries, List.mem_append] at h ⊢
  have happend : ∀ {values}, entry ∈ appendUnique values name → entry ∈ values ∨ entry = name := mem_appendUnique
  cases action <;> simp only [addAction] at h <;>
    rcases h with (((((h | h) | h) | h) | h) | h) | h <;>
    first
      | tauto
      | (apply happend at h; tauto)

theorem mem_entries_addManifestPackage {pkg : EffectivePackage} {entry : String} {m : RenderedManifest}
    (h : entry ∈ (addManifestPackage m pkg).entries) : entry ∈ m.entries ∨ entry = manifestItemName pkg := by
  unfold addManifestPackage at h
  generalize pkg.actions = actions at h
  induction actions generalizing m with
  | nil => exact .inl h
  | cons action actions ih =>
    rcases ih h with hold | hname
    · exact mem_entries_addAction hold
    · exact .inr hname

/-- Every entry comes from an assigned package. -/
theorem mem_entries_manifest {entry : String} (h : entry ∈ (manifest s hostID).entries) :
    ∃ e ∈ effectivePackagesForHost s.toTables hostID, entry = manifestItemName e := by
  suffices hall : ∀ (effective : List EffectivePackage) (m : RenderedManifest),
      entry ∈ (effective.foldl addManifestPackage m).entries →
      entry ∈ m.entries ∨ ∃ e ∈ effective, entry = manifestItemName e from
    (hall _ _ h).resolve_left (by simp [RenderedManifest.entries])
  intro effective
  induction effective with
  | nil => exact fun m hm => .inl hm
  | cons e effective ih =>
    intro m hm
    rcases ih _ hm with hold | ⟨later, hlater, hname⟩
    · exact (mem_entries_addManifestPackage hold).imp_right (fun hname => ⟨e, List.mem_cons_self, hname⟩)
    · exact .inr ⟨later, List.mem_cons_of_mem e hlater, hname⟩

theorem names_manifestItemName {e : EffectivePackage} (h : e.package ∈ repository s) :
    Names e.package.software.name e.package.version (manifestItemName e) := by
  unfold manifestItemName
  by_cases hspecific : e.selector.strategy = .specific
  · rw [if_pos hspecific]
    exact names_versioned (name_trimmed h) (version_trimmed h)
  · rw [if_neg hspecific]
    exact .inl rfl

end Manifest

section Consistent

/-- The item is that of its package, and its paths lead to the objects whose hashes it states. -/
structure Serves (s : Snapshot) (hostID : Int) (pkg : Package) (item : MunkiPkginfo) : Prop where
  name : item.name = pkg.software.name
  version : item.version = pkg.version
  requires : item.requires = munkiReferenceNames pkg.requires
  updateFor : item.updateFor = munkiReferenceNames pkg.updateFor
  noInstaller : pkg.installerType = .nopkg → item.installerItemLocation = []
  installer : pkg.installerType ≠ .nopkg → ∃ obj,
    pkg.installerObjectID = some obj.id ∧
      resolvePackageFile s hostID item.installerItemLocation =
        .ok { packageID := pkg.id, installerItemLocation := item.installerItemLocation, object := obj } ∧
      item.installerItemHash = obj.sha256Value ∧ item.installerItemSize = obj.sizeKBValue
  noIcon : pkg.software.iconObjectID = none → item.iconName = []
  icon : pkg.software.iconObjectID ≠ none → ∃ obj,
    pkg.software.iconObjectID = some obj.id ∧ resolveIconFile s hostID item.iconName = .ok obj ∧
      item.iconHash = obj.sha256Value

/-- The items are those of the host's packages, and everything else the host is given is
named by one of them. -/
structure SelfConsistent (s : Snapshot) (hostID : Int) (items : List MunkiPkginfo) : Prop where
  serves : List.Forall₂ (Serves s hostID) (projection s hostID).packages items
  entries : ∀ entry ∈ (manifest s hostID).entries, ∃ item ∈ items, Names item.name item.version entry
  references : ∀ pkg ∈ (projection s hostID).packages, ∀ ref ∈ pkg.requires ++ pkg.updateFor,
    (∃ row ∈ s.packages, row.softwareID = ref.softwareID) →
      ∃ item ∈ items, Names item.name item.version
        (munkiVersionedSoftwareName ref.softwareName ref.packageVersion)
  hashes : ∀ name hash, (iconHashes s hostID).lookup name = some hash ↔
    ∃ item ∈ items, item.iconName = name ∧ name ≠ [] ∧ item.iconHash = hash
  installerPaths : ∀ key file, resolvePackageFile s hostID key = .ok file →
    ∃ item ∈ items, item.installerItemLocation = key
  iconPaths : ∀ key obj, resolveIconFile s hostID key = .ok obj → ∃ item ∈ items, item.iconName = key

theorem itemOf_installer (h : pkg ∈ repository s) (hmem : pkg ∈ pkgs) (htype : pkg.installerType ≠ .nopkg)
    {obj : Object} (hobj : pkg.installerObjectID.bind s.stored = some obj) :
    (itemOf s pkgs pkg).installerItemLocation = installerItemLocation pkg obj ∧
      (itemOf s pkgs pkg).installerItemHash = obj.sha256Value ∧
      (itemOf s pkgs pkg).installerItemSize = obj.sizeKBValue := by
  obtain ⟨id, -, hid, -⟩ := installer_stored h htype
  rw [hid, Option.bind_some] at hobj
  exact munkiPkginfoFromPackage_installer htype ((packageObjects_installer hmem hid).trans hobj)

theorem itemOf_icon (hmem : pkg ∈ pkgs) :
    (itemOf s pkgs pkg).iconName = (pkg.software.iconObjectID.bind s.stored).elim [] iconName ∧
      (itemOf s pkgs pkg).iconHash =
        (pkg.software.iconObjectID.bind s.stored).elim "" Object.sha256Value := by
  have hicon := munkiPkginfoFromPackage_icon pkg
    (packageObjects pkg (objectsForPackages s pkgs))
  simp only [packageObjects_icon hmem] at hicon
  exact hicon

/-- A package of the catalog is served as its item says. -/
theorem serves_itemOf (h : pkg ∈ (projection s hostID).packages) :
    Serves s hostID pkg (itemOf s (projection s hostID).packages pkg) := by
  have hrepository := (mem_projection.mp h).1
  obtain ⟨hname, hversion, hrequires, hupdateFor⟩ := munkiPkginfoFromPackage_identity pkg
    (packageObjects pkg (objectsForPackages s (projection s hostID).packages))
  refine ⟨hname, hversion, hrequires, hupdateFor, munkiPkginfoFromPackage_nopkg, ?_, ?_, ?_⟩
  · intro htype
    obtain ⟨id, obj, hid, hobj, -⟩ := installer_stored hrepository htype
    have hbind : pkg.installerObjectID.bind s.stored = some obj := by rw [hid, Option.bind_some, hobj]
    obtain ⟨hlocation, hhash, hsize⟩ := itemOf_installer hrepository h htype hbind
    refine ⟨obj, by rw [hid, (s.finalized id obj hobj).1], ?_, hhash, hsize⟩
    exact resolvePackageFile_ok.mpr ⟨pkg, h, obj, htype, hbind, hlocation.symm, rfl⟩
  · intro hnone
    rw [(itemOf_icon h).1, hnone]
    rfl
  · intro hsome
    obtain ⟨id, hid⟩ := Option.ne_none_iff_exists'.mp hsome
    obtain ⟨obj, hobj, rfl, -⟩ := icon_stored hrepository hid
    have hbind : pkg.software.iconObjectID.bind s.stored = some obj := by rw [hid, Option.bind_some, hobj]
    obtain ⟨hicon, hhash⟩ := itemOf_icon h
    rw [hbind] at hicon hhash
    exact ⟨obj, hid, resolveIconFile_ok.mpr ⟨pkg, h, hbind, hicon.symm⟩, hhash⟩

theorem exists_itemOf {P : MunkiPkginfo → Prop} (h : pkg ∈ pkgs) (hitem : P (itemOf s pkgs pkg)) :
    ∃ item ∈ pkgs.map (itemOf s pkgs), P item :=
  ⟨_, List.mem_map_of_mem h, hitem⟩

theorem names_itemOf {entry : String} (h : Names pkg.software.name pkg.version entry) :
    Names (itemOf s pkgs pkg).name (itemOf s pkgs pkg).version entry := by
  obtain ⟨hname, hversion, -⟩ := munkiPkginfoFromPackage_identity pkg
    (packageObjects pkg (objectsForPackages s pkgs))
  simp only [itemOf, hname, hversion]
  exact h

/-- A host's manifest, catalog, icon hashes and files agree, in every snapshot. -/
theorem repository_consistent (s : Snapshot) (hostID : Int) :
    ∃ items, catalog s hostID "woodstar" = .ok items ∧ SelfConsistent s hostID items := by
  refine ⟨_, catalog_ok s hostID, ?_, ?_, ?_, ?_, ?_, ?_⟩
  · refine List.forall₂_map_right_iff.mpr (List.forall₂_same.mpr (fun pkg hpkg => ?_))
    exact serves_itemOf hpkg
  · intro entry hentry
    obtain ⟨e, he, rfl⟩ := mem_entries_manifest hentry
    exact exists_itemOf (effective_mem_projection he)
      (names_itemOf (names_manifestItemName (effective_mem_repository he)))
  · intro pkg hpkg ref href htitle
    obtain ⟨r, hr, hreference⟩ := reference_of_mem (mem_projection.mp hpkg).1 href
    obtain ⟨other, hother, hrefers, hnames⟩ := reference_resolves hr hreference htitle
    exact exists_itemOf (referred_mem_projection hpkg href hother hrefers) (names_itemOf hnames)
  · intro name hash
    rw [lookup_iconHashes]
    constructor
    · rintro ⟨pkg, hpkg, obj, hobj, rfl, rfl⟩
      obtain ⟨hicon, hhash⟩ := itemOf_icon hpkg
      rw [hobj] at hicon hhash
      obtain ⟨id, -, hstored⟩ := Option.bind_eq_some_iff.mp hobj
      exact exists_itemOf hpkg ⟨hicon, iconName_ne_nil (s.finalized id obj hstored).2, hhash⟩
    · rintro ⟨item, hitem, rfl, hne, rfl⟩
      obtain ⟨pkg, hpkg, rfl⟩ := List.mem_map.mp hitem
      obtain ⟨hicon, hhash⟩ := itemOf_icon hpkg
      cases hobj : pkg.software.iconObjectID.bind s.stored with
      | none => exact absurd (by rw [hicon, hobj]; rfl) hne
      | some obj =>
        rw [hobj] at hicon hhash
        exact ⟨pkg, hpkg, obj, hobj, hicon.symm, hhash.symm⟩
  · intro key file hfile
    obtain ⟨pkg, hpkg, obj, htype, hobj, hkey, -⟩ := resolvePackageFile_ok.mp hfile
    have hlocation := (itemOf_installer (mem_projection.mp hpkg).1 hpkg htype hobj).1
    exact exists_itemOf hpkg (hlocation.trans hkey)
  · intro key obj hfile
    obtain ⟨pkg, hpkg, hobj, hkey⟩ := resolveIconFile_ok.mp hfile
    have hicon := (itemOf_icon (s := s) hpkg).1
    rw [hobj] at hicon
    exact exists_itemOf hpkg (hicon.trans hkey)

end Consistent

/-- A package requires a title that has no packages. -/
def emptyTitleSnapshot : Snapshot where
  software := [{ id := 1, name := "Editor" }, { id := 2, name := "Runtime" }]
  packages := [{ id := 10, softwareID := 1, version := "1.0", installerType := .nopkg }]
  relations := [{ id := 1, packageID := 10, kind := .requires, targetSoftwareID := 2, position := 0 }]
  targets := [{ softwareID := 1, direction := .included, position := 0, labelID := 5
                actions := [.managedInstalls], packageSelection := some .latest }]
  labelMembership := [(5, 1)]
  nameLe := fun a b => decide (a ≤ b)
  stored := fun _ => none
  listByIDs := fun _ _ => none
  lists := by intro ids id; exact (ite_self none).symm
  finalized := nofun
  softwareKey := by decide
  packageKey := by decide
  packageID := by simp [IsInt64]
  packageTitle := by decide
  relationTarget := by decide
  name := by decide
  version := by decide
  installerType := by decide
  installerStored := by decide
  iconStored := by decide

/-- Nothing in the catalog is what the item requires. -/
theorem empty_title_required : ∃ items, catalog emptyTitleSnapshot 1 "woodstar" = .ok items ∧
    ∃ item ∈ items, ∃ name ∈ item.requires, ¬ ∃ other ∈ items, Names other.name other.version name := by
  refine ⟨[{ name := "Editor", version := "1.0", installerType := some .nopkg, requires := ["Runtime"]
             updateFor := [] }], by decide +kernel, _, List.mem_singleton_self _, "Runtime",
    List.mem_singleton_self _, ?_⟩
  simp only [List.mem_singleton, exists_eq_left, Names]
  decide

end MunkiRepository
