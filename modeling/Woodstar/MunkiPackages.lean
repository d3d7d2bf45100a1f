import Woodstar.GoText
import Woodstar.Primitives

/-!
# Munki packages

`internal/munki/packages/pkginfo.go`: the part of a package, of its software title and of
the storage objects that its pkginfo names, locates and relates.
-/
namespace MunkiPackages

open GoText (IsInt64 formatInt parseInt cut)
open Primitives (trimSpace)

/-- A storage object with what its methods return. -/
structure Object where
  id : Int
  filename : List Char
  available : Bool
  sha256Value : String
  sizeKBValue : Int
  deriving DecidableEq, Repr

inductive InstallerType where
  | pkg | copyFromDMG | nopkg
  deriving DecidableEq, Repr

/-- `packageID` is 0 and `packageVersion` empty when a whole title is meant. -/
structure PackageReference where
  softwareID : Int
  softwareName : String
  packageID : Int := 0
  packageVersion : String := ""
  deriving DecidableEq, Repr

structure PackageSoftware where
  id : Int
  name : String
  iconObjectID : Option Int := none
  deriving DecidableEq, Repr

structure Package where
  id : Int
  software : PackageSoftware
  version : String
  installerType : InstallerType
  installerObjectID : Option Int
  requires : List PackageReference := []
  updateFor : List PackageReference := []
  deriving DecidableEq, Repr

structure PkginfoObjects where
  installer : Option Object
  icon : Option Object
  deriving DecidableEq, Repr

/-- An empty text or 0 is left out of the plist. -/
structure MunkiPkginfo where
  name : String
  version : String
  installerType : Option InstallerType := none
  requires : List String
  updateFor : List String
  installerItemLocation : List Char := []
  installerItemHash : String := ""
  installerItemSize : Int := 0
  iconName : List Char := []
  iconHash : String := ""
  deriving DecidableEq, Repr

def munkiVersionedSoftwareName (softwareName packageVersion : String) : String :=
  if trimSpace packageVersion = "" then trimSpace softwareName
  else trimSpace softwareName ++ "--" ++ trimSpace packageVersion

def packageObjectLocation (packageID : Int) (role : List Char) (obj : Object) : List Char :=
  if packageID ≤ 0 ∨ obj.id ≤ 0 ∨ obj.filename = [] then []
  else ['/'].intercalate ["packages".toList, formatInt packageID, role, obj.filename]

def installerItemLocation (pkg : Package) (obj : Object) : List Char :=
  packageObjectLocation pkg.id "installer".toList obj

def parseInstallerItemLocation (location : List Char) : Option Int :=
  match location.splitOn '/' with
  | [root, rawID, role, filename] =>
    if root ≠ "packages".toList ∨ role ≠ "installer".toList ∨ filename = [] then none
    else (parseInt rawID).filter (fun id => decide (0 < id))
  | _ => none

def iconName (obj : Object) : List Char :=
  if obj.id ≤ 0 ∨ obj.filename = [] then [] else formatInt obj.id ++ '-' :: obj.filename

def parseIconName (name : List Char) : Option Int :=
  match cut ['-'] name with
  | some (rawID, filename) =>
    if filename = [] then none else (parseInt rawID).filter (fun id => decide (0 < id))
  | none => none

def munkiReferenceNames (references : List PackageReference) : List String :=
  references.map (fun ref => munkiVersionedSoftwareName ref.softwareName ref.packageVersion)

def munkiPkginfoFromPackage (pkg : Package) (objects : PkginfoObjects) : MunkiPkginfo :=
  let item : MunkiPkginfo :=
    { name := pkg.software.name, version := pkg.version
      installerType := if pkg.installerType = .pkg then none else some pkg.installerType
      requires := munkiReferenceNames pkg.requires, updateFor := munkiReferenceNames pkg.updateFor }
  let item :=
    match objects.installer with
    | some installer =>
      if pkg.installerType = .nopkg then item
      else { item with
             installerItemLocation := installerItemLocation pkg installer
             installerItemHash := installer.sha256Value
             installerItemSize := installer.sizeKBValue }
    | none => item
  match objects.icon with
  | some icon => { item with iconName := iconName icon, iconHash := icon.sha256Value }
  | none => item

/-- `none` says that the installer object is not finalized. -/
def pkginfo (pkg : Package) (objects : PkginfoObjects) : Option MunkiPkginfo :=
  if pkg.installerType ≠ .nopkg ∧ objects.installer.any Object.available = false then none
  else some (munkiPkginfoFromPackage pkg objects)

/-- A finalized object under an identifier and a filename that storage hands out. -/
structure Object.Finalized (obj : Object) : Prop where
  available : obj.available = true
  positive : 0 < obj.id
  fits : IsInt64 obj.id
  named : obj.filename ≠ []
  flat : '/' ∉ obj.filename

section Pkginfo

variable {pkg : Package} {objects : PkginfoObjects} {obj : Object}

theorem munkiPkginfoFromPackage_identity (pkg : Package) (objects : PkginfoObjects) :
    let item := munkiPkginfoFromPackage pkg objects
    item.name = pkg.software.name ∧ item.version = pkg.version ∧
      item.requires = munkiReferenceNames pkg.requires ∧
      item.updateFor = munkiReferenceNames pkg.updateFor := by
  obtain ⟨installer, icon⟩ := objects
  cases installer with
  | none => cases icon <;> exact ⟨rfl, rfl, rfl, rfl⟩
  | some installer =>
    by_cases htype : pkg.installerType = .nopkg
    · cases icon <;> simp [munkiPkginfoFromPackage, htype]
    · cases icon <;> simp [munkiPkginfoFromPackage, htype]

theorem munkiPkginfoFromPackage_installer (htype : pkg.installerType ≠ .nopkg)
    (hobj : objects.installer = some obj) :
    let item := munkiPkginfoFromPackage pkg objects
    item.installerItemLocation = installerItemLocation pkg obj ∧
      item.installerItemHash = obj.sha256Value ∧ item.installerItemSize = obj.sizeKBValue := by
  obtain ⟨installer, icon⟩ := objects
  obtain rfl : installer = some obj := hobj
  cases icon <;> simp [munkiPkginfoFromPackage, htype]

theorem munkiPkginfoFromPackage_nopkg (htype : pkg.installerType = .nopkg) :
    (munkiPkginfoFromPackage pkg objects).installerItemLocation = [] := by
  obtain ⟨installer, icon⟩ := objects
  cases installer <;> cases icon <;> simp [munkiPkginfoFromPackage, htype]

theorem munkiPkginfoFromPackage_icon (pkg : Package) (objects : PkginfoObjects) :
    let item := munkiPkginfoFromPackage pkg objects
    item.iconName = objects.icon.elim [] iconName ∧
      item.iconHash = objects.icon.elim "" Object.sha256Value := by
  obtain ⟨installer, icon⟩ := objects
  cases installer with
  | none => cases icon <;> exact ⟨rfl, rfl⟩
  | some installer =>
    by_cases htype : pkg.installerType = .nopkg
    · cases icon <;> simp [munkiPkginfoFromPackage, htype]
    · cases icon <;> simp [munkiPkginfoFromPackage, htype]

theorem pkginfo_ok (h : pkg.installerType ≠ .nopkg → ∃ obj, objects.installer = some obj ∧ obj.Finalized) :
    pkginfo pkg objects = some (munkiPkginfoFromPackage pkg objects) := by
  refine if_neg ?_
  rintro ⟨htype, hmissing⟩
  obtain ⟨obj, hobj, hfinal⟩ := h htype
  rw [hobj, Option.any_some, hfinal.available] at hmissing
  cases hmissing

end Pkginfo

section Paths

variable {obj : Object}

theorem iconName_eq (h : obj.Finalized) : iconName obj = formatInt obj.id ++ '-' :: obj.filename :=
  if_neg (not_or.mpr ⟨not_le.mpr h.positive, h.named⟩)

theorem iconName_ne_nil (h : obj.Finalized) : iconName obj ≠ [] := by
  rw [iconName_eq h]
  exact List.append_ne_nil_of_right_ne_nil _ (List.cons_ne_nil _ _)

/-- A separator is no digit. -/
theorem notMem_formatInt {i : Int} (hpos : 0 < i) {c : Char} (hc : c.isDigit = false) :
    c ∉ formatInt i := by
  intro hmem
  have hdigit := GoText.isDigit_of_mem_formatInt hpos.le hmem
  rw [hc] at hdigit
  cases hdigit

theorem parseInt_positive {i : Int} (hpos : 0 < i) (hfits : IsInt64 i) :
    (parseInt (formatInt i)).filter (fun id => decide (0 < id)) = some i := by
  rw [GoText.parseInt_formatInt hfits, Option.filter_some, if_pos (decide_eq_true hpos)]

/-- The object of an icon is read back from its name. -/
theorem parseIconName_iconName (h : obj.Finalized) : parseIconName (iconName obj) = some obj.id := by
  rw [iconName_eq h, parseIconName, GoText.cut_append (notMem_formatInt h.positive (by decide))]
  simp only [if_neg h.named]
  exact parseInt_positive h.positive h.fits

/-- The package of an installer is read back from its location. -/
theorem parse_installerItemLocation {pkg : Package} (hpos : 0 < pkg.id) (hfits : IsInt64 pkg.id)
    (h : obj.Finalized) : parseInstallerItemLocation (installerItemLocation pkg obj) = some pkg.id := by
  have hlocation : installerItemLocation pkg obj =
      ['/'].intercalate ["packages".toList, formatInt pkg.id, "installer".toList, obj.filename] := by
    refine if_neg ?_
    rw [not_or, not_or]
    exact ⟨not_le.mpr hpos, not_le.mpr h.positive, h.named⟩
  have hparts : ∀ part ∈ ["packages".toList, formatInt pkg.id, "installer".toList, obj.filename],
      '/' ∉ part := by
    simp only [List.forall_mem_cons]
    exact ⟨by decide, notMem_formatInt hpos (by decide), by decide, h.flat, nofun⟩
  rw [parseInstallerItemLocation, hlocation, List.splitOn_intercalate '/' hparts (List.cons_ne_nil _ _)]
  simp only [ne_eq, not_true_eq_false, h.named, or_false, if_false]
  exact parseInt_positive hpos hfits

theorem installerItemLocation_ne_nil {pkg : Package} (hpos : 0 < pkg.id) (hfits : IsInt64 pkg.id)
    (h : obj.Finalized) : installerItemLocation pkg obj ≠ [] := by
  intro hnil
  have hparse := parse_installerItemLocation hpos hfits h
  rw [hnil] at hparse
  cases hparse

end Paths

end MunkiPackages
