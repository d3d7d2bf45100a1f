import Mathlib.Data.Finset.Image
import Mathlib.Order.Bounds.Defs
import Woodstar.MunkiPackages
import Woodstar.Saturation

/-!
# The packages of a host's repository

`internal/munki/projection.go`: the packages a host is assigned, what they refer to, and
the updates for either, until nothing is left to add.
-/
namespace MunkiProjection

open MunkiPackages
open Saturation

inductive Action where
  | managedInstalls | managedUninstalls | managedUpdates | optionalInstalls | optionalUninstalls
  | defaultInstalls | featuredItems
  deriving DecidableEq, Repr

inductive PackageStrategy where
  | latest
  | specific
  deriving DecidableEq, Repr

structure PackageSelector where
  strategy : PackageStrategy
  packageID : Option Int := none
  deriving DecidableEq, Repr

structure EffectivePackage where
  actions : List Action
  package : Package
  selector : PackageSelector
  deriving DecidableEq, Repr

structure RepositoryProjection where
  effectivePackages : List EffectivePackage
  packages : List Package
  packageIDs : Finset Int
  iconObjectIDs : Finset Int

def includedSoftwareIDs (repository : List Package) (packageIDs : Finset Int) : Finset Int :=
  ((repository.filter (fun pkg => decide (pkg.id ∈ packageIDs))).map (fun pkg => pkg.software.id)).toFinset

def addReference (repository : List Package) (ref : PackageReference) :
    Finset Int → Finset Int × Bool :=
  if 0 < ref.packageID then add ref.packageID
  else overAll (fun pkg packageIDs =>
    if pkg.software.id ≠ ref.softwareID then (packageIDs, false) else add pkg.id packageIDs) repository

def addReferences (repository : List Package) (references : List PackageReference) :
    Finset Int → Finset Int × Bool :=
  overAll (addReference repository) references

def referenceMatchesIncluded (packageIDs softwareIDs : Finset Int) (ref : PackageReference) : Bool :=
  if 0 < ref.packageID then decide (ref.packageID ∈ packageIDs) else decide (ref.softwareID ∈ softwareIDs)

/-- A package that is not in yet comes in as an update. -/
def includeUpdate (softwareIDs : Finset Int) (pkg : Package) (packageIDs : Finset Int) :
    Finset Int × Bool :=
  if pkg.id ∈ packageIDs then (packageIDs, false)
  else if pkg.updateFor.any (referenceMatchesIncluded packageIDs softwareIDs) = true then
    add pkg.id packageIDs
  else (packageIDs, false)

/-- A package that is in brings in what it refers to. -/
def includeReferences (repository : List Package) (pkg : Package) (packageIDs : Finset Int) :
    Finset Int × Bool :=
  if pkg.id ∈ packageIDs then
    andThen (addReferences repository pkg.requires packageIDs) (addReferences repository pkg.updateFor)
  else (packageIDs, false)

/-- The loop over the repository. The software ids are those of its start. -/
def round (repository : List Package) (packageIDs : Finset Int) : Finset Int × Bool :=
  overAll
    (fun pkg packageIDs' => andThen (includeReferences repository pkg packageIDs')
      (includeUpdate (includedSoftwareIDs repository packageIDs) pkg))
    repository packageIDs

/-- Every package id that the repository holds or refers to. -/
def knownIDs (repository : List Package) : Finset Int :=
  (repository.map Package.id ++
    repository.flatMap (fun pkg => (pkg.requires ++ pkg.updateFor).map PackageReference.packageID)).toFinset

/-- The loop until nothing changes. -/
def closeIDs (repository : List Package) (start : Finset Int) : Option (Finset Int) :=
  saturate (round repository) ((start ∪ knownIDs repository).card + 1) start

def effectiveIDs (effective : List EffectivePackage) : Finset Int :=
  (effective.map (fun pkg => pkg.package.id)).toFinset

def buildRepositoryProjection (effective : List EffectivePackage) (repository : List Package) :
    RepositoryProjection :=
  let packageIDs := (closeIDs repository (effectiveIDs effective)).getD ∅
  let packages := repository.filter (fun pkg => decide (pkg.id ∈ packageIDs))
  { effectivePackages := effective, packages := packages, packageIDs := packageIDs
    iconObjectIDs := (packages.filterMap (fun pkg => pkg.software.iconObjectID)).toFinset }

/-- The package is the one, or one of those, that the reference is to. -/
def Refers (repository : List Package) (ref : PackageReference) (id : Int) : Prop :=
  if 0 < ref.packageID then id = ref.packageID
  else ∃ pkg ∈ repository, pkg.software.id = ref.softwareID ∧ pkg.id = id

/-- What a set of packages brings in. -/
inductive Pulls (repository : List Package) (c : Set Int) : Int → Prop
  | reference {pkg : Package} {ref : PackageReference} {id : Int} (hpkg : pkg ∈ repository)
      (hin : pkg.id ∈ c) (href : ref ∈ pkg.requires ++ pkg.updateFor) (hid : Refers repository ref id) :
      Pulls repository c id
  | update {pkg : Package} {ref : PackageReference} {id : Int} (hpkg : pkg ∈ repository)
      (href : ref ∈ pkg.updateFor) (hid : Refers repository ref id) (hin : id ∈ c) :
      Pulls repository c pkg.id

def Closed (repository : List Package) (c : Set Int) : Prop := ∀ id, Pulls repository c id → id ∈ c

variable {repository : List Package} {ref : PackageReference} {refs : List PackageReference}
  {s : Finset Int} {c : Set Int} {softwareIDs : Finset Int} {pkg : Package}

theorem mem_includedSoftwareIDs {id : Int} :
    id ∈ includedSoftwareIDs repository s ↔ ∃ pkg ∈ repository, pkg.id ∈ s ∧ pkg.software.id = id := by
  simp [includedSoftwareIDs, and_assoc]

section Grows

theorem grows_addTitle (pkg : Package) (s : Finset Int) :
    Grows s (if pkg.software.id ≠ ref.softwareID then (s, false) else add pkg.id s) := by
  by_cases h : pkg.software.id ≠ ref.softwareID
  · rw [if_pos h]
    exact grows_same s
  · rw [if_neg h]
    exact grows_add pkg.id s

theorem grows_addReference (ref : PackageReference) (s : Finset Int) :
    Grows s (addReference repository ref s) := by
  unfold addReference
  by_cases h : 0 < ref.packageID
  · rw [if_pos h]
    exact grows_add ref.packageID s
  · rw [if_neg h]
    exact grows_overAll grows_addTitle repository s

theorem grows_addReferences (refs : List PackageReference) (s : Finset Int) :
    Grows s (addReferences repository refs s) :=
  grows_overAll grows_addReference refs s

theorem grows_includeReferences (pkg : Package) (s : Finset Int) :
    Grows s (includeReferences repository pkg s) := by
  unfold includeReferences
  by_cases h : pkg.id ∈ s
  · rw [if_pos h]
    exact (grows_addReferences pkg.requires s).andThen (grows_addReferences pkg.updateFor)
  · rw [if_neg h]
    exact grows_same s

theorem grows_includeUpdate (pkg : Package) (s : Finset Int) :
    Grows s (includeUpdate softwareIDs pkg s) := by
  unfold includeUpdate
  by_cases h : pkg.id ∈ s
  · rw [if_pos h]
    exact grows_same s
  · rw [if_neg h]
    by_cases hany : pkg.updateFor.any (referenceMatchesIncluded s softwareIDs) = true
    · rw [if_pos hany]
      exact grows_add pkg.id s
    · rw [if_neg hany]
      exact grows_same s

theorem grows_visit (pkg : Package) (s : Finset Int) :
    Grows s (andThen (includeReferences repository pkg s) (includeUpdate softwareIDs pkg)) :=
  (grows_includeReferences pkg s).andThen (grows_includeUpdate pkg)

theorem grows_round (s : Finset Int) : Grows s (round repository s) :=
  grows_overAll grows_visit repository s

end Grows

section Confined

theorem confines_addReference (h : ∀ id, Refers repository ref id → id ∈ c) :
    Confines (addReference repository ref) c := by
  unfold addReference
  by_cases hid : 0 < ref.packageID
  · rw [if_pos hid]
    exact confines_add (h _ (by rw [Refers, if_pos hid]))
  · rw [if_neg hid]
    refine confines_overAll (fun pkg hpkg s hs => ?_)
    by_cases htitle : pkg.software.id ≠ ref.softwareID
    · rwa [if_pos htitle]
    · rw [if_neg htitle]
      refine confines_add (h _ ?_) s hs
      rw [Refers, if_neg hid]
      exact ⟨pkg, hpkg, not_not.mp htitle, rfl⟩

theorem confines_includeReferences (hc : Closed repository c) (hpkg : pkg ∈ repository) :
    Confines (includeReferences repository pkg) c := by
  intro s hs
  have hall : pkg.id ∈ s → ∀ refs ⊆ pkg.requires ++ pkg.updateFor,
      Confines (addReferences repository refs) c :=
    fun hin refs hrefs => confines_overAll (fun ref href =>
      confines_addReference (fun id hid => hc id (.reference hpkg (hs hin) (hrefs href) hid)))
  unfold includeReferences
  by_cases hin : pkg.id ∈ s
  · rw [if_pos hin]
    have hrequires := hall hin pkg.requires (List.subset_append_left _ _) s hs
    exact hall hin pkg.updateFor (List.subset_append_right _ _) _ hrequires
  · rwa [if_neg hin]

/-- A match is a reference to a package of the set. -/
theorem refers_of_matches (hsoftware : ∀ id ∈ softwareIDs, ∃ pkg ∈ repository, pkg.id ∈ c ∧ pkg.software.id = id)
    (hs : (s : Set Int) ⊆ c) (h : referenceMatchesIncluded s softwareIDs ref = true) :
    ∃ id ∈ c, Refers repository ref id := by
  unfold referenceMatchesIncluded at h
  by_cases hid : 0 < ref.packageID
  · rw [if_pos hid] at h
    exact ⟨ref.packageID, hs (of_decide_eq_true h), by rw [Refers, if_pos hid]⟩
  · rw [if_neg hid] at h
    obtain ⟨pkg, hpkg, hin, htitle⟩ := hsoftware _ (of_decide_eq_true h)
    refine ⟨pkg.id, hin, ?_⟩
    rw [Refers, if_neg hid]
    exact ⟨pkg, hpkg, htitle, rfl⟩

theorem confines_includeUpdate (hc : Closed repository c) (hpkg : pkg ∈ repository)
    (hsoftware : ∀ id ∈ softwareIDs, ∃ pkg ∈ repository, pkg.id ∈ c ∧ pkg.software.id = id) :
    Confines (includeUpdate softwareIDs pkg) c := by
  intro s hs
  unfold includeUpdate
  by_cases hin : pkg.id ∈ s
  · rwa [if_pos hin]
  · rw [if_neg hin]
    by_cases hany : pkg.updateFor.any (referenceMatchesIncluded s softwareIDs) = true
    · rw [if_pos hany]
      obtain ⟨ref, href, hmatch⟩ := List.any_eq_true.mp hany
      obtain ⟨id, hid, hrefers⟩ := refers_of_matches hsoftware hs hmatch
      exact confines_add (hc _ (.update hpkg href hrefers hid)) s hs
    · rwa [if_neg hany]

theorem confines_round (hc : Closed repository c) : Confines (round repository) c := by
  intro s hs
  refine confines_overAll (fun pkg hpkg t ht => ?_) s hs
  refine confines_includeUpdate hc hpkg (fun id hid => ?_) _ (confines_includeReferences hc hpkg t ht)
  obtain ⟨other, hother, hin, htitle⟩ := mem_includedSoftwareIDs.mp hid
  exact ⟨other, hother, hs hin, htitle⟩

end Confined

section Unchanged

/-- A reference that adds nothing has all its packages in already. -/
theorem refers_mem (h : (addReference repository ref s).2 = false) {id : Int}
    (hid : Refers repository ref id) : id ∈ s := by
  have hsame := (grows_addReference ref s).unchanged h
  unfold addReference at h hsame
  by_cases hpos : 0 < ref.packageID
  · rw [Refers, if_pos hpos] at hid
    rw [if_pos hpos] at hsame
    rw [hid, ← hsame]
    exact mem_add ref.packageID s
  · rw [Refers, if_neg hpos] at hid
    rw [if_neg hpos] at h
    obtain ⟨pkg, hpkg, htitle, rfl⟩ := hid
    have hpass := overAll_unchanged grows_addTitle h pkg hpkg
    rw [if_neg (not_not.mpr htitle)] at hpass
    rw [← (grows_add pkg.id s).unchanged hpass]
    exact mem_add pkg.id s

theorem references_mem (h : (includeReferences repository pkg s).2 = false) (hin : pkg.id ∈ s)
    (href : ref ∈ pkg.requires ++ pkg.updateFor) {id : Int} (hid : Refers repository ref id) : id ∈ s := by
  rw [includeReferences, if_pos hin] at h
  obtain ⟨hsame, hupdate⟩ := andThen_unchanged (grows_addReferences pkg.requires s) h
  have hrequires : (addReferences repository pkg.requires s).2 = false := by rw [hsame]
  cases List.mem_append.mp href with
  | inl hleft => exact refers_mem (overAll_unchanged grows_addReference hrequires ref hleft) hid
  | inr hright => exact refers_mem (overAll_unchanged grows_addReference hupdate ref hright) hid

theorem update_mem (h : (includeUpdate (includedSoftwareIDs repository s) pkg s).2 = false)
    (href : ref ∈ pkg.updateFor) {id : Int} (hid : Refers repository ref id) (hin : id ∈ s) :
    pkg.id ∈ s := by
  by_contra hout
  have hmatch : referenceMatchesIncluded s (includedSoftwareIDs repository s) ref = true := by
    unfold referenceMatchesIncluded
    by_cases hpos : 0 < ref.packageID
    · rw [Refers, if_pos hpos] at hid
      rw [if_pos hpos, ← hid]
      exact decide_eq_true hin
    · rw [Refers, if_neg hpos] at hid
      obtain ⟨other, hother, htitle, rfl⟩ := hid
      rw [if_neg hpos]
      exact decide_eq_true (mem_includedSoftwareIDs.mpr ⟨other, hother, hin, htitle⟩)
  rw [includeUpdate, if_neg hout, if_pos (List.any_eq_true.mpr ⟨ref, href, hmatch⟩)] at h
  have hsame := (grows_add pkg.id s).unchanged h
  exact hout (hsame ▸ mem_add pkg.id s)

/-- A round that adds nothing was over a closed set. -/
theorem closed_of_unchanged (h : (round repository s).2 = false) : Closed repository s := by
  have hvisit : ∀ pkg ∈ repository, (includeReferences repository pkg s).2 = false ∧
      (includeUpdate (includedSoftwareIDs repository s) pkg s).2 = false := by
    intro pkg hpkg
    have hpass := overAll_unchanged grows_visit h pkg hpkg
    obtain ⟨hsame, hupdate⟩ := andThen_unchanged (grows_includeReferences pkg s) hpass
    exact ⟨congrArg Prod.snd hsame, hupdate⟩
  intro id hid
  cases hid with
  | reference hpkg hin href hid => exact references_mem (hvisit _ hpkg).1 hin href hid
  | update hpkg href hid hin => exact update_mem (hvisit _ hpkg).2 href hid hin

end Unchanged

theorem known_closed (start : Finset Int) :
    Closed repository ((start ∪ knownIDs repository : Finset Int) : Set Int) := by
  have hpackage : ∀ pkg ∈ repository, pkg.id ∈ knownIDs repository := fun pkg hpkg =>
    List.mem_toFinset.mpr (List.mem_append_left _ (List.mem_map_of_mem hpkg))
  intro id hid
  refine Finset.mem_coe.mpr (Finset.mem_union_right _ ?_)
  cases hid with
  | @reference pkg ref id hpkg hin href hid =>
    unfold Refers at hid
    by_cases hpos : 0 < ref.packageID
    · rw [if_pos hpos] at hid
      refine List.mem_toFinset.mpr (List.mem_append_right _ (List.mem_flatMap.mpr ⟨pkg, hpkg, ?_⟩))
      exact List.mem_map.mpr ⟨ref, href, hid.symm⟩
    · rw [if_neg hpos] at hid
      obtain ⟨other, hother, -, rfl⟩ := hid
      exact hpackage other hother
  | update hpkg href hid hin => exact hpackage _ hpkg

/-- The loop ends. -/
theorem closeIDs_terminates (repository : List Package) (start : Finset Int) :
    ∃ ids, closeIDs repository start = some ids := by
  refine saturate_terminates grows_round
    (confines_round (known_closed start)) Finset.subset_union_left ?_
  exact Nat.lt_succ_of_le (Finset.card_le_card Finset.sdiff_subset)

/-- The packages of the repository are the assigned ones, what they bring in, and no more. -/
theorem packageIDs_least (effective : List EffectivePackage) (repository : List Package) :
    IsLeast {c : Set Int | (effectiveIDs effective : Set Int) ⊆ c ∧ Closed repository c}
      (buildRepositoryProjection effective repository).packageIDs := by
  obtain ⟨ids, hids⟩ := closeIDs_terminates repository (effectiveIDs effective)
  have hpackageIDs : (buildRepositoryProjection effective repository).packageIDs = ids := by
    simp only [buildRepositoryProjection, hids, Option.getD_some]
  rw [hpackageIDs]
  obtain ⟨hstart, hsame⟩ := saturate_spec grows_round hids
  constructor
  · exact ⟨Finset.coe_subset.mpr hstart, closed_of_unchanged hsame⟩
  · rintro c ⟨hc, hclosed⟩
    exact saturate_confined (confines_round hclosed) hc hids

section Order

variable {repository' : List Package}

theorem Refers.mono (hsub : repository ⊆ repository') {id : Int} (h : Refers repository ref id) :
    Refers repository' ref id := by
  unfold Refers at h ⊢
  by_cases hpos : 0 < ref.packageID
  · rwa [if_pos hpos] at h ⊢
  · rw [if_neg hpos] at h ⊢
    obtain ⟨pkg, hpkg, hat⟩ := h
    exact ⟨pkg, hsub hpkg, hat⟩

theorem Pulls.mono (hsub : repository ⊆ repository') {id : Int} (h : Pulls repository c id) :
    Pulls repository' c id := by
  cases h with
  | reference hpkg hin href hid => exact .reference (hsub hpkg) hin href (hid.mono hsub)
  | update hpkg href hid hin => exact .update (hsub hpkg) href (hid.mono hsub) hin

theorem closed_iff_of_perm (h : repository'.Perm repository) : Closed repository' c ↔ Closed repository c :=
  ⟨fun hc id hid => hc id (hid.mono h.symm.subset), fun hc id hid => hc id (hid.mono h.subset)⟩

end Order

/-- The loop ends, its set is the least that holds the assigned packages and is closed, the
packages are those of the set in the order of the repository, and the order makes no
difference to the set. -/
theorem host_catalog_least (effective : List EffectivePackage) (repository : List Package) :
    (∃ ids, closeIDs repository (effectiveIDs effective) = some ids ∧
      (buildRepositoryProjection effective repository).packageIDs = ids) ∧
    IsLeast {c : Set Int | (effectiveIDs effective : Set Int) ⊆ c ∧ Closed repository c}
      (buildRepositoryProjection effective repository).packageIDs ∧
    (buildRepositoryProjection effective repository).packages = repository.filter (fun pkg =>
      decide (pkg.id ∈ (buildRepositoryProjection effective repository).packageIDs)) ∧
    ∀ repository', repository'.Perm repository →
      (buildRepositoryProjection effective repository').packageIDs =
        (buildRepositoryProjection effective repository).packageIDs := by
  obtain ⟨ids, hids⟩ := closeIDs_terminates repository (effectiveIDs effective)
  have hleast := packageIDs_least effective repository
  constructor
  · exact ⟨ids, hids, by simp only [buildRepositoryProjection, hids, Option.getD_some]⟩
  constructor
  · exact hleast
  constructor
  · rfl
  · intro repository' hperm
    have hother := packageIDs_least effective repository'
    simp only [closed_iff_of_perm hperm] at hother
    exact Finset.coe_injective (Set.Subset.antisymm (hother.2 hleast.1) (hleast.2 hother.1))

section Sample

def sampleSoftware (id : Int) : PackageSoftware := { id := id, name := "App", iconObjectID := none }

/-- The application and the runtime require each other, and the patch is an update for the runtime. -/
def application : Package :=
  { id := 1, software := sampleSoftware 1, version := "1", installerType := .nopkg, installerObjectID := none
    requires := [{ softwareID := 2, softwareName := "Runtime" }] }

def runtime : Package :=
  { id := 2, software := sampleSoftware 2, version := "1", installerType := .nopkg, installerObjectID := none
    requires := [{ softwareID := 1, softwareName := "Application", packageID := 1, packageVersion := "1" }] }

def runtimePatch : Package :=
  { id := 3, software := sampleSoftware 3, version := "1", installerType := .nopkg, installerObjectID := none
    updateFor := [{ softwareID := 2, softwareName := "Runtime" }] }

def unrelated : Package :=
  { id := 4, software := sampleSoftware 4, version := "1", installerType := .nopkg, installerObjectID := none }

def assigned : List EffectivePackage :=
  [{ actions := [.managedInstalls], package := application, selector := { strategy := .latest } }]

theorem host_catalog_least_cycle :
    (buildRepositoryProjection assigned [runtimePatch, runtime, application, unrelated]).packageIDs =
      (buildRepositoryProjection assigned [unrelated, application, runtime, runtimePatch]).packageIDs ∧
    (buildRepositoryProjection assigned [unrelated, application, runtime, runtimePatch]).packageIDs = {1, 2, 3} :=
  ⟨(host_catalog_least assigned [unrelated, application, runtime, runtimePatch]).2.2.2
    [runtimePatch, runtime, application, unrelated] (by decide), by decide⟩

end Sample

end MunkiProjection
