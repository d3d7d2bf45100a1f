import Woodstar.MunkiRepository
import Woodstar.TextPieces

/-!
# Names and versions in one reference

What the server writes as `name--version`, what its importer reads from it, and what the
client reads: `MunkiVersionedSoftwareName`, `importPkginfoReferences` and `validateName`.
-/
namespace ReferenceNames

open GoText
open MunkiPackages
open MunkiProjection (EffectivePackage)
open MunkiRepository (manifestItemName)
open Primitives
open TextPieces

section Names

def startsWithDigit : List Char → Bool
  | [] => false
  | c :: _ => decide ('0' ≤ c ∧ c ≤ '9')

inductive NameError where
  | required | blank | slash | versionSuffix
  deriving DecidableEq, Repr

def NameError.text : NameError → String
  | .required => "Name is required"
  | .blank => "Name must not be blank"
  | .slash => "name must not contain a slash"
  | .versionSuffix => "name must not end with a Munki version suffix"

def delimiters : List (List Char) := [['-', '-'], ['-']]

def hasVersionSuffix (name delimiter : List Char) : Bool :=
  decide (1 < (split delimiter name).length) && startsWithDigit ((split delimiter name).getLastD [])

def validateName (name : String) : Option NameError :=
  if '/' ∈ name.toList then some .slash
  else if delimiters.any (hasVersionSuffix name.toList) = true then some .versionSuffix
  else none

/-- The first refusal of `CreateMutation.Validate` that the name is the reason for. -/
def validate (name : String) : Option NameError :=
  if name = "" then some .required
  else if notBlank name = false then some .blank
  else validateName name

/-- `CreateMutation.Normalize`. -/
def normalize (nfc : String → String) (name : String) : String := nfc (trimSpace name)

end Names

section Import

structure PkginfoReference where
  name : String
  version : String
  deriving DecidableEq, Repr

inductive ReferenceError where
  | name (field : String) (error : NameError)
  | blankVersion (field : String)
  deriving DecidableEq, Repr

def ReferenceError.text : ReferenceError → String
  | .name field error =>
    field ++ " reference must use a software name or name--version: invalid input: " ++ error.text
  | .blankVersion field => field ++ " reference has a blank version"

/-- `strings.Cut`, with whether the separator was there. -/
def cutReference (reference : String) : String × String × Bool :=
  match cut ['-', '-'] reference.toList with
  | some (name, version) => (String.ofList name, String.ofList version, true)
  | none => (reference, "", false)

def importPkginfoReference (nfc : String → String) (field reference : String) :
    Except ReferenceError PkginfoReference :=
  let (refName, version, pinned) := cutReference reference
  match validate (normalize nfc refName) with
  | some error => .error (.name field error)
  | none =>
    if pinned = true ∧ trimSpace version = "" then .error (.blankVersion field)
    else .ok { name := normalize nfc refName, version := trimSpace version }

def importPkginfoReferences (nfc : String → String) (field : String) (references : List String) :
    Except ReferenceError (List PkginfoReference) :=
  references.mapM (importPkginfoReference nfc field)

end Import

section Client

/-- What a client takes from the last piece: the rest and a version that starts with a digit. -/
def versionOf (reference delimiter : List Char) : Option (List Char × List Char) :=
  let chunks := split delimiter reference
  if 1 < chunks.length ∧ startsWithDigit (chunks.getLastD []) = true then
    some (delimiter.intercalate chunks.dropLast, chunks.getLastD [])
  else none

/-- The client's reading of a name in a manifest, a requires or an update_for. -/
def nameAndVersion (reference : String) : String × Option String :=
  match delimiters.findSome? (versionOf reference.toList) with
  | some (name, version) => (String.ofList name, some (String.ofList version))
  | none => (reference, none)

end Client

/-- A name that `Normalize` and `Validate` let through. -/
structure Accepted (nfc : String → String) (name : String) : Prop where
  normalized : ∃ raw, normalize nfc raw = name
  valid : validate name = none

/-- A version that `Normalize` and `Validate` let through. -/
structure VersionAccepted (version : String) : Prop where
  normalized : ∃ raw, trimSpace raw = version
  valid : notBlank version = true

/-- The name does not contain the separator, not even with the first dash of one behind it. -/
structure Separable (name : String) : Prop where
  absent : ¬ ['-', '-'] <:+: name.toList
  open_ended : name.toList.getLast? ≠ some '-'

structure Digital (version : String) : Prop where
  digit : startsWithDigit version.toList = true
  absent : ¬ ['-', '-'] <:+: version.toList

/-- Name and version are read back, and the name alone, by the importer and by the client. -/
structure Decodes (nfc : String → String) (name version : String) : Prop where
  imports : ∀ field, importPkginfoReference nfc field (munkiVersionedSoftwareName name version) =
    .ok { name := name, version := version }
  importsName : ∀ field, importPkginfoReference nfc field (munkiVersionedSoftwareName name "") =
    .ok { name := name, version := "" }
  reads : nameAndVersion (munkiVersionedSoftwareName name version) = (name, some version)
  readsName : nameAndVersion (munkiVersionedSoftwareName name "") = (name, none)

variable {nfc : String → String} {name version : String} {n v : List Char}

section Cuts

/-- A separable name is cut off at its end. -/
theorem cut_separable (habsent : ¬ ['-', '-'] <:+: n) (hend : n.getLast? ≠ some '-') (v : List Char) :
    cut ['-', '-'] (n ++ ['-', '-'] ++ v) = some (n, v) := by
  induction n with
  | nil => simp [cut]
  | cons c cs ih =>
    have hrest : ¬ ['-', '-'] <:+: cs := fun h => habsent (List.infix_cons h)
    have hfirst : (['-', '-'] : List Char).isPrefixOf (c :: cs ++ ['-', '-'] ++ v) = false := by
      by_contra hpre
      rw [Bool.not_eq_false, List.isPrefixOf_iff_prefix] at hpre
      cases cs with
      | nil =>
        obtain ⟨rest, hrest⟩ := hpre
        exact hend (congrArg some (List.cons.inj hrest).1.symm)
      | cons d ds =>
        obtain ⟨rest, hrest⟩ := hpre
        obtain ⟨rfl, htail⟩ := List.cons.inj hrest
        obtain ⟨rfl, -⟩ := List.cons.inj htail
        exact habsent ⟨[], ds, rfl⟩
    have hend' : cs.getLast? ≠ some '-' := by
      cases cs with
      | nil => simp
      | cons d ds => rwa [List.getLast?_cons_cons] at hend
    have hcut := ih hrest hend'
    rw [List.append_assoc] at hcut
    rw [List.cons_append, List.cons_append, List.append_assoc] at hfirst ⊢
    rw [cut, if_neg (by rw [hfirst]; exact Bool.false_ne_true), hcut]
    rfl

/-- Any other name is cut before. -/
theorem cut_inseparable (h : ['-', '-'] <:+: n ∨ n.getLast? = some '-') (v : List Char) :
    ∃ first rest, cut ['-', '-'] (n ++ ['-', '-'] ++ v) = some (first, rest ++ v) ∧ '-' ∈ rest := by
  induction n with
  | nil => simp at h
  | cons c cs ih =>
    by_cases hfirst : (['-', '-'] : List Char).isPrefixOf (c :: cs ++ ['-', '-'] ++ v) = true
    · cases cs with
      | nil =>
        obtain ⟨rest, hrest⟩ := List.isPrefixOf_iff_prefix.mp hfirst
        obtain rfl : '-' = c := (List.cons.inj hrest).1
        exact ⟨[], ['-'], rfl, by simp⟩
      | cons d ds =>
        obtain ⟨rest, hrest⟩ := List.isPrefixOf_iff_prefix.mp hfirst
        obtain ⟨rfl, htail⟩ := List.cons.inj hrest
        obtain ⟨rfl, -⟩ := List.cons.inj htail
        exact ⟨[], ds ++ ['-', '-'], by simp [cut], by simp⟩
    · have hcs : ['-', '-'] <:+: cs ∨ cs.getLast? = some '-' := by
        cases cs with
        | nil =>
          cases h with
          | inl hin => exact absurd hin.length_le (by simp)
          | inr hlast =>
            obtain rfl : c = '-' := by simpa using hlast
            exact absurd rfl hfirst
        | cons d ds =>
          cases h with
          | inl hin =>
            cases List.infix_cons_iff.mp hin with
            | inl hpre =>
              have hmore := hpre.trans (List.prefix_append (c :: d :: ds) (['-', '-'] ++ v))
              rw [← List.append_assoc] at hmore
              exact absurd (List.isPrefixOf_iff_prefix.mpr hmore) hfirst
            | inr hin => exact .inl hin
          | inr hlast =>
            rw [List.getLast?_cons_cons] at hlast
            exact .inr hlast
      obtain ⟨first, rest, hcut, hdash⟩ := ih hcs
      rw [List.append_assoc] at hcut
      rw [List.cons_append, List.cons_append, List.append_assoc] at hfirst ⊢
      refine ⟨c :: first, rest, ?_, hdash⟩
      rw [cut, if_neg hfirst, hcut]
      rfl

end Cuts

theorem VersionAccepted.trimmed (h : VersionAccepted version) : trimSpace version = version := by
  obtain ⟨raw, hraw⟩ := h.normalized
  rw [← hraw, trimSpace_trimSpace]

theorem VersionAccepted.ne_empty (h : VersionAccepted version) : version ≠ "" := by
  have hvalid := h.valid
  rw [notBlank, h.trimmed] at hvalid
  exact bne_iff_ne.mp hvalid

theorem toList_versioned (hname : trimSpace name = name) (hversion : VersionAccepted version) :
    (munkiVersionedSoftwareName name version).toList = name.toList ++ ['-', '-'] ++ version.toList := by
  rw [munkiVersionedSoftwareName, hversion.trimmed, if_neg hversion.ne_empty, hname]
  simp only [String.toList_append]
  rfl

theorem bare_name (hname : trimSpace name = name) : munkiVersionedSoftwareName name "" = name := by
  rw [munkiVersionedSoftwareName, if_pos (by decide), hname]

theorem Separable.cut_versioned (h : Separable name) (hname : trimSpace name = name)
    (hversion : VersionAccepted version) :
    cut ['-', '-'] (munkiVersionedSoftwareName name version).toList = some (name.toList, version.toList) := by
  rw [toList_versioned hname hversion]
  exact cut_separable h.absent h.open_ended version.toList

section Importer

theorem Separable.imports (h : Separable name) (hname : trimSpace name = name) (hsame : normalize nfc name = name)
    (hvalid : validate name = none) (hversion : VersionAccepted version) (field : String) :
    importPkginfoReference nfc field (munkiVersionedSoftwareName name version) =
      .ok { name := name, version := version } := by
  simp [importPkginfoReference, cutReference, h.cut_versioned hname hversion, hsame, hvalid, hversion.trimmed,
    hversion.ne_empty]

theorem Separable.importsName (h : Separable name) (hname : trimSpace name = name)
    (hsame : normalize nfc name = name) (hvalid : validate name = none) (field : String) :
    importPkginfoReference nfc field (munkiVersionedSoftwareName name "") = .ok { name := name, version := "" } := by
  have hcut : cut ['-', '-'] name.toList = none := (cut_none_iff (by decide)).mpr h.absent
  have hempty : trimSpace "" = "" := by decide
  simp [bare_name hname, importPkginfoReference, cutReference, hcut, hsame, hvalid, hempty]

/-- The importer hands back the version of separable names only. -/
theorem separable_of_imports (hname : trimSpace name = name) (hversion : VersionAccepted version) {field : String}
    (h : importPkginfoReference nfc field (munkiVersionedSoftwareName name version) =
      .ok { name := name, version := version }) : Separable name := by
  by_contra hinseparable
  have hcases : ['-', '-'] <:+: name.toList ∨ name.toList.getLast? = some '-' := by
    by_contra hnone
    push Not at hnone
    exact hinseparable ⟨hnone.1, hnone.2⟩
  obtain ⟨first, rest, hcut, hdash⟩ := cut_inseparable hcases version.toList
  rw [← toList_versioned hname hversion] at hcut
  have hother : trimSpace (String.ofList (rest ++ version.toList)) = version := by
    simp only [importPkginfoReference, cutReference, hcut] at h
    cases hvalid : validate (normalize nfc (String.ofList first)) with
    | some error =>
      rw [hvalid] at h
      cases h
    | none =>
      rw [hvalid] at h
      by_cases hblank : True ∧ trimSpace (String.ofList (rest ++ version.toList)) = ""
      · rw [if_pos hblank] at h
        cases h
      · rw [if_neg hblank] at h
        exact (PkginfoReference.mk.inj (Except.ok.inj h)).2
  have htrimmed := trimSpace_eq_iff.mp hversion.trimmed
  have hne : version.toList ≠ [] := by simpa using hversion.ne_empty
  apply trim_append_ne (by decide) hdash htrimmed hne
  have hlist := congrArg String.toList hother
  rwa [trimSpace, String.toList_ofList, String.toList_ofList] at hlist

end Importer

section Reader

theorem Separable.reads (h : Separable name) (hname : trimSpace name = name) (hversion : VersionAccepted version)
    (hdigital : Digital version) :
    nameAndVersion (munkiVersionedSoftwareName name version) = (name, some version) := by
  have hcut : cut ['-', '-'] version.toList = none := (cut_none_iff (by decide)).mpr hdigital.absent
  have hsplit : split ['-', '-'] (munkiVersionedSoftwareName name version).toList = [name.toList, version.toList] := by
    rw [split_some (by decide) (h.cut_versioned hname hversion), split_none hcut]
  have hfirst : versionOf (munkiVersionedSoftwareName name version).toList ['-', '-'] =
      some (name.toList, version.toList) := by
    rw [versionOf, hsplit, if_pos ⟨by simp, hdigital.digit⟩]
    simp
  simp only [nameAndVersion, delimiters, List.findSome?_cons, hfirst, String.ofList_toList]

theorem readsName (hname : trimSpace name = name) (hvalid : validate name = none) :
    nameAndVersion (munkiVersionedSoftwareName name "") = (name, none) := by
  have hsuffix : ∀ delimiter ∈ delimiters, versionOf name.toList delimiter = none := by
    intro delimiter hdelimiter
    have hall : delimiters.any (hasVersionSuffix name.toList) = false := by
      simp only [validate, validateName] at hvalid
      grind
    have hone := List.any_eq_false.mp hall delimiter hdelimiter
    rw [versionOf, if_neg]
    intro hboth
    apply hone
    rw [hasVersionSuffix, decide_eq_true hboth.1, hboth.2]
    rfl
  rw [bare_name hname, nameAndVersion, List.findSome?_eq_none_iff.mpr hsuffix]

theorem versionOf_some {reference delimiter found rest : List Char}
    (h : versionOf reference delimiter = some (rest, found)) :
    found = (split delimiter reference).getLastD [] ∧ startsWithDigit found = true := by
  unfold versionOf at h
  by_cases hboth : 1 < (split delimiter reference).length ∧
      startsWithDigit ((split delimiter reference).getLastD []) = true
  · rw [if_pos hboth] at h
    obtain ⟨-, rfl⟩ := Prod.mk.inj (Option.some.inj h)
    exact ⟨rfl, hboth.2⟩
  · rw [if_neg hboth] at h
    cases h

/-- The client hands back versions only that start with a digit and hold no separator. -/
theorem digital_of_reads {reference : String} (h : nameAndVersion reference = (name, some version)) :
    Digital version := by
  obtain ⟨rest, delimiter, hdelimiter, hof⟩ : ∃ rest, ∃ delimiter ∈ delimiters,
      versionOf reference.toList delimiter = some (rest, version.toList) := by
    unfold nameAndVersion at h
    cases hfind : delimiters.findSome? (versionOf reference.toList) with
    | none =>
      rw [hfind] at h
      cases (Prod.mk.inj h).2
    | some parts =>
      obtain ⟨delimiter, hdelimiter, hof⟩ := List.exists_of_findSome?_eq_some hfind
      rw [hfind] at h
      have hsame := Option.some.inj (Prod.mk.inj h).2
      refine ⟨parts.1, delimiter, hdelimiter, ?_⟩
      rw [hof, ← hsame, String.toList_ofList]
  obtain ⟨hlast, hdigit⟩ := versionOf_some hof
  refine ⟨hdigit, ?_⟩
  intro hinside
  have hsep : delimiter ≠ [] := by
    rcases List.mem_pair.mp hdelimiter with rfl | rfl <;> nofun
  have hnone := (getLast_split hsep reference.toList).2
  rw [← hlast, cut_none_iff hsep] at hnone
  apply hnone
  rcases List.mem_pair.mp hdelimiter with rfl | rfl
  · exact hinside
  · exact List.IsInfix.trans ⟨[], ['-'], rfl⟩ hinside

end Reader

/-- A list of references that are read back one by one is imported as it was. -/
theorem importPkginfoReferences_names (field : String) {refs : List PackageReference}
    (h : ∀ ref ∈ refs, ∃ version, Decodes nfc ref.softwareName version ∧
      (ref.packageVersion = version ∨ ref.packageVersion = "")) :
    importPkginfoReferences nfc field (munkiReferenceNames refs) =
      .ok (refs.map (fun ref => { name := ref.softwareName, version := ref.packageVersion })) := by
  induction refs with
  | nil => rfl
  | cons ref refs ih =>
    have hrest := ih (fun other hother => h other (List.mem_cons_of_mem ref hother))
    have hfirst : importPkginfoReference nfc field (munkiVersionedSoftwareName ref.softwareName ref.packageVersion) =
        .ok { name := ref.softwareName, version := ref.packageVersion } := by
      obtain ⟨version, hdecodes, hversion⟩ := h ref List.mem_cons_self
      cases hversion with
      | inl hpinned =>
        rw [hpinned]
        exact hdecodes.imports field
      | inr hbare =>
        rw [hbare]
        exact hdecodes.importsName field
    unfold importPkginfoReferences munkiReferenceNames at hrest ⊢
    rw [List.map_cons, List.mapM_cons, hfirst, hrest]
    rfl

/-- References to a title and to one of its versions are read back if and only if the name
is separable and the version starts with a digit and holds no separator. Two pairs that are
read back share no reference, and an entry of a manifest is read as the package it is for. -/
theorem references_decode_iff (nfc : String → String) (hidem : ∀ text, nfc (nfc text) = nfc text)
    (htrim : ∀ text, trimSpace text = text → trimSpace (nfc text) = nfc text) (name version : String)
    (hname : Accepted nfc name) (hversion : VersionAccepted version) :
    (Decodes nfc name version ↔ Separable name ∧ Digital version) ∧
    (Decodes nfc name version → ∀ pkg : EffectivePackage, pkg.package.software.name = name →
      pkg.package.version = version →
      nameAndVersion (manifestItemName pkg) =
        (name, if pkg.selector.strategy = .specific then some version else none)) ∧
    ∀ name' version', Decodes nfc name version → Decodes nfc name' version' →
      (munkiVersionedSoftwareName name version = munkiVersionedSoftwareName name' version' →
        name = name' ∧ version = version') ∧
      munkiVersionedSoftwareName name version ≠ munkiVersionedSoftwareName name' "" ∧
      (munkiVersionedSoftwareName name "" = munkiVersionedSoftwareName name' "" → name = name') := by
  obtain ⟨raw, hraw⟩ := hname.normalized
  have htrimmed : trimSpace name = name := by
    rw [← hraw]
    exact htrim _ (trimSpace_trimSpace raw)
  have hsame : normalize nfc name = name := by
    rw [normalize, htrimmed, ← hraw]
    exact hidem _
  constructor
  · constructor
    · intro h
      have hseparable := separable_of_imports htrimmed hversion (h.imports "requires")
      exact ⟨hseparable, digital_of_reads h.reads⟩
    · intro h
      obtain ⟨hseparable, hdigital⟩ := h
      constructor
      · exact hseparable.imports htrimmed hsame hname.valid hversion
      · exact hseparable.importsName htrimmed hsame hname.valid
      · exact hseparable.reads htrimmed hversion hdigital
      · exact readsName htrimmed hname.valid
  constructor
  · intro h pkg hpkgname hpkgversion
    by_cases hspecific : pkg.selector.strategy = .specific
    · rw [manifestItemName, if_pos hspecific, if_pos hspecific, hpkgname, hpkgversion]
      exact h.reads
    · have hread := h.readsName
      rw [bare_name htrimmed] at hread
      rw [manifestItemName, if_neg hspecific, if_neg hspecific, hpkgname]
      exact hread
  · intro name' version' h h'
    refine ⟨?_, ?_, ?_⟩
    · intro heq
      have hread := h.reads
      rw [heq, h'.reads] at hread
      obtain ⟨hn, hv⟩ := Prod.mk.inj hread
      exact ⟨hn.symm, (Option.some.inj hv).symm⟩
    · intro heq
      have hread := h.reads
      rw [heq, h'.readsName] at hread
      cases (Prod.mk.inj hread).2
    · intro heq
      have hread := h.readsName
      rw [heq, h'.readsName] at hread
      exact (Prod.mk.inj hread).1.symm

section Sample

theorem accepted_of_trimmed {name : String} (htrimmed : trimSpace name = name) (hvalid : validate name = none) :
    Accepted id name :=
  ⟨⟨name, htrimmed⟩, hvalid⟩

theorem versionAccepted_of_trimmed {version : String} (htrimmed : trimSpace version = version)
    (hvalid : notBlank version = true) : VersionAccepted version :=
  ⟨⟨version, htrimmed⟩, hvalid⟩

theorem references_decode_office : Decodes id "Office-Suite" "16.2-b1" :=
  (references_decode_iff id (fun _ => rfl) (fun _ h => h) "Office-Suite" "16.2-b1"
    (accepted_of_trimmed (by decide) (by decide))
    (versionAccepted_of_trimmed (by decide) (by decide))).1.mpr
      ⟨⟨by decide, by decide⟩, ⟨by decide, by decide⟩⟩

/-- A title named `App--Beta` is imported as version `Beta` of `App`, the two share a
reference, and a client does not find the version `v1` in one. -/
theorem separator_in_name_misread :
    Accepted id "App--Beta" ∧ Accepted id "App" ∧ VersionAccepted "Beta" ∧ VersionAccepted "v1" ∧
    munkiVersionedSoftwareName "App--Beta" "" = munkiVersionedSoftwareName "App" "Beta" ∧
    importPkginfoReference id "requires" (munkiVersionedSoftwareName "App--Beta" "") =
      .ok { name := "App", version := "Beta" } ∧
    nameAndVersion (munkiVersionedSoftwareName "App" "v1") = ("App--v1", none) :=
  ⟨accepted_of_trimmed (by decide) (by decide),
    accepted_of_trimmed (by decide) (by decide),
    versionAccepted_of_trimmed (by decide) (by decide),
    versionAccepted_of_trimmed (by decide) (by decide), by decide, by decide,
    by decide⟩

end Sample

end ReferenceNames
