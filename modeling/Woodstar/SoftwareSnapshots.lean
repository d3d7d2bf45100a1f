import Woodstar.CatalogRows

/-!
# The stored snapshot

What `ReplaceHostSoftware` leaves in the tables, when it is repeated, and what of the
order of the entries can be seen in it.
-/
namespace SoftwareSnapshots

open CatalogRows
open FirstWins
open KeyedRows (Table upsertAll upsertAll_of_mem upsertAll_of_notMem)
open KeyedUpserts
open Primitives (Fault isText)
open SoftwareCatalog
open SoftwarePruning (HostSoftwareEntry Software SoftwareTitle stageSoftwareSnapshot)

variable {db db' : Db} {plan : Plan} {hostID id : Int} {entry entry' : HostSoftwareEntry}
variable {staged : List HostSoftwareEntry} {entries : List HostSoftwareEntry} {path : PathRow}

/-- The last entry with a property. -/
def lastWith (p : HostSoftwareEntry → Prop) [DecidablePred p] (rows : List HostSoftwareEntry) :
    Option HostSoftwareEntry :=
  rows.reverse.find? (fun entry => decide (p entry))

theorem lastWith_spec {p : HostSoftwareEntry → Prop} [DecidablePred p] (h : lastWith p staged = some entry) :
    entry ∈ staged ∧ p entry :=
  ⟨List.mem_reverse.mp (List.mem_of_find?_eq_some h), by simpa using List.find?_some h⟩

theorem lastWith_congr {p q : HostSoftwareEntry → Prop} [DecidablePred p] [DecidablePred q]
    (h : ∀ entry ∈ staged, p entry ↔ q entry) : lastWith p staged = lastWith q staged := by
  apply List.find?_congr
  intro entry hentry
  exact decide_eq_decide.mpr (h entry (List.mem_reverse.mp hentry))

section HostRows

variable {f : HostSoftwareEntry → Option Int}

/-- The entries with the numbers that they are joined to. -/
def joined (f : HostSoftwareEntry → Option Int) (staged : List HostSoftwareEntry) : List (Int × HostSoftwareEntry) :=
  staged.map (fun entry => ((f entry).getD 0, entry))

theorem getD_iff (h : ∃ id, f entry = some id) (id : Int) : (f entry).getD 0 = id ↔ f entry = some id := by
  obtain ⟨found, hfound⟩ := h
  rw [hfound, Option.getD_some, Option.some.injEq]

/-- Among the selected rows is the last entry of each key. -/
theorem mem_firstBy_joined {κ : Type} [DecidableEq κ] {key : Int × HostSoftwareEntry → κ}
    {p : HostSoftwareEntry → Bool} {row : Int × HostSoftwareEntry} :
    row ∈ firstBy key [] ((joined f (staged.filter p)).reverse) ↔ ∃ entry, row = ((f entry).getD 0, entry) ∧
      lastWith (fun other => p other = true ∧ key ((f other).getD 0, other) = key ((f entry).getD 0, entry))
        staged = some entry := by
  rw [mem_firstBy, joined, ← List.map_reverse, List.find?_map, Option.map_eq_some_iff, ← List.filter_reverse]
  have hfind : ∀ k : κ, (staged.reverse.filter p).find? (fun other => decide (key ((f other).getD 0, other) = k)) =
      lastWith (fun other => p other = true ∧ key ((f other).getD 0, other) = k) staged := by
    intro k
    rw [List.find?_filter, lastWith]
    congr 1
    funext other
    rw [Bool.eq_iff_iff]
    simp only [decide_eq_true_eq]
  constructor
  · rintro ⟨-, entry, hentry, rfl⟩
    exact ⟨entry, rfl, (hfind _).symm.trans hentry⟩
  · rintro ⟨entry, rfl, hentry⟩
    exact ⟨List.not_mem_nil, entry, (hfind _).trans hentry, rfl⟩

/-- The links of the host. -/
def linksOf (db : Db) (hostID : Int) (linked : List (Int × HostSoftwareEntry)) : Int × Int → Option (Option Int) :=
  upsertAll Prod.fst (fun row _ => row.2) (fun key => if key.1 = hostID then none else db.links key)
    (linkRows hostID linked)

theorem joined_filter_true : joined f staged = joined f (staged.filter (fun _ => true)) := by
  rw [List.filter_true]

theorem nodup_linkRows (linked : List (Int × HostSoftwareEntry)) :
    ((linkRows hostID linked).map Prod.fst).Nodup := by
  have hnodup := nodup_firstBy (Prod.fst : Int × HostSoftwareEntry → Int) [] linked.reverse
  rw [List.Nodup, List.pairwise_map] at hnodup
  rw [linkRows, List.map_map, List.Nodup, List.pairwise_map]
  exact hnodup.imp (fun hne heq => hne (Prod.mk.inj heq).2)

theorem mem_linkRows {row : (Int × Int) × Option Int} : row ∈ linkRows hostID (joined f staged) ↔
    ∃ entry, row = ((hostID, (f entry).getD 0), entry.lastOpenedAt) ∧
      lastWith (fun other => (f other).getD 0 = (f entry).getD 0) staged = some entry := by
  have hcongr : ∀ entry : HostSoftwareEntry,
      lastWith (fun other => (fun _ => true) other = true ∧ (f other).getD 0 = (f entry).getD 0) staged =
        lastWith (fun other => (f other).getD 0 = (f entry).getD 0) staged :=
    fun entry => lastWith_congr (fun _ _ => and_iff_right rfl)
  rw [linkRows, List.mem_map]
  constructor
  · rintro ⟨row, hrow, rfl⟩
    rw [joined_filter_true, mem_firstBy_joined] at hrow
    obtain ⟨entry, rfl, hentry⟩ := hrow
    exact ⟨entry, rfl, (hcongr entry).symm.trans hentry⟩
  · rintro ⟨entry, rfl, hentry⟩
    refine ⟨((f entry).getD 0, entry), ?_, rfl⟩
    rw [joined_filter_true, mem_firstBy_joined]
    exact ⟨entry, rfl, (hcongr entry).trans hentry⟩

theorem linksOf_other {other : Int} (h : other ≠ hostID) (id : Int) :
    linksOf db hostID (joined f staged) (other, id) = db.links (other, id) := by
  rw [linksOf, upsertAll_of_notMem]
  · exact if_neg h
  · intro hmem
    obtain ⟨row, hrow, heq⟩ := List.mem_map.mp hmem
    obtain ⟨entry, rfl, -⟩ := mem_linkRows.mp hrow
    exact h (Prod.mk.inj heq).1.symm

/-- A version is linked with the data of its last entry. -/
theorem linksOf_host (db : Db) (hostID : Int) (hall : ∀ entry ∈ staged, ∃ id, f entry = some id) (id : Int) :
    linksOf db hostID (joined f staged) (hostID, id) =
      (lastWith (fun entry => f entry = some id) staged).map (fun entry => entry.lastOpenedAt) := by
  have hcongr : lastWith (fun other => (f other).getD 0 = id) staged =
      lastWith (fun entry => f entry = some id) staged :=
    lastWith_congr (fun other hother => getD_iff (hall other hother) id)
  rw [← hcongr]
  cases hlast : lastWith (fun other => (f other).getD 0 = id) staged with
  | none =>
    rw [linksOf, upsertAll_of_notMem]
    · exact if_pos rfl
    · intro hmem
      obtain ⟨row, hrow, heq⟩ := List.mem_map.mp hmem
      obtain ⟨entry, rfl, hentry⟩ := mem_linkRows.mp hrow
      obtain ⟨-, rfl⟩ := Prod.mk.inj heq
      rw [hlast] at hentry
      cases hentry
  | some entry =>
    obtain ⟨-, rfl⟩ := lastWith_spec hlast
    have hmem : ((hostID, (f entry).getD 0), entry.lastOpenedAt) ∈ linkRows hostID (joined f staged) :=
      mem_linkRows.mpr ⟨entry, rfl, hlast⟩
    exact upsertAll_of_mem (nodup_linkRows _) hmem

/-- The path rows of the other hosts, and those of this report. -/
def pathsOf (plan : Plan) (db : Db) (hostID : Int) (linked : List (Int × HostSoftwareEntry)) : Table PathRow :=
  putAll pathUpsert (keep (fun row => decide (row.hostID ≠ hostID)) db.paths)
    (plan.paths (pathRows hostID linked))

theorem filter_joined : (joined f staged).filter (fun row => decide (row.2.installedPath ≠ "")) =
    joined f (staged.filter (fun entry => decide (entry.installedPath ≠ ""))) := by
  rw [joined, List.filter_map]
  rfl

/-- A version's path has the data of its last entry there. -/
theorem mem_pathRows (hall : ∀ entry ∈ staged, ∃ id, f entry = some id) :
    path ∈ pathRows hostID (joined f staged) ↔ path.installedPath ≠ "" ∧ ∃ entry,
      lastWith (fun other => f other = some path.softwareID ∧ other.installedPath = path.installedPath) staged =
        some entry ∧ path = pathRow hostID path.softwareID entry := by
  rw [pathRows, filter_joined, List.mem_map]
  constructor
  · rintro ⟨row, hrow, rfl⟩
    obtain ⟨entry, rfl, hentry⟩ := mem_firstBy_joined.mp hrow
    obtain ⟨hmem, hp, -⟩ := lastWith_spec hentry
    constructor
    · exact of_decide_eq_true hp
    · refine ⟨entry, ?_, rfl⟩
      rw [← hentry]
      apply lastWith_congr
      intro other hother
      have hne : entry.installedPath ≠ "" := of_decide_eq_true hp
      simp only [pathRow, decide_eq_true_eq, Prod.mk.injEq, getD_iff (hall other hother)]
      constructor
      · rintro ⟨hid, hpath⟩
        exact ⟨hpath ▸ hne, hid, hpath⟩
      · rintro ⟨-, hid, hpath⟩
        exact ⟨hid, hpath⟩
  · rintro ⟨hne, entry, hentry, heq⟩
    obtain ⟨hmem, hid, hpath⟩ := lastWith_spec hentry
    have hnumber : (f entry).getD 0 = path.softwareID := (getD_iff (hall entry hmem) _).mpr hid
    refine ⟨((f entry).getD 0, entry), ?_, by rw [hnumber, ← heq]⟩
    apply mem_firstBy_joined.mpr
    refine ⟨entry, rfl, ?_⟩
    rw [← hentry]
    apply lastWith_congr
    intro other hother
    simp only [decide_eq_true_eq, Prod.mk.injEq, hnumber, hpath, getD_iff (hall other hother)]
    constructor
    · rintro ⟨-, h⟩
      exact h
    · rintro ⟨hother', hpath'⟩
      exact ⟨hpath' ▸ hne, hother', hpath'⟩

theorem hostID_of_mem_pathRows {linked : List (Int × HostSoftwareEntry)} (h : path ∈ pathRows hostID linked) :
    path.hostID = hostID := by
  obtain ⟨row, -, rfl⟩ := List.mem_map.mp h
  rfl

theorem nodup_pathRows (linked : List (Int × HostSoftwareEntry)) :
    ((pathRows hostID linked).map PathRow.key).Nodup := by
  have hnodup := nodup_firstBy (fun row : Int × HostSoftwareEntry => (row.1, row.2.installedPath)) []
    (linked.filter (fun row => decide (row.2.installedPath ≠ ""))).reverse
  rw [List.Nodup, List.pairwise_map] at hnodup
  rw [pathRows, List.map_map, List.Nodup, List.pairwise_map]
  apply hnodup.imp
  intro a b hne heq
  simp only [Function.comp_apply, PathRow.key, pathRow, Prod.mk.injEq] at heq
  exact hne (Prod.ext heq.2.1 heq.2.2)

theorem nodup_plannedPaths (plan : Plan) (linked : List (Int × HostSoftwareEntry)) :
    ((plan.paths (pathRows hostID linked)).map pathUpsert.slot).Nodup :=
  ((plan.paths_perm _).map PathRow.key).nodup_iff.mpr (nodup_pathRows linked)

theorem row_keep {α : Type} {kept : α → Bool} {t : Table α} {a : α} :
    (keep kept t).row id = some a ↔ t.row id = some a ∧ kept a = true := Option.filter_eq_some_iff

/-- No path of a host is in two rows. -/
def OnePath (paths : Table PathRow) : Prop := Distinct (fun row : PathRow => some row.key) paths

theorem onePath_keep {paths : Table PathRow} (kept : PathRow → Bool) (hpaths : OnePath paths) :
    OnePath (keep kept paths) := by
  intro id id' a a' k ha ha' hk hk'
  exact hpaths id id' a a' k (row_keep.mp ha).1 (row_keep.mp ha').1 hk hk'

theorem onePath_pathsOf (linked : List (Int × HostSoftwareEntry)) (hpaths : OnePath db.paths) :
    OnePath (pathsOf plan db hostID linked) :=
  distinct_putAll (u := pathUpsert) (onePath_keep _ hpaths) _

theorem pathStatement_ok (linked : List (Int × HostSoftwareEntry)) (hpaths : OnePath db.paths) :
    upsertStatement pathUpsert checkPaths (keep (fun row => decide (row.hostID ≠ hostID)) db.paths)
      (plan.paths (pathRows hostID linked)) = .ok (pathsOf plan db hostID linked) := by
  apply upsertStatement_ok (nodup_plannedPaths plan linked)
  intro n
  exact if_pos (isDistinct_iff.mpr (distinct_putAll (u := pathUpsert) (onePath_keep _ hpaths) _))

theorem hostID_of_key {a b : PathRow} (h : (some a.key : Option (Int × Int × String)) = some b.key) :
    a.hostID = b.hostID := (Prod.mk.inj (Option.some.inj h)).1

theorem pathsOf_other (linked : List (Int × HostSoftwareEntry)) (hpaths : OnePath db.paths)
    (hother : path.hostID ≠ hostID) :
    (pathsOf plan db hostID linked).row id = some path ↔ db.paths.row id = some path := by
  have hdistinct := onePath_keep (fun row => decide (row.hostID ≠ hostID)) hpaths
  have hhost : ∀ row ∈ plan.paths (pathRows hostID linked), row.hostID = hostID := by
    intro row hrow
    exact hostID_of_mem_pathRows ((plan.paths_perm _).mem_iff.mp hrow)
  have hkept : ∀ a : PathRow, a.hostID ≠ hostID →
    (keep (fun row => decide (row.hostID ≠ hostID)) db.paths).row id = some a →
      (pathsOf plan db hostID linked).row id = some a := by
    intro a ha hrow
    rw [pathsOf, putAll_old (u := pathUpsert) hdistinct (nodup_plannedPaths plan linked) hrow]
    have hnone : (plan.paths (pathRows hostID linked)).find? (fun row =>
        decide (pathUpsert.key a = some (pathUpsert.slot row))) = none := by
      rw [List.find?_eq_none]
      intro row hrow heq
      exact ha ((hostID_of_key (of_decide_eq_true heq)).trans (hhost row hrow))
    rw [hnone]
    rfl
  constructor
  · intro hrow
    cases hold : (keep (fun row => decide (row.hostID ≠ hostID)) db.paths).row id with
    | none =>
      obtain ⟨row, hmem, rfl, -⟩ := putAll_new (u := pathUpsert) hdistinct (nodup_plannedPaths plan linked) hrow hold
      exact absurd (hhost _ hmem) hother
    | some a =>
      have ha := row_keep.mp hold
      have hsame := hkept a (of_decide_eq_true ha.2) hold
      rw [hrow] at hsame
      cases hsame
      exact ha.1
  · intro hrow
    exact hkept path hother (row_keep.mpr ⟨hrow, decide_eq_true hother⟩)

/-- The path rows of the host are those of the report. -/
theorem pathsOf_host (linked : List (Int × HostSoftwareEntry)) (hpaths : OnePath db.paths)
    (hhost : path.hostID = hostID) :
    (∃ id, (pathsOf plan db hostID linked).row id = some path) ↔ path ∈ pathRows hostID linked := by
  have hdistinct := onePath_keep (fun row => decide (row.hostID ≠ hostID)) hpaths
  constructor
  · rintro ⟨id, hrow⟩
    cases hold : (keep (fun row => decide (row.hostID ≠ hostID)) db.paths).row id with
    | none =>
      obtain ⟨row, hmem, rfl, -⟩ := putAll_new (u := pathUpsert) hdistinct (nodup_plannedPaths plan linked) hrow hold
      exact (plan.paths_perm _).mem_iff.mp hmem
    | some a =>
      obtain ⟨a', ha', hkey⟩ := putAll_key (u := pathUpsert) (plan.paths (pathRows hostID linked)) hdistinct hold
      have hsame : path = a' := Option.some.inj (hrow.symm.trans ha')
      have hne := of_decide_eq_true (row_keep.mp hold).2
      rw [← hsame] at hkey
      exact absurd ((hostID_of_key hkey).symm.trans hhost) hne
  · intro hmem
    have hin := (plan.paths_perm _).mem_iff.mpr hmem
    obtain ⟨id, row, hrow, hkey⟩ := putAll_has (u := pathUpsert)
      (t := keep (fun row => decide (row.hostID ≠ hostID)) db.paths) hdistinct hin
    have hwritten := putAll_written (u := pathUpsert) hdistinct (nodup_plannedPaths plan linked) hrow hin hkey
    have heq : row = path := by
      cases hwritten with
      | inl h =>
        obtain ⟨_, _, h⟩ := h
        exact h
      | inr h => exact h.2
    exact ⟨id, heq ▸ hrow⟩

end HostRows

/-- The catalog after the transaction. -/
def newTitles (plan : Plan) (db : Db) (staged : List HostSoftwareEntry) : Table TitleRow :=
  reported plan db.titles staged

def newSoftware (plan : Plan) (db : Db) (staged : List HostSoftwareEntry) : Table VersionRow :=
  installed plan db.titles db.software staged

/-- The version that an entry is joined to. -/
def versionOf (db : Db) (entry : HostSoftwareEntry) : Option Int := softwareID db.titles db.software entry

def after (plan : Plan) (db : Db) (hostID : Int) (staged : List HostSoftwareEntry) : Db :=
  let linked := joined (softwareID (newTitles plan db staged) (newSoftware plan db staged)) staged
  { db with
    titles := newTitles plan db staged
    software := newSoftware plan db staged
    links := linksOf db hostID linked
    paths := pathsOf plan db hostID linked }

theorem Valid.one (hvalid : db.Valid) : OneTitle db.titles := oneTitle_iff.mp ⟨hvalid.names, hvalid.bundles⟩

theorem versionOf_after (plan : Plan) (hvalid : db.Valid) (hentry : entry ∈ staged) :
    ∃ number id, titleID (newTitles plan db staged) entry = some number ∧
      softwareID (newTitles plan db staged) (newSoftware plan db staged) entry = some id := by
  have hone := Valid.one hvalid
  obtain ⟨number, hnumber⟩ := titleID_reported plan hone hentry
  obtain ⟨id, version, hrow, hkey⟩ := installed_has plan hone hvalid.versions hentry
  rw [numberOf, hnumber, Option.getD_some] at hkey
  exact ⟨number, id, hnumber,
    (softwareID_iff (oneVersion_installed hvalid.versions) hnumber).mpr ⟨version, hrow, hkey⟩⟩

theorem reconcile_ok (plan : Plan) (hvalid : db.Valid) (staged : List HostSoftwareEntry) :
    reconcileSoftwareCatalog plan db staged = .ok
      ({ db with titles := newTitles plan db staged, software := newSoftware plan db staged },
        joined (softwareID (newTitles plan db staged) (newSoftware plan db staged)) staged) := by
  have hone := Valid.one hvalid
  have htitled : withIDs (titleID (newTitles plan db staged)) staged =
      .ok (staged.map (fun entry => (numberOf (newTitles plan db staged) entry, entry))) :=
    withIDs_ok (fun entry hentry => titleID_reported plan hone hentry)
  have hlinked : withIDs (softwareID (newTitles plan db staged) (newSoftware plan db staged)) staged =
      .ok (joined (softwareID (newTitles plan db staged) (newSoftware plan db staged)) staged) := by
    apply withIDs_ok
    intro entry hentry
    obtain ⟨_, id, -, hid⟩ := versionOf_after plan hvalid hentry
    exact ⟨id, hid⟩
  have htitles : reconcileTitles plan db.titles staged = .ok (newTitles plan db staged) :=
    reconcileTitles_eq plan staged hone
  have hsoftware : upsertStatement versionUpsert checkVersions db.software
      (plan.versions (versionRows (staged.map (fun entry => (numberOf (newTitles plan db staged) entry, entry))))) =
      .ok (newSoftware plan db staged) := installStatement_ok hvalid.versions
  rw [reconcileSoftwareCatalog, htitles]
  change (withIDs (titleID (newTitles plan db staged)) staged >>= _) = _
  rw [htitled]
  change (upsertStatement versionUpsert checkVersions db.software _ >>= _) = _
  rw [hsoftware]
  change (withIDs (softwareID (newTitles plan db staged) (newSoftware plan db staged)) staged >>= _) = _
  rw [hlinked]
  rfl

/-- The report is one that the transaction stores. -/
structure Storable (db : Db) (hostID : Int) (entries : List HostSoftwareEntry) : Prop where
  sources : ∀ entry ∈ entries, entry.name ≠ "" → SoftwareSource.valid entry.source = true
  texts : ∀ entry ∈ entries, entry.name ≠ "" → (texts entry).all isText = true
  host : stageSoftwareSnapshot entries ≠ [] → hostID ∈ db.hosts

theorem mem_staged : entry ∈ stageSoftwareSnapshot entries ↔ entry ∈ entries ∧ entry.name ≠ "" := by
  rw [stageSoftwareSnapshot, List.mem_filter, decide_eq_true_eq]

theorem any_unsupported : (entries.any (fun entry => entry.name ≠ "" && !SoftwareSource.valid entry.source)) = true ↔
    ∃ entry ∈ entries, entry.name ≠ "" ∧ SoftwareSource.valid entry.source = false := by
  simp only [List.any_eq_true, Bool.and_eq_true, decide_eq_true_eq, Bool.not_eq_true']

theorem any_notText : ((stageSoftwareSnapshot entries).any (fun entry => !(texts entry).all isText)) = true ↔
    ∃ entry ∈ entries, entry.name ≠ "" ∧ (texts entry).all isText = false := by
  simp only [List.any_eq_true, mem_staged, Bool.not_eq_true', and_assoc]

/-- An unsupported source is refused before anything is read. -/
theorem unsupported_refused (plan : Plan) (db : Db) (hostID : Int)
    (h : ∃ entry ∈ entries, entry.name ≠ "" ∧ SoftwareSource.valid entry.source = false) :
    replaceHostSoftware plan db hostID entries = .error (.invalidInput "unsupported software source") := by
  rw [replaceHostSoftware, if_pos (any_unsupported.mpr h)]
  rfl

theorem joined_ne_nil {f : HostSoftwareEntry → Option Int} : joined f staged ≠ [] ↔ staged ≠ [] := by
  rw [joined, ne_eq, List.map_eq_nil_iff]

/-- A report of supported sources and texts comes to the rows of the host. -/
theorem replace_eq (plan : Plan) (hvalid : db.Valid)
    (hsources : ∀ entry ∈ entries, entry.name ≠ "" → SoftwareSource.valid entry.source = true)
    (htexts : ∀ entry ∈ entries, entry.name ≠ "" → (texts entry).all isText = true) :
    replaceHostSoftware plan db hostID entries =
      if stageSoftwareSnapshot entries ≠ [] ∧ hostID ∉ db.hosts then .error (.database "foreign_key_violation")
      else .ok (after plan db hostID (stageSoftwareSnapshot entries)) := by
  have hsupported : ¬ (entries.any (fun entry => entry.name ≠ "" && !SoftwareSource.valid entry.source)) = true := by
    rw [any_unsupported]
    rintro ⟨entry, hentry, hname, hfalse⟩
    rw [hsources entry hentry hname] at hfalse
    cases hfalse
  have htext : ¬ ((stageSoftwareSnapshot entries).any (fun entry => !(texts entry).all isText)) = true := by
    rw [any_notText]
    rintro ⟨entry, hentry, hname, hfalse⟩
    rw [htexts entry hentry hname] at hfalse
    cases hfalse
  rw [replaceHostSoftware, if_neg hsupported]
  dsimp only
  rw [if_neg htext]
  change (reconcileSoftwareCatalog plan db (stageSoftwareSnapshot entries) >>= _) = _
  rw [reconcile_ok plan hvalid]
  change replaceHostSoftwareSnapshot plan _ hostID _ = _
  have hmissing : joined (softwareID (newTitles plan db (stageSoftwareSnapshot entries))
      (newSoftware plan db (stageSoftwareSnapshot entries))) (stageSoftwareSnapshot entries) ≠ [] ∧
      hostID ∉ db.hosts ↔ stageSoftwareSnapshot entries ≠ [] ∧ hostID ∉ db.hosts := by
    rw [joined_ne_nil]
  rw [replaceHostSoftwareSnapshot]
  by_cases hhost : stageSoftwareSnapshot entries ≠ [] ∧ hostID ∉ db.hosts
  · rw [if_pos (hmissing.mpr hhost), if_pos hhost]
    rfl
  · rw [if_neg (fun h => hhost (hmissing.mp h)), if_neg hhost]
    change (upsertStatement pathUpsert checkPaths (keep (fun row => decide (row.hostID ≠ hostID)) db.paths)
      (plan.paths (pathRows hostID _)) >>= _) = _
    rw [pathStatement_ok _ hvalid.paths]
    rfl

theorem notText_refused (plan : Plan) (db : Db) (hostID : Int)
    (hsources : ∀ entry ∈ entries, entry.name ≠ "" → SoftwareSource.valid entry.source = true)
    (h : ∃ entry ∈ entries, entry.name ≠ "" ∧ (texts entry).all isText = false) :
    replaceHostSoftware plan db hostID entries = .error (.database "character_not_in_repertoire") := by
  have hsupported : ¬ (entries.any (fun entry => entry.name ≠ "" && !SoftwareSource.valid entry.source)) = true := by
    rw [any_unsupported]
    rintro ⟨entry, hentry, hname, hfalse⟩
    rw [hsources entry hentry hname] at hfalse
    cases hfalse
  rw [replaceHostSoftware, if_neg hsupported]
  dsimp only
  rw [if_pos (any_notText.mpr h)]
  rfl

/-- The transaction commits exactly for the reports that it can store. -/
theorem replace_ok_iff (plan : Plan) (hvalid : db.Valid) : replaceHostSoftware plan db hostID entries = .ok db' ↔
    Storable db hostID entries ∧ db' = after plan db hostID (stageSoftwareSnapshot entries) := by
  constructor
  · intro hok
    have hsources : ∀ entry ∈ entries, entry.name ≠ "" → SoftwareSource.valid entry.source = true := by
      intro entry hentry hname
      cases hsource : SoftwareSource.valid entry.source with
      | true => rfl
      | false =>
        rw [unsupported_refused plan db hostID ⟨entry, hentry, hname, hsource⟩] at hok
        cases hok
    have htexts : ∀ entry ∈ entries, entry.name ≠ "" → (texts entry).all isText = true := by
      intro entry hentry hname
      cases htext : (texts entry).all isText with
      | true => rfl
      | false =>
        rw [notText_refused plan db hostID hsources ⟨entry, hentry, hname, htext⟩] at hok
        cases hok
    rw [replace_eq plan hvalid hsources htexts] at hok
    by_cases hhost : stageSoftwareSnapshot entries ≠ [] ∧ hostID ∉ db.hosts
    · rw [if_pos hhost] at hok
      cases hok
    · rw [if_neg hhost] at hok
      constructor
      · refine ⟨hsources, htexts, fun hne => ?_⟩
        by_contra hmissing
        exact hhost ⟨hne, hmissing⟩
      · exact (Except.ok.inj hok).symm
  · rintro ⟨hstorable, rfl⟩
    rw [replace_eq plan hvalid hstorable.sources hstorable.texts]
    exact if_neg (fun h => h.2 (hstorable.host h.1))

/-- The title has the entry's bundle identifier, or without one its name, with source and
extension. -/
def IsTitleOf (title : TitleRow) (entry : HostSoftwareEntry) : Prop :=
  title.source = entry.source ∧ title.extensionFor = entry.extensionFor ∧
    title.bundleIdentifier = entry.bundleIdentifier ∧ (entry.bundleIdentifier = "" → title.name = entry.name)

/-- The one row of the entry's title, and the one version with its nine columns. -/
structure IsVersionOf (db : Db) (entry : HostSoftwareEntry) (number id : Int) : Prop where
  title : ∀ other, (∃ row, db.titles.row other = some row ∧ IsTitleOf row entry) ↔ other = number
  version : ∀ other, (∃ row, db.software.row other = some row ∧ row.key = entry.software number) ↔ other = id

/-- What the report of a host leaves. -/
structure Replaced (db db' : Db) (hostID : Int) (entries : List HostSoftwareEntry) : Prop where
  valid : db'.Valid
  hosts : db'.hosts = db.hosts
  version : ∀ entry ∈ entries, entry.name ≠ "" → ∃ number id, IsVersionOf db' entry number id ∧
    versionOf db' entry = some id ∧ (db'.links (hostID, id)).isSome = true
  links : ∀ id, db'.links (hostID, id) =
    (lastWith (fun entry => versionOf db' entry = some id) (stageSoftwareSnapshot entries)).map
      (fun entry => entry.lastOpenedAt)
  paths : ∀ path : PathRow, path.hostID = hostID → ((∃ id, db'.paths.row id = some path) ↔
    path.installedPath ≠ "" ∧ ∃ entry, lastWith (fun entry => versionOf db' entry = some path.softwareID ∧
      entry.installedPath = path.installedPath) (stageSoftwareSnapshot entries) = some entry ∧
      path = pathRow hostID path.softwareID entry)
  other_links : ∀ host id, host ≠ hostID → db'.links (host, id) = db.links (host, id)
  other_paths : ∀ id (path : PathRow), path.hostID ≠ hostID →
    (db'.paths.row id = some path ↔ db.paths.row id = some path)
  old_titles : ∀ id title, db.titles.row id = some title →
    db'.titles.row id = some (revised (stageSoftwareSnapshot entries) title)
  new_titles : ∀ id title, db'.titles.row id = some title → db.titles.row id = none →
    ∃ first, firstOfTitle (stageSoftwareSnapshot entries) first.title = some first ∧
      title = titleRow first (titleVendor (stageSoftwareSnapshot entries) first.title) ∧
      ∀ id' title', db.titles.row id' = some title' → identity title' ≠ first.title
  old_versions : ∀ id version, db.software.row id = some version → db'.software.row id = some version
  new_versions : ∀ id version, db'.software.row id = some version → db.software.row id = none →
    ∃ first number, firstOfVersion (stageSoftwareSnapshot entries) (versionKey first) = some first ∧
      titleID db'.titles first = some number ∧ version = ⟨first.software number, first.name⟩ ∧
      ∀ id' version', db.software.row id' = some version' → version'.key ≠ version.key

theorem isTitleOf_iff_identity {title : TitleRow} : IsTitleOf title entry ↔ identity title = entry.title := by
  rw [← identity_titleRow entry "", identity_eq_iff, IsTitleOf]
  constructor
  · rintro ⟨hsource, hext, hbundle, hname⟩
    exact ⟨hsource, hext, hbundle, fun hblank => hname (hbundle.symm.trans hblank)⟩
  · rintro ⟨hsource, hext, hbundle, hname⟩
    exact ⟨hsource, hext, hbundle, fun hblank => hname (hbundle.trans hblank)⟩

theorem isVersionOf {number : Int} (hvalid : db.Valid) (hnumber : titleID db.titles entry = some number)
    (hid : versionOf db entry = some id) : IsVersionOf db entry number id := by
  have hone := Valid.one hvalid
  constructor
  · intro other
    have htitle : titleID db.titles entry = some other ↔ _ := titleID_iff hone
    rw [hnumber, Option.some.injEq] at htitle
    rw [eq_comm, htitle]
    simp only [isTitleOf_iff_identity]
  · intro other
    have hversion : softwareID db.titles db.software entry = some other ↔ _ :=
      softwareID_iff hvalid.versions hnumber
    rw [versionOf] at hid
    rw [hid, Option.some.injEq] at hversion
    rw [eq_comm, hversion]

theorem valid_after (plan : Plan) (hvalid : db.Valid) (hostID : Int) (staged : List HostSoftwareEntry) :
    (after plan db hostID staged).Valid := by
  have hone := Valid.one hvalid
  have hone' : OneTitle (newTitles plan db staged) := oneTitle_reported plan staged hone
  obtain ⟨hnames, hbundles⟩ := oneTitle_iff.mpr hone'
  constructor
  · exact hnames
  · exact hbundles
  · exact oneVersion_installed hvalid.versions
  · exact onePath_pathsOf _ hvalid.paths
  · intro id version hrow
    cases hold : db.software.row id with
    | some version' =>
      have hsame : (newSoftware plan db staged).row id = some version' := installed_old hvalid.versions hold
      have heq : version = version' := Option.some.inj (hrow.symm.trans hsame)
      obtain ⟨title, htitle⟩ := Option.isSome_iff_exists.mp (hvalid.version_title id version' hold)
      rw [heq]
      change ((newTitles plan db staged).row version'.key.titleID).isSome = true
      rw [newTitles, reported_old hone htitle]
      rfl
    | none =>
      obtain ⟨first, hfirst, rfl, -⟩ := installed_new hone hvalid.versions hrow hold
      obtain ⟨number, hnumber⟩ := titleID_reported plan hone (firstOfVersion_spec hfirst).1
      obtain ⟨title, htitle, -⟩ := (titleID_iff hone').mp hnumber
      change ((newTitles plan db staged).row (numberOf (reported plan db.titles staged) first)).isSome = true
      rw [numberOf, hnumber, Option.getD_some, htitle]
      rfl

theorem exists_lastWith {p : HostSoftwareEntry → Prop} [DecidablePred p] (hentry : entry ∈ staged) (hp : p entry) :
    ∃ last, lastWith p staged = some last := by
  apply Option.isSome_iff_exists.mp
  exact List.find?_isSome.mpr ⟨entry, List.mem_reverse.mpr hentry, decide_eq_true hp⟩

theorem replaced_after (plan : Plan) (hvalid : db.Valid) (hostID : Int) (entries : List HostSoftwareEntry) :
    Replaced db (after plan db hostID (stageSoftwareSnapshot entries)) hostID entries := by
  have hone := Valid.one hvalid
  have hvalid' := valid_after plan hvalid hostID (stageSoftwareSnapshot entries)
  have hall : ∀ entry ∈ stageSoftwareSnapshot entries, ∃ id,
      softwareID (newTitles plan db (stageSoftwareSnapshot entries))
        (newSoftware plan db (stageSoftwareSnapshot entries)) entry = some id := by
    intro entry hentry
    obtain ⟨_, id, -, hid⟩ := versionOf_after plan hvalid hentry
    exact ⟨id, hid⟩
  have hlinks := fun id => linksOf_host db hostID hall id
  constructor
  · exact hvalid'
  · rfl
  · intro entry hentry hname
    have hmem := mem_staged.mpr ⟨hentry, hname⟩
    obtain ⟨number, id, hnumber, hid⟩ := versionOf_after plan hvalid hmem
    refine ⟨number, id, isVersionOf hvalid' hnumber hid, hid, ?_⟩
    obtain ⟨last, hlast⟩ := exists_lastWith (p := fun entry =>
      softwareID (newTitles plan db (stageSoftwareSnapshot entries))
        (newSoftware plan db (stageSoftwareSnapshot entries)) entry = some id) hmem hid
    change (linksOf db hostID _ (hostID, id)).isSome = true
    rw [hlinks, hlast]
    rfl
  · exact hlinks
  · intro path hhost
    exact (pathsOf_host _ hvalid.paths hhost).trans (mem_pathRows hall)
  · intro host id hne
    exact linksOf_other hne id
  · intro id path hne
    exact pathsOf_other _ hvalid.paths hne
  · intro id title hrow
    exact reported_old hone hrow
  · intro id title hrow hnone
    exact reported_new hone hrow hnone
  · intro id version hrow
    exact installed_old hvalid.versions hrow
  · intro id version hrow hnone
    obtain ⟨first, hfirst, heq, hnew⟩ := installed_new hone hvalid.versions hrow hnone
    obtain ⟨number, hnumber⟩ := titleID_reported plan hone (firstOfVersion_spec hfirst).1
    refine ⟨first, number, hfirst, hnumber, ?_, hnew⟩
    rw [heq, numberOf, hnumber]
    rfl

/-- The same rows. The path rows may have other numbers. -/
structure SameRows (db db' : Db) : Prop where
  hosts : db'.hosts = db.hosts
  titles : db'.titles.row = db.titles.row
  software : db'.software.row = db.software.row
  links : db'.links = db.links
  paths : ∀ path : PathRow, (∃ id, db'.paths.row id = some path) ↔ ∃ id, db.paths.row id = some path

/-- A title has the vendor of the report by now. -/
theorem revised_settled (h : Replaced db db' hostID entries) {title : TitleRow}
    (hrow : db'.titles.row id = some title) :
    revised (stageSoftwareSnapshot entries) title = title := by
  have hvendor : ∀ vendor : String, ∀ stored : TitleRow,
      stored.vendor = (if vendor = "" then stored.vendor else vendor) →
      ({ stored with vendor := if vendor = "" then stored.vendor else vendor } : TitleRow) = stored := by
    intro vendor stored heq
    rw [← heq]
  cases hold : db.titles.row id with
  | some old =>
    have hsame := h.old_titles id old hold
    rw [hrow] at hsame
    cases hsame
    apply hvendor
    change _ = if titleVendor _ (identity old) = "" then _ else titleVendor _ (identity old)
    rw [revised]
    by_cases hblank : titleVendor (stageSoftwareSnapshot entries) (identity old) = ""
    · simp only [if_pos hblank]
    · simp only [if_neg hblank]
  | none =>
    obtain ⟨first, -, rfl, -⟩ := h.new_titles id title hrow hold
    apply hvendor
    rw [identity_titleRow]
    by_cases hblank : titleVendor (stageSoftwareSnapshot entries) first.title = ""
    · rw [if_pos hblank]
    · rw [if_neg hblank]
      rfl

theorem isVersionOf_unique {number number' id' : Int} (htitles : db'.titles.row = db.titles.row)
    (hsoftware : db'.software.row = db.software.row) (h : IsVersionOf db entry number id)
    (h' : IsVersionOf db' entry number' id') : number = number' ∧ id = id' := by
  have hnumber : number = number' := by
    have hheld := (h.title number).mpr rfl
    rw [← htitles] at hheld
    exact (h'.title number).mp hheld
  subst hnumber
  have hheld := (h.version id).mpr rfl
  rw [← hsoftware] at hheld
  exact ⟨rfl, (h'.version id).mp hheld⟩

theorem repeated (h : Replaced db db' hostID entries) {db'' : Db} (h' : Replaced db' db'' hostID entries) :
    SameRows db' db'' := by
  have htitles : db''.titles.row = db'.titles.row := by
    funext id
    cases hrow : db'.titles.row id with
    | some title => rw [h'.old_titles id title hrow, revised_settled h hrow]
    | none =>
      cases hrow' : db''.titles.row id with
      | none => rfl
      | some title =>
        obtain ⟨first, hfirst, -, hnew⟩ := h'.new_titles id title hrow' hrow
        obtain ⟨hentry, hname⟩ := mem_staged.mp (firstOfTitle_spec hfirst).1
        obtain ⟨number, _, hversion, -⟩ := h.version first hentry hname
        obtain ⟨held, hheld, htitle⟩ := (hversion.title number).mpr rfl
        exact absurd (isTitleOf_iff_identity.mp htitle) (hnew number held hheld)
  have hsoftware : db''.software.row = db'.software.row := by
    funext id
    cases hrow : db'.software.row id with
    | some version => exact h'.old_versions id version hrow
    | none =>
      cases hrow' : db''.software.row id with
      | none => rfl
      | some version =>
        obtain ⟨first, number, hfirst, hnumber, rfl, hnew⟩ := h'.new_versions id version hrow' hrow
        obtain ⟨hentry, hname⟩ := mem_staged.mp (firstOfVersion_spec hfirst).1
        obtain ⟨number', id', hversion, -⟩ := h.version first hentry hname
        have hsame : number = number' := by
          obtain ⟨held, hheld, htitle⟩ := (titleID_iff (Valid.one h'.valid)).mp hnumber
          rw [htitles] at hheld
          exact (hversion.title number).mp ⟨held, hheld, isTitleOf_iff_identity.mpr htitle⟩
        obtain ⟨held, hheld, hkey⟩ := (hversion.version id').mpr rfl
        exact absurd (hkey.trans (by rw [hsame])) (hnew id' held hheld)
  have hversions : ∀ entry ∈ stageSoftwareSnapshot entries, versionOf db'' entry = versionOf db' entry := by
    intro entry hmem
    obtain ⟨hentry, hname⟩ := mem_staged.mp hmem
    obtain ⟨number, id, hversion, hid, -⟩ := h.version entry hentry hname
    obtain ⟨number', id', hversion', hid', -⟩ := h'.version entry hentry hname
    rw [hid, hid', (isVersionOf_unique htitles hsoftware hversion hversion').2]
  constructor
  · exact h'.hosts
  · exact htitles
  · exact hsoftware
  · funext key
    obtain ⟨host, id⟩ := key
    by_cases hhost : host = hostID
    · rw [hhost, h'.links, h.links]
      congr 1
      apply lastWith_congr
      intro entry hentry
      rw [hversions entry hentry]
    · exact h'.other_links host id hhost
  · intro path
    by_cases hhost : path.hostID = hostID
    · rw [h'.paths path hhost, h.paths path hhost]
      have hlast : lastWith (fun entry => versionOf db'' entry = some path.softwareID ∧
            entry.installedPath = path.installedPath) (stageSoftwareSnapshot entries) =
          lastWith (fun entry => versionOf db' entry = some path.softwareID ∧
            entry.installedPath = path.installedPath) (stageSoftwareSnapshot entries) := by
        apply lastWith_congr
        intro entry hentry
        rw [hversions entry hentry]
      rw [hlast]
    · simp only [h'.other_paths _ path hhost]

/-- A version under its natural key. -/
def VersionAt (db : Db) (id : Int) (title : TitleRow) (key : Software) (name : String) : Prop :=
  ∃ row, db.software.row id = some row ∧ db.titles.row row.key.titleID = some title ∧
    key = { row.key with titleID := 0 } ∧ row.name = name

/-- The reports have the same entries, the same last duplicates, and the same first names of the
titles and versions that are not stored yet. -/
structure SameReport (db : Db) (staged staged' : List HostSoftwareEntry) : Prop where
  entries : ∀ entry, entry ∈ staged ↔ entry ∈ staged'
  last : ∀ key, lastWith (fun entry => versionKey entry = key) staged =
    lastWith (fun entry => versionKey entry = key) staged'
  last_path : ∀ key path, lastWith (fun entry => versionKey entry = key ∧ entry.installedPath = path) staged =
    lastWith (fun entry => versionKey entry = key ∧ entry.installedPath = path) staged'
  last_vendor : ∀ title, titleVendor staged title = titleVendor staged' title
  title_name : ∀ title, (∀ id row, db.titles.row id = some row → identity row ≠ title) →
    (firstOfTitle staged title).map (fun entry => entry.name) =
      (firstOfTitle staged' title).map (fun entry => entry.name)
  version_name : ∀ key, (∀ id title name, VersionAt db id title key.2 name → identity title ≠ key.1) →
    (firstOfVersion staged key).map (fun entry => entry.name) =
      (firstOfVersion staged' key).map (fun entry => entry.name)

theorem SameReport.symm {staged' : List HostSoftwareEntry} (h : SameReport db staged staged') :
    SameReport db staged' staged where
  entries entry := (h.entries entry).symm
  last key := (h.last key).symm
  last_path key path := (h.last_path key path).symm
  last_vendor title := (h.last_vendor title).symm
  title_name title hnone := (h.title_name title hnone).symm
  version_name key hnone := (h.version_name key hnone).symm

/-- The same rows up to the numbers of titles, versions and paths. -/
structure SameContent (hostID : Int) (db db' : Db) : Prop where
  titles : ∀ title, (∃ id, db.titles.row id = some title) ↔ ∃ id, db'.titles.row id = some title
  versions : ∀ title key name, (∃ id, VersionAt db id title key name) ↔ ∃ id, VersionAt db' id title key name
  links : ∀ title key name opened,
    (∃ id, VersionAt db id title key name ∧ db.links (hostID, id) = some opened) ↔
      ∃ id, VersionAt db' id title key name ∧ db'.links (hostID, id) = some opened
  paths : ∀ title key name (path : PathRow), path.hostID = hostID →
    ((∃ id number, VersionAt db id title key name ∧
        db.paths.row number = some { path with softwareID := id }) ↔
      ∃ id number, VersionAt db' id title key name ∧
        db'.paths.row number = some { path with softwareID := id })

/-- The version of an entry is the one under its natural key. -/
theorem versionOf_iff (hvalid : db.Valid) : versionOf db entry = some id ↔
    ∃ title name, VersionAt db id title (entry.software 0) name ∧ identity title = entry.title := by
  have hone := Valid.one hvalid
  constructor
  · intro hid
    obtain ⟨number, hnumber, -⟩ := Option.bind_eq_some_iff.mp hid
    obtain ⟨version, hrow, hkey⟩ := (softwareID_iff hvalid.versions hnumber).mp hid
    obtain ⟨title, htitle, hidentity⟩ := (titleID_iff hone).mp hnumber
    refine ⟨title, version.name, ⟨version, hrow, ?_, ?_, rfl⟩, hidentity⟩
    · rw [hkey]
      exact htitle
    · rw [hkey]
      rfl
  · rintro ⟨title, name, ⟨version, hrow, htitle, hkey, -⟩, hidentity⟩
    have hnumber : titleID db.titles entry = some version.key.titleID :=
      (titleID_iff hone).mpr ⟨title, htitle, hidentity⟩
    apply (softwareID_iff hvalid.versions hnumber).mpr
    refine ⟨version, hrow, ?_⟩
    have hzero : { entry.software 0 with titleID := version.key.titleID } = version.key := by
      rw [hkey]
    rw [← hzero]
    rfl

theorem versionAt_unique {title title' : TitleRow} {key key' : Software} {name name' : String}
    (h : VersionAt db id title key name) (h' : VersionAt db id title' key' name') :
    title = title' ∧ key = key' ∧ name = name' := by
  obtain ⟨row, hrow, htitle, rfl, rfl⟩ := h
  obtain ⟨row', hrow', htitle', rfl, rfl⟩ := h'
  cases Option.some.inj (hrow.symm.trans hrow')
  exact ⟨Option.some.inj (htitle.symm.trans htitle'), rfl, rfl⟩

/-- Entries of one version are those of one natural key. -/
theorem versionOf_same (hvalid : db.Valid) (hid : versionOf db entry = some id) :
    versionOf db entry' = some id ↔ versionKey entry' = versionKey entry := by
  obtain ⟨title, name, hat, hidentity⟩ := (versionOf_iff hvalid).mp hid
  constructor
  · intro hid'
    obtain ⟨title', name', hat', hidentity'⟩ := (versionOf_iff hvalid).mp hid'
    obtain ⟨htitle, hkey, -⟩ := versionAt_unique hat hat'
    rw [versionKey, versionKey, ← hidentity, ← hidentity', htitle, hkey]
  · intro hsame
    obtain ⟨htitle, hkey⟩ := Prod.mk.inj hsame
    exact (versionOf_iff hvalid).mpr ⟨title, name, hkey ▸ hat, hidentity.trans htitle.symm⟩

section Order

variable {entries' : List HostSoftwareEntry} {db₁ db₂ : Db} {title : TitleRow} {key : Software} {name : String}

/-- A title that one report leaves, the other leaves too. -/
theorem titles_within (h₁ : Replaced db db₁ hostID entries) (h₂ : Replaced db db₂ hostID entries')
    (hsame : SameReport db (stageSoftwareSnapshot entries) (stageSoftwareSnapshot entries'))
    (hrow : db₁.titles.row id = some title) : ∃ id', db₂.titles.row id' = some title := by
  cases hold : db.titles.row id with
  | some old =>
    have heq := h₁.old_titles id old hold
    have heq' := h₂.old_titles id old hold
    rw [revised, ← hsame.last_vendor, ← revised, ← heq, hrow] at heq'
    exact ⟨id, heq'⟩
  | none =>
    obtain ⟨first, hfirst, rfl, hnew⟩ := h₁.new_titles id title hrow hold
    obtain ⟨hentry, hname⟩ := mem_staged.mp ((hsame.entries first).mp (firstOfTitle_spec hfirst).1)
    obtain ⟨number, _, hversion, -⟩ := h₂.version first hentry hname
    obtain ⟨held, hheld, htitle⟩ := (hversion.title number).mpr rfl
    have hidentity := isTitleOf_iff_identity.mp htitle
    cases hold' : db.titles.row number with
    | some old =>
      have heq := h₂.old_titles number old hold'
      rw [hheld] at heq
      have hkept : identity held = identity old := by
        rw [Option.some.inj heq]
        rfl
      exact absurd (hkept.symm.trans hidentity) (hnew number old hold')
    | none =>
      obtain ⟨first', hfirst', rfl, -⟩ := h₂.new_titles number held hheld hold'
      rw [identity_titleRow] at hidentity
      have hnames := hsame.title_name first.title hnew
      rw [hidentity] at hfirst'
      rw [hfirst, hfirst', Option.map_some, Option.map_some, Option.some.injEq] at hnames
      exists number
      rw [hheld, titleRow, titleRow, hidentity, hsame.last_vendor, hnames]
      simp only [HostSoftwareEntry.title, SoftwareTitle.mk.injEq] at hidentity
      rw [hidentity.2.1, hidentity.2.2.1, hidentity.2.2.2]

theorem old_versionAt (hvalid : db.Valid) (h₁ : Replaced db db₁ hostID entries) {version : VersionRow}
    (hold : db.software.row id = some version) (hat : VersionAt db₁ id title key name) :
    ∃ old, VersionAt db id old key name ∧ title = revised (stageSoftwareSnapshot entries) old := by
  obtain ⟨row, hrow, htitle, rfl, rfl⟩ := hat
  rw [h₁.old_versions id version hold] at hrow
  cases hrow
  obtain ⟨old, hrow⟩ := Option.isSome_iff_exists.mp (hvalid.version_title id version hold)
  have heq := h₁.old_titles version.key.titleID old hrow
  rw [htitle] at heq
  exact ⟨old, ⟨version, hold, hrow, rfl, rfl⟩, Option.some.inj heq⟩

/-- A new version has the first entry's name, and no stored version its natural key. -/
theorem new_versionAt (h₁ : Replaced db db₁ hostID entries) (hnone : db.software.row id = none)
    (hat : VersionAt db₁ id title key name) : ∃ first,
      firstOfVersion (stageSoftwareSnapshot entries) (versionKey first) = some first ∧
      identity title = first.title ∧ key = first.software 0 ∧ name = first.name ∧
      ∀ id title name, VersionAt db id title (first.software 0) name → identity title ≠ first.title := by
  obtain ⟨row, hrow, htitle, rfl, rfl⟩ := hat
  obtain ⟨first, number, hfirst, hnumber, rfl, hnew⟩ := h₁.new_versions id row hrow hnone
  have hone := Valid.one h₁.valid
  obtain ⟨held, hheld, hidentity⟩ := (titleID_iff hone).mp hnumber
  have hsame : title = held := Option.some.inj (htitle.symm.trans hheld)
  refine ⟨first, hfirst, hsame ▸ hidentity, rfl, rfl, ?_⟩
  rintro id' title' name' ⟨row', hrow', htitle', hkey', -⟩ hidentity'
  -- the stored version would have the new one's key
  have hrevised := h₁.old_titles row'.key.titleID title' htitle'
  have hnumber' : titleID db₁.titles first = some row'.key.titleID :=
    (titleID_iff hone).mpr ⟨_, hrevised, hidentity'⟩
  have hid : number = row'.key.titleID := Option.some.inj (hnumber.symm.trans hnumber')
  apply hnew id' row' hrow'
  have hback : row'.key = { first.software 0 with titleID := row'.key.titleID } := by
    rw [hkey']
  rw [hback, hid]
  rfl

theorem versions_within (hvalid : db.Valid) (h₁ : Replaced db db₁ hostID entries)
    (h₂ : Replaced db db₂ hostID entries')
    (hsame : SameReport db (stageSoftwareSnapshot entries) (stageSoftwareSnapshot entries'))
    (hat : VersionAt db₁ id title key name) : ∃ id', VersionAt db₂ id' title key name := by
  cases hold : db.software.row id with
  | some version =>
    obtain ⟨old, ⟨row, hrow, htitle, rfl, rfl⟩, rfl⟩ := old_versionAt hvalid h₁ hold hat
    exists id, row
    have htitle' := h₂.old_titles row.key.titleID old htitle
    rw [revised, ← hsame.last_vendor, ← revised] at htitle'
    exact ⟨h₂.old_versions id row hrow, htitle', rfl, rfl⟩
  | none =>
    obtain ⟨first, hfirst, hidentity, rfl, rfl, hnew⟩ := new_versionAt h₁ hold hat
    obtain ⟨hentry, hname⟩ := mem_staged.mp ((hsame.entries first).mp (firstOfVersion_spec hfirst).1)
    obtain ⟨_, id', -, hid', -⟩ := h₂.version first hentry hname
    obtain ⟨title', name', hat', hidentity'⟩ := (versionOf_iff h₂.valid).mp hid'
    have htitles : title' = title := by
      obtain ⟨row, -, htitle, -⟩ := hat
      obtain ⟨row', -, htitle', -⟩ := hat'
      obtain ⟨number, hnumber⟩ := titles_within h₁ h₂ hsame htitle
      have hnumbers : row'.key.titleID = number := by
        apply Valid.one h₂.valid row'.key.titleID number title' title (identity title') htitle' hnumber rfl
        exact congrArg some (hidentity.trans hidentity'.symm)
      rw [hnumbers, hnumber] at htitle'
      exact (Option.some.inj htitle').symm
    have hnames : name' = first.name := by
      cases hold' : db.software.row id' with
      | some version =>
        obtain ⟨old, hatold, rfl⟩ := old_versionAt hvalid h₂ hold' hat'
        exact absurd hidentity' (hnew id' old name' hatold)
      | none =>
        obtain ⟨first', hfirst', hidentity'', hkey, rfl, -⟩ := new_versionAt h₂ hold' hat'
        have hkeys : versionKey first' = versionKey first := by
          rw [versionKey, versionKey, ← hkey, ← hidentity'', hidentity']
        have hfirsts := hsame.version_name (versionKey first) hnew
        rw [hkeys] at hfirst'
        rw [hfirst, hfirst', Option.map_some, Option.map_some, Option.some.injEq] at hfirsts
        exact hfirsts.symm
    rw [htitles, hnames] at hat'
    exact ⟨id', hat'⟩

/-- The last entry of a version is the other report's last entry of its version. -/
theorem links_within (hvalid : db.Valid) (h₁ : Replaced db db₁ hostID entries)
    (h₂ : Replaced db db₂ hostID entries')
    (hsame : SameReport db (stageSoftwareSnapshot entries) (stageSoftwareSnapshot entries'))
    (hat : VersionAt db₁ id title key name) {opened : Option Int} (hlink : db₁.links (hostID, id) = some opened) :
    ∃ id', VersionAt db₂ id' title key name ∧ db₂.links (hostID, id') = some opened := by
  rw [h₁.links] at hlink
  obtain ⟨entry, hentry, rfl⟩ := Option.map_eq_some_iff.mp hlink
  have hid := (lastWith_spec hentry).2
  obtain ⟨title', name', hat', hidentity⟩ := (versionOf_iff h₁.valid).mp hid
  obtain ⟨rfl, rfl, rfl⟩ := versionAt_unique hat hat'
  obtain ⟨id', hat₂⟩ := versions_within hvalid h₁ h₂ hsame hat
  have hid' : versionOf db₂ entry = some id' := (versionOf_iff h₂.valid).mpr ⟨title, name, hat₂, hidentity⟩
  refine ⟨id', hat₂, ?_⟩
  rw [h₂.links]
  have hlast : lastWith (fun other => versionOf db₂ other = some id') (stageSoftwareSnapshot entries') =
      some entry := by
    rw [lastWith_congr (fun other _ => versionOf_same h₂.valid hid'), ← hsame.last, ← hentry]
    exact lastWith_congr (fun other _ => (versionOf_same h₁.valid hid).symm)
  rw [hlast]
  rfl

theorem paths_within (hvalid : db.Valid) (h₁ : Replaced db db₁ hostID entries)
    (h₂ : Replaced db db₂ hostID entries')
    (hsame : SameReport db (stageSoftwareSnapshot entries) (stageSoftwareSnapshot entries'))
    (hat : VersionAt db₁ id title key name) (hhost : path.hostID = hostID)
    (hpath : ∃ number, db₁.paths.row number = some { path with softwareID := id }) :
    ∃ id' number, VersionAt db₂ id' title key name ∧
      db₂.paths.row number = some { path with softwareID := id' } := by
  obtain ⟨hne, entry, hentry, heq⟩ := (h₁.paths { path with softwareID := id } hhost).mp hpath
  obtain ⟨hid, hinstalled⟩ := (lastWith_spec hentry).2
  obtain ⟨title', name', hat', hidentity⟩ := (versionOf_iff h₁.valid).mp hid
  obtain ⟨rfl, rfl, rfl⟩ := versionAt_unique hat hat'
  obtain ⟨id', hat₂⟩ := versions_within hvalid h₁ h₂ hsame hat
  have hid' : versionOf db₂ entry = some id' := (versionOf_iff h₂.valid).mpr ⟨title, name, hat₂, hidentity⟩
  have hlast : lastWith (fun other => versionOf db₂ other = some id' ∧ other.installedPath = path.installedPath)
      (stageSoftwareSnapshot entries') = some entry := by
    rw [lastWith_congr (fun other _ => and_congr_left' (versionOf_same h₂.valid hid')), ← hsame.last_path,
      ← hentry]
    exact lastWith_congr (fun other _ => (and_congr_left' (versionOf_same h₁.valid hid)).symm)
  have hrow : ({ path with softwareID := id' } : PathRow) = pathRow hostID id' entry :=
    congrArg (fun row : PathRow => { row with softwareID := id' }) heq
  obtain ⟨number, hnumber⟩ := (h₂.paths { path with softwareID := id' } hhost).mpr ⟨hne, entry, hlast, hrow⟩
  exact ⟨id', number, hat₂, hnumber⟩

/-- Of the order, the stored rows show the last duplicates and the first new names only. -/
theorem order_unseen (hvalid : db.Valid) (h₁ : Replaced db db₁ hostID entries)
    (h₂ : Replaced db db₂ hostID entries')
    (hsame : SameReport db (stageSoftwareSnapshot entries) (stageSoftwareSnapshot entries')) :
    SameContent hostID db₁ db₂ := by
  constructor
  · intro title
    constructor
    · rintro ⟨id, hrow⟩
      exact titles_within h₁ h₂ hsame hrow
    · rintro ⟨id, hrow⟩
      exact titles_within h₂ h₁ hsame.symm hrow
  · intro title key name
    constructor
    · rintro ⟨id, hat⟩
      exact versions_within hvalid h₁ h₂ hsame hat
    · rintro ⟨id, hat⟩
      exact versions_within hvalid h₂ h₁ hsame.symm hat
  · intro title key name opened
    constructor
    · rintro ⟨id, hat, hlink⟩
      exact links_within hvalid h₁ h₂ hsame hat hlink
    · rintro ⟨id, hat, hlink⟩
      exact links_within hvalid h₂ h₁ hsame.symm hat hlink
  · intro title key name path hhost
    constructor
    · rintro ⟨id, number, hat, hrow⟩
      exact paths_within hvalid h₁ h₂ hsame hat hhost ⟨number, hrow⟩
    · rintro ⟨id, number, hat, hrow⟩
      exact paths_within hvalid h₂ h₁ hsame.symm hat hhost ⟨number, hrow⟩

end Order

/-- A report goes in whole or leaves everything as it was, again it changes nothing but the
numbers of path rows, and of its order only the last duplicates and the first new names are
stored. -/
theorem snapshot_stored_as_set (db : { db : Db // db.Valid }) (plan : Plan) (hostID : Int)
    (entries : List HostSoftwareEntry) :
    ((∃ entry ∈ entries, entry.name ≠ "" ∧ SoftwareSource.valid entry.source = false) →
      replaceHostSoftware plan db.1 hostID entries =
        .error (.invalidInput "unsupported software source")) ∧
    ((∃ db', replaceHostSoftware plan db.1 hostID entries = .ok db') ↔ Storable db.1 hostID entries) ∧
    ∀ db', replaceHostSoftware plan db.1 hostID entries = .ok db' →
      Replaced db.1 db' hostID entries ∧
      (∀ again : Plan, ∃ db'', replaceHostSoftware again db' hostID entries = .ok db'' ∧ SameRows db' db'') ∧
      ∀ (other : Plan) (entries' : List HostSoftwareEntry) (db'' : Db),
        replaceHostSoftware other db.1 hostID entries' = .ok db'' →
        SameReport db.1 (stageSoftwareSnapshot entries) (stageSoftwareSnapshot entries') →
        SameContent hostID db' db'' := by
  obtain ⟨db, hvalid⟩ := db
  constructor
  · exact unsupported_refused plan db hostID
  constructor
  · constructor
    · rintro ⟨db', hok⟩
      exact ((replace_ok_iff plan hvalid).mp hok).1
    · intro hstorable
      exact ⟨_, (replace_ok_iff plan hvalid).mpr ⟨hstorable, rfl⟩⟩
  intro db' hok
  obtain ⟨hstorable, rfl⟩ := (replace_ok_iff plan hvalid).mp hok
  have hreplaced := replaced_after plan hvalid hostID entries
  constructor
  · exact hreplaced
  constructor
  · intro again
    have hagain := replaced_after again hreplaced.valid hostID entries
    have hstorable' : Storable (after plan db hostID (stageSoftwareSnapshot entries)) hostID entries :=
      ⟨hstorable.sources, hstorable.texts, hstorable.host⟩
    exact ⟨_, (replace_ok_iff again hreplaced.valid).mpr ⟨hstorable', rfl⟩, repeated hreplaced hagain⟩
  · intro other entries' db'' hok' hsame
    obtain ⟨-, rfl⟩ := (replace_ok_iff other hvalid).mp hok'
    exact order_unseen hvalid hreplaced (replaced_after other hvalid hostID entries') hsame

/-- Rows in the order of the statement. -/
def inOrder : Plan where
  titles rows := rows
  versions rows := rows
  paths rows := rows
  titles_perm := List.Perm.refl
  versions_perm := List.Perm.refl
  paths_perm := List.Perm.refl

/-- A host, and a title that is stored already. -/
def editorDb : Db where
  hosts := [1]
  titles := Table.empty.insert
    { name := "Editor", source := "apps", extensionFor := "", bundleIdentifier := "org.editor", vendor := "" }

def editor (name : String) : HostSoftwareEntry where
  name := name
  version := "2.0"
  source := "apps"
  bundleIdentifier := "org.editor"
  installedPath := "/Applications/Editor.app"

/-- Two reports that differ in the order of two duplicates, neither of which is the last, name a
new version differently, and the same report again gives its path another number. -/
theorem order_names_new_version : editorDb.Valid ∧
    ((replaceHostSoftware inOrder editorDb 1 [editor "Editor A", editor "Editor B", editor "Editor"]).toOption.bind
      (fun db => (db.software.row 1).map (fun version => version.name)) = some "Editor A") ∧
    ((replaceHostSoftware inOrder editorDb 1 [editor "Editor B", editor "Editor A", editor "Editor"]).toOption.bind
      (fun db => (db.software.row 1).map (fun version => version.name)) = some "Editor B") ∧
    ((replaceHostSoftware inOrder editorDb 1 [editor "Editor"]).toOption.map
      (fun db => ((db.paths.row 1).isSome, (db.paths.row 2).isSome)) = some (true, false)) ∧
    ((replaceHostSoftware inOrder editorDb 1 [editor "Editor"]).toOption.bind
      (fun db => (replaceHostSoftware inOrder db 1 [editor "Editor"]).toOption.map
        (fun db => ((db.paths.row 1).isSome, (db.paths.row 2).isSome))) = some (false, true)) := by
  constructor
  · constructor
    · exact isDistinct_iff.mp (by decide)
    · exact isDistinct_iff.mp (by decide)
    · exact isDistinct_iff.mp (by decide)
    · exact isDistinct_iff.mp (by decide)
    · intro id row hrow
      cases hrow
  · decide

end SoftwareSnapshots
