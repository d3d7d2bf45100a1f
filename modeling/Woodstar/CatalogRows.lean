import Mathlib.Data.List.Find
import Woodstar.SoftwareCatalog

/-!
# Titles and versions of a report

The two statements that write titles act as one upsert under the title's identity:
its bundle identifier, or without one its name, with source and extension.
-/
namespace CatalogRows

open FirstWins
open KeyedRows (Table)
open KeyedUpserts
open Primitives (Fault)
open SoftwareCatalog
open SoftwarePruning (HostSoftwareEntry Software SoftwareTitle)

variable {titles : Table TitleRow} {title title' : TitleRow} {entry entry' : HostSoftwareEntry}
variable {staged : List HostSoftwareEntry} {plan : Plan} {id id' : Int}

def identity (title : TitleRow) : SoftwareTitle where
  name := if title.bundleIdentifier = "" then title.name else ""
  source := title.source
  extensionFor := title.extensionFor
  bundleIdentifier := title.bundleIdentifier

/-- The rows are told apart by their identities. -/
def OneTitle (titles : Table TitleRow) : Prop := Distinct (fun title => some (identity title)) titles

theorem identity_titleRow (entry : HostSoftwareEntry) (vendor : String) :
    identity (titleRow entry vendor) = entry.title := rfl

theorem identity_eq_iff : identity title = identity title' ↔ title.source = title'.source ∧
    title.extensionFor = title'.extensionFor ∧ title.bundleIdentifier = title'.bundleIdentifier ∧
    (title.bundleIdentifier = "" → title.name = title'.name) := by
  simp only [identity, SoftwareTitle.mk.injEq]
  constructor
  · rintro ⟨hname, hsource, hext, hbundle⟩
    refine ⟨hsource, hext, hbundle, fun hblank => ?_⟩
    rwa [if_pos hblank, if_pos (hbundle ▸ hblank)] at hname
  · rintro ⟨hsource, hext, hbundle, hname⟩
    refine ⟨?_, hsource, hext, hbundle⟩
    by_cases hblank : title.bundleIdentifier = ""
    · rw [if_pos hblank, if_pos (hbundle ▸ hblank), hname hblank]
    · rw [if_neg hblank, if_neg (hbundle ▸ hblank)]

theorem nameKey_eq_iff : title.nameKey = title'.nameKey ↔ title.name = title'.name ∧
    title.source = title'.source ∧ title.extensionFor = title'.extensionFor ∧
    title.bundleIdentifier = title'.bundleIdentifier := by
  simp only [TitleRow.nameKey, Option.some.injEq, Prod.mk.injEq]

theorem identity_of_nameKey (h : title.nameKey = title'.nameKey) : identity title = identity title' := by
  obtain ⟨hname, hsource, hext, hbundle⟩ := nameKey_eq_iff.mp h
  exact identity_eq_iff.mpr ⟨hsource, hext, hbundle, fun _ => hname⟩

theorem bundleKey_eq_some {key : String × String × String} : title.bundleKey = some key ↔
    title.bundleIdentifier ≠ "" ∧ key = (title.bundleIdentifier, title.source, title.extensionFor) := by
  rw [TitleRow.bundleKey]
  by_cases hblank : title.bundleIdentifier = ""
  · rw [if_pos hblank]
    exact iff_of_false (fun h => by cases h) (fun h => h.1 hblank)
  · rw [if_neg hblank, Option.some.injEq, and_iff_right hblank]
    exact eq_comm

/-- The two unique keys together say that the identity is unique. -/
theorem oneTitle_iff : Distinct TitleRow.nameKey titles ∧ Distinct TitleRow.bundleKey titles ↔ OneTitle titles := by
  constructor
  · rintro ⟨hnames, hbundles⟩ id id' title title' key hrow hrow' hkey hkey'
    have hsame : identity title = identity title' := Option.some.inj (hkey.trans hkey'.symm)
    obtain ⟨hsource, hext, hbundle, hname⟩ := identity_eq_iff.mp hsame
    by_cases hblank : title.bundleIdentifier = ""
    · have hkeys : title.nameKey = title'.nameKey := nameKey_eq_iff.mpr ⟨hname hblank, hsource, hext, hbundle⟩
      exact hnames id id' title title' _ hrow hrow' rfl hkeys.symm
    · apply hbundles id id' title title' (title.bundleIdentifier, title.source, title.extensionFor) hrow hrow'
      · exact bundleKey_eq_some.mpr ⟨hblank, rfl⟩
      · exact bundleKey_eq_some.mpr ⟨hbundle ▸ hblank, by rw [hsource, hext, hbundle]⟩
  · intro hone
    constructor
    · intro id id' title title' key hrow hrow' hkey hkey'
      have hsame := identity_of_nameKey (hkey.trans hkey'.symm)
      exact hone id id' title title' _ hrow hrow' rfl (congrArg some hsame.symm)
    · intro id id' title title' key hrow hrow' hkey hkey'
      obtain ⟨hne, rfl⟩ := bundleKey_eq_some.mp hkey
      obtain ⟨-, heq⟩ := bundleKey_eq_some.mp hkey'
      simp only [Prod.mk.injEq] at heq
      have hsame : identity title = identity title' :=
        identity_eq_iff.mpr ⟨heq.2.1, heq.2.2, heq.1, fun hblank => absurd hblank hne⟩
      exact hone id id' title title' _ hrow hrow' rfl (congrArg some hsame.symm)

theorem checkTitles_ok (h : OneTitle titles) : checkTitles titles = .ok () := by
  obtain ⟨hnames, hbundles⟩ := oneTitle_iff.mpr h
  rw [checkTitles, isDistinct_iff.mpr hnames, isDistinct_iff.mpr hbundles]
  rfl

/-- The join back finds the row of the entry's title. -/
theorem isTitleOf_iff : isTitleOf title entry = true ↔ identity title = entry.title := by
  rw [← identity_titleRow entry "", identity_eq_iff]
  simp only [isTitleOf, titleRow, Bool.and_eq_true, Bool.or_eq_true, beq_iff_eq, bne_iff_ne]
  constructor
  · rintro ⟨⟨hsource, hext⟩, hcase⟩
    cases hcase with
    | inl hbundle => exact ⟨hsource, hext, hbundle.2, fun hblank => absurd (hbundle.2.symm.trans hblank) hbundle.1⟩
    | inr hname => exact ⟨hsource, hext, hname.1.2.trans hname.1.1.symm, fun _ => hname.2⟩
  · rintro ⟨hsource, hext, hbundle, hname⟩
    refine ⟨⟨hsource, hext⟩, ?_⟩
    by_cases hblank : entry.bundleIdentifier = ""
    · exact Or.inr ⟨⟨hblank, hbundle.trans hblank⟩, hname (hbundle.trans hblank)⟩
    · exact Or.inl ⟨hblank, hbundle⟩

/-- The upsert of a title under its identity. -/
def titleUpsert : Upsert TitleRow TitleRow SoftwareTitle where
  key title := some (identity title)
  slot := identity
  make title := title
  merge := mergeVendor
  key_make _ := rfl
  key_merge _ _ h := h

theorem find_congr {κ κ' : Type} [DecidableEq κ] [DecidableEq κ'] {key : TitleRow → Option κ}
    {key' : TitleRow → Option κ'} {k : κ} {k' : κ'}
    (h : ∀ title, key title = some k ↔ key' title = some k') : find key titles k = find key' titles k' := by
  rw [find, find]
  congr 1
  funext id
  cases titles.row id with
  | none => rfl
  | some title => exact decide_eq_decide.mpr (h title)

theorem put_bundle (entry : BundleTitle) :
    put bundleUpsert titles entry = put titleUpsert titles entry.1 := by
  have hfind : find bundleUpsert.key titles (bundleUpsert.slot entry) =
      find titleUpsert.key titles (titleUpsert.slot entry.1) := by
    apply find_congr
    intro title
    constructor
    · intro h
      obtain ⟨hne, heq⟩ := bundleKey_eq_some.mp h
      simp only [bundleUpsert, Prod.mk.injEq] at heq
      apply congrArg some
      exact identity_eq_iff.mpr ⟨heq.2.1.symm, heq.2.2.symm, heq.1.symm, fun hblank => absurd hblank hne⟩
    · intro h
      obtain ⟨hsource, hext, hbundle, -⟩ := identity_eq_iff.mp (Option.some.inj h)
      apply bundleKey_eq_some.mpr
      constructor
      · rw [hbundle]
        exact entry.2
      · rw [hsource, hext, hbundle]
        rfl
  rw [put, put, hfind]
  rfl

theorem put_name {entry : TitleRow} (hblank : entry.bundleIdentifier = "") :
    put nameUpsert titles entry = put titleUpsert titles entry := by
  have hfind : find nameUpsert.key titles (nameUpsert.slot entry) =
      find titleUpsert.key titles (titleUpsert.slot entry) := by
    apply find_congr
    intro title
    constructor
    · intro h
      exact congrArg some (identity_of_nameKey h)
    · intro h
      obtain ⟨hsource, hext, hbundle, hname⟩ := identity_eq_iff.mp (Option.some.inj h)
      exact nameKey_eq_iff.mpr ⟨hname (hbundle.trans hblank), hsource, hext, hbundle⟩
  rw [put, put, hfind]
  rfl

theorem putAll_bundle (entries : List BundleTitle) :
    putAll bundleUpsert titles entries = putAll titleUpsert titles (entries.map Subtype.val) := by
  induction entries generalizing titles with
  | nil => rfl
  | cons entry entries ih =>
    change putAll bundleUpsert (put bundleUpsert titles entry) entries =
      putAll titleUpsert (put titleUpsert titles entry.1) (entries.map Subtype.val)
    rw [ih, put_bundle]

theorem putAll_name {entries : List TitleRow} (hblank : ∀ entry ∈ entries, entry.bundleIdentifier = "") :
    putAll nameUpsert titles entries = putAll titleUpsert titles entries := by
  induction entries generalizing titles with
  | nil => rfl
  | cons entry entries ih =>
    change putAll nameUpsert (put nameUpsert titles entry) entries =
      putAll titleUpsert (put titleUpsert titles entry) entries
    rw [ih (fun other hother => hblank other (List.mem_cons_of_mem entry hother)),
      put_name (hblank entry List.mem_cons_self)]

/-- The first entry of the title. -/
def firstOfTitle (staged : List HostSoftwareEntry) (title : SoftwareTitle) : Option HostSoftwareEntry :=
  staged.find? (fun entry => decide (entry.title = title))

/-- The last vendor that an entry of the title has. -/
def titleVendor (staged : List HostSoftwareEntry) (title : SoftwareTitle) : String :=
  lastVendor (staged.filter (fun entry => decide (entry.title = title)))

/-- The rows of both statements. -/
def titleEntries (plan : Plan) (staged : List HostSoftwareEntry) : List TitleRow :=
  plan.titles (groupedTitles bundleGroup (staged.filter (fun entry => entry.bundleIdentifier ≠ ""))) ++
    plan.titles (groupedTitles nameGroup (staged.filter (fun entry => entry.bundleIdentifier = "")))

section Grouped

variable {κ : Type} [DecidableEq κ] {group : HostSoftwareEntry → κ} {p : HostSoftwareEntry → Bool}

/-- Groups that are the titles of the rows of a statement. -/
def GroupsTitles (group : HostSoftwareEntry → κ) (p : HostSoftwareEntry → Bool) : Prop :=
  ∀ entry, p entry = true → ∀ other, (p other = true ∧ group other = group entry) ↔ other.title = entry.title

theorem mem_groupedTitles (hgroup : GroupsTitles group p) : title ∈ groupedTitles group (staged.filter p) ↔
    ∃ entry, p entry = true ∧ firstOfTitle staged entry.title = some entry ∧
      title = titleRow entry (titleVendor staged entry.title) := by
  have hfirst : ∀ entry, p entry = true → ((staged.filter p).find? (fun other => decide (group other = group entry)) =
      firstOfTitle staged entry.title) := by
    intro entry hp
    rw [List.find?_filter, firstOfTitle]
    congr 1
    funext other
    rw [Bool.eq_iff_iff]
    simp only [decide_eq_true_eq]
    exact hgroup entry hp other
  have hvendor : ∀ entry, p entry = true →
      lastVendor ((staged.filter p).filter (fun other => decide (group other = group entry))) =
        titleVendor staged entry.title := by
    intro entry hp
    rw [List.filter_filter, titleVendor]
    congr 2
    funext other
    rw [Bool.eq_iff_iff, Bool.and_eq_true, decide_eq_true_eq, decide_eq_true_eq, and_comm]
    exact hgroup entry hp other
  rw [groupedTitles, List.mem_map]
  constructor
  · rintro ⟨entry, hentry, rfl⟩
    obtain ⟨-, hfind⟩ := mem_firstBy.mp hentry
    have hp := (List.mem_filter.mp (List.mem_of_find?_eq_some hfind)).2
    exact ⟨entry, hp, (hfirst entry hp).symm.trans hfind, by rw [hvendor entry hp]⟩
  · rintro ⟨entry, hp, hfind, rfl⟩
    exists entry
    constructor
    · exact mem_firstBy.mpr ⟨List.not_mem_nil, (hfirst entry hp).trans hfind⟩
    · rw [hvendor entry hp]

theorem nodup_groupedTitles (hgroup : GroupsTitles group p) :
    ((groupedTitles group (staged.filter p)).map identity).Nodup := by
  have hnodup := nodup_firstBy group [] (staged.filter p)
  rw [List.Nodup, List.pairwise_map] at hnodup
  rw [groupedTitles, List.map_map, List.Nodup, List.pairwise_map]
  apply hnodup.imp_of_mem
  intro a b ha hb hne heq
  have hpa := (List.mem_filter.mp (mem_of_mem_firstBy ha)).2
  have hpb := (List.mem_filter.mp (mem_of_mem_firstBy hb)).2
  exact hne ((hgroup b hpb a).mpr heq).2

end Grouped

theorem groupsTitles_bundle :
    GroupsTitles bundleGroup (fun entry : HostSoftwareEntry => decide (entry.bundleIdentifier ≠ "")) := by
  intro entry hentry other
  have hne : entry.bundleIdentifier ≠ "" := of_decide_eq_true hentry
  rw [← identity_titleRow other "", ← identity_titleRow entry "", identity_eq_iff, decide_eq_true_eq]
  simp only [bundleGroup, titleRow, Prod.mk.injEq]
  constructor
  · rintro ⟨hother, hsource, hext, hbundle⟩
    exact ⟨hsource, hext, hbundle, fun hblank => absurd hblank hother⟩
  · rintro ⟨hsource, hext, hbundle, -⟩
    exact ⟨hbundle ▸ hne, hsource, hext, hbundle⟩

theorem groupsTitles_name :
    GroupsTitles nameGroup (fun entry : HostSoftwareEntry => decide (entry.bundleIdentifier = "")) := by
  intro entry hentry other
  have hblank : entry.bundleIdentifier = "" := of_decide_eq_true hentry
  rw [← identity_titleRow other "", ← identity_titleRow entry "", identity_eq_iff, decide_eq_true_eq]
  simp only [nameGroup, titleRow, Prod.mk.injEq]
  constructor
  · rintro ⟨hother, hname, hsource, hext, hbundle⟩
    exact ⟨hsource, hext, hbundle, fun _ => hname⟩
  · rintro ⟨hsource, hext, hbundle, hname⟩
    have hother := hbundle.trans hblank
    exact ⟨hother, hname hother, hsource, hext, hbundle⟩

theorem mem_titleEntries : title ∈ titleEntries plan staged ↔
    ∃ entry, firstOfTitle staged entry.title = some entry ∧
      title = titleRow entry (titleVendor staged entry.title) := by
  rw [titleEntries, List.mem_append, (plan.titles_perm _).mem_iff, (plan.titles_perm _).mem_iff,
    mem_groupedTitles groupsTitles_bundle, mem_groupedTitles groupsTitles_name]
  constructor
  · intro h
    cases h with
    | inl h =>
      obtain ⟨entry, -, hentry⟩ := h
      exact ⟨entry, hentry⟩
    | inr h =>
      obtain ⟨entry, -, hentry⟩ := h
      exact ⟨entry, hentry⟩
  · rintro ⟨entry, hentry⟩
    by_cases hblank : entry.bundleIdentifier = ""
    · exact Or.inr ⟨entry, decide_eq_true hblank, hentry⟩
    · exact Or.inl ⟨entry, decide_eq_true hblank, hentry⟩

theorem bundle_of_mem {p : HostSoftwareEntry → Bool} {κ : Type} [DecidableEq κ] {group : HostSoftwareEntry → κ}
    (h : title ∈ plan.titles (groupedTitles group (staged.filter p))) :
    ∃ entry, p entry = true ∧ title.bundleIdentifier = entry.bundleIdentifier := by
  rw [(plan.titles_perm _).mem_iff, groupedTitles, List.mem_map] at h
  obtain ⟨entry, hentry, rfl⟩ := h
  exact ⟨entry, (List.mem_filter.mp (mem_of_mem_firstBy hentry)).2, rfl⟩

/-- No title is written twice. -/
theorem nodup_titleEntries (plan : Plan) (staged : List HostSoftwareEntry) :
    ((titleEntries plan staged).map identity).Nodup := by
  rw [titleEntries, List.map_append, List.nodup_append]
  constructor
  · exact ((plan.titles_perm _).map identity).nodup_iff.mpr (nodup_groupedTitles groupsTitles_bundle)
  · constructor
    · exact ((plan.titles_perm _).map identity).nodup_iff.mpr (nodup_groupedTitles groupsTitles_name)
    · intro a ha b hb heq
      obtain ⟨title, htitle, rfl⟩ := List.mem_map.mp ha
      obtain ⟨title', htitle', rfl⟩ := List.mem_map.mp hb
      obtain ⟨entry, hne, hbundle⟩ := bundle_of_mem htitle
      obtain ⟨entry', hblank, hbundle'⟩ := bundle_of_mem htitle'
      have hsame := (identity_eq_iff.mp heq).2.2.1
      rw [hbundle, hbundle', of_decide_eq_true hblank] at hsame
      exact of_decide_eq_true hne hsame

theorem filterMap_toBundleTitle {entries : List TitleRow} (h : ∀ entry ∈ entries, entry.bundleIdentifier ≠ "") :
    (entries.filterMap toBundleTitle).map Subtype.val = entries := by
  induction entries with
  | nil => rfl
  | cons entry entries ih =>
    have hentry : toBundleTitle entry = some ⟨entry, h entry List.mem_cons_self⟩ := dif_pos (h entry List.mem_cons_self)
    rw [List.filterMap_cons, hentry, List.map_cons,
      ih (fun other hother => h other (List.mem_cons_of_mem entry hother))]

theorem upsertStatement_ok {α β κ : Type} [DecidableEq κ] {u : Upsert α β κ} {check : Table α → Except Fault Unit}
    {rows : Table α} {entries : List β} (hslots : (entries.map u.slot).Nodup)
    (hcheck : ∀ n, check (putAll u rows (entries.take n)) = .ok ()) :
    upsertStatement u check rows entries = .ok (putAll u rows entries) := by
  rw [upsertStatement, if_pos hslots]
  exact putAllChecked_eq_ok.mpr ⟨rfl, fun n _ => hcheck _⟩

theorem nodup_slots {β κ : Type} {slot : β → κ} {entries : List β} (row : β → TitleRow)
    (hnodup : ((entries.map row).map identity).Nodup)
    (h : ∀ a b, a ∈ entries → b ∈ entries → slot a = slot b → identity (row a) = identity (row b)) :
    (entries.map slot).Nodup := by
  rw [List.map_map, List.Nodup, List.pairwise_map] at hnodup
  rw [List.Nodup, List.pairwise_map]
  apply hnodup.imp_of_mem
  intro a b ha hb hne heq
  exact hne (h a b ha hb heq)

/-- The two statements go through, and write the rows of the report under their titles. -/
theorem reconcileTitles_eq (plan : Plan) (staged : List HostSoftwareEntry) (hone : OneTitle titles) :
    reconcileTitles plan titles staged = .ok (putAll titleUpsert titles (titleEntries plan staged)) := by
  have hnodup := nodup_titleEntries plan staged
  rw [titleEntries, List.map_append, List.nodup_append] at hnodup
  have hbundle : ∀ entry ∈ plan.titles (groupedTitles bundleGroup
      (staged.filter (fun entry => decide (entry.bundleIdentifier ≠ "")))), entry.bundleIdentifier ≠ "" := by
    intro entry hentry
    obtain ⟨other, hne, heq⟩ := bundle_of_mem hentry
    rw [heq]
    exact of_decide_eq_true hne
  have hblank : ∀ entry ∈ plan.titles (groupedTitles nameGroup
      (staged.filter (fun entry => decide (entry.bundleIdentifier = "")))), entry.bundleIdentifier = "" := by
    intro entry hentry
    obtain ⟨other, heq, hsame⟩ := bundle_of_mem hentry
    rw [hsame]
    exact of_decide_eq_true heq
  have hfirst : upsertStatement bundleUpsert checkTitles titles
      ((plan.titles (groupedTitles bundleGroup
        (staged.filter (fun entry => decide (entry.bundleIdentifier ≠ ""))))).filterMap toBundleTitle) =
      .ok (putAll titleUpsert titles (plan.titles (groupedTitles bundleGroup
        (staged.filter (fun entry => decide (entry.bundleIdentifier ≠ "")))))) := by
    rw [upsertStatement_ok, putAll_bundle, filterMap_toBundleTitle hbundle]
    · apply nodup_slots Subtype.val
      · rw [filterMap_toBundleTitle hbundle]
        exact hnodup.1
      · intro a b _ _ hslot
        simp only [bundleUpsert, Prod.mk.injEq] at hslot
        exact identity_eq_iff.mpr ⟨hslot.2.1, hslot.2.2, hslot.1, fun h => absurd h a.2⟩
    · intro n
      rw [putAll_bundle]
      exact checkTitles_ok (distinct_putAll (u := titleUpsert) hone _)
  rw [reconcileTitles, hfirst]
  change upsertStatement nameUpsert checkTitles _ _ = _
  rw [upsertStatement_ok, putAll_name hblank, titleEntries, putAll, putAll, putAll, List.foldl_append]
  · apply nodup_slots (fun title => title)
    · rw [List.map_id']
      exact hnodup.2.1
    · intro a b _ _ hslot
      exact identity_of_nameKey (congrArg some hslot)
  · intro n
    rw [putAll_name (fun entry hentry => hblank entry (List.mem_of_mem_take hentry))]
    exact checkTitles_ok (distinct_putAll (u := titleUpsert) (distinct_putAll (u := titleUpsert) hone _) _)

/-- A stored title with the vendor of the report, if that has one. -/
def revised (staged : List HostSoftwareEntry) (title : TitleRow) : TitleRow :=
  { title with
    vendor := if titleVendor staged (identity title) = "" then title.vendor
      else titleVendor staged (identity title) }

theorem firstOfTitle_spec {key : SoftwareTitle} (h : firstOfTitle staged key = some entry) :
    entry ∈ staged ∧ entry.title = key :=
  ⟨List.mem_of_find?_eq_some h, by simpa using List.find?_some h⟩

theorem exists_firstOfTitle (h : entry ∈ staged) : ∃ first, firstOfTitle staged entry.title = some first := by
  apply Option.isSome_iff_exists.mp
  exact List.find?_isSome.mpr ⟨entry, h, decide_eq_true rfl⟩

theorem titleVendor_none {key : SoftwareTitle} (h : ∀ entry ∈ staged, entry.title ≠ key) :
    titleVendor staged key = "" := by
  have hnil : staged.filter (fun entry => decide (entry.title = key)) = [] := by
    rw [List.filter_eq_nil_iff]
    intro entry hentry hkey
    exact h entry hentry (of_decide_eq_true hkey)
  rw [titleVendor, hnil]
  rfl

/-- The titles after both statements. -/
def reported (plan : Plan) (titles : Table TitleRow) (staged : List HostSoftwareEntry) : Table TitleRow :=
  putAll titleUpsert titles (titleEntries plan staged)

theorem oneTitle_reported (plan : Plan) (staged : List HostSoftwareEntry) (hone : OneTitle titles) :
    OneTitle (reported plan titles staged) :=
  distinct_putAll (u := titleUpsert) hone _

theorem reported_old (hone : OneTitle titles) (hrow : titles.row id = some title) :
    (reported plan titles staged).row id = some (revised staged title) := by
  rw [reported, putAll_old (u := titleUpsert) hone (nodup_titleEntries plan staged) hrow]
  cases hfind : (titleEntries plan staged).find? (fun entry =>
      decide (titleUpsert.key title = some (titleUpsert.slot entry))) with
  | none =>
    have hnone : ∀ entry ∈ staged, entry.title ≠ identity title := by
      intro entry hentry heq
      obtain ⟨first, hfirst⟩ := exists_firstOfTitle hentry
      have hsame := (firstOfTitle_spec hfirst).2
      have hmem : titleRow first (titleVendor staged first.title) ∈ titleEntries plan staged :=
        mem_titleEntries.mpr ⟨first, hsame.symm ▸ hfirst, rfl⟩
      have hne := List.find?_eq_none.mp hfind _ hmem
      apply hne
      apply decide_eq_true
      exact congrArg some (hsame.trans heq).symm
    rw [revised, if_pos (titleVendor_none hnone)]
    rfl
  | some found =>
    obtain ⟨first, hfirst, rfl⟩ := mem_titleEntries.mp (List.mem_of_find?_eq_some hfind)
    have hkey : identity title = first.title := by
      have hdecide := List.find?_some hfind
      exact Option.some.inj (of_decide_eq_true hdecide)
    rw [revised, hkey]
    rfl

/-- A new title is made of the first entry that has it, where no stored one did. -/
theorem reported_new (hone : OneTitle titles) (hrow : (reported plan titles staged).row id = some title)
    (hnone : titles.row id = none) : ∃ first, firstOfTitle staged first.title = some first ∧
      title = titleRow first (titleVendor staged first.title) ∧
      ∀ id' title', titles.row id' = some title' → identity title' ≠ first.title := by
  obtain ⟨entry, hentry, rfl, hfind⟩ :=
    putAll_new (u := titleUpsert) hone (nodup_titleEntries plan staged) hrow hnone
  obtain ⟨first, hfirst, rfl⟩ := mem_titleEntries.mp hentry
  refine ⟨first, hfirst, rfl, ?_⟩
  intro id' title' hrow' heq
  exact find_eq_none.mp hfind id' title' hrow' (congrArg some heq)

theorem reported_has (plan : Plan) (hone : OneTitle titles) (hentry : entry ∈ staged) :
    ∃ id title, (reported plan titles staged).row id = some title ∧ identity title = entry.title := by
  obtain ⟨first, hfirst⟩ := exists_firstOfTitle hentry
  have hsame := (firstOfTitle_spec hfirst).2
  have hmem : titleRow first (titleVendor staged first.title) ∈ titleEntries plan staged :=
    mem_titleEntries.mpr ⟨first, hsame.symm ▸ hfirst, rfl⟩
  obtain ⟨id, title, hrow, hkey⟩ := putAll_has (u := titleUpsert) (t := titles) hone hmem
  exact ⟨id, title, hrow, (Option.some.inj hkey).trans hsame⟩

/-- The join back finds the one title of the entry. -/
theorem titleID_iff (hone : OneTitle titles) : titleID titles entry = some id ↔
    ∃ title, titles.row id = some title ∧ identity title = entry.title := by
  constructor
  · intro h
    have hany := List.find?_some h
    obtain ⟨title, hrow, htitle⟩ := (Option.any_eq_true _ _).mp hany
    exact ⟨title, hrow, isTitleOf_iff.mp htitle⟩
  · rintro ⟨title, hrow, htitle⟩
    have hpred : (titles.row id).any (fun title => isTitleOf title entry) = true := by
      rw [hrow]
      exact isTitleOf_iff.mpr htitle
    have hmem : id ∈ titles.ids := Table.mem_ids.mpr (by rw [hrow]; rfl)
    have hsome : (titleID titles entry).isSome = true := List.find?_isSome.mpr ⟨id, hmem, hpred⟩
    obtain ⟨found, hfound⟩ := Option.isSome_iff_exists.mp hsome
    have hany := List.find?_some hfound
    obtain ⟨title', hrow', htitle'⟩ := (Option.any_eq_true _ _).mp hany
    rw [hfound]
    apply congrArg some
    apply hone found id title' title (identity title) hrow' hrow
    · exact congrArg some ((isTitleOf_iff.mp htitle').trans htitle.symm)
    · rfl

theorem titleID_reported (plan : Plan) (hone : OneTitle titles) (hentry : entry ∈ staged) :
    ∃ id, titleID (reported plan titles staged) entry = some id := by
  obtain ⟨id, title, hrow, htitle⟩ := reported_has plan hone hentry
  exact ⟨id, (titleID_iff (oneTitle_reported plan staged hone)).mpr ⟨title, hrow, htitle⟩⟩

/-- What tells the versions of a report apart. -/
def versionKey (entry : HostSoftwareEntry) : SoftwareTitle × Software := (entry.title, entry.software 0)

def firstOfVersion (staged : List HostSoftwareEntry) (key : SoftwareTitle × Software) :
    Option HostSoftwareEntry :=
  staged.find? (fun entry => decide (versionKey entry = key))

theorem withIDs_ok {f : HostSoftwareEntry → Option Int} {entries : List HostSoftwareEntry}
    (h : ∀ entry ∈ entries, ∃ id, f entry = some id) :
    withIDs f entries = .ok (entries.map (fun entry => ((f entry).getD 0, entry))) := by
  have hmap : entries.mapM (fun entry => (f entry).map (fun found => (found, entry))) =
      some (entries.map (fun entry => ((f entry).getD 0, entry))) := by
    induction entries with
    | nil => rfl
    | cons entry entries ih =>
      obtain ⟨id, hid⟩ := h entry List.mem_cons_self
      rw [List.mapM_cons, ih (fun other hother => h other (List.mem_cons_of_mem entry hother)), hid]
      simp only [List.map_cons, hid]
      rfl
  rw [withIDs, hmap]

section Versions

variable {software : Table VersionRow} {version : VersionRow}

/-- The number of the entry's title, which every entry of the report has. -/
def numberOf (titles : Table TitleRow) (entry : HostSoftwareEntry) : Int := (titleID titles entry).getD 0

theorem software_eq_iff {a b : Int} : entry.software a = entry'.software b ↔
    a = b ∧ entry.software 0 = entry'.software 0 := by
  simp only [HostSoftwareEntry.software, Software.mk.injEq, true_and]

/-- Entries are of one version when they are of one title and their columns agree. -/
theorem sameVersion_iff (hone : OneTitle titles) (hentry : entry ∈ staged) (hentry' : entry' ∈ staged) :
    entry.software (numberOf (reported plan titles staged) entry) =
      entry'.software (numberOf (reported plan titles staged) entry') ↔ versionKey entry = versionKey entry' := by
  have hone' := oneTitle_reported plan staged hone
  obtain ⟨id, hid⟩ := titleID_reported plan hone hentry
  obtain ⟨id', hid'⟩ := titleID_reported plan hone hentry'
  obtain ⟨title, hrow, htitle⟩ := (titleID_iff hone').mp hid
  obtain ⟨title', hrow', htitle'⟩ := (titleID_iff hone').mp hid'
  have hnumbers : id = id' ↔ entry.title = entry'.title := by
    constructor
    · rintro rfl
      rw [hrow] at hrow'
      rw [← htitle, ← htitle', Option.some.inj hrow']
    · intro hsame
      apply hone' id id' title title' (identity title) hrow hrow' rfl
      exact congrArg some (htitle'.trans (hsame.symm.trans htitle.symm))
  rw [numberOf, numberOf, hid, hid', Option.getD_some, Option.getD_some, software_eq_iff, hnumbers, versionKey,
    versionKey, Prod.mk.injEq]

/-- The rows of the versions, from the first entry of each. -/
theorem mem_versionRows (hone : OneTitle titles) : version ∈ versionRows (staged.map (fun entry =>
      (numberOf (reported plan titles staged) entry, entry))) ↔
    ∃ entry, firstOfVersion staged (versionKey entry) = some entry ∧
      version = ⟨entry.software (numberOf (reported plan titles staged) entry), entry.name⟩ := by
  have hfind : ∀ entry ∈ staged,
      staged.find? (fun other => decide (other.software (numberOf (reported plan titles staged) other) =
        entry.software (numberOf (reported plan titles staged) entry))) =
      firstOfVersion staged (versionKey entry) := by
    intro entry hentry
    apply List.find?_congr
    intro other hother
    exact decide_eq_decide.mpr (sameVersion_iff hone hother hentry)
  rw [versionRows, List.mem_map]
  constructor
  · rintro ⟨row, hrow, rfl⟩
    obtain ⟨-, hfirst⟩ := mem_firstBy.mp hrow
    rw [List.find?_map, Option.map_eq_some_iff] at hfirst
    obtain ⟨entry, hentry, rfl⟩ := hfirst
    exact ⟨entry, (hfind entry (List.mem_of_find?_eq_some hentry)).symm.trans hentry, rfl⟩
  · rintro ⟨entry, hfirst, rfl⟩
    have hmem := List.mem_of_find?_eq_some hfirst
    exists (numberOf (reported plan titles staged) entry, entry)
    constructor
    · apply mem_firstBy.mpr
      constructor
      · exact List.not_mem_nil
      · rw [List.find?_map, Option.map_eq_some_iff]
        exact ⟨entry, (hfind entry hmem).trans hfirst, rfl⟩
    · rfl

theorem nodup_versionRows (titled : List (Int × HostSoftwareEntry)) :
    ((versionRows titled).map VersionRow.key).Nodup := by
  have hnodup := nodup_firstBy (fun row : Int × HostSoftwareEntry => row.2.software row.1) [] titled
  rw [versionRows, List.map_map]
  exact hnodup

/-- The versions after their statement. -/
def installed (plan : Plan) (titles : Table TitleRow) (software : Table VersionRow)
    (staged : List HostSoftwareEntry) : Table VersionRow :=
  putAll versionUpsert software (plan.versions (versionRows (staged.map (fun entry =>
    (numberOf (reported plan titles staged) entry, entry)))))

/-- No version is in two rows. -/
def OneVersion (software : Table VersionRow) : Prop :=
  Distinct (fun row : VersionRow => some row.key) software

theorem nodup_planned (plan : Plan) (titled : List (Int × HostSoftwareEntry)) :
    ((plan.versions (versionRows titled)).map VersionRow.key).Nodup :=
  ((plan.versions_perm _).map VersionRow.key).nodup_iff.mpr (nodup_versionRows titled)

theorem oneVersion_installed (hversions : OneVersion software) :
    OneVersion (installed plan titles software staged) :=
  distinct_putAll (u := versionUpsert) hversions _

theorem installStatement_ok (hversions : OneVersion software) :
    upsertStatement versionUpsert checkVersions software (plan.versions (versionRows (staged.map (fun entry =>
      (numberOf (reported plan titles staged) entry, entry))))) =
      .ok (installed plan titles software staged) := by
  apply upsertStatement_ok (nodup_planned plan _)
  intro n
  exact if_pos (isDistinct_iff.mpr (distinct_putAll (u := versionUpsert) hversions _))

theorem installed_old (hversions : OneVersion software) (hrow : software.row id = some version) :
    (installed plan titles software staged).row id = some version := by
  rw [installed, putAll_old (u := versionUpsert) hversions (nodup_planned plan _) hrow]
  apply congrArg some
  cases (plan.versions (versionRows (staged.map (fun entry =>
      (numberOf (reported plan titles staged) entry, entry))))).find? (fun row =>
        decide (versionUpsert.key version = some (versionUpsert.slot row))) with
  | none => rfl
  | some row => rfl

/-- A new version is made of the first entry that has it, where no stored one did. -/
theorem installed_new (hone : OneTitle titles) (hversions : OneVersion software)
    (hrow : (installed plan titles software staged).row id = some version) (hnone : software.row id = none) :
    ∃ first, firstOfVersion staged (versionKey first) = some first ∧
      version = ⟨first.software (numberOf (reported plan titles staged) first), first.name⟩ ∧
      ∀ id' version', software.row id' = some version' → version'.key ≠ version.key := by
  obtain ⟨row, hmem, rfl, hfind⟩ := putAll_new (u := versionUpsert) hversions (nodup_planned plan _) hrow hnone
  rw [(plan.versions_perm _).mem_iff, mem_versionRows hone] at hmem
  obtain ⟨first, hfirst, heq⟩ := hmem
  refine ⟨first, hfirst, heq, ?_⟩
  intro id' version' hrow' hsame
  exact find_eq_none.mp hfind id' version' hrow' (congrArg some hsame)

theorem firstOfVersion_spec {key : SoftwareTitle × Software} (h : firstOfVersion staged key = some entry) :
    entry ∈ staged ∧ versionKey entry = key :=
  ⟨List.mem_of_find?_eq_some h, by simpa using List.find?_some h⟩

theorem exists_firstOfVersion (h : entry ∈ staged) :
    ∃ first, firstOfVersion staged (versionKey entry) = some first := by
  apply Option.isSome_iff_exists.mp
  exact List.find?_isSome.mpr ⟨entry, h, decide_eq_true rfl⟩

theorem installed_has (plan : Plan) (hone : OneTitle titles) (hversions : OneVersion software)
    (hentry : entry ∈ staged) :
    ∃ id version, (installed plan titles software staged).row id = some version ∧
      version.key = entry.software (numberOf (reported plan titles staged) entry) := by
  obtain ⟨first, hfirst⟩ := exists_firstOfVersion hentry
  obtain ⟨hmem, hsame⟩ := firstOfVersion_spec hfirst
  have hin : (⟨first.software (numberOf (reported plan titles staged) first), first.name⟩ : VersionRow) ∈
      plan.versions (versionRows (staged.map (fun entry =>
        (numberOf (reported plan titles staged) entry, entry)))) := by
    rw [(plan.versions_perm _).mem_iff, mem_versionRows hone]
    exact ⟨first, hsame.symm ▸ hfirst, rfl⟩
  obtain ⟨id, version, hrow, hkey⟩ := putAll_has (u := versionUpsert) (t := software) hversions hin
  refine ⟨id, version, hrow, ?_⟩
  exact (Option.some.inj hkey).trans ((sameVersion_iff hone hmem hentry).mpr hsame)

/-- The join back finds the one version of the entry. -/
theorem softwareID_iff (hversions : OneVersion software) {number : Int}
    (hnumber : titleID titles entry = some number) : softwareID titles software entry = some id ↔
      ∃ version, software.row id = some version ∧ version.key = entry.software number := by
  have hsoftware : softwareID titles software entry = software.ids.find? (fun id =>
      (software.row id).any (fun row => row.key == entry.software number)) := by
    rw [softwareID, hnumber]
    rfl
  rw [hsoftware]
  constructor
  · intro h
    have hany := List.find?_some h
    obtain ⟨version, hrow, hkey⟩ := (Option.any_eq_true _ _).mp hany
    exact ⟨version, hrow, beq_iff_eq.mp hkey⟩
  · rintro ⟨version, hrow, hkey⟩
    have hpred : (software.row id).any (fun row => row.key == entry.software number) = true := by
      rw [hrow]
      exact beq_iff_eq.mpr hkey
    have hmem : id ∈ software.ids := Table.mem_ids.mpr (by rw [hrow]; rfl)
    cases hfind : software.ids.find? (fun id =>
        (software.row id).any (fun row => row.key == entry.software number)) with
    | none => exact absurd hpred (List.find?_eq_none.mp hfind id hmem)
    | some found =>
      have hany := List.find?_some hfind
      obtain ⟨version', hrow', hkey'⟩ := (Option.any_eq_true _ _).mp hany
      apply congrArg some
      apply hversions found id version' version version.key hrow' hrow
      · exact congrArg some ((beq_iff_eq.mp hkey').trans hkey.symm)
      · rfl

end Versions

end CatalogRows
