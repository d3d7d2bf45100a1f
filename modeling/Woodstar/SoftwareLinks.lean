import Woodstar.SoftwarePruning

/-!
# Software links across runs

What a `ReplaceHostSoftware` in progress has resolved it holds the locks of, and what a
prune batch has picked it holds the locks of and nothing references. So a commit of the
one never links what the other removes, as long as nothing was linked between the snapshot
of a prune statement and its locks.
-/
namespace SoftwarePruning

open KeyedRows (Table)
open RowLocks (Locked)
open FirstWins (firstBy)
open Runs (exec Along)

/-- What the transaction has inserted so far. -/
def ReplaceTx.insertedSoFar (t : ReplaceTx) : List HostRow :=
  match t.phase with
  | .inserted .links => hostRows t.snapshot .links
  | .inserted .installedPaths => hostRows t.snapshot .links ++ hostRows t.snapshot .installedPaths
  | _ => []

structure ReplaceOk (titles : Locked SoftwareTitle Owner) (versions : Locked Software Owner)
    (replace : Int) (t : ReplaceTx) : Prop where
  titled : ∀ title id, t.titles title = some id → titles.HeldBy (.replace replace) id title
  versioned : ∀ version id, t.versions version = some id →
    versions.HeldBy (.replace replace) id version ∧ ∃ title, t.titles title = some version.titleID
  resolved : t.phase ≠ .catalog → ∀ entry ∈ t.entries, (t.softwareID entry).isSome = true
  doomed : ∀ stored ∈ t.doomed, stored.host = t.host
  inserted : t.inserted = t.insertedSoFar

/-- No statement has locked more rows than its snapshot held. -/
def PruneCall.Counted (call : PruneCall) : Prop :=
  match call.phase with
  | .versions => call.todo.length + call.versions.length ≤ call.foundVersions ∧ call.titles = []
  | .titles => call.versions.length ≤ call.foundVersions ∧
      call.todo.length + call.titles.length ≤ call.foundTitles
  | _ => True

structure PruneOk (titles : Locked SoftwareTitle Owner) (versions : Locked Software Owner)
    (rows : List StoredRow) (prune : Int) (call : PruneCall) : Prop where
  pickedVersions : ∀ id ∈ call.versions, (∃ version, versions.HeldBy (.prune prune) id version) ∧
    ∀ stored ∈ rows, stored.row.softwareID ≠ id
  pickedTitles : ∀ title ∈ call.titles, (∃ key, titles.HeldBy (.prune prune) title key) ∧
    ∀ id held, versions.row id = some held → held.value.titleID = title → id ∈ call.versions
  counted : call.Counted

/-- The version of every row of a host is linked to the host. -/
def Linked (rows : List StoredRow) : Prop :=
  ∀ stored ∈ rows, ∃ link ∈ rows, link.host = stored.host ∧ link.row.table = .links ∧
    link.row.softwareID = stored.row.softwareID

structure Inv (w : World) : Prop where
  replaces : ∀ replace t, w.replaces.row replace = some t → ReplaceOk w.titles w.versions replace t
  prunes : ∀ prune call, w.prunes.row prune = some call → PruneOk w.titles w.versions w.rows prune call
  uncommitted : ∀ id held, w.versions.row id = some held → held.committed = false →
    ∃ replace t, w.replaces.row replace = some t ∧ held.lock = some (.replace replace) ∧
      t.versions held.value = some id
  exact : ∀ host entries, w.reported host = some entries → Exact w host entries
  linked : Linked w.rows

section

variable {w w' : World} {titles titles' : Locked SoftwareTitle Owner}
  {versions versions' : Locked Software Owner} {rows rows' : List StoredRow} {replace prune : Int}
  {t t' s : ReplaceTx} {call call' : PruneCall} {entry : HostSoftwareEntry}

/-- A transaction keeps what it holds through what the others do. -/
theorem ReplaceOk.frame (h : ReplaceOk titles versions replace t)
    (htitles : ∀ id key, titles.HeldBy (.replace replace) id key → titles'.HeldBy (.replace replace) id key)
    (hversions : ∀ id key, versions.HeldBy (.replace replace) id key →
      versions'.HeldBy (.replace replace) id key) : ReplaceOk titles' versions' replace t where
  titled title id hid := htitles id title (h.titled title id hid)
  versioned version id hid := ⟨hversions id version (h.versioned version id hid).1, (h.versioned version id hid).2⟩
  resolved := h.resolved
  doomed := h.doomed
  inserted := h.inserted

theorem PruneOk.frame (h : PruneOk titles versions rows prune call)
    (htitles : ∀ id key, titles.HeldBy (.prune prune) id key → titles'.HeldBy (.prune prune) id key)
    (hversions : ∀ id key, versions.HeldBy (.prune prune) id key → versions'.HeldBy (.prune prune) id key)
    (hrows : ∀ stored ∈ rows', stored.row.softwareID ∈ call.versions → stored ∈ rows)
    (hcome : ∀ id held, versions'.row id = some held → held.value.titleID ∈ call.titles →
      ∃ held₀, versions.row id = some held₀ ∧ held₀.value = held.value) :
    PruneOk titles' versions' rows' prune call where
  pickedVersions id hid := by
    obtain ⟨⟨version, hheld⟩, hfree⟩ := h.pickedVersions id hid
    constructor
    · exact ⟨version, hversions id version hheld⟩
    · intro stored hstored heq
      exact hfree stored (hrows stored hstored (heq ▸ hid)) heq
  pickedTitles title htitle := by
    obtain ⟨⟨key, hheld⟩, hunder⟩ := h.pickedTitles title htitle
    constructor
    · exact ⟨key, htitles title key hheld⟩
    · intro id held hrow heq
      obtain ⟨held₀, hrow₀, hvalue⟩ := hcome id held hrow (heq ▸ htitle)
      exact hunder id held₀ hrow₀ (by rw [hvalue, heq])
  counted := h.counted

theorem Exact.frame {host : Int} {entries : List HostSoftwareEntry} (h : Exact w host entries)
    (htitles : ∀ id key, w.titles.Stands id key → w'.titles.Stands id key)
    (hversions : ∀ id key, w.versions.Stands id key → w'.versions.Stands id key)
    (hrows : storedRows w' host = storedRows w host) : Exact w' host entries := by
  obtain ⟨staged, hstaged, hresolved, hstored⟩ := h
  refine ⟨staged, hstaged, ?_, hrows.trans hstored⟩
  intro s hs
  obtain ⟨title, htitle, hversion⟩ := hresolved s hs
  exact ⟨title, htitles title _ htitle, hversions s.1 _ hversion⟩

theorem row_setReplace (h : w.replaces.row replace = some t) {i : Int} :
    (setReplace w replace t').replaces.row i = some s ↔
      (i = replace ∧ s = t') ∨ (i ≠ replace ∧ w.replaces.row i = some s) := by
  simp only [setReplace, Table.row_modify]
  split_ifs with hi
  · subst hi
    simp [h, eq_comm]
  · simp [hi]

theorem row_setPrune (h : w.prunes.row prune = some call) {i : Int} {c : PruneCall} :
    (setPrune w prune call').prunes.row i = some c ↔
      (i = prune ∧ c = call') ∨ (i ≠ prune ∧ w.prunes.row i = some c) := by
  simp only [setPrune, Table.row_modify]
  split_ifs with hi
  · subst hi
    simp [h, eq_comm]
  · simp [hi]

theorem Owner.replace_ne {i j : Int} (h : i ≠ j) : Owner.replace i ≠ Owner.replace j :=
  fun heq => h (Owner.replace.inj heq)

theorem Owner.prune_ne_replace (i j : Int) : Owner.prune i ≠ Owner.replace j := nofun

theorem Owner.prune_ne {i j : Int} (h : i ≠ j) : Owner.prune i ≠ Owner.prune j :=
  fun heq => h (Owner.prune.inj heq)

/-- A step of one transaction that leaves the tables alone. -/
theorem inv_setReplace (h : Inv w) (hrow : w.replaces.row replace = some t)
    (hversions : t'.versions = t.versions) (hok : ReplaceOk w.titles w.versions replace t') :
    Inv (setReplace w replace t') where
  replaces i s hs := by
    rcases (row_setReplace hrow).mp hs with ⟨rfl, rfl⟩ | ⟨-, hother⟩
    · exact hok
    · exact h.replaces i s hother
  prunes := h.prunes
  uncommitted id held hid hcommitted := by
    obtain ⟨r, s, hs, hlock, hversion⟩ := h.uncommitted id held hid hcommitted
    by_cases hr : r = replace
    · subst hr
      rw [hrow] at hs
      rw [← Option.some.inj hs, ← hversions] at hversion
      exact ⟨r, t', (row_setReplace hrow).mpr (Or.inl ⟨rfl, rfl⟩), hlock, hversion⟩
    · exact ⟨r, s, (row_setReplace hrow).mpr (Or.inr ⟨hr, hs⟩), hlock, hversion⟩
  exact := h.exact
  linked := h.linked

theorem inv_beginReplace {host : Int} {entries : List HostSoftwareEntry} (h : Inv w)
    (hstep : beginReplace w host entries = some w') : Inv w' := by
  simp only [beginReplace] at hstep
  split_ifs at hstep
  rw [← Option.some.inj hstep]
  constructor
  · intro i s hs
    simp only [Table.row_insert] at hs
    split_ifs at hs
    · rw [← Option.some.inj hs]
      exact ⟨nofun, nofun, fun hphase => absurd rfl hphase, List.forall_mem_nil _, rfl⟩
    · exact h.replaces i s hs
  · exact h.prunes
  · intro id held hid hcommitted
    obtain ⟨r, s, hs, hheld⟩ := h.uncommitted id held hid hcommitted
    refine ⟨r, s, ?_, hheld⟩
    have hne : ¬r = w.replaces.next := by
      rintro rfl
      have := (w.replaces.numbered _ (Option.isSome_of_eq_some hs)).2
      simp only [Table.next] at this
      omega
    simp only [Table.row_insert, if_neg hne, hs]
  · exact h.exact
  · exact h.linked

/-- What a lock or an upsert of a title leaves of the invariant. -/
theorem inv_titles (h : Inv w)
    (hheld : ∀ o id key, w.titles.HeldBy o id key → titles.HeldBy o id key)
    (hstands : ∀ id key, w.titles.Stands id key → titles.Stands id key) : Inv { w with titles } where
  replaces i s hs := (h.replaces i s hs).frame (hheld _) (fun _ _ hversion => hversion)
  prunes i c hc := (h.prunes i c hc).frame (hheld _) (fun _ _ hversion => hversion)
    (fun _ hstored _ => hstored) (fun _ held hrow _ => ⟨held, hrow, rfl⟩)
  uncommitted := h.uncommitted
  exact host entries hreported :=
    (h.exact host entries hreported).frame hstands (fun _ _ hversion => hversion) rfl
  linked := h.linked

theorem inv_upsertTitle (h : Inv w) (hstep : upsertTitle w replace entry = some w') : Inv w' := by
  obtain ⟨t, hready, hupsert⟩ := Option.bind_eq_some_iff.mp hstep
  obtain ⟨hrow, hguard⟩ := Option.filter_eq_some_iff.mp hready
  obtain ⟨⟨titles, number⟩, hlocked, hw'⟩ := Option.map_eq_some_iff.mp hupsert
  have hphase : t.phase = .catalog := (of_decide_eq_true hguard).1
  have hnew : t.titles entry.title = none := (of_decide_eq_true hguard).2.2.1
  have hok := h.replaces replace t hrow
  have hframe : Inv { w with titles } :=
    inv_titles h (fun _ _ _ hheld => hheld.upsert hlocked) (fun _ _ hstands => hstands.upsert hlocked)
  have hok' : ReplaceOk titles w.versions replace
      { t with titles := Function.update t.titles entry.title (some number) } := by
    constructor
    · intro title i hi
      simp only [Function.update_apply] at hi
      split_ifs at hi with htitle
      · rw [← Option.some.inj hi, htitle]
        exact RowLocks.Locked.heldBy_of_upsert hlocked
      · exact (hok.titled title i hi).upsert hlocked
    · intro version i hi
      obtain ⟨hheld, title, htitle⟩ := hok.versioned version i hi
      refine ⟨hheld, title, ?_⟩
      have hne : title ≠ entry.title := by
        rintro rfl
        rw [hnew] at htitle
        cases htitle
      simp only [Function.update_of_ne hne, htitle]
    · exact fun hne => absurd hphase hne
    · exact hok.doomed
    · have hinserted := hok.inserted
      simp only [ReplaceTx.insertedSoFar, hphase] at hinserted ⊢
      exact hinserted
  exact hw' ▸ inv_setReplace hframe hrow rfl hok'

theorem inv_upsertVersion (h : Inv w) (hstep : upsertVersion w replace entry = some w') : Inv w' := by
  obtain ⟨t, hready, hrest⟩ := Option.bind_eq_some_iff.mp hstep
  obtain ⟨hrow, hguard⟩ := Option.filter_eq_some_iff.mp hready
  obtain ⟨titleID, hnew, hupsert⟩ := Option.bind_eq_some_iff.mp hrest
  obtain ⟨htitle, hnone⟩ := Option.filter_eq_some_iff.mp hnew
  obtain ⟨⟨versions, number⟩, hlocked, hw'⟩ := Option.map_eq_some_iff.mp hupsert
  have hphase : t.phase = .catalog := (of_decide_eq_true hguard).1
  have hnone : t.versions (entry.software titleID) = none := of_decide_eq_true hnone
  have hok := h.replaces replace t hrow
  simp only at hw'
  rw [← hw']
  constructor
  · intro i s hs
    rcases (row_setReplace (w := { w with versions }) hrow).mp hs with ⟨rfl, rfl⟩ | ⟨-, hother⟩
    · constructor
      · exact hok.titled
      · intro version id hid
        simp only [Function.update_apply] at hid
        split_ifs at hid with hversion
        · rw [← Option.some.inj hid, hversion]
          exact ⟨RowLocks.Locked.heldBy_of_upsert hlocked, entry.title, htitle⟩
        · obtain ⟨hheld, hkey⟩ := hok.versioned version id hid
          exact ⟨hheld.upsert hlocked, hkey⟩
      · exact fun hne => absurd hphase hne
      · exact hok.doomed
      · have hinserted := hok.inserted
        simp only [ReplaceTx.insertedSoFar, hphase] at hinserted ⊢
        exact hinserted
    · exact (h.replaces i s hother).frame (fun _ _ hheld => hheld) (fun _ _ hheld => hheld.upsert hlocked)
  · intro i c hc
    have hprune := h.prunes i c hc
    apply hprune.frame (fun _ _ hheld => hheld) (fun _ _ hheld => hheld.upsert hlocked)
      (fun _ hstored _ => hstored)
    intro id held hid hpicked
    rcases RowLocks.Locked.row_upsert hlocked hid with ⟨held₀, hid₀, rfl⟩ | ⟨-, rfl⟩
    · exact ⟨held₀, hid₀, by split_ifs <;> rfl⟩
    · -- the title of the new row is locked by this transaction, not by the batch
      obtain ⟨⟨key, hheld⟩, -⟩ := hprune.pickedTitles titleID hpicked
      exact absurd ((hok.titled _ _ htitle).owner_eq hheld) nofun
  · intro id held hid hcommitted
    rcases RowLocks.Locked.row_upsert hlocked hid with ⟨held₀, hid₀, hheld⟩ | ⟨hnumber, hheld⟩
    · have hvalue : held.value = held₀.value := by
        rw [hheld]
        split_ifs <;> rfl
      have hcommitted₀ : held₀.committed = false := by
        rw [← hcommitted, hheld]
        split_ifs <;> rfl
      obtain ⟨r, s, hs, hlock, hversion⟩ := h.uncommitted id held₀ hid₀ hcommitted₀
      have hkept : versions.HeldBy (.replace r) id held₀.value :=
        RowLocks.Locked.HeldBy.upsert ⟨held₀, hid₀, rfl, hlock⟩ hlocked
      obtain ⟨held', hid', -, hlock'⟩ := hkept
      rw [Option.some.inj (hid'.symm.trans hid)] at hlock'
      by_cases hr : r = replace
      · subst hr
        rw [hrow] at hs
        rw [← Option.some.inj hs, ← hvalue] at hversion
        have hne : held.value ≠ entry.software titleID := by
          intro heq
          rw [heq, hnone] at hversion
          cases hversion
        refine ⟨r, _, (row_setReplace (w := { w with versions }) hrow).mpr (Or.inl ⟨rfl, rfl⟩), hlock', ?_⟩
        simp only [Function.update_of_ne hne, hversion]
      · exact ⟨r, s, (row_setReplace (w := { w with versions }) hrow).mpr (Or.inr ⟨hr, hs⟩), hlock',
          hvalue ▸ hversion⟩
    · refine ⟨replace, _, (row_setReplace (w := { w with versions }) hrow).mpr (Or.inl ⟨rfl, rfl⟩), ?_, ?_⟩
      · rw [hheld]
      · simp only [hheld, hnumber, Function.update_self]
  · exact fun host entries hreported => (h.exact host entries hreported).frame
      (fun _ _ hstands => hstands) (fun _ _ hstands => hstands.upsert hlocked) rfl
  · exact h.linked

theorem inv_beginDelete (h : Inv w) (hstep : beginDelete w replace = some w') : Inv w' := by
  obtain ⟨t, hrow, hnext⟩ := Option.bind_eq_some_iff.mp hstep
  obtain ⟨table, htable, hw'⟩ := Option.map_eq_some_iff.mp hnext
  have hok := h.replaces replace t hrow
  rw [← hw']
  have hok' : ReplaceOk w.titles w.versions replace { t with
      phase := .deleting table
      doomed := t.doomed ++
        w.rows.filter (fun stored => stored.host = t.host ∧ stored.row.table = table) } := by
    refine ⟨hok.titled, hok.versioned, fun _ => ?_, ?_, ?_⟩
    · by_cases hphase : t.phase = .catalog
      · simp only [ReplaceTx.nextDelete, hphase] at htable
        split_ifs at htable with hall
        exact List.all_eq_true.mp hall
      · exact hok.resolved hphase
    · intro stored hstored
      rcases List.mem_append.mp hstored with hold | hfound
      · exact hok.doomed stored hold
      · exact (of_decide_eq_true (List.mem_filter.mp hfound).2).1
    · have hinserted := hok.inserted
      simp only [ReplaceTx.nextDelete] at htable
      simp only [ReplaceTx.insertedSoFar] at hinserted ⊢
      split at htable
      case h_1 hphase => simpa only [hphase] using hinserted
      case h_2 hphase => simpa only [hphase] using hinserted
      case h_3 => cases htable
  exact inv_setReplace h hrow rfl hok'

theorem inv_finishDelete (h : Inv w) (hstep : finishDelete w replace = some w') : Inv w' := by
  obtain ⟨t, hrow, hfinish⟩ := Option.bind_eq_some_iff.mp hstep
  have hok := h.replaces replace t hrow
  split at hfinish
  case h_1 table hphase =>
    split_ifs at hfinish
    have hinserted := hok.inserted
    simp only [ReplaceTx.insertedSoFar, hphase] at hinserted
    have hok' : ReplaceOk w.titles w.versions replace { t with phase := .deleted table } :=
      ⟨hok.titled, hok.versioned, fun _ => hok.resolved (by simp [hphase]), hok.doomed, hinserted⟩
    exact Option.some.inj hfinish ▸ inv_setReplace h hrow rfl hok'
  case h_2 => cases hfinish

theorem inv_insertRows (h : Inv w) (hstep : insertRows w replace = some w') : Inv w' := by
  obtain ⟨t, hrow, hnext⟩ := Option.bind_eq_some_iff.mp hstep
  obtain ⟨table, htable, hinsert⟩ := Option.bind_eq_some_iff.mp hnext
  have hok := h.replaces replace t hrow
  split_ifs at hinsert
  have hok' : ReplaceOk w.titles w.versions replace { t with
      phase := .inserted table
      inserted := t.inserted ++ hostRows t.snapshot table } := by
    have hinserted := hok.inserted
    simp only [ReplaceTx.nextInsert] at htable
    simp only [ReplaceTx.insertedSoFar] at hinserted
    split at htable
    case h_1 hphase =>
      rw [← Option.some.inj htable]
      simp only [hphase] at hinserted
      exact ⟨hok.titled, hok.versioned, fun _ => hok.resolved (by simp [hphase]), hok.doomed, by
        rw [hinserted]
        rfl⟩
    case h_2 hphase =>
      rw [← Option.some.inj htable]
      simp only [hphase] at hinserted
      exact ⟨hok.titled, hok.versioned, fun _ => hok.resolved (by simp [hphase]), hok.doomed, by
        rw [hinserted]
        rfl⟩
    case h_3 => cases htable
  exact Option.some.inj hinsert ▸ inv_setReplace h hrow rfl hok'

theorem mem_snapshot {staged : Int × HostSoftwareEntry} (h : staged ∈ t.snapshot) :
    ∃ title, t.titles staged.2.title = some title ∧
      t.versions (staged.2.software title) = some staged.1 := by
  obtain ⟨entry, -, hid⟩ := List.mem_filterMap.mp h
  obtain ⟨id, hsoftware, rfl⟩ := Option.map_eq_some_iff.mp hid
  exact Option.bind_eq_some_iff.mp hsoftware

theorem snapshot_entries (h : ∀ entry ∈ t.entries, (t.softwareID entry).isSome = true) :
    t.snapshot.map Prod.snd = t.entries := by
  simp only [ReplaceTx.snapshot]
  generalize t.entries = entries at h
  induction entries with
  | nil => rfl
  | cons entry entries ih =>
    obtain ⟨id, hid⟩ := Option.isSome_iff_exists.mp (h entry List.mem_cons_self)
    rw [List.filterMap_cons]
    simp only [hid, Option.map_some, List.map_cons]
    rw [ih (fun other hother => h other (List.mem_cons_of_mem entry hother))]

/-- Every row of the host comes from a staged entry. -/
theorem exists_staged_of_mem_hostRows {staged : List (Int × HostSoftwareEntry)} {table : HostTable}
    {row : HostRow} (h : row ∈ hostRows staged table) : ∃ s ∈ staged, row.softwareID = s.1 := by
  cases table with
  | links =>
    obtain ⟨s, hs, rfl⟩ := List.mem_map.mp h
    exact ⟨s, List.mem_reverse.mp (FirstWins.mem_of_mem_firstBy hs), rfl⟩
  | installedPaths =>
    obtain ⟨s, hs, rfl⟩ := List.mem_map.mp h
    have hmem := List.mem_reverse.mp (FirstWins.mem_of_mem_firstBy hs)
    refine ⟨s, (List.mem_filter.mp hmem).1, ?_⟩
    simp only [installedPathOf]
    split <;> rfl

/-- Every staged entry has its version linked. -/
theorem exists_link {staged : List (Int × HostSoftwareEntry)} {s : Int × HostSoftwareEntry}
    (hs : s ∈ staged) : ∃ row ∈ hostRows staged .links, row.softwareID = s.1 := by
  obtain ⟨s', hs', heq⟩ : ∃ s' ∈ firstBy Prod.fst [] staged.reverse, s'.1 = s.1 :=
    FirstWins.exists_key_firstBy.mpr ⟨s, List.mem_reverse.mpr hs, rfl⟩
  exact ⟨linkOf s', List.mem_map_of_mem hs', heq⟩

theorem inserted_heldBy (h : ReplaceOk titles versions replace t) {row : HostRow} (hrow : row ∈ t.inserted) :
    ∃ version, versions.HeldBy (.replace replace) row.softwareID version := by
  have hstaged : ∃ s ∈ t.snapshot, row.softwareID = s.1 := by
    rw [h.inserted] at hrow
    simp only [ReplaceTx.insertedSoFar] at hrow
    split at hrow
    case h_1 => exact exists_staged_of_mem_hostRows hrow
    case h_2 =>
      rcases List.mem_append.mp hrow with hlink | hpath
      · exact exists_staged_of_mem_hostRows hlink
      · exact exists_staged_of_mem_hostRows hpath
    case h_3 => cases hrow
  obtain ⟨s, hs, hid⟩ := hstaged
  obtain ⟨title, -, hversion⟩ := mem_snapshot hs
  exact ⟨_, hid ▸ (h.versioned _ _ hversion).1⟩

theorem row_erase_eq_some {i : Int} : (w.replaces.erase replace).row i = some s ↔
    i ≠ replace ∧ w.replaces.row i = some s := by
  rw [Table.row_erase]
  split_ifs with hi
  · simp [hi]
  · simp [hi]

/-- The rows of other hosts stay, and the host has what the transaction inserted. -/
theorem storedRows_commit (hdoomed : ∀ stored ∈ t.doomed, stored.host = t.host)
    (hfound : ∀ stored ∈ w.rows, stored.host = t.host → stored ∈ t.doomed) (host : Int)
    (hw' : w'.rows = rowsAfter w replace t) :
    storedRows w' host = if host = t.host then t.inserted else storedRows w host := by
  simp only [storedRows, hw', rowsAfter, List.filter_append, List.filter_filter, List.filter_map,
    List.map_append]
  split_ifs with hhost
  · subst hhost
    have hnone : w.rows.filter (fun stored => decide (stored.host = t.host) &&
        decide (stored ∉ t.doomed ∧
          ¬(stored.host = t.host ∧ stored.row.key ∈ t.inserted.map HostRow.key))) = [] := by
      apply List.filter_eq_nil_iff.mpr
      intro stored hstored hkept
      simp only [Bool.and_eq_true, decide_eq_true_eq] at hkept
      exact hkept.2.1 (hfound stored hstored hkept.1)
    rw [hnone]
    simp [Function.comp_def]
  · have hsame : w.rows.filter (fun stored => decide (stored.host = host) &&
        decide (stored ∉ t.doomed ∧
          ¬(stored.host = t.host ∧ stored.row.key ∈ t.inserted.map HostRow.key))) =
        w.rows.filter (fun stored => stored.host = host) := by
      apply List.filter_congr
      intro stored _
      by_cases hstored : stored.host = host
      · have hother : ¬stored.host = t.host := fun heq => hhost (hstored ▸ heq)
        have hkept : stored ∉ t.doomed := fun hmem => hother (hdoomed stored hmem)
        simp [hstored, hhost, hkept]
      · simp [hstored]
    rw [hsame]
    simp [Function.comp_def, Ne.symm hhost]

theorem table_of_mem_links {staged : List (Int × HostSoftwareEntry)} {row : HostRow}
    (h : row ∈ hostRows staged .links) : row.table = .links := by
  obtain ⟨s, -, rfl⟩ := List.mem_map.mp h
  rfl

/-- A committed replacement leaves the rows of its own snapshot and those of other hosts. -/
theorem linked_rowsAfter (h : Linked w.rows) (hok : ReplaceOk w.titles w.versions replace t)
    (hphase : t.phase = .inserted .installedPaths)
    (hfound : ∀ stored ∈ w.rows, stored.host = t.host → stored ∈ t.doomed) : Linked (rowsAfter w replace t) := by
  have hinserted : t.inserted = hostRows t.snapshot .links ++ hostRows t.snapshot .installedPaths := by
    rw [hok.inserted, ReplaceTx.insertedSoFar, hphase]
  intro stored hstored
  rcases List.mem_append.mp hstored with hold | hnew
  · obtain ⟨hmem, hkept⟩ := List.mem_filter.mp hold
    obtain ⟨hundoomed, -⟩ := of_decide_eq_true hkept
    have hhost : stored.host ≠ t.host := fun heq => hundoomed (hfound stored hmem heq)
    obtain ⟨link, hlink, hsame, htable, hid⟩ := h stored hmem
    have hother : link.host ≠ t.host := hsame ▸ hhost
    refine ⟨link, List.mem_append_left _ (List.mem_filter.mpr ⟨hlink, decide_eq_true ?_⟩), hsame, htable, hid⟩
    exact ⟨fun hmem => hother (hok.doomed link hmem), fun hkey => hother hkey.1⟩
  · obtain ⟨row, hrow, rfl⟩ := List.mem_map.mp hnew
    obtain ⟨s, hs, hid⟩ : ∃ s ∈ t.snapshot, row.softwareID = s.1 := by
      rw [hinserted] at hrow
      rcases List.mem_append.mp hrow with hlink | hpath
      · exact exists_staged_of_mem_hostRows hlink
      · exact exists_staged_of_mem_hostRows hpath
    obtain ⟨link, hlink, hsame⟩ := exists_link hs
    refine ⟨{ host := t.host, writer := replace, row := link }, ?_, rfl, table_of_mem_links hlink, hsame.trans hid.symm⟩
    refine List.mem_append_right _ (List.mem_map.mpr ⟨link, ?_, rfl⟩)
    rw [hinserted]
    exact List.mem_append_left _ hlink

theorem linked_without {rows : List StoredRow} (h : Linked rows) (host : Int) :
    Linked (rows.filter (fun stored => stored.host ≠ host)) := by
  intro stored hstored
  obtain ⟨hmem, hhost⟩ := List.mem_filter.mp hstored
  obtain ⟨link, hlink, hsame, hrest⟩ := h stored hmem
  refine ⟨link, List.mem_filter.mpr ⟨hlink, ?_⟩, hsame, hrest⟩
  rw [hsame]
  exact hhost

theorem inv_commitReplace (h : Inv w)
    (hfound : ∀ t ∈ w.replaces.row replace, ∀ stored ∈ w.rows, stored.host = t.host → stored ∈ t.doomed)
    (hstep : commitReplace w replace = some w') : Inv w' := by
  obtain ⟨t, hready, hw'⟩ := Option.map_eq_some_iff.mp hstep
  obtain ⟨hrow, hphase⟩ := Option.filter_eq_some_iff.mp hready
  have hphase : t.phase = .inserted .installedPaths := of_decide_eq_true hphase
  have hok := h.replaces replace t hrow
  have hstored : ∀ host, w'.rows = rowsAfter w replace t →
      storedRows w' host = if host = t.host then t.inserted else storedRows w host :=
    storedRows_commit hok.doomed (hfound t hrow)
  rw [← hw'] at hstored ⊢
  constructor
  · intro i s hs
    obtain ⟨hi, hs⟩ := row_erase_eq_some.mp hs
    exact (h.replaces i s hs).frame (fun _ _ hheld => hheld.commit (Owner.replace_ne hi))
      (fun _ _ hheld => hheld.commit (Owner.replace_ne hi))
  · intro i c hc
    have hprune := h.prunes i c hc
    have hne := Owner.prune_ne_replace i replace
    apply hprune.frame (fun _ _ hheld => hheld.commit hne) (fun _ _ hheld => hheld.commit hne)
    · intro stored hmem hpicked
      rcases List.mem_append.mp hmem with hold | hnew
      · exact (List.mem_filter.mp hold).1
      · -- what this transaction links it has locked, so the batch has not picked it
        obtain ⟨row, hinserted, rfl⟩ := List.mem_map.mp hnew
        obtain ⟨_, hheld⟩ := inserted_heldBy hok hinserted
        obtain ⟨⟨_, hheld'⟩, -⟩ := hprune.pickedVersions _ hpicked
        exact absurd (hheld.owner_eq hheld') nofun
    · intro id held hid _
      obtain ⟨held₀, hid₀, rfl⟩ := RowLocks.Locked.row_commit.mp hid
      exact ⟨held₀, hid₀, by split_ifs <;> rfl⟩
  · intro id held hid hcommitted
    obtain ⟨held₀, hid₀, rfl⟩ := RowLocks.Locked.row_commit.mp hid
    split_ifs at hcommitted ⊢ with hlock
    obtain ⟨r, s, hs, hlock', hversion⟩ := h.uncommitted id held₀ hid₀ hcommitted
    have hr : r ≠ replace := by
      rintro rfl
      exact hlock hlock'
    exact ⟨r, s, row_erase_eq_some.mpr ⟨hr, hs⟩, hlock', hversion⟩
  · intro host entries hreported
    simp only [Function.update_apply] at hreported
    split_ifs at hreported with hhost
    · refine ⟨t.snapshot, ?_, ?_, ?_⟩
      · rw [snapshot_entries (hok.resolved (by simp [hphase])), Option.some.inj hreported]
      · intro s hs
        obtain ⟨title, htitle, hversion⟩ := mem_snapshot hs
        exact ⟨title, (hok.titled _ _ htitle).stands, (hok.versioned _ _ hversion).1.stands⟩
      · rw [hstored host rfl, if_pos hhost, hok.inserted]
        simp only [ReplaceTx.insertedSoFar, hphase]
    · apply (h.exact host entries hreported).frame (fun _ _ hstands => hstands.commit)
        (fun _ _ hstands => hstands.commit)
      rw [hstored host rfl, if_neg hhost]
  · exact linked_rowsAfter h.linked hok hphase (hfound t hrow)

theorem inv_abortReplace (h : Inv w) (hstep : abortReplace w replace = some w') : Inv w' := by
  obtain ⟨t, -, hw'⟩ := Option.map_eq_some_iff.mp hstep
  rw [← hw']
  constructor
  · intro i s hs
    obtain ⟨hi, hs⟩ := row_erase_eq_some.mp hs
    exact (h.replaces i s hs).frame (fun _ _ hheld => hheld.rollback (Owner.replace_ne hi))
      (fun _ _ hheld => hheld.rollback (Owner.replace_ne hi))
  · intro i c hc
    have hne := Owner.prune_ne_replace i replace
    apply (h.prunes i c hc).frame (fun _ _ hheld => hheld.rollback hne) (fun _ _ hheld => hheld.rollback hne)
      (fun _ hstored _ => hstored)
    intro id held hid _
    exact RowLocks.Locked.exists_row_of_rollback hid
  · intro id held hid hcommitted
    obtain ⟨held₀, hid₀, hheld⟩ := RowLocks.Locked.row_rollback.mp hid
    split_ifs at hheld with hlock hcommitted₀
    · rw [← Option.some.inj hheld] at hcommitted
      exact absurd (hcommitted₀.symm.trans hcommitted) nofun
    · rw [← Option.some.inj hheld] at hcommitted ⊢
      obtain ⟨r, s, hs, hlock', hversion⟩ := h.uncommitted id held₀ hid₀ hcommitted
      have hr : r ≠ replace := by
        rintro rfl
        exact hlock hlock'
      exact ⟨r, s, row_erase_eq_some.mpr ⟨hr, hs⟩, hlock', hversion⟩
  · exact fun host entries hreported => (h.exact host entries hreported).frame
      (fun _ _ hstands => hstands.rollback) (fun _ _ hstands => hstands.rollback) rfl
  · exact h.linked

theorem inv_deleteHost {host : Int} (h : Inv w) (hstep : deleteHost w host = some w') : Inv w' := by
  simp only [deleteHost] at hstep
  split_ifs at hstep
  rw [← Option.some.inj hstep]
  constructor
  · exact h.replaces
  · intro i c hc
    exact (h.prunes i c hc).frame (fun _ _ hheld => hheld) (fun _ _ hheld => hheld)
      (fun _ hstored _ => (List.mem_filter.mp hstored).1) (fun _ held hid _ => ⟨held, hid, rfl⟩)
  · exact h.uncommitted
  · intro other entries hreported
    simp only [Function.update_apply] at hreported
    split_ifs at hreported with hother
    refine (h.exact other entries hreported).frame (fun _ _ hstands => hstands)
      (fun _ _ hstands => hstands) ?_
    simp only [storedRows, List.filter_filter]
    congr 1
    apply List.filter_congr
    intro stored _
    by_cases hstored : stored.host = other
    · simp [hstored, hother]
    · simp [hstored]
  · exact linked_without h.linked host

/-- A step of one call that leaves the tables alone. -/
theorem inv_setPrune (h : Inv w) (hrow : w.prunes.row prune = some call)
    (hok : PruneOk w.titles w.versions w.rows prune call') : Inv (setPrune w prune call') where
  replaces := h.replaces
  prunes i c hc := by
    rcases (row_setPrune hrow).mp hc with ⟨rfl, rfl⟩ | ⟨-, hother⟩
    · exact hok
    · exact h.prunes i c hother
  uncommitted := h.uncommitted
  exact := h.exact
  linked := h.linked

theorem inv_beginPrune (h : Inv w) : Inv { w with prunes := w.prunes.insert {} } where
  replaces := h.replaces
  prunes i c hc := by
    simp only [Table.row_insert] at hc
    split_ifs at hc
    · rw [← Option.some.inj hc]
      exact ⟨List.forall_mem_nil _, List.forall_mem_nil _, trivial⟩
    · exact h.prunes i c hc
  uncommitted := h.uncommitted
  exact := h.exact
  linked := h.linked

theorem inv_selectVersions (h : Inv w) (hstep : selectVersions w prune = some w') : Inv w' := by
  obtain ⟨call, hready, hw'⟩ := Option.map_eq_some_iff.mp hstep
  obtain ⟨hrow, -⟩ := Option.filter_eq_some_iff.mp hready
  rw [← hw']
  apply inv_setPrune h hrow
  constructor
  · exact List.forall_mem_nil _
  · exact List.forall_mem_nil _
  · simp [PruneCall.Counted]

theorem inv_selectTitles (h : Inv w) (hstep : selectTitles w prune = some w') : Inv w' := by
  obtain ⟨call, hready, hw'⟩ := Option.map_eq_some_iff.mp hstep
  obtain ⟨hrow, hguard⟩ := Option.filter_eq_some_iff.mp hready
  have hphase : call.phase = .versions := (of_decide_eq_true hguard).1
  have hok := h.prunes prune call hrow
  have hcounted := hok.counted
  simp only [PruneCall.Counted, hphase] at hcounted
  rw [← hw']
  apply inv_setPrune h hrow
  constructor
  · exact hok.pickedVersions
  · exact hok.pickedTitles
  · simp only [PruneCall.Counted, hcounted.2, List.length_nil]
    omega

/-- What a lock of a version leaves of the invariant. -/
theorem inv_lockVersion {o : Owner} {id : Int} (h : Inv w) (hfree : w.versions.free o id = true)
    (hprune : ∀ replace, o ≠ .replace replace) : Inv { w with versions := w.versions.lock o id } where
  replaces i s hs := (h.replaces i s hs).frame (fun _ _ hheld => hheld)
    (fun _ _ hheld => hheld.lock (RowLocks.Locked.lock_of_free hfree))
  prunes i c hc := by
    apply (h.prunes i c hc).frame (fun _ _ hheld => hheld)
      (fun _ _ hheld => hheld.lock (RowLocks.Locked.lock_of_free hfree)) (fun _ hstored _ => hstored)
    intro j held hj _
    obtain ⟨held₀, hj₀, rfl⟩ := RowLocks.Locked.row_lock.mp hj
    exact ⟨held₀, hj₀, by split_ifs <;> rfl⟩
  uncommitted j held hj hcommitted := by
    obtain ⟨held₀, hj₀, rfl⟩ := RowLocks.Locked.row_lock.mp hj
    split_ifs at hcommitted ⊢ with hid
    · obtain ⟨r, s, -, hlock, -⟩ := h.uncommitted j held₀ hj₀ hcommitted
      rcases RowLocks.Locked.lock_of_free hfree held₀ (hid ▸ hj₀) with hnone | hown
      · exact absurd (hnone.symm.trans hlock) nofun
      · exact absurd (Option.some.inj (hown.symm.trans hlock)) (hprune r)
    · exact h.uncommitted j held₀ hj₀ hcommitted
  exact host entries hreported := (h.exact host entries hreported).frame (fun _ _ hstands => hstands)
    (fun _ _ hstands => hstands.lock) rfl
  linked := h.linked

/-- No row has a version that no link has. -/
theorem mem_of_referenced {id : Int} (hlinked : Linked w.rows) (h : referenced w id = false) :
    ∀ stored ∈ w.rows, stored.row.softwareID ≠ id := by
  intro stored hstored heq
  obtain ⟨link, hlink, -, htable, hid⟩ := hlinked stored hstored
  have := List.any_eq_false.mp h link hlink
  simp [htable, hid, heq] at this

theorem mem_of_hasVersion {id title : Int} {held : RowLocks.Held Software Owner}
    (h : hasVersion w call title = false) (hrow : w.versions.row id = some held)
    (hcommitted : held.committed = true) (hunder : held.value.titleID = title) : id ∈ call.versions := by
  by_contra hid
  have hnone := List.any_eq_false.mp h id (Table.mem_ids.mpr (Option.isSome_of_eq_some hrow))
  simp [hid, hrow, hcommitted, hunder] at hnone

theorem inv_visitVersion (h : Inv w) (hcond : Undisturbed w (.visitVersion prune))
    (hstep : visitVersion w prune = some w') : Inv w' := by
  obtain ⟨call, hready, hvisit⟩ := Option.bind_eq_some_iff.mp hstep
  obtain ⟨hrow, hguard⟩ := Option.filter_eq_some_iff.mp hready
  obtain ⟨id, hhead, hw'⟩ := Option.map_eq_some_iff.mp hvisit
  have hphase : call.phase = .versions := (of_decide_eq_true hguard).1
  have hok := h.prunes prune call hrow
  have hcounted := hok.counted
  simp only [PruneCall.Counted, hphase] at hcounted
  have htodo : call.todo = id :: call.todo.tail := (List.cons_head?_tail hhead).symm
  have hlength : call.todo.length = call.todo.tail.length + 1 := by
    rw [htodo]
    rfl
  rw [← hw']
  split_ifs with hfree
  · have hprune (replace : Int) : Owner.prune prune ≠ .replace replace := by
      intro heq
      cases heq
    have hframe := inv_lockVersion h hfree (o := .prune prune) hprune
    have hok' := hframe.prunes prune call hrow
    apply inv_setPrune hframe hrow
    constructor
    · intro picked hpicked
      rcases List.mem_append.mp hpicked with hold | hnew
      · exact hok'.pickedVersions picked hold
      · obtain ⟨held, hheld⟩ := RowLocks.Locked.exists_row_of_free hfree
        rw [List.mem_singleton.mp hnew]
        exact ⟨⟨held.value, RowLocks.Locked.heldBy_lock hheld⟩,
          mem_of_referenced h.linked (hcond call hrow id hhead hfree)⟩
    · intro title htitle
      simp only [hcounted.2] at htitle
      cases htitle
    · simp only [PruneCall.Counted, hphase, List.length_append, List.length_singleton]
      exact ⟨by omega, hcounted.2⟩
  · apply inv_setPrune h hrow
    constructor
    · exact hok.pickedVersions
    · exact hok.pickedTitles
    · simp only [PruneCall.Counted, hphase]
      exact ⟨by omega, hcounted.2⟩

theorem inv_visitTitle (h : Inv w) (hcond : Undisturbed w (.visitTitle prune))
    (hstep : visitTitle w prune = some w') : Inv w' := by
  obtain ⟨call, hready, hvisit⟩ := Option.bind_eq_some_iff.mp hstep
  obtain ⟨hrow, hguard⟩ := Option.filter_eq_some_iff.mp hready
  obtain ⟨id, hhead, hw'⟩ := Option.map_eq_some_iff.mp hvisit
  have hphase : call.phase = .titles := (of_decide_eq_true hguard).1
  have hok := h.prunes prune call hrow
  have hcounted := hok.counted
  simp only [PruneCall.Counted, hphase] at hcounted
  have htodo : call.todo = id :: call.todo.tail := (List.cons_head?_tail hhead).symm
  have hlength : call.todo.length = call.todo.tail.length + 1 := by
    rw [htodo]
    rfl
  rw [← hw']
  split_ifs with hfree
  · have hframe : Inv { w with titles := w.titles.lock (.prune prune) id } :=
      inv_titles h (fun _ _ _ hheld => hheld.lock (RowLocks.Locked.lock_of_free hfree))
        (fun _ _ hstands => hstands.lock)
    have hok' := hframe.prunes prune call hrow
    obtain ⟨title, htitle⟩ := RowLocks.Locked.exists_row_of_free hfree
    apply inv_setPrune hframe hrow
    constructor
    · exact hok'.pickedVersions
    · intro picked hpicked
      rcases List.mem_append.mp hpicked with hold | hnew
      · exact hok'.pickedTitles picked hold
      · rw [List.mem_singleton.mp hnew]
        refine ⟨⟨title.value, RowLocks.Locked.heldBy_lock htitle⟩, ?_⟩
        intro version held hversion hunder
        by_cases hcommitted : held.committed = true
        · exact mem_of_hasVersion (hcond call hrow id hhead hfree) hversion hcommitted hunder
        · -- a version in progress is of a title that its transaction has locked
          obtain ⟨replace, t, ht, -, hid⟩ := h.uncommitted version held hversion (by simpa using hcommitted)
          obtain ⟨-, key, hkey⟩ := (h.replaces replace t ht).versioned _ _ hid
          obtain ⟨locked, hlocked, -, howner⟩ := (h.replaces replace t ht).titled _ _ hkey
          rw [hunder] at hlocked
          rcases RowLocks.Locked.lock_of_free hfree locked hlocked with hnone | hown
          · cases hnone.symm.trans howner
          · cases hown.symm.trans howner
    · simp only [PruneCall.Counted, hphase, List.length_append, List.length_singleton]
      exact ⟨hcounted.1, by omega⟩
  · apply inv_setPrune h hrow
    constructor
    · exact hok.pickedVersions
    · exact hok.pickedTitles
    · simp only [PruneCall.Counted, hphase]
      exact ⟨hcounted.1, by omega⟩

/-- The cascade reaches no version that the batch has not locked itself. -/
theorem mem_versions_of_removed (hok : PruneOk w.titles w.versions w.rows prune call) {id : Int}
    (h : id ∈ removedVersions w call) : id ∈ call.versions := by
  rcases of_decide_eq_true (List.mem_filter.mp h).2 with hpicked | htitle
  · exact hpicked
  · obtain ⟨held, hheld, hunder⟩ := (Option.any_eq_true _ _).mp htitle
    exact (hok.pickedTitles _ (of_decide_eq_true hunder)).2 id held hheld rfl

theorem rows_commitPrune (hok : PruneOk w.titles w.versions w.rows prune call) :
    w.rows.filter (fun stored => stored.row.softwareID ∉ removedVersions w call) = w.rows := by
  apply List.filter_eq_self.mpr
  intro stored hstored
  apply decide_eq_true
  intro hremoved
  exact (hok.pickedVersions _ (mem_versions_of_removed hok hremoved)).2 stored hstored rfl

theorem mem_storedRows {host : Int} {row : HostRow} :
    row ∈ storedRows w host ↔ ∃ stored ∈ w.rows, stored.host = host ∧ stored.row = row := by
  simp [storedRows, and_assoc]

theorem exact_commitPrune {host : Int} {entries : List HostSoftwareEntry}
    (hok : PruneOk w.titles w.versions w.rows prune call) (h : Exact w host entries)
    (htitles : w'.titles = w.titles.delete call.titles)
    (hversions : w'.versions = w.versions.delete (removedVersions w call)) (hrows : w'.rows = w.rows) :
    Exact w' host entries := by
  obtain ⟨staged, hstaged, hresolved, hstored⟩ := h
  refine ⟨staged, hstaged, ?_, ?_⟩
  · intro s hs
    obtain ⟨title, htitle, hversion⟩ := hresolved s hs
    have hkept : s.1 ∉ call.versions := by
      intro hpicked
      obtain ⟨row, hrow, hid⟩ := exists_link hs
      obtain ⟨stored, hmem, -, rfl⟩ := mem_storedRows.mp (hstored ▸ List.mem_append_left _ hrow)
      exact (hok.pickedVersions _ hpicked).2 stored hmem hid
    have hkeptTitle : title ∉ call.titles := by
      intro hpicked
      obtain ⟨held, hheld, hvalue, -⟩ := hversion
      exact hkept ((hok.pickedTitles title hpicked).2 s.1 held hheld (by rw [hvalue]; rfl))
    refine ⟨title, ?_, ?_⟩
    · rw [htitles]
      exact htitle.delete hkeptTitle
    · rw [hversions]
      exact hversion.delete (fun hremoved => hkept (mem_versions_of_removed hok hremoved))
  · simp only [storedRows, hrows] at hstored ⊢
    exact hstored

theorem inv_commitPrune (h : Inv w) (hstep : commitPrune w prune = some w') : Inv w' := by
  obtain ⟨call, hready, hw'⟩ := Option.map_eq_some_iff.mp hstep
  obtain ⟨hrow, -⟩ := Option.filter_eq_some_iff.mp hready
  have hok := h.prunes prune call hrow
  -- what others have locked is not deleted
  have htitles : ∀ o id key, o ≠ Owner.prune prune → w.titles.HeldBy o id key →
      (w.titles.delete call.titles).HeldBy o id key := by
    intro o id key hne hheld
    apply hheld.delete
    intro hpicked
    obtain ⟨⟨_, hheld'⟩, -⟩ := hok.pickedTitles id hpicked
    exact hne (hheld.owner_eq hheld')
  have hversions : ∀ o id key, o ≠ Owner.prune prune → w.versions.HeldBy o id key →
      (w.versions.delete (removedVersions w call)).HeldBy o id key := by
    intro o id key hne hheld
    apply hheld.delete
    intro hremoved
    obtain ⟨⟨_, hheld'⟩, -⟩ := hok.pickedVersions id (mem_versions_of_removed hok hremoved)
    exact hne (hheld.owner_eq hheld')
  rw [← hw', rows_commitPrune hok]
  constructor
  · intro i s hs
    exact (h.replaces i s hs).frame (htitles _ · · nofun) (hversions _ · · nofun)
  · intro i c hc
    rcases (row_setPrune hrow).mp hc with ⟨rfl, rfl⟩ | ⟨hi, hother⟩
    · refine ⟨List.forall_mem_nil _, List.forall_mem_nil _, ?_⟩
      simp only [PruneCall.Counted, PruneCall.afterBatch]
      split_ifs <;> trivial
    · apply (h.prunes i c hother).frame (htitles _ · · (Owner.prune_ne hi))
        (hversions _ · · (Owner.prune_ne hi)) (fun _ hstored _ => hstored)
      exact fun id held hid _ => ⟨held, (RowLocks.Locked.row_delete.mp hid).1, rfl⟩
  · exact fun id held hid hcommitted =>
      h.uncommitted id held (RowLocks.Locked.row_delete.mp hid).1 hcommitted
  · exact fun host entries hreported => exact_commitPrune hok (h.exact host entries hreported) rfl rfl rfl
  · exact h.linked

theorem inv_abortPrune (h : Inv w) (hstep : abortPrune w prune = some w') : Inv w' := by
  obtain ⟨call, hready, hw'⟩ := Option.map_eq_some_iff.mp hstep
  obtain ⟨hrow, -⟩ := Option.filter_eq_some_iff.mp hready
  rw [← hw']
  constructor
  · intro i s hs
    exact (h.replaces i s hs).frame (fun _ _ hheld => hheld.rollback nofun)
      (fun _ _ hheld => hheld.rollback nofun)
  · intro i c hc
    rcases (row_setPrune hrow).mp hc with ⟨rfl, rfl⟩ | ⟨hi, hother⟩
    · exact ⟨List.forall_mem_nil _, List.forall_mem_nil _, trivial⟩
    · apply (h.prunes i c hother).frame (fun _ _ hheld => hheld.rollback (Owner.prune_ne hi))
        (fun _ _ hheld => hheld.rollback (Owner.prune_ne hi)) (fun _ hstored _ => hstored)
      intro id held hid _
      exact RowLocks.Locked.exists_row_of_rollback hid
  · intro id held hid hcommitted
    obtain ⟨held₀, hid₀, hheld⟩ := RowLocks.Locked.row_rollback.mp hid
    split_ifs at hheld with hlock hcommitted₀
    · rw [← Option.some.inj hheld] at hcommitted
      exact absurd (hcommitted₀.symm.trans hcommitted) nofun
    · rw [← Option.some.inj hheld] at hcommitted ⊢
      exact h.uncommitted id held₀ hid₀ hcommitted
  · exact fun host entries hreported => (h.exact host entries hreported).frame
      (fun _ _ hstands => hstands.rollback) (fun _ _ hstands => hstands.rollback) rfl
  · exact h.linked

theorem inv_attempt {event : Event} (h : Inv w) (hcond : Undisturbed w event)
    (hstep : attempt w event = some w') : Inv w' := by
  cases event with
  | enrollHost => exact Option.some.inj hstep ▸ ⟨h.replaces, h.prunes, h.uncommitted, h.exact, h.linked⟩
  | deleteHost host => exact inv_deleteHost h hstep
  | beginReplace host entries => exact inv_beginReplace h hstep
  | upsertTitle replace entry => exact inv_upsertTitle h hstep
  | upsertVersion replace entry => exact inv_upsertVersion h hstep
  | beginDelete replace => exact inv_beginDelete h hstep
  | finishDelete replace => exact inv_finishDelete h hstep
  | insertRows replace => exact inv_insertRows h hstep
  | commitReplace replace => exact inv_commitReplace h hcond hstep
  | abortReplace replace => exact inv_abortReplace h hstep
  | beginPrune => exact Option.some.inj hstep ▸ inv_beginPrune h
  | selectVersions prune => exact inv_selectVersions h hstep
  | visitVersion prune => exact inv_visitVersion h hcond hstep
  | selectTitles prune => exact inv_selectTitles h hstep
  | visitTitle prune => exact inv_visitTitle h hcond hstep
  | commitPrune prune => exact inv_commitPrune h hstep
  | abortPrune prune => exact inv_abortPrune h hstep

theorem inv_step {event : Event} (h : Inv w) (hcond : Undisturbed w event) : Inv (step w event) := by
  simp only [step]
  cases hstep : attempt w event with
  | none => exact h
  | some w' => exact inv_attempt h hcond hstep

theorem inv_start : Inv {} where
  replaces := by
    intro _ _ hrow
    cases hrow
  prunes := by
    intro _ _ hrow
    cases hrow
  uncommitted := by
    intro _ _ hrow
    cases hrow
  exact := by
    intro _ _ hrow
    cases hrow
  linked := fun _ hmem => absurd hmem List.not_mem_nil

theorem harmless_of_inv (h : Inv w) (hstep : commitPrune w prune = some w')
    (hrow : w.prunes.row prune = some call) : Harmless w w' prune call := by
  obtain ⟨call', hready, hw'⟩ := Option.map_eq_some_iff.mp hstep
  obtain ⟨hrow', hguard⟩ := Option.filter_eq_some_iff.mp hready
  obtain rfl : call = call' := Option.some.inj (hrow.symm.trans hrow')
  have hphase : call.phase = .titles := (of_decide_eq_true hguard).1
  have hok := h.prunes prune call hrow
  rw [← hw']
  constructor
  · exact rows_commitPrune hok
  · intro id held hid hgone
    have hremoved : id ∈ removedVersions w call := by
      by_contra hkept
      have : (w.versions.delete (removedVersions w call)).row id = some held :=
        RowLocks.Locked.row_delete.mpr ⟨hid, hkept⟩
      exact absurd (hgone.symm.trans this) nofun
    have hpicked := mem_versions_of_removed hok hremoved
    exact ⟨hpicked, (hok.pickedVersions id hpicked).2⟩
  · intro title held htitle hgone
    have hremoved : title ∈ call.titles := by
      by_contra hkept
      have : (w.titles.delete call.titles).row title = some held :=
        RowLocks.Locked.row_delete.mpr ⟨htitle, hkept⟩
      exact absurd (hgone.symm.trans this) nofun
    exact (hok.pickedTitles title hremoved).2
  · intro hversions htitles
    have hcounted := hok.counted
    simp only [PruneCall.Counted, hphase] at hcounted
    refine ⟨_, (row_setPrune hrow).mpr (Or.inl ⟨rfl, rfl⟩), ?_⟩
    simp only [PruneCall.afterBatch]
    rw [if_pos (by omega)]

theorem kept_of_inv {event : Event} (h : Inv w) (hcond : Undisturbed w event) : Kept w event := by
  constructor
  · exact (inv_step h hcond).exact
  · rintro prune rfl w' hstep call hrow
    exact harmless_of_inv h hstep hrow

end

/-- In every run in which nothing is linked between a prune statement's snapshot and its
locks, and no two replacements of a host overlap in their deletes, every host keeps the
software of its last report. -/
theorem software_kept (events : List Event) (hcond : Along step Undisturbed {} events) :
    Along step Kept {} events :=
  Runs.along_invariant (P := Inv) (fun _ _ h hc => inv_step h hc) (fun _ _ h hc => kept_of_inv h hc)
    inv_start hcond

def sampleEntry (name : String) : HostSoftwareEntry where
  name := name
  version := "1.0"
  source := "apps"
  installedPath := "/Applications/" ++ name

/-- The events of one replacement of the software of the first host. -/
def replaceRun (replace : Int) (entries : List HostSoftwareEntry) : List Event :=
  .beginReplace 1 entries :: entries.map (.upsertTitle replace) ++ entries.map (.upsertVersion replace) ++
    [.beginDelete replace, .finishDelete replace, .beginDelete replace, .finishDelete replace,
      .insertRows replace, .insertRows replace, .commitReplace replace]

/-- The statements of a batch after the snapshot of the first. -/
def batchRun : List Event := [.visitVersion 1, .selectTitles 1, .visitTitle 1, .commitPrune 1]

def prunedRun : List Event :=
  .enrollHost :: replaceRun 1 [sampleEntry "Tool"] ++ replaceRun 2 [] ++
    .beginPrune :: .selectVersions 1 :: batchRun

theorem prunedRun_undisturbed : Along step Undisturbed {} prunedRun := by
  decide

theorem software_kept_pruned : Along step Kept {} prunedRun ∧
    ((exec step {} prunedRun).prunes.row 1).map PruneCall.total =
      some { softwareVersions := 1, softwareTitles := 1 } :=
  ⟨software_kept prunedRun prunedRun_undisturbed, by decide⟩

/-- The host reports the software again while the statement that has found it unreferenced
is on its way to the row. -/
def lostRun : List Event :=
  .enrollHost :: replaceRun 1 [sampleEntry "Tool"] ++ replaceRun 2 [] ++
    .beginPrune :: .selectVersions 1 :: replaceRun 3 [sampleEntry "Tool"] ++ batchRun

/-- Two reports of a host, neither of which sees what the other inserts. -/
def mixedRun : List Event :=
  [.enrollHost, .beginReplace 1 [sampleEntry "Tool"], .beginReplace 1 [sampleEntry "Game"],
    .upsertTitle 1 (sampleEntry "Tool"), .upsertVersion 1 (sampleEntry "Tool"),
    .upsertTitle 2 (sampleEntry "Game"), .upsertVersion 2 (sampleEntry "Game"),
    .beginDelete 1, .finishDelete 1, .beginDelete 1, .finishDelete 1,
    .beginDelete 2, .finishDelete 2, .beginDelete 2, .finishDelete 2,
    .insertRows 1, .insertRows 1, .insertRows 2, .insertRows 2, .commitReplace 1, .commitReplace 2]

theorem exact_of_kept {events : List Event} (h : Along step Kept {} events) {host : Int}
    {entries : List HostSoftwareEntry} (hreported : (exec step {} events).reported host = some entries) :
    Exact (exec step {} events) host entries :=
  Runs.exec_invariant_along
    (P := fun w => ∀ host entries, w.reported host = some entries → Exact w host entries)
    (fun _ _ _ hkept => hkept.1) inv_start.exact h host entries hreported

/-- One row for every link and one for every path at most, and one at least when there is
an entry. -/
theorem Exact.length {w : World} {host : Int} {entries : List HostSoftwareEntry} (h : Exact w host entries) :
    (storedRows w host).length ≤ 2 * entries.length ∧ (entries ≠ [] → storedRows w host ≠ []) := by
  obtain ⟨staged, rfl, -, hstored⟩ := h
  constructor
  · have hlinks := (FirstWins.firstBy_sublist Prod.fst [] staged.reverse).length_le
    have hpaths := (FirstWins.firstBy_sublist (fun s : Int × HostSoftwareEntry => (s.1, s.2.installedPath)) []
      (staged.filter (fun s => s.2.installedPath ≠ "")).reverse).length_le
    have hfilter := List.length_filter_le (fun s => decide (s.2.installedPath ≠ "")) staged
    simp only [List.length_reverse] at hlinks hpaths
    simp only [hstored, hostRows, List.length_append, List.length_map]
    omega
  · intro hne hnil
    obtain ⟨s, hs⟩ := List.exists_mem_of_ne_nil staged (by simpa using hne)
    obtain ⟨row, hrow, -⟩ := exists_link hs
    rw [hstored, List.append_eq_nil_iff] at hnil
    rw [hnil.1] at hrow
    cases hrow

/-- A host loses what it has reported, and another has the software of two reports. -/
theorem reported_software_lost : ¬Along step Kept {} lostRun ∧ ¬Along step Kept {} mixedRun := by
  constructor
  · intro h
    have hend : (exec step {} lostRun).reported 1 = some [sampleEntry "Tool"] ∧
        storedRows (exec step {} lostRun) 1 = [] := by decide +kernel
    exact (exact_of_kept h hend.1).length.2 (List.cons_ne_nil _ _) hend.2
  · intro h
    have hend : (exec step {} mixedRun).reported 1 = some [sampleEntry "Game"] ∧
        (storedRows (exec step {} mixedRun) 1).length = 4 := by decide
    have := (exact_of_kept h hend.1).length.1
    rw [hend.2] at this
    exact absurd this (by decide)

end SoftwarePruning
