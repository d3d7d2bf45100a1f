import Woodstar.RowLocks
import Woodstar.FirstWins
import Woodstar.Runs

/-!
# Pruning of unreferenced software

`ReplaceHostSoftware` transactions, batches of `PruneUnreferencedSoftware` and host
deletions under READ COMMITTED, one row lock, one snapshot or one effect at a time. What a
transaction writes to the rows of hosts counts when it commits; its row locks count at once.
-/
namespace SoftwarePruning

open KeyedRows (Table)
open RowLocks (Locked)
open FirstWins (firstBy)
open Runs (exec Along)

structure SoftwareCodeSignature where
  signed : Bool
  identifier : String
  authority : String
  teamIdentifier : String
  cdHash : String
  deriving DecidableEq, Repr

structure HostSoftwareEntry where
  name : String
  version : String := ""
  source : String
  bundleIdentifier : String := ""
  extensionID : String := ""
  extensionFor : String := ""
  vendor : String := ""
  arch : String := ""
  release : String := ""
  installedPath : String := ""
  signature : Option SoftwareCodeSignature := none
  executableSHA256 : String := ""
  executablePath : String := ""
  lastOpenedAt : Option Int := none
  deriving DecidableEq, Repr

def softwareSourceValues : List String :=
  ["apps", "homebrew_packages", "chrome_extensions", "firefox_addons", "safari_extensions",
    "npm_packages", "vscode_extensions", "jetbrains_plugins", "go_binaries", "python_packages"]

/-- The unique key of a row of `software_titles`. The name of a title with a bundle
identifier is not part of it. -/
structure SoftwareTitle where
  name : String
  source : String
  extensionFor : String
  bundleIdentifier : String
  deriving DecidableEq, Repr

/-- The unique key of a row of `software`. -/
structure Software where
  titleID : Int
  version : String
  source : String
  bundleIdentifier : String
  extensionID : String
  extensionFor : String
  vendor : String
  arch : String
  release : String
  deriving DecidableEq, Repr

def HostSoftwareEntry.title (entry : HostSoftwareEntry) : SoftwareTitle where
  name := if entry.bundleIdentifier = "" then entry.name else ""
  source := entry.source
  extensionFor := entry.extensionFor
  bundleIdentifier := entry.bundleIdentifier

def HostSoftwareEntry.software (entry : HostSoftwareEntry) (titleID : Int) : Software where
  titleID := titleID
  version := entry.version
  source := entry.source
  bundleIdentifier := entry.bundleIdentifier
  extensionID := entry.extensionID
  extensionFor := entry.extensionFor
  vendor := entry.vendor
  arch := entry.arch
  release := entry.release

/-- The entries that are staged, by position. -/
def stageSoftwareSnapshot (entries : List HostSoftwareEntry) : List HostSoftwareEntry :=
  entries.filter (fun entry => entry.name ≠ "")

inductive HostTable where
  | installedPaths | links
  deriving DecidableEq, Repr

/-- A row of `host_software` or of `host_software_installed_paths`. -/
inductive HostRow where
  | link (softwareID : Int) (lastOpenedAt : Option Int)
  | installedPath (softwareID : Int) (path : String) (signatureSigned : Option Bool)
      (identifier signingAuthority teamIdentifier : String)
      (cdhash executableSHA256 executablePath : Option String)
  deriving DecidableEq, Repr

def HostRow.softwareID : HostRow → Int
  | .link softwareID _ => softwareID
  | .installedPath softwareID _ _ _ _ _ _ _ _ => softwareID

def HostRow.table : HostRow → HostTable
  | .link _ _ => .links
  | .installedPath _ _ _ _ _ _ _ _ _ => .installedPaths

/-- The unique key among the rows of the host. -/
def HostRow.key : HostRow → Int × Option String
  | .link softwareID _ => (softwareID, none)
  | .installedPath softwareID path _ _ _ _ _ _ _ => (softwareID, some path)

def nullIfEmpty (s : String) : Option String := if s = "" then none else some s

def linkOf (staged : Int × HostSoftwareEntry) : HostRow := .link staged.1 staged.2.lastOpenedAt

def installedPathOf (staged : Int × HostSoftwareEntry) : HostRow :=
  let entry := staged.2
  match entry.signature with
  | none =>
    .installedPath staged.1 entry.installedPath none "" "" "" none
      (nullIfEmpty entry.executableSHA256) (nullIfEmpty entry.executablePath)
  | some signature =>
    .installedPath staged.1 entry.installedPath (some signature.signed) signature.identifier
      signature.authority signature.teamIdentifier (nullIfEmpty signature.cdHash)
      (nullIfEmpty entry.executableSHA256) (nullIfEmpty entry.executablePath)

/-- The entry of the last position for each version, or for each version and path. -/
def hostRows (staged : List (Int × HostSoftwareEntry)) : HostTable → List HostRow
  | .links => (firstBy Prod.fst [] staged.reverse).map linkOf
  | .installedPaths =>
    (firstBy (fun s => (s.1, s.2.installedPath)) []
      (staged.filter (fun s => s.2.installedPath ≠ "")).reverse).map installedPathOf

/-- A stored row, by the transaction that wrote it. -/
structure StoredRow where
  host : Int
  writer : Int
  row : HostRow
  deriving DecidableEq, Repr

inductive Phase where
  | catalog
  | deleting (table : HostTable)
  | deleted (table : HostTable)
  | inserted (table : HostTable)
  deriving DecidableEq, Repr

/-- A `ReplaceHostSoftware` transaction in progress. `titles` and `versions` hold the rows
that its upserts have locked, which are those that the joins of the snapshot find; `doomed`
are the rows that the snapshots of its deletes found. -/
structure ReplaceTx where
  host : Int
  entries : List HostSoftwareEntry
  titles : SoftwareTitle → Option Int := fun _ => none
  versions : Software → Option Int := fun _ => none
  phase : Phase := .catalog
  doomed : List StoredRow := []
  inserted : List HostRow := []

structure CleanupResult where
  softwareVersions : Nat := 0
  softwareTitles : Nat := 0
  deriving DecidableEq, Repr

inductive PrunePhase where
  | batch | versions | titles | returned | failed
  deriving DecidableEq, Repr

/-- A `PruneUnreferencedSoftware` call. `todo` are the candidates that the current statement
has not come to, `versions` and `titles` the rows that the batch has locked. The two last
fields are history: how many candidates the snapshot of each statement held. -/
structure PruneCall where
  phase : PrunePhase := .batch
  total : CleanupResult := {}
  todo : List Int := []
  versions : List Int := []
  titles : List Int := []
  foundVersions : Nat := 0
  foundTitles : Nat := 0
  deriving DecidableEq, Repr

inductive Owner where
  | replace (id : Int)
  | prune (id : Int)
  deriving DecidableEq, Repr

/-- `reported` is history: what the last committed `ReplaceHostSoftware` of each host staged. -/
structure World where
  hosts : Table Unit := Table.empty
  titles : Locked SoftwareTitle Owner := Locked.empty
  versions : Locked Software Owner := Locked.empty
  rows : List StoredRow := []
  replaces : Table ReplaceTx := Table.empty
  prunes : Table PruneCall := Table.empty
  reported : Int → Option (List HostSoftwareEntry) := fun _ => none

inductive Event where
  | enrollHost
  | deleteHost (host : Int)
  | beginReplace (host : Int) (entries : List HostSoftwareEntry)
  | upsertTitle (replace : Int) (entry : HostSoftwareEntry)
  | upsertVersion (replace : Int) (entry : HostSoftwareEntry)
  | beginDelete (replace : Int)
  | finishDelete (replace : Int)
  | insertRows (replace : Int)
  | commitReplace (replace : Int)
  | abortReplace (replace : Int)
  | beginPrune
  | selectVersions (prune : Int)
  | visitVersion (prune : Int)
  | selectTitles (prune : Int)
  | visitTitle (prune : Int)
  | commitPrune (prune : Int)
  | abortPrune (prune : Int)
  deriving DecidableEq, Repr

namespace ReplaceTx

variable (t : ReplaceTx)

def softwareID (entry : HostSoftwareEntry) : Option Int :=
  (t.titles entry.title).bind (fun titleID => t.versions (entry.software titleID))

/-- The staged entries with the versions that they were resolved to. -/
def snapshot : List (Int × HostSoftwareEntry) :=
  t.entries.filterMap (fun entry => (t.softwareID entry).map (fun id => (id, entry)))

/-- The rows that the transaction has deleted so far, if they were still there. -/
def deletedRows : List StoredRow :=
  match t.phase with
  | .catalog | .deleting .installedPaths => []
  | .deleted .installedPaths | .deleting .links =>
    t.doomed.filter (fun stored => stored.row.table = .installedPaths)
  | .deleted .links | .inserted _ => t.doomed

/-- The table of the next delete. -/
def nextDelete : Option HostTable :=
  match t.phase with
  | .catalog =>
    if t.entries.all (fun entry => (t.softwareID entry).isSome) = true then some .installedPaths else none
  | .deleted .installedPaths => some .links
  | _ => none

/-- The table of the next insert. -/
def nextInsert : Option HostTable :=
  match t.phase with
  | .deleted .links => some .links
  | .inserted .links => some .installedPaths
  | _ => none

end ReplaceTx

section

variable (w : World)

/-- An entry with an unsupported source is an error before the transaction. -/
def beginReplace (host : Int) (entries : List HostSoftwareEntry) : Option World :=
  if entries.all (fun entry => entry.name = "" || softwareSourceValues.contains entry.source) = true then
    some { w with replaces := w.replaces.insert { host, entries := stageSoftwareSnapshot entries } }
  else none

def setReplace (replace : Int) (t : ReplaceTx) : World :=
  { w with replaces := w.replaces.modify replace (fun _ => t) }

/-- One row of the upserts of titles. The titles with a bundle identifier come first. -/
def upsertTitle (replace : Int) (entry : HostSoftwareEntry) : Option World :=
  ((w.replaces.row replace).filter (fun t => t.phase = .catalog ∧ entry ∈ t.entries ∧
    t.titles entry.title = none ∧
    (entry.bundleIdentifier = "" → ∀ other ∈ t.entries, other.bundleIdentifier ≠ "" →
      (t.titles other.title).isSome = true))).bind (fun t =>
    (w.titles.upsert (.replace replace) entry.title).map (fun (titles, id) =>
      setReplace { w with titles } replace
        { t with titles := Function.update t.titles entry.title (some id) }))

/-- One row of the upsert of versions, which comes after the titles. -/
def upsertVersion (replace : Int) (entry : HostSoftwareEntry) : Option World :=
  ((w.replaces.row replace).filter (fun t => t.phase = .catalog ∧ entry ∈ t.entries ∧
    ∀ other ∈ t.entries, (t.titles other.title).isSome = true)).bind (fun t =>
    ((t.titles entry.title).filter (fun titleID => t.versions (entry.software titleID) = none)).bind
      (fun titleID =>
        (w.versions.upsert (.replace replace) (entry.software titleID)).map (fun (versions, id) =>
          setReplace { w with versions } replace
            { t with versions := Function.update t.versions (entry.software titleID) (some id) })))

/-- A delete takes its snapshot. -/
def beginDelete (replace : Int) : Option World :=
  (w.replaces.row replace).bind (fun t => t.nextDelete.map (fun table =>
    setReplace w replace { t with
      phase := .deleting table
      doomed := t.doomed ++
        w.rows.filter (fun stored => stored.host = t.host ∧ stored.row.table = table) }))

/-- Another transaction in progress has deleted one of the rows that are still there. -/
def deleteWaits (replace : Int) (t : ReplaceTx) (table : HostTable) : Bool :=
  w.replaces.ids.any (fun other => other ≠ replace ∧ (w.replaces.row other).any (fun o =>
    t.doomed.any (fun stored => stored.row.table = table ∧ stored ∈ w.rows ∧ stored ∈ o.deletedRows)))

def finishDelete (replace : Int) : Option World :=
  (w.replaces.row replace).bind (fun t =>
    match t.phase with
    | .deleting table =>
      if deleteWaits w replace t table = true then none
      else some (setReplace w replace { t with phase := .deleted table })
    | _ => none)

/-- The foreign key of a row asks for the host. -/
def insertRows (replace : Int) : Option World :=
  (w.replaces.row replace).bind (fun t => t.nextInsert.bind (fun table =>
    if hostRows t.snapshot table = [] ∨ (w.hosts.row t.host).isSome = true then
      some (setReplace w replace { t with
        phase := .inserted table
        inserted := t.inserted ++ hostRows t.snapshot table })
    else none))

/-- The rows that the transaction deleted are gone, and one with the key of an inserted row
was updated in its place. -/
def rowsAfter (replace : Int) (t : ReplaceTx) : List StoredRow :=
  w.rows.filter (fun stored => stored ∉ t.doomed ∧
      ¬(stored.host = t.host ∧ stored.row.key ∈ t.inserted.map HostRow.key)) ++
    t.inserted.map (fun row => { host := t.host, writer := replace, row })

def commitReplace (replace : Int) : Option World :=
  ((w.replaces.row replace).filter (fun t => t.phase = .inserted .installedPaths)).map (fun t =>
    { w with
      titles := w.titles.commit (.replace replace)
      versions := w.versions.commit (.replace replace)
      rows := rowsAfter w replace t
      replaces := w.replaces.erase replace
      reported := Function.update w.reported t.host (some t.entries) })

/-- Any statement may fail, as the one that a deadlock is resolved by. -/
def abortReplace (replace : Int) : Option World :=
  (w.replaces.row replace).map (fun _ =>
    { w with
      titles := w.titles.rollback (.replace replace)
      versions := w.versions.rollback (.replace replace)
      replaces := w.replaces.erase replace })

/-- A transaction in progress has inserted rows of the host or deleted some. -/
def hostLocked (host : Int) : Bool :=
  w.replaces.ids.any (fun replace => (w.replaces.row replace).any (fun t =>
    t.host = host ∧ (t.inserted ≠ [] ∨ ∃ stored ∈ w.rows, stored ∈ t.deletedRows)))

def deleteHost (host : Int) : Option World :=
  if (w.hosts.row host).isSome = true ∧ hostLocked w host = false then
    some { w with
      hosts := w.hosts.erase host
      rows := w.rows.filter (fun stored => stored.host ≠ host)
      reported := Function.update w.reported host none }
  else none

def cleanupBatchSize : Nat := 1000

/-- Some row of `host_software` references the version. -/
def referenced (version : Int) : Bool :=
  w.rows.any (fun stored => stored.row.table = .links ∧ stored.row.softwareID = version)

def unreferencedVersions : List Int :=
  w.versions.ids.filter (fun id =>
    (w.versions.row id).any (fun held => held.committed) && !referenced w id)

/-- Some version that the batch has not deleted is of the title. -/
def hasVersion (call : PruneCall) (title : Int) : Bool :=
  w.versions.ids.any (fun id => id ∉ call.versions ∧
    (w.versions.row id).any (fun held => held.committed = true ∧ held.value.titleID = title))

def titlesWithoutVersions (call : PruneCall) : List Int :=
  w.titles.ids.filter (fun id =>
    (w.titles.row id).any (fun held => held.committed) && !hasVersion w call id)

def setPrune (prune : Int) (call : PruneCall) : World :=
  { w with prunes := w.prunes.modify prune (fun _ => call) }

/-- The first statement of a batch takes its snapshot. -/
def selectVersions (prune : Int) : Option World :=
  ((w.prunes.row prune).filter (fun call => call.phase = .batch)).map (fun call =>
    setPrune w prune { call with
      phase := .versions
      todo := unreferencedVersions w
      versions := []
      titles := []
      foundVersions := (unreferencedVersions w).length
      foundTitles := 0 })

/-- The statement comes to its next candidate and locks it, or passes over it when it is
locked or gone. -/
def visitVersion (prune : Int) : Option World :=
  ((w.prunes.row prune).filter (fun call =>
    call.phase = .versions ∧ call.versions.length < cleanupBatchSize)).bind (fun call =>
    call.todo.head?.map (fun id =>
      if w.versions.free (.prune prune) id = true then
        setPrune { w with versions := w.versions.lock (.prune prune) id } prune
          { call with todo := call.todo.tail, versions := call.versions ++ [id] }
      else setPrune w prune { call with todo := call.todo.tail }))

/-- The second statement takes its snapshot when the first has come to its end or limit. -/
def selectTitles (prune : Int) : Option World :=
  ((w.prunes.row prune).filter (fun call =>
    call.phase = .versions ∧ (call.todo = [] ∨ cleanupBatchSize ≤ call.versions.length))).map (fun call =>
    setPrune w prune { call with
      phase := .titles
      todo := titlesWithoutVersions w call
      foundTitles := (titlesWithoutVersions w call).length })

def visitTitle (prune : Int) : Option World :=
  ((w.prunes.row prune).filter (fun call =>
    call.phase = .titles ∧ call.titles.length < cleanupBatchSize)).bind (fun call =>
    call.todo.head?.map (fun id =>
      if w.titles.free (.prune prune) id = true then
        setPrune { w with titles := w.titles.lock (.prune prune) id } prune
          { call with todo := call.todo.tail, titles := call.titles ++ [id] }
      else setPrune w prune { call with todo := call.todo.tail }))

/-- The versions that go: those of the first statement, and by cascade those of the titles. -/
def removedVersions (call : PruneCall) : List Int :=
  w.versions.ids.filter (fun id => id ∈ call.versions ∨
    (w.versions.row id).any (fun held => held.value.titleID ∈ call.titles))

/-- The call after a batch: it returns unless the batch was full. -/
def PruneCall.afterBatch (call : PruneCall) : PruneCall :=
  { call with
    phase := if call.versions.length < cleanupBatchSize ∧ call.titles.length < cleanupBatchSize
      then .returned else .batch
    total := {
      softwareVersions := call.total.softwareVersions + call.versions.length
      softwareTitles := call.total.softwareTitles + call.titles.length }
    todo := []
    versions := []
    titles := [] }

def commitPrune (prune : Int) : Option World :=
  ((w.prunes.row prune).filter (fun call =>
    call.phase = .titles ∧ (call.todo = [] ∨ cleanupBatchSize ≤ call.titles.length))).map (fun call =>
    setPrune { w with
      titles := w.titles.delete call.titles
      versions := w.versions.delete (removedVersions w call)
      rows := w.rows.filter (fun stored => stored.row.softwareID ∉ removedVersions w call) }
      prune call.afterBatch)

def abortPrune (prune : Int) : Option World :=
  ((w.prunes.row prune).filter (fun call => call.phase ≠ .returned ∧ call.phase ≠ .failed)).map (fun _ =>
    setPrune { w with
      titles := w.titles.rollback (.prune prune)
      versions := w.versions.rollback (.prune prune) }
      prune { phase := .failed })

/-- `none` when the event is not possible now, as a statement that waits for a lock. -/
def attempt : Event → Option World
  | .enrollHost => some { w with hosts := w.hosts.insert () }
  | .deleteHost host => deleteHost w host
  | .beginReplace host entries => beginReplace w host entries
  | .upsertTitle replace entry => upsertTitle w replace entry
  | .upsertVersion replace entry => upsertVersion w replace entry
  | .beginDelete replace => beginDelete w replace
  | .finishDelete replace => finishDelete w replace
  | .insertRows replace => insertRows w replace
  | .commitReplace replace => commitReplace w replace
  | .abortReplace replace => abortReplace w replace
  | .beginPrune => some { w with prunes := w.prunes.insert {} }
  | .selectVersions prune => selectVersions w prune
  | .visitVersion prune => visitVersion w prune
  | .selectTitles prune => selectTitles w prune
  | .visitTitle prune => visitTitle w prune
  | .commitPrune prune => commitPrune w prune
  | .abortPrune prune => abortPrune w prune

def step (event : Event) : World := (attempt w event).getD w

end

section

variable (w : World)

/-- The committed version and title of an entry. -/
def Resolved (version : Int) (entry : HostSoftwareEntry) : Prop :=
  ∃ title, w.titles.Stands title entry.title ∧ w.versions.Stands version (entry.software title)

def storedRows (host : Int) : List HostRow :=
  (w.rows.filter (fun stored => stored.host = host)).map StoredRow.row

/-- The host has the links and the paths of the staged entries, and no others. -/
def Exact (host : Int) (entries : List HostSoftwareEntry) : Prop :=
  ∃ staged, staged.map Prod.snd = entries ∧ (∀ s ∈ staged, Resolved w s.1 s.2) ∧
    storedRows w host = hostRows staged .links ++ hostRows staged .installedPaths

/-- A batch removes versions that no row of a host references and titles whose versions it has all
removed, and no row of a host. The loop ends after a batch that found less than its size. -/
structure Harmless (w' : World) (prune : Int) (call : PruneCall) : Prop where
  rows : w'.rows = w.rows
  versions : ∀ id held, w.versions.row id = some held → w'.versions.row id = none →
    id ∈ call.versions ∧ ∀ stored ∈ w.rows, stored.row.softwareID ≠ id
  titles : ∀ title held, w.titles.row title = some held → w'.titles.row title = none →
    ∀ id held, w.versions.row id = some held → held.value.titleID = title → id ∈ call.versions
  ends : call.foundVersions < cleanupBatchSize → call.foundTitles < cleanupBatchSize →
    ∃ call', w'.prunes.row prune = some call' ∧ call'.phase = .returned

/-- After the step every host has the software of its last report, and a batch that
committed was harmless. -/
def Kept (event : Event) : Prop :=
  (∀ host entries, (step w event).reported host = some entries → Exact (step w event) host entries) ∧
  ∀ prune, event = .commitPrune prune → ∀ w' ∈ attempt w event, ∀ call ∈ w.prunes.row prune,
    Harmless w w' prune call

/-- A prune statement locks a row only while nothing references it still, and a
`ReplaceHostSoftware` commits only when its deletes have found every row of the host. -/
def Undisturbed : Event → Prop
  | .visitVersion prune => ∀ call ∈ w.prunes.row prune, ∀ id ∈ call.todo.head?,
    w.versions.free (.prune prune) id = true → referenced w id = false
  | .visitTitle prune => ∀ call ∈ w.prunes.row prune, ∀ id ∈ call.todo.head?,
    w.titles.free (.prune prune) id = true → hasVersion w call id = false
  | .commitReplace replace => ∀ t ∈ w.replaces.row replace, ∀ stored ∈ w.rows,
    stored.host = t.host → stored ∈ t.doomed
  | _ => True

instance decidableUndisturbed : ∀ event, Decidable (Undisturbed w event)
  | .visitVersion prune => inferInstanceAs (Decidable (∀ call ∈ w.prunes.row prune,
      ∀ id ∈ call.todo.head?, w.versions.free (.prune prune) id = true → referenced w id = false))
  | .visitTitle prune => inferInstanceAs (Decidable (∀ call ∈ w.prunes.row prune,
      ∀ id ∈ call.todo.head?, w.titles.free (.prune prune) id = true → hasVersion w call id = false))
  | .commitReplace replace => inferInstanceAs (Decidable (∀ t ∈ w.replaces.row replace,
      ∀ stored ∈ w.rows, stored.host = t.host → stored ∈ t.doomed))
  | .enrollHost | .deleteHost _ | .beginReplace _ _ | .upsertTitle _ _ | .upsertVersion _ _
  | .beginDelete _ | .finishDelete _ | .insertRows _ | .abortReplace _ | .beginPrune
  | .selectVersions _ | .selectTitles _ | .commitPrune _ | .abortPrune _ => isTrue trivial

end

end SoftwarePruning
