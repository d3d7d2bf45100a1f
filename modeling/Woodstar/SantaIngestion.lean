import Woodstar.KeyedRelations
import Woodstar.LexicalPaths
import Woodstar.SantaUploads

/-!
# Ingestion of Santa events

`internal/santa/events`: what the transaction of an upload writes, from the plan that is made
of its events. Rows are numbered; `object` says which bytes hold a JSON object.
-/
namespace SantaIngestion

open KeyedRelations (idOf keyOf)
open KeyedRows (Table)
open KeyedUpserts
open Primitives (Fault btrimNotEmpty isText trimSpace)
open SantaUploads

/-- An execution event with what its occurrence alone holds. -/
structure ExecutionEvent extends ExecutionEventInput where
  filePath : String := ""
  executingUser : String := ""
  loggedInUsers : List String := []
  currentSessions : List String := []
  staticRule : Bool := false
  pid : Int := 0
  ppid : Int := 0
  parentName : String := ""
  deriving DecidableEq, Repr

inductive FileAccessDecision where
  | unknown | denied | deniedInvalidSignature | auditOnly
  | other (value : String)
  deriving DecidableEq, Repr

structure ProcessInput where
  pid : Int := 0
  filePath : String := ""
  fileSHA256 : String := ""
  signingID : String := ""
  teamID : String := ""
  cdhash : String := ""
  signingChain : List CertificateInput := []
  deriving DecidableEq, Repr

structure FileAccessEvent extends FileAccessEventInput where
  ruleVersion : String := ""
  ruleName : String := ""
  target : String := ""
  decision : FileAccessDecision
  processChain : List ProcessInput := []
  deriving DecidableEq, Repr

structure Events where
  execution : List ExecutionEvent := []
  fileAccess : List FileAccessEvent := []
  standalone : List StandaloneRuleCreationEventInput := []
  deriving DecidableEq, Repr

/-- One list of each kind after the other. -/
def Events.append (xs ys : Events) : Events where
  execution := xs.execution ++ ys.execution
  fileAccess := xs.fileAccess ++ ys.fileAccess
  standalone := xs.standalone ++ ys.standalone

/-- What the plan and the validation look at. -/
def Events.upload (events : Events) : Upload where
  executionEvents := events.execution.map ExecutionEvent.toExecutionEventInput
  fileAccessEvents := events.fileAccess.map FileAccessEvent.toFileAccessEventInput
  standaloneEvents := events.standalone

structure Certificate where
  sha256 : String
  commonName : String
  organization : String
  organizationalUnit : String
  validFrom : Option Nat
  validUntil : Option Nat
  deriving DecidableEq, Repr

structure Bundle extends BundleWrite where
  uploadedAt : Option Int := none
  deriving DecidableEq, Repr

structure ExecutionEventRow where
  hostID : Int
  executableID : Int
  filePath : String
  executingUser : String
  pid : Int
  ppid : Int
  parentName : String
  loggedInUsers : List String
  currentSessions : List String
  decision : ExecutionDecision
  staticRule : Bool
  occurredAt : Option Int
  deriving DecidableEq, Repr

structure SigningChainEntry where
  sha256 : String
  commonName : String
  organization : String
  organizationalUnit : String
  validFrom : Option Nat
  validUntil : Option Nat
  deriving DecidableEq, Repr

structure Process where
  pid : Int
  filePath : String
  fileName : String
  fileSHA256 : String
  signingID : String
  teamID : String
  cdhash : String
  signingChain : List SigningChainEntry
  deriving DecidableEq, Repr

structure FileAccessEventRow where
  hostID : Int
  ruleVersion : String
  ruleName : String
  target : String
  decision : FileAccessDecision
  primaryProcessSHA256 : String
  primaryProcessPath : String
  primaryProcessSigningID : String
  primaryProcessTeamID : String
  primaryProcessCDHash : String
  primaryProcessPID : Int
  processChain : List Process
  occurredAt : Option Int
  deriving DecidableEq, Repr

structure StandaloneRuleCreationEventRow where
  hostID : Int
  identifier : String
  decision : ExecutionDecision
  occurredAt : Option Int
  deriving DecidableEq, Repr

structure Database where
  hosts : Finset Int
  executables : Table ExecutableWrite
  signingChains : Table String
  certificates : Table Certificate
  bundles : Table Bundle
  /-- By chain and position. -/
  signingChainEntries : Int → Nat → Option Int
  executableSigningChains : Finset (Int × Int)
  bundleExecutables : Finset (Int × Int)
  executionEvents : List ExecutionEventRow
  fileAccessEvents : List FileAccessEventRow
  standaloneEvents : List StandaloneRuleCreationEventRow

def certificateTime (seconds : Nat) : Option Nat := if seconds = 0 then none else some seconds

def certificateRow (entry : CertificateInput) : Certificate where
  sha256 := entry.sha256
  commonName := entry.commonName
  organization := entry.org
  organizationalUnit := entry.ou
  validFrom := certificateTime entry.validFrom
  validUntil := certificateTime entry.validUntil

def upsertExecutable : Upsert ExecutableWrite ExecutableWrite String where
  key row := some row.sha256
  slot write := write.sha256
  make write := write
  merge write _ := write
  key_make _ := rfl
  key_merge _ _ _ := rfl

def upsertSigningChain : Upsert String SigningChainWrite String where
  key := some
  slot write := write.sha256
  make write := write.sha256
  merge write _ := write.sha256
  key_make _ := rfl
  key_merge _ _ _ := rfl

def upsertCertificate : Upsert Certificate CertificateInput String where
  key row := some row.sha256
  slot entry := entry.sha256
  make := certificateRow
  merge entry _ := certificateRow entry
  key_make _ := rfl
  key_merge _ _ _ := rfl

/-- `ON CONFLICT`: what is empty or zero leaves the stored value. -/
def mergeBundle (write : BundleWrite) (stored : BundleWrite) : BundleWrite where
  sha256 := stored.sha256
  bundleID := if write.bundleID = "" then stored.bundleID else write.bundleID
  name := if write.name = "" then stored.name else write.name
  path := if write.path = "" then stored.path else write.path
  executableRelPath :=
    if write.executableRelPath = "" then stored.executableRelPath else write.executableRelPath
  version := if write.version = "" then stored.version else write.version
  versionString := if write.versionString = "" then stored.versionString else write.versionString
  binaryCount := if 0 < write.binaryCount then write.binaryCount else stored.binaryCount
  hashMillis := if 0 < write.hashMillis then write.hashMillis else stored.hashMillis

def upsertBundle : Upsert Bundle BundleWrite String where
  key row := some row.sha256
  slot write := write.sha256
  make write := { write with }
  merge write stored := { mergeBundle write stored.toBundleWrite with uploadedAt := stored.uploadedAt }
  key_make _ := rfl
  key_merge _ _ h := h

def upsertPlanReferences (plan : IngestPlan) (db : Database) : Database :=
  { db with
    executables := putAll upsertExecutable db.executables plan.executables
    signingChains := putAll upsertSigningChain db.signingChains plan.signingChains
    certificates := putAll upsertCertificate db.certificates plan.certificates
    bundles := putAll upsertBundle db.bundles plan.bundles }

def linkSigningChainEntry (entries : Int → Nat → Option Int) (chainID : Int) (position : Nat) (certificateID : Int) :
    Int → Nat → Option Int :=
  fun id n => if id = chainID ∧ n = position then some certificateID else entries id n

def insertPlanRelationships (plan : IngestPlan) (db : Database) : Database :=
  { db with
    signingChainEntries := plan.signingChains.foldl (fun entries chain =>
      chain.entries.zipIdx.foldl (fun entries entry =>
        linkSigningChainEntry entries (idOf upsertSigningChain.key db.signingChains chain.sha256) entry.2
          (idOf upsertCertificate.key db.certificates entry.1.sha256)) entries) db.signingChainEntries
    executableSigningChains := db.executableSigningChains ∪ (plan.executableSigningLinks.map (fun link =>
      (idOf upsertExecutable.key db.executables link.executableSHA256,
        idOf upsertSigningChain.key db.signingChains link.signingChainSHA256))).toFinset
    bundleExecutables := db.bundleExecutables ∪ (plan.bundleExecutableLinks.map (fun link =>
      (idOf upsertBundle.key db.bundles link.bundleSHA256,
        idOf upsertExecutable.key db.executables link.executableSHA256))).toFinset }

/-- `UPDATE` of one bundle. -/
def completion (now : Int) (links : Finset (Int × Int)) (bundleID : Int) (b : Bundle) : Bundle :=
  { b with
    uploadedAt :=
      if 0 < b.binaryCount ∧ b.binaryCount ≤ (links.filter (fun link => link.1 = bundleID)).card then
        some (b.uploadedAt.getD now)
      else none }

def reconcileBundleCompletion (now : Int) (links : Finset (Int × Int)) (bundles : Table Bundle) (bundleID : Int) :
    Table Bundle :=
  bundles.modify bundleID (completion now links bundleID)

def reconcilePlanBundleCompletion (now : Int) (plan : IngestPlan) (db : Database) : Database :=
  { db with
    bundles := plan.bundles.foldl (fun bundles bundle =>
      reconcileBundleCompletion now db.bundleExecutables bundles (idOf upsertBundle.key db.bundles bundle.sha256))
        db.bundles }

def normalizeString (value : String) : String := String.ofList (value.toList.filter (fun c => c.toNat != 0))

def normalizeStringSlice (values : List String) : List String :=
  values.foldl (fun out value =>
    let value := trimSpace (normalizeString value)
    if value = "" ∨ value ∈ out then out else out ++ [value]) []

def normalizeTeamID (value : String) : String := if value = "<unknown team id>" then "" else value

def fileNameFromPath (path : String) : String :=
  if path = "" then "" else String.ofList (LexicalPaths.base path.toList)

def signingChainOutputEntries (entries : List CertificateInput) : List SigningChainEntry :=
  entries.map (fun entry => {
    sha256 := entry.sha256, commonName := entry.commonName, organization := entry.org
    organizationalUnit := entry.ou, validFrom := certificateTime entry.validFrom
    validUntil := certificateTime entry.validUntil })

def processEntries (chain : List ProcessInput) : List Process :=
  chain.map (fun process => {
    pid := process.pid, filePath := process.filePath, fileName := fileNameFromPath process.filePath
    fileSHA256 := process.fileSHA256, signingID := process.signingID, teamID := normalizeTeamID process.teamID
    cdhash := process.cdhash
    signingChain := signingChainOutputEntries (signingChainEntries process.signingChain) })

def primaryProcess (chain : List ProcessInput) : ProcessInput := chain.headD {}

def insertExecutionEvent (hostID executableID : Int) (event : ExecutionEvent) : ExecutionEventRow where
  hostID := hostID
  executableID := executableID
  filePath := event.filePath
  executingUser := event.executingUser
  pid := event.pid
  ppid := event.ppid
  parentName := event.parentName
  loggedInUsers := normalizeStringSlice event.loggedInUsers
  currentSessions := normalizeStringSlice event.currentSessions
  decision := event.decision
  staticRule := event.staticRule
  occurredAt := event.occurredAt

def insertFileAccessEvent (hostID : Int) (event : FileAccessEvent) : FileAccessEventRow where
  hostID := hostID
  ruleVersion := event.ruleVersion
  ruleName := event.ruleName
  target := event.target
  decision := event.decision
  primaryProcessSHA256 := (primaryProcess event.processChain).fileSHA256
  primaryProcessPath := (primaryProcess event.processChain).filePath
  primaryProcessSigningID := (primaryProcess event.processChain).signingID
  primaryProcessTeamID := normalizeTeamID (primaryProcess event.processChain).teamID
  primaryProcessCDHash := (primaryProcess event.processChain).cdhash
  primaryProcessPID := (primaryProcess event.processChain).pid
  processChain := processEntries event.processChain
  occurredAt := event.occurredAt

def insertStandaloneRuleCreationEvent (hostID : Int) (event : StandaloneRuleCreationEventInput) :
    StandaloneRuleCreationEventRow where
  hostID := hostID
  identifier := event.identifier
  decision := event.decision
  occurredAt := event.occurredAt

/-- The events that have occurrence rows, in the order of the client. -/
def executionRows (events : List ExecutionEvent) : List ExecutionEvent :=
  events.filter (fun event => event.decision != .bundleBinary)

def insertPlanOccurrences (hostID : Int) (events : Events) (db : Database) : Database :=
  { db with
    executionEvents := db.executionEvents ++ (executionRows events.execution).map (fun event =>
      insertExecutionEvent hostID (idOf upsertExecutable.key db.executables event.fileSHA256) event)
    fileAccessEvents := db.fileAccessEvents ++ events.fileAccess.map (insertFileAccessEvent hostID)
    standaloneEvents := db.standaloneEvents ++ events.standalone.map (insertStandaloneRuleCreationEvent hostID) }

def ingestEventsTx (now hostID : Int) (plan : IngestPlan) (events : Events) (db : Database) : Database :=
  insertPlanOccurrences hostID events
    (reconcilePlanBundleCompletion now plan (insertPlanRelationships plan (upsertPlanReferences plan db)))

/-- The range of `timestamptz`, in microseconds. -/
def isTimestamp (t : Int) : Bool := decide (-210866803200000000 ≤ t ∧ t < 9224318016000000000)

def isExecutionDecision : ExecutionDecision → Bool
  | .other _ => false
  | _ => true

def isFileAccessDecision : FileAccessDecision → Bool
  | .other _ => false
  | _ => true

def storableExecutable (object : List UInt8 → Bool) (write : ExecutableWrite) : Bool :=
  btrimNotEmpty write.sha256 &&
    [write.sha256, write.fileName, write.fileBundleID, write.fileBundlePath, write.fileBundleExecutableRelPath,
      write.fileBundleName, write.fileBundleVersion, write.fileBundleVersionString, write.fileBundleHash,
      write.signingID, write.teamID, write.cdhash].all isText &&
    write.secureSigningTime.all isTimestamp && write.signingTime.all isTimestamp && write.entitlements.all object

def storableCertificate (entry : CertificateInput) : Bool :=
  btrimNotEmpty entry.sha256 && [entry.sha256, entry.commonName, entry.org, entry.ou].all isText

def storableBundle (write : BundleWrite) : Bool :=
  btrimNotEmpty write.sha256 && isText write.sha256 && isText write.bundleID && isText write.name &&
    isText write.path && isText write.executableRelPath && isText write.version && isText write.versionString

def storableExecutionEvent (event : ExecutionEvent) : Bool :=
  isExecutionDecision event.decision && [event.filePath, event.executingUser, event.parentName].all isText &&
    event.occurredAt.all isTimestamp

def storableProcess (process : ProcessInput) : Bool :=
  [process.filePath, process.fileSHA256, process.signingID, process.teamID, process.cdhash].all isText &&
    (signingChainEntries process.signingChain).all (fun entry =>
      [entry.sha256, entry.commonName, entry.org, entry.ou].all isText)

def storableFileAccessEvent (event : FileAccessEvent) : Bool :=
  isFileAccessDecision event.decision && [event.ruleVersion, event.ruleName, event.target].all isText &&
    event.processChain.all storableProcess && event.occurredAt.all isTimestamp

def storableStandaloneEvent (event : StandaloneRuleCreationEventInput) : Bool :=
  btrimNotEmpty event.identifier && isText event.identifier && isExecutionDecision event.decision &&
    event.occurredAt.all isTimestamp

/-- No row that the transaction writes breaks a constraint. -/
def storable (object : List UInt8 → Bool) (hosts : Finset Int) (hostID : Int) (plan : IngestPlan) (events : Events) :
    Bool :=
  plan.executables.all (storableExecutable object) &&
    plan.signingChains.all (fun chain => btrimNotEmpty chain.sha256) &&
    plan.certificates.all storableCertificate && plan.bundles.all storableBundle &&
    (executionRows events.execution).all storableExecutionEvent && events.fileAccess.all storableFileAccessEvent &&
    events.standalone.all storableStandaloneEvent &&
    (decide (hostID ∈ hosts) ||
      decide (executionRows events.execution = [] ∧ events.fileAccess = [] ∧ events.standalone = []))

/-- One upload, which is written whole or not at all. -/
def ingestEvents (hash : List String → String) (object : List UInt8 → Bool) (hostID now : Int) (events : Events)
    (db : Database) : Except Fault Database :=
  if events.execution = [] ∧ events.fileAccess = [] ∧ events.standalone = [] then .ok db
  else if validateEventInputs events.upload = false then .error (.invalidInput "event")
  else
    let plan := newIngestPlan hash events.upload
    if storable object db.hosts hostID plan events = false then .error (.database "santa_events")
    else .ok (ingestEventsTx now hostID plan events db)

/-- What is known of the shared rows, by their hashes. -/
@[ext]
structure Shared where
  executables : String → Option ExecutableWrite
  signingChains : String → Bool
  certificates : String → Option Certificate
  bundles : String → Option BundleWrite
  uploaded : String → Bool
  signingChainEntries : String → Nat → Option String
  executableSigningChains : Finset (String × String)
  bundleExecutables : Finset (String × String)

@[ext]
structure View where
  shared : Shared
  executionEvents : List (String × ExecutionEventRow)
  fileAccessEvents : List FileAccessEventRow
  standaloneEvents : List StandaloneRuleCreationEventRow

def Database.shared (db : Database) : Shared where
  executables := under upsertExecutable.key db.executables
  signingChains k := (find upsertSigningChain.key db.signingChains k).isSome
  certificates := under upsertCertificate.key db.certificates
  bundles k := (under upsertBundle.key db.bundles k).map Bundle.toBundleWrite
  uploaded k := ((under upsertBundle.key db.bundles k).bind Bundle.uploadedAt).isSome
  signingChainEntries k n := (find upsertSigningChain.key db.signingChains k).bind (fun id =>
    (db.signingChainEntries id n).map (keyOf upsertCertificate.key db.certificates))
  executableSigningChains := db.executableSigningChains.image (fun link =>
    (keyOf upsertExecutable.key db.executables link.1, keyOf upsertSigningChain.key db.signingChains link.2))
  bundleExecutables := db.bundleExecutables.image (fun link =>
    (keyOf upsertBundle.key db.bundles link.1, keyOf upsertExecutable.key db.executables link.2))

def Database.view (db : Database) : View where
  shared := db.shared
  executionEvents := db.executionEvents.map (fun row =>
    (keyOf upsertExecutable.key db.executables row.executableID, { row with executableID := 0 }))
  fileAccessEvents := db.fileAccessEvents
  standaloneEvents := db.standaloneEvents

/-- A bundle is complete when as many executables as it has are linked. -/
def complete (bundles : String → Option BundleWrite) (links : Finset (String × String)) (k : String) : Bool :=
  (bundles k).any (fun b =>
    decide (0 < b.binaryCount ∧ b.binaryCount ≤ (links.filter (fun link => link.1 = k)).card))

/-- One event alone. -/
def Shared.absorb (hash : List String → String) (s : Shared) (event : ExecutionEventInput) : Shared :=
  let entries := SantaUploads.signingChainEntries event.signingChain
  let bundles := if event.bundleHash = "" then s.bundles
    else Function.update s.bundles event.bundleHash (some (((s.bundles event.bundleHash).getD {}).merge event))
  let links := if event.bundleHash = "" then s.bundleExecutables
    else insert (event.bundleHash, event.fileSHA256) s.bundleExecutables
  { executables := Function.update s.executables event.fileSHA256 (some (executableWriteFromEvent event))
    signingChains := fun k => s.signingChains k || decide (chainOf hash event = some k)
    certificates := fun k =>
      ((entries.reverse.find? (fun entry => decide (entry.sha256 = k))).map certificateRow).or (s.certificates k)
    bundles := bundles
    uploaded := if event.bundleHash = "" then s.uploaded
      else Function.update s.uploaded event.bundleHash (complete bundles links event.bundleHash)
    signingChainEntries := fun k n =>
      (if chainOf hash event = some k then entries[n]?.map CertificateInput.sha256 else none).or
        (s.signingChainEntries k n)
    executableSigningChains := match chainOf hash event with
      | none => s.executableSigningChains
      | some k => insert (event.fileSHA256, k) s.executableSigningChains
    bundleExecutables := links }

/-- All that a builder holds at once. -/
def Shared.apply (s : Shared) (b : IngestPlanBuilder) : Shared :=
  let bundles := fun k => match b.bundles.lookup k with
    | none => s.bundles k
    | some write => some (((s.bundles k).map (mergeBundle write)).getD write)
  let links := s.bundleExecutables ∪
    b.bundleExecutableLinks.image (fun link => (link.bundleSHA256, link.executableSHA256))
  { executables := fun k => (b.executables.lookup k).or (s.executables k)
    signingChains := fun k => s.signingChains k || (b.signingChains.lookup k).isSome
    certificates := fun k => ((b.certificates.lookup k).map certificateRow).or (s.certificates k)
    bundles := bundles
    uploaded := fun k => if (b.bundles.lookup k).isSome = true then complete bundles links k else s.uploaded k
    signingChainEntries := fun k n =>
      ((b.signingChains.lookup k).bind (fun chain => chain.entries[n]?.map CertificateInput.sha256)).or
        (s.signingChainEntries k n)
    executableSigningChains := s.executableSigningChains ∪
      b.executableSigningLinks.image (fun link => (link.executableSHA256, link.signingChainSHA256))
    bundleExecutables := links }

section

variable {hash : List String → String} {s : Shared} {b : IngestPlanBuilder} {events : List ExecutionEventInput}
  {event : ExecutionEventInput}

theorem text_merge (x y z : String) :
    (if (if x ≠ "" then x else y) = "" then z else if x ≠ "" then x else y) =
      if x ≠ "" then x else if y = "" then z else y := by
  by_cases hx : x = ""
  · simp [hx]
  · simp [hx]

theorem count_merge (x y z : Nat) :
    (if 0 < (if 0 < x then x else y) then if 0 < x then x else y else z) =
      if 0 < x then x else if 0 < y then y else z := by
  by_cases hx : 0 < x
  · simp [hx]
  · simp [hx]

/-- The upsert of a merged write is the merge into the upserted row. -/
theorem mergeBundle_merge (w stored : BundleWrite) (hkey : stored.sha256 = event.bundleHash) :
    mergeBundle (w.merge event) stored = (mergeBundle w stored).merge event := by
  simp only [mergeBundle, BundleWrite.merge, BundleWrite.mk.injEq, hkey, true_and]
  exact ⟨text_merge _ _ _, text_merge _ _ _, text_merge _ _ _, text_merge _ _ _, text_merge _ _ _, text_merge _ _ _,
    count_merge _ _ _, count_merge _ _ _⟩

theorem mergeBundle_empty (stored : BundleWrite) : mergeBundle {} stored = stored := rfl

theorem lookup_addCertificates_eq {certificates : ByHash CertificateInput} (entries : List CertificateInput)
    (k : String) : (addCertificates certificates entries).lookup k =
      (entries.reverse.find? (fun entry => decide (entry.sha256 = k))).or (certificates.lookup k) := by
  induction entries generalizing certificates with
  | nil => rfl
  | cons entry entries ih =>
    change (addCertificates (certificates.insert entry.sha256 entry) entries).lookup k = _
    rw [ih, List.reverse_cons, List.find?_append, Option.or_assoc]
    congr 1
    by_cases hk : k = entry.sha256
    · rw [hk, AList.lookup_insert]
      simp
    · rw [AList.lookup_insert_ne hk]
      simp [Ne.symm hk]

theorem complete_congr {bundles bundles' : String → Option BundleWrite} {links links' : Finset (String × String)}
    {k : String} (hbundle : bundles k = bundles' k)
    (hlinks : links.filter (fun link => link.1 = k) = links'.filter (fun link => link.1 = k)) :
    complete bundles links k = complete bundles' links' k := by
  rw [complete, complete, hbundle, hlinks]

/-- The bundle of every row is the one under its hash. -/
def Shared.Keyed (s : Shared) : Prop := ∀ k, ∀ w ∈ s.bundles k, w.sha256 = k

theorem bundles_apply_add (hkeyed : s.Keyed) (k : String) :
    (s.apply (b.addExecutionEvent hash event)).bundles k = ((s.apply b).absorb hash event).bundles k := by
  simp only [Shared.apply, Shared.absorb, bundles_add]
  by_cases hblank : event.bundleHash = ""
  · simp [hblank]
  · simp only [if_neg hblank]
    by_cases hk : k = event.bundleHash
    · subst hk
      rw [AList.lookup_insert, Function.update_self]
      cases hlookup : b.bundles.lookup event.bundleHash with
      | none =>
        cases hstored : s.bundles event.bundleHash with
        | none => rfl
        | some stored =>
          have hmerge := mergeBundle_merge {} stored (hkeyed event.bundleHash _ hstored)
          simp [hmerge, mergeBundle_empty]
      | some w =>
        cases hstored : s.bundles event.bundleHash with
        | none => rfl
        | some stored => simp [mergeBundle_merge w stored (hkeyed _ _ hstored)]
    · rw [AList.lookup_insert_ne hk, Function.update_of_ne hk]

theorem bundleExecutables_apply_add :
    (s.apply (b.addExecutionEvent hash event)).bundleExecutables =
      ((s.apply b).absorb hash event).bundleExecutables := by
  simp only [Shared.apply, Shared.absorb, bundleExecutableLinks_add]
  by_cases hblank : event.bundleHash = ""
  · simp [hblank]
  · simp only [if_neg hblank, Finset.image_insert, Finset.union_insert]

theorem uploaded_apply_add (hkeyed : s.Keyed) (k : String) :
    (s.apply (b.addExecutionEvent hash event)).uploaded k = ((s.apply b).absorb hash event).uploaded k := by
  have hbundles (k' : String) : (s.apply (b.addExecutionEvent hash event)).bundles k' =
      ((s.apply b).absorb hash event).bundles k' := bundles_apply_add hkeyed k'
  have hlinks : (s.apply (b.addExecutionEvent hash event)).bundleExecutables =
      ((s.apply b).absorb hash event).bundleExecutables := bundleExecutables_apply_add
  by_cases hblank : event.bundleHash = ""
  · simp only [Shared.apply, Shared.absorb, bundles_add, bundleExecutableLinks_add, if_pos hblank]
  · have hafter : (s.apply (b.addExecutionEvent hash event)).uploaded k =
        if ((b.addExecutionEvent hash event).bundles.lookup k).isSome = true then
          complete (s.apply (b.addExecutionEvent hash event)).bundles
            (s.apply (b.addExecutionEvent hash event)).bundleExecutables k
        else s.uploaded k := rfl
    have hone : ((s.apply b).absorb hash event).uploaded =
        Function.update (s.apply b).uploaded event.bundleHash
          (complete ((s.apply b).absorb hash event).bundles ((s.apply b).absorb hash event).bundleExecutables
            event.bundleHash) := by
      simp only [Shared.absorb, if_neg hblank]
    rw [hafter, hone, bundles_add, if_neg hblank]
    by_cases hk : k = event.bundleHash
    · subst hk
      rw [AList.lookup_insert, Function.update_self, if_pos Option.isSome_some]
      exact complete_congr (hbundles _) (by rw [hlinks])
    · rw [AList.lookup_insert_ne hk, Function.update_of_ne hk]
      have hsame : complete (s.apply (b.addExecutionEvent hash event)).bundles
          (s.apply (b.addExecutionEvent hash event)).bundleExecutables k =
          complete (s.apply b).bundles (s.apply b).bundleExecutables k := by
        apply complete_congr
        · rw [hbundles]
          simp only [Shared.absorb, if_neg hblank, Function.update_of_ne hk]
        · rw [hlinks]
          simp only [Shared.absorb, if_neg hblank, Finset.filter_insert, if_neg (Ne.symm hk)]
      rw [hsame]
      rfl

theorem signingChainEntries_apply_add (hbuilt : Built hash events b)
    (hfree : CollisionFree hash (events ++ [event])) (k : String) (n : Nat) :
    (s.apply (b.addExecutionEvent hash event)).signingChainEntries k n =
      ((s.apply b).absorb hash event).signingChainEntries k n := by
  simp only [Shared.apply, Shared.absorb, signingChains_add]
  cases hchain : chainOf hash event with
  | none => simp
  | some k' =>
    by_cases hk : k = k'
    · subst hk
      simp only [AList.lookup_insert, Option.bind_some, if_pos]
      cases hentry : (signingChainEntries event.signingChain)[n]? with
      | some entry => rfl
      | none =>
        cases hlookup : b.signingChains.lookup k with
        | none => rfl
        | some w =>
          obtain ⟨e, he, hname, hentries⟩ := hbuilt.chain_entries k w hlookup
          have hlength := hfree event (by simp) e (by simp [he]) (by rw [hchain]; rfl) (hchain.trans hname.symm)
          have hshort : w.entries[n]? = none := by
            rw [List.getElem?_eq_none_iff] at hentry ⊢
            rw [hentries]
            omega
          simp [hshort]
    · have hother : ¬ some k' = some k := fun heq => hk (Option.some.inj heq).symm
      simp only [AList.lookup_insert_ne hk, if_neg hother, Option.none_or]

/-- One more event in the plan is one more event absorbed. -/
theorem apply_add (hbuilt : Built hash events b) (hfree : CollisionFree hash (events ++ [event]))
    (hkeyed : s.Keyed) : s.apply (b.addExecutionEvent hash event) = (s.apply b).absorb hash event := by
  apply Shared.ext
  case executables =>
    funext k
    simp only [Shared.apply, Shared.absorb, executables_add]
    by_cases hk : k = event.fileSHA256
    · subst hk
      simp
    · rw [AList.lookup_insert_ne hk, Function.update_of_ne hk]
  case signingChains =>
    funext k
    simp only [Shared.apply, Shared.absorb, signingChains_add]
    cases hchain : chainOf hash event with
    | none => simp
    | some k' =>
      by_cases hk : k = k'
      · subst hk
        simp
      · have hother : ¬ some k' = some k := fun heq => hk (Option.some.inj heq).symm
        simp [AList.lookup_insert_ne hk, hother]
  case certificates =>
    funext k
    simp only [Shared.apply, Shared.absorb, certificates_add, lookup_addCertificates_eq]
    rw [Option.map_or, Option.or_assoc]
  case bundles =>
    funext k
    exact bundles_apply_add hkeyed k
  case uploaded =>
    funext k
    exact uploaded_apply_add hkeyed k
  case signingChainEntries =>
    funext k n
    exact signingChainEntries_apply_add hbuilt hfree k n
  case executableSigningChains =>
    simp only [Shared.apply, Shared.absorb, executableSigningLinks_add]
    cases chainOf hash event with
    | none => rfl
    | some k => simp only [Finset.image_insert, Finset.union_insert]
  case bundleExecutables => exact bundleExecutables_apply_add

theorem apply_empty : s.apply {} = s := by
  apply Shared.ext <;> first | rfl | simp [Shared.apply]

theorem collisionFree_of_subset {events' : List ExecutionEventInput} (h : CollisionFree hash events)
    (hsub : ∀ e ∈ events', e ∈ events) : CollisionFree hash events' :=
  fun e he e' he' => h e (hsub e he) e' (hsub e' he')

/-- The plan writes what its events write one after the other. -/
theorem apply_buildPlan (hfree : CollisionFree hash events) (hkeyed : s.Keyed) :
    s.apply (buildPlan hash events) = events.foldl (Shared.absorb hash) s := by
  induction events using List.reverseRecOn with
  | nil => exact apply_empty
  | append_singleton events event ih =>
    have hbefore : CollisionFree hash events := collisionFree_of_subset hfree (fun e he => by simp [he])
    rw [buildPlan, List.foldl_append, List.foldl_append, List.foldl_cons, List.foldl_nil, List.foldl_cons,
      List.foldl_nil, ← ih hbefore]
    exact apply_add (built_plan hash events) hfree hkeyed

end

end SantaIngestion
