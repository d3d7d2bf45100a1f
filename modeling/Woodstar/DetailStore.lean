import Woodstar.DetailRows
import Woodstar.DynamicLabels
import Woodstar.PolicyStore
import Woodstar.QueryNames
import Woodstar.SoftwareCatalog

/-!
# The distributed write

`dispatchWriteResults` of `internal/osquery/dispatch.go` with the tables that it writes. The
results come in the order in which the map is iterated. Every store call is a transaction.
-/
namespace DetailStore

open DetailRows
open DynamicLabels (LabelResult handleLabelResult parseQueryName parsePositiveSuffix)
open HostEnrollment (HostRow InventoryUpdate)
open KeyedRows (Table upsertAll)
open LabelModel (LabelMembershipType)
open LiveQueries (Row)
open PolicyModel (Crypto EvaluationResult MembershipRow Pair PolicyRow PolicyStatus RunRow)
open Primitives (Fault isText)
open SoftwarePruning (HostSoftwareEntry stageSoftwareSnapshot)

inductive DetailName where
  | osVersion | systemInfo | osqueryInfo | osqueryFlags | orbitInfo | uptime | rootDiskDarwin
  | primaryInterfaceUnix | users | batteries | certificatesDarwin | munkiInfo | munkiInstalls
  | softwareMacOS | softwareVSCodeExtensions | softwareJetBrainsPlugins | softwareGoBinaries
  | softwarePythonPackages | softwareMacOSSignature | softwareMacOSExecutableHash
  deriving DecidableEq, Repr

def DetailName.text : DetailName → String
  | .osVersion => "os_version"
  | .systemInfo => "system_info"
  | .osqueryInfo => "osquery_info"
  | .osqueryFlags => "osquery_flags"
  | .orbitInfo => "orbit_info"
  | .uptime => "uptime"
  | .rootDiskDarwin => "root_disk_darwin"
  | .primaryInterfaceUnix => "primary_interface_unix"
  | .users => "users"
  | .batteries => "batteries"
  | .certificatesDarwin => "certificates_darwin"
  | .munkiInfo => "munki_info"
  | .munkiInstalls => "munki_installs"
  | .softwareMacOS => "software_macos"
  | .softwareVSCodeExtensions => "software_vscode_extensions"
  | .softwareJetBrainsPlugins => "software_jetbrains_plugins"
  | .softwareGoBinaries => "software_go_binaries"
  | .softwarePythonPackages => "software_python_packages"
  | .softwareMacOSSignature => "software_macos_signature"
  | .softwareMacOSExecutableHash => "software_macos_executable_sha256"

/-- The suffixes of the registry. -/
def DetailName.all : List DetailName :=
  [.osVersion, .systemInfo, .osqueryInfo, .osqueryFlags, .orbitInfo, .uptime, .rootDiskDarwin,
    .primaryInterfaceUnix, .users, .batteries, .certificatesDarwin, .munkiInfo, .munkiInstalls,
    .softwareMacOS, .softwareVSCodeExtensions, .softwareJetBrainsPlugins, .softwareGoBinaries,
    .softwarePythonPackages, .softwareMacOSSignature, .softwareMacOSExecutableHash]

inductive DetailIngest where
  | hostDetail | osqueryFlags | uptime | users | batteries | certificates | munkiInfo | munkiInstalls
  | softwareBase | softwareEnrichment
  deriving DecidableEq, Repr

def DetailName.ingest : DetailName → DetailIngest
  | .osVersion | .systemInfo | .osqueryInfo | .orbitInfo | .rootDiskDarwin | .primaryInterfaceUnix => .hostDetail
  | .osqueryFlags => .osqueryFlags
  | .uptime => .uptime
  | .users => .users
  | .batteries => .batteries
  | .certificatesDarwin => .certificates
  | .munkiInfo => .munkiInfo
  | .munkiInstalls => .munkiInstalls
  | .softwareMacOS => .softwareBase
  | .softwareVSCodeExtensions | .softwareJetBrainsPlugins | .softwareGoBinaries | .softwarePythonPackages
  | .softwareMacOSSignature | .softwareMacOSExecutableHash => .softwareEnrichment

def DetailName.optional : DetailName → Bool
  | .osVersion | .systemInfo | .osqueryInfo | .uptime | .rootDiskDarwin | .primaryInterfaceUnix | .users
  | .softwareMacOS => false
  | _ => true

/-- A query name with what the three maps of the body hold for it. The status is the number
that the message decodes to, and a map lists its keys in order. -/
structure Answer where
  name : List Char
  rows : Option (List Row) := none
  status : Option Int := none
  message : String := ""
  deriving DecidableEq, Repr

def Answer.ok (answer : Answer) : Bool := DynamicLabels.distributedStatusOK answer.status

def Answer.rowList (answer : Answer) : List Row := answer.rows.getD []

/-- The query of the registry that a result answers. -/
def Answer.detail (answer : Answer) : Option DetailName :=
  match parseQueryName answer.name with
  | some (.detail, suffix) => DetailName.all.find? (fun name => name.text.toList == suffix)
  | _ => none

/-- The host of the node key, what the write reads besides the tables, and the clocks of the
server and of the database. What is printed of an address is one that PostgreSQL reads.
`timestamptz` is what the driver and the column keep of an instant, if they take it; they take
those of the years 0 to 9999, and of a week before and after. -/
structure Server where
  hostID : Int
  displayName : String
  readers : Readers
  inet : String → Option String
  timestamptz : Int → Option Int
  crypto : Crypto
  plan : SoftwareCatalog.Plan
  detailQueryHash : String
  now : Int
  clock : Int
  now_bounds : 0 ≤ now ∧ now < 2 ^ 63
  addr_text : ∀ value address, readers.parseAddr value = some address → isText address = true
  addr_inet : ∀ value address, readers.parseAddr value = some address → (inet address).isSome = true
  years_kept : ∀ t, -62167824000 * timeSecond ≤ t → t < 253402905600 * timeSecond →
    (timestamptz t).isSome = true

/-- Users are under uid and username, batteries under their serial number, certificates under
sha1, source and username. -/
structure World where
  hosts : Table HostRow := Table.empty
  refreshRequested : Int → Bool := fun _ => false
  users : Int → String × String → Option HostUser := fun _ _ => none
  batteries : Int → String → Option HostBattery := fun _ _ => none
  certificates : Int → String × String × String → Option HostCertificate := fun _ _ => none
  titles : Table SoftwareCatalog.TitleRow := Table.empty
  software : Table SoftwareCatalog.VersionRow := Table.empty
  links : Int × Int → Option (Option Int) := fun _ => none
  paths : Table SoftwareCatalog.PathRow := Table.empty
  munkiStatus : Int → Option HostObservation := fun _ => none
  munkiItems : Int → String → Option ItemObservation := fun _ _ => none
  labels : Int → Option LabelMembershipType := fun _ => none
  members : Int → Int → Bool := fun _ _ => false
  policies : Table PolicyRow := Table.empty
  membership : Pair → Option MembershipRow := fun _ => none
  runs : Pair → Option RunRow := fun _ => none
  drawn : Nat := 0
  live : LiveQueries.Db := {}

def World.hostsDb (w : World) : HostEnrollment.Db := { hosts := w.hosts }

def World.catalog (w : World) : SoftwareCatalog.Db where
  hosts := w.hosts.ids
  titles := w.titles
  software := w.software
  links := w.links
  paths := w.paths

def World.policyDb (w : World) : PolicyModel.Db where
  labels label := (w.labels label).isSome
  labelMembership := w.members
  hosts := w.hosts.map (fun row => ⟨row.orbitScriptsEnabled, row.orbitNodeKey⟩)
  policies := w.policies
  membership := w.membership
  runs := w.runs
  drawn := w.drawn

section Values

variable (server : Server)

def storableInstant (t : Int) : Bool := (server.timestamptz t).isSome

def storableInt (value : Option Int) : Bool := value.all (fun n => decide (GoNumbers.Fits 32 n))

def storableTime (t : Option Time) : Bool := t.all (fun t => storableInstant server t.instant)

def storableName (name : CertificateNames.CertificateName) : Bool :=
  [name.country, name.organization, name.organizationalUnit, name.commonName].all
    (fun value => isText (String.ofList value))

def storableUpdate (update : InventoryUpdate) : Bool :=
  update.texts.all isText &&
    [update.hardware.cpu.logicalCores, update.hardware.cpu.physicalCores].all
      (fun n => decide (GoNumbers.Fits 32 n)) &&
    decide (GoNumbers.Fits 64 update.hardware.memoryBytes) &&
    [update.bootVolume.availableBytes, update.bootVolume.totalBytes].all
      (fun value => value.all (fun n => decide (GoNumbers.Fits 64 n))) &&
    storableInt update.agents.osquery.distributedIntervalSeconds &&
    storableInt update.agents.osquery.configRefreshSeconds &&
    update.lastRestartedAt.all (storableInstant server)

def storableUser (user : HostUser) : Bool :=
  [user.uid, user.username, user.type, user.description, user.directory, user.shell].all isText

def storableBattery (battery : HostBattery) : Bool :=
  [battery.serialNumber, battery.manufacturer, battery.model, battery.chemistry, battery.health].all isText &&
    [battery.cycleCount, battery.designedCapacity, battery.maxCapacity, battery.currentCapacity].all storableInt

def storableCertificate (certificate : HostCertificate) : Bool :=
  [certificate.sha1, certificate.commonName, certificate.keyAlgorithm, certificate.keyUsage,
      certificate.signingAlgorithm, certificate.serial, certificate.source, certificate.username,
      certificate.path].all isText &&
    storableName certificate.subject && storableName certificate.issuer && storableInt certificate.keyStrength &&
    storableTime server certificate.notValidAfter && storableTime server certificate.notValidBefore

def storableObservation (observation : HostObservation) : Bool :=
  ([observation.version, observation.manifestName] ++ observation.errors ++ observation.warnings ++
      observation.problemInstalls).all isText &&
    observation.runStartedAt.all (storableInstant server) && observation.runEndedAt.all (storableInstant server)

def storableItem (item : ItemObservation) : Bool :=
  [item.name, item.displayName, item.installedVersion, item.targetVersion].all isText

def storableEntry (entry : HostSoftwareEntry) : Bool :=
  (SoftwareCatalog.texts entry).all isText && entry.lastOpenedAt.all (storableInstant server)

def storableLive (r : LiveQueries.Result) : Bool :=
  isText r.hostName && isText r.error &&
    r.normalizeRows.all (fun row => row.all (fun value => isText value.1 && isText value.2))

def keptTime (t : Time) : Option Time := (server.timestamptz t.instant).map (unixTime 0)

/-- The values as the columns keep their times. -/
def keptUpdate (update : InventoryUpdate) : InventoryUpdate :=
  { update with lastRestartedAt := update.lastRestartedAt.bind server.timestamptz }

def keptCertificate (certificate : HostCertificate) : HostCertificate :=
  { certificate with
    notValidAfter := certificate.notValidAfter.bind (keptTime server)
    notValidBefore := certificate.notValidBefore.bind (keptTime server) }

def keptObservation (observation : HostObservation) : HostObservation :=
  { observation with
    runStartedAt := observation.runStartedAt.bind server.timestamptz
    runEndedAt := observation.runEndedAt.bind server.timestamptz }

def keptEntry (entry : HostSoftwareEntry) : HostSoftwareEntry :=
  { entry with lastOpenedAt := entry.lastOpenedAt.bind server.timestamptz }

end Values

variable (server : Server)

def invalidValue {α : Type} : Except Fault α := .error (.database "invalid_parameter_value")

def applyInventory (w : World) (update : InventoryUpdate) : Except Fault World :=
  if storableUpdate server update = false then invalidValue
  else match HostEnrollment.applyInventory server.inet w.hostsDb server.hostID (keptUpdate server update) with
    | (.error fault, _) => .error fault
    | (.ok (), db) => .ok { w with hosts := db.hosts }

/-- The rows of the host are replaced in one transaction. -/
def replaceRows {α : Type} (storable : α → Bool) (w : World) (rows : List α) (written : World) :
    Except Fault World :=
  if rows.all storable = false then invalidValue
  else if rows ≠ [] ∧ w.hosts.row server.hostID = none then .error (.database "foreign_key_violation")
  else .ok written

/-- A later row updates the one under its key. -/
def keyed {α κ : Type} [DecidableEq κ] (key : α → κ) (rows : List α) : κ → Option α :=
  upsertAll key (fun row _ => row) (fun _ => none) rows

def replaceUsers (w : World) (users : List HostUser) : Except Fault World :=
  let users := users.filter (fun user => user.uid ≠ "" ∧ user.username ≠ "")
  replaceRows server storableUser w users { w with
    users := Function.update w.users server.hostID (keyed (fun user => (user.uid, user.username)) users) }

def replaceBatteries (w : World) (batteries : List HostBattery) : Except Fault World :=
  let batteries := batteries.filter (fun battery => battery.serialNumber ≠ "")
  replaceRows server storableBattery w batteries { w with
    batteries := Function.update w.batteries server.hostID (keyed HostBattery.serialNumber batteries) }

def replaceCertificates (w : World) (certificates : List HostCertificate) : Except Fault World :=
  let certificates := certificates.filter (fun certificate => certificate.sha1 ≠ "")
  replaceRows server (storableCertificate server) w certificates { w with
    certificates := Function.update w.certificates server.hostID
      (keyed (fun certificate => (certificate.sha1, certificate.source, certificate.username))
        (certificates.map (keptCertificate server))) }

def replaceHostSoftware (w : World) (entries : List HostSoftwareEntry) : Except Fault World :=
  if entries.all (fun entry => decide (entry.name = "") || SoftwareCatalog.SoftwareSource.valid entry.source) = true ∧
      (stageSoftwareSnapshot entries).all (storableEntry server) = false then invalidValue
  else match SoftwareCatalog.replaceHostSoftware server.plan w.catalog server.hostID
      (entries.map (keptEntry server)) with
    | .error fault => .error fault
    | .ok db => .ok { w with titles := db.titles, software := db.software, links := db.links, paths := db.paths }

/-- Without a report the host has no Munki state. -/
def applyCollection (w : World) : Option (HostObservation × List ItemObservation) → Except Fault World
  | none => .ok { w with
      munkiStatus := Function.update w.munkiStatus server.hostID none
      munkiItems := Function.update w.munkiItems server.hostID (fun _ => none) }
  | some (observation, items) =>
    if storableObservation server observation = false ∨ items.all storableItem = false then invalidValue
    else if w.hosts.row server.hostID = none then .error (.database "foreign_key_violation")
    else .ok { w with
      munkiStatus := Function.update w.munkiStatus server.hostID (some (keptObservation server observation))
      munkiItems := Function.update w.munkiItems server.hostID (keyed ItemObservation.name items) }

def markInventoryFresh (w : World) : World :=
  { w with
    hosts := w.hosts.modify server.hostID (fun row => { row with
      inventoryUpdatedAt := some server.clock
      inventoryQueryHash := server.detailQueryHash })
    refreshRequested := Function.update w.refreshRequested server.hostID false }

/-- The UPDATE of the target is reached for an open run only. -/
def recordLiveResult (w : World) (r : LiveQueries.Result) : Except Fault World :=
  if (w.live.runs.row r.queryID).any (fun run => run.completedAt.isNone && !run.expired server.clock) = true ∧
      storableLive r = false then invalidValue
  else (LiveQueries.recordResult w.live r server.clock).map (fun live => { w with live })

def recordEvaluations (w : World) (results : List EvaluationResult) : Except Fault World :=
  (PolicyStore.recordEvaluations server.crypto w.policyDb server.hostID results).map (fun db =>
    { w with membership := db.membership, runs := db.runs, drawn := db.drawn })

/-- One statement, so every result meets the rows from before. -/
def setDynamicMemberships (w : World) (results : List LabelResult) : Except Fault World :=
  if (results.map LabelResult.labelID).Nodup then
    let applicable := results.filter (fun result => w.labels result.labelID == some .dynamic)
    .ok { w with members := fun label host =>
      if host = server.hostID then
        match applicable.find? (fun result => result.labelID == label) with
        | some result => result.matched
        | none => w.members label host
      else w.members label host }
  else .error (.invalidInput "duplicate dynamic label result")

/-- `details` has the row under the name that the parser knows. -/
def hostDetail (name : DetailName) (rows : List Row) : Option InventoryUpdate :=
  rows.head?.map (fun row => parseHostDetails server.readers server.now (fun key =>
    if key = canonicalHostDetailName name.text then some row else none))

def ingestHostDetail (w : World) (name : DetailName) (rows : List Row) : Except Fault World :=
  match hostDetail server name rows with
  | none => .ok w
  | some update => applyInventory server w update

/-- What is deferred is ingested at the end of the pass. -/
def ingestDetail (w : World) (name : DetailName) (rows : List Row) : Except Fault World :=
  match name.ingest with
  | .hostDetail | .uptime => ingestHostDetail server w name rows
  | .osqueryFlags => applyInventory server w (parseOsqueryFlags rows)
  | .users => replaceUsers server w (parseHostUsers rows)
  | .batteries => replaceBatteries server w (parseHostBatteries server.readers rows)
  | .certificates => replaceCertificates server w (parseHostCertificates rows)
  | .munkiInfo | .munkiInstalls | .softwareBase | .softwareEnrichment => .ok w

def liveResult (answer : Answer) : Option LiveQueries.Result :=
  match parseQueryName answer.name with
  | some (.live, suffix) => (parsePositiveSuffix suffix).map (fun queryID => {
      queryID := queryID
      hostID := server.hostID
      hostName := server.displayName
      status := if answer.ok = true then .collected else .error
      rows := answer.rows
      error := answer.message })
  | _ => none

def policyResult (answer : Answer) : Option EvaluationResult :=
  match parseQueryName answer.name with
  | some (.policy, suffix) => (QueryNames.parsePolicyEvaluationIdentity suffix).map (fun identity => {
      policyID := identity.1
      queryHash := String.ofList identity.2.1
      revision := identity.2.2.1
      sequence := identity.2.2.2
      status :=
        match DynamicLabels.rowPresenceResult answer.status answer.rowList with
        | some matched => if matched = true then .pass else .fail
        | none => .error
      error := if answer.ok = true then "" else answer.message })
  | _ => none

def labelResult (answer : Answer) : Option LabelResult :=
  handleLabelResult answer.name answer.status answer.rowList

/-- What a result does at once. -/
def handleResult (w : World) (answer : Answer) : Except Fault World :=
  match answer.detail with
  | some name => if answer.ok = true then ingestDetail server w name answer.rowList else .ok w
  | none =>
    match liveResult server answer with
    | some r => recordLiveResult server w r
    | none => .ok w

/-- Where an error ended the write. -/
inductive Refusal where
  | result (fault : Fault)
  | policies (fault : Fault)
  | software (fault : Fault)
  | munki (fault : Fault)
  | labels (fault : Fault)
  deriving DecidableEq, Repr

/-- The results up to the first error. -/
def handleResults (w : World) : List Answer → World × Option Fault
  | [] => (w, none)
  | answer :: answers =>
    match handleResult server w answer with
    | .error fault => (w, some fault)
    | .ok w' => handleResults w' answers

/-- `pass.results[suffix]`. -/
def resultOf (answers : List Answer) (name : DetailName) : Option Answer :=
  answers.find? (fun answer => answer.detail == some name)

def succeeded (answers : List Answer) (name : DetailName) : Bool := (resultOf answers name).any Answer.ok

def queryRows (answers : List Answer) (name : DetailName) : List Row :=
  if succeeded answers name = true then ((resultOf answers name).map Answer.rowList).getD [] else []

/-- The rows of the successful software queries by their key. -/
def rowsByKey (answers : List Answer) (key : String) : List Row :=
  ((DetailName.all.find? (fun name => name.text == key)).map (queryRows answers)).getD []

def softwareEntries (answers : List Answer) : List HostSoftwareEntry :=
  parseSoftwareRows (softwareRows (rowsByKey answers))
    (softwareEnrichmentByPath (queryRows answers .softwareMacOSSignature)
      (queryRows answers .softwareMacOSExecutableHash))

def ingestSoftware (w : World) (answers : List Answer) : Except Fault World :=
  if succeeded answers .softwareMacOS = true then replaceHostSoftware server w (softwareEntries answers) else .ok w

def allSucceeded (answers : List Answer) : Bool :=
  DetailName.all.all (fun name => name.optional || (resultOf answers name).all Answer.ok)

def sawEveryRequiredDetailQuery (answers : List Answer) : Bool :=
  DetailName.all.all (fun name => name.optional || succeeded answers name)

def markFresh (w : World) (answers : List Answer) : World :=
  if (allSucceeded answers && sawEveryRequiredDetailQuery answers) = true then markInventoryFresh server w else w

def sawKnownDetailResult (answers : List Answer) : Bool := answers.any (fun answer => answer.detail.isSome)

/-- `collectionAuthoritative`, for a pass with some detail result. -/
def collectionAuthoritative (answers : List Answer) : Bool :=
  ((resultOf answers .munkiInfo).isNone && (resultOf answers .munkiInstalls).isNone) ||
    (succeeded answers .munkiInfo && succeeded answers .munkiInstalls)

def munkiReport (answers : List Answer) : Option (HostObservation × List ItemObservation) :=
  (hostStatusFromInfoRows (queryRows answers .munkiInfo)).map (fun observation =>
    (observation, itemsFromInstallRows (queryRows answers .munkiInstalls)))

def finalizeMunkiCollection (w : World) (answers : List Answer) : Except Fault World :=
  if sawKnownDetailResult answers = true ∧ collectionAuthoritative answers = true then
    applyCollection server w (munkiReport answers)
  else .ok w

def finalizeDetailPass (w : World) (answers : List Answer) : World × Option Refusal :=
  match ingestSoftware server w answers with
  | .error fault => (w, some (.software fault))
  | .ok w =>
    match finalizeMunkiCollection server (markFresh server w answers) answers with
    | .error fault => (markFresh server w answers, some (.munki fault))
    | .ok w => (w, none)

def finalizeLabelPass (w : World) (answers : List Answer) : World × Option Refusal :=
  match setDynamicMemberships server w (answers.filterMap labelResult) with
  | .error fault => (w, some (.labels fault))
  | .ok w => (w, none)

/-- The tables after the write, and the error that it returns. -/
def dispatchWriteResults (w : World) (answers : List Answer) : World × Option Refusal :=
  match handleResults server w answers with
  | (w, some fault) => (w, some (.result fault))
  | (w, none) =>
    match recordEvaluations server w (answers.filterMap policyResult) with
    | .error fault => (w, some (.policies fault))
    | .ok w =>
      match finalizeDetailPass server w answers with
      | (w, some refusal) => (w, some refusal)
      | (w, none) => finalizeLabelPass server w answers

end DetailStore
