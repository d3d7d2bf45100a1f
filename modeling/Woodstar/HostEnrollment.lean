import Woodstar.KeyedUpserts
import Woodstar.LabelModel
import Woodstar.Runs

/-!
# Enrolled hosts

`internal/hosts`: the statements that create a host, refresh it, give it a device
token and delete it, with the unique indexes and checks of its table. Times of
writing and heartbeat rows are left out.
-/
namespace HostEnrollment

open KeyedRows (Table)
open KeyedUpserts (draw)
open LabelModel (LabelMembershipType LabelType)
open Primitives (Fault isText)

structure HostCPU where
  architecture : String := ""
  subtype : String := ""
  brand : String := ""
  logicalCores : Int := 0
  physicalCores : Int := 0
  deriving DecidableEq, Repr

structure HostHardware where
  uuid : String := ""
  serial : String := ""
  modelIdentifier : String := ""
  vendor : String := ""
  cpu : HostCPU := {}
  memoryBytes : Int := 0
  deriving DecidableEq, Repr

structure HostOS where
  name : String := ""
  version : String := ""
  build : String := ""
  platform : String := ""
  kernelVersion : String := ""
  deriving DecidableEq, Repr

structure HostBootVolume where
  availableBytes : Option Int := none
  totalBytes : Option Int := none
  deriving DecidableEq, Repr

structure InventoryNetwork where
  primaryIP : String := ""
  primaryMAC : String := ""
  deriving DecidableEq, Repr

structure HostOsqueryAgent where
  version : String := ""
  distributedIntervalSeconds : Option Int := none
  configRefreshSeconds : Option Int := none
  deriving DecidableEq, Repr

structure HostOrbitAgent where
  version : String := ""
  scriptsEnabled : Option Bool := none
  deriving DecidableEq, Repr

structure HostAgents where
  osquery : HostOsqueryAgent := {}
  orbit : HostOrbitAgent := {}
  deriving DecidableEq, Repr

structure InventoryUpdate where
  hostname : String := ""
  computerName : String := ""
  hardware : HostHardware := {}
  os : HostOS := {}
  bootVolume : HostBootVolume := {}
  network : InventoryNetwork := {}
  agents : HostAgents := {}
  lastRestartedAt : Option Int := none
  orbitNodeKey : String := ""
  osqueryNodeKey : String := ""
  deriving DecidableEq, Repr

structure HostRow where
  hardwareUUID : String
  displayName : String := ""
  hostname : String := ""
  computerName : String := ""
  hardwareSerial : String := ""
  hardwareModelIdentifier : String := ""
  hardwareVendor : String := ""
  osName : String := ""
  osVersion : String := ""
  osBuild : String := ""
  osPlatform : String := ""
  osqueryVersion : String := ""
  orbitVersion : String := ""
  orbitScriptsEnabled : Option Bool := none
  orbitNodeKey : String := ""
  orbitDeviceAuthToken : String := ""
  osqueryNodeKey : String := ""
  enrollmentAgent : String := ""
  cpuType : String := ""
  cpuSubtype : String := ""
  cpuBrand : String := ""
  cpuLogicalCores : Int := 0
  cpuPhysicalCores : Int := 0
  memoryBytes : Int := 0
  osKernelVersion : String := ""
  lastRestartedAt : Option Int := none
  bootVolumeAvailableBytes : Option Int := none
  bootVolumeTotalBytes : Option Int := none
  primaryIP : Option String := none
  primaryMAC : String := ""
  osqueryDistributedIntervalSeconds : Option Int := none
  osqueryConfigRefreshSeconds : Option Int := none
  inventoryQueryHash : String := ""
  inventoryUpdatedAt : Option Int := none
  deriving DecidableEq, Repr

structure Label where
  builtinKey : Option String
  labelType : LabelType
  labelMembershipType : LabelMembershipType
  deriving DecidableEq, Repr

/-- A row of `members` has the label first. -/
structure Db where
  hosts : Table HostRow := Table.empty
  labels : List (Int × Label) := []
  members : List (Int × Int) := []

def builtinKeyAllHosts : String := "all-hosts"

def Label.isAllHosts (label : Label) : Bool :=
  label.builtinKey == some builtinKeyAllHosts && label.labelType == .builtin &&
    label.labelMembershipType == .manual

/-- The unique index of a column that may be empty. -/
def sameValue (column : HostRow → String) (a b : HostRow) : Bool :=
  column a == column b && column a != ""

/-- Two rows that some unique index keeps apart. -/
def HostRow.clashes (a b : HostRow) : Bool :=
  a.hardwareUUID == b.hardwareUUID || sameValue HostRow.orbitNodeKey a b ||
    sameValue HostRow.orbitDeviceAuthToken a b || sameValue HostRow.osqueryNodeKey a b ||
    sameValue HostRow.hardwareSerial a b

def isLowerHex (c : Char) : Bool :=
  (decide ('0' ≤ c) && decide (c ≤ '9')) || (decide ('a' ≤ c) && decide (c ≤ 'f'))

/-- `hosts_orbit_device_auth_token_format`. -/
def tokenFormat (token : String) : Bool :=
  token == "" || (token.toList.length == 36 && token.toList.zipIdx.all (fun (c, i) =>
    if i = 8 ∨ i = 13 ∨ i = 18 ∨ i = 23 then c == '-' else isLowerHex c))

/-- The constraints that the table holds the row to under this id. -/
def Db.fits (db : Db) (id : Int) (row : HostRow) : Bool :=
  tokenFormat row.orbitDeviceAuthToken &&
    db.hosts.ids.all (fun other => other == id || (db.hosts.row other).all (fun held => !held.clashes row))

def Db.find (db : Db) (p : HostRow → Bool) : Option (Int × HostRow) :=
  db.hosts.ids.findSome? (fun id => ((db.hosts.row id).filter p).map (fun row => (id, row)))

def Db.allHosts (db : Db) : List Int :=
  (db.labels.filter (fun label => label.2.isAllHosts)).map Prod.fst

def notText {α : Type} : Except Fault α := .error (.database "character_not_in_repertoire")

/-- A unique index refuses the row: outside the setting of a token, the token is blank or a stored
one, which has the format. -/
def violated {α : Type} : Except Fault α := .error (.database "unique_violation")

/-- `postgres.MutationError` for a token that is refused. The CHECK comes before the unique index. -/
def tokenFault (token : String) : Fault :=
  if tokenFormat token = true then .alreadyExists
  else .invalidInput "hosts_orbit_device_auth_token_format"

/-- The name that the API shows for the host. -/
def inventoryDisplayName (hardwareUUID hostname computerName : String) : String :=
  if computerName ≠ "" then computerName else if hostname ≠ "" then hostname else hardwareUUID

/-- `COALESCE(NULLIF(reported, ''), stored)`. -/
def keepText (reported stored : String) : String := if reported = "" then stored else reported

def orbitEnrollRow (update : InventoryUpdate) : HostRow where
  hardwareUUID := update.hardware.uuid
  displayName := inventoryDisplayName update.hardware.uuid update.hostname update.computerName
  hostname := update.hostname
  computerName := update.computerName
  hardwareSerial := update.hardware.serial
  hardwareModelIdentifier := update.hardware.modelIdentifier
  orbitNodeKey := update.orbitNodeKey
  enrollmentAgent := "orbit"

/-- DO UPDATE of the Orbit enrollment. -/
def orbitReenroll (excluded stored : HostRow) : HostRow :=
  { stored with
    displayName := excluded.displayName
    hostname := excluded.hostname
    computerName := excluded.computerName
    hardwareSerial := excluded.hardwareSerial
    hardwareModelIdentifier := excluded.hardwareModelIdentifier
    orbitNodeKey := excluded.orbitNodeKey
    orbitDeviceAuthToken := ""
    enrollmentAgent := excluded.enrollmentAgent }

def osqueryEnrollRow (update : InventoryUpdate) : HostRow where
  hardwareUUID := update.hardware.uuid
  displayName := inventoryDisplayName update.hardware.uuid update.hostname update.computerName
  hostname := update.hostname
  computerName := update.computerName
  hardwareSerial := update.hardware.serial
  hardwareModelIdentifier := update.hardware.modelIdentifier
  osVersion := update.os.version
  osName := update.os.name
  osBuild := update.os.build
  osPlatform := update.os.platform
  osqueryVersion := update.agents.osquery.version
  orbitVersion := update.agents.orbit.version
  orbitScriptsEnabled := update.agents.orbit.scriptsEnabled
  osqueryNodeKey := update.osqueryNodeKey
  enrollmentAgent := "osquery"
  cpuType := update.hardware.cpu.architecture
  cpuSubtype := update.hardware.cpu.subtype
  cpuBrand := update.hardware.cpu.brand
  cpuLogicalCores := update.hardware.cpu.logicalCores
  cpuPhysicalCores := update.hardware.cpu.physicalCores
  memoryBytes := update.hardware.memoryBytes
  hardwareVendor := update.hardware.vendor
  osKernelVersion := update.os.kernelVersion

/-- DO UPDATE of the osquery enrollment. -/
def osqueryReenroll (excluded stored : HostRow) : HostRow :=
  { stored with
    displayName := excluded.displayName
    hostname := excluded.hostname
    computerName := excluded.computerName
    hardwareSerial := excluded.hardwareSerial
    hardwareModelIdentifier := excluded.hardwareModelIdentifier
    osVersion := excluded.osVersion
    osName := keepText excluded.osName stored.osName
    osBuild := keepText excluded.osBuild stored.osBuild
    osPlatform := keepText excluded.osPlatform stored.osPlatform
    osqueryVersion := excluded.osqueryVersion
    orbitVersion := keepText excluded.orbitVersion stored.orbitVersion
    orbitScriptsEnabled := excluded.orbitScriptsEnabled.or stored.orbitScriptsEnabled
    osqueryNodeKey := excluded.osqueryNodeKey
    enrollmentAgent := excluded.enrollmentAgent
    cpuType := excluded.cpuType
    cpuSubtype := excluded.cpuSubtype
    cpuBrand := excluded.cpuBrand
    cpuLogicalCores := excluded.cpuLogicalCores
    cpuPhysicalCores := excluded.cpuPhysicalCores
    memoryBytes := excluded.memoryBytes
    hardwareVendor := excluded.hardwareVendor
    osKernelVersion := excluded.osKernelVersion
    inventoryUpdatedAt := none
    inventoryQueryHash := "" }

/-- The text parameters of an enrollment. -/
def HostRow.texts (row : HostRow) : List String :=
  [row.hardwareUUID, row.displayName, row.hostname, row.computerName, row.hardwareSerial,
    row.hardwareModelIdentifier, row.osName, row.osVersion, row.osBuild, row.osPlatform, row.osqueryVersion,
    row.orbitVersion, row.orbitNodeKey, row.osqueryNodeKey, row.cpuType, row.cpuSubtype, row.cpuBrand,
    row.hardwareVendor, row.osKernelVersion]

/-- INSERT … ON CONFLICT (hardware_uuid). Both ways draw an id from the sequence. -/
def Db.upsert (db : Db) (excluded : HostRow) (onConflict : HostRow → HostRow) : Except Fault (Int × Db) :=
  match db.find (fun row => row.hardwareUUID == excluded.hardwareUUID) with
  | none =>
    if db.fits db.hosts.next excluded = true then
      .ok (db.hosts.next, { db with hosts := db.hosts.insert excluded })
    else violated
  | some (id, stored) =>
    if db.fits id (onConflict stored) = true then
      .ok (id, { db with hosts := (draw db.hosts).modify id (fun _ => onConflict stored) })
    else violated

def Db.joinAllHosts (db : Db) (hostID : Int) : Db :=
  { db with members := db.allHosts.map (fun labelID => (labelID, hostID)) ∪ db.members }

/-- The flag says whether the heartbeat of the contact is accepted. -/
def upsertOnEnroll (db : Db) (excluded : HostRow) (onConflict : HostRow → HostRow) (contact : Bool) :
    Except Fault Int × Db :=
  if excluded.texts.all isText = true then
    match db.upsert excluded onConflict with
    | .error fault => (.error fault, { db with hosts := draw db.hosts })
    | .ok (id, written) =>
      if contact = true then (.ok id, written.joinAllHosts id)
      else (.error (.invalidInput "remote IP"), { db with hosts := draw db.hosts })
  else (notText, db)

def upsertOnOrbitEnroll (db : Db) (update : InventoryUpdate) (contact : Bool) : Except Fault Int × Db :=
  upsertOnEnroll db (orbitEnrollRow update) (orbitReenroll (orbitEnrollRow update)) contact

def upsertOnOsqueryEnroll (db : Db) (update : InventoryUpdate) (contact : Bool) : Except Fault Int × Db :=
  upsertOnEnroll db (osqueryEnrollRow update) (osqueryReenroll (osqueryEnrollRow update)) contact

/-- `CASE WHEN reported > 0 THEN reported ELSE stored END`. -/
def keepCount (reported stored : Int) : Int := if 0 < reported then reported else stored

/-- The address is the parsed one. -/
def HostRow.applyInventory (row : HostRow) (update : InventoryUpdate) (address : Option String) : HostRow :=
  { row with
    hostname := keepText update.hostname row.hostname
    computerName := keepText update.computerName row.computerName
    displayName := keepText update.computerName (keepText update.hostname row.displayName)
    hardwareSerial := keepText update.hardware.serial row.hardwareSerial
    hardwareModelIdentifier := keepText update.hardware.modelIdentifier row.hardwareModelIdentifier
    osName := keepText update.os.name row.osName
    osVersion := keepText update.os.version row.osVersion
    osBuild := keepText update.os.build row.osBuild
    osPlatform := keepText update.os.platform row.osPlatform
    osqueryVersion := keepText update.agents.osquery.version row.osqueryVersion
    orbitVersion := keepText update.agents.orbit.version row.orbitVersion
    orbitScriptsEnabled := update.agents.orbit.scriptsEnabled.or row.orbitScriptsEnabled
    cpuType := keepText update.hardware.cpu.architecture row.cpuType
    cpuSubtype := keepText update.hardware.cpu.subtype row.cpuSubtype
    cpuBrand := keepText update.hardware.cpu.brand row.cpuBrand
    cpuLogicalCores := keepCount update.hardware.cpu.logicalCores row.cpuLogicalCores
    cpuPhysicalCores := keepCount update.hardware.cpu.physicalCores row.cpuPhysicalCores
    memoryBytes := keepCount update.hardware.memoryBytes row.memoryBytes
    hardwareVendor := keepText update.hardware.vendor row.hardwareVendor
    osKernelVersion := keepText update.os.kernelVersion row.osKernelVersion
    lastRestartedAt := update.lastRestartedAt.or row.lastRestartedAt
    bootVolumeAvailableBytes := update.bootVolume.availableBytes.or row.bootVolumeAvailableBytes
    bootVolumeTotalBytes := update.bootVolume.totalBytes.or row.bootVolumeTotalBytes
    primaryIP := address.or row.primaryIP
    primaryMAC := keepText update.network.primaryMAC row.primaryMAC
    osqueryDistributedIntervalSeconds :=
      update.agents.osquery.distributedIntervalSeconds.or row.osqueryDistributedIntervalSeconds
    osqueryConfigRefreshSeconds :=
      update.agents.osquery.configRefreshSeconds.or row.osqueryConfigRefreshSeconds }

def InventoryUpdate.texts (update : InventoryUpdate) : List String :=
  [update.hostname, update.computerName, update.hardware.serial, update.hardware.modelIdentifier,
    update.os.name, update.os.version, update.os.build, update.os.platform, update.agents.osquery.version,
    update.agents.orbit.version, update.hardware.cpu.architecture, update.hardware.cpu.subtype,
    update.hardware.cpu.brand, update.hardware.vendor, update.os.kernelVersion, update.network.primaryIP,
    update.network.primaryMAC]

/-- `NULLIF(address, '')::inet`, where `inet` reads an address. -/
def inetOf (inet : String → Option String) (address : String) : Except Fault (Option String) :=
  if address = "" then .ok none
  else match inet address with
    | some parsed => .ok (some parsed)
    | none => .error (.database "invalid_text_representation")

/-- The row after an update that the table accepts. -/
def Db.inventoried (db : Db) (inet : String → Option String) (id : Int) (row : HostRow)
    (update : InventoryUpdate) : Except Fault HostRow :=
  if update.texts.all isText = true then
    match inetOf inet update.network.primaryIP with
    | .error fault => .error fault
    | .ok address =>
      if db.fits id (row.applyInventory update address) = true then .ok (row.applyInventory update address)
      else violated
  else notText

/-- No row is no error. -/
def applyInventory (inet : String → Option String) (db : Db) (id : Int) (update : InventoryUpdate) :
    Except Fault Unit × Db :=
  match db.hosts.row id with
  | none => (if update.texts.all isText = true then .ok () else notText, db)
  | some row =>
    match db.inventoried inet id row update with
    | .error fault => (.error fault, db)
    | .ok written => (.ok (), { db with hosts := db.hosts.modify id (fun _ => written) })

inductive Agent where
  | orbit | osquery
  deriving DecidableEq, Repr

def Agent.nodeKey : Agent → HostRow → String
  | .orbit => HostRow.orbitNodeKey
  | .osquery => HostRow.osqueryNodeKey

def getByIdentity (db : Db) (column : HostRow → String) (value : String) : Option (Int × HostRow) :=
  db.find (fun row => column row == value && column row != "")

/-- `GetByOrbitNodeKey` and `GetByOsqueryNodeKey`. -/
def getByNodeKey (db : Db) (agent : Agent) (nodeKey : String) : Option (Int × HostRow) :=
  getByIdentity db agent.nodeKey nodeKey

def validateOrbitDeviceAuthToken (db : Db) (token : String) : Option (Int × HostRow) :=
  getByIdentity db HostRow.orbitDeviceAuthToken token

def setOrbitDeviceAuthToken (db : Db) (nodeKey token : String) : Except Fault Unit × Db :=
  if [nodeKey, token].all isText = true then
    match getByNodeKey db .orbit nodeKey with
    | none => (.error .notFound, db)
    | some (id, row) =>
      if db.fits id { row with orbitDeviceAuthToken := token } = true then
        (.ok (), { db with hosts := db.hosts.modify id (fun _ => { row with orbitDeviceAuthToken := token }) })
      else (.error (tokenFault token), db)
  else (notText, db)

/-- The memberships go with the host. -/
def delete (db : Db) (id : Int) : Except Fault Unit × Db :=
  match db.hosts.row id with
  | none => (.error .notFound, db)
  | some _ => (.ok (), { db with
      hosts := db.hosts.erase id
      members := db.members.filter (fun member => decide (member.2 ≠ id)) })

inductive Event where
  | enrollOrbit (update : InventoryUpdate) (contact : Bool)
  | enrollOsquery (update : InventoryUpdate) (contact : Bool)
  | applyInventory (id : Int) (update : InventoryUpdate)
  | setToken (nodeKey token : String)
  | delete (id : Int)
  deriving DecidableEq, Repr

def step (inet : String → Option String) (db : Db) : Event → Db
  | .enrollOrbit update contact => (upsertOnOrbitEnroll db update contact).2
  | .enrollOsquery update contact => (upsertOnOsqueryEnroll db update contact).2
  | .applyInventory id update => (applyInventory inet db id update).2
  | .setToken nodeKey token => (setOrbitDeviceAuthToken db nodeKey token).2
  | .delete id => (delete db id).2

/-- The migrated tables before the first host. -/
structure Migrated where
  db : Db
  no_host : ∀ id, db.hosts.row id = none
  no_member : db.members = []
  all_hosts : ∃ id, db.allHosts = [id]

end HostEnrollment
