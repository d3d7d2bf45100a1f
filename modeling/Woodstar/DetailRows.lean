import Woodstar.CertificateNames
import Woodstar.CivilTimes
import Woodstar.GoNumbers
import Woodstar.HostEnrollment
import Woodstar.LexicalPaths
import Woodstar.LiveQueries
import Woodstar.SoftwarePruning

/-!
# Rows of the detail queries

`internal/osquery/ingest` and `internal/munki/ingest.go`: what the rows that a host sends
are read as. Times are nanoseconds of the Unix epoch.
-/
namespace DetailRows

open CertificateNames (CertificateName parseCertificateName)
open GoNumbers (checked clamped wrap64)
open HostEnrollment (InventoryUpdate)
open LiveQueries (Row)
open SoftwarePruning (HostSoftwareEntry SoftwareCodeSignature)

/-- The number that `strconv.ParseFloat` comes to. -/
inductive Double where
  | nan
  | infinite (negative : Bool)
  | finite (value : Rat)
  deriving DecidableEq

/-- `strconv.ParseFloat`, and `netip.ParseAddr` printed without the zone. -/
structure Readers where
  parseFloat64 : String → Option Double
  parseAddr : String → Option String

/-- A key that the row does not have reads as empty. -/
def field (row : Row) (name : String) : String := (row.lookup name).getD ""

/-- `strings.ReplaceAll(value, "\x00", "")`. -/
def normalizeString (value : String) : String := String.ofList (value.toList.filter (fun c => c.toNat != 0))

def text (row : Row) (name : String) : String := normalizeString (field row name)

def normalizeIP (readers : Readers) (value : String) : String :=
  (readers.parseAddr (Primitives.trimSpace (normalizeString value))).getD ""

def parseInt32 (value : String) : Int := clamped 32 value

def parseInt64 (value : String) : Int := clamped 64 value

def parseInt32Ptr (value : String) : Option Int := checked 32 value

def parsePositiveInt64Ptr (value : String) : Option Int := (checked 64 value).filter (fun n => decide (0 < n))

/-- `strconv.ParseBool`. -/
def parseBoolPtr (value : String) : Option Bool :=
  if value ∈ ["1", "t", "T", "TRUE", "true", "True"] then some true
  else if value ∈ ["0", "f", "F", "FALSE", "false", "False"] then some false
  else none

def parseBool (value : String) : Bool := ["1", "true", "t", "yes"].contains (Primitives.toLower value)

/-- One letter of an ASCII text without its case, as `strings.EqualFold` sees it. -/
def fold (c : Char) : Char := if c = 'ſ' then 's' else if c = '\u212A' then 'k' else c.toLower

/-- `strings.EqualFold` with an ASCII text. -/
def equalFold (value ascii : String) : Bool := value.toList.map fold == ascii.toList.map fold

/-- `time.Second`. -/
def timeSecond : Int := 1000000000

/-- Seconds from the first instant of year 1 to the Unix epoch. -/
def unixToInternal : Int := 62135596800

/-- `ext` counts seconds from year 1 in 64 bits. -/
structure Time where
  ext : Int
  nsec : Int
  deriving DecidableEq, Repr

/-- `t.UnixNano()` without its overflow. -/
def Time.instant (t : Time) : Int := wrap64 (t.ext - unixToInternal) * timeSecond + t.nsec

/-- `time.Unix`, where `nsec` may be negative. -/
def unixTime (sec nsec : Int) : Time where
  ext := wrap64 (sec + nsec / timeSecond + unixToInternal)
  nsec := nsec % timeSecond

/-- A fraction of a second of at most nine digits. -/
def parseUnixTimeParts (value : String) : Option (Int × Int) :=
  let secondsRaw := ((GoText.cut ['.'] value.toList).map Prod.fst).getD value.toList
  let fractionRaw := (((GoText.cut ['.'] value.toList).map Prod.snd).getD []).take 9
  (GoText.parseInt secondsRaw).bind (fun seconds =>
    if seconds ≤ 0 then none
    else if fractionRaw = [] then some (seconds, 0)
    else (GoText.parseInt (fractionRaw ++ List.replicate (9 - fractionRaw.length) '0')).map
      (fun nanos => (seconds, nanos)))

def parseUnixTime (value : String) : Option Time :=
  if value = "" ∨ value = "0" ∨ equalFold value "null" = true then none
  else (parseUnixTimeParts value).map (fun parts => unixTime parts.1 parts.2)

/-- Nanoseconds of `-time.Duration(seconds) * time.Second`. -/
def negatedUptime (seconds : Int) : Int := wrap64 (-seconds * timeSecond)

def dottedVersion (row : Row) : String :=
  String.intercalate "." ((["major", "minor", "patch"].map (text row)).filter (fun value => value ≠ ""))

def versionString (row : Row) : String := if text row "version" = "" then dottedVersion row else text row "version"

def readSystemInfo (row : Row) (update : InventoryUpdate) : InventoryUpdate :=
  { update with
    hostname := text row "hostname"
    computerName := text row "computer_name"
    hardware := {
      uuid := text row "uuid"
      serial := text row "hardware_serial"
      modelIdentifier := text row "hardware_model"
      vendor := text row "hardware_vendor"
      cpu := {
        architecture := text row "cpu_type"
        subtype := text row "cpu_subtype"
        brand := text row "cpu_brand"
        logicalCores := parseInt32 (text row "cpu_logical_cores")
        physicalCores := parseInt32 (text row "cpu_physical_cores") }
      memoryBytes := parseInt64 (text row "physical_memory") } }

def readOsqueryInfo (row : Row) (update : InventoryUpdate) : InventoryUpdate :=
  { update with agents := { update.agents with
      osquery := { update.agents.osquery with version := text row "version" } } }

def readOrbitInfo (row : Row) (update : InventoryUpdate) : InventoryUpdate :=
  { update with agents := { update.agents with
      orbit := {
        version := text row "version"
        scriptsEnabled := (row.lookup "scripts_enabled").bind (fun value => parseBoolPtr (normalizeString value)) } } }

def readOSVersion (row : Row) (update : InventoryUpdate) : InventoryUpdate :=
  { update with os := { update.os with
      name := text row "name"
      version := versionString row
      build := text row "build"
      platform := text row "platform" } }

def readPlatformInfo (row : Row) (update : InventoryUpdate) : InventoryUpdate :=
  { update with os := { update.os with kernelVersion := text row "extra" } }

def readUptime (now : Int) (row : Row) (update : InventoryUpdate) : InventoryUpdate :=
  match parsePositiveInt64Ptr (text row "total_seconds") with
  | some seconds => { update with lastRestartedAt := some (now + negatedUptime seconds) }
  | none => update

def readRootDisk (row : Row) (update : InventoryUpdate) : InventoryUpdate :=
  let total := parseInt64 (text row "bytes_total")
  let available := parseInt64 (text row "bytes_available")
  if 0 < total then
    { update with bootVolume := {
        totalBytes := some total
        availableBytes := if 0 ≤ available then some available else update.bootVolume.availableBytes } }
  else update

def readPrimaryInterface (readers : Readers) (row : Row) (update : InventoryUpdate) : InventoryUpdate :=
  { update with network := {
      primaryIP := normalizeIP readers (field row "primary_ip")
      primaryMAC := text row "primary_mac" } }

def readSection (details : String → Option Row) (name : String) (part : Row → InventoryUpdate → InventoryUpdate)
    (update : InventoryUpdate) : InventoryUpdate :=
  match details name with
  | some row => part row update
  | none => update

/-- One section after the other. -/
def parseHostDetails (readers : Readers) (now : Int) (details : String → Option Row) : InventoryUpdate :=
  let update := readSection details "system_info" readSystemInfo {}
  let update := readSection details "osquery_info" readOsqueryInfo update
  let update := readSection details "orbit_info" readOrbitInfo update
  let update := readSection details "os_version" readOSVersion update
  let update := readSection details "platform_info" readPlatformInfo update
  let update := readSection details "uptime" (readUptime now) update
  let update := readSection details "root_disk" readRootDisk update
  readSection details "primary_interface" (readPrimaryInterface readers) update

def canonicalHostDetailName (name : String) : String :=
  if name = "root_disk_darwin" then "root_disk"
  else if name = "primary_interface_unix" then "primary_interface"
  else name

def readFlag (update : InventoryUpdate) (row : Row) : InventoryUpdate :=
  if field row "name" = "distributed_interval" then
    { update with agents := { update.agents with osquery := { update.agents.osquery with
        distributedIntervalSeconds := parseInt32Ptr (field row "value") } } }
  else if field row "name" = "config_tls_refresh" then
    { update with agents := { update.agents with osquery := { update.agents.osquery with
        configRefreshSeconds := parseInt32Ptr (field row "value") } } }
  else update

/-- The last row of a flag counts. -/
def parseOsqueryFlags (rows : List Row) : InventoryUpdate := rows.foldl readFlag {}

structure HostUser where
  uid : String
  username : String
  type : String
  description : String
  directory : String
  shell : String
  deriving DecidableEq, Repr

def parseHostUsers (rows : List Row) : List HostUser :=
  rows.filterMap (fun row =>
    if field row "username" = "" ∨ field row "uid" = "" then none
    else some {
      uid := field row "uid"
      username := field row "username"
      type := field row "type"
      description := field row "description"
      directory := field row "directory"
      shell := field row "shell" })

structure HostBattery where
  serialNumber : String
  manufacturer : String
  model : String
  chemistry : String
  cycleCount : Option Int
  health : String
  designedCapacity : Option Int
  maxCapacity : Option Int
  currentCapacity : Option Int
  percentRemaining : Option Double
  deriving DecidableEq

def parseHostBatteries (readers : Readers) (rows : List Row) : List HostBattery :=
  rows.filterMap (fun row =>
    if field row "serial_number" = "" then none
    else some {
      serialNumber := field row "serial_number"
      manufacturer := field row "manufacturer"
      model := field row "model"
      chemistry := field row "chemistry"
      cycleCount := parseInt32Ptr (field row "cycle_count")
      health := field row "health"
      designedCapacity := parseInt32Ptr (field row "designed_capacity")
      maxCapacity := parseInt32Ptr (field row "max_capacity")
      currentCapacity := parseInt32Ptr (field row "current_capacity")
      percentRemaining := readers.parseFloat64 (field row "percent_remaining") })

structure HostCertificate where
  sha1 : String
  commonName : String
  subject : CertificateName
  issuer : CertificateName
  keyAlgorithm : String
  keyStrength : Option Int
  keyUsage : String
  signingAlgorithm : String
  notValidAfter : Option Time
  notValidBefore : Option Time
  serial : String
  certificateAuthority : Bool
  source : String
  username : String
  path : String
  deriving DecidableEq

def certificateSource (row : Row) : String :=
  if field row "source" ≠ "" then field row "source"
  else if equalFold (field row "username") "SYSTEM" = true then "system"
  else "user"

def usersPrefix : List Char := "/Users/".toList

def loginKeychain : List Char := "/Library/Keychains/login.keychain-db".toList

def trimSuffix (suffix s : List Char) : List Char := if suffix <:+ s then s.take (s.length - suffix.length) else s

def certificateUsername (row : Row) : String :=
  if field row "username" ≠ "" ∧ equalFold (field row "username") "SYSTEM" = false then field row "username"
  else
    let path := LexicalPaths.clean (field row "path").toList
    if usersPrefix <+: path ∧ loginKeychain <:+ path then
      String.ofList (trimSuffix loginKeychain (path.drop usersPrefix.length))
    else ""

/-- Without a name of its own a certificate has that of its subject. -/
def certificateCommonName (row : Row) : String :=
  if field row "common_name" = "" then
    String.ofList (parseCertificateName (field row "subject").toList).commonName
  else field row "common_name"

def parseHostCertificates (rows : List Row) : List HostCertificate :=
  rows.filterMap (fun row =>
    if field row "sha1" = "" then none
    else some {
      sha1 := field row "sha1"
      commonName := certificateCommonName row
      subject := parseCertificateName (field row "subject").toList
      issuer := parseCertificateName (field row "issuer").toList
      keyAlgorithm := field row "key_algorithm"
      keyStrength := parseInt32Ptr (field row "key_strength")
      keyUsage := field row "key_usage"
      signingAlgorithm := field row "signing_algorithm"
      notValidAfter := parseUnixTime (field row "not_valid_after")
      notValidBefore := parseUnixTime (field row "not_valid_before")
      serial := field row "serial"
      certificateAuthority := parseBool (field row "ca")
      source := certificateSource row
      username := certificateUsername row
      path := field row "path" })

structure SoftwarePathEnrichment where
  signature : Option SoftwareCodeSignature := none
  executableSHA256 : String := ""
  executablePath : String := ""
  deriving DecidableEq, Repr

def readSignature (row : Row) : SoftwareCodeSignature where
  signed := parseBool (field row "signed")
  identifier := field row "identifier"
  authority := field row "signing_authority"
  teamIdentifier := field row "team_identifier"
  cdHash := field row "cdhash"

/-- The last row of a path counts. -/
def softwareEnrichmentByPath (signatureRows executableRows : List Row) (path : String) : SoftwarePathEnrichment :=
  let signed := signatureRows.reverse.find? (fun row => field row "path" == path && path != "")
  let executable := executableRows.reverse.find? (fun row => field row "path" == path && path != "")
  { signature := signed.map readSignature
    executableSHA256 := (executable.map (fun row => field row "executable_sha256")).getD ""
    executablePath := (executable.map (fun row => field row "executable_path")).getD "" }

def parseSoftwareRow (enrichment : String → SoftwarePathEnrichment) (row : Row) : HostSoftwareEntry where
  name := field row "name"
  version := field row "version"
  source := field row "source"
  bundleIdentifier := field row "bundle_identifier"
  extensionID := field row "extension_id"
  extensionFor := field row "extension_for"
  vendor := field row "vendor"
  arch := field row "arch"
  release := field row "release"
  installedPath := field row "installed_path"
  signature := (enrichment (field row "installed_path")).signature
  executableSHA256 := (enrichment (field row "installed_path")).executableSHA256
  executablePath := (enrichment (field row "installed_path")).executablePath
  lastOpenedAt := (parseUnixTime (field row "last_opened_at")).map Time.instant

def parseSoftwareRows (rows : List Row) (enrichment : String → SoftwarePathEnrichment) : List HostSoftwareEntry :=
  (rows.filter (fun row => field row "name" ≠ "")).map (parseSoftwareRow enrichment)

def softwareRowKeys : List String :=
  ["software_macos", "software_vscode_extensions", "software_jetbrains_plugins", "software_go_binaries",
    "software_python_packages"]

def softwareRows (queryRows : String → List Row) : List Row := softwareRowKeys.flatMap queryRows

structure HostObservation where
  version : String
  manifestName : String
  errors : List String
  warnings : List String
  problemInstalls : List String
  runStartedAt : Option Int
  runEndedAt : Option Int
  deriving DecidableEq, Repr

structure ItemObservation where
  name : String
  displayName : String
  installed : Bool
  installedVersion : String
  targetVersion : String
  deriving DecidableEq, Repr

def splitMunkiList (value : String) : List String :=
  if value = "" then [] else (value.toList.splitOn ';').map String.ofList

def digit (c : Char) : Int := c.toNat - '0'.toNat

/-- Two digits, or one if that is not fixed. -/
def getnum (fixed : Bool) : List Char → Option (Int × List Char)
  | c :: rest =>
    if c.isDigit = true then
      match rest with
      | d :: rest' =>
        if d.isDigit = true then some (10 * digit c + digit d, rest')
        else if fixed = true then none else some (digit c, rest)
      | [] => if fixed = true then none else some (digit c, [])
    else none
  | [] => none

/-- A blank of a layout stands for any number of them. -/
def skip (c : Char) (value : List Char) : Option (List Char) :=
  if c = ' ' then if value = [] ∨ value.head? = some ' ' then some (value.dropWhile (· == ' ')) else none
  else if value.head? = some c then some value.tail else none

def getYear (value : List Char) : Option (Int × List Char) :=
  if (value.take 4).length = 4 ∧ (value.take 4).all Char.isDigit = true then
    some ((Nat.ofDigitChars 10 (value.take 4) 0 : Nat), value.drop 4)
  else none

/-- The fraction of a second that a layout need not have. -/
def getFraction (value : List Char) : Int × List Char :=
  match value with
  | c :: rest =>
    let digits := rest.takeWhile Char.isDigit
    if (c = '.' ∨ c = ',') ∧ digits ≠ [] then
      ((Nat.ofDigitChars 10 (digits.take 9) 0 : Nat) * 10 ^ (9 - (digits.take 9).length), rest.drop digits.length)
    else (0, value)
  | [] => (0, value)

/-- Seconds east of UTC. -/
def getOffset (value : List Char) : Option (Int × List Char) :=
  match value with
  | sign :: rest => do
    let (hours, rest) ← getnum true rest
    let (minutes, rest) ← getnum true rest
    if hours > 24 ∨ minutes > 60 then none
    else if sign = '+' then some ((hours * 60 + minutes) * 60, rest)
    else if sign = '-' then some (-((hours * 60 + minutes) * 60), rest)
    else none
  | [] => none

structure Civil where
  year : Int
  month : Int
  day : Int
  hour : Int
  minute : Int
  second : Int
  nanosecond : Int
  offset : Int
  deriving DecidableEq, Repr

/-- The ranges that `time.Parse` checks. -/
structure Civil.Valid (t : Civil) : Prop where
  month : 1 ≤ t.month ∧ t.month ≤ 12
  day : 1 ≤ t.day ∧ t.day ≤ CivilTimes.daysIn t.month t.year
  hour : t.hour < 24
  minute : t.minute < 60
  second : t.second < 60

instance decidableValid (t : Civil) : Decidable t.Valid :=
  decidable_of_iff ((1 ≤ t.month ∧ t.month ≤ 12) ∧ (1 ≤ t.day ∧ t.day ≤ CivilTimes.daysIn t.month t.year) ∧
      t.hour < 24 ∧ t.minute < 60 ∧ t.second < 60)
    ⟨fun h => ⟨h.1, h.2.1, h.2.2.1, h.2.2.2.1, h.2.2.2.2⟩, fun h => ⟨h.month, h.day, h.hour, h.minute, h.second⟩⟩

def Civil.instant (t : Civil) : Int :=
  (CivilTimes.unixDay t.year t.month t.day * 86400 + t.hour * 3600 + t.minute * 60 + t.second - t.offset) *
    timeSecond + t.nanosecond

/-- The layout `2006-01-02 15:04:05 -0700`. -/
def readCivil (value : List Char) : Option Civil := do
  let (year, value) ← getYear value
  let value ← skip '-' value
  let (month, value) ← getnum true value
  let value ← skip '-' value
  let (day, value) ← getnum true value
  let value ← skip ' ' value
  let (hour, value) ← getnum false value
  let value ← skip ':' value
  let (minute, value) ← getnum true value
  let value ← skip ':' value
  let (second, value) ← getnum true value
  let (nanosecond, value) := getFraction value
  let value ← skip ' ' value
  let (offset, value) ← getOffset value
  if value = [] then some { year, month, day, hour, minute, second, nanosecond, offset } else none

def parseMunkiTime (value : String) : Option Int :=
  ((readCivil value.toList).filter (fun t => decide t.Valid)).map Civil.instant

def hostStatusFromInfoRows (rows : List Row) : Option HostObservation :=
  rows.head?.map (fun row => {
    version := field row "version"
    manifestName := field row "manifest_name"
    errors := splitMunkiList (field row "errors")
    warnings := splitMunkiList (field row "warnings")
    problemInstalls := splitMunkiList (field row "problem_installs")
    runStartedAt := parseMunkiTime (field row "start_time")
    runEndedAt := parseMunkiTime (field row "end_time") })

def itemsFromInstallRows (rows : List Row) : List ItemObservation :=
  rows.map (fun row => {
    name := field row "name"
    displayName := field row "display_name"
    installed := field row "installed" == "true"
    installedVersion := field row "installed_version"
    targetVersion := field row "version_to_install" })

example : parseMunkiTime "2024-02-29 23:59:59 +0100" = some 1709247599000000000 := by decide

end DetailRows
