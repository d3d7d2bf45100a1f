import Woodstar.DetailStore
import Woodstar.SoftwareSnapshots

/-!
# Values of the detail results

Which rows the store accepts: the values that the parsers make of them fit their columns,
and the table has room for the serial number.
-/
namespace DetailValues

open DetailRows
open CertificateNames (parseCertificateName)
open DetailStore
open GoNumbers (Fits wrap64)
open HostEnrollment (HostRow InventoryUpdate)
open KeyedRows (Table)
open LiveQueries (Row)
open Primitives (Fault isText)
open SoftwarePruning (HostSoftwareEntry stageSoftwareSnapshot)

theorem isText_empty : isText "" = true := rfl

theorem isText_normalizeString (value : String) : isText (normalizeString value) = true := by
  rw [isText, normalizeString, String.toList_ofList, List.all_eq_true]
  intro c hc
  exact (List.mem_filter.mp hc).2

theorem isText_text (row : Row) (name : String) : isText (text row name) = true := isText_normalizeString _

theorem isText_of_subset {s : String} {l : List Char} (hsub : l ⊆ s.toList) (h : isText s = true) :
    isText (String.ofList l) = true := by
  rw [isText, List.all_eq_true] at h ⊢
  intro c hc
  rw [String.toList_ofList] at hc
  exact h c (hsub hc)

theorem isText_intercalate {sep : String} {parts : List String} (hsep : isText sep = true)
    (hparts : ∀ part ∈ parts, isText part = true) : isText (String.intercalate sep parts) = true := by
  rw [isText, String.toList_intercalate, List.all_eq_true]
  intro c hc
  cases LexicalPaths.mem_intercalate hc with
  | inl hmem => exact List.all_eq_true.mp hsep c hmem
  | inr hmem =>
    obtain ⟨chars, hchars, hc⟩ := hmem
    obtain ⟨part, hpart, rfl⟩ := List.mem_map.mp hchars
    exact List.all_eq_true.mp (hparts part hpart) c hc

theorem isText_versionString (row : Row) : isText (versionString row) = true := by
  rw [versionString]
  split_ifs
  · apply isText_intercalate (by decide)
    intro part hpart
    obtain ⟨name, -, rfl⟩ := List.mem_map.mp (List.mem_filter.mp hpart).1
    exact isText_text row name
  · exact isText_text row "version"

theorem isText_normalizeIP (server : Server) (value : String) :
    isText (normalizeIP server.readers value) = true := by
  rw [normalizeIP]
  cases haddr : server.readers.parseAddr (Primitives.trimSpace (normalizeString value)) with
  | none => exact isText_empty
  | some address => exact server.addr_text _ _ haddr

/-- What the query writes of the host row. -/
def partOf (server : Server) : DetailName → Row → InventoryUpdate
  | .systemInfo => fun row => readSystemInfo row {}
  | .osqueryInfo => fun row => readOsqueryInfo row {}
  | .orbitInfo => fun row => readOrbitInfo row {}
  | .osVersion => fun row => readOSVersion row {}
  | .uptime => fun row => readUptime server.now row {}
  | .rootDiskDarwin => fun row => readRootDisk row {}
  | .primaryInterfaceUnix => fun row => readPrimaryInterface server.readers row {}
  | _ => fun _ => {}

theorem hostDetail_cons (server : Server) (name : DetailName) (row : Row) (rows : List Row) :
    hostDetail server name (row :: rows) = some (partOf server name row) := by
  cases name <;> simp [hostDetail, parseHostDetails, readSection, canonicalHostDetailName, DetailName.text, partOf]

theorem storableInt_checked (value : String) : storableInt (parseInt32Ptr value) = true := by
  rw [storableInt, parseInt32Ptr]
  cases h : GoNumbers.checked 32 value with
  | none => rfl
  | some n => exact decide_eq_true (GoNumbers.fits_checked h)

/-- A restart time is within 293 years of now. -/
theorem storableInstant_restart (server : Server) (seconds : Int) :
    storableInstant server (server.now + negatedUptime seconds) = true := by
  obtain ⟨hlow, hhigh⟩ := server.now_bounds
  obtain ⟨hlow', hhigh'⟩ := GoNumbers.wrap64_bounds (-seconds * timeSecond)
  rw [storableInstant, negatedUptime]
  apply server.years_kept
  · simp only [timeSecond] at *
    omega
  · simp only [timeSecond] at *
    omega

theorem fits_zero : Fits 32 0 ∧ Fits 64 0 := by decide

theorem storableUpdate_empty (server : Server) : storableUpdate server {} = true := by
  simp [storableUpdate, InventoryUpdate.texts, isText_empty, storableInt, fits_zero]

theorem storableUpdate_systemInfo (server : Server) (row : Row) :
    storableUpdate server (readSystemInfo row {}) = true := by
  simp [storableUpdate, readSystemInfo, InventoryUpdate.texts, isText_text, isText_empty, storableInt,
    parseInt32, parseInt64, GoNumbers.fits_clamped]

theorem storableUpdate_uptime (server : Server) (row : Row) :
    storableUpdate server (readUptime server.now row {}) = true := by
  rw [readUptime]
  cases parsePositiveInt64Ptr (text row "total_seconds") with
  | none => exact storableUpdate_empty server
  | some seconds =>
    simp [storableUpdate, InventoryUpdate.texts, isText_empty, storableInt, fits_zero, storableInstant_restart]

theorem storableUpdate_rootDisk (server : Server) (row : Row) :
    storableUpdate server (readRootDisk row {}) = true := by
  simp only [readRootDisk]
  split_ifs
  · simp [storableUpdate, InventoryUpdate.texts, isText_empty, storableInt, fits_zero, parseInt64,
      GoNumbers.fits_clamped]
  · simp [storableUpdate, InventoryUpdate.texts, isText_empty, storableInt, fits_zero, parseInt64,
      GoNumbers.fits_clamped]
  · exact storableUpdate_empty server

theorem storableUpdate_partOf (server : Server) (name : DetailName) (row : Row) :
    storableUpdate server (partOf server name row) = true := by
  cases name with
  | systemInfo => exact storableUpdate_systemInfo server row
  | uptime => exact storableUpdate_uptime server row
  | rootDiskDarwin => exact storableUpdate_rootDisk server row
  | osqueryInfo =>
    simp [storableUpdate, partOf, readOsqueryInfo, InventoryUpdate.texts, isText_text, isText_empty, storableInt,
      fits_zero]
  | orbitInfo =>
    simp [storableUpdate, partOf, readOrbitInfo, InventoryUpdate.texts, isText_text, isText_empty, storableInt,
      fits_zero]
  | osVersion =>
    simp [storableUpdate, partOf, readOSVersion, InventoryUpdate.texts, isText_text, isText_versionString,
      isText_empty, storableInt, fits_zero]
  | primaryInterfaceUnix =>
    simp [storableUpdate, partOf, readPrimaryInterface, InventoryUpdate.texts, isText_text, isText_normalizeIP,
      isText_empty, storableInt, fits_zero]
  | _ => exact storableUpdate_empty server

/-- An update of the flags only. -/
def FlagsOnly (update : InventoryUpdate) : Prop :=
  ∃ distributed config, update = { agents := { osquery := {
      distributedIntervalSeconds := distributed, configRefreshSeconds := config } } } ∧
    storableInt distributed = true ∧ storableInt config = true

theorem flagsOnly_readFlag {update : InventoryUpdate} (h : FlagsOnly update) (row : Row) :
    FlagsOnly (readFlag update row) := by
  obtain ⟨distributed, config, rfl, hdistributed, hconfig⟩ := h
  rw [readFlag]
  split_ifs
  · exact ⟨_, _, rfl, storableInt_checked _, hconfig⟩
  · exact ⟨_, _, rfl, hdistributed, storableInt_checked _⟩
  · exact ⟨_, _, rfl, hdistributed, hconfig⟩

theorem flagsOnly_foldl (rows : List Row) : ∀ update, FlagsOnly update → FlagsOnly (rows.foldl readFlag update) := by
  induction rows with
  | nil =>
    intro update h
    exact h
  | cons row rows ih =>
    intro update h
    exact ih _ (flagsOnly_readFlag h row)

theorem flagsOnly_parse (rows : List Row) : FlagsOnly (parseOsqueryFlags rows) :=
  flagsOnly_foldl rows {} ⟨none, none, rfl, rfl, rfl⟩

theorem storableUpdate_flags (server : Server) (rows : List Row) :
    storableUpdate server (parseOsqueryFlags rows) = true := by
  obtain ⟨distributed, config, heq, hdistributed, hconfig⟩ := flagsOnly_parse rows
  rw [heq]
  simp [storableUpdate, InventoryUpdate.texts, isText_empty, fits_zero, hdistributed, hconfig]

section Inventory

variable {server : Server} {w : World} {row : HostRow} {update : InventoryUpdate}

/-- Every host row meets the constraints of the table. -/
def RowsFit (w : World) : Prop := ∀ id row, w.hosts.row id = some row → w.hostsDb.fits id row = true

/-- No other host has the serial number. -/
def SerialFree (server : Server) (w : World) (serial : String) : Prop :=
  serial ≠ "" → ∀ other held, other ≠ server.hostID → w.hosts.row other = some held → held.hardwareSerial ≠ serial

/-- There is no address, or one that PostgreSQL reads. -/
def Readable (server : Server) (update : InventoryUpdate) : Prop :=
  update.network.primaryIP = "" ∨ (server.inet update.network.primaryIP).isSome = true

def addressOf (server : Server) (update : InventoryUpdate) : Option String :=
  if update.network.primaryIP = "" then none else server.inet update.network.primaryIP

/-- One patch of the host row. -/
def patchRow (server : Server) (update : InventoryUpdate) (row : HostRow) : HostRow :=
  row.applyInventory (keptUpdate server update) (addressOf server update)

/-- The host row with the update. -/
def inventory (server : Server) (update : InventoryUpdate) (w : World) : World :=
  { w with hosts := w.hosts.modify server.hostID (patchRow server update) }

theorem fits_iff {id : Int} : w.hostsDb.fits id row = true ↔
    HostEnrollment.tokenFormat row.orbitDeviceAuthToken = true ∧
      ∀ other held, other ≠ id → w.hosts.row other = some held → held.clashes row = false := by
  rw [HostEnrollment.Db.fits, Bool.and_eq_true, List.all_eq_true]
  apply and_congr_right'
  constructor
  · intro h other held hne hheld
    have hall := h other (KeyedRows.Table.mem_ids.mpr (by rw [World.hostsDb, hheld]; rfl))
    rw [Bool.or_eq_true, beq_iff_eq] at hall
    cases hall with
    | inl heq => exact absurd heq hne
    | inr hclash =>
      rw [World.hostsDb, hheld, Option.all_some, Bool.not_eq_true'] at hclash
      exact hclash
  · intro h other hother
    rw [Bool.or_eq_true, beq_iff_eq]
    by_cases hid : other = id
    · exact .inl hid
    · right
      cases hheld : w.hosts.row other with
      | none =>
        rw [World.hostsDb, hheld]
        rfl
      | some held =>
        rw [World.hostsDb, hheld, Option.all_some, h other held hid hheld]
        rfl

theorem fits_applyInventory (hfit : w.hostsDb.fits server.hostID row = true) (address : Option String) :
    w.hostsDb.fits server.hostID (row.applyInventory update address) = true ↔
      SerialFree server w update.hardware.serial := by
  obtain ⟨htoken, hrow⟩ := fits_iff.mp hfit
  rw [fits_iff]
  constructor
  · rintro ⟨-, hfits⟩ hserial other held hne hheld heq
    have hclash := hfits other held hne hheld
    simp [HostRow.clashes, HostEnrollment.sameValue, HostRow.applyInventory, HostEnrollment.keepText, hserial,
      heq] at hclash
  · intro hfree
    constructor
    · exact htoken
    · intro other held hne hheld
      have hold := hrow other held hne hheld
      by_cases hserial : update.hardware.serial = ""
      · rw [← hold]
        simp [HostRow.clashes, HostEnrollment.sameValue, HostRow.applyInventory, HostEnrollment.keepText, hserial]
      · have hother := hfree hserial other held hne hheld
        simp [HostRow.clashes, HostEnrollment.sameValue, HostRow.applyInventory, HostEnrollment.keepText, hserial,
          hother] at hold ⊢
        exact hold.1

theorem applyInventory_eq (hstorable : storableUpdate server update = true) (hreadable : Readable server update)
    (hrow : w.hosts.row server.hostID = some row) : applyInventory server w update =
      if w.hostsDb.fits server.hostID (patchRow server update row) = true then
        .ok (inventory server update w)
      else .error (.database "unique_violation") := by
  have htexts : (keptUpdate server update).texts.all isText = true := by
    change update.texts.all isText = true
    simp only [storableUpdate, Bool.and_eq_true] at hstorable
    exact hstorable.1.1.1.1.1.1
  have hinet : HostEnrollment.inetOf server.inet (keptUpdate server update).network.primaryIP =
      .ok (addressOf server update) := by
    change HostEnrollment.inetOf server.inet update.network.primaryIP = .ok (addressOf server update)
    rw [HostEnrollment.inetOf, addressOf]
    split_ifs with hempty
    · rfl
    · cases hreadable with
      | inl heq => exact absurd heq hempty
      | inr hsome =>
        obtain ⟨address, haddress⟩ := Option.isSome_iff_exists.mp hsome
        rw [haddress]
  have hmodify : w.hosts.modify server.hostID (fun _ => patchRow server update row) =
      w.hosts.modify server.hostID (patchRow server update) := by
    simp only [KeyedRows.Table.modify, hrow, Option.map_some]
  have hrow' : w.hostsDb.hosts.row server.hostID = some row := hrow
  rw [applyInventory, if_neg (by rw [hstorable]; exact Bool.noConfusion), HostEnrollment.applyInventory, hrow']
  dsimp only
  rw [HostEnrollment.Db.inventoried, if_pos htexts, hinet]
  dsimp only
  rw [← patchRow]
  split_ifs
  · rw [inventory, ← hmodify]
    rfl
  · rfl

/-- An update of the details is accepted exactly when the serial number is free. -/
theorem applyInventory_ok (hstorable : storableUpdate server update = true) (hreadable : Readable server update)
    (hrow : w.hosts.row server.hostID = some row) (hfit : w.hostsDb.fits server.hostID row = true) {w' : World} :
    applyInventory server w update = .ok w' ↔
      SerialFree server w update.hardware.serial ∧ w' = inventory server update w := by
  have hiff : w.hostsDb.fits server.hostID (patchRow server update row) = true ↔
      SerialFree server w update.hardware.serial := fits_applyInventory hfit (addressOf server update)
  rw [applyInventory_eq hstorable hreadable hrow, ← hiff]
  split_ifs with hfree
  · rw [Except.ok.injEq]
    constructor
    · intro heq
      exact ⟨hfree, heq.symm⟩
    · intro h
      exact h.2.symm
  · constructor
    · intro h
      cases h
    · intro h
      exact absurd h.1 hfree

theorem readable_of_blank (h : update.network.primaryIP = "") : Readable server update := .inl h

/-- What is printed of an address can be read again. -/
theorem readable_partOf (name : DetailName) (row : Row) : Readable server (partOf server name row) := by
  cases name with
  | primaryInterfaceUnix =>
    simp only [partOf, readPrimaryInterface, Readable, normalizeIP]
    cases haddr : server.readers.parseAddr (Primitives.trimSpace (normalizeString (field row "primary_ip"))) with
    | none => exact .inl rfl
    | some address => exact .inr (server.addr_inet _ _ haddr)
  | uptime =>
    simp only [partOf, readUptime]
    cases parsePositiveInt64Ptr (text row "total_seconds") with
    | none => exact readable_of_blank rfl
    | some seconds => exact readable_of_blank rfl
  | rootDiskDarwin =>
    simp only [partOf, readRootDisk]
    split_ifs
    · exact readable_of_blank rfl
    · exact readable_of_blank rfl
    · exact readable_of_blank rfl
  | _ => exact readable_of_blank rfl

theorem readable_flags (rows : List Row) : Readable server (parseOsqueryFlags rows) := by
  obtain ⟨distributed, config, heq, -, -⟩ := flagsOnly_parse rows
  rw [heq]
  exact readable_of_blank rfl

theorem serialFree_blank (w : World) : SerialFree server w "" := by
  intro h
  exact absurd rfl h

end Inventory

section Rows

variable {α : Type} {server : Server} {storable : α → Bool} {w w' written : World} {rows : List α} {host : HostRow}

theorem replaceRows_ok (hhost : w.hosts.row server.hostID = some host) :
    replaceRows server storable w rows written = .ok w' ↔ rows.all storable = true ∧ w' = written := by
  have hexists : ¬(rows ≠ [] ∧ w.hosts.row server.hostID = none) := by
    rintro ⟨-, hnone⟩
    rw [hhost] at hnone
    cases hnone
  rw [replaceRows]
  by_cases hall : rows.all storable = false
  · rw [if_pos hall, hall]
    constructor
    · intro h
      cases h
    · rintro ⟨h, -⟩
      cases h
  · rw [if_neg hall, if_neg hexists, Except.ok.injEq]
    constructor
    · intro h
      exact ⟨Bool.not_eq_false _ ▸ hall, h.symm⟩
    · rintro ⟨-, rfl⟩
      rfl

/-- Every row that is parsed to something storable. -/
theorem all_parsed (clean : Row → Prop) {parse : Row → Option α} {kept : α → Bool} {rows : List Row}
    (hparse : ∀ row a, parse row = some a → kept a = true ∧ (storable a = true ↔ clean row)) :
    ((rows.filterMap parse).filter kept).all storable = true ↔
      ∀ row ∈ rows, (parse row).isSome = true → clean row := by
  rw [List.all_eq_true]
  constructor
  · intro h row hrow hsome
    obtain ⟨a, ha⟩ := Option.isSome_iff_exists.mp hsome
    obtain ⟨hkept, hiff⟩ := hparse row a ha
    exact hiff.mp (h a (List.mem_filter.mpr ⟨List.mem_filterMap.mpr ⟨row, hrow, ha⟩, hkept⟩))
  · intro h a ha
    obtain ⟨row, hrow, hparsed⟩ := List.mem_filterMap.mp (List.mem_filter.mp ha).1
    exact (hparse row a hparsed).2.mpr (h row hrow (by rw [hparsed]; rfl))

end Rows

/-- The values of these keys hold no NUL. -/
def rowTexts (row : Row) (names : List String) : Bool := names.all (fun name => isText (field row name))

def userKeys : List String := ["uid", "username", "type", "description", "directory", "shell"]

def batteryKeys : List String := ["serial_number", "manufacturer", "model", "chemistry", "health"]

/-- A row without a user is left out. -/
def UserClean (row : Row) : Prop := field row "username" ≠ "" → field row "uid" ≠ "" → rowTexts row userKeys = true

def BatteryClean (row : Row) : Prop := field row "serial_number" ≠ "" → rowTexts row batteryKeys = true

theorem users_storable (rows : List Row) :
    ((parseHostUsers rows).filter (fun user => user.uid ≠ "" ∧ user.username ≠ "")).all storableUser = true ↔
      ∀ row ∈ rows, UserClean row := by
  rw [parseHostUsers, all_parsed (fun row => rowTexts row userKeys = true)]
  · apply forall₂_congr
    intro row _
    rw [UserClean]
    split_ifs with hblank
    · constructor
      · intro _ husername huid
        exact absurd hblank (not_or.mpr ⟨husername, huid⟩)
      · intro _ hsome
        cases hsome
    · obtain ⟨husername, huid⟩ := not_or.mp hblank
      constructor
      · intro h _ _
        exact h rfl
      · intro h _
        exact h husername huid
  · intro row user huser
    split_ifs at huser with hblank
    obtain ⟨husername, huid⟩ := not_or.mp hblank
    cases huser
    exact ⟨decide_eq_true ⟨huid, husername⟩, Iff.rfl⟩

theorem batteries_storable (server : Server) (rows : List Row) :
    ((parseHostBatteries server.readers rows).filter (fun battery => battery.serialNumber ≠ "")).all
        storableBattery = true ↔ ∀ row ∈ rows, BatteryClean row := by
  rw [parseHostBatteries, all_parsed (fun row => rowTexts row batteryKeys = true)]
  · apply forall₂_congr
    intro row _
    rw [BatteryClean]
    split_ifs with hblank
    · constructor
      · intro _ hserial
        exact absurd hblank hserial
      · intro _ hsome
        cases hsome
    · constructor
      · intro h _
        exact h rfl
      · intro h _
        exact h hblank
  · intro row battery hbattery
    split_ifs at hbattery with hblank
    cases hbattery
    constructor
    · exact decide_eq_true hblank
    · rw [storableBattery, Bool.and_eq_true]
      constructor
      · exact And.left
      · intro h
        refine ⟨h, ?_⟩
        simp [storableInt_checked]

/-- The fraction of a second is shorter than a second. -/
theorem parseUnixTimeParts_bounds {value : String} {parts : Int × Int} (h : parseUnixTimeParts value = some parts) :
    0 < parts.1 ∧ parts.1 < 2 ^ 63 ∧ -timeSecond < parts.2 ∧ parts.2 < timeSecond := by
  obtain ⟨seconds, hseconds, h⟩ := Option.bind_eq_some_iff.mp h
  have hint := (GoNumbers.isInt64_parseInt hseconds).2
  split_ifs at h with hpos hfraction
  · cases h
    exact ⟨Int.not_le.mp hpos, hint, (by decide : -timeSecond < 0), (by decide : 0 < timeSecond)⟩
  · obtain ⟨nanos, hnanos, rfl⟩ := Option.map_eq_some_iff.mp h
    have hlt := GoNumbers.parseInt_lt hnanos
    have hlength : ∀ l : List Char, l.length ≤ 9 → (l ++ List.replicate (9 - l.length) '0').length = 9 := by
      intro l hl
      rw [List.length_append, List.length_replicate]
      omega
    rw [hlength _ (List.length_take_le 9 _)] at hlt
    exact ⟨Int.not_le.mp hpos, hint, hlt.1, hlt.2⟩

/-- A Unix time is the exact number of its seconds and nanoseconds. -/
theorem instant_unixTime {sec nsec : Int} (hpos : 0 < sec) (hsec : sec < 2 ^ 63) (hlow : -timeSecond < nsec)
    (hhigh : nsec < timeSecond) : (unixTime sec nsec).instant = sec * timeSecond + nsec := by
  have hint : GoText.IsInt64 (sec + nsec / timeSecond) := by
    simp only [timeSecond, GoText.IsInt64] at *
    omega
  rw [Time.instant, unixTime]
  dsimp only
  rw [GoNumbers.wrap64_sub_wrap64 hint]
  simp only [timeSecond] at *
  omega

/-- Only the two odd letters and upper case fold to another character. -/
theorem fold_eq_self {c : Char} (hs : c ≠ 'ſ') (hk : c ≠ '\u212A') (hupper : ¬(c.val ≥ 'A'.val ∧ c.val ≤ 'Z'.val)) :
    fold c = c := by
  rw [fold, if_neg hs, if_neg hk]
  exact dif_neg hupper

theorem fold_of_isDigit {c : Char} (h : c.isDigit = true) : fold c = c := by
  have hle : c.val ≤ '9'.val := by
    simp only [Char.isDigit, Bool.and_eq_true, decide_eq_true_eq] at h
    exact h.2
  apply fold_eq_self
  · rintro rfl
    exact absurd h (by decide)
  · rintro rfl
    exact absurd h (by decide)
  · rintro ⟨hge, -⟩
    exact absurd (UInt32.le_trans hge hle) (by decide)

theorem parseInt_none {c : Char} {cs : List Char} (hdigit : c.isDigit = false) (hplus : c ≠ '+') (hminus : c ≠ '-') :
    GoText.parseInt (c :: cs) = none := by
  unfold GoText.parseInt
  split
  · rename_i heq
    exact absurd (List.cons.inj heq).1 hminus
  · rename_i heq
    exact absurd (List.cons.inj heq).1 hplus
  · rw [GoText.digitsValue, List.all_cons, hdigit, Bool.false_and]
    rfl

theorem parseUnixTimeParts_null {value : String} (h : equalFold value "null" = true) :
    parseUnixTimeParts value = none := by
  have hmap : value.toList.map fold = ['n', 'u', 'l', 'l'] := by
    rw [equalFold, beq_iff_eq] at h
    exact h.trans (by decide)
  have hne {c : Char} (hc : c ∈ value.toList) (hfold : fold c = c) : c ∈ ['n', 'u', 'l', 'l'] := by
    rw [← hmap, ← hfold]
    exact List.mem_map_of_mem hc
  have hcut : GoText.cut ['.'] value.toList = none := by
    rw [TextPieces.cut_none_iff (List.cons_ne_nil _ _)]
    intro h
    have hdot := hne (h.subset List.mem_cons_self) (by decide)
    exact absurd hdot (by decide)
  cases hvalue : value.toList with
  | nil =>
    rw [hvalue] at hmap
    cases hmap
  | cons c cs =>
    have hmem : c ∈ value.toList := hvalue ▸ List.mem_cons_self
    have hdigit : c.isDigit = false := by
      cases hd : c.isDigit with
      | false => rfl
      | true =>
        have hletter := hne hmem (fold_of_isDigit hd)
        simp only [List.mem_cons, List.not_mem_nil, or_false] at hletter
        obtain rfl | rfl | rfl | rfl := hletter
        all_goals exact absurd hd (by decide)
    have hplus : c ≠ '+' := by
      rintro rfl
      exact absurd (hne hmem (by decide)) (by decide)
    have hminus : c ≠ '-' := by
      rintro rfl
      exact absurd (hne hmem (by decide)) (by decide)
    simp only [parseUnixTimeParts, hcut, Option.map_none, Option.getD_none]
    rw [hvalue, parseInt_none hdigit hplus hminus, Option.bind_none]

/-- The values that read as no time are no numbers of seconds either. -/
theorem parseUnixTime_eq (value : String) :
    parseUnixTime value = (parseUnixTimeParts value).map (fun parts => unixTime parts.1 parts.2) := by
  rw [parseUnixTime]
  split_ifs with hnone
  · obtain rfl | rfl | hnull := hnone
    · rfl
    · decide
    · rw [parseUnixTimeParts_null hnull]
      rfl
  · rfl

/-- The column takes the time. -/
def TimeClean (server : Server) (value : String) : Prop :=
  ∀ parts, parseUnixTimeParts value = some parts →
    (server.timestamptz (parts.1 * timeSecond + parts.2)).isSome = true

theorem time_storable (server : Server) (value : String) :
    storableTime server (parseUnixTime value) = true ↔ TimeClean server value := by
  rw [parseUnixTime_eq, TimeClean]
  cases hparts : parseUnixTimeParts value with
  | none =>
    apply iff_of_true rfl
    intro parts h
    cases h
  | some parts =>
    obtain ⟨hpos, hsec, hlow, hhigh⟩ := parseUnixTimeParts_bounds hparts
    rw [Option.map_some, storableTime, Option.all_some, instant_unixTime hpos hsec hlow hhigh, storableInstant]
    constructor
    · intro hkept other hother
      cases hother
      exact hkept
    · intro h
      exact h parts rfl

def certificateKeys : List String :=
  ["sha1", "common_name", "key_algorithm", "key_usage", "signing_algorithm", "serial", "source", "username", "path"]

/-- The names are checked as they are read. -/
structure CertificateFits (server : Server) (row : Row) : Prop where
  texts : rowTexts row certificateKeys = true
  subject : storableName (parseCertificateName (field row "subject").toList) = true
  issuer : storableName (parseCertificateName (field row "issuer").toList) = true
  notValidAfter : TimeClean server (field row "not_valid_after")
  notValidBefore : TimeClean server (field row "not_valid_before")

def CertificateClean (server : Server) (row : Row) : Prop := field row "sha1" ≠ "" → CertificateFits server row

theorem isText_fold {value : String} (h : equalFold value "SYSTEM" = true) : isText value = true := by
  have hmap : value.toList.map fold = ['s', 'y', 's', 't', 'e', 'm'] := by
    rw [equalFold, beq_iff_eq] at h
    exact h.trans (by decide)
  rw [isText, List.all_eq_true]
  intro c hc
  rw [bne_iff_ne]
  intro hzero
  have hnul : c = '\x00' := Char.toNat_inj.mp (hzero.trans (by decide))
  have hmem : fold c ∈ ['s', 'y', 's', 't', 'e', 'm'] := hmap ▸ List.mem_map_of_mem hc
  rw [hnul] at hmem
  exact absurd hmem (by decide)

theorem isText_certificateSource (row : Row) :
    isText (certificateSource row) = true ↔ isText (field row "source") = true := by
  rw [certificateSource]
  split_ifs with hsource hsystem
  · exact Iff.rfl
  · rw [not_not.mp hsource]
    exact iff_of_true (by decide) rfl
  · rw [not_not.mp hsource]
    exact iff_of_true (by decide) rfl

/-- A name from the path holds no NUL if the path does not. -/
theorem isText_certificateUsername {row : Row} (hpath : isText (field row "path") = true) :
    isText (certificateUsername row) = true ↔ isText (field row "username") = true := by
  rw [certificateUsername]
  split_ifs with husername
  · exact Iff.rfl
  · have hsystem : isText (field row "username") = true := by
      by_cases hblank : field row "username" = ""
      · rw [hblank]
        rfl
      · apply isText_fold
        by_contra hnot
        exact husername ⟨hblank, Bool.not_eq_true _ ▸ hnot⟩
    apply iff_of_true _ hsystem
    dsimp only
    split_ifs
    · rw [isText, String.toList_ofList, List.all_eq_true]
      intro c hc
      have hclean : c ∈ LexicalPaths.clean (field row "path").toList := by
        rw [trimSuffix] at hc
        split_ifs at hc
        · exact List.mem_of_mem_drop (List.mem_of_mem_take hc)
        · exact List.mem_of_mem_drop hc
      obtain hmem | rfl | rfl := LexicalPaths.mem_clean hclean
      · exact List.all_eq_true.mp hpath c hmem
      · decide
      · decide
    · rfl

theorem isText_commonName {row : Row}
    (hname : storableName (parseCertificateName (field row "subject").toList) = true) :
    isText (certificateCommonName row) = true ↔ isText (field row "common_name") = true := by
  rw [certificateCommonName]
  split_ifs with hblank
  · rw [hblank]
    apply iff_of_true _ rfl
    simp only [storableName, List.all_cons, List.all_nil, Bool.and_true, Bool.and_eq_true] at hname
    exact hname.2.2.2
  · exact Iff.rfl

theorem certificates_storable (server : Server) (rows : List Row) :
    ((parseHostCertificates rows).filter (fun certificate => certificate.sha1 ≠ "")).all
        (storableCertificate server) = true ↔
      ∀ row ∈ rows, CertificateClean server row := by
  rw [parseHostCertificates, all_parsed (CertificateFits server)]
  · apply forall₂_congr
    intro row _
    rw [CertificateClean]
    split_ifs with hblank
    · constructor
      · intro _ hsha1
        exact absurd hblank hsha1
      · intro _ hsome
        cases hsome
    · constructor
      · intro h _
        exact h rfl
      · intro h _
        exact h hblank
  · intro row certificate hcertificate
    split_ifs at hcertificate with hblank
    cases hcertificate
    constructor
    · exact decide_eq_true hblank
    · simp only [storableCertificate, List.all_cons, List.all_nil, Bool.and_true, Bool.and_eq_true, time_storable,
        storableInt_checked, isText_certificateSource]
      constructor
      · rintro ⟨⟨⟨⟨⟨hsha1, hcommon, halgorithm, husage, hsigning, hserial, hsource, husername, hpath⟩, hsubject⟩,
          hissuer⟩, hafter⟩, hbefore⟩
        rw [isText_commonName hsubject] at hcommon
        rw [isText_certificateUsername hpath] at husername
        constructor
        · simp only [rowTexts, certificateKeys, List.all_cons, List.all_nil, Bool.and_true, Bool.and_eq_true]
          exact ⟨hsha1, hcommon, halgorithm, husage, hsigning, hserial, hsource, husername, hpath⟩
        · exact hsubject
        · exact hissuer
        · exact hafter
        · exact hbefore
      · intro h
        have htexts := h.texts
        simp only [rowTexts, certificateKeys, List.all_cons, List.all_nil, Bool.and_true, Bool.and_eq_true] at htexts
        obtain ⟨hsha1, hcommon, halgorithm, husage, hsigning, hserial, hsource, husername, hpath⟩ := htexts
        rw [← isText_commonName h.subject] at hcommon
        rw [← isText_certificateUsername hpath] at husername
        exact ⟨⟨⟨⟨⟨hsha1, hcommon, halgorithm, husage, hsigning, hserial, hsource, husername, hpath⟩, h.subject⟩,
          h.issuer⟩, h.notValidAfter⟩, h.notValidBefore⟩

theorem digit_bounds {c : Char} (h : c.isDigit = true) : 0 ≤ digit c ∧ digit c ≤ 9 := by
  simp only [Char.isDigit, Bool.and_eq_true, decide_eq_true_eq, UInt32.le_iff_toNat_le] at h
  have hlow : 48 ≤ c.toNat := h.1
  have hhigh : c.toNat ≤ 57 := h.2
  have hzero : '0'.toNat = 48 := rfl
  rw [digit, hzero]
  omega

theorem getnum_nonneg {fixed : Bool} {value rest : List Char} {n : Int} (h : getnum fixed value = some (n, rest)) :
    0 ≤ n := by
  cases value with
  | nil => cases h
  | cons c tail =>
    simp only [getnum] at h
    by_cases hc : c.isDigit = true
    · have hc' := digit_bounds hc
      rw [if_pos hc] at h
      cases tail with
      | nil =>
        simp only at h
        split_ifs at h
        cases h
        exact hc'.1
      | cons d tail =>
        simp only at h
        split_ifs at h with hd
        · cases h
          have hd' := digit_bounds hd
          omega
        · cases h
          exact hc'.1
    · rw [if_neg hc] at h
      cases h

theorem getYear_bounds {value rest : List Char} {year : Int} (h : getYear value = some (year, rest)) :
    0 ≤ year ∧ year ≤ 9999 := by
  rw [getYear] at h
  split_ifs at h with hdigits
  cases h
  have hlt := GoNumbers.ofDigitChars_lt hdigits.2 0
  rw [hdigits.1] at hlt
  omega

theorem fraction_lt {digits : List Char} (h : digits.all Char.isDigit = true) (hlength : digits.length ≤ 9) :
    ((Nat.ofDigitChars 10 digits 0 : Nat) : Int) * 10 ^ (9 - digits.length) < timeSecond := by
  have hlt := GoNumbers.ofDigitChars_lt h 0
  have hmul : Nat.ofDigitChars 10 digits 0 * 10 ^ (9 - digits.length) < 10 ^ 9 := by
    calc Nat.ofDigitChars 10 digits 0 * 10 ^ (9 - digits.length)
        < 10 ^ digits.length * (0 + 1) * 10 ^ (9 - digits.length) :=
          Nat.mul_lt_mul_of_pos_right hlt (Nat.pow_pos (by decide))
      _ = 10 ^ 9 := by
          rw [Nat.zero_add, Nat.mul_one, ← Nat.pow_add, Nat.add_sub_cancel' hlength]
  calc ((Nat.ofDigitChars 10 digits 0 : Nat) : Int) * 10 ^ (9 - digits.length)
      = ((Nat.ofDigitChars 10 digits 0 * 10 ^ (9 - digits.length) : Nat) : Int) := by
        rw [Int.natCast_mul, Int.natCast_pow]
        rfl
    _ < ((10 ^ 9 : Nat) : Int) := Int.ofNat_lt.mpr hmul
    _ = timeSecond := by decide

theorem getFraction_bounds (value : List Char) :
    0 ≤ (getFraction value).1 ∧ (getFraction value).1 < timeSecond := by
  have hzero : (0 : Int) < timeSecond := by decide
  cases value with
  | nil => exact ⟨Int.le_refl _, hzero⟩
  | cons c rest =>
    simp only [getFraction]
    split_ifs
    · have hall : ((rest.takeWhile Char.isDigit).take 9).all Char.isDigit = true := by
        rw [List.all_eq_true]
        intro d hd
        exact List.mem_takeWhile_imp (List.mem_of_mem_take hd)
      constructor
      · exact Int.mul_nonneg (Int.natCast_nonneg _) (Int.pow_nonneg (by decide))
      · exact fraction_lt hall (List.length_take_le 9 _)
    · exact ⟨Int.le_refl _, hzero⟩

theorem getOffset_bounds {value rest : List Char} {offset : Int} (h : getOffset value = some (offset, rest)) :
    -90000 ≤ offset ∧ offset ≤ 90000 := by
  unfold getOffset at h
  split at h
  · simp only [Option.bind_eq_bind, Option.bind_eq_some_iff, Prod.exists] at h
    obtain ⟨hours, rest₁, hhours, minutes, rest₂, hminutes, h⟩ := h
    have hhours' := getnum_nonneg hhours
    have hminutes' := getnum_nonneg hminutes
    split_ifs at h
    · cases h
      omega
    · cases h
      omega
  · cases h

theorem readCivil_bounds {value : List Char} {t : Civil} (h : readCivil value = some t) :
    (0 ≤ t.year ∧ t.year ≤ 9999) ∧ 0 ≤ t.hour ∧ 0 ≤ t.minute ∧ 0 ≤ t.second ∧
      (0 ≤ t.nanosecond ∧ t.nanosecond < timeSecond) ∧ -90000 ≤ t.offset ∧ t.offset ≤ 90000 := by
  rw [readCivil] at h
  obtain ⟨⟨year, _⟩, hyear, h⟩ := Option.bind_eq_some_iff.mp h
  obtain ⟨_, -, h⟩ := Option.bind_eq_some_iff.mp h
  obtain ⟨⟨month, _⟩, -, h⟩ := Option.bind_eq_some_iff.mp h
  obtain ⟨_, -, h⟩ := Option.bind_eq_some_iff.mp h
  obtain ⟨⟨day, _⟩, -, h⟩ := Option.bind_eq_some_iff.mp h
  obtain ⟨_, -, h⟩ := Option.bind_eq_some_iff.mp h
  obtain ⟨⟨hour, _⟩, hhour, h⟩ := Option.bind_eq_some_iff.mp h
  obtain ⟨_, -, h⟩ := Option.bind_eq_some_iff.mp h
  obtain ⟨⟨minute, _⟩, hminute, h⟩ := Option.bind_eq_some_iff.mp h
  obtain ⟨_, -, h⟩ := Option.bind_eq_some_iff.mp h
  obtain ⟨⟨second, rest⟩, hsecond, h⟩ := Option.bind_eq_some_iff.mp h
  obtain ⟨_, -, h⟩ := Option.bind_eq_some_iff.mp h
  obtain ⟨⟨offset, _⟩, hoffset, h⟩ := Option.bind_eq_some_iff.mp h
  dsimp only at h
  split_ifs at h
  cases h
  exact ⟨getYear_bounds hyear, getnum_nonneg hhour, getnum_nonneg hminute, getnum_nonneg hsecond,
    getFraction_bounds rest, getOffset_bounds hoffset⟩

theorem storableInstant_parseMunkiTime (server : Server) (value : String) :
    (parseMunkiTime value).all (storableInstant server) = true := by
  rw [parseMunkiTime]
  cases hread : readCivil value.toList with
  | none => rfl
  | some t =>
    rw [Option.filter_some]
    split_ifs with hvalid
    · obtain ⟨⟨hyear, hyear'⟩, hhour, hminute, hsecond, ⟨hnano, hnano'⟩, hoffset, hoffset'⟩ := readCivil_bounds hread
      have hvalid : t.Valid := of_decide_eq_true hvalid
      have hday := CivilTimes.unixDay_bounds hyear hyear' hvalid.day.1 hvalid.day.2
      have hh := hvalid.hour
      have hm := hvalid.minute
      have hs := hvalid.second
      rw [Option.map_some, Option.all_some, storableInstant, Civil.instant]
      apply server.years_kept
      · simp only [timeSecond] at *
        omega
      · simp only [timeSecond] at *
        omega
    · rfl

theorem isText_split (value : String) : (splitMunkiList value).all isText = true ↔ isText value = true := by
  rw [splitMunkiList]
  split_ifs with hblank
  · rw [hblank]
    exact iff_of_true rfl rfl
  · rw [List.all_eq_true]
    constructor
    · intro h
      rw [isText, List.all_eq_true]
      intro c hc
      have hjoin : [';'].intercalate (value.toList.splitOn ';') = value.toList := List.intercalate_splitOn ';'
      rw [← hjoin] at hc
      cases LexicalPaths.mem_intercalate hc with
      | inl hsep =>
        rw [List.mem_singleton.mp hsep]
        decide
      | inr hmem =>
        obtain ⟨part, hpart, hc⟩ := hmem
        have htext := h (String.ofList part) (List.mem_map_of_mem hpart)
        rw [isText, String.toList_ofList, List.all_eq_true] at htext
        exact htext c hc
    · intro h part hpart
      obtain ⟨chars, hchars, rfl⟩ := List.mem_map.mp hpart
      apply isText_of_subset _ h
      intro c hc
      exact LexicalPaths.mem_of_mem_splitOn hchars hc

def infoKeys : List String := ["version", "manifest_name", "errors", "warnings", "problem_installs"]

def installKeys : List String := ["name", "display_name", "installed_version", "version_to_install"]

/-- The report of the first row and the items of all rows. -/
def MunkiClean (info installs : List Row) : Prop :=
  ∀ row, info.head? = some row → rowTexts row infoKeys = true ∧ ∀ row ∈ installs, rowTexts row installKeys = true

theorem observation_storable {server : Server} {rows : List Row} {observation : HostObservation}
    (h : hostStatusFromInfoRows rows = some observation) :
    storableObservation server observation = true ↔ ∀ row, rows.head? = some row → rowTexts row infoKeys = true := by
  obtain ⟨row, hrow, rfl⟩ := Option.map_eq_some_iff.mp h
  simp only [hrow, Option.some.injEq, forall_eq', storableObservation, storableInstant_parseMunkiTime,
    Bool.and_true, List.all_append, Bool.and_eq_true, isText_split, rowTexts, infoKeys, List.all_cons, List.all_nil,
    and_assoc]

theorem items_storable (rows : List Row) : (itemsFromInstallRows rows).all storableItem = true ↔
    ∀ row ∈ rows, rowTexts row installKeys = true := by
  rw [itemsFromInstallRows, List.all_map, List.all_eq_true]
  rfl

def softwareKeys : List String :=
  ["name", "version", "source", "bundle_identifier", "extension_id", "extension_for", "vendor", "arch", "release",
    "installed_path"]

def signatureKeys : List String := ["identifier", "signing_authority", "team_identifier", "cdhash"]

def executableKeys : List String := ["executable_sha256", "executable_path"]

/-- The row of the path that counts. -/
def rowOfPath (rows : List Row) (path : String) : Option Row :=
  rows.reverse.find? (fun row => field row "path" == path && path != "")

/-- The values of an entry, with what the other queries say of its path. -/
structure EntryClean (server : Server) (signatureRows executableRows : List Row) (row : Row) : Prop where
  source : SoftwareCatalog.SoftwareSource.valid (field row "source") = true
  texts : rowTexts row softwareKeys = true
  signature : ∀ found, rowOfPath signatureRows (field row "installed_path") = some found →
    rowTexts found signatureKeys = true
  executable : ∀ found, rowOfPath executableRows (field row "installed_path") = some found →
    rowTexts found executableKeys = true
  lastOpenedAt : TimeClean server (field row "last_opened_at")

theorem all_time (server : Server) (value : String) :
    ((parseUnixTime value).map Time.instant).all (storableInstant server) =
      storableTime server (parseUnixTime value) := by
  rw [storableTime]
  cases parseUnixTime value <;> rfl

theorem entry_storable (server : Server) (signatureRows executableRows : List Row) (row : Row) :
    SoftwareCatalog.SoftwareSource.valid (field row "source") = true ∧
        storableEntry server (parseSoftwareRow (softwareEnrichmentByPath signatureRows executableRows) row) = true ↔
      EntryClean server signatureRows executableRows row := by
  have hsignature : softwareEnrichmentByPath signatureRows executableRows (field row "installed_path") =
      { signature := (rowOfPath signatureRows (field row "installed_path")).map readSignature
        executableSHA256 := ((rowOfPath executableRows (field row "installed_path")).map
          (fun row => field row "executable_sha256")).getD ""
        executablePath := ((rowOfPath executableRows (field row "installed_path")).map
          (fun row => field row "executable_path")).getD "" } := rfl
  rw [storableEntry, Bool.and_eq_true]
  simp only [parseSoftwareRow, all_time, time_storable, SoftwareCatalog.texts, hsignature, List.all_append,
    List.all_cons, List.all_nil, Bool.and_true, Bool.and_eq_true]
  constructor
  · rintro ⟨hsource, ⟨⟨hname, hversion, hsourceText, hbundle, hid, hfor, hvendor, harch, hrelease, hpath, hsha, hexe⟩,
      hsigned⟩, htime⟩
    constructor
    · exact hsource
    · simp only [rowTexts, softwareKeys, List.all_cons, List.all_nil, Bool.and_true, Bool.and_eq_true]
      exact ⟨hname, hversion, hsourceText, hbundle, hid, hfor, hvendor, harch, hrelease, hpath⟩
    · intro found hfound
      rw [hfound] at hsigned
      exact hsigned
    · intro found hfound
      rw [hfound] at hsha hexe
      simp only [rowTexts, executableKeys, List.all_cons, List.all_nil, Bool.and_true, Bool.and_eq_true]
      exact ⟨hsha, hexe⟩
    · exact htime
  · intro h
    have htexts := h.texts
    simp only [rowTexts, softwareKeys, List.all_cons, List.all_nil, Bool.and_true, Bool.and_eq_true] at htexts
    obtain ⟨hname, hversion, hsourceText, hbundle, hid, hfor, hvendor, harch, hrelease, hpath⟩ := htexts
    have hexecutable : isText (((rowOfPath executableRows (field row "installed_path")).map
          (fun row => field row "executable_sha256")).getD "") = true ∧
        isText (((rowOfPath executableRows (field row "installed_path")).map
          (fun row => field row "executable_path")).getD "") = true := by
      cases hfound : rowOfPath executableRows (field row "installed_path") with
      | none => exact ⟨rfl, rfl⟩
      | some found =>
        have hrow := h.executable found hfound
        simp only [rowTexts, executableKeys, List.all_cons, List.all_nil, Bool.and_true, Bool.and_eq_true] at hrow
        exact hrow
    constructor
    · exact h.source
    · constructor
      · constructor
        · exact ⟨hname, hversion, hsourceText, hbundle, hid, hfor, hvendor, harch, hrelease, hpath, hexecutable⟩
        · cases hfound : rowOfPath signatureRows (field row "installed_path") with
          | none => rfl
          | some found => exact h.signature found hfound
      · exact h.lastOpenedAt

/-- The restart time is exact for an uptime of at most 292 years. -/
theorem negatedUptime_exact {seconds : Int} (hpos : 0 < seconds) :
    negatedUptime seconds = -seconds * timeSecond ↔ seconds ≤ 9223372036 := by
  rw [negatedUptime, GoNumbers.wrap64_eq_iff]
  simp only [GoText.IsInt64, timeSecond]
  omega

end DetailValues
