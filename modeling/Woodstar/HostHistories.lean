import Woodstar.HostIdentities

/-!
# Histories of hosts

Over every run from the migrated tables: one row for each hardware UUID, the node
keys and device tokens of the last steps that gave them, the membership of all
hosts, and when the shown name is the one of the stored names.
-/
namespace HostHistories

open HostEnrollment
open HostIdentities
open KeyedRows (Table)
open LastWrites
open Primitives (Fault)
open Runs

variable {db db' : Db} {id id' : Int} {row row' : HostRow} {agent agent' : Agent} {e : Event}
variable {inet : String → Option String} {start : Migrated} {es : List Event}

def Authenticates (db : Db) (agent : Agent) (nodeKey : String) (id : Int) : Prop :=
  (getByNodeKey db agent nodeKey).map Prod.fst = some id

def Validates (db : Db) (token : String) (id : Int) : Prop :=
  (validateOrbitDeviceAuthToken db token).map Prod.fst = some id

/-- An enrollment issued the key to the host, which neither enrolled with the agent again nor
was deleted. -/
def LastEnrollment (inet : String → Option String) (agent : Agent) (id : Int) (nodeKey : String) (db : Db)
    (es : List Event) : Prop :=
  nodeKey ≠ "" ∧ ∃ before e after, es = before ++ e :: after ∧
    enrolled (exec (step inet) db before) agent e = some (id, nodeKey) ∧
    Along (step inet) (fun db e => e ≠ .delete id ∧ ∀ other, enrolled db agent e ≠ some (id, other))
      (step inet (exec (step inet) db before) e) after

/-- The host got the token, and since then no other one, no Orbit enrollment and no deletion. -/
def LastToken (inet : String → Option String) (id : Int) (token : String) (db : Db) (es : List Event) : Prop :=
  token ≠ "" ∧ ∃ before e after, es = before ++ e :: after ∧
    tokenSet (exec (step inet) db before) e = some (id, token) ∧
    Along (step inet) (fun db e => e ≠ .delete id ∧ (∀ key, enrolled db .orbit e ≠ some (id, key)) ∧
      ∀ other, tokenSet db e ≠ some (id, other)) (step inet (exec (step inet) db before) e) after

/-- The reported texts with their columns. -/
def textColumns : List ((InventoryUpdate → String) × (HostRow → String)) :=
  [(fun u => u.hostname, fun r => r.hostname), (fun u => u.computerName, fun r => r.computerName),
    (fun u => u.hardware.serial, fun r => r.hardwareSerial),
    (fun u => u.hardware.modelIdentifier, fun r => r.hardwareModelIdentifier),
    (fun u => u.os.name, fun r => r.osName), (fun u => u.os.version, fun r => r.osVersion),
    (fun u => u.os.build, fun r => r.osBuild), (fun u => u.os.platform, fun r => r.osPlatform),
    (fun u => u.agents.osquery.version, fun r => r.osqueryVersion),
    (fun u => u.agents.orbit.version, fun r => r.orbitVersion),
    (fun u => u.hardware.cpu.architecture, fun r => r.cpuType),
    (fun u => u.hardware.cpu.subtype, fun r => r.cpuSubtype),
    (fun u => u.hardware.cpu.brand, fun r => r.cpuBrand),
    (fun u => u.hardware.vendor, fun r => r.hardwareVendor),
    (fun u => u.os.kernelVersion, fun r => r.osKernelVersion),
    (fun u => u.network.primaryMAC, fun r => r.primaryMAC)]

/-- The reported counts, where nothing positive is blank. -/
def countColumns : List ((InventoryUpdate → Int) × (HostRow → Int)) :=
  [(fun u => u.hardware.cpu.logicalCores, fun r => r.cpuLogicalCores),
    (fun u => u.hardware.cpu.physicalCores, fun r => r.cpuPhysicalCores),
    (fun u => u.hardware.memoryBytes, fun r => r.memoryBytes)]

/-- The reported values that may be missing. -/
def optionalColumns : List ((InventoryUpdate → Option Int) × (HostRow → Option Int)) :=
  [(fun u => u.lastRestartedAt, fun r => r.lastRestartedAt),
    (fun u => u.bootVolume.availableBytes, fun r => r.bootVolumeAvailableBytes),
    (fun u => u.bootVolume.totalBytes, fun r => r.bootVolumeTotalBytes),
    (fun u => u.agents.osquery.distributedIntervalSeconds, fun r => r.osqueryDistributedIntervalSeconds),
    (fun u => u.agents.osquery.configRefreshSeconds, fun r => r.osqueryConfigRefreshSeconds)]

/-- A blank field leaves its column as it was. -/
structure KeepsBlank (update : InventoryUpdate) (row row' : HostRow) : Prop where
  texts : ∀ column ∈ textColumns, column.1 update = "" → column.2 row' = column.2 row
  counts : ∀ column ∈ countColumns, column.1 update ≤ 0 → column.2 row' = column.2 row
  optionals : ∀ column ∈ optionalColumns, column.1 update = none → column.2 row' = column.2 row
  scripts : update.agents.orbit.scriptsEnabled = none → row'.orbitScriptsEnabled = row.orbitScriptsEnabled
  address : update.network.primaryIP = "" → row'.primaryIP = row.primaryIP

/-- The shown name is the computer name, else the hostname, else the hardware UUID. -/
def Named (db : Db) : Prop :=
  ∀ id row, db.hosts.row id = some row →
    row.displayName = inventoryDisplayName row.hardwareUUID row.hostname row.computerName

/-- An inventory that the host's row accepts has a computer name or no hostname, or the host has
no computer name but this hostname. -/
def ReportsName (inet : String → Option String) (db : Db) (e : Event) : Prop :=
  ∀ id update row written, e = .applyInventory id update → db.hosts.row id = some row →
    db.inventoried inet id row update = .ok written →
    update.computerName ≠ "" ∨ update.hostname = "" ∨ row.computerName = "" ∨
      row.computerName = update.hostname

/-- What holds in a state that a run reached, and of the next step from it. -/
structure Lawful (inet : String → Option String) (start : Migrated) (es : List Event) (db : Db) : Prop where
  one_row : ∀ id id' row row', db.hosts.row id = some row → db.hosts.row id' = some row' →
    row.hardwareUUID = row'.hardwareUUID → id = id'
  stays : ∀ id row e, db.hosts.row id = some row → e ≠ .delete id →
    ∃ row', (step inet db e).hosts.row id = some row' ∧ row'.hardwareUUID = row.hardwareUUID
  never_reused : ∀ before after id row row', es = before ++ after →
    (exec (step inet) start.db before).hosts.row id = some row → db.hosts.row id = some row' →
    row'.hardwareUUID = row.hardwareUUID
  enrolls : ∀ agent e id key, enrolled db agent e = some (id, key) →
    (∃ row, (step inet db e).hosts.row id = some row ∧ reportedUUID e = some row.hardwareUUID ∧
      agent.nodeKey row = key) ∧
    ∀ id' row', db.hosts.row id' = some row' → reportedUUID e = some row'.hardwareUUID → id' = id
  node_keys : ∀ agent key id, Authenticates db agent key id ↔ LastEnrollment inet agent id key start.db es
  tokens : ∀ token id, Validates db token id ↔ LastToken inet id token start.db es
  replaced_key : ∀ agent e id key row, enrolled db agent e = some (id, key) → db.hosts.row id = some row →
    agent.nodeKey row ≠ key → ∀ id', ¬ Authenticates (step inet db e) agent (agent.nodeKey row) id'
  replaced_token : ∀ e id key row, enrolled db .orbit e = some (id, key) → db.hosts.row id = some row →
    ∀ id', ¬ Validates (step inet db e) row.orbitDeviceAuthToken id'
  other_key : ∀ agent other e answer, enrolled db agent e = some answer → other ≠ agent →
    ∀ key id, Authenticates (step inet db e) other key id ↔ Authenticates db other key id
  joined : ∃ labelID, db.allHosts = [labelID] ∧
    ∀ id row, db.hosts.row id = some row → (labelID, id) ∈ db.members
  keeps_blank : ∀ id update row, db.hosts.row id = some row →
    ∃ row', (step inet db (.applyInventory id update)).hosts.row id = some row' ∧ KeepsBlank update row row'

theorem sameValue_clashes (h : row.hardwareUUID = row'.hardwareUUID ∨ sameValue HostRow.orbitNodeKey row row' = true ∨
    sameValue HostRow.orbitDeviceAuthToken row row' = true ∨ sameValue HostRow.osqueryNodeKey row row' = true) :
    row.clashes row' = true := by
  rw [HostRow.clashes]
  cases h with
  | inl h => simp [h]
  | inr h =>
    cases h with
    | inl h => simp [h]
    | inr h =>
      cases h with
      | inl h => simp [h]
      | inr h => simp [h]

theorem same_id (hunique : Unique db) (hrow : db.hosts.row id = some row) (hrow' : db.hosts.row id' = some row')
    (hclash : row.clashes row' = true) : id = id' := by
  by_contra hne
  have hfalse := hunique id id' row row' hrow hrow' hne
  rw [hclash] at hfalse
  cases hfalse

/-- The answer is the host whose column has the value. -/
theorem getByIdentity_iff {column : HostRow → String} (hunique : Unique db)
    (hclash : ∀ a b, sameValue column a b = true → a.clashes b = true) {value : String} :
    (getByIdentity db column value).map Prod.fst = some id ↔ credential column id db = some value := by
  have hone : ∀ id id' row row', db.hosts.row id = some row → db.hosts.row id' = some row' →
      (column row == value && column row != "") = true →
      (column row' == value && column row' != "") = true → id = id' := by
    intro id id' row row' hrow hrow' hvalue hvalue'
    obtain ⟨heq, hne⟩ := Bool.and_eq_true_iff.mp hvalue
    obtain ⟨heq', -⟩ := Bool.and_eq_true_iff.mp hvalue'
    apply same_id hunique hrow hrow'
    apply hclash
    rw [sameValue, hne, beq_iff_eq.mp heq, beq_iff_eq.mp heq', beq_self_eq_true]
    rfl
  rw [credential, Option.filter_eq_some_iff, Option.map_eq_some_iff, Option.map_eq_some_iff]
  constructor
  · rintro ⟨⟨other, row⟩, hfound, rfl⟩
    obtain ⟨hrow, hvalue⟩ := (find_iff hone).mp hfound
    obtain ⟨heq, hne⟩ := Bool.and_eq_true_iff.mp hvalue
    have hsame := beq_iff_eq.mp heq
    constructor
    · exact ⟨row, hrow, hsame⟩
    · rwa [hsame] at hne
  · rintro ⟨⟨row, hrow, rfl⟩, hne⟩
    exact ⟨(id, row), (find_iff hone).mpr ⟨hrow, Bool.and_eq_true_iff.mpr ⟨beq_self_eq_true _, hne⟩⟩, rfl⟩

theorem authenticates_iff (hunique : Unique db) {key : String} :
    Authenticates db agent key id ↔ credential agent.nodeKey id db = some key := by
  apply getByIdentity_iff hunique
  intro a b h
  cases agent with
  | orbit => exact sameValue_clashes (Or.inr (Or.inl h))
  | osquery => exact sameValue_clashes (Or.inr (Or.inr (Or.inr h)))

theorem validates_iff (hunique : Unique db) {token : String} :
    Validates db token id ↔ credential HostRow.orbitDeviceAuthToken id db = some token := by
  apply getByIdentity_iff hunique
  intro a b h
  exact sameValue_clashes (Or.inr (Or.inr (Or.inl h)))

theorem one_row_of_unique (hunique : Unique db) (hrow : db.hosts.row id = some row)
    (hrow' : db.hosts.row id' = some row') (hsame : row.hardwareUUID = row'.hardwareUUID) : id = id' :=
  same_id hunique hrow hrow' (sameValue_clashes (Or.inl hsame))

theorem row_stays (inet : String → Option String) (hrow : db.hosts.row id = some row) (hdelete : e ≠ .delete id) :
    ∃ row', (step inet db e).hosts.row id = some row' ∧ row'.hardwareUUID = row.hardwareUUID := by
  cases step_effect inet db e with
  | kept _ rows =>
    rw [rows]
    exact ⟨row, hrow, rfl⟩
  | enrolled _ id' _ written _ _ _ writes reenrolled =>
    rw [writes.rows]
    by_cases hid : id = id'
    · subst hid
      rw [if_pos rfl]
      exact ⟨written, rfl, ((reenrolled.stored row hrow).1).symm⟩
    · rw [if_neg hid]
      exact ⟨row, hrow, rfl⟩
  | inventoried _ id' _ old written _ held hwritten writes =>
    rw [writes.rows]
    by_cases hid : id = id'
    · subst hid
      rw [hrow] at held
      cases held
      obtain ⟨-, address, rfl, -⟩ := inventoried_ok hwritten
      rw [if_pos rfl]
      exact ⟨_, rfl, rfl⟩
    · rw [if_neg hid]
      exact ⟨row, hrow, rfl⟩
  | token id' _ old _ _ held writes =>
    rw [writes.rows]
    by_cases hid : id = id'
    · subst hid
      rw [hrow] at held
      cases held
      rw [if_pos rfl]
      exact ⟨_, rfl, rfl⟩
    · rw [if_neg hid]
      exact ⟨row, hrow, rfl⟩
  | deleted _ id' event rows =>
    rw [rows]
    have hid : id ≠ id' := by
      rintro rfl
      exact hdelete event
    rw [if_neg hid]
    exact ⟨row, hrow, rfl⟩

/-- The id was handed out, and to nobody but this hardware UUID. -/
def Owned (id : Int) (uuid : String) (db : Db) : Prop :=
  id ≤ db.hosts.used ∧ ∀ row, db.hosts.row id = some row → row.hardwareUUID = uuid

theorem owned_step {uuid : String} (inet : String → Option String) (db : Db) (e : Event)
    (howned : Owned id uuid db) : Owned id uuid (step inet db e) := by
  obtain ⟨hused, huuid⟩ := howned
  cases step_effect inet db e with
  | kept _ rows used =>
    constructor
    · omega
    · intro row hrow
      rw [rows] at hrow
      exact huuid row hrow
  | enrolled _ id' _ written _ _ _ writes reenrolled _ fresh =>
    have hgrow := writes.used
    constructor
    · omega
    · intro row hrow
      rw [writes.rows] at hrow
      by_cases hid : id = id'
      · rw [if_pos hid] at hrow
        cases hrow
        cases hold : db.hosts.row id' with
        | none =>
          have hnext := (fresh hold).1
          rw [Table.next] at hnext
          omega
        | some held => rw [← (reenrolled.stored held hold).1, huuid held (hid ▸ hold)]
      · rw [if_neg hid] at hrow
        exact huuid row hrow
  | inventoried _ id' _ old written _ held hwritten writes =>
    have hgrow := writes.used
    constructor
    · omega
    · intro row hrow
      rw [writes.rows] at hrow
      by_cases hid : id = id'
      · rw [if_pos hid] at hrow
        cases hrow
        obtain ⟨-, address, rfl, -⟩ := inventoried_ok hwritten
        exact huuid old (hid ▸ held)
      · rw [if_neg hid] at hrow
        exact huuid row hrow
  | token id' _ old _ _ held writes =>
    have hgrow := writes.used
    constructor
    · omega
    · intro row hrow
      rw [writes.rows] at hrow
      by_cases hid : id = id'
      · rw [if_pos hid] at hrow
        cases hrow
        exact huuid old (hid ▸ held)
      · rw [if_neg hid] at hrow
        exact huuid row hrow
  | deleted _ id' _ rows used =>
    constructor
    · omega
    · intro row hrow
      rw [rows] at hrow
      by_cases hid : id = id'
      · rw [if_pos hid] at hrow
        cases hrow
      · rw [if_neg hid] at hrow
        exact huuid row hrow

theorem enrolled_row {key : String} (inet : String → Option String)
    (henrolled : enrolled db agent e = some (id, key)) :
    (∃ row, (step inet db e).hosts.row id = some row ∧ reportedUUID e = some row.hardwareUUID ∧
      agent.nodeKey row = key) ∧
    ∀ id' row', db.hosts.row id' = some row' → reportedUUID e = some row'.hardwareUUID → id' = id := by
  cases step_effect inet db e with
  | kept quiet =>
    rw [quiet.enrolled] at henrolled
    cases henrolled
  | enrolled other id' key' row henrolled' others _ writes reenrolled uuid _ found =>
    have hagent : agent = other := by
      by_contra hne
      rw [others agent hne] at henrolled
      cases henrolled
    subst hagent
    rw [henrolled] at henrolled'
    cases henrolled'
    constructor
    · exists row
      constructor
      · rw [writes.rows, if_pos rfl]
      · exact ⟨uuid, reenrolled.key⟩
    · intro id' row' hrow' huuid
      apply found id' row' hrow'
      exact Option.some.inj (huuid.symm.trans uuid)
  | inventoried quiet =>
    rw [quiet.enrolled] at henrolled
    cases henrolled
  | token _ _ _ enrolled =>
    rw [enrolled] at henrolled
    cases henrolled
  | deleted quiet =>
    rw [quiet.enrolled] at henrolled
    cases henrolled

theorem keepText_blank {reported stored : String} (h : reported = "") : keepText reported stored = stored :=
  if_pos h

theorem keepText_reported {reported stored : String} (h : reported ≠ "") : keepText reported stored = reported :=
  if_neg h

theorem keepCount_blank {reported stored : Int} (h : reported ≤ 0) : keepCount reported stored = stored :=
  if_neg (not_lt.mpr h)

theorem keepsBlank_applyInventory (row : HostRow) (update : InventoryUpdate) {address : Option String}
    (haddress : update.network.primaryIP = "" → address = none) :
    KeepsBlank update row (row.applyInventory update address) := by
  constructor
  · intro column hcolumn hblank
    simp only [textColumns, List.mem_cons, List.not_mem_nil, or_false] at hcolumn
    rcases hcolumn with rfl | rfl | rfl | rfl | rfl | rfl | rfl | rfl | rfl | rfl | rfl | rfl | rfl | rfl | rfl | rfl
    all_goals exact keepText_blank hblank
  · intro column hcolumn hblank
    simp only [countColumns, List.mem_cons, List.not_mem_nil, or_false] at hcolumn
    rcases hcolumn with rfl | rfl | rfl
    all_goals exact keepCount_blank hblank
  · intro column hcolumn hblank
    simp only [optionalColumns, List.mem_cons, List.not_mem_nil, or_false] at hcolumn
    rcases hcolumn with rfl | rfl | rfl | rfl | rfl
    all_goals
      simp only at hblank
      simp only [HostRow.applyInventory, hblank, Option.none_or]
  · intro hblank
    rw [HostRow.applyInventory, hblank, Option.none_or]
  · intro hblank
    rw [HostRow.applyInventory, haddress hblank, Option.none_or]

theorem keepsBlank_self (update : InventoryUpdate) (row : HostRow) : KeepsBlank update row row :=
  ⟨fun _ _ _ => rfl, fun _ _ _ => rfl, fun _ _ _ => rfl, fun _ => rfl, fun _ => rfl⟩

theorem inventory_keepsBlank (inet : String → Option String) (update : InventoryUpdate)
    (hrow : db.hosts.row id = some row) : ∃ row',
    (step inet db (.applyInventory id update)).hosts.row id = some row' ∧ KeepsBlank update row row' := by
  rw [step, applyInventory, hrow]
  cases hwritten : db.inventoried inet id row update with
  | error fault =>
    simp only [hwritten]
    exact ⟨row, hrow, keepsBlank_self update row⟩
  | ok written =>
    obtain ⟨-, address, rfl, haddress⟩ := inventoried_ok hwritten
    simp only [hwritten]
    exists row.applyInventory update address
    constructor
    · rw [Table.row_modify, if_pos rfl, hrow]
      rfl
    · exact keepsBlank_applyInventory row update haddress

/-- The three COALESCE keep the name right except where a hostname comes without a computer name. -/
theorem named_applyInventory {update : InventoryUpdate} {address : Option String}
    (hnamed : row.displayName = inventoryDisplayName row.hardwareUUID row.hostname row.computerName) :
    (row.applyInventory update address).displayName = inventoryDisplayName
        (row.applyInventory update address).hardwareUUID (row.applyInventory update address).hostname
        (row.applyInventory update address).computerName ↔
      update.computerName ≠ "" ∨ update.hostname = "" ∨ row.computerName = "" ∨
        row.computerName = update.hostname := by
  simp only [HostRow.applyInventory]
  by_cases hcomputer : update.computerName = ""
  · by_cases hhost : update.hostname = ""
    · simp only [keepText_blank hcomputer, keepText_blank hhost]
      exact iff_of_true hnamed (Or.inr (Or.inl hhost))
    · simp only [keepText_blank hcomputer, keepText_reported hhost, inventoryDisplayName]
      by_cases hstored : row.computerName = ""
      · rw [if_neg (not_not.mpr hstored), if_pos hhost]
        exact iff_of_true rfl (Or.inr (Or.inr (Or.inl hstored)))
      · rw [if_pos hstored]
        constructor
        · intro hname
          exact Or.inr (Or.inr (Or.inr hname.symm))
        · intro hreport
          rw [or_iff_right (not_not.mpr hcomputer), or_iff_right hhost, or_iff_right hstored] at hreport
          exact hreport.symm
  · simp only [keepText_reported hcomputer, inventoryDisplayName]
    exact iff_of_true (if_pos hcomputer).symm (Or.inl hcomputer)

theorem named_step (inet : String → Option String) (db : Db) (e : Event) (hnamed : Named db) :
    Named (step inet db e) ↔ ReportsName inet db e := by
  cases step_effect inet db e with
  | kept _ rows _ _ _ inventories =>
    apply iff_of_true
    · intro id row hrow
      rw [rows] at hrow
      exact hnamed id row hrow
    · intro id update row written hevent hrow hwritten
      exact absurd hwritten (inventories id update row written hevent hrow)
  | enrolled _ id' _ written henrolled _ _ writes reenrolled =>
    apply iff_of_true
    · intro id row hrow
      rw [writes.rows] at hrow
      by_cases hid : id = id'
      · rw [if_pos hid] at hrow
        cases hrow
        exact reenrolled.named
      · rw [if_neg hid] at hrow
        exact hnamed id row hrow
    · intro id update row written' hevent
      subst hevent
      cases ‹Agent› with
      | orbit => cases henrolled
      | osquery => cases henrolled
  | inventoried _ id' update old written event held hwritten writes =>
    obtain ⟨-, address, rfl, -⟩ := inventoried_ok hwritten
    subst event
    constructor
    · intro hafter id update' row written' hevent hrow _
      cases hevent
      rw [held] at hrow
      cases hrow
      apply (named_applyInventory (hnamed _ old held)).mp
      exact hafter _ _ (by rw [writes.rows, if_pos rfl])
    · intro hreports id row hrow
      rw [writes.rows] at hrow
      by_cases hid : id = id'
      · rw [if_pos hid] at hrow
        cases hrow
        apply (named_applyInventory (hnamed id' old held)).mpr
        exact hreports id' update old _ rfl held hwritten
      · rw [if_neg hid] at hrow
        exact hnamed id row hrow
  | token id' _ old _ _ held writes _ event =>
    apply iff_of_true
    · intro id row hrow
      rw [writes.rows] at hrow
      by_cases hid : id = id'
      · rw [if_pos hid] at hrow
        cases hrow
        exact hnamed id' old held
      · rw [if_neg hid] at hrow
        exact hnamed id row hrow
    · intro id update row written hevent
      obtain ⟨nodeKey, rfl⟩ := event
      cases hevent
  | deleted _ id' event rows =>
    apply iff_of_true
    · intro id row hrow
      rw [rows] at hrow
      by_cases hid : id = id'
      · rw [if_pos hid] at hrow
        cases hrow
      · rw [if_neg hid] at hrow
        exact hnamed id row hrow
    · intro id update row written hevent
      rw [event] at hevent
      cases hevent

theorem enrolled_other {answer : Int × String} (henrolled : enrolled db agent e = some answer)
    (hne : agent' ≠ agent) : enrolled db agent' e = none := by
  cases e with
  | enrollOrbit update contact =>
    cases agent with
    | osquery => cases henrolled
    | orbit =>
      cases agent' with
      | orbit => exact absurd rfl hne
      | osquery => rfl
  | enrollOsquery update contact =>
    cases agent with
    | orbit => cases henrolled
    | osquery =>
      cases agent' with
      | orbit => rfl
      | osquery => exact absurd rfl hne
  | applyInventory id update => cases agent' <;> rfl
  | setToken nodeKey token => cases agent' <;> rfl
  | delete id => cases agent' <;> rfl

theorem credential_of_row {column : HostRow → String} {value : String} (hrow : db.hosts.row id = some row)
    (hother : credential column id' db = some (column row)) (hvalue : value = column row) :
    credential column id db = some value := by
  have hne := (Option.filter_eq_some_iff.mp hother).2
  rw [credential, hrow, hvalue]
  exact Option.filter_some_pos hne

theorem replaced_key {key : String} (inet : String → Option String) (hunique : Unique db)
    (henrolled : enrolled db agent e = some (id, key)) (hrow : db.hosts.row id = some row)
    (hreplaced : agent.nodeKey row ≠ key) (id' : Int) :
    ¬ Authenticates (step inet db e) agent (agent.nodeKey row) id' := by
  rw [authenticates_iff (unique_step inet e hunique), nodeKey_step, keyWrites, if_neg (not_deletes henrolled),
    henrolled]
  by_cases hid : id' = id
  · rw [hid, onHost_some.mpr rfl]
    intro hsame
    exact hreplaced (nonempty_eq_some.mp hsame).1.symm
  · rw [onHost_other hid]
    intro hsame
    have hheld := credential_of_row hrow hsame rfl
    have hanswer := (authenticates_iff hunique).mpr hheld
    have hanswer' := (authenticates_iff hunique).mpr hsame
    exact hid (Option.some.inj (hanswer'.symm.trans hanswer))

theorem replaced_token {key : String} (inet : String → Option String) (hunique : Unique db)
    (henrolled : enrolled db .orbit e = some (id, key)) (hrow : db.hosts.row id = some row) (id' : Int) :
    ¬ Validates (step inet db e) row.orbitDeviceAuthToken id' := by
  rw [validates_iff (unique_step inet e hunique), token_step]
  by_cases hid : id' = id
  · have hends : (onHost id' (enrolled db .orbit e)).isSome = true := by
      rw [henrolled, hid, onHost_some.mpr rfl]
      rfl
    rw [tokenWrites, if_pos (Or.inr hends)]
    intro h
    cases h
  · have hnone : tokenWrites id' db e = none := by
      apply tokenWrites_none.mpr
      constructor
      · intro hdelete
        exact not_deletes henrolled (deletes_iff.mpr hdelete)
      · constructor
        · intro other h
          rw [henrolled] at h
          cases h
          exact hid rfl
        · intro token h
          rw [tokenSet_enrolled henrolled] at h
          cases h
    rw [hnone]
    intro hsame
    have hheld := credential_of_row hrow hsame rfl
    have hanswer := (validates_iff hunique).mpr hheld
    have hanswer' := (validates_iff hunique).mpr hsame
    exact hid (Option.some.inj (hanswer'.symm.trans hanswer))

theorem other_key {answer : Int × String} (inet : String → Option String) (hunique : Unique db)
    (henrolled : enrolled db agent e = some answer) (hne : agent' ≠ agent) (key : String) (id : Int) :
    Authenticates (step inet db e) agent' key id ↔ Authenticates db agent' key id := by
  rw [authenticates_iff (unique_step inet e hunique), authenticates_iff hunique, nodeKey_step, keyWrites,
    if_neg (not_deletes henrolled), enrolled_other henrolled hne]
  rfl

theorem unique_start (start : Migrated) : Unique start.db := by
  intro id id' row row' hrow
  rw [start.no_host] at hrow
  cases hrow

theorem joined_start (start : Migrated) : Joined start.db := by
  intro id row hrow
  rw [start.no_host] at hrow
  cases hrow

theorem named_start (start : Migrated) : Named start.db := by
  intro id row hrow
  rw [start.no_host] at hrow
  cases hrow

theorem unique_exec (inet : String → Option String) (start : Migrated) (es : List Event) :
    Unique (exec (step inet) start.db es) :=
  exec_invariant (fun _ e h => unique_step inet e h) es (unique_start start)

theorem allHosts_exec (inet : String → Option String) (start : Migrated) (es : List Event) :
    (exec (step inet) start.db es).allHosts = start.db.allHosts :=
  exec_invariant (P := fun db => db.allHosts = start.db.allHosts)
    (fun db e h => (allHosts_step inet db e).trans h) es rfl

theorem credential_start (column : HostRow → String) (id : Int) (start : Migrated) :
    credential column id start.db = none := by
  rw [credential, start.no_host]
  rfl

theorem lastEnrollment_iff {key : String} (db : Db) : LastWrite (step inet) (keyWrites agent id) key db es ↔
    LastEnrollment inet agent id key db es := by
  have huntouched : (fun db e => keyWrites agent id db e = none) =
      (fun db e => e ≠ .delete id ∧ ∀ other, enrolled db agent e ≠ some (id, other)) := by
    funext db e
    exact propext keyWrites_none
  rw [LastWrite, LastEnrollment]
  constructor
  · rintro ⟨before, e, after, hsplit, hwrite, hrest⟩
    obtain ⟨hne, henrolled⟩ := keyWrites_some.mp hwrite
    rw [Untouched, huntouched] at hrest
    exact ⟨hne, before, e, after, hsplit, henrolled, hrest⟩
  · rintro ⟨hne, before, e, after, hsplit, henrolled, hrest⟩
    rw [← huntouched] at hrest
    exact ⟨before, e, after, hsplit, keyWrites_some.mpr ⟨hne, henrolled⟩, hrest⟩

theorem lastToken_iff {token : String} (db : Db) : LastWrite (step inet) (tokenWrites id) token db es ↔
    LastToken inet id token db es := by
  have huntouched : (fun db e => tokenWrites id db e = none) =
      (fun db e => e ≠ .delete id ∧ (∀ key, enrolled db .orbit e ≠ some (id, key)) ∧
        ∀ other, tokenSet db e ≠ some (id, other)) := by
    funext db e
    exact propext tokenWrites_none
  rw [LastWrite, LastToken]
  constructor
  · rintro ⟨before, e, after, hsplit, hwrite, hrest⟩
    obtain ⟨hne, htoken⟩ := tokenWrites_some.mp hwrite
    rw [Untouched, huntouched] at hrest
    exact ⟨hne, before, e, after, hsplit, htoken, hrest⟩
  · rintro ⟨hne, before, e, after, hsplit, htoken, hrest⟩
    rw [← huntouched] at hrest
    exact ⟨before, e, after, hsplit, tokenWrites_some.mpr ⟨hne, htoken⟩, hrest⟩

theorem never_reused {before after : List Event} (start : Migrated) (hsplit : es = before ++ after)
    (hrow : (exec (step inet) start.db before).hosts.row id = some row)
    (hrow' : (exec (step inet) start.db es).hosts.row id = some row') :
    row'.hardwareUUID = row.hardwareUUID := by
  have howned : Owned id row.hardwareUUID (exec (step inet) start.db before) := by
    constructor
    · exact ((exec (step inet) start.db before).hosts.numbered id (by rw [hrow]; rfl)).2
    · intro held hheld
      rw [hrow] at hheld
      rw [Option.some.inj hheld]
  have hend := exec_invariant (fun db e h => owned_step inet db e h) after howned
  rw [← exec_append, ← hsplit] at hend
  exact hend.2 row' hrow'

theorem lawful (inet : String → Option String) (start : Migrated) (es : List Event) :
    Lawful inet start es (exec (step inet) start.db es) := by
  have hunique := unique_exec inet start es
  constructor
  · intro id id' row row' hrow hrow' hsame
    exact one_row_of_unique hunique hrow hrow' hsame
  · intro id row e hrow hdelete
    exact row_stays inet hrow hdelete
  · intro before after id row row' hsplit hrow hrow'
    exact never_reused start hsplit hrow hrow'
  · intro agent e id key henrolled
    exact enrolled_row inet henrolled
  · intro agent key id
    rw [authenticates_iff hunique, exec_cell_of_none (nodeKey_step agent id inet) (credential_start _ _ start),
      lastEnrollment_iff]
  · intro token id
    rw [validates_iff hunique, exec_cell_of_none (token_step id inet) (credential_start _ _ start),
      lastToken_iff]
  · intro agent e id key row henrolled hrow hreplaced
    exact replaced_key inet hunique henrolled hrow hreplaced
  · intro e id key row henrolled hrow
    exact replaced_token inet hunique henrolled hrow
  · intro agent other e answer henrolled hne
    exact other_key inet hunique henrolled hne
  · obtain ⟨labelID, hlabel⟩ := start.all_hosts
    exists labelID
    have hall := (allHosts_exec inet start es).trans hlabel
    constructor
    · exact hall
    · intro id row hrow
      have hjoined := exec_invariant (fun _ e h => joined_step inet e h) es (joined_start start)
      apply hjoined id row hrow
      rw [hall]
      exact List.mem_singleton_self labelID
  · intro id update row hrow
    exact inventory_keepsBlank inet update hrow

/-- Every run keeps the identities, the keys and the membership. The names are right in all of
its states exactly if every inventory along it reports its names together. -/
theorem hosts_survive_every_order (inet : String → Option String) (start : Migrated) (es : List Event) :
    Lawful inet start es (exec (step inet) start.db es) ∧
      ((∀ before, before <+: es → Named (exec (step inet) start.db before)) ↔
        Along (step inet) (ReportsName inet) start.db es) := by
  constructor
  · exact lawful inet start es
  · exact prefixes_iff_along (named_step inet) (named_start start)

def migrated : Migrated where
  db := { labels := [(1, { builtinKey := some "all-hosts", labelType := .builtin, labelMembershipType := .manual })] }
  no_host := fun _ => rfl
  no_member := rfl
  all_hosts := ⟨1, by decide⟩

/-- A host enrolls with both names, and its next inventory has a hostname only. -/
def renamed : List Event :=
  [.enrollOrbit { hostname := "lab-1", computerName := "Lab", hardware := { uuid := "U1" }, orbitNodeKey := "k" } true,
    .applyInventory 1 { hostname := "lab-2" }]

/-- The host is shown by its new hostname although its computer name is stored. -/
theorem hostname_hides_computer_name :
    ¬ Named (exec (step (fun _ => none)) migrated.db renamed) := by
  intro hnamed
  have hrow : (exec (step (fun _ => none)) migrated.db renamed).hosts.row 1 =
      some { hardwareUUID := "U1", displayName := "lab-2", hostname := "lab-2", computerName := "Lab",
             orbitNodeKey := "k", enrollmentAgent := "orbit" } := by decide
  have hname := hnamed 1 _ hrow
  exact absurd hname (by decide)

end HostHistories
