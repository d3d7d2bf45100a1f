import Woodstar.DetailValues
import Woodstar.LiveEffects
import Woodstar.TextPieces

/-!
# What one result changes

A result that the stores accept changes the columns of its query, or one live run. Results
of different queries commute.
-/
namespace DetailEffects

open DetailRows
open DetailStore
open DetailValues
open HostEnrollment (HostRow InventoryUpdate)
open KeyedRows (Table)
open LiveQueries (Row)
open Primitives (Fault isText)

variable {server : Server} {w s : World} {name name' : DetailName} {rows rows' : List Row}

/-- What the query writes of the host row. -/
def updateOf (server : Server) (rows : List Row) (name : DetailName) : InventoryUpdate :=
  match name.ingest with
  | .hostDetail | .uptime => (rows.head?.map (partOf server name)).getD {}
  | .osqueryFlags => parseOsqueryFlags rows
  | _ => {}

/-- Only the columns of the query are not blank. -/
structure Within (name : DetailName) (update : InventoryUpdate) : Prop where
  names : name ≠ .systemInfo → update.hostname = "" ∧ update.computerName = ""
  hardware : name ≠ .systemInfo → update.hardware = {}
  os : name ≠ .osVersion → update.os = {}
  kernel : update.os.kernelVersion = ""
  restarted : name ≠ .uptime → update.lastRestartedAt = none
  volume : name ≠ .rootDiskDarwin → update.bootVolume = {}
  network : name ≠ .primaryInterfaceUnix → update.network = {}
  orbit : name ≠ .orbitInfo → update.agents.orbit = {}
  osquery : name ≠ .osqueryInfo → update.agents.osquery.version = ""
  intervals : name ≠ .osqueryFlags →
    update.agents.osquery.distributedIntervalSeconds = none ∧ update.agents.osquery.configRefreshSeconds = none

theorem within_blank (name : DetailName) : Within name {} := by
  constructor <;> simp

theorem within_partOf (name : DetailName) (row : Row) : Within name (partOf server name row) := by
  cases name with
  | uptime =>
    simp only [partOf, readUptime]
    cases parsePositiveInt64Ptr (text row "total_seconds") with
    | none => exact within_blank _
    | some seconds => constructor <;> simp
  | rootDiskDarwin =>
    simp only [partOf, readRootDisk]
    split_ifs
    · constructor <;> simp
    · constructor <;> simp
    · exact within_blank _
  | systemInfo => constructor <;> simp [partOf, readSystemInfo]
  | osqueryInfo => constructor <;> simp [partOf, readOsqueryInfo]
  | orbitInfo => constructor <;> simp [partOf, readOrbitInfo]
  | osVersion => constructor <;> simp [partOf, readOSVersion]
  | primaryInterfaceUnix => constructor <;> simp [partOf, readPrimaryInterface]
  | _ => exact within_blank _

theorem within_flags (rows : List Row) : Within .osqueryFlags (parseOsqueryFlags rows) := by
  obtain ⟨distributed, config, heq, -, -⟩ := flagsOnly_parse rows
  rw [heq]
  constructor <;> simp

theorem within_updateOf (rows : List Row) (name : DetailName) : Within name (updateOf server rows name) := by
  have hrow : Within name ((rows.head?.map (partOf server name)).getD {}) := by
    cases rows.head? with
    | none => exact within_blank name
    | some row => exact within_partOf name row
  rw [updateOf]
  cases name with
  | osqueryFlags => exact within_flags rows
  | osVersion => exact hrow
  | systemInfo => exact hrow
  | osqueryInfo => exact hrow
  | orbitInfo => exact hrow
  | uptime => exact hrow
  | rootDiskDarwin => exact hrow
  | primaryInterfaceUnix => exact hrow
  | _ => exact within_blank _

theorem keepText_comm {a b : String} (h : a = "" ∨ b = "") (old : String) :
    HostEnrollment.keepText a (HostEnrollment.keepText b old) =
      HostEnrollment.keepText b (HostEnrollment.keepText a old) := by
  cases h with
  | inl h => rw [h]; rfl
  | inr h => rw [h]; rfl

theorem keepCount_comm {a b : Int} (h : a = 0 ∨ b = 0) (old : Int) :
    HostEnrollment.keepCount a (HostEnrollment.keepCount b old) =
      HostEnrollment.keepCount b (HostEnrollment.keepCount a old) := by
  cases h with
  | inl h => rw [h]; rfl
  | inr h => rw [h]; rfl

theorem or_comm_of_none {α : Type} {a b : Option α} (h : a = none ∨ b = none) (old : Option α) :
    a.or (b.or old) = b.or (a.or old) := by
  cases h with
  | inl h => rw [h]; rfl
  | inr h => rw [h]; rfl

/-- Two updates that write no column together. -/
structure Apart (u v : InventoryUpdate) : Prop where
  names : (u.hostname = "" ∧ u.computerName = "") ∨ (v.hostname = "" ∧ v.computerName = "")
  hardware : u.hardware = {} ∨ v.hardware = {}
  os : u.os = {} ∨ v.os = {}
  restarted : u.lastRestartedAt = none ∨ v.lastRestartedAt = none
  volume : u.bootVolume = {} ∨ v.bootVolume = {}
  network : u.network = {} ∨ v.network = {}
  orbit : u.agents.orbit = {} ∨ v.agents.orbit = {}
  osquery : u.agents.osquery.version = "" ∨ v.agents.osquery.version = ""
  distributed : u.agents.osquery.distributedIntervalSeconds = none ∨
    v.agents.osquery.distributedIntervalSeconds = none
  config : u.agents.osquery.configRefreshSeconds = none ∨ v.agents.osquery.configRefreshSeconds = none

/-- A query that is not one of two different queries. -/
theorem one_of_ne (h : name ≠ name') (owner : DetailName) {p q : Prop} (hp : name ≠ owner → p)
    (hq : name' ≠ owner → q) : p ∨ q := by
  by_cases howner : name = owner
  · exact .inr (hq fun howner' => h (howner.trans howner'.symm))
  · exact .inl (hp howner)

theorem apart_of_within {u v : InventoryUpdate} (h : name ≠ name') (hu : Within name u) (hv : Within name' v) :
    Apart u v := by
  constructor
  · exact one_of_ne h _ hu.names hv.names
  · exact one_of_ne h _ hu.hardware hv.hardware
  · exact one_of_ne h _ hu.os hv.os
  · exact one_of_ne h _ hu.restarted hv.restarted
  · exact one_of_ne h _ hu.volume hv.volume
  · exact one_of_ne h _ hu.network hv.network
  · exact one_of_ne h _ hu.orbit hv.orbit
  · exact one_of_ne h _ hu.osquery hv.osquery
  · exact one_of_ne h _ (fun hne => (hu.intervals hne).1) (fun hne => (hv.intervals hne).1)
  · exact one_of_ne h _ (fun hne => (hu.intervals hne).2) (fun hne => (hv.intervals hne).2)

theorem address_apart {u v : InventoryUpdate} (h : Apart u v) : addressOf server u = none ∨ addressOf server v = none :=
  h.network.imp (fun hnetwork => by rw [addressOf, hnetwork]; rfl) (fun hnetwork => by rw [addressOf, hnetwork]; rfl)

theorem part_or {α β : Type} {a b c : α} (part : α → β) (h : a = c ∨ b = c) : part a = part c ∨ part b = part c :=
  h.imp (congrArg part) (congrArg part)

theorem patchRow_comm {u v : InventoryUpdate} (h : Apart u v) (row : HostRow) :
    patchRow server u (patchRow server v row) = patchRow server v (patchRow server u row) := by
  have hdisplay : HostEnrollment.keepText u.computerName (HostEnrollment.keepText u.hostname
      (HostEnrollment.keepText v.computerName (HostEnrollment.keepText v.hostname row.displayName))) =
      HostEnrollment.keepText v.computerName (HostEnrollment.keepText v.hostname
        (HostEnrollment.keepText u.computerName (HostEnrollment.keepText u.hostname row.displayName))) := by
    cases h.names with
    | inl h => rw [h.1, h.2]; rfl
    | inr h => rw [h.1, h.2]; rfl
  simp only [patchRow, keptUpdate, HostRow.applyInventory, HostRow.mk.injEq, true_and, and_true]
  exact ⟨hdisplay,
    keepText_comm (h.names.imp And.left And.left) _,
    keepText_comm (h.names.imp And.right And.right) _,
    keepText_comm (part_or (fun hardware => hardware.serial) h.hardware) _,
    keepText_comm (part_or (fun hardware => hardware.modelIdentifier) h.hardware) _,
    keepText_comm (part_or (fun hardware => hardware.vendor) h.hardware) _,
    keepText_comm (part_or (fun os => os.name) h.os) _,
    keepText_comm (part_or (fun os => os.version) h.os) _,
    keepText_comm (part_or (fun os => os.build) h.os) _,
    keepText_comm (part_or (fun os => os.platform) h.os) _,
    keepText_comm h.osquery _,
    keepText_comm (part_or (fun orbit => orbit.version) h.orbit) _,
    or_comm_of_none (part_or (fun orbit => orbit.scriptsEnabled) h.orbit) _,
    keepText_comm (part_or (fun hardware => hardware.cpu.architecture) h.hardware) _,
    keepText_comm (part_or (fun hardware => hardware.cpu.subtype) h.hardware) _,
    keepText_comm (part_or (fun hardware => hardware.cpu.brand) h.hardware) _,
    keepCount_comm (part_or (fun hardware => hardware.cpu.logicalCores) h.hardware) _,
    keepCount_comm (part_or (fun hardware => hardware.cpu.physicalCores) h.hardware) _,
    keepCount_comm (part_or (fun hardware => hardware.memoryBytes) h.hardware) _,
    keepText_comm (part_or (fun os => os.kernelVersion) h.os) _,
    or_comm_of_none (h.restarted.imp (fun hu => by rw [hu]; rfl) (fun hv => by rw [hv]; rfl)) _,
    or_comm_of_none (part_or (fun volume => volume.availableBytes) h.volume) _,
    or_comm_of_none (part_or (fun volume => volume.totalBytes) h.volume) _,
    or_comm_of_none (address_apart h) _,
    keepText_comm (part_or (fun network => network.primaryMAC) h.network) _,
    or_comm_of_none h.distributed _,
    or_comm_of_none h.config _⟩

/-- A blank update changes nothing. -/
theorem patchRow_blank (row : HostRow) : patchRow server {} row = row := rfl

/-- What a result does to the tables that results write. -/
structure Change where
  hosts : Table HostRow → Table HostRow := id
  users : (Int → String × String → Option HostUser) → Int → String × String → Option HostUser := id
  batteries : (Int → String → Option HostBattery) → Int → String → Option HostBattery := id
  certificates : (Int → String × String × String → Option HostCertificate) →
    Int → String × String × String → Option HostCertificate := id
  live : LiveQueries.Db → LiveQueries.Db := id

def Change.apply (c : Change) (w : World) : World :=
  { w with
    hosts := c.hosts w.hosts
    users := c.users w.users
    batteries := c.batteries w.batteries
    certificates := c.certificates w.certificates
    live := c.live w.live }

def patch (server : Server) (update : InventoryUpdate) (hosts : Table HostRow) : Table HostRow :=
  hosts.modify server.hostID (patchRow server update)

def detailChange (server : Server) (rows : List Row) (name : DetailName) : Change where
  hosts := patch server (updateOf server rows name)
  users := fun users =>
    if name = .users then Function.update users server.hostID
      (keyed (fun user => (user.uid, user.username))
        ((parseHostUsers rows).filter (fun user => user.uid ≠ "" ∧ user.username ≠ "")))
    else users
  batteries := fun batteries =>
    if name = .batteries then Function.update batteries server.hostID
      (keyed HostBattery.serialNumber
        ((parseHostBatteries server.readers rows).filter (fun battery => battery.serialNumber ≠ "")))
    else batteries
  certificates := fun certificates =>
    if name = .certificatesDarwin then Function.update certificates server.hostID
      (keyed (fun certificate => (certificate.sha1, certificate.source, certificate.username))
        (((parseHostCertificates rows).filter (fun certificate => certificate.sha1 ≠ "")).map
          (keptCertificate server)))
    else certificates

/-- The rows of the query fit the tables. -/
def DetailClean (server : Server) (w : World) (rows : List Row) : DetailName → Prop
  | .systemInfo => ∀ row, rows.head? = some row → SerialFree server w (text row "hardware_serial")
  | .users => ∀ row ∈ rows, UserClean row
  | .batteries => ∀ row ∈ rows, BatteryClean row
  | .certificatesDarwin => ∀ row ∈ rows, CertificateClean server row
  | _ => True

theorem patch_blank (hosts : Table HostRow) : patch server {} hosts = hosts :=
  Reorderings.modify_eq_self fun row _ => patchRow_blank row

/-- The serial number that the query writes. -/
theorem serialFree_updateOf (h : DetailClean server s rows name) :
    SerialFree server s (updateOf server rows name).hardware.serial := by
  by_cases hname : name = .systemInfo
  · rw [hname] at h ⊢
    cases hrow : rows.head? with
    | none =>
      rw [updateOf, hrow]
      exact serialFree_blank s
    | some row =>
      rw [updateOf, hrow]
      exact h row hrow
  · rw [(within_updateOf rows name).hardware hname]
    exact serialFree_blank s

theorem clean_of_serialFree (hname : name ≠ .users ∧ name ≠ .batteries ∧ name ≠ .certificatesDarwin)
    (h : SerialFree server s (updateOf server rows name).hardware.serial) : DetailClean server s rows name := by
  cases name with
  | systemInfo =>
    intro row hrow
    rw [updateOf, hrow] at h
    exact h
  | users => exact absurd rfl hname.1
  | batteries => exact absurd rfl hname.2.1
  | certificatesDarwin => exact absurd rfl hname.2.2
  | _ => trivial

theorem apply_inventory (hname : name ≠ .users ∧ name ≠ .batteries ∧ name ≠ .certificatesDarwin) :
    (detailChange server rows name).apply s = inventory server (updateOf server rows name) s := by
  simp only [Change.apply, detailChange, if_neg hname.1, if_neg hname.2.1, if_neg hname.2.2]
  rfl

section Details

variable {row : HostRow} {s' : World}

theorem storable_updateOf (rows : List Row) (name : DetailName) :
    storableUpdate server (updateOf server rows name) = true := by
  have hrow : storableUpdate server ((rows.head?.map (partOf server name)).getD {}) = true := by
    cases rows.head? with
    | none => exact storableUpdate_empty server
    | some row => exact storableUpdate_partOf server name row
  rw [updateOf]
  cases name.ingest with
  | hostDetail => exact hrow
  | uptime => exact hrow
  | osqueryFlags => exact storableUpdate_flags server rows
  | _ => exact storableUpdate_empty server

theorem readable_updateOf (rows : List Row) (name : DetailName) : Readable server (updateOf server rows name) := by
  have hrow : Readable server ((rows.head?.map (partOf server name)).getD {}) := by
    cases rows.head? with
    | none => exact readable_of_blank rfl
    | some row => exact readable_partOf name row
  rw [updateOf]
  cases name.ingest with
  | hostDetail => exact hrow
  | uptime => exact hrow
  | osqueryFlags => exact readable_flags rows
  | _ => exact readable_of_blank rfl

/-- What is parsed of the host row is stored if the serial number is free. -/
theorem inventory_ok (hrow : s.hosts.row server.hostID = some row) (hfit : s.hostsDb.fits server.hostID row = true)
    (hname : name ≠ .users ∧ name ≠ .batteries ∧ name ≠ .certificatesDarwin) :
    applyInventory server s (updateOf server rows name) = .ok s' ↔
      DetailClean server s rows name ∧ s' = (detailChange server rows name).apply s := by
  rw [applyInventory_ok (storable_updateOf rows name) (readable_updateOf rows name) hrow hfit,
    apply_inventory hname]
  constructor
  · intro h
    exact ⟨clean_of_serialFree hname h.1, h.2⟩
  · intro h
    exact ⟨serialFree_updateOf h.1, h.2⟩

/-- A query that writes nothing at once. -/
theorem kept_ok (hname : name ≠ .users ∧ name ≠ .batteries ∧ name ≠ .certificatesDarwin)
    (hblank : updateOf server rows name = {}) :
    Except.ok s = (Except.ok s' : Except Fault World) ↔
      DetailClean server s rows name ∧ s' = (detailChange server rows name).apply s := by
  have hsame : (detailChange server rows name).apply s = s := by
    rw [apply_inventory hname, hblank]
    change { s with hosts := patch server {} s.hosts } = s
    rw [patch_blank]
  have hclean : DetailClean server s rows name := by
    apply clean_of_serialFree hname
    rw [hblank]
    exact serialFree_blank s
  rw [hsame, Except.ok.injEq]
  constructor
  · intro h
    exact ⟨hclean, h.symm⟩
  · intro h
    exact h.2.symm

theorem ingestHostDetail_ok (hrow : s.hosts.row server.hostID = some row)
    (hfit : s.hostsDb.fits server.hostID row = true)
    (hname : name ≠ .users ∧ name ≠ .batteries ∧ name ≠ .certificatesDarwin)
    (hupdate : updateOf server rows name = (rows.head?.map (partOf server name)).getD {}) :
    ingestHostDetail server s name rows = .ok s' ↔
      DetailClean server s rows name ∧ s' = (detailChange server rows name).apply s := by
  cases rows with
  | nil => exact kept_ok hname hupdate
  | cons first rest =>
    rw [ingestHostDetail, hostDetail_cons, ← inventory_ok hrow hfit hname, hupdate]
    rfl

/-- The store takes the rows of a query exactly when they are clean. -/
theorem ingestDetail_ok (hrow : s.hosts.row server.hostID = some row)
    (hfit : s.hostsDb.fits server.hostID row = true) : ingestDetail server s name rows = .ok s' ↔
      DetailClean server s rows name ∧ s' = (detailChange server rows name).apply s := by
  have hpatch (h : updateOf server rows name = {}) : patch server (updateOf server rows name) s.hosts = s.hosts := by
    rw [h]
    exact patch_blank _
  cases name with
  | users =>
    change replaceUsers server s (parseHostUsers rows) = _ ↔ _
    rw [replaceUsers, replaceRows_ok hrow, users_storable]
    simp only [Change.apply, detailChange, hpatch rfl]
    rfl
  | batteries =>
    change replaceBatteries server s (parseHostBatteries server.readers rows) = _ ↔ _
    rw [replaceBatteries, replaceRows_ok hrow, batteries_storable]
    simp only [Change.apply, detailChange, hpatch rfl]
    rfl
  | certificatesDarwin =>
    change replaceCertificates server s (parseHostCertificates rows) = _ ↔ _
    rw [replaceCertificates, replaceRows_ok hrow, certificates_storable]
    simp only [Change.apply, detailChange, hpatch rfl]
    rfl
  | osqueryFlags =>
    have hupdate : updateOf server rows .osqueryFlags = parseOsqueryFlags rows := rfl
    change applyInventory server s (parseOsqueryFlags rows) = _ ↔ _
    rw [← hupdate]
    exact inventory_ok hrow hfit (by decide)
  | osVersion => exact ingestHostDetail_ok hrow hfit (by decide) rfl
  | systemInfo => exact ingestHostDetail_ok hrow hfit (by decide) rfl
  | osqueryInfo => exact ingestHostDetail_ok hrow hfit (by decide) rfl
  | orbitInfo => exact ingestHostDetail_ok hrow hfit (by decide) rfl
  | uptime => exact ingestHostDetail_ok hrow hfit (by decide) rfl
  | rootDiskDarwin => exact ingestHostDetail_ok hrow hfit (by decide) rfl
  | primaryInterfaceUnix => exact ingestHostDetail_ok hrow hfit (by decide) rfl
  | _ => exact kept_ok (by decide) rfl

end Details

/-- The name of a result, from its kind and its suffix. -/
theorem name_of_parse {n suffix : List Char} {kind : DynamicLabels.QueryKind}
    (h : DynamicLabels.parseQueryName n = some (kind, suffix)) : n = DynamicLabels.queryName kind suffix := by
  rw [DynamicLabels.parseQueryName] at h
  cases hcut : (GoText.cutPrefix DynamicLabels.namePrefix n).bind (GoText.cut DynamicLabels.querySeparator) with
  | none =>
    rw [hcut] at h
    cases h
  | some parts =>
    obtain ⟨kindRaw, found⟩ := parts
    rw [hcut] at h
    dsimp only at h
    split_ifs at h
    obtain ⟨kind', hfind, heq⟩ := Option.map_eq_some_iff.mp h
    cases heq
    have hkind := List.find?_some hfind
    obtain ⟨rest, hprefix, hrest⟩ := Option.bind_eq_some_iff.mp hcut
    rw [GoText.cutPrefix] at hprefix
    split_ifs at hprefix with hisPrefix
    obtain ⟨tail, htail⟩ := List.isPrefixOf_iff_prefix.mp hisPrefix
    rw [← htail, List.drop_left, Option.some.injEq] at hprefix
    rw [← htail, hprefix, TextPieces.cut_spec hrest, ← beq_iff_eq.mp hkind]
    simp only [DynamicLabels.queryName, List.append_assoc]

variable {a b answer : Answer}

theorem name_of_detail (h : answer.detail = some name) :
    answer.name = DynamicLabels.queryName .detail name.text.toList := by
  rw [Answer.detail] at h
  cases hparse : DynamicLabels.parseQueryName answer.name with
  | none =>
    rw [hparse] at h
    cases h
  | some parts =>
    obtain ⟨kind, suffix⟩ := parts
    rw [hparse] at h
    cases kind with
    | detail =>
      have hfind : DetailName.all.find? (fun name => name.text.toList == suffix) = some name := h
      have htext := List.find?_some hfind
      rw [name_of_parse hparse, beq_iff_eq.mp htext]
    | _ => cases h

/-- Results under two names do not answer one detail query. -/
theorem detail_ne (h : a.name ≠ b.name) (ha : a.detail = some name) (hb : b.detail = some name') : name ≠ name' := by
  rintro rfl
  exact h ((name_of_detail ha).trans (name_of_detail hb).symm)

/-- The detail query whose rows are ingested. -/
def okDetail (answer : Answer) : Option DetailName := answer.detail.filter (fun _ => answer.ok)

def changeOf (server : Server) (answer : Answer) : Change :=
  { ((okDetail answer).map (detailChange server answer.rowList)).getD {} with
    live := ((liveResult server answer).map (LiveEffects.record server.clock)).getD id }

def openRun (server : Server) (db : LiveQueries.Db) (queryID : Int) : Bool :=
  (db.runs.row queryID).any (fun run => run.completedAt.isNone && !run.expired server.clock)

/-- The result has nothing that a store refuses. -/
structure AnswerClean (server : Server) (w : World) (answer : Answer) : Prop where
  detail : ∀ name, answer.detail = some name → answer.ok = true → DetailClean server w answer.rowList name
  live : ∀ r, liveResult server answer = some r → openRun server w.live r.queryID = true → storableLive r = true

theorem liveResult_detail {r : LiveQueries.Result} (h : liveResult server answer = some r) : answer.detail = none := by
  rw [liveResult] at h
  rw [Answer.detail]
  cases hparse : DynamicLabels.parseQueryName answer.name with
  | none => rfl
  | some parts =>
    obtain ⟨kind, suffix⟩ := parts
    rw [hparse] at h
    cases kind with
    | live => rfl
    | _ => cases h

theorem liveResult_host {r : LiveQueries.Result} (h : liveResult server answer = some r) :
    r.hostID = server.hostID ∧ r.hostName = server.displayName := by
  rw [liveResult] at h
  cases hparse : DynamicLabels.parseQueryName answer.name with
  | none =>
    rw [hparse] at h
    cases h
  | some parts =>
    obtain ⟨kind, suffix⟩ := parts
    rw [hparse] at h
    cases kind with
    | live =>
      obtain ⟨queryID, -, rfl⟩ := Option.map_eq_some_iff.mp h
      exact ⟨rfl, rfl⟩
    | _ => cases h

theorem liveResult_hostID {r : LiveQueries.Result} (h : liveResult server answer = some r) :
    r.hostID = server.hostID := (liveResult_host h).1

theorem liveResult_hostName {r : LiveQueries.Result} (h : liveResult server answer = some r) :
    r.hostName = server.displayName := (liveResult_host h).2

theorem recordLiveResult_ok {r : LiveQueries.Result} {s' : World}
    (hstarted : ∀ run, s.live.runs.row r.queryID = some run → run.startedAt ≤ server.clock) :
    recordLiveResult server s r = .ok s' ↔ (openRun server s.live r.queryID = true → storableLive r = true) ∧
      s' = { s with live := LiveEffects.record server.clock r s.live } := by
  rw [recordLiveResult, LiveEffects.recordResult_eq hstarted]
  split_ifs with hrefused
  · constructor
    · intro h
      cases h
    · intro h
      have htrue := h.1 hrefused.1
      rw [hrefused.2] at htrue
      cases htrue
  · constructor
    · intro h
      cases h
      constructor
      · intro hopen
        by_contra hnot
        exact hrefused ⟨hopen, Bool.not_eq_true _ ▸ hnot⟩
      · rfl
    · intro h
      rw [h.2]
      rfl

/-- What holds after some results of a write that started at `w`. -/
structure Reached (server : Server) (w s : World) : Prop where
  frame : s = { w with
    hosts := s.hosts, users := s.users, batteries := s.batteries, certificates := s.certificates, live := s.live }
  host : ∃ row, s.hosts.row server.hostID = some row ∧ s.hostsDb.fits server.hostID row = true
  others : ∀ id, id ≠ server.hostID → s.hosts.row id = w.hosts.row id
  used : s.hosts.used = w.hosts.used
  live : ∀ id, s.live.runs.row id = w.live.runs.row id ∧ s.live.targets id = w.live.targets id ∨
    LiveEffects.Settled server.clock server.hostID s.live id
  opened : ∀ id, openRun server s.live id = true → openRun server w.live id = true
  started : ∀ id run, s.live.runs.row id = some run → run.startedAt ≤ server.clock

/-- A result is taken exactly when it is clean. -/
theorem handleResult_ok {s' : World} (h : Reached server w s) : handleResult server s answer = .ok s' ↔
    AnswerClean server s answer ∧ s' = (changeOf server answer).apply s := by
  obtain ⟨row, hrow, hfit⟩ := h.host
  rw [handleResult, changeOf, okDetail]
  cases hdetail : answer.detail with
  | some name =>
    have hlive : liveResult server answer = none := by
      cases hlive : liveResult server answer with
      | none => rfl
      | some r => exact absurd ((liveResult_detail hlive).symm.trans hdetail) nofun
    rw [hlive, Option.filter_some]
    dsimp only
    split_ifs with hok
    · rw [ingestDetail_ok hrow hfit]
      apply and_congr_left'
      constructor
      · intro hclean
        constructor
        · rintro found hfound -
          cases hdetail.symm.trans hfound
          exact hclean
        · intro r hr
          exact absurd (hlive.symm.trans hr) nofun
      · intro hclean
        exact hclean.detail name hdetail hok
    · have hclean : AnswerClean server s answer := by
        constructor
        · intro _ _ htrue
          exact absurd htrue hok
        · intro r hr
          exact absurd (hlive.symm.trans hr) nofun
      rw [Except.ok.injEq]
      constructor
      · intro heq
        exact ⟨hclean, heq.symm⟩
      · intro heq
        exact heq.2.symm
  | none =>
    cases hlive : liveResult server answer with
    | none =>
      have hclean : AnswerClean server s answer := by
        constructor
        · intro name hname
          exact absurd (hdetail.symm.trans hname) nofun
        · intro r hr
          exact absurd (hlive.symm.trans hr) nofun
      rw [Except.ok.injEq]
      constructor
      · intro heq
        exact ⟨hclean, heq.symm⟩
      · intro heq
        exact heq.2.symm
    | some r =>
      dsimp only
      rw [recordLiveResult_ok (h.started r.queryID)]
      apply and_congr_left'
      constructor
      · intro hstorable
        constructor
        · intro name hname
          exact absurd (hdetail.symm.trans hname) nofun
        · intro r' hr'
          cases hlive.symm.trans hr'
          exact hstorable
      · intro hclean
        exact hclean.live r hlive

theorem serialFree_reached (h : Reached server w s) (serial : String) :
    SerialFree server s serial ↔ SerialFree server w serial := by
  rw [SerialFree, SerialFree]
  apply imp_congr_right
  intro _
  constructor
  · intro hfree other held hne hheld
    exact hfree other held hne ((h.others other hne).trans hheld)
  · intro hfree other held hne hheld
    exact hfree other held hne ((h.others other hne).symm.trans hheld)

theorem detailClean_reached (h : Reached server w s) :
    DetailClean server s rows name ↔ DetailClean server w rows name := by
  cases name with
  | systemInfo =>
    rw [DetailClean, DetailClean]
    apply forall₂_congr
    intro row _
    exact serialFree_reached h _
  | _ => exact Iff.rfl

/-- What a store takes before the write it takes later. -/
theorem answerClean_reached (h : Reached server w s) (hclean : AnswerClean server w answer) :
    AnswerClean server s answer := by
  constructor
  · intro name hname hok
    exact (detailClean_reached h).mpr (hclean.detail name hname hok)
  · intro r hr hopen
    exact hclean.live r hr (h.opened _ hopen)

theorem fits_of_others {s' : World} {row : HostRow}
    (hothers : ∀ id, id ≠ server.hostID → s'.hosts.row id = s.hosts.row id)
    (hfit : s.hostsDb.fits server.hostID row = true) : s'.hostsDb.fits server.hostID row = true := by
  obtain ⟨htoken, hclash⟩ := fits_iff.mp hfit
  apply fits_iff.mpr
  constructor
  · exact htoken
  · intro other held hne hheld
    exact hclash other held hne ((hothers other hne).symm.trans hheld)

theorem reached_self {row : HostRow} (hrow : w.hosts.row server.hostID = some row)
    (hfit : w.hostsDb.fits server.hostID row = true)
    (hstarted : ∀ id run, w.live.runs.row id = some run → run.startedAt ≤ server.clock) : Reached server w w where
  frame := rfl
  host := ⟨row, hrow, hfit⟩
  others _ _ := rfl
  used := rfl
  live _ := .inl ⟨rfl, rfl⟩
  opened _ h := h
  started := hstarted

def hostUpdate (server : Server) (answer : Answer) : InventoryUpdate :=
  ((okDetail answer).map (updateOf server answer.rowList)).getD {}

def liveChange (server : Server) (answer : Answer) : LiveQueries.Db → LiveQueries.Db :=
  ((liveResult server answer).map (LiveEffects.record server.clock)).getD id

theorem hosts_changeOf : ((changeOf server answer).apply s).hosts =
    patch server (hostUpdate server answer) s.hosts := by
  rw [Change.apply, changeOf, hostUpdate]
  cases okDetail answer with
  | none => exact (patch_blank s.hosts).symm
  | some name => rfl

theorem live_changeOf : ((changeOf server answer).apply s).live = liveChange server answer s.live := rfl

theorem okDetail_some (h : okDetail answer = some name) : answer.detail = some name ∧ answer.ok = true := by
  rw [okDetail, Option.filter_eq_some_iff] at h
  exact h

theorem serialFree_hostUpdate (h : AnswerClean server s answer) :
    SerialFree server s (hostUpdate server answer).hardware.serial := by
  rw [hostUpdate]
  cases hok : okDetail answer with
  | none => exact serialFree_blank s
  | some name => exact serialFree_updateOf (h.detail name (okDetail_some hok).1 (okDetail_some hok).2)

theorem openRun_record {db : LiveQueries.Db} {r : LiveQueries.Result} {id : Int}
    (h : openRun server (LiveEffects.record server.clock r db) id = true) : openRun server db id = true := by
  by_cases hid : id = r.queryID
  · rw [openRun, hid, LiveEffects.record_row_self] at h
    rw [openRun, hid]
    cases hrow : db.runs.row r.queryID with
    | none =>
      rw [hrow] at h
      exact h
    | some run =>
      rw [hrow, Option.map_some, Option.any_some, Bool.and_eq_true, Bool.not_eq_true', LiveEffects.recordedRun] at h
      rw [Option.any_some, Bool.and_eq_true, Bool.not_eq_true']
      split_ifs at h with hcompleted hexpired
      · exact h
      · rw [LiveQueries.RunRow.expire] at h
        cases h.1
      · rw [Bool.not_eq_true, Option.isSome_eq_false_iff] at hcompleted
        exact ⟨hcompleted, Bool.not_eq_true _ ▸ hexpired⟩
      · rw [Bool.not_eq_true, Option.isSome_eq_false_iff] at hcompleted
        exact ⟨hcompleted, Bool.not_eq_true _ ▸ hexpired⟩
      · rw [Bool.not_eq_true, Option.isSome_eq_false_iff] at hcompleted
        exact ⟨hcompleted, Bool.not_eq_true _ ▸ hexpired⟩
  · rw [openRun, LiveEffects.record_row_ne hid] at h
    exact h

/-- The runs after a live result of the host. -/
theorem live_reached (h : Reached server w s) (hr : ∀ r, liveResult server answer = some r → r.hostID = server.hostID) :
    (∀ id, (liveChange server answer s.live).runs.row id = w.live.runs.row id ∧
        (liveChange server answer s.live).targets id = w.live.targets id ∨
      LiveEffects.Settled server.clock server.hostID (liveChange server answer s.live) id) ∧
    (∀ id, openRun server (liveChange server answer s.live) id = true → openRun server w.live id = true) ∧
    ∀ id run, (liveChange server answer s.live).runs.row id = some run → run.startedAt ≤ server.clock := by
  rw [liveChange]
  cases hlive : liveResult server answer with
  | none => exact ⟨h.live, h.opened, h.started⟩
  | some r =>
    have hhost := hr r hlive
    rw [Option.map_some, Option.getD_some]
    refine ⟨?_, ?_, ?_⟩
    · intro id
      by_cases hid : id = r.queryID
      · right
        rw [hid, ← hhost]
        exact LiveEffects.settled_record
      · have hrow : (LiveEffects.record server.clock r s.live).runs.row id = s.live.runs.row id :=
          LiveEffects.record_row_ne hid
        have htargets : (LiveEffects.record server.clock r s.live).targets id = s.live.targets id :=
          LiveEffects.record_targets_ne hid
        cases h.live id with
        | inl hsame => exact .inl ⟨hrow.trans hsame.1, htargets.trans hsame.2⟩
        | inr hsettled => exact .inr (LiveEffects.settled_of_eq hsettled hrow htargets)
    · intro id hopen
      exact h.opened id (openRun_record hopen)
    · intro id run hrun
      by_cases hid : id = r.queryID
      · rw [hid, LiveEffects.record_row_self] at hrun
        obtain ⟨before, hbefore, rfl⟩ := Option.map_eq_some_iff.mp hrun
        rw [LiveEffects.startedAt_recordedRun]
        exact h.started r.queryID before hbefore
      · rw [LiveEffects.record_row_ne hid] at hrun
        exact h.started id run hrun

/-- A clean result keeps what holds. -/
theorem reached_apply (h : Reached server w s) (hclean : AnswerClean server s answer) :
    Reached server w ((changeOf server answer).apply s) := by
  obtain ⟨row, hrow, hfit⟩ := h.host
  obtain ⟨hlive, hopened, hstarted⟩ := live_reached h fun r hr => liveResult_hostID hr
  have hothers : ∀ id, id ≠ server.hostID →
      ((changeOf server answer).apply s).hosts.row id = s.hosts.row id := by
    intro id hne
    rw [hosts_changeOf, patch, Table.row_modify, if_neg hne]
  constructor
  · rw [Change.apply, h.frame]
  · refine ⟨patchRow server (hostUpdate server answer) row, ?_, ?_⟩
    · rw [hosts_changeOf, patch, Table.row_modify, if_pos rfl, hrow, Option.map_some]
    · exact fits_of_others hothers ((fits_applyInventory hfit _).mpr (serialFree_hostUpdate hclean))
  · intro id hne
    exact (hothers id hne).trans (h.others id hne)
  · rw [hosts_changeOf, patch, Table.used_modify, h.used]
  · exact hlive
  · exact hopened
  · exact hstarted

theorem Change.comm {c d : Change} (hhosts : c.hosts (d.hosts s.hosts) = d.hosts (c.hosts s.hosts))
    (husers : c.users (d.users s.users) = d.users (c.users s.users))
    (hbatteries : c.batteries (d.batteries s.batteries) = d.batteries (c.batteries s.batteries))
    (hcertificates : c.certificates (d.certificates s.certificates) = d.certificates (c.certificates s.certificates))
    (hlive : c.live (d.live s.live) = d.live (c.live s.live)) : c.apply (d.apply s) = d.apply (c.apply s) := by
  simp only [Change.apply, hhosts, husers, hbatteries, hcertificates, hlive]

/-- Only one of two queries replaces the rows of a table. -/
theorem replaced_comm {τ : Type} (h : name ≠ name') (owner : DetailName) (f g : τ → τ) (t : τ) :
    (if name = owner then f (if name' = owner then g t else t) else if name' = owner then g t else t) =
      if name' = owner then g (if name = owner then f t else t) else if name = owner then f t else t := by
  by_cases hname : name = owner
  · have hname' : name' ≠ owner := fun heq => h (hname.trans heq.symm)
    rw [if_neg hname', if_neg hname']
  · rw [if_neg hname, if_neg hname]

theorem patch_comm {u v : InventoryUpdate} (h : Apart u v) (hosts : Table HostRow) :
    patch server u (patch server v hosts) = patch server v (patch server u hosts) :=
  Reorderings.modify_comm fun row _ => patchRow_comm h row

/-- Two live results that ask for the same in the tables before. -/
def Agree (server : Server) (w : World) (a b : Answer) : Prop :=
  ∀ r r', liveResult server a = some r → liveResult server b = some r' → r.queryID = r'.queryID →
    LiveEffects.Awaited server.clock server.hostID w.live r.queryID → LiveEffects.SameAnswer r r'

theorem awaited_reached (h : Reached server w s) {id : Int}
    (hwaits : LiveEffects.Awaited server.clock server.hostID s.live id) :
    LiveEffects.Awaited server.clock server.hostID w.live id := by
  cases h.live id with
  | inl hsame =>
    obtain ⟨run, hrow, hcompleted, hexpired, hany⟩ := hwaits
    exact ⟨run, hsame.1.symm.trans hrow, hcompleted, hexpired, hsame.2 ▸ hany⟩
  | inr hsettled =>
    obtain ⟨run, hrow, hcompleted, hexpired, hany⟩ := hwaits
    cases hsettled run hrow with
    | inl hdone =>
      rw [hcompleted] at hdone
      cases hdone
    | inr hquiet =>
      rw [hany] at hquiet
      cases hquiet.2

theorem liveChange_comm (h : Reached server w s) (hagree : Agree server w a b) :
    liveChange server b (liveChange server a s.live) = liveChange server a (liveChange server b s.live) := by
  rw [liveChange, liveChange]
  cases hlive : liveResult server a with
  | none => rfl
  | some r =>
    cases hlive' : liveResult server b with
    | none => rfl
    | some r' =>
      have hhost := liveResult_hostID hlive
      have hhost' := liveResult_hostID hlive'
      rw [Option.map_some, Option.getD_some, Option.map_some, Option.getD_some]
      by_cases hid : r.queryID = r'.queryID
      · have hsame : LiveEffects.record server.clock r s.live = LiveEffects.record server.clock r' s.live := by
          apply LiveEffects.record_same hid (hhost.trans hhost'.symm)
          intro hwaits
          rw [hhost] at hwaits
          exact hagree r r' hlive hlive' hid (awaited_reached h hwaits)
        -- After the first of them the other one changes nothing.
        have hsettled : LiveEffects.Settled server.clock r.hostID
            (LiveEffects.record server.clock r s.live) r.queryID := LiveEffects.settled_record
        have hsettled' : LiveEffects.Settled server.clock r'.hostID
            (LiveEffects.record server.clock r s.live) r'.queryID := hid ▸ hhost' ▸ hhost ▸ hsettled
        rw [← hsame, LiveEffects.record_settled hsettled, LiveEffects.record_settled hsettled']
      · exact LiveEffects.record_comm hid

/-- Clean results under two names can be taken in either order. -/
theorem apply_comm (h : Reached server w s) (hne : a.name ≠ b.name) (hagree : Agree server w a b) :
    (changeOf server b).apply ((changeOf server a).apply s) =
      (changeOf server a).apply ((changeOf server b).apply s) := by
  have hlive := liveChange_comm h hagree
  cases ha : okDetail a with
  | none =>
    apply Change.comm
    · simp only [changeOf, ha]; rfl
    · simp only [changeOf, ha]; rfl
    · simp only [changeOf, ha]; rfl
    · simp only [changeOf, ha]; rfl
    · exact hlive
  | some name =>
    cases hb : okDetail b with
    | none =>
      apply Change.comm
      · simp only [changeOf, hb]; rfl
      · simp only [changeOf, hb]; rfl
      · simp only [changeOf, hb]; rfl
      · simp only [changeOf, hb]; rfl
      · exact hlive
    | some name' =>
      have hname := (detail_ne hne (okDetail_some ha).1 (okDetail_some hb).1).symm
      have hapart : Apart (updateOf server b.rowList name') (updateOf server a.rowList name) :=
        apart_of_within hname (within_updateOf _ _) (within_updateOf _ _)
      apply Change.comm
      · simp only [changeOf, ha, hb]
        exact patch_comm hapart s.hosts
      · simp only [changeOf, ha, hb]
        exact replaced_comm hname .users (fun rows => Function.update rows server.hostID _)
          (fun rows => Function.update rows server.hostID _) _
      · simp only [changeOf, ha, hb]
        exact replaced_comm hname .batteries (fun rows => Function.update rows server.hostID _)
          (fun rows => Function.update rows server.hostID _) _
      · simp only [changeOf, ha, hb]
        exact replaced_comm hname .certificatesDarwin (fun rows => Function.update rows server.hostID _)
          (fun rows => Function.update rows server.hostID _) _
      · exact hlive

def step (server : Server) (w : World) (answer : Answer) : World := (changeOf server answer).apply w

/-- The results of a write that are all taken. -/
theorem handleResults_ok {answers : List Answer} (h : Reached server w s)
    (hclean : ∀ answer ∈ answers, AnswerClean server w answer) :
    handleResults server s answers = (answers.foldl (step server) s, none) ∧
      Reached server w (answers.foldl (step server) s) := by
  induction answers generalizing s with
  | nil => exact ⟨rfl, h⟩
  | cons answer answers ih =>
    have hfirst := answerClean_reached h (hclean answer List.mem_cons_self)
    have hok : handleResult server s answer = .ok (step server s answer) :=
      (handleResult_ok h).mpr ⟨hfirst, rfl⟩
    obtain ⟨hrest, hreached⟩ := ih (reached_apply h hfirst) fun other hother =>
      hclean other (List.mem_cons_of_mem _ hother)
    rw [handleResults, hok]
    exact ⟨hrest, hreached⟩

/-- In every order the results come to the same tables. -/
theorem results_perm {answers order : List Answer} (hperm : answers.Perm order) (h : Reached server w w)
    (hclean : ∀ answer ∈ answers, AnswerClean server w answer)
    (hnames : (answers.map Answer.name).Nodup) (hagree : ∀ a ∈ answers, ∀ b ∈ answers, Agree server w a b) :
    answers.foldl (step server) w = order.foldl (step server) w := by
  apply Reorderings.foldl_perm hperm h
  · intro answer hanswer s hs
    exact reached_apply hs (answerClean_reached hs (hclean answer hanswer))
  · intro a ha b hb s hs
    by_cases hname : a.name = b.name
    · rw [List.inj_on_of_nodup_map hnames ha hb hname]
    · exact apply_comm hs hname (hagree a ha b hb)

/-- The first result is taken in the tables from before. -/
theorem clean_of_first {answers : List Answer} {s' : World} (h : Reached server w w)
    (hok : handleResults server w (answer :: answers) = (s', none)) : AnswerClean server w answer := by
  rw [handleResults] at hok
  cases hfirst : handleResult server w answer with
  | error fault =>
    rw [hfirst] at hok
    cases hok
  | ok next => exact ((handleResult_ok h).mp hfirst).1

end DetailEffects
