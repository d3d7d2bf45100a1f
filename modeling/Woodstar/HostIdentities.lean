import Woodstar.HostEnrollment
import Woodstar.LastWrites

/-!
# Host identities

What a step can do to the hosts, and from it what holds after every run of
enrollments, inventories, device tokens and deletions.
-/
namespace HostIdentities

open HostEnrollment
open KeyedRows (Table)
open KeyedUpserts (draw)
open LastWrites
open Primitives (Fault isText)
open Runs

variable {db db' : Db} {id id' : Int} {row row' : HostRow} {agent agent' : Agent} {e : Event}
variable {inet : String → Option String}

def Unique (db : Db) : Prop :=
  ∀ id id' row row', db.hosts.row id = some row → db.hosts.row id' = some row' → id ≠ id' →
    row.clashes row' = false

theorem sameValue_comm (column : HostRow → String) (a b : HostRow) :
    sameValue column a b = sameValue column b a := by
  by_cases h : column a = column b
  · rw [sameValue, sameValue, h]
  · rw [sameValue, sameValue, beq_false_of_ne h, beq_false_of_ne (Ne.symm h), Bool.false_and, Bool.false_and]

theorem clashes_comm (a b : HostRow) : a.clashes b = b.clashes a := by
  rw [HostRow.clashes, HostRow.clashes, sameValue_comm _ a b, sameValue_comm _ a b, sameValue_comm _ a b,
    sameValue_comm _ a b, Bool.beq_comm]

theorem fits_apart (h : db.fits id row = true) {other : Int} {held : HostRow}
    (hheld : db.hosts.row other = some held) (hne : other ≠ id) : held.clashes row = false := by
  obtain ⟨-, hall⟩ := Bool.and_eq_true_iff.mp h
  have hmem : other ∈ db.hosts.ids := Table.mem_ids.mpr (by rw [hheld]; rfl)
  have hfit := List.all_eq_true.mp hall other hmem
  rw [hheld, beq_false_of_ne hne] at hfit
  simpa using hfit

theorem find_some {p : HostRow → Bool} (h : db.find p = some (id, row)) :
    db.hosts.row id = some row ∧ p row = true := by
  obtain ⟨other, -, hfound⟩ := List.exists_of_findSome?_eq_some h
  obtain ⟨found, hfilter, heq⟩ := Option.map_eq_some_iff.mp hfound
  cases heq
  exact Option.filter_eq_some_iff.mp hfilter

theorem find_none {p : HostRow → Bool} (h : db.find p = none) (hrow : db.hosts.row id = some row) :
    p row = false := by
  have hmem : id ∈ db.hosts.ids := Table.mem_ids.mpr (by rw [hrow]; rfl)
  have hnone := List.findSome?_eq_none_iff.mp h id hmem
  rw [hrow, Option.map_eq_none_iff] at hnone
  cases hp : p row with
  | false => rfl
  | true => simp [hp] at hnone

theorem find_iff {p : HostRow → Bool} (hone : ∀ id id' row row', db.hosts.row id = some row →
    db.hosts.row id' = some row' → p row = true → p row' = true → id = id') :
    db.find p = some (id, row) ↔ db.hosts.row id = some row ∧ p row = true := by
  constructor
  · exact find_some
  · rintro ⟨hrow, hp⟩
    cases hfind : db.find p with
    | none =>
      have hfalse := find_none hfind hrow
      rw [hp] at hfalse
      cases hfalse
    | some found =>
      obtain ⟨hfound, hpfound⟩ := find_some hfind
      obtain rfl := hone id found.1 row found.2 hrow hfound hp hpfound
      have heq : row = found.2 := Option.some.inj (hrow.symm.trans hfound)
      rw [heq]

/-- The host that an enrollment answered with, and the node key it issued. -/
def enrolled (db : Db) : Agent → Event → Option (Int × String)
  | .orbit, .enrollOrbit update contact =>
    (upsertOnOrbitEnroll db update contact).1.toOption.map (fun id => (id, update.orbitNodeKey))
  | .osquery, .enrollOsquery update contact =>
    (upsertOnOsqueryEnroll db update contact).1.toOption.map (fun id => (id, update.osqueryNodeKey))
  | _, _ => none

/-- The host that got the device token. -/
def tokenSet (db : Db) : Event → Option (Int × String)
  | .setToken nodeKey token =>
    (setOrbitDeviceAuthToken db nodeKey token).1.toOption.bind (fun _ =>
      (getByNodeKey db .orbit nodeKey).map (fun found => (found.1, token)))
  | _ => none

/-- The hardware UUID that an enrollment reports. -/
def reportedUUID : Event → Option String
  | .enrollOrbit update _ => some update.hardware.uuid
  | .enrollOsquery update _ => some update.hardware.uuid
  | _ => none

/-- The row that an enrollment leaves. -/
structure Reenrolled (agent : Agent) (key : String) (old : Option HostRow) (row : HostRow) : Prop where
  key : agent.nodeKey row = key
  named : row.displayName = inventoryDisplayName row.hardwareUUID row.hostname row.computerName
  fresh : old = none → (∀ other, other ≠ agent → other.nodeKey row = "") ∧ row.orbitDeviceAuthToken = ""
  stored : ∀ held, old = some held → held.hardwareUUID = row.hardwareUUID ∧
    (∀ other, other ≠ agent → other.nodeKey row = other.nodeKey held) ∧
    row.orbitDeviceAuthToken = if agent = .orbit then "" else held.orbitDeviceAuthToken

/-- One row is written. -/
structure Writes (db db' : Db) (id : Int) (row : HostRow) : Prop where
  fits : db.fits id row = true
  rows : ∀ other, db'.hosts.row other = if other = id then some row else db.hosts.row other
  used : db.hosts.used ≤ db'.hosts.used

/-- The event enrolls nobody and gives no token. -/
structure Quiet (db : Db) (e : Event) : Prop where
  enrolled : ∀ agent, enrolled db agent e = none
  token : tokenSet db e = none

/-- Every step in one form. -/
inductive Effect (inet : String → Option String) (db : Db) (e : Event) (db' : Db) : Prop where
  | kept (quiet : Quiet db e) (rows : ∀ id, db'.hosts.row id = db.hosts.row id)
      (used : db.hosts.used ≤ db'.hosts.used) (members : db'.members = db.members)
      (deletes : ∀ id, e = .delete id → db.hosts.row id = none)
      (inventories : ∀ id update row written, e = .applyInventory id update → db.hosts.row id = some row →
        db.inventoried inet id row update ≠ .ok written)
  | enrolled (agent : Agent) (id : Int) (key : String) (row : HostRow)
      (henrolled : enrolled db agent e = some (id, key))
      (others : ∀ other, other ≠ agent → HostIdentities.enrolled db other e = none)
      (token : tokenSet db e = none) (writes : Writes db db' id row)
      (reenrolled : Reenrolled agent key (db.hosts.row id) row) (uuid : reportedUUID e = some row.hardwareUUID)
      (fresh : db.hosts.row id = none → id = db.hosts.next ∧ db'.hosts.used = db.hosts.used + 1)
      (found : ∀ other held, db.hosts.row other = some held → held.hardwareUUID = row.hardwareUUID →
        other = id)
      (members : db'.members = db.allHosts.map (fun labelID => (labelID, id)) ∪ db.members)
  | inventoried (quiet : Quiet db e) (id : Int) (update : InventoryUpdate) (old row : HostRow)
      (event : e = .applyInventory id update) (held : db.hosts.row id = some old)
      (hrow : db.inventoried inet id old update = .ok row) (writes : Writes db db' id row)
      (members : db'.members = db.members)
  | token (id : Int) (token : String) (old : HostRow) (enrolled : ∀ agent, enrolled db agent e = none)
      (htoken : tokenSet db e = some (id, token)) (held : db.hosts.row id = some old)
      (writes : Writes db db' id { old with orbitDeviceAuthToken := token })
      (members : db'.members = db.members) (event : ∃ nodeKey, e = .setToken nodeKey token)
  | deleted (quiet : Quiet db e) (id : Int) (event : e = .delete id)
      (rows : ∀ other, db'.hosts.row other = if other = id then none else db.hosts.row other)
      (used : db'.hosts.used = db.hosts.used)
      (members : db'.members = db.members.filter (fun member => decide (member.2 ≠ id)))

/-- Inserted or updated, the row under the answered id is written and fits. -/
theorem upsert_ok {excluded : HostRow} {onConflict : HostRow → HostRow} {result : Int × Db}
    (h : db.upsert excluded onConflict = .ok result) :
    ∃ row, Writes db result.2 result.1 row ∧ result.2.members = db.members ∧ result.2.labels = db.labels ∧
      ((db.hosts.row result.1 = none ∧ row = excluded ∧ result.1 = db.hosts.next ∧
          result.2.hosts.used = db.hosts.used + 1 ∧
          ∀ other held, db.hosts.row other = some held → held.hardwareUUID ≠ excluded.hardwareUUID) ∨
        ∃ stored, db.hosts.row result.1 = some stored ∧ row = onConflict stored ∧
          stored.hardwareUUID = excluded.hardwareUUID) := by
  rw [Db.upsert] at h
  cases hfind : db.find (fun row => row.hardwareUUID == excluded.hardwareUUID) with
  | none =>
    simp only [hfind] at h
    by_cases hfits : db.fits db.hosts.next excluded = true
    · rw [if_pos hfits] at h
      cases h
      have hnone : db.hosts.row db.hosts.next = none := by
        cases hrow : db.hosts.row db.hosts.next with
        | none => rfl
        | some held =>
          have hbound := (db.hosts.numbered db.hosts.next (by rw [hrow]; rfl)).2
          rw [Table.next] at hbound
          omega
      exists excluded
      refine ⟨⟨hfits, fun other => Table.row_insert, Nat.le_succ _⟩, rfl, rfl, Or.inl ?_⟩
      refine ⟨hnone, rfl, rfl, rfl, ?_⟩
      intro other held hheld heq
      have hfalse := find_none hfind hheld
      rw [beq_eq_false_iff_ne] at hfalse
      exact hfalse heq
    · rw [if_neg hfits] at h
      cases h
  | some found =>
    obtain ⟨id, stored⟩ := found
    simp only [hfind] at h
    obtain ⟨hstored, huuid⟩ := find_some hfind
    by_cases hfits : db.fits id (onConflict stored) = true
    · rw [if_pos hfits] at h
      cases h
      exists onConflict stored
      refine ⟨⟨hfits, ?_, Nat.le_succ _⟩, rfl, rfl, Or.inr ⟨stored, hstored, rfl, beq_iff_eq.mp huuid⟩⟩
      intro other
      by_cases hid : other = id
      · subst hid
        rw [Table.row_modify, if_pos rfl, if_pos rfl, KeyedUpserts.draw, hstored]
        rfl
      · rw [Table.row_modify, if_neg hid, if_neg hid]
        rfl
    · rw [if_neg hfits] at h
      cases h

theorem upsertOnEnroll_error {excluded : HostRow} {onConflict : HostRow → HostRow} {contact : Bool}
    (h : (upsertOnEnroll db excluded onConflict contact).1.toOption = none) :
    (∀ id, (upsertOnEnroll db excluded onConflict contact).2.hosts.row id = db.hosts.row id) ∧
      db.hosts.used ≤ (upsertOnEnroll db excluded onConflict contact).2.hosts.used ∧
      (upsertOnEnroll db excluded onConflict contact).2.members = db.members := by
  have hskip : (∀ id, (draw db.hosts).row id = db.hosts.row id) ∧ db.hosts.used ≤ (draw db.hosts).used :=
    ⟨fun _ => rfl, Nat.le_succ _⟩
  rw [upsertOnEnroll] at h ⊢
  by_cases htext : excluded.texts.all isText = true
  · rw [if_pos htext] at h ⊢
    cases hupsert : db.upsert excluded onConflict with
    | error fault => exact ⟨hskip.1, hskip.2, rfl⟩
    | ok result =>
      rw [hupsert] at h
      cases contact with
      | true => cases h
      | false => exact ⟨hskip.1, hskip.2, rfl⟩
  · rw [if_neg htext]
    exact ⟨fun _ => rfl, Nat.le_refl _, rfl⟩

theorem upsertOnEnroll_ok {excluded : HostRow} {onConflict : HostRow → HostRow} {contact : Bool}
    (h : (upsertOnEnroll db excluded onConflict contact).1.toOption = some id) :
    ∃ result, db.upsert excluded onConflict = .ok (id, result) ∧
      (upsertOnEnroll db excluded onConflict contact).2 = result.joinAllHosts id := by
  rw [upsertOnEnroll] at h ⊢
  by_cases htext : excluded.texts.all isText = true
  · rw [if_pos htext] at h ⊢
    cases hupsert : db.upsert excluded onConflict with
    | error fault =>
      rw [hupsert] at h
      cases h
    | ok result =>
      rw [hupsert] at h
      cases contact with
      | false => cases h
      | true =>
        cases Option.some.inj h
        exact ⟨result.2, rfl, rfl⟩
  · rw [if_neg htext] at h
    cases h

/-- An enrollment of either agent, from what its statement writes. -/
theorem enroll_effect (agent : Agent) {excluded : HostRow} {onConflict : HostRow → HostRow}
    {contact : Bool} {key : String}
    (hstep : step inet db e = (upsertOnEnroll db excluded onConflict contact).2)
    (henrolled : enrolled db agent e =
      (upsertOnEnroll db excluded onConflict contact).1.toOption.map (fun id => (id, key)))
    (hothers : ∀ other, other ≠ agent → enrolled db other e = none) (htoken : tokenSet db e = none)
    (huuid : reportedUUID e = some excluded.hardwareUUID) (hinsert : Reenrolled agent key none excluded)
    (hupdate : ∀ stored, stored.hardwareUUID = excluded.hardwareUUID →
      Reenrolled agent key (some stored) (onConflict stored))
    (hdelete : ∀ id, e ≠ .delete id) (hinventory : ∀ id update, e ≠ .applyInventory id update) :
    Effect inet db e (step inet db e) := by
  rw [hstep]
  cases hresult : (upsertOnEnroll db excluded onConflict contact).1.toOption with
  | none =>
    obtain ⟨hrows, hused, hmembers⟩ := upsertOnEnroll_error hresult
    rw [hresult] at henrolled
    apply Effect.kept
    · constructor
      · intro other
        by_cases hother : other = agent
        · rw [hother, henrolled]
          rfl
        · exact hothers other hother
      · exact htoken
    · exact hrows
    · exact hused
    · exact hmembers
    · intro id hid
      exact absurd hid (hdelete id)
    · intro id update _ _ hid
      exact absurd hid (hinventory id update)
  | some id =>
    obtain ⟨result, hupsert, hwritten⟩ := upsertOnEnroll_ok hresult
    obtain ⟨row, hwrites, hmembers, hlabels, hcases⟩ := upsert_ok hupsert
    rw [hresult] at henrolled
    rw [hwritten]
    have hjoined : (result.joinAllHosts id).members =
        db.allHosts.map (fun labelID => (labelID, id)) ∪ db.members := by
      rw [Db.joinAllHosts, Db.allHosts, hlabels, hmembers]
      rfl
    have hwrites : Writes db (result.joinAllHosts id) id row := ⟨hwrites.fits, hwrites.rows, hwrites.used⟩
    cases hcases with
    | inl hnew =>
      obtain ⟨hnone, rfl, hnext, hused, hother⟩ := hnew
      apply Effect.enrolled agent id key row henrolled hothers htoken hwrites
      · rw [hnone]
        exact hinsert
      · exact huuid
      · intro
        exact ⟨hnext, hused⟩
      · intro other held hheld heq
        exact absurd heq (hother other held hheld)
      · exact hjoined
    | inr hold =>
      obtain ⟨stored, hstored, rfl, hsame⟩ := hold
      have hreenrolled := hupdate stored hsame
      have hkept := (hreenrolled.stored stored rfl).1
      apply Effect.enrolled agent id key (onConflict stored) henrolled hothers htoken hwrites
      · rw [hstored]
        exact hreenrolled
      · rw [huuid, ← hsame, hkept]
      · intro hnone
        rw [hstored] at hnone
        cases hnone
      · intro other held hheld heq
        by_contra hne
        have happart := fits_apart hwrites.fits hheld hne
        rw [HostRow.clashes, heq] at happart
        simp at happart
      · exact hjoined

theorem orbit_effect (update : InventoryUpdate) (contact : Bool) :
    Effect inet db (.enrollOrbit update contact) (step inet db (.enrollOrbit update contact)) := by
  apply enroll_effect .orbit rfl rfl
  · intro other hother
    cases other with
    | orbit => exact absurd rfl hother
    | osquery => rfl
  · rfl
  · rfl
  · constructor
    · rfl
    · rfl
    · intro
      constructor
      · intro other hother
        cases other with
        | orbit => exact absurd rfl hother
        | osquery => rfl
      · rfl
    · intro held hheld
      cases hheld
  · intro stored hsame
    constructor
    · rfl
    · exact congrArg (fun uuid => inventoryDisplayName uuid update.hostname update.computerName) hsame.symm
    · intro hnone
      cases hnone
    · intro held hheld
      cases hheld
      constructor
      · rfl
      · constructor
        · intro other hother
          cases other with
          | orbit => exact absurd rfl hother
          | osquery => rfl
        · rfl
  · intro id h
    cases h
  · intro id update h
    cases h

theorem osquery_effect (update : InventoryUpdate) (contact : Bool) :
    Effect inet db (.enrollOsquery update contact) (step inet db (.enrollOsquery update contact)) := by
  apply enroll_effect .osquery rfl rfl
  · intro other hother
    cases other with
    | orbit => rfl
    | osquery => exact absurd rfl hother
  · rfl
  · rfl
  · constructor
    · rfl
    · rfl
    · intro
      constructor
      · intro other hother
        cases other with
        | orbit => rfl
        | osquery => exact absurd rfl hother
      · rfl
    · intro held hheld
      cases hheld
  · intro stored hsame
    constructor
    · rfl
    · exact congrArg (fun uuid => inventoryDisplayName uuid update.hostname update.computerName) hsame.symm
    · intro hnone
      cases hnone
    · intro held hheld
      cases hheld
      constructor
      · rfl
      · constructor
        · intro other hother
          cases other with
          | orbit => rfl
          | osquery => exact absurd rfl hother
        · rfl
  · intro id h
    cases h
  · intro id update h
    cases h

theorem inventoried_ok {update : InventoryUpdate} (h : db.inventoried inet id row update = .ok row') :
    db.fits id row' = true ∧ ∃ address, row' = row.applyInventory update address ∧
      (update.network.primaryIP = "" → address = none) := by
  rw [Db.inventoried] at h
  by_cases htext : update.texts.all isText = true
  · rw [if_pos htext] at h
    cases haddress : inetOf inet update.network.primaryIP with
    | error fault =>
      rw [haddress] at h
      cases h
    | ok address =>
      simp only [haddress] at h
      by_cases hfits : db.fits id (row.applyInventory update address) = true
      · rw [if_pos hfits] at h
        cases h
        constructor
        · exact hfits
        · exists address
          constructor
          · rfl
          · intro hblank
            rw [inetOf, if_pos hblank] at haddress
            exact (Except.ok.inj haddress).symm
      · rw [if_neg hfits] at h
        cases h
  · rw [if_neg htext] at h
    cases h

theorem writes_modify (hheld : db.hosts.row id = some row) (hfits : db.fits id row' = true) :
    Writes db { db with hosts := db.hosts.modify id (fun _ => row') } id row' := by
  constructor
  · exact hfits
  · intro other
    by_cases hid : other = id
    · rw [hid, Table.row_modify, if_pos rfl, if_pos rfl, hheld]
      rfl
    · rw [Table.row_modify, if_neg hid, if_neg hid]
  · exact Nat.le_refl _

theorem applyInventory_effect (id : Int) (update : InventoryUpdate) :
    Effect inet db (.applyInventory id update) (step inet db (.applyInventory id update)) := by
  have hquiet : Quiet db (.applyInventory id update) :=
    ⟨fun agent => by cases agent <;> rfl, rfl⟩
  rw [step, applyInventory]
  cases hrow : db.hosts.row id with
  | none =>
    apply Effect.kept hquiet (fun _ => rfl) (Nat.le_refl _) rfl
    · intro id' h
      cases h
    · intro id' update' row written h hheld
      cases h
      rw [hrow] at hheld
      cases hheld
  | some old =>
    cases hwritten : db.inventoried inet id old update with
    | error fault =>
      simp only [hwritten]
      apply Effect.kept hquiet (fun _ => rfl) (Nat.le_refl _) rfl
      · intro id' h
        cases h
      · intro id' update' row written h hheld heq
        cases h
        rw [hrow] at hheld
        cases hheld
        rw [hwritten] at heq
        cases heq
    | ok row =>
      simp only [hwritten]
      exact Effect.inventoried hquiet id update old row rfl hrow hwritten
        (writes_modify hrow (inventoried_ok hwritten).1) rfl

theorem setToken_effect (nodeKey token : String) :
    Effect inet db (.setToken nodeKey token) (step inet db (.setToken nodeKey token)) := by
  have henrolled : ∀ agent, enrolled db agent (.setToken nodeKey token) = none := by
    intro agent
    cases agent with
    | orbit => rfl
    | osquery => rfl
  have hkept (hnone : tokenSet db (.setToken nodeKey token) = none) :
      Effect inet db (.setToken nodeKey token) db := by
    apply Effect.kept ⟨henrolled, hnone⟩ (fun _ => rfl) (Nat.le_refl _) rfl
    · intro id h
      cases h
    · intro id update _ _ h
      cases h
  by_cases htext : [nodeKey, token].all isText = true
  · cases hfound : getByNodeKey db .orbit nodeKey with
    | none =>
      rw [step, setOrbitDeviceAuthToken, if_pos htext, hfound]
      apply hkept
      rw [tokenSet, hfound]
      exact Option.bind_fun_none _
    | some found =>
      obtain ⟨id, row⟩ := found
      by_cases hfits : db.fits id { row with orbitDeviceAuthToken := token } = true
      · have hrow := (find_some hfound).1
        have hset : tokenSet db (.setToken nodeKey token) = some (id, token) := by
          rw [tokenSet, setOrbitDeviceAuthToken, if_pos htext, hfound]
          simp only [if_pos hfits]
          rfl
        rw [step, setOrbitDeviceAuthToken, if_pos htext, hfound]
        simp only [if_pos hfits]
        exact Effect.token id token row henrolled hset hrow (writes_modify hrow hfits) rfl ⟨nodeKey, rfl⟩
      · rw [step, setOrbitDeviceAuthToken, if_pos htext, hfound]
        simp only [if_neg hfits]
        apply hkept
        rw [tokenSet, setOrbitDeviceAuthToken, if_pos htext, hfound]
        simp only [if_neg hfits]
        rfl
  · rw [step, setOrbitDeviceAuthToken, if_neg htext]
    apply hkept
    rw [tokenSet, setOrbitDeviceAuthToken, if_neg htext]
    rfl

theorem delete_effect (id : Int) : Effect inet db (.delete id) (step inet db (.delete id)) := by
  have hquiet : Quiet db (.delete id) := ⟨fun agent => by cases agent <;> rfl, rfl⟩
  rw [step, HostEnrollment.delete]
  cases hrow : db.hosts.row id with
  | none =>
    apply Effect.kept hquiet (fun _ => rfl) (Nat.le_refl _) rfl
    · intro id' h
      cases h
      exact hrow
    · intro id' update _ _ h
      cases h
  | some row => exact Effect.deleted hquiet id rfl (fun _ => Table.row_erase) rfl rfl

theorem step_effect (inet : String → Option String) (db : Db) (e : Event) :
    Effect inet db e (step inet db e) := by
  cases e with
  | enrollOrbit update contact => exact orbit_effect update contact
  | enrollOsquery update contact => exact osquery_effect update contact
  | applyInventory id update => exact applyInventory_effect id update
  | setToken nodeKey token => exact setToken_effect nodeKey token
  | delete id => exact delete_effect id

theorem labels_upsert {excluded : HostRow} {onConflict : HostRow → HostRow} (contact : Bool) :
    (upsertOnEnroll db excluded onConflict contact).2.labels = db.labels := by
  cases hresult : (upsertOnEnroll db excluded onConflict contact).1.toOption with
  | none =>
    rw [upsertOnEnroll] at hresult ⊢
    by_cases htext : excluded.texts.all isText = true
    · rw [if_pos htext] at hresult ⊢
      cases hupsert : db.upsert excluded onConflict with
      | error fault => rfl
      | ok result =>
        rw [hupsert] at hresult
        cases contact with
        | true => cases hresult
        | false => rfl
    · rw [if_neg htext]
  | some id =>
    obtain ⟨result, hupsert, hwritten⟩ := upsertOnEnroll_ok hresult
    obtain ⟨_, _, _, hlabels, _⟩ := upsert_ok hupsert
    rw [hwritten]
    exact hlabels

theorem labels_step (inet : String → Option String) (db : Db) (e : Event) :
    (step inet db e).labels = db.labels := by
  cases e with
  | enrollOrbit update contact => exact labels_upsert contact
  | enrollOsquery update contact => exact labels_upsert contact
  | applyInventory id update =>
    rw [step, applyInventory]
    cases db.hosts.row id with
    | none => rfl
    | some row =>
      cases hrow : db.inventoried inet id row update with
      | error fault => simp only [hrow]
      | ok written => simp only [hrow]
  | setToken nodeKey token =>
    rw [step, setOrbitDeviceAuthToken]
    by_cases htext : [nodeKey, token].all isText = true
    · rw [if_pos htext]
      cases getByNodeKey db .orbit nodeKey with
      | none => rfl
      | some found =>
        by_cases hfits : db.fits found.1 { found.2 with orbitDeviceAuthToken := token } = true
        · simp only [if_pos hfits]
        · simp only [if_neg hfits]
    · rw [if_neg htext]
  | delete id =>
    rw [step, HostEnrollment.delete]
    cases db.hosts.row id with
    | none => rfl
    | some row => rfl

theorem allHosts_step (inet : String → Option String) (db : Db) (e : Event) :
    (step inet db e).allHosts = db.allHosts := by
  rw [Db.allHosts, labels_step, Db.allHosts]

theorem unique_of_writes (hunique : Unique db) (hwrites : Writes db db' id row) : Unique db' := by
  intro a b held held' ha hb hne
  rw [hwrites.rows] at ha hb
  by_cases hida : a = id
  · rw [if_pos hida] at ha
    cases ha
    have hidb : b ≠ id := fun h => hne (hida.trans h.symm)
    rw [if_neg hidb] at hb
    rw [clashes_comm]
    exact fits_apart hwrites.fits hb hidb
  · rw [if_neg hida] at ha
    by_cases hidb : b = id
    · rw [if_pos hidb] at hb
      cases hb
      exact fits_apart hwrites.fits ha hida
    · rw [if_neg hidb] at hb
      exact hunique a b held held' ha hb hne

theorem unique_step (inet : String → Option String) (e : Event) (hunique : Unique db) :
    Unique (step inet db e) := by
  cases step_effect inet db e with
  | kept _ rows =>
    intro a b held held' ha hb hne
    rw [rows] at ha hb
    exact hunique a b held held' ha hb hne
  | enrolled _ _ _ _ _ _ _ writes => exact unique_of_writes hunique writes
  | inventoried _ _ _ _ _ _ _ _ writes => exact unique_of_writes hunique writes
  | token _ _ _ _ _ _ writes => exact unique_of_writes hunique writes
  | deleted _ id _ rows =>
    intro a b held held' ha hb hne
    rw [rows] at ha hb
    by_cases hida : a = id
    · rw [if_pos hida] at ha
      cases ha
    · rw [if_neg hida] at ha
      by_cases hidb : b = id
      · rw [if_pos hidb] at hb
        cases hb
      · rw [if_neg hidb] at hb
        exact hunique a b held held' ha hb hne

/-- Every host is a member of the label of all hosts. -/
def Joined (db : Db) : Prop :=
  ∀ id row, db.hosts.row id = some row → ∀ labelID ∈ db.allHosts, (labelID, id) ∈ db.members

theorem joined_step (inet : String → Option String) (e : Event) (hjoined : Joined db) :
    Joined (step inet db e) := by
  intro id row hrow labelID hlabel
  rw [allHosts_step] at hlabel
  cases step_effect inet db e with
  | kept _ rows _ members =>
    rw [rows] at hrow
    rw [members]
    exact hjoined id row hrow labelID hlabel
  | enrolled _ id' _ row' _ _ _ writes _ _ _ _ members =>
    rw [members, List.mem_union_iff]
    rw [writes.rows] at hrow
    by_cases hid : id = id'
    · subst hid
      exact Or.inl (List.mem_map_of_mem hlabel)
    · rw [if_neg hid] at hrow
      exact Or.inr (hjoined id row hrow labelID hlabel)
  | inventoried _ id' _ old row' _ held _ writes members =>
    rw [members]
    rw [writes.rows] at hrow
    by_cases hid : id = id'
    · subst hid
      exact hjoined id old held labelID hlabel
    · rw [if_neg hid] at hrow
      exact hjoined id row hrow labelID hlabel
  | token id' _ old _ _ held writes members =>
    rw [members]
    rw [writes.rows] at hrow
    by_cases hid : id = id'
    · subst hid
      exact hjoined id old held labelID hlabel
    · rw [if_neg hid] at hrow
      exact hjoined id row hrow labelID hlabel
  | deleted _ id' _ rows _ members =>
    rw [rows] at hrow
    by_cases hid : id = id'
    · rw [if_pos hid] at hrow
      cases hrow
    · rw [if_neg hid] at hrow
      rw [members, List.mem_filter]
      exact ⟨hjoined id row hrow labelID hlabel, decide_eq_true hid⟩

/-- The value of a column that the host has, if it is not empty. -/
def credential (column : HostRow → String) (id : Int) (db : Db) : Option String :=
  ((db.hosts.row id).map column).filter (fun value => value != "")

def nonempty (value : String) : Option String := (some value).filter (fun value => value != "")

def Event.deletes (id : Int) : Event → Bool
  | .delete other => other == id
  | _ => false

/-- The value of an answer about this host. -/
def onHost (id : Int) (answer : Option (Int × String)) : Option String :=
  (answer.filter (fun answer => answer.1 == id)).map Prod.snd

/-- An enrollment of the agent writes the host's node key, and a deletion ends it. -/
def keyWrites (agent : Agent) (id : Int) (db : Db) (e : Event) : Option (Option String) :=
  if Event.deletes id e = true then some none else (onHost id (enrolled db agent e)).map nonempty

/-- A new token, an Orbit enrollment and a deletion end the host's device token. -/
def tokenWrites (id : Int) (db : Db) (e : Event) : Option (Option String) :=
  if Event.deletes id e = true ∨ (onHost id (enrolled db .orbit e)).isSome = true then some none
  else (onHost id (tokenSet db e)).map nonempty

theorem onHost_some {answer : Option (Int × String)} {value : String} :
    onHost id answer = some value ↔ answer = some (id, value) := by
  rw [onHost, Option.map_eq_some_iff]
  constructor
  · rintro ⟨⟨other, found⟩, hfound, rfl⟩
    obtain ⟨rfl, hid⟩ := Option.filter_eq_some_iff.mp hfound
    rw [← beq_iff_eq.mp hid]
  · rintro rfl
    exact ⟨(id, value), Option.filter_some_pos (beq_self_eq_true id), rfl⟩

theorem onHost_none {answer : Option (Int × String)} :
    onHost id answer = none ↔ ∀ value, answer ≠ some (id, value) := by
  rw [Option.eq_none_iff_forall_ne_some]
  apply forall_congr'
  intro value
  exact not_congr onHost_some

theorem onHost_other {other : Int} {value : String} (hne : id ≠ other) :
    onHost id (some (other, value)) = none := by
  apply onHost_none.mpr
  intro value' h
  cases h
  exact hne rfl

theorem deletes_iff : Event.deletes id e = true ↔ e = .delete id := by
  cases e with
  | delete other =>
    rw [Event.deletes, beq_iff_eq]
    constructor
    · rintro rfl
      rfl
    · intro h
      cases h
      rfl
  | enrollOrbit update contact => exact iff_of_false Bool.false_ne_true (fun h => by cases h)
  | enrollOsquery update contact => exact iff_of_false Bool.false_ne_true (fun h => by cases h)
  | applyInventory other update => exact iff_of_false Bool.false_ne_true (fun h => by cases h)
  | setToken nodeKey token => exact iff_of_false Bool.false_ne_true (fun h => by cases h)

theorem keyWrites_none : keyWrites agent id db e = none ↔
    e ≠ .delete id ∧ ∀ key, enrolled db agent e ≠ some (id, key) := by
  rw [keyWrites]
  by_cases hdelete : Event.deletes id e = true
  · rw [if_pos hdelete]
    exact iff_of_false (fun h => by cases h) (fun h => h.1 (deletes_iff.mp hdelete))
  · rw [if_neg hdelete, and_iff_right (fun h => hdelete (deletes_iff.mpr h)), Option.map_eq_none_iff,
      onHost_none]

theorem enrolled_delete (db : Db) (agent : Agent) (id : Int) : enrolled db agent (.delete id) = none := by
  cases agent with
  | orbit => rfl
  | osquery => rfl

theorem not_deletes {answer : Int × String} (henrolled : enrolled db agent e = some answer) :
    ¬ Event.deletes id e = true := by
  intro h
  rw [deletes_iff.mp h, enrolled_delete] at henrolled
  cases henrolled

theorem nonempty_eq {value : String} (hne : value ≠ "") : nonempty value = some value :=
  Option.filter_some_pos (by simpa using hne)

theorem nonempty_eq_some {value key : String} : nonempty value = some key ↔ value = key ∧ key ≠ "" := by
  rw [nonempty, Option.filter_eq_some_iff, Option.some.injEq, bne_iff_ne]

/-- The key of the agent's enrollment. -/
theorem keyWrites_some {key : String} : keyWrites agent id db e = some (some key) ↔
    key ≠ "" ∧ enrolled db agent e = some (id, key) := by
  rw [keyWrites]
  by_cases hdelete : Event.deletes id e = true
  · rw [if_pos hdelete]
    exact iff_of_false (fun h => by cases h) (fun h => not_deletes h.2 hdelete)
  · rw [if_neg hdelete, Option.map_eq_some_iff]
    constructor
    · rintro ⟨value, hvalue, hkey⟩
      obtain ⟨rfl, hne⟩ := nonempty_eq_some.mp hkey
      exact ⟨hne, onHost_some.mp hvalue⟩
    · rintro ⟨hne, henrolled⟩
      exact ⟨key, onHost_some.mpr henrolled, nonempty_eq hne⟩

theorem credential_writes {column : HostRow → String} {other : Int} (hwrites : Writes db db' other row) :
    credential column id db' = if id = other then nonempty (column row) else credential column id db := by
  rw [credential, hwrites.rows]
  by_cases hid : id = other
  · rw [if_pos hid, if_pos hid]
    rfl
  · rw [if_neg hid, if_neg hid]
    rfl

theorem credential_stays {column : HostRow → String} {other : Int} {old : HostRow}
    (hwrites : Writes db db' other row) (hheld : db.hosts.row other = some old)
    (hsame : column row = column old) : credential column id db' = credential column id db := by
  rw [credential_writes hwrites]
  by_cases hid : id = other
  · rw [if_pos hid, hid, credential, hheld, hsame]
    rfl
  · rw [if_neg hid]

theorem credential_deleted {column : HostRow → String} {other : Int}
    (hrows : ∀ id, db'.hosts.row id = if id = other then none else db.hosts.row id) :
    credential column id db' = if id = other then none else credential column id db := by
  rw [credential, hrows]
  by_cases hid : id = other
  · rw [if_pos hid, if_pos hid]
    rfl
  · rw [if_neg hid, if_neg hid]
    rfl

/-- A node key changes by its agent's enrollments and by the deletion of its host. -/
theorem nodeKey_step (agent : Agent) (id : Int) (inet : String → Option String) (db : Db) (e : Event) :
    credential agent.nodeKey id (step inet db e) =
      (keyWrites agent id db e).getD (credential agent.nodeKey id db) := by
  have hquiet (quiet : Quiet db e) (hdelete : ¬ Event.deletes id e = true) :
      keyWrites agent id db e = none := by
    rw [keyWrites, if_neg hdelete, quiet.enrolled]
    rfl
  cases step_effect inet db e with
  | kept quiet rows _ _ deletes =>
    have hsame : credential agent.nodeKey id (step inet db e) = credential agent.nodeKey id db := by
      rw [credential, rows, credential]
    rw [hsame]
    by_cases hdelete : Event.deletes id e = true
    · have hnone := deletes id (deletes_iff.mp hdelete)
      rw [keyWrites, if_pos hdelete, credential, hnone]
      rfl
    · rw [hquiet quiet hdelete]
      rfl
  | enrolled other id' key row henrolled others _ writes reenrolled =>
    have hdelete : ¬ Event.deletes id e = true := not_deletes henrolled
    rw [credential_writes writes, keyWrites, if_neg hdelete]
    by_cases hagent : agent = other
    · subst hagent
      rw [henrolled]
      by_cases hid : id = id'
      · rw [if_pos hid, reenrolled.key, hid, onHost_some.mpr rfl]
        rfl
      · rw [if_neg hid, onHost_other hid]
        rfl
    · rw [others agent hagent]
      by_cases hid : id = id'
      · rw [if_pos hid, hid, credential]
        cases hold : db.hosts.row id' with
        | none =>
          rw [(reenrolled.fresh hold).1 agent hagent]
          rfl
        | some held =>
          rw [(reenrolled.stored held hold).2.1 agent hagent]
          rfl
      · rw [if_neg hid]
        rfl
  | inventoried quiet id' update old row event held hrow writes =>
    have hdelete : ¬ Event.deletes id e = true := by
      intro h
      rw [deletes_iff.mp h] at event
      cases event
    obtain ⟨-, address, rfl, -⟩ := inventoried_ok hrow
    rw [hquiet quiet hdelete, credential_stays writes held]
    · rfl
    · cases agent with
      | orbit => rfl
      | osquery => rfl
  | token id' token old enrolled _ held writes _ event =>
    have hdelete : ¬ Event.deletes id e = true := by
      intro h
      obtain ⟨nodeKey, rfl⟩ := event
      cases deletes_iff.mp h
    rw [keyWrites, if_neg hdelete, enrolled agent, credential_stays writes held]
    · rfl
    · cases agent with
      | orbit => rfl
      | osquery => rfl
  | deleted quiet id' event rows =>
    rw [credential_deleted rows]
    by_cases hid : id = id'
    · have hdelete : Event.deletes id e = true := deletes_iff.mpr (hid ▸ event)
      rw [if_pos hid, keyWrites, if_pos hdelete]
      rfl
    · have hdelete : ¬ Event.deletes id e = true := by
        intro h
        rw [deletes_iff.mp h] at event
        cases event
        exact hid rfl
      rw [if_neg hid, hquiet quiet hdelete]
      rfl

theorem tokenSet_enrolled {answer : Int × String} (henrolled : enrolled db agent e = some answer) :
    tokenSet db e = none := by
  cases e with
  | setToken nodeKey token =>
    cases agent with
    | orbit => cases henrolled
    | osquery => cases henrolled
  | enrollOrbit update contact => rfl
  | enrollOsquery update contact => rfl
  | applyInventory id update => rfl
  | delete id => rfl

theorem enrolled_tokenSet {answer : Int × String} (htoken : tokenSet db e = some answer) (agent : Agent) :
    enrolled db agent e = none := by
  cases henrolled : enrolled db agent e with
  | none => rfl
  | some other =>
    rw [tokenSet_enrolled henrolled] at htoken
    cases htoken

theorem tokenWrites_none : tokenWrites id db e = none ↔ e ≠ .delete id ∧
    (∀ key, enrolled db .orbit e ≠ some (id, key)) ∧ ∀ token, tokenSet db e ≠ some (id, token) := by
  rw [tokenWrites, ← onHost_none, ← onHost_none]
  by_cases hends : Event.deletes id e = true ∨ (onHost id (enrolled db .orbit e)).isSome = true
  · rw [if_pos hends]
    apply iff_of_false (fun h => by cases h)
    rintro ⟨hdelete, hnone, -⟩
    cases hends with
    | inl h => exact hdelete (deletes_iff.mp h)
    | inr h =>
      rw [hnone] at h
      cases h
  · obtain ⟨hdelete, hsome⟩ := not_or.mp hends
    rw [if_neg hends, Option.map_eq_none_iff, and_iff_right (fun h => hdelete (deletes_iff.mpr h)),
      and_iff_right (Option.not_isSome_iff_eq_none.mp hsome)]

theorem tokenWrites_some {token : String} : tokenWrites id db e = some (some token) ↔
    token ≠ "" ∧ tokenSet db e = some (id, token) := by
  rw [tokenWrites]
  by_cases hends : Event.deletes id e = true ∨ (onHost id (enrolled db .orbit e)).isSome = true
  · rw [if_pos hends]
    apply iff_of_false (fun h => by cases h)
    rintro ⟨-, htoken⟩
    cases hends with
    | inl h =>
      rw [deletes_iff.mp h] at htoken
      cases htoken
    | inr h =>
      rw [enrolled_tokenSet htoken] at h
      cases h
  · rw [if_neg hends, Option.map_eq_some_iff]
    constructor
    · rintro ⟨value, hvalue, htoken⟩
      obtain ⟨rfl, hne⟩ := nonempty_eq_some.mp htoken
      exact ⟨hne, onHost_some.mp hvalue⟩
    · rintro ⟨hne, htoken⟩
      exact ⟨token, onHost_some.mpr htoken, nonempty_eq hne⟩

theorem tokenWrites_quiet (henrolled : ∀ agent, enrolled db agent e = none) (hdelete : ¬ Event.deletes id e = true) :
    tokenWrites id db e = (onHost id (tokenSet db e)).map nonempty := by
  rw [tokenWrites, henrolled .orbit]
  apply if_neg
  intro h
  cases h with
  | inl h => exact hdelete h
  | inr h => cases h

/-- A device token changes by a new one, by Orbit enrollments and by the deletion of its host. -/
theorem token_step (id : Int) (inet : String → Option String) (db : Db) (e : Event) :
    credential HostRow.orbitDeviceAuthToken id (step inet db e) =
      (tokenWrites id db e).getD (credential HostRow.orbitDeviceAuthToken id db) := by
  cases step_effect inet db e with
  | kept quiet rows _ _ deletes =>
    have hsame : credential HostRow.orbitDeviceAuthToken id (step inet db e) =
        credential HostRow.orbitDeviceAuthToken id db := by
      rw [credential, rows, credential]
    rw [hsame]
    by_cases hdelete : Event.deletes id e = true
    · have hnone := deletes id (deletes_iff.mp hdelete)
      rw [tokenWrites, if_pos (Or.inl hdelete), credential, hnone]
      rfl
    · rw [tokenWrites_quiet quiet.enrolled hdelete, quiet.token]
      rfl
  | enrolled other id' key row henrolled others token writes reenrolled =>
    have hdelete : ¬ Event.deletes id e = true := not_deletes henrolled
    rw [credential_writes writes, tokenWrites, token]
    by_cases hid : id = id'
    · rw [if_pos hid, hid]
      by_cases horbit : other = .orbit
      · subst horbit
        have hblank : row.orbitDeviceAuthToken = "" := by
          cases hold : db.hosts.row id' with
          | none => exact (reenrolled.fresh hold).2
          | some held =>
            have htoken := (reenrolled.stored held hold).2.2
            rwa [if_pos rfl] at htoken
        have hsome : (onHost id' (enrolled db .orbit e)).isSome = true := by
          rw [onHost_some.mpr henrolled]
          rfl
        rw [hblank, if_pos (Or.inr hsome)]
        rfl
      · have hnone : ¬ (Event.deletes id' e = true ∨ (onHost id' (enrolled db .orbit e)).isSome = true) := by
          rw [others .orbit (Ne.symm horbit)]
          intro h
          cases h with
          | inl h => exact not_deletes henrolled h
          | inr h => cases h
        rw [if_neg hnone, credential]
        cases hold : db.hosts.row id' with
        | none =>
          rw [(reenrolled.fresh hold).2]
          rfl
        | some held =>
          have htoken := (reenrolled.stored held hold).2.2
          rw [if_neg horbit] at htoken
          rw [htoken]
          rfl
    · have hnone : ¬ (Event.deletes id e = true ∨ (onHost id (enrolled db .orbit e)).isSome = true) := by
        intro h
        cases h with
        | inl h => exact hdelete h
        | inr h =>
          by_cases horbit : other = .orbit
          · subst horbit
            rw [henrolled, onHost_other hid] at h
            cases h
          · rw [others .orbit (Ne.symm horbit)] at h
            cases h
      rw [if_neg hid, if_neg hnone]
      rfl
  | inventoried quiet id' update old row event held hrow writes =>
    have hdelete : ¬ Event.deletes id e = true := by
      intro h
      rw [deletes_iff.mp h] at event
      cases event
    obtain ⟨-, address, rfl, -⟩ := inventoried_ok hrow
    rw [tokenWrites_quiet quiet.enrolled hdelete, quiet.token, credential_stays writes held rfl]
    rfl
  | token id' token old enrolled htoken held writes _ event =>
    have hdelete : ¬ Event.deletes id e = true := by
      intro h
      obtain ⟨nodeKey, rfl⟩ := event
      cases deletes_iff.mp h
    rw [tokenWrites_quiet enrolled hdelete, htoken, credential_writes writes]
    by_cases hid : id = id'
    · rw [if_pos hid, hid, onHost_some.mpr rfl]
      rfl
    · rw [if_neg hid, onHost_other hid]
      rfl
  | deleted quiet id' event rows =>
    rw [credential_deleted rows]
    by_cases hid : id = id'
    · have hdelete : Event.deletes id e = true := deletes_iff.mpr (hid ▸ event)
      rw [if_pos hid, tokenWrites, if_pos (Or.inl hdelete)]
      rfl
    · have hdelete : ¬ Event.deletes id e = true := by
        intro h
        rw [deletes_iff.mp h] at event
        cases event
        exact hid rfl
      rw [if_neg hid, tokenWrites_quiet quiet.enrolled hdelete, quiet.token]
      rfl

end HostIdentities
