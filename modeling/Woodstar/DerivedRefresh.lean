import Mathlib.Data.List.Dedup
import Woodstar.DerivedLabels
import Woodstar.Runs

/-!
# Derived membership and the directory

The members that the tables declare for a derived label, the pairs that a refresh of one
label or one host has to cover, and what holds of concurrent refreshes.
-/
namespace DerivedRefresh

open LabelModel DerivedLabels
open ReadCommitted (applyAll view Keeps Holds Clear)
open Runs (exec Along)

variable {db db' : Db} {scope : Scope} {labelID hostID userID : Int} {user : User} {email : String}

/-- The address of the host's first source in the order of the sources. -/
def Preferred (db : Db) (hostID : Int) (email : String) : Prop :=
  ∃ source, db.sources.lookup (hostID, source) = some email ∧
    ∀ source' email', db.sources.lookup (hostID, source') = some email' → source.order ≤ source'.order

/-- The first user, in the order of the users, that answers to the preferred address. -/
def IsPrimaryUser (db : Db) (hostID userID : Int) (user : User) : Prop :=
  ∃ email, Preferred db hostID email ∧ db.users.lookup userID = some user ∧ user.answersTo email = true ∧
    ∀ userID' user', db.users.lookup userID' = some user' → user'.answersTo email = true →
      userOrder email (userID, user) ≤ userOrder email (userID', user')

def DerivedAt (db : Db) (labelID : Int) : Prop :=
  ∃ row, db.labels.lookup labelID = some row ∧ isDerived row = true

/-- The label is derived and the host's primary user meets its criteria. -/
def Belongs (db : Db) (labelID hostID : Int) : Prop :=
  ∃ row, db.labels.lookup labelID = some row ∧ isDerived row = true ∧
    ∃ userID user, IsPrimaryUser db hostID userID user ∧ labelMatch db row userID user = true

/-- The members of the derived labels are the hosts that belong to them. -/
def Consistent (db : Db) : Prop :=
  ∀ labelID, DerivedAt db labelID → ∀ hostID, (labelID, hostID) ∈ db.members ↔ Belongs db labelID hostID

theorem preferred_iff : preferred db hostID = some email ↔ Preferred db hostID email := by
  unfold preferred Preferred
  cases hmanual : db.sources.lookup (hostID, .manual) with
  | some first =>
    simp only [List.findSome?_cons, hmanual, Option.some.injEq]
    constructor
    · rintro rfl
      exact ⟨.manual, hmanual, fun source' _ _ => Nat.zero_le _⟩
    · rintro ⟨source, hsource, hleast⟩
      have hle := hleast .manual first hmanual
      cases source with
      | manual => exact Option.some.inj (hmanual.symm.trans hsource)
      | orbitProfile => exact absurd hle (by decide)
  | none =>
    simp only [List.findSome?_cons, hmanual, List.findSome?_nil]
    constructor
    · intro h
      have horbit : db.sources.lookup (hostID, .orbitProfile) = some email := by
        cases hlookup : db.sources.lookup (hostID, .orbitProfile) with
        | none => rw [hlookup] at h; cases h
        | some found => rw [hlookup] at h; exact h
      refine ⟨.orbitProfile, horbit, fun source' email' h' => ?_⟩
      cases source' with
      | manual => rw [hmanual] at h'; cases h'
      | orbitProfile => exact Nat.le_refl _
    · rintro ⟨source, hsource, -⟩
      cases source with
      | manual => rw [hmanual] at hsource; cases hsource
      | orbitProfile => rw [hsource]

theorem mem_candidates : (userID, user) ∈ candidates db email ↔
    db.users.lookup userID = some user ∧ user.answersTo email = true := by
  simp only [candidates, List.mem_filter, List.mem_map, Prod.mk.injEq]
  constructor
  · rintro ⟨⟨entry, hentry, rfl, rfl⟩, hanswers⟩
    exact ⟨AList.mem_lookup_iff.mpr hentry, hanswers⟩
  · rintro ⟨hlookup, hanswers⟩
    exact ⟨⟨⟨userID, user⟩, AList.mem_lookup_iff.mp hlookup, rfl, rfl⟩, hanswers⟩

theorem userOrder_injective {entry entry' : Int × User} (h : userOrder email entry = userOrder email entry') :
    entry.1 = entry'.1 :=
  (Prod.mk.inj (Prod.mk.inj h).2).2

/-- The query picks the first user in the order. -/
theorem resolved_iff : resolved db hostID = some (userID, user) ↔ IsPrimaryUser db hostID userID user := by
  unfold resolved
  rw [Option.bind_eq_some_iff]
  constructor
  · rintro ⟨email, hpreferred, hmin⟩
    obtain ⟨hlookup, hanswers⟩ := mem_candidates.mp (List.argmin_mem hmin)
    refine ⟨email, preferred_iff.mp hpreferred, hlookup, hanswers, fun userID' user' hlookup' hanswers' => ?_⟩
    exact List.le_of_mem_argmin (mem_candidates.mpr ⟨hlookup', hanswers'⟩) hmin
  · rintro ⟨email, hpreferred, hlookup, hanswers, hleast⟩
    refine ⟨email, preferred_iff.mpr hpreferred, ?_⟩
    have hmem := mem_candidates.mpr ⟨hlookup, hanswers⟩
    cases hmin : (candidates db email).argmin (userOrder email) with
    | none =>
      rw [List.argmin_eq_none] at hmin
      rw [hmin] at hmem
      cases hmem
    | some found =>
      obtain ⟨hfound, hfoundanswers⟩ := mem_candidates.mp (List.argmin_mem hmin)
      have hle := List.le_of_mem_argmin hmem hmin
      have hge := hleast found.1 found.2 hfound hfoundanswers
      have hid : userID = found.1 := userOrder_injective (le_antisymm hge hle)
      rw [← hid, hlookup] at hfound
      rw [hid, Option.some.inj hfound]

theorem mem_derivedLabels {row : LabelRow} : (labelID, row) ∈ derivedLabels db scope ↔
    db.labels.lookup labelID = some row ∧ isDerived row = true ∧
      scope.labelID.all (fun id => id == labelID) = true := by
  simp only [derivedLabels, List.mem_filter, List.mem_map, Prod.mk.injEq, Bool.and_eq_true]
  constructor
  · rintro ⟨⟨entry, hentry, rfl, rfl⟩, hrest⟩
    exact ⟨AList.mem_lookup_iff.mpr hentry, hrest⟩
  · rintro ⟨hlookup, hrest⟩
    exact ⟨⟨⟨labelID, row⟩, AList.mem_lookup_iff.mp hlookup, rfl, rfl⟩, hrest⟩

/-- A host with a primary user has a source. -/
theorem mem_primaryHosts : hostID ∈ primaryHosts db scope ↔
    (∃ source, (hostID, source) ∈ db.sources.keys) ∧
      scope.hostID.all (fun id => id == hostID) = true := by
  simp only [primaryHosts, List.mem_dedup, List.mem_filter, List.mem_map, Prod.exists,
    exists_and_right, exists_eq_right]

/-- The statement's rows are the pairs of its scope that belong. -/
theorem mem_matching : (labelID, hostID) ∈ matching db scope ↔
    scope.covers labelID hostID = true ∧ Belongs db labelID hostID := by
  simp only [matching, List.mem_flatMap, List.mem_map, List.mem_filter, Prod.mk.injEq, Prod.exists,
    Scope.covers, Bool.and_eq_true, Option.any_eq_true]
  constructor
  · rintro ⟨id, row, hlabel, host, ⟨hhost, userID, user, hresolved, hmatch⟩, rfl, rfl⟩
    obtain ⟨hlookup, hderived, hscope⟩ := mem_derivedLabels.mp hlabel
    exact ⟨⟨hscope, (mem_primaryHosts.mp hhost).2⟩, row, hlookup, hderived, userID, user,
      resolved_iff.mp hresolved, hmatch⟩
  · rintro ⟨⟨hlabel, hhost⟩, row, hlookup, hderived, userID, user, hprimary, hmatch⟩
    refine ⟨labelID, row, mem_derivedLabels.mpr ⟨hlookup, hderived, hlabel⟩, hostID, ⟨?_, userID, user,
      resolved_iff.mpr hprimary, hmatch⟩, rfl, rfl⟩
    obtain ⟨email, ⟨source, hsource, -⟩, -⟩ := hprimary
    exact mem_primaryHosts.mpr ⟨⟨source, AList.mem_keys.mp (AList.lookup_isSome.mp (by rw [hsource]; rfl))⟩, hhost⟩

/-- The tables agree on everything that decides about the pair, and on its row. -/
structure AgreeAt (db db' : Db) (labelID hostID : Int) : Prop where
  label : db'.labels.lookup labelID = db.labels.lookup labelID
  sources : ∀ source, db'.sources.lookup (hostID, source) = db.sources.lookup (hostID, source)
  users : db'.users = db.users
  groups : db'.groups = db.groups
  groupMembers : db'.groupMembers = db.groupMembers
  member : (labelID, hostID) ∈ db'.members ↔ (labelID, hostID) ∈ db.members

theorem agreeAt_refl (db : Db) (labelID hostID : Int) : AgreeAt db db labelID hostID :=
  ⟨rfl, fun _ => rfl, rfl, rfl, rfl, Iff.rfl⟩

theorem AgreeAt.trans {db'' : Db} (h : AgreeAt db db' labelID hostID) (h' : AgreeAt db' db'' labelID hostID) :
    AgreeAt db db'' labelID hostID :=
  ⟨h'.label.trans h.label, fun source => (h'.sources source).trans (h.sources source), h'.users.trans h.users,
    h'.groups.trans h.groups, h'.groupMembers.trans h.groupMembers, h'.member.trans h.member⟩

theorem AgreeAt.derivedAt (h : AgreeAt db db' labelID hostID) : DerivedAt db' labelID ↔ DerivedAt db labelID := by
  unfold DerivedAt
  rw [h.label]

theorem AgreeAt.belongs (h : AgreeAt db db' labelID hostID) :
    Belongs db' labelID hostID ↔ Belongs db labelID hostID := by
  have hpreferred : ∀ email, Preferred db' hostID email ↔ Preferred db hostID email := by
    intro email
    simp only [Preferred, h.sources]
  have hmatch : ∀ row userID user, labelMatch db' row userID user = labelMatch db row userID user := by
    intro row userID user
    simp only [labelMatch, criteriaMatch, h.groups, h.groupMembers]
  simp only [Belongs, IsPrimaryUser, h.label, h.users, hpreferred, hmatch]

/-- What a transaction with the scope may change. -/
def Within (scope : Scope) : Change → Prop
  | .putLabel id _ => scope = { labelID := some id }
  | .setLabel id _ => scope = { labelID := some id }
  | .dropLabel id => scope = { labelID := some id }
  | .putSource key _ => scope = { hostID := some key.1 }
  | .dropSource key => scope = { hostID := some key.1 }
  | .insertMember row => scope.covers row.1 row.2 = true
  | .putMember row => scope.covers row.1 row.2 = true
  | .dropMember row => scope.covers row.1 row.2 = true
  | _ => scope = {}

/-- The scopes have no pair in common. -/
def apart (a b : Scope) : Bool :=
  (match a.labelID, b.labelID with
    | some id, some id' => id != id'
    | _, _ => false) ||
  match a.hostID, b.hostID with
    | some id, some id' => id != id'
    | _, _ => false

theorem covers_label {id : Int} : Scope.covers { labelID := some id } labelID hostID = true ↔ id = labelID := by
  simp [Scope.covers]

theorem covers_host {id : Int} : Scope.covers { hostID := some id } labelID hostID = true ↔ id = hostID := by
  simp [Scope.covers]

theorem covers_all : Scope.covers {} labelID hostID = true := rfl

theorem not_covers_of_apart {a b : Scope} (h : apart a b = true) (hb : b.covers labelID hostID = true) :
    a.covers labelID hostID = false := by
  unfold apart at h
  unfold Scope.covers at hb ⊢
  rw [Bool.and_eq_true] at hb
  rw [Bool.and_eq_false_iff]
  rcases Bool.or_eq_true_iff.mp h with hlabel | hhost
  · refine .inl ?_
    split at hlabel
    · rename_i id id' ha hb'
      rw [hb'] at hb
      rw [ha]
      simp only [Option.all_some, beq_iff_eq, bne_iff_ne, ne_eq, beq_eq_false_iff_ne] at hb hlabel ⊢
      rw [← hb.1]
      exact hlabel
    · cases hlabel
  · refine .inr ?_
    split at hhost
    · rename_i id id' ha hb'
      rw [hb'] at hb
      rw [ha]
      simp only [Option.all_some, beq_iff_eq, bne_iff_ne, ne_eq, beq_eq_false_iff_ne] at hb hhost ⊢
      rw [← hb.2]
      exact hhost
    · cases hhost

/-- A change leaves the pairs outside its scope. -/
theorem agreeAt_apply {c : Change} (hwithin : Within scope c) (hout : scope.covers labelID hostID = false) :
    AgreeAt db (c.apply db) labelID hostID := by
  have hlabel : ∀ id, scope = { labelID := some id } → labelID ≠ id := by
    rintro id rfl rfl
    rw [covers_label.mpr rfl] at hout
    cases hout
  have hhost : ∀ id, scope = { hostID := some id } → hostID ≠ id := by
    rintro id rfl rfl
    rw [covers_host.mpr rfl] at hout
    cases hout
  have hrow : ∀ row : Int × Int, scope.covers row.1 row.2 = true → (labelID, hostID) ≠ row := by
    rintro row hcovers rfl
    rw [hcovers] at hout
    cases hout
  have hall : scope ≠ {} := by
    rintro rfl
    cases hout
  unfold Change.apply
  cases c with
  | putLabel id write => exact
      { agreeAt_refl db labelID hostID with label := AList.lookup_insert_ne (hlabel id hwithin) }
  | setLabel id write =>
    dsimp only
    cases db.labels.lookup id with
    | none => exact agreeAt_refl db labelID hostID
    | some row => exact { agreeAt_refl db labelID hostID with label := AList.lookup_insert_ne (hlabel id hwithin) }
  | dropLabel id =>
    refine { agreeAt_refl db labelID hostID with label := AList.lookup_erase_ne (hlabel id hwithin), member := ?_ }
    simp only [List.mem_filter, decide_eq_true_eq, and_iff_left_iff_imp]
    exact fun _ => hlabel id hwithin
  | putSource key email =>
    exact { agreeAt_refl db labelID hostID with
      sources := fun source => AList.lookup_insert_ne (fun heq => hhost key.1 hwithin (congrArg Prod.fst heq)) }
  | dropSource key =>
    exact { agreeAt_refl db labelID hostID with
      sources := fun source => AList.lookup_erase_ne (fun heq => hhost key.1 hwithin (congrArg Prod.fst heq)) }
  | insertMember row =>
    refine { agreeAt_refl db labelID hostID with member := ?_ }
    simp only [List.mem_insert_iff, or_iff_right (hrow row hwithin)]
  | putMember row =>
    refine { agreeAt_refl db labelID hostID with member := ?_ }
    simp only [List.mem_insert_iff, or_iff_right (hrow row hwithin)]
  | dropMember row =>
    refine { agreeAt_refl db labelID hostID with member := ?_ }
    simp only [List.mem_filter, decide_eq_true_eq, and_iff_left_iff_imp]
    exact fun _ => hrow row hwithin
  | _ => exact absurd hwithin hall

/-- A change does the same where the tables agree on its scope. -/
theorem agreeAt_congr {c : Change} (hwithin : Within scope c)
    (hagree : ∀ labelID hostID, scope.covers labelID hostID = true → AgreeAt db db' labelID hostID)
    (hin : scope.covers labelID hostID = true) : AgreeAt (c.apply db) (c.apply db') labelID hostID := by
  have h := hagree labelID hostID hin
  obtain ⟨hlabel, hsources, husers, hgroups, hgroupMembers, hmember⟩ := h
  have hinsert : ∀ row, (labelID, hostID) ∈ db'.members.insert row ↔ (labelID, hostID) ∈ db.members.insert row := by
    intro row
    rw [List.mem_insert_iff, List.mem_insert_iff, hmember]
  have hfilter : ∀ p : Int × Int → Bool,
      (labelID, hostID) ∈ db'.members.filter p ↔ (labelID, hostID) ∈ db.members.filter p := by
    intro p
    rw [List.mem_filter, List.mem_filter, hmember]
  have hput : ∀ id row, (db'.labels.insert id row).lookup labelID = (db.labels.insert id row).lookup labelID := by
    intro id row
    by_cases hid : labelID = id
    · rw [hid, AList.lookup_insert, AList.lookup_insert]
    · rw [AList.lookup_insert_ne hid, AList.lookup_insert_ne hid, hlabel]
  unfold Change.apply
  cases c with
  | putLabel id write => exact ⟨hput id _, hsources, husers, hgroups, hgroupMembers, hmember⟩
  | setLabel id write =>
    have hid : id = labelID := by
      have hscope : scope = { labelID := some id } := hwithin
      rw [hscope] at hin
      exact covers_label.mp hin
    subst hid
    simp only [hlabel]
    cases db.labels.lookup id with
    | none => exact ⟨hlabel, hsources, husers, hgroups, hgroupMembers, hmember⟩
    | some row => exact ⟨hput id _, hsources, husers, hgroups, hgroupMembers, hmember⟩
  | dropLabel id =>
    refine ⟨?_, hsources, husers, hgroups, hgroupMembers, hfilter _⟩
    dsimp only
    by_cases hid : labelID = id
    · rw [hid, AList.lookup_erase, AList.lookup_erase]
    · rw [AList.lookup_erase_ne hid, AList.lookup_erase_ne hid, hlabel]
  | putSource key email =>
    refine ⟨hlabel, fun source => ?_, husers, hgroups, hgroupMembers, hmember⟩
    dsimp only
    by_cases hkey : (hostID, source) = key
    · rw [hkey, AList.lookup_insert, AList.lookup_insert]
    · rw [AList.lookup_insert_ne hkey, AList.lookup_insert_ne hkey, hsources]
  | dropSource key =>
    refine ⟨hlabel, fun source => ?_, husers, hgroups, hgroupMembers, hmember⟩
    dsimp only
    by_cases hkey : (hostID, source) = key
    · rw [hkey, AList.lookup_erase, AList.lookup_erase]
    · rw [AList.lookup_erase_ne hkey, AList.lookup_erase_ne hkey, hsources]
  | putUser id user =>
    refine ⟨hlabel, hsources, ?_, hgroups, hgroupMembers, hmember⟩
    simp only [Db.external, husers]
  | tombstoneUser id =>
    simp only [husers]
    cases db.users.lookup id with
    | none => exact ⟨hlabel, hsources, husers, hgroups, hgroupMembers, hmember⟩
    | some user => exact ⟨hlabel, hsources, rfl, hgroups, hgroupMembers, hmember⟩
  | dropUser id =>
    refine ⟨hlabel, hsources, ?_, hgroups, ?_, hmember⟩ <;> simp only [husers, hgroupMembers]
  | putGroup key =>
    refine ⟨hlabel, hsources, husers, ?_, hgroupMembers, hmember⟩
    simp only [hgroups]
  | dropGroup key =>
    refine ⟨hlabel, hsources, husers, ?_, ?_, hmember⟩ <;> simp only [hgroups, hgroupMembers]
  | putGroupMember row =>
    refine ⟨hlabel, hsources, husers, hgroups, ?_, hmember⟩
    simp only [hgroupMembers]
  | dropGroupMember row =>
    refine ⟨hlabel, hsources, husers, hgroups, ?_, hmember⟩
    simp only [hgroupMembers]
  | lockUser id => exact ⟨hlabel, hsources, husers, hgroups, hgroupMembers, hmember⟩
  | insertMember row => exact ⟨hlabel, hsources, husers, hgroups, hgroupMembers, hinsert row⟩
  | putMember row => exact ⟨hlabel, hsources, husers, hgroups, hgroupMembers, hinsert row⟩
  | dropMember row => exact ⟨hlabel, hsources, husers, hgroups, hgroupMembers, hfilter _⟩

theorem agreeAt_applyAll {changes : List Change} (hwithin : ∀ c ∈ changes, Within scope c)
    (hout : scope.covers labelID hostID = false) : AgreeAt db (applyAll system db changes) labelID hostID := by
  induction changes generalizing db with
  | nil => exact agreeAt_refl db labelID hostID
  | cons c cs ih =>
    obtain ⟨hc, hcs⟩ := List.forall_mem_cons.mp hwithin
    exact (agreeAt_apply hc hout).trans (ih hcs)

theorem agreeAt_applyAll_congr {changes : List Change} (hwithin : ∀ c ∈ changes, Within scope c)
    (hagree : ∀ labelID hostID, scope.covers labelID hostID = true → AgreeAt db db' labelID hostID)
    (hin : scope.covers labelID hostID = true) :
    AgreeAt (applyAll system db changes) (applyAll system db' changes) labelID hostID := by
  induction changes generalizing db db' with
  | nil => exact hagree labelID hostID hin
  | cons c cs ih =>
    obtain ⟨hc, hcs⟩ := List.forall_mem_cons.mp hwithin
    exact ih hcs (fun labelID hostID hin => agreeAt_congr hc hagree hin)

/-- The member rows that a refresh deletes and inserts. -/
theorem applyAll_drops (db : Db) (rows : List (Int × Int)) : ∃ members,
    applyAll system db (rows.map .dropMember) = { db with members := members } ∧
      ∀ row, row ∈ members ↔ row ∈ db.members ∧ row ∉ rows := by
  induction rows generalizing db with
  | nil => exact ⟨db.members, rfl, fun row => (and_iff_left List.not_mem_nil).symm⟩
  | cons first rest ih =>
    obtain ⟨members, heq, hmem⟩ := ih ((Change.dropMember first).apply db)
    refine ⟨members, heq, fun row => ?_⟩
    rw [hmem, List.mem_cons, not_or, ← and_assoc]
    simp only [Change.apply, List.mem_filter, decide_eq_true_eq]

theorem applyAll_puts (db : Db) (rows : List (Int × Int)) : ∃ members,
    applyAll system db (rows.map .putMember) = { db with members := members } ∧
      ∀ row, row ∈ members ↔ row ∈ db.members ∨ row ∈ rows := by
  induction rows generalizing db with
  | nil => exact ⟨db.members, rfl, fun row => (or_iff_left List.not_mem_nil).symm⟩
  | cons first rest ih =>
    obtain ⟨members, heq, hmem⟩ := ih ((Change.putMember first).apply db)
    refine ⟨members, heq, fun row => ?_⟩
    rw [hmem, List.mem_cons, ← or_assoc]
    simp only [Change.apply, List.mem_insert_iff, @or_comm (row = first)]

def Cleared (db : Db) (scope : Scope) : Prop :=
  ∀ labelID hostID, scope.covers labelID hostID = true → DerivedAt db labelID → (labelID, hostID) ∉ db.members

def Refreshed (db : Db) (scope : Scope) : Prop :=
  ∀ labelID hostID, scope.covers labelID hostID = true → DerivedAt db labelID →
    ((labelID, hostID) ∈ db.members ↔ Belongs db labelID hostID)

/-- The DELETE of the refresh has started. -/
def refreshing (tx : Tx) : Bool :=
  tx.past.any (fun s => match s with | .deleteDerivedMemberships _ => true | _ => false)

/-- A statement on the members of a label that is not derived. -/
def OnMembers (s : Statement) : Prop :=
  ∀ db changes, s.start db = some changes → ∀ c ∈ changes, ∃ row, c = .insertMember row ∨ c = .dropMember row

def pending (tx : Tx) : List Change := tx.running.elim [] ReadCommitted.Running.changes

/-- Where a transaction is. Those of a label that does not become derived are `unstarted`
and then `away`. -/
inductive Phase (db : Db) (tx : Tx) : Prop
  | preparing (before : List Statement) (hrest : tx.rest =
      before ++ [.deleteDerivedMemberships tx.info, .insertDerivedMemberships tx.info])
  | deleting (s : Statement) (rows : List (Int × Int)) (hrunning : tx.running = some ⟨s, rows.map .dropMember⟩)
      (hrest : tx.rest = [.insertDerivedMemberships tx.info]) (hrefreshing : refreshing tx = true)
      (hfound : ∀ labelID hostID, tx.info.covers labelID hostID = true →
        DerivedAt (view system db tx) labelID → (labelID, hostID) ∈ (view system db tx).members →
          (labelID, hostID) ∈ rows)
  | deleted (hrunning : tx.running = none) (hrest : tx.rest = [.insertDerivedMemberships tx.info])
      (hrefreshing : refreshing tx = true) (hcleared : Cleared (view system db tx) tx.info)
  | inserting (s : Statement) (rows : List (Int × Int)) (hrunning : tx.running = some ⟨s, rows.map .putMember⟩)
      (hrest : tx.rest = []) (hrefreshing : refreshing tx = true)
      (hcleared : Cleared (view system db tx) tx.info)
      (hfound : ∀ labelID hostID, tx.info.covers labelID hostID = true →
        ((labelID, hostID) ∈ rows ↔ Belongs (view system db tx) labelID hostID))
  | done (hrunning : tx.running = none) (hrest : tx.rest = []) (hrefreshing : refreshing tx = true)
      (hright : Refreshed (view system db tx) tx.info)
  | unstarted (labelID : Int) (s : Statement) (rest : List Statement) (hinfo : tx.info = { labelID := some labelID })
      (hrunning : tx.running = none) (hlog : tx.log = []) (hrest : tx.rest = s :: rest)
      (haway : ∀ db changes, s.start db = some changes →
        ∀ db, ¬ DerivedAt (applyAll system db changes) labelID)
      (hmembers : ∀ s ∈ rest, OnMembers s)
  | away (labelID : Int) (hinfo : tx.info = { labelID := some labelID })
      (haway : ∀ db, ¬ DerivedAt (applyAll system db (tx.log ++ pending tx)) labelID)
      (hmembers : ∀ s ∈ tx.rest, OnMembers s)

structure Own (db : Db) (tx : Tx) : Prop where
  log : ∀ c ∈ tx.log ++ pending tx, Within tx.info c
  rest : ∀ s ∈ tx.rest, ∀ db changes, s.start db = some changes → ∀ c ∈ changes, Within tx.info c
  phase : Phase db tx

/-- A transaction may commit while the other one refreshes if no pair concerns both. -/
def Beside (tx other : Tx) : Prop := refreshing other = true → apart tx.info other.info = true

instance (tx other : Tx) : Decidable (Beside tx other) := inferInstanceAs (Decidable (_ → _))

variable {tx other : Tx}

theorem derivedAt_members {changes : List Change}
    (h : ∀ c ∈ changes, ∃ row, c = .insertMember row ∨ c = .dropMember row) :
    DerivedAt (applyAll system db changes) labelID ↔ DerivedAt db labelID := by
  induction changes generalizing db with
  | nil => exact Iff.rfl
  | cons c cs ih =>
    obtain ⟨⟨row, hc⟩, hcs⟩ := List.forall_mem_cons.mp h
    refine (ih hcs).trans ?_
    rcases hc with rfl | rfl <;> exact Iff.rfl

theorem phase_next {s : Statement} {rest : List Statement} {changes : List Change} (h : Phase db tx)
    (hrunning : tx.running = none) (hrest : tx.rest = s :: rest)
    (hstart : s.start (view system db tx) = some changes) : Phase db (tx.started s rest changes) := by
  cases h with
  | preparing before hbefore =>
    rw [hrest] at hbefore
    cases before with
    | nil =>
      obtain ⟨rfl, rfl⟩ := List.cons.inj hbefore
      obtain rfl := Option.some.inj hstart
      refine .deleting _ _ rfl rfl rfl (fun labelID hostID hin hderived hmem => ?_)
      obtain ⟨row, hlookup, hrow⟩ := hderived
      refine List.mem_filter.mpr ⟨hmem, ?_⟩
      rw [Bool.and_eq_true, Option.any_eq_true]
      exact ⟨⟨row, hlookup, hrow⟩, hin⟩
    | cons first before =>
      obtain ⟨-, rfl⟩ := List.cons.inj hbefore
      exact .preparing before rfl
  | deleting _ _ hother => rw [hrunning] at hother; cases hother
  | deleted _ hbefore hrefreshing hcleared =>
    rw [hrest] at hbefore
    obtain ⟨rfl, rfl⟩ := List.cons.inj hbefore
    obtain rfl := Option.some.inj hstart
    refine .inserting _ _ rfl rfl ?_ hcleared (fun labelID hostID hin => ?_)
    · exact hrefreshing
    · exact mem_matching.trans (and_iff_right hin)
  | inserting _ _ hother => rw [hrunning] at hother; cases hother
  | done _ hbefore => rw [hrest] at hbefore; cases hbefore
  | unstarted labelID s' rest' hinfo _ hlog hbefore haway hmembers =>
    rw [hrest] at hbefore
    obtain ⟨rfl, rfl⟩ := List.cons.inj hbefore
    refine .away labelID hinfo ?_ hmembers
    change ∀ db, ¬ DerivedAt (applyAll system db (tx.log ++ changes)) labelID
    rw [hlog]
    exact haway _ changes hstart
  | away labelID hinfo haway hmembers =>
    rw [hrest] at hmembers
    obtain ⟨hs, hmembers⟩ := List.forall_mem_cons.mp hmembers
    refine .away labelID hinfo (fun db' => ?_) hmembers
    change ¬ DerivedAt (applyAll system db' (tx.log ++ changes)) labelID
    have hold := haway db'
    rw [pending, hrunning, Option.elim_none, List.append_nil] at hold
    rw [ReadCommitted.applyAll_append, derivedAt_members (hs _ changes hstart)]
    exact hold

theorem phase_finish {running : ReadCommitted.Running Statement Change} {locks : List Lock} (h : Phase db tx)
    (hrunning : tx.running = some running) : Phase db (tx.ended running.changes locks) := by
  cases h with
  | preparing before hbefore => exact .preparing before hbefore
  | deleting s rows hother hrest hrefreshing hfound =>
    obtain rfl := Option.some.inj (hrunning.symm.trans hother)
    refine .deleted rfl hrest hrefreshing ?_
    rw [ReadCommitted.view_ended]
    obtain ⟨members, heq, hmem⟩ := applyAll_drops (view system db tx) rows
    intro labelID hostID hin hderived hrow
    rw [heq] at hderived hrow
    obtain ⟨hold, hkept⟩ := (hmem _).mp hrow
    exact hkept (hfound labelID hostID hin hderived hold)
  | deleted hnone => rw [hrunning] at hnone; cases hnone
  | inserting s rows hother hrest hrefreshing hcleared hfound =>
    obtain rfl := Option.some.inj (hrunning.symm.trans hother)
    refine .done rfl hrest hrefreshing ?_
    rw [ReadCommitted.view_ended]
    obtain ⟨members, heq, hmem⟩ := applyAll_puts (view system db tx) rows
    intro labelID hostID hin hderived
    rw [heq] at hderived ⊢
    rw [hmem, or_iff_right (hcleared labelID hostID hin hderived), hfound labelID hostID hin]
    exact Iff.rfl
  | done hnone => rw [hrunning] at hnone; cases hnone
  | unstarted _ _ _ _ hnone => rw [hrunning] at hnone; cases hnone
  | away labelID hinfo haway hmembers =>
    refine .away labelID hinfo (fun db' => ?_) hmembers
    have hold := haway db'
    rw [pending, hrunning] at hold
    change ¬ DerivedAt (applyAll system db' ((tx.log ++ running.changes) ++ [])) labelID
    rw [List.append_nil]
    exact hold

/-- The refresh of one transaction does not see the commit of another one apart from it. -/
theorem phase_beside {db' : Db} (h : Phase db other) (hlog : ∀ c ∈ other.log, Within other.info c)
    (hagree : refreshing other = true → ∀ labelID hostID, other.info.covers labelID hostID = true →
      AgreeAt db db' labelID hostID) : Phase db' other := by
  have hview : refreshing other = true → ∀ labelID hostID, other.info.covers labelID hostID = true →
      AgreeAt (view system db other) (view system db' other) labelID hostID :=
    fun hrefreshing labelID hostID hin => agreeAt_applyAll_congr hlog (hagree hrefreshing) hin
  have hclear : refreshing other = true → Cleared (view system db other) other.info →
      Cleared (view system db' other) other.info := by
    intro hrefreshing hcleared labelID hostID hin hderived
    have hat := hview hrefreshing labelID hostID hin
    rw [hat.member]
    exact hcleared labelID hostID hin (hat.derivedAt.mp hderived)
  cases h with
  | preparing before hbefore => exact .preparing before hbefore
  | deleting s rows hrunning hrest hrefreshing hfound =>
    refine .deleting s rows hrunning hrest hrefreshing (fun labelID hostID hin hderived hmem => ?_)
    have hat := hview hrefreshing labelID hostID hin
    exact hfound labelID hostID hin (hat.derivedAt.mp hderived) (hat.member.mp hmem)
  | deleted hrunning hrest hrefreshing hcleared =>
    exact .deleted hrunning hrest hrefreshing (hclear hrefreshing hcleared)
  | inserting s rows hrunning hrest hrefreshing hcleared hfound =>
    refine .inserting s rows hrunning hrest hrefreshing (hclear hrefreshing hcleared) (fun labelID hostID hin => ?_)
    rw [hfound labelID hostID hin, (hview hrefreshing labelID hostID hin).belongs]
  | done hrunning hrest hrefreshing hright =>
    refine .done hrunning hrest hrefreshing (fun labelID hostID hin hderived => ?_)
    have hat := hview hrefreshing labelID hostID hin
    rw [hat.member, hat.belongs]
    exact hright labelID hostID hin (hat.derivedAt.mp hderived)
  | unstarted labelID s rest hinfo hrunning hlog hrest haway hmembers =>
    exact .unstarted labelID s rest hinfo hrunning hlog hrest haway hmembers
  | away labelID hinfo haway hmembers => exact .away labelID hinfo haway hmembers

/-- A transaction that has run its statements leaves the pairs of its scope right. -/
theorem refreshed_of_done (h : Phase db tx) (hdone : tx.Done) : Refreshed (view system db tx) tx.info := by
  obtain ⟨hrest, hnone⟩ := hdone
  cases h with
  | preparing before hbefore =>
    rw [hrest] at hbefore
    cases before <;> cases hbefore
  | deleting _ _ hrunning => rw [hrunning] at hnone; cases hnone
  | deleted _ hbefore => rw [hrest] at hbefore; cases hbefore
  | inserting _ _ hrunning => rw [hrunning] at hnone; cases hnone
  | done _ _ _ hright => exact hright
  | unstarted _ _ _ _ _ _ hbefore => rw [hrest] at hbefore; cases hbefore
  | away labelID hinfo haway _ =>
    intro labelID' hostID hin hderived
    rw [hinfo, covers_label] at hin
    subst hin
    rw [Option.isNone_iff_eq_none] at hnone
    have hold := haway db
    rw [pending, hnone, Option.elim_none, List.append_nil] at hold
    exact absurd hderived hold

theorem keeps : Keeps system Consistent Own Beside where
  next := by
    intro db tx s rest changes _ hown hrunning hrest hstart
    have hs := hown.rest
    rw [hrest] at hs
    obtain ⟨hwithin, hothers⟩ := List.forall_mem_cons.mp hs
    have hlog := hown.log
    rw [pending, hrunning, Option.elim_none, List.append_nil] at hlog
    exact ⟨List.forall_mem_append.mpr ⟨hlog, hwithin _ changes hstart⟩, hothers,
      phase_next hown.phase hrunning hrest hstart⟩
  finish := by
    intro db tx running locks hown hrunning _
    have hlog := hown.log
    rw [pending, hrunning] at hlog
    refine ⟨?_, hown.rest, phase_finish hown.phase hrunning⟩
    change ∀ c ∈ (tx.log ++ running.changes) ++ [], Within tx.info c
    rw [List.append_nil]
    exact hlog
  commit := by
    intro db tx hgood hown hdone labelID hderived hostID
    cases hin : tx.info.covers labelID hostID with
    | true => exact refreshed_of_done hown.phase hdone labelID hostID hin hderived
    | false =>
      have hat : AgreeAt db (view system db tx) labelID hostID :=
        agreeAt_applyAll (List.forall_mem_append.mp hown.log).1 hin
      rw [hat.member, hat.belongs]
      exact hgood labelID (hat.derivedAt.mp hderived) hostID
  beside := by
    intro db tx other hown hother _ hbeside
    refine ⟨hother.log, hother.rest, phase_beside hother.phase (List.forall_mem_append.mp hother.log).1 ?_⟩
    intro hrefreshing labelID hostID hin
    exact agreeAt_applyAll (List.forall_mem_append.mp hown.log).1
      (not_covers_of_apart (hbeside hrefreshing) hin)

/-- The changes of a statement stay within the scope. -/
def StatementWithin (scope : Scope) (s : Statement) : Prop :=
  ∀ db changes, s.start db = some changes → ∀ c ∈ changes, Within scope c

theorem within_map {α : Type} {f : α → Change} {rows : List α} (h : ∀ row ∈ rows, Within scope (f row)) :
    ∀ c ∈ rows.map f, Within scope c := by
  intro c hc
  obtain ⟨row, hrow, rfl⟩ := List.mem_map.mp hc
  exact h row hrow

theorem within_refresh : ∀ s ∈ refreshDerivedTx scope, StatementWithin scope s := by
  unfold refreshDerivedTx
  refine List.forall_mem_cons.mpr ⟨?_, List.forall_mem_cons.mpr ⟨?_, List.forall_mem_singleton.mpr ?_⟩⟩
  · intro db changes h
    simp only [Statement.start] at h
    split_ifs at h
    cases h
    exact List.forall_mem_nil _
  · intro db changes h
    obtain rfl := Option.some.inj h
    refine within_map (fun row hrow => ?_)
    have hkept := (List.mem_filter.mp hrow).2
    rw [Bool.and_eq_true] at hkept
    exact hkept.2
  · intro db changes h
    obtain rfl := Option.some.inj h
    exact within_map (fun row hrow => (mem_matching.mp hrow).1)

theorem within_members {write : LabelWrite} {hostIDs : List Int} :
    ∀ s ∈ replaceMembership labelID write hostIDs, StatementWithin { labelID := some labelID } s := by
  have hdelete : StatementWithin { labelID := some labelID } (.deleteMembership labelID) := by
    intro db changes h
    obtain rfl := Option.some.inj h
    refine within_map (fun row hrow => covers_label.mpr ?_)
    exact (of_decide_eq_true (List.mem_filter.mp hrow).2).symm
  unfold replaceMembership
  cases write.labelMembershipType with
  | derived => exact within_refresh
  | dynamic => exact List.forall_mem_singleton.mpr hdelete
  | manual =>
    refine List.forall_mem_cons.mpr ⟨hdelete, ?_⟩
    split_ifs
    · exact List.forall_mem_nil _
    · refine List.forall_mem_singleton.mpr (fun db changes h => ?_)
      simp only [Statement.start] at h
      split_ifs at h
      obtain rfl := Option.some.inj h
      exact within_map (fun hostID _ => covers_label.mpr rfl)

theorem onMembers {write : LabelWrite} {hostIDs : List Int} (h : write.labelMembershipType ≠ .derived) :
    ∀ s ∈ replaceMembership labelID write hostIDs, OnMembers s := by
  have hdelete : OnMembers (.deleteMembership labelID) := by
    intro db changes h c hc
    obtain rfl := Option.some.inj h
    obtain ⟨row, -, rfl⟩ := List.mem_map.mp hc
    exact ⟨row, .inr rfl⟩
  unfold replaceMembership
  cases htype : write.labelMembershipType with
  | derived => exact absurd htype h
  | dynamic => exact List.forall_mem_singleton.mpr hdelete
  | manual =>
    refine List.forall_mem_cons.mpr ⟨hdelete, ?_⟩
    split_ifs
    · exact List.forall_mem_nil _
    · refine List.forall_mem_singleton.mpr (fun db changes h c hc => ?_)
      simp only [Statement.start] at h
      split_ifs at h
      obtain rfl := Option.some.inj h
      obtain ⟨hostID, -, rfl⟩ := List.mem_map.mp hc
      exact ⟨_, .inl rfl⟩

/-- A transaction that ends with its refresh. -/
theorem own_refresh (before : List Statement) (hbefore : ∀ s ∈ before, StatementWithin scope s) :
    Own db { info := scope, rest := before ++ refreshDerivedTx scope } where
  log := List.forall_mem_nil _
  rest := List.forall_mem_append.mpr ⟨hbefore, within_refresh⟩
  phase := .preparing (before ++ [.listDerivedLabels scope]) (by rw [List.append_assoc]; rfl)

/-- A transaction that writes the row of a label and then its members. -/
theorem own_label {s : Statement} {write : LabelWrite} {hostIDs : List Int}
    (hwithin : StatementWithin { labelID := some labelID } s)
    (haway : write.labelMembershipType ≠ .derived → ∀ db changes, s.start db = some changes →
      ∀ db, ¬ DerivedAt (applyAll system db changes) labelID) :
    Own db { info := { labelID := some labelID }, rest := s :: replaceMembership labelID write hostIDs } := by
  refine ⟨List.forall_mem_nil _, List.forall_mem_cons.mpr ⟨hwithin, within_members⟩, ?_⟩
  by_cases htype : write.labelMembershipType = .derived
  · refine .preparing [s, .listDerivedLabels { labelID := some labelID }] ?_
    rw [replaceMembership, htype]
    rfl
  · exact .unstarted labelID s _ rfl rfl rfl rfl (haway htype) (onMembers htype)

theorem not_derivedAt_of_lookup {row : LabelRow} (hlookup : db.labels.lookup labelID = some row)
    (htype : row.labelMembershipType ≠ .derived) : ¬ DerivedAt db labelID := by
  rintro ⟨row', hrow', hderived⟩
  obtain rfl := Option.some.inj (hlookup.symm.trans hrow')
  exact htype (beq_iff_eq.mp hderived)

theorem away_putLabel {write : LabelWrite} (htype : write.labelMembershipType ≠ .derived) (db : Db) :
    ¬ DerivedAt (applyAll system db [.putLabel labelID write]) labelID :=
  not_derivedAt_of_lookup (AList.lookup_insert db.labels) htype

theorem away_setLabel {write : LabelWrite} (htype : write.labelMembershipType ≠ .derived) (db : Db) :
    ¬ DerivedAt (applyAll system db [.setLabel labelID write]) labelID := by
  change ¬ DerivedAt ((Change.setLabel labelID write).apply db) labelID
  simp only [Change.apply]
  cases hlookup : db.labels.lookup labelID with
  | none =>
    rintro ⟨row, hrow, -⟩
    rw [hlookup] at hrow
    cases hrow
  | some row => exact not_derivedAt_of_lookup (AList.lookup_insert db.labels) htype

theorem away_dropLabel (db : Db) : ¬ DerivedAt (applyAll system db [.dropLabel labelID]) labelID := by
  rintro ⟨row, hrow, -⟩
  have hgone : (db.labels.erase labelID).lookup labelID = some row := hrow
  rw [AList.lookup_erase] at hgone
  cases hgone

theorem within_reconcile {source : Source} {snapshot : ProviderSnapshot} {firstID : Int} :
    ∀ s ∈ reconcile source snapshot firstID, StatementWithin {} s := by
  intro s hs db changes h c hc
  simp only [reconcile, List.mem_cons, List.not_mem_nil, or_false] at hs
  rcases hs with rfl | rfl | rfl | rfl | rfl | rfl <;> obtain rfl := Option.some.inj h
  · refine within_map ?_ c hc
    exact fun _ _ => rfl
  · refine within_map ?_ c hc
    exact fun _ _ => rfl
  · refine within_map ?_ c hc
    exact fun _ _ => rfl
  · refine within_map ?_ c hc
    exact fun _ _ => rfl
  · refine within_map ?_ c hc
    exact fun _ _ => rfl
  · obtain ⟨p, -, hp⟩ := List.mem_flatMap.mp hc
    obtain ⟨userID, -, huser⟩ := List.mem_flatMap.mp hp
    refine within_map ?_ c huser
    exact fun _ _ => rfl

/-- Every operation begins within its scope and with its phases ahead. -/
theorem own_begin {op : Operation} {seqs seqs' : Sequences} {program : List Statement}
    (h : op.begin seqs = some (scope, program, seqs')) : Own db { info := scope, rest := program } := by
  unfold Operation.begin at h
  cases op with
  | create p =>
    simp only at h
    split at h
    · cases h
    · rename_i write _
      cases h
      refine own_label (fun db changes hstart => ?_) (fun htype db changes hstart => ?_)
      · obtain rfl := Option.some.inj hstart
        exact List.forall_mem_singleton.mpr rfl
      · obtain rfl := Option.some.inj hstart
        exact away_putLabel htype
  | update id p =>
    simp only at h
    split at h
    · cases h
    · rename_i write _
      cases h
      refine own_label (fun db changes hstart => ?_) (fun htype db changes hstart => ?_)
      · simp only [Statement.start] at hstart
        split_ifs at hstart
        obtain rfl := Option.some.inj hstart
        exact List.forall_mem_singleton.mpr rfl
      · simp only [Statement.start] at hstart
        split_ifs at hstart
        obtain rfl := Option.some.inj hstart
        exact away_setLabel htype
  | delete id =>
    cases h
    have hstart : ∀ {db changes}, (Statement.deleteLabel id).start db = some changes → changes = [.dropLabel id] := by
      intro db changes hstart
      simp only [Statement.start] at hstart
      split_ifs at hstart
      exact (Option.some.inj hstart).symm
    refine ⟨List.forall_mem_nil _, List.forall_mem_singleton.mpr (fun db changes h => ?_),
      .unstarted id _ [] rfl rfl rfl rfl (fun db changes h => ?_) (List.forall_mem_nil _)⟩
    · rw [hstart h]
      exact List.forall_mem_singleton.mpr rfl
    · rw [hstart h]
      exact away_dropLabel
  | upsertPrimaryUser hostID email source =>
    cases h
    refine own_refresh [_] (List.forall_mem_singleton.mpr (fun db changes h => ?_))
    obtain rfl := Option.some.inj h
    exact List.forall_mem_singleton.mpr rfl
  | deletePrimaryUser hostID source =>
    cases h
    refine own_refresh [_] (List.forall_mem_singleton.mpr (fun db changes h => ?_))
    simp only [Statement.start] at h
    split_ifs at h
    · obtain rfl := Option.some.inj h
      exact List.forall_mem_singleton.mpr rfl
    · obtain rfl := Option.some.inj h
      exact List.forall_mem_nil _
  | applyProviderSnapshot source snapshot =>
    simp only at h
    split_ifs at h
    cases h
    exact own_refresh _ within_reconcile
  | createUser email =>
    cases h
    refine own_refresh [_] (List.forall_mem_singleton.mpr (fun db changes h => ?_))
    obtain rfl := Option.some.inj h
    exact List.forall_mem_singleton.mpr rfl
  | deleteUser id =>
    cases h
    refine own_refresh [_, _] (List.forall_mem_cons.mpr ⟨fun db changes h => ?_,
      List.forall_mem_singleton.mpr (fun db changes h => ?_)⟩)
    · simp only [Statement.start] at h
      split_ifs at h
      obtain rfl := Option.some.inj h
      exact List.forall_mem_singleton.mpr rfl
    · obtain ⟨user, -, rfl⟩ := Option.map_eq_some_iff.mp h
      split_ifs <;> exact List.forall_mem_singleton.mpr rfl
  | refreshDerived =>
    cases h
    exact own_refresh [] (List.forall_mem_nil _)

/-- A transaction commits only when each other one that has begun its refresh has no pair in
common with it. -/
def Meets (w : World) : Event → Prop
  | .commit t => Clear Beside w.base (.commit t)
  | _ => True

instance (w : World) (e : Event) : Decidable (Meets w e) := by
  cases e <;> unfold Meets <;> infer_instance

/-- No transaction is open, and the members are right. -/
structure Begins (w : World) : Prop where
  txs : w.base.txs = .empty
  consistent : Consistent w.base.db

theorem holds_begins {w : World} (h : Begins w) : Holds Consistent Own w.base := by
  refine ⟨h.consistent, fun t tx hrow => ?_⟩
  rw [h.txs] at hrow
  cases hrow

theorem holds_step {w : World} {e : Event} (h : Holds Consistent Own w.base) (hmeets : Meets w e) :
    Holds Consistent Own (step w e).base := by
  unfold step
  cases hbase : e.base w.seqs with
  | none => exact h
  | some base =>
    refine ReadCommitted.holds_step keeps h (fun info program heq => ?_) ?_
    · cases e with
      | start op =>
        obtain ⟨begun, hbegun, rfl⟩ := Option.map_eq_some_iff.mp hbase
        obtain ⟨rfl, rfl⟩ := ReadCommitted.Event.begin.inj heq
        exact own_begin hbegun
      | _ => cases hbase; cases heq
    · cases e with
      | start op =>
        obtain ⟨begun, -, rfl⟩ := Option.map_eq_some_iff.mp hbase
        trivial
      | commit t => cases hbase; exact hmeets
      | _ => cases hbase; trivial

/-- Along every run whose commits meet the condition the members of each derived label are
the hosts that belong to it, which are also those that a refresh of everything would find. -/
theorem derived_members_match (w : World) (hbegins : Begins w) (es : List Event)
    (hmeets : Along step Meets w es) :
    let db := (exec step w es).base.db
    ∀ labelID, DerivedAt db labelID → ∀ hostID,
      ((labelID, hostID) ∈ db.members ↔ Belongs db labelID hostID) ∧
        ((labelID, hostID) ∈ db.members ↔ (labelID, hostID) ∈ matching db {}) := by
  have hholds : Holds Consistent Own (exec step w es).base :=
    Runs.exec_invariant_along (P := fun w : World => Holds Consistent Own w.base)
      (fun s e hs he => holds_step hs he) (holds_begins hbegins) hmeets
  intro db labelID hderived hostID
  have hright := hholds.good labelID hderived hostID
  exact ⟨hright, by rw [hright, mem_matching, and_iff_right covers_all]⟩

def sampleWorld : World where
  base := { db := { hosts := [1, 2] } }

theorem sampleWorld_begins : Begins sampleWorld where
  txs := rfl
  consistent := nofun

/-- The label of the first user. -/
def sampleLabel : LabelMutation where
  name := "Ann"
  criteria := some { attributeName := "user", values := ["1"] }
  labelMembershipType := "derived"

/-- A transaction that runs its next statements without waiting. -/
def runs (t : Int) (count : Nat) : List Event := (List.replicate count [.next t, .finish t]).flatten

def created : List Event := .start (.createUser "ann@example.com") :: runs 1 4 ++ [.commit 1]

def assigned (hostID t : Int) : List Event :=
  .start (.upsertPrimaryUser hostID "ann@example.com" .manual) :: runs t 4

def labelled (t : Int) : List Event := .start (.create sampleLabel) :: runs t 4

/-- Two hosts get their primary user at once, after the label. -/
def twoHosts : List Event :=
  created ++ labelled 2 ++ [.commit 2] ++ assigned 1 3 ++ assigned 2 4 ++ [.commit 3, .commit 4]

theorem derived_members_match_two_hosts : Belongs (exec step sampleWorld twoHosts).base.db 1 1 := by
  have hmember : (1, 1) ∈ (exec step sampleWorld twoHosts).base.db.members := by decide
  have hderived : ((exec step sampleWorld twoHosts).base.db.labels.lookup 1).any isDerived = true := by
    decide
  have hmeets : Along step Meets sampleWorld twoHosts := by decide
  exact (derived_members_match sampleWorld sampleWorld_begins twoHosts hmeets 1
    (Option.any_eq_true _ _ |>.mp hderived) 1).1.mp hmember

/-- A label is created while a host gets its primary user. Neither refresh sees the other's
row, and the host is missing from the label for good. -/
theorem concurrent_refreshes_miss_a_host :
    let db := (exec step sampleWorld
      (created ++ assigned 1 2 ++ labelled 3 ++ [.commit 2, .commit 3])).base.db
    (exec step sampleWorld (created ++ assigned 1 2 ++ labelled 3 ++ [.commit 2, .commit 3])).base.txs.ids = [] ∧
      Belongs db 1 1 ∧ (1, 1) ∉ db.members ∧ ¬ Consistent db := by
  intro db
  have hbelongs : Belongs db 1 1 := by
    have hmatching : (1, 1) ∈ matching db {} := by decide
    exact (mem_matching.mp hmatching).2
  have hmissing : (1, 1) ∉ db.members := by decide
  refine ⟨by decide, hbelongs, hmissing, fun hconsistent => hmissing ?_⟩
  have hderived : DerivedAt db 1 := by
    obtain ⟨row, hlookup, hderived, -⟩ := hbelongs
    exact ⟨row, hlookup, hderived⟩
  exact (hconsistent 1 hderived 1).mpr hbelongs

end DerivedRefresh
