import Woodstar.DerivedRefresh
import Woodstar.ProviderReconciliation

/-!
# Exactness of applied snapshots

A snapshot is applied as a whole or not at all. After it the tables are what the snapshot
and the identities of the rows before say, and applying it again changes only timestamps.
-/
namespace ProviderSnapshots

open DerivedLabels (Source nullString derivedLabels matching isDerived)
open KeyedRows (Table)
open KeyedUpserts
open LabelModel (LabelRow validateCriteria)
open LatestRows (distinctOn lastOf)
open Primitives (trimSpace bind_eq_ok)

/-- The unique indexes, the checks and the foreign keys. -/
structure Tables.Valid (t : Tables) : Prop where
  users : Distinct userKey t.users
  groups : Distinct groupKey t.groups
  providerEmail : Distinct providerEmail t.users
  providerUPN : Distinct providerUPN t.users
  localEmail : Distinct localEmail t.users
  apiKey : Distinct User.apiKey t.users
  localUser : ∀ id u, t.users.row id = some u → (u.source = .sourceLocal ↔ u.externalID = none)
  providerGroup : ∀ id g, t.groups.row id = some g → g.source ≠ .sourceLocal
  memberships : ∀ row ∈ t.memberships, (t.users.row row.1).isSome = true ∧ (t.groups.row row.2).isSome = true

/-- The attributes of a snapshot's user, white space around the two addresses cut off and
empty texts absent. -/
structure Attributes (p : ProviderUser) (u : User) : Prop where
  email : u.email = p.email
  name : u.name = p.displayName
  userPrincipalName : u.userPrincipalName = some (trimSpace p.userPrincipalName)
  mailNickname : u.mailNickname = nullString p.mailNickname
  givenName : u.givenName = nullString p.givenName
  familyName : u.familyName = nullString p.familyName
  department : u.department = nullString p.department

def User.timeless (u : User) : User := { u with deletedAt := u.deletedAt.map (fun _ => 0), updatedAt := 0 }

def Group.timeless (g : Group) : Group := { g with updatedAt := 0 }

/-- The tables after a snapshot of the source. -/
structure Exact (source : Source) (snapshot : ProviderSnapshot) (t t' : Tables) : Prop where
  groups : ∀ id g, t'.groups.row id = some g → g.source = source → ∃ q, snapshot.group g.externalID = some q ∧
    g.displayName = q.displayName ∧ g.mailNickname = nullString q.mailNickname
  everyGroup : ∀ e q, snapshot.group e = some q → ∃ id g, t'.groups.row id = some g ∧
    groupKey g = some (source, e)
  groupIDs : ∀ id g, t.groups.row id = some g →
    (g.source = source → (snapshot.group g.externalID).isSome = true) →
    ∃ g', t'.groups.row id = some g' ∧ groupKey g' = groupKey g
  newGroups : ∀ id g, t'.groups.row id = some g → t.groups.row id = none →
    find groupKey t.groups (source, g.externalID) = none
  otherGroups : ∀ id g, g.source ≠ source → (t'.groups.row id = some g ↔ t.groups.row id = some g)
  groupRoles : ∀ row, row ∈ t'.groupRoles ↔ row ∈ t.groupRoles ∧ (t'.groups.row row.1).isSome = true
  active : ∀ id u, t'.users.row id = some u → u.source = source →
    (u.deletedAt = none ↔ ∃ p, snapshot.userOf u = some p ∧ p.enabled = true)
  attributes : ∀ id u p, t'.users.row id = some u → u.source = source → snapshot.userOf u = some p →
    Attributes p u
  everyUser : ∀ e p, snapshot.user e = some p → ∃ id u, t'.users.row id = some u ∧ userKey u = some (source, e)
  identity : ∀ id u, t.users.row id = some u → ∃ u', t'.users.row id = some u' ∧ u'.source = u.source ∧
    u'.externalID = u.externalID ∧ u'.apiKey = u.apiKey
  newUsers : ∀ id u, t'.users.row id = some u → t.users.row id = none → u.source = source ∧ u.apiKey = none ∧
    ∃ e p, snapshot.user e = some p ∧ u.externalID = some e ∧ find userKey t.users (source, e) = none
  vanished : ∀ id u, t.users.row id = some u → u.source = source → snapshot.userOf u = none →
    ∃ u', t'.users.row id = some u' ∧ u'.timeless = { u with deletedAt := some 0, updatedAt := 0 }
  otherUsers : ∀ id u, u.source ≠ source → (t'.users.row id = some u ↔ t.users.row id = some u)
  userRoles : t'.userRoles = t.userRoles
  memberships : ∀ userID u groupID, t'.users.row userID = some u → u.source = source →
    ((userID, groupID) ∈ t'.memberships ↔ ∃ p g, snapshot.userOf u = some p ∧
      t'.groups.row groupID = some g ∧ g.source = source ∧ g.externalID ∈ p.groupExternalIDs)
  otherMemberships : ∀ userID u groupID, t'.users.row userID = some u → u.source ≠ source →
    ((userID, groupID) ∈ t'.memberships ↔
      (userID, groupID) ∈ t.memberships ∧ (t'.groups.row groupID).isSome = true)
  labels : t'.labels = t.labels
  hosts : t'.hosts = t.hosts
  primaryUsers : t'.primaryUsers = t.primaryUsers
  labelMembers : ∀ labelID hostID, (labelID, hostID) ∈ t'.labelMembers ↔
    ((labelID, hostID) ∈ t.labelMembers ∧ ¬(t.labels.lookup labelID).any isDerived = true) ∨
      DerivedRefresh.Belongs t'.view labelID hostID

/-- Nothing but timestamps differs. -/
structure SameButTimes (t t' : Tables) : Prop where
  users : ∀ id, (t'.users.row id).map User.timeless = (t.users.row id).map User.timeless
  groups : ∀ id, (t'.groups.row id).map Group.timeless = (t.groups.row id).map Group.timeless
  memberships : t'.memberships = t.memberships
  userRoles : t'.userRoles = t.userRoles
  groupRoles : t'.groupRoles = t.groupRoles
  labels : t'.labels = t.labels
  hosts : t'.hosts = t.hosts
  primaryUsers : t'.primaryUsers = t.primaryUsers
  labelMembers : t'.labelMembers = t.labelMembers

/-- The same sets of objects, the last of an external id counting. -/
structure SameSets (s s' : ProviderSnapshot) : Prop where
  storable : s.storable = s'.storable
  groups : ∀ e, s.group e = s'.group e
  users : ∀ e, (s.user e).map (fun p => { p with groupExternalIDs := [] }) =
    (s'.user e).map (fun p => { p with groupExternalIDs := [] })
  memberOf : ∀ e p p', s.user e = some p → s'.user e = some p' →
    ∀ f, f ∈ p.groupExternalIDs ↔ f ∈ p'.groupExternalIDs

/-- The identities of the rows are the same, whatever else they hold. -/
structure SameIdentities (t t' : Tables) : Prop where
  users : Alike (fun u => (u.source, u.externalID, u.apiKey)) t.users t'.users
  groups : Alike (fun g => (g.source, g.externalID)) t.groups t'.groups

/-- The snapshot's users and groups, and the memberships of the source's users, are the same. -/
structure SameOutcome (source : Source) (snapshot : ProviderSnapshot) (t t' : Tables) : Prop where
  groups : ∀ id g, g.source = source → (t.groups.row id = some g ↔ t'.groups.row id = some g)
  users : ∀ id u, u.source = source → (snapshot.userOf u).isSome = true →
    (t.users.row id = some u ↔ t'.users.row id = some u)
  memberships : ∀ userID u groupID, t.users.row userID = some u → u.source = source →
    ((userID, groupID) ∈ t.memberships ↔ (userID, groupID) ∈ t'.memberships)

/-- The enabled users have pairwise distinct values. -/
def EnabledDistinct (value : ProviderUser → String) (snapshot : ProviderSnapshot) : Prop :=
  ∀ e e' p p', snapshot.user e = some p → snapshot.user e' = some p' → p.enabled = true → p'.enabled = true →
    value p = value p' → e = e'

/-- When a snapshot goes through. -/
structure Applicable (source : Source) (snapshot : ProviderSnapshot) (t : Tables) : Prop where
  provider : source ≠ .sourceLocal
  storable : snapshot.storable = true
  emails : EnabledDistinct ProviderUser.email snapshot
  userPrincipalNames : EnabledDistinct (fun p => trimSpace p.userPrincipalName) snapshot
  labels : ∀ id row, t.labels.lookup id = some row → isDerived row = true →
    validateCriteria row.criteria = .ok ()

def reconciled (now : Int) (source : Source) (snapshot : ProviderSnapshot) (t : Tables) : Tables :=
  reconcileGroupMembershipSnapshot source snapshot.staged
    { reconcileGroupSnapshot now source snapshot.staged t with
      users := putUsers now source (userRows snapshot) t.users }

def refreshed (t : Tables) : Tables :=
  { t with
    labelMembers :=
      t.labelMembers.filter (fun row => ¬(t.labels.lookup row.1).any isDerived = true) ∪
        (matching t.view {}).toFinset }

section

variable {now : Int} {source : Source} {snapshot : ProviderSnapshot} {t t' : Tables}

theorem except_map_eq_ok {ε α β : Type} {x : Except ε α} {f : α → β} {b : β} :
    x.map f = .ok b ↔ ∃ a, x = .ok a ∧ f a = b := by
  cases x with
  | error e => simp [Except.map]
  | ok a => simp [Except.map]

theorem separate_iff {column : UserSnapshot → String} {value : ProviderUser → String}
    (h : ∀ p : ProviderUser, column p.staged = value p) :
    Separate column (userRows snapshot) ↔ EnabledDistinct value snapshot := by
  constructor
  · intro hseparate e e' p p' hp hp' hen hen' heq
    rw [← h, ← h] at heq
    have hsame := hseparate p.staged (staged_mem_userRows hp) p'.staged (staged_mem_userRows hp') hen hen' heq
    exact (externalID_user hp).symm.trans (hsame.trans (externalID_user hp'))
  · intro hdistinct a ha b hb hea heb heq
    obtain ⟨p, hp, rfl⟩ := mem_userRows.mp ha
    obtain ⟨p', hp', rfl⟩ := mem_userRows.mp hb
    rw [h, h] at heq
    exact hdistinct _ _ p p' hp hp' hea heb heq

theorem checkLabels_ok {labels : List (Int × LabelRow)} :
    checkLabels labels = .ok () ↔ ∀ label ∈ labels, validateCriteria label.2.criteria = .ok () := by
  induction labels with
  | nil => simp [checkLabels]
  | cons label labels ih =>
    rw [checkLabels, List.forall_mem_cons, ← ih, bind_eq_ok]
    cases validateCriteria label.2.criteria with
    | error fault => simp [Except.mapError]
    | ok passed => simp [Except.mapError]

theorem checkLabels_view (t : Tables) : checkLabels (derivedLabels t.view {}) = .ok () ↔
    ∀ id row, t.labels.lookup id = some row → isDerived row = true → validateCriteria row.criteria = .ok () := by
  rw [checkLabels_ok]
  constructor
  · intro h id row hlookup hderived
    exact h (id, row) (DerivedRefresh.mem_derivedLabels.mpr ⟨hlookup, hderived, by simp⟩)
  · intro h label hlabel
    obtain ⟨hlookup, hderived, -⟩ := DerivedRefresh.mem_derivedLabels.mp hlabel
    exact h label.1 label.2 hlookup hderived

theorem reconcile_ok (hdistinct : Distinct userKey t.users) (hprovider : source ≠ .sourceLocal) :
    reconcile now source snapshot.staged t = .ok t' ↔
      (EnabledDistinct ProviderUser.email snapshot ∧
        EnabledDistinct (fun p => trimSpace p.userPrincipalName) snapshot) ∧
        t' = reconciled now source snapshot t := by
  have hemails : Separate (fun row => row.mail.getD row.userPrincipalName) (userRows snapshot) ↔
      EnabledDistinct ProviderUser.email snapshot := separate_iff (fun _ => rfl)
  have hupns : Separate UserSnapshot.userPrincipalName (userRows snapshot) ↔
      EnabledDistinct (fun p => trimSpace p.userPrincipalName) snapshot := separate_iff (fun _ => rfl)
  rw [reconcile, except_map_eq_ok, ← hemails, ← hupns]
  constructor
  · intro ⟨between, hbetween, heq⟩
    obtain ⟨users, husers, rfl⟩ := except_map_eq_ok.mp hbetween
    obtain ⟨rfl, hseparate⟩ := (reconcileUsers_ok hdistinct hprovider).mp husers
    exact ⟨hseparate, heq.symm⟩
  · intro ⟨hseparate, heq⟩
    refine ⟨_, except_map_eq_ok.mpr ⟨_, (reconcileUsers_ok hdistinct hprovider).mpr ⟨rfl, hseparate⟩, rfl⟩, ?_⟩
    exact heq.symm

/-- A snapshot goes through exactly when it is applicable. -/
theorem applyProviderSnapshot_ok (hdistinct : Distinct userKey t.users) :
    applyProviderSnapshot now source snapshot t = .ok t' ↔
      Applicable source snapshot t ∧ t' = refreshed (reconciled now source snapshot t) := by
  have hrefresh : refreshDerivedTx (reconciled now source snapshot t) = .ok t' ↔
      (∀ id row, t.labels.lookup id = some row → isDerived row = true → validateCriteria row.criteria = .ok ()) ∧
        t' = refreshed (reconciled now source snapshot t) := by
    rw [refreshDerivedTx, bind_eq_ok]
    constructor
    · intro ⟨passed, hcheck, heq⟩
      exact ⟨(checkLabels_view (reconciled now source snapshot t)).mp hcheck, (Except.ok.inj heq).symm⟩
    · intro ⟨hlabels, heq⟩
      exact ⟨(), (checkLabels_view (reconciled now source snapshot t)).mpr hlabels, congrArg Except.ok heq.symm⟩
  rw [applyProviderSnapshot]
  split_ifs with hlocal
  · constructor
    · intro h
      cases h
    · exact fun h => absurd hlocal h.1.provider
  · rw [bind_eq_ok]
    constructor
    · intro ⟨staged, hstaged, hrest⟩
      rw [stageProviderSnapshot] at hstaged
      split_ifs at hstaged with hstorable
      obtain rfl := Except.ok.inj hstaged
      obtain ⟨between, hbetween, hrest⟩ := bind_eq_ok.mp hrest
      obtain ⟨⟨hemails, hupns⟩, rfl⟩ := (reconcile_ok hdistinct hlocal).mp hbetween
      obtain ⟨hlabels, heq⟩ := hrefresh.mp hrest
      exact ⟨⟨hlocal, hstorable, hemails, hupns, hlabels⟩, heq⟩
    · intro ⟨h, heq⟩
      refine ⟨snapshot.staged, if_pos h.storable, bind_eq_ok.mpr ⟨_, ?_, hrefresh.mpr ⟨h.labels, heq⟩⟩⟩
      exact (reconcile_ok hdistinct hlocal).mpr ⟨⟨h.emails, h.userPrincipalNames⟩, rfl⟩

end

section

variable {now : Int} {source : Source} {snapshot : ProviderSnapshot} {t t' : Tables} {userID groupID : Int}
  {u : User}

theorem mem_memberships : (userID, groupID) ∈ (reconcileGroupMembershipSnapshot source snapshot.staged t).memberships ↔
    ((userID, groupID) ∈ t.memberships ∧
      ¬((t.users.row userID).any (fun user => decide (user.source = source)) = true ∧
        (t.groups.row groupID).any (fun group => decide (group.source = source)) = true)) ∨
      ∃ e p f, snapshot.user e = some p ∧ find userKey t.users (source, e) = some userID ∧
        f ∈ p.groupExternalIDs ∧ find groupKey t.groups (source, f) = some groupID := by
  simp only [reconcileGroupMembershipSnapshot, Finset.mem_union, Finset.mem_filter, List.mem_toFinset,
    List.mem_flatMap, List.mem_map, Option.mem_toList, Prod.mk.injEq]
  refine or_congr_right ?_
  constructor
  · rintro ⟨row, hrow, id, hid, f, hf, id', hid', rfl, rfl⟩
    obtain ⟨p, hp, rfl⟩ := mem_userRows.mp hrow
    exact ⟨_, p, f, hp, hid, hf, hid'⟩
  · rintro ⟨e, p, f, hp, hid, hf, hid'⟩
    have hkey : p.staged.externalID = e := externalID_user hp
    exact ⟨p.staged, staged_mem_userRows hp, userID, hkey.symm ▸ hid, f, hf, groupID, hid', rfl, rfl⟩

end

section

variable {now : Int} {source : Source} {snapshot : ProviderSnapshot} {users : Table User} {id : Int}
  {u u' : User} {p : ProviderUser} {g : Group} {t : Tables}

theorem eq_source (hprovider : source ≠ .sourceLocal) {other : Source} (h : other ≠ .sourceLocal) :
    other = source := by
  cases source with
  | sourceLocal => exact absurd rfl hprovider
  | sourceEntra =>
    cases other with
    | sourceLocal => exact absurd rfl h
    | sourceEntra => rfl

theorem userKey_eq_some {e : String} : userKey u = some (source, e) ↔ u.source = source ∧ u.externalID = some e := by
  simp only [userKey, Option.map_eq_some_iff, Prod.mk.injEq]
  constructor
  · rintro ⟨e', he, hsource, rfl⟩
    exact ⟨hsource, he⟩
  · exact fun h => ⟨e, h.2, h.1, rfl⟩

theorem userOf_eq_some : snapshot.userOf u = some p ↔ ∃ e, u.externalID = some e ∧ snapshot.user e = some p :=
  Option.bind_eq_some_iff

theorem carries_user (hdistinct : Distinct userKey users)
    (hu : (putUsers now source (userRows snapshot) users).row id = some u) (hsource : u.source = source)
    (hp : snapshot.userOf u = some p) : Carries now p.staged u := by
  obtain ⟨e, he, hp⟩ := userOf_eq_some.mp hp
  refine carries_of_key hdistinct (slots_userRows now source snapshot) hu (staged_mem_userRows hp) ?_
  exact userKey_eq_some.mpr ⟨hsource, by rw [he, ← externalID_user hp]; rfl⟩

theorem Carries.attributes (h : Carries now p.staged u) : Attributes p u :=
  ⟨h.email, h.name, h.userPrincipalName, h.mailNickname, h.givenName, h.familyName, h.department⟩

theorem active_iff (hdistinct : Distinct userKey users) (hprovider : source ≠ .sourceLocal)
    (hu : (putUsers now source (userRows snapshot) users).row id = some u) (hsource : u.source = source) :
    u.deletedAt = none ↔ ∃ p, snapshot.userOf u = some p ∧ p.enabled = true := by
  constructor
  · intro hlive
    have hindexed : u.indexed = true := by simp [User.indexed, hlive, hsource, hprovider]
    obtain ⟨row, hrow, henabled, hkey, -⟩ :=
      written_of_indexed hdistinct (slots_userRows now source snapshot) hprovider hu hindexed
    obtain ⟨p, hp, rfl⟩ := mem_userRows.mp hrow
    exact ⟨p, userOf_eq_some.mpr ⟨_, (userKey_eq_some.mp hkey).2, hp⟩, henabled⟩
  · rintro ⟨p, hp, henabled⟩
    have hcarries := carries_user hdistinct hu hsource hp
    rw [hcarries.deletedAt]
    exact if_pos henabled

theorem identity_userAfter (now : Int) (source : Source) (snapshot : ProviderSnapshot) (u : User) :
    (userAfter now source snapshot u).source = u.source ∧
      (userAfter now source snapshot u).externalID = u.externalID ∧
      (userAfter now source snapshot u).apiKey = u.apiKey := by
  rw [userAfter]
  split_ifs
  · cases snapshot.userOf u with
    | some p => exact ⟨rfl, rfl, rfl⟩
    | none =>
      rw [Option.map_none, Option.getD_none, tombstone]
      split_ifs <;> exact ⟨rfl, rfl, rfl⟩
  · exact ⟨rfl, rfl, rfl⟩

theorem timeless_tombstone (h : u.source = source) :
    (tombstone now source u).timeless = { u with deletedAt := some 0, updatedAt := 0 } := by
  rw [tombstone]
  split_ifs with hboth
  · rfl
  · obtain ⟨at', hat⟩ := Option.ne_none_iff_exists'.mp (fun hnone => hboth ⟨h, hnone⟩)
    simp [User.timeless, hat]

/-- Where a user row after the reconciliation comes from. -/
theorem user_cases (hdistinct : Distinct userKey users)
    (hu : (putUsers now source (userRows snapshot) users).row id = some u') :
    (∃ u, users.row id = some u ∧ u' = userAfter now source snapshot u) ∨
      (users.row id = none ∧ ∃ p, snapshot.user p.externalID = some p ∧
        u' = (userUpsert now source).make p.staged ∧ find userKey users (source, p.externalID) = none) := by
  cases hrow : users.row id with
  | some u => exact Or.inl ⟨u, rfl, Option.some.inj (hu.symm.trans (user_old hdistinct hrow))⟩
  | none => exact Or.inr ⟨rfl, user_new hdistinct hu hrow⟩

theorem otherUsers_iff (hdistinct : Distinct userKey users) (hother : u.source ≠ source) :
    (putUsers now source (userRows snapshot) users).row id = some u ↔ users.row id = some u := by
  constructor
  · intro hu
    rcases user_cases hdistinct hu with ⟨v, hv, rfl⟩ | ⟨-, p, -, rfl, -⟩
    · have hsource := (identity_userAfter now source snapshot v).1
      rw [hsource] at hother
      rw [hv, userAfter, if_neg hother]
    · exact absurd rfl hother
  · intro hu
    rw [user_old hdistinct hu, userAfter, if_neg hother]

/-- Every group is one of a provider. -/
theorem provider_groups (hvalid : t.Valid) (hprovider : source ≠ .sourceLocal)
    (hg : (reconcileGroupSnapshot now source snapshot.staged t).groups.row id = some g) : g.source = source := by
  rcases group_cases hvalid.groups hg with ⟨g₀, hg₀, rfl⟩ | ⟨-, q, -, rfl, -⟩
  · have hkey := Option.some.inj (groupKey_groupAfter now source snapshot g₀)
    rw [(Prod.mk.inj hkey).1]
    exact eq_source hprovider (hvalid.providerGroup id g₀ hg₀)
  · rfl

end

section

variable {now : Int} {source : Source} {snapshot : ProviderSnapshot} {t t' : Tables} {userID groupID : Int} {u : User}

theorem group_filter : (userID, groupID) ∈ (reconcileGroupSnapshot now source snapshot.staged t).memberships ↔
    (userID, groupID) ∈ t.memberships ∧
      ((reconcileGroupSnapshot now source snapshot.staged t).groups.row groupID).isSome = true := by
  simp only [reconcileGroupSnapshot, Finset.mem_filter]

theorem memberships_of_source (hvalid : t.Valid) (hprovider : source ≠ .sourceLocal)
    (hu : (reconciled now source snapshot t).users.row userID = some u) (hsource : u.source = source) :
    (userID, groupID) ∈ (reconciled now source snapshot t).memberships ↔ ∃ p g, snapshot.userOf u = some p ∧
      (reconciled now source snapshot t).groups.row groupID = some g ∧ g.source = source ∧
      g.externalID ∈ p.groupExternalIDs := by
  have hgroups : Distinct groupKey (reconciled now source snapshot t).groups := distinct_groups hvalid.groups
  have husers : Distinct userKey (reconciled now source snapshot t).users :=
    distinct_users hvalid.users (userRows snapshot)
  rw [reconciled, mem_memberships]
  constructor
  · rintro (⟨hold, hnot⟩ | ⟨e, p, f, hp, hfind, hf, hfind'⟩)
    · -- every membership of a user of the source is one in a group of the source
      obtain ⟨-, hgroup⟩ := group_filter.mp hold
      obtain ⟨g, hg⟩ := Option.isSome_iff_exists.mp hgroup
      have hown := provider_groups hvalid hprovider hg
      exact absurd ⟨by rw [Option.any_eq_true]; exact ⟨u, hu, decide_eq_true hsource⟩,
        by rw [Option.any_eq_true]; exact ⟨g, hg, decide_eq_true hown⟩⟩ hnot
    · obtain ⟨u₁, hu₁, hkey⟩ := find_spec hfind
      obtain rfl := Option.some.inj (hu.symm.trans hu₁)
      obtain ⟨g, hg, hkey'⟩ := find_spec hfind'
      obtain ⟨hown, rfl⟩ := Prod.mk.inj (Option.some.inj hkey')
      exact ⟨p, g, userOf_eq_some.mpr ⟨e, (userKey_eq_some.mp hkey).2, hp⟩, hg, hown, hf⟩
  · intro ⟨p, g, hp, hg, hown, hf⟩
    obtain ⟨e, he, hp⟩ := userOf_eq_some.mp hp
    refine Or.inr ⟨e, p, g.externalID, hp, ?_, hf, ?_⟩
    · exact find_of_key husers hu (userKey_eq_some.mpr ⟨hsource, he⟩)
    · exact find_of_key hgroups hg (by rw [groupKey, hown])

theorem memberships_of_others (hu : (reconciled now source snapshot t).users.row userID = some u)
    (hother : u.source ≠ source) :
    (userID, groupID) ∈ (reconciled now source snapshot t).memberships ↔ (userID, groupID) ∈ t.memberships ∧
      ((reconciled now source snapshot t).groups.row groupID).isSome = true := by
  rw [reconciled, mem_memberships]
  constructor
  · rintro (⟨hold, -⟩ | ⟨e, p, f, -, hfind, -, -⟩)
    · exact group_filter.mp hold
    · obtain ⟨u₁, hu₁, hkey⟩ := find_spec hfind
      obtain rfl := Option.some.inj (hu.symm.trans hu₁)
      exact absurd (userKey_eq_some.mp hkey).1 hother
  · intro hold
    refine Or.inl ⟨group_filter.mpr hold, ?_⟩
    intro ⟨hany, _⟩
    rw [Option.any_eq_true] at hany
    obtain ⟨u₁, hu₁, hsource⟩ := hany
    obtain rfl := Option.some.inj (hu.symm.trans hu₁)
    exact hother (of_decide_eq_true hsource)

theorem exact_of_applicable (hvalid : t.Valid) (hprovider : source ≠ .sourceLocal) :
    Exact source snapshot t (refreshed (reconciled now source snapshot t)) := by
  have husers := hvalid.users
  have hgroups := hvalid.groups
  constructor
  · intro id g hg hsource
    obtain ⟨q, hq, hname, hnickname, -⟩ := group_carries hgroups hg hsource
    exact ⟨q, hq, hname, hnickname⟩
  · exact fun e q hq => group_has hgroups hq
  · exact fun id g hg hkept => ⟨_, group_old hgroups hg hkept, groupKey_groupAfter now source snapshot g⟩
  · intro id g hg hnone
    obtain ⟨q, -, rfl, hfind⟩ := group_new hgroups hg hnone
    exact hfind
  · intro id g hother
    constructor
    · exact fun hg => absurd (provider_groups hvalid hprovider hg) hother
    · exact fun hg => absurd (eq_source hprovider (hvalid.providerGroup id g hg)) hother
  · intro row
    exact Finset.mem_filter
  · exact fun id u hu hsource => active_iff husers hprovider hu hsource
  · exact fun id u p hu hsource hp => (carries_user husers hu hsource hp).attributes
  · exact fun e p hp => user_has husers hp
  · exact fun id u hu => ⟨_, user_old husers hu, identity_userAfter now source snapshot u⟩
  · intro id u hu hnone
    obtain ⟨p, hp, rfl, hfind⟩ := user_new husers hu hnone
    exact ⟨rfl, rfl, p.externalID, p, hp, rfl, hfind⟩
  · intro id u hu hsource hnone
    refine ⟨_, user_old husers hu, ?_⟩
    rw [userAfter, if_pos hsource, hnone]
    exact timeless_tombstone hsource
  · exact fun id u hother => otherUsers_iff husers hother
  · rfl
  · exact fun userID u groupID hu hsource => memberships_of_source hvalid hprovider hu hsource
  · exact fun userID u groupID hu hother => memberships_of_others hu hother
  · rfl
  · rfl
  · rfl
  · intro labelID hostID
    have hmatch : (labelID, hostID) ∈ matching (reconciled now source snapshot t).view {} ↔
        DerivedRefresh.Belongs (reconciled now source snapshot t).view labelID hostID := by
      rw [DerivedRefresh.mem_matching]
      exact and_iff_right DerivedRefresh.covers_all
    simp only [refreshed, Finset.mem_union, Finset.mem_filter, List.mem_toFinset, hmatch]
    exact Iff.rfl

/-- The constraints hold again. -/
theorem valid_of_applicable (hvalid : t.Valid) (happlicable : Applicable source snapshot t) :
    (refreshed (reconciled now source snapshot t)).Valid := by
  have hprovider := happlicable.provider
  have hexact : Exact source snapshot t (refreshed (reconciled now source snapshot t)) :=
    exact_of_applicable hvalid hprovider
  have hindexes : Distinct providerEmail (putUsers now source (userRows snapshot) t.users) ∧
      Distinct providerUPN (putUsers now source (userRows snapshot) t.users) := by
    rw [← checkIndexes_ok, check_iff hvalid.users (slots_userRows now source snapshot) hprovider]
    exact ⟨(separate_iff (fun _ => rfl)).mpr happlicable.emails,
      (separate_iff (fun _ => rfl)).mpr happlicable.userPrincipalNames⟩
  constructor
  · exact distinct_users hvalid.users (userRows snapshot)
  · exact distinct_groups hvalid.groups
  · exact hindexes.1
  · exact hindexes.2
  · intro id id' u u' e hu hu' he he'
    have hlocal (v : User) (hv : localEmail v = some e) : v.source ≠ source := by
      rw [localEmail] at hv
      split_ifs at hv with hboth
      rw [hboth.2]
      exact hprovider.symm
    exact hvalid.localEmail id id' u u' e ((hexact.otherUsers id u (hlocal u he)).mp hu)
      ((hexact.otherUsers id' u' (hlocal u' he')).mp hu') he he'
  · intro id id' u u' key hu hu' hkey hkey'
    have hold (i : Int) (v : User) (hv : (refreshed (reconciled now source snapshot t)).users.row i = some v)
        (hk : v.apiKey = some key) : ∃ v₀, t.users.row i = some v₀ ∧ v₀.apiKey = some key := by
      cases hrow : t.users.row i with
      | none =>
        rw [(hexact.newUsers i v hv hrow).2.1] at hk
        cases hk
      | some v₀ =>
        obtain ⟨v₁, hv₁, -, -, heq⟩ := hexact.identity i v₀ hrow
        obtain rfl := Option.some.inj (hv.symm.trans hv₁)
        exact ⟨v₀, rfl, heq.symm.trans hk⟩
    obtain ⟨v, hv, hk⟩ := hold id u hu hkey
    obtain ⟨v', hv', hk'⟩ := hold id' u' hu' hkey'
    exact hvalid.apiKey id id' v v' key hv hv' hk hk'
  · intro id u hu
    cases hrow : t.users.row id with
    | none =>
      obtain ⟨hsource, -, e, p, -, he, -⟩ := hexact.newUsers id u hu hrow
      rw [hsource, he]
      exact ⟨fun heq => absurd heq hprovider, fun heq => absurd heq (Option.some_ne_none e)⟩
    | some v =>
      obtain ⟨v', hv', hsource, hexternal, -⟩ := hexact.identity id v hrow
      obtain rfl := Option.some.inj (hu.symm.trans hv')
      rw [hsource, hexternal]
      exact hvalid.localUser id v hrow
  · intro id g hg
    rw [provider_groups hvalid hprovider hg]
    exact hprovider
  · intro row hrow
    have hmem : (row.1, row.2) ∈ (reconciled now source snapshot t).memberships := hrow
    rw [reconciled, mem_memberships] at hmem
    rcases hmem with ⟨hold, -⟩ | ⟨e, p, f, -, hfind, -, hfind'⟩
    · obtain ⟨hmember, hgroup⟩ := group_filter.mp hold
      obtain ⟨v, hv⟩ := Option.isSome_iff_exists.mp (hvalid.memberships _ hmember).1
      obtain ⟨v', hv', -⟩ := hexact.identity row.1 v hv
      exact ⟨by rw [hv']; rfl, hgroup⟩
    · obtain ⟨v, hv, -⟩ := find_spec hfind
      obtain ⟨g, hg, -⟩ := find_spec hfind'
      exact ⟨Option.isSome_iff_exists.mpr ⟨v, hv⟩, Option.isSome_iff_exists.mpr ⟨g, hg⟩⟩

end

end ProviderSnapshots
