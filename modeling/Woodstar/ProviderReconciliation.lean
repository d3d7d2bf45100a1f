import Woodstar.ProviderSnapshots

/-!
# Reconciliation with a provider's snapshot

What the transaction leaves is said by the snapshot as a map from external ids to the last
object of each, and by the identities of the rows before: every row keeps its identity, and
the rows of the snapshot's objects carry the snapshot.
-/
namespace ProviderSnapshots

open DerivedLabels (Source nullString)
open KeyedRows (Table)
open KeyedUpserts
open LatestRows (distinctOn lastOf)
open Primitives (trimSpace bind_eq_ok)

/-- The last object of an external id. -/
def ProviderSnapshot.user (snapshot : ProviderSnapshot) (externalID : String) : Option ProviderUser :=
  lastOf ProviderUser.externalID snapshot.users externalID

def ProviderSnapshot.group (snapshot : ProviderSnapshot) (externalID : String) : Option ProviderGroup :=
  lastOf ProviderGroup.externalID snapshot.groups externalID

/-- The snapshot's user for a row. -/
def ProviderSnapshot.userOf (snapshot : ProviderSnapshot) (user : User) : Option ProviderUser :=
  user.externalID.bind snapshot.user

/-- The e-mail address, or else the user principal name. -/
def ProviderUser.email (p : ProviderUser) : String :=
  (nullString (trimSpace p.mail)).getD (trimSpace p.userPrincipalName)

/-- The rows that the statements select. -/
def userRows (snapshot : ProviderSnapshot) : List UserSnapshot :=
  distinctOn UserSnapshot.externalID snapshot.staged.users

def groupRows (snapshot : ProviderSnapshot) : List GroupSnapshot :=
  distinctOn GroupSnapshot.externalID snapshot.staged.groups

section

variable {snapshot : ProviderSnapshot} {p : ProviderUser} {q : ProviderGroup} {e : String} {now : Int}
  {source : Source} {row : UserSnapshot}

theorem externalID_user (h : snapshot.user e = some p) : p.externalID = e := LatestRows.key_lastOf h

theorem externalID_group (h : snapshot.group e = some q) : q.externalID = e := LatestRows.key_lastOf h

theorem find_userRows (snapshot : ProviderSnapshot) (e : String) :
    (userRows snapshot).find? (fun row => decide (row.externalID = e)) =
      (snapshot.user e).map ProviderUser.staged := by
  rw [userRows, ProviderSnapshot.staged, LatestRows.find_distinctOn UserSnapshot.externalID,
    LatestRows.lastOf_map]
  rfl

theorem find_groupRows (snapshot : ProviderSnapshot) (e : String) :
    (groupRows snapshot).find? (fun row => decide (row.externalID = e)) =
      (snapshot.group e).map ProviderGroup.staged := by
  rw [groupRows, ProviderSnapshot.staged, LatestRows.find_distinctOn GroupSnapshot.externalID,
    LatestRows.lastOf_map]
  rfl

theorem mem_userRows : row ∈ userRows snapshot ↔ ∃ p, snapshot.user row.externalID = some p ∧ p.staged = row := by
  rw [userRows, ProviderSnapshot.staged, LatestRows.mem_distinctOn, LatestRows.lastOf_map, Option.map_eq_some_iff]
  rfl

theorem mem_groupRows {row : GroupSnapshot} :
    row ∈ groupRows snapshot ↔ ∃ q, snapshot.group row.externalID = some q ∧ q.staged = row := by
  rw [groupRows, ProviderSnapshot.staged, LatestRows.mem_distinctOn, LatestRows.lastOf_map, Option.map_eq_some_iff]
  rfl

theorem staged_mem_userRows (h : snapshot.user e = some p) : p.staged ∈ userRows snapshot := by
  rw [← externalID_user h] at h
  exact mem_userRows.mpr ⟨p, h, rfl⟩

theorem staged_mem_groupRows (h : snapshot.group e = some q) : q.staged ∈ groupRows snapshot := by
  rw [← externalID_group h] at h
  exact mem_groupRows.mpr ⟨q, h, rfl⟩

theorem slots_userRows (now : Int) (source : Source) (snapshot : ProviderSnapshot) :
    ((userRows snapshot).map (userUpsert now source).slot).Nodup := by
  rw [List.Nodup, List.pairwise_map]
  refine (LatestRows.distinctOn_ascending _ _).imp ?_
  intro a b hlt heq
  exact ne_of_lt hlt (Prod.mk.inj heq).2

theorem slots_groupRows (now : Int) (source : Source) (snapshot : ProviderSnapshot) :
    ((groupRows snapshot).map (groupUpsert now source).slot).Nodup := by
  rw [List.Nodup, List.pairwise_map]
  refine (LatestRows.distinctOn_ascending _ _).imp ?_
  intro a b hlt heq
  exact ne_of_lt hlt (Prod.mk.inj heq).2

theorem any_staged_groups (snapshot : ProviderSnapshot) (e : String) :
    snapshot.staged.groups.any (fun row => decide (row.1.externalID = e)) =
      (snapshot.group e).isSome := by
  rw [Bool.eq_iff_iff, ProviderSnapshot.group, LatestRows.isSome_lastOf, List.any_eq_true]
  constructor
  · intro ⟨row, hrow, hkey⟩
    obtain ⟨q, hq, heq⟩ := List.mem_map.mp (List.fst_mem_of_mem_zipIdx hrow)
    rw [← heq, decide_eq_true_eq] at hkey
    exact ⟨q, hq, hkey⟩
  · intro ⟨q, hq, hkey⟩
    have hstaged : q.staged ∈ snapshot.groups.map ProviderGroup.staged := List.mem_map_of_mem hq
    obtain ⟨i, hi⟩ := List.getElem?_of_mem hstaged
    exact ⟨(q.staged, i), List.mem_zipIdx_iff_getElem?.mpr hi, decide_eq_true hkey⟩

end

section

variable {snapshot : ProviderSnapshot} {t : Tables} {now : Int} {source : Source} {id : Int} {g g' : Group}
  {q : ProviderGroup} {e : String}

theorem find_group (now : Int) (source : Source) (snapshot : ProviderSnapshot) (g : Group) :
    (groupRows snapshot).find? (fun row => decide ((groupUpsert now source).key g =
      some ((groupUpsert now source).slot row))) =
      if g.source = source then (snapshot.group g.externalID).map ProviderGroup.staged else none := by
  split_ifs with hsource
  · rw [← find_groupRows]
    congr 1
    funext row
    simp [groupUpsert, groupKey, hsource, eq_comm]
  · rw [List.find?_eq_none]
    intro row _ heq
    have hkey := Option.some.inj (of_decide_eq_true heq)
    exact hsource (Prod.mk.inj hkey).1

/-- A group row after the upsert. -/
def groupAfter (now : Int) (source : Source) (snapshot : ProviderSnapshot) (g : Group) : Group :=
  if g.source = source then
    ((snapshot.group g.externalID).map (fun q => (groupUpsert now source).merge q.staged g)).getD g
  else g

theorem groupKey_groupAfter (now : Int) (source : Source) (snapshot : ProviderSnapshot) (g : Group) :
    groupKey (groupAfter now source snapshot g) = groupKey g := by
  rw [groupAfter]
  split_ifs
  · cases snapshot.group g.externalID <;> rfl
  · rfl

theorem kept_group : (reconcileGroupSnapshot now source snapshot.staged t).groups.row id = some g ↔
    (putAll (groupUpsert now source) t.groups (groupRows snapshot)).row id = some g ∧
      (g.source = source → (snapshot.group g.externalID).isSome = true) := by
  simp only [reconcileGroupSnapshot, keep, Option.filter_eq_some_iff, any_staged_groups]
  constructor
  · rintro ⟨hrow, hkept⟩
    refine ⟨hrow, ?_⟩
    intro hsource
    simpa [hsource] using hkept
  · rintro ⟨hrow, hkept⟩
    refine ⟨hrow, ?_⟩
    by_cases hsource : g.source = source
    · simp [hsource, hkept hsource]
    · simp [hsource]

theorem group_put (hdistinct : Distinct groupKey t.groups) (hg : t.groups.row id = some g) :
    (putAll (groupUpsert now source) t.groups (groupRows snapshot)).row id =
      some (groupAfter now source snapshot g) := by
  rw [putAll_old (u := groupUpsert now source) hdistinct (slots_groupRows now source snapshot) hg, find_group,
    groupAfter]
  split_ifs
  · rw [Option.map_map]
    rfl
  · rfl

theorem group_old (hdistinct : Distinct groupKey t.groups) (hg : t.groups.row id = some g)
    (hkept : g.source = source → (snapshot.group g.externalID).isSome = true) :
    (reconcileGroupSnapshot now source snapshot.staged t).groups.row id =
      some (groupAfter now source snapshot g) := by
  rw [kept_group]
  refine ⟨group_put hdistinct hg, ?_⟩
  have hkey := Option.some.inj (groupKey_groupAfter now source snapshot g)
  rw [(Prod.mk.inj hkey).1, (Prod.mk.inj hkey).2]
  exact hkept

theorem group_new (hdistinct : Distinct groupKey t.groups)
    (hg : (reconcileGroupSnapshot now source snapshot.staged t).groups.row id = some g)
    (hnone : t.groups.row id = none) :
    ∃ q, snapshot.group q.externalID = some q ∧ g = (groupUpsert now source).make q.staged ∧
      find groupKey t.groups (source, q.externalID) = none := by
  obtain ⟨row, hrow, hmake, hfind⟩ :=
    putAll_new (u := groupUpsert now source) hdistinct (slots_groupRows now source snapshot) (kept_group.mp hg).1 hnone
  obtain ⟨q, hq, rfl⟩ := mem_groupRows.mp hrow
  exact ⟨q, hq, hmake, hfind⟩

/-- Where a row after the reconciliation comes from. -/
theorem group_cases (hdistinct : Distinct groupKey t.groups)
    (hg : (reconcileGroupSnapshot now source snapshot.staged t).groups.row id = some g') :
    (∃ g, t.groups.row id = some g ∧ g' = groupAfter now source snapshot g) ∨
      (t.groups.row id = none ∧ ∃ q, snapshot.group q.externalID = some q ∧
        g' = (groupUpsert now source).make q.staged ∧ find groupKey t.groups (source, q.externalID) = none) := by
  cases hrow : t.groups.row id with
  | some g =>
    exact Or.inl ⟨g, rfl, Option.some.inj ((kept_group.mp hg).1.symm.trans (group_put hdistinct hrow))⟩
  | none => exact Or.inr ⟨rfl, group_new hdistinct hg hrow⟩

theorem group_has (hdistinct : Distinct groupKey t.groups) (hq : snapshot.group e = some q) :
    ∃ id g, (reconcileGroupSnapshot now source snapshot.staged t).groups.row id = some g ∧
      groupKey g = some (source, e) := by
  obtain ⟨id, g, hg, hkey⟩ :=
    putAll_has (u := groupUpsert now source) hdistinct (staged_mem_groupRows hq)
  have hkey' : groupKey g = some (source, e) := by
    rw [← externalID_group hq]
    exact hkey
  refine ⟨id, g, kept_group.mpr ⟨hg, ?_⟩, hkey'⟩
  intro _
  rw [(Prod.mk.inj (Option.some.inj hkey')).2, hq]
  rfl

theorem distinct_groups (hdistinct : Distinct groupKey t.groups) :
    Distinct groupKey (reconcileGroupSnapshot now source snapshot.staged t).groups := by
  have hput := distinct_putAll (u := groupUpsert now source) hdistinct (groupRows snapshot)
  intro id id' g g' k hg hg' hkey hkey'
  exact hput id id' g g' k (kept_group.mp hg).1 (kept_group.mp hg').1 hkey hkey'

/-- A group of the provider carries the snapshot. -/
theorem group_carries (hdistinct : Distinct groupKey t.groups)
    (hg : (reconcileGroupSnapshot now source snapshot.staged t).groups.row id = some g) (hsource : g.source = source) :
    ∃ q, snapshot.group g.externalID = some q ∧ g.displayName = q.displayName ∧
      g.mailNickname = nullString q.mailNickname ∧ g.updatedAt = now := by
  rcases group_cases hdistinct hg with ⟨g₀, -, rfl⟩ | ⟨-, q, hq, rfl, -⟩
  · have hkept := (kept_group.mp hg).2 hsource
    have hkey := Prod.mk.inj (Option.some.inj
      (groupKey_groupAfter now source snapshot g₀))
    rw [hkey.2] at hkept ⊢
    rw [hkey.1] at hsource
    obtain ⟨q, hq⟩ := Option.isSome_iff_exists.mp hkept
    refine ⟨q, hq, ?_⟩
    rw [groupAfter, if_pos hsource, hq]
    exact ⟨rfl, rfl, rfl⟩
  · exact ⟨q, hq, rfl, rfl, rfl⟩

end

section

variable {snapshot : ProviderSnapshot} {users users' : Table User} {now : Int} {source : Source} {id : Int}
  {u u' : User} {p : ProviderUser} {e : String}

theorem find_user (now : Int) (source : Source) (snapshot : ProviderSnapshot) (u : User) :
    (userRows snapshot).find? (fun row => decide ((userUpsert now source).key u =
      some ((userUpsert now source).slot row))) =
      if u.source = source then (snapshot.userOf u).map ProviderUser.staged else none := by
  have hkey (row : UserSnapshot) : (userUpsert now source).key u = some ((userUpsert now source).slot row) ↔
      u.source = source ∧ u.externalID = some row.externalID := by
    simp only [userUpsert, userKey, Option.map_eq_some_iff, Prod.mk.injEq]
    constructor
    · rintro ⟨e, he, hsource, rfl⟩
      exact ⟨hsource, he⟩
    · exact fun h => ⟨row.externalID, h.2, h.1, rfl⟩
  simp only [hkey]
  split_ifs with hsource
  · simp only [hsource, true_and, ProviderSnapshot.userOf]
    cases he : u.externalID with
    | none => simp
    | some e =>
      rw [Option.bind_some, ← find_userRows]
      congr 1
      funext row
      simp [eq_comm]
  · simp [hsource]

theorem userKey_tombstone (u : User) : userKey (tombstone now source u) = userKey u := by
  rw [tombstone]
  split_ifs <;> rfl

/-- A user row after the reconciliation. -/
def userAfter (now : Int) (source : Source) (snapshot : ProviderSnapshot) (u : User) : User :=
  if u.source = source then
    ((snapshot.userOf u).map (fun p => (userUpsert now source).merge p.staged u)).getD (tombstone now source u)
  else u

/-- The rows of the users before the checks. -/
def putUsers (now : Int) (source : Source) (rows : List UserSnapshot) (users : Table User) : Table User :=
  putAll (userUpsert now source) (users.map (tombstone now source)) rows

theorem merge_tombstone (row : UserSnapshot) (u : User) :
    (userUpsert now source).merge row (tombstone now source u) = (userUpsert now source).merge row u := by
  rw [tombstone]
  split_ifs <;> rfl

theorem distinct_tombstone (hdistinct : Distinct userKey users) :
    Distinct userKey (users.map (tombstone now source)) := by
  intro id id' u u' k hu hu' hkey hkey'
  obtain ⟨v, hv, rfl⟩ := Option.map_eq_some_iff.mp hu
  obtain ⟨v', hv', rfl⟩ := Option.map_eq_some_iff.mp hu'
  rw [userKey_tombstone] at hkey hkey'
  exact hdistinct id id' v v' k hv hv' hkey hkey'

theorem tombstone_other (h : u.source ≠ source) : tombstone now source u = u := if_neg (fun hboth => h hboth.1)

theorem source_tombstone (u : User) : (tombstone now source u).source = u.source := by
  rw [tombstone]
  split_ifs <;> rfl

theorem externalID_tombstone (u : User) : (tombstone now source u).externalID = u.externalID := by
  rw [tombstone]
  split_ifs <;> rfl

theorem user_old (hdistinct : Distinct userKey users) (hu : users.row id = some u) :
    (putUsers now source (userRows snapshot) users).row id = some (userAfter now source snapshot u) := by
  have hrow : (users.map (tombstone now source)).row id = some (tombstone now source u) := by
    change (users.row id).map _ = _
    rw [hu]
    rfl
  rw [putUsers, putAll_old (u := userUpsert now source) (distinct_tombstone hdistinct)
    (slots_userRows now source snapshot) hrow, find_user, userAfter, source_tombstone]
  split_ifs with hsource
  · rw [Option.map_map, ProviderSnapshot.userOf, ProviderSnapshot.userOf, externalID_tombstone]
    simp only [Function.comp_def, merge_tombstone]
  · rw [tombstone_other hsource]
    rfl

theorem user_new (hdistinct : Distinct userKey users)
    (hu : (putUsers now source (userRows snapshot) users).row id = some u) (hnone : users.row id = none) :
    ∃ p, snapshot.user p.externalID = some p ∧ u = (userUpsert now source).make p.staged ∧
      find userKey users (source, p.externalID) = none := by
  have hrow : (users.map (tombstone now source)).row id = none := by
    change (users.row id).map _ = _
    rw [hnone]
    rfl
  obtain ⟨row, hmem, hmake, hfind⟩ :=
    putAll_new (u := userUpsert now source) (distinct_tombstone hdistinct) (slots_userRows now source snapshot) hu hrow
  obtain ⟨p, hp, rfl⟩ := mem_userRows.mp hmem
  refine ⟨p, hp, hmake, ?_⟩
  rw [find_eq_none] at hfind ⊢
  intro id' v hv hkey
  refine hfind id' (tombstone now source v) ?_ ((userKey_tombstone v).trans hkey)
  change (users.row id').map _ = _
  rw [hv]
  rfl

theorem user_has (hdistinct : Distinct userKey users) (hp : snapshot.user e = some p) :
    ∃ id u, (putUsers now source (userRows snapshot) users).row id = some u ∧ userKey u = some (source, e) := by
  obtain ⟨id, u, hu, hkey⟩ :=
    putAll_has (u := userUpsert now source) (distinct_tombstone hdistinct) (staged_mem_userRows hp)
  refine ⟨id, u, hu, ?_⟩
  rw [← externalID_user hp]
  exact hkey

theorem distinct_users (hdistinct : Distinct userKey users) (rows : List UserSnapshot) :
    Distinct userKey (putUsers now source rows users) :=
  distinct_putAll (u := userUpsert now source) (distinct_tombstone hdistinct) rows

/-- The row carries what was staged for its user. -/
structure Carries (now : Int) (row : UserSnapshot) (u : User) : Prop where
  email : u.email = row.mail.getD row.userPrincipalName
  name : u.name = row.displayName
  userPrincipalName : u.userPrincipalName = some row.userPrincipalName
  mailNickname : u.mailNickname = row.mailNickname
  givenName : u.givenName = row.givenName
  familyName : u.familyName = row.familyName
  department : u.department = row.department
  deletedAt : u.deletedAt = if row.enabled = true then none else some now
  updatedAt : u.updatedAt = now

theorem carries_merge (row : UserSnapshot) (u : User) :
    Carries now row ((userUpsert now source).merge row u) :=
  ⟨rfl, rfl, rfl, rfl, rfl, rfl, rfl, rfl, rfl⟩

theorem carries_make (row : UserSnapshot) : Carries now row ((userUpsert now source).make row) :=
  ⟨rfl, rfl, rfl, rfl, rfl, rfl, rfl, rfl, rfl⟩

section

variable {rows : List UserSnapshot} {row : UserSnapshot}

theorem carries_of_key (hdistinct : Distinct userKey users) (hslots : (rows.map (userUpsert now source).slot).Nodup)
    (hu : (putUsers now source rows users).row id = some u) (hrow : row ∈ rows)
    (hkey : userKey u = some (source, row.externalID)) : Carries now row u := by
  rcases putAll_written (u := userUpsert now source) (distinct_tombstone hdistinct) hslots hu hrow hkey with
    ⟨v, -, rfl⟩ | ⟨-, rfl⟩
  · exact carries_merge row v
  · exact carries_make row

/-- After the tombstones an active user of a provider is one that was written enabled. -/
theorem written_of_indexed (hdistinct : Distinct userKey users)
    (hslots : (rows.map (userUpsert now source).slot).Nodup) (hprovider : source ≠ .sourceLocal)
    (hu : (putUsers now source rows users).row id = some u) (hindexed : u.indexed = true) :
    ∃ row ∈ rows, row.enabled = true ∧ userKey u = some (source, row.externalID) ∧ Carries now row u := by
  have hactive : u.deletedAt = none ∧ u.source ≠ .sourceLocal := by
    simpa [User.indexed] using hindexed
  have hwritten : ∃ row ∈ rows, userKey u = some (source, row.externalID) := by
    cases hrow : users.row id with
    | some v =>
      have hmap : (users.map (tombstone now source)).row id = some (tombstone now source v) := by
        change (users.row id).map _ = _
        rw [hrow]
        rfl
      have hput := putAll_old (u := userUpsert now source) (distinct_tombstone hdistinct) hslots hmap
      cases hfind : rows.find? (fun row => decide ((userUpsert now source).key (tombstone now source v) =
          some ((userUpsert now source).slot row))) with
      | some row =>
        have hkey : (userUpsert now source).key (tombstone now source v) =
            some ((userUpsert now source).slot row) := by
          simpa using List.find?_some hfind
        obtain ⟨u₁, hu₁, hkey₁⟩ := putAll_key (u := userUpsert now source) rows
          (distinct_tombstone hdistinct) hmap
        obtain rfl := Option.some.inj (hu.symm.trans hu₁)
        exact ⟨row, List.mem_of_find?_eq_some hfind, hkey₁.trans hkey⟩
      | none =>
        -- the row was left to its tombstone
        rw [hfind] at hput
        obtain rfl : u = tombstone now source v := Option.some.inj (hu.symm.trans hput)
        obtain ⟨hlive, hsource⟩ := hactive
        rw [source_tombstone] at hsource
        have hown : v.source = source := by
          cases hv : v.source with
          | sourceLocal => exact absurd hv hsource
          | sourceEntra =>
            cases source with
            | sourceLocal => exact absurd rfl hprovider
            | sourceEntra => rfl
        rw [tombstone] at hlive
        split_ifs at hlive with hboth
        exact absurd ⟨hown, hlive⟩ hboth
    | none =>
      have hmap : (users.map (tombstone now source)).row id = none := by
        change (users.row id).map _ = _
        rw [hrow]
        rfl
      obtain ⟨row, hmem, rfl, -⟩ :=
        putAll_new (u := userUpsert now source) (distinct_tombstone hdistinct) hslots hu hmap
      exact ⟨row, hmem, rfl⟩
  obtain ⟨row, hrow, hkey⟩ := hwritten
  have hcarries := carries_of_key hdistinct hslots hu hrow hkey
  refine ⟨row, hrow, ?_, hkey, hcarries⟩
  have hlive := hcarries.deletedAt.symm.trans hactive.1
  by_contra henabled
  rw [if_neg henabled] at hlive
  cases hlive

theorem indexed_of_enabled (hdistinct : Distinct userKey users)
    (hslots : (rows.map (userUpsert now source).slot).Nodup) (hprovider : source ≠ .sourceLocal)
    (hrow : row ∈ rows) (henabled : row.enabled = true) :
    ∃ id u, (putUsers now source rows users).row id = some u ∧ u.indexed = true ∧
      userKey u = some (source, row.externalID) ∧ Carries now row u := by
  obtain ⟨id, u, hu, hkey⟩ := putAll_has (u := userUpsert now source) (distinct_tombstone hdistinct) hrow
  have hcarries := carries_of_key hdistinct hslots hu hrow hkey
  refine ⟨id, u, hu, ?_, hkey, hcarries⟩
  have hkey' : userKey u = some (source, row.externalID) := hkey
  obtain ⟨e, -, hpair⟩ := Option.map_eq_some_iff.mp hkey'
  rw [User.indexed, hcarries.deletedAt, if_pos henabled, (Prod.mk.inj hpair).1]
  simpa using hprovider

/-- Enabled rows with one value in the column are one. -/
def Separate (column : UserSnapshot → String) (rows : List UserSnapshot) : Prop :=
  ∀ a ∈ rows, ∀ b ∈ rows, a.enabled = true → b.enabled = true → column a = column b →
    a.externalID = b.externalID

/-- A partial index on active providers' users is unique when the staged values are. -/
theorem distinct_iff_separate (hdistinct : Distinct userKey users)
    (hslots : (rows.map (userUpsert now source).slot).Nodup) (hprovider : source ≠ .sourceLocal)
    {index : User → Option String} {column : UserSnapshot → String}
    (hindexed : ∀ u v, index u = some v → u.indexed = true)
    (hcolumn : ∀ u row, u.indexed = true → Carries now row u → index u = some (column row)) :
    Distinct index (putUsers now source rows users) ↔ Separate column rows := by
  constructor
  · intro h a ha b hb hea heb heq
    obtain ⟨id, u, hu, hi, hkey, hcarries⟩ := indexed_of_enabled hdistinct hslots hprovider ha hea
    obtain ⟨id', u', hu', hi', hkey', hcarries'⟩ := indexed_of_enabled hdistinct hslots hprovider hb heb
    have hindex' : index u' = some (column a) := by
      rw [heq]
      exact hcolumn u' b hi' hcarries'
    obtain rfl := h id id' u u' _ hu hu' (hcolumn u a hi hcarries) hindex'
    obtain rfl := Option.some.inj (hu.symm.trans hu')
    exact (Prod.mk.inj (Option.some.inj (hkey.symm.trans hkey'))).2
  · intro h id id' u u' v hu hu' hv hv'
    obtain ⟨a, ha, hea, hkey, hcarries⟩ := written_of_indexed hdistinct hslots hprovider hu (hindexed u v hv)
    obtain ⟨b, hb, heb, hkey', hcarries'⟩ := written_of_indexed hdistinct hslots hprovider hu' (hindexed u' v hv')
    have hva := (hcolumn u a (hindexed u v hv) hcarries).symm.trans hv
    have hvb := (hcolumn u' b (hindexed u' v hv') hcarries').symm.trans hv'
    have hsame := h a ha b hb hea heb (Option.some.inj (hva.trans hvb.symm))
    rw [← hsame] at hkey'
    exact distinct_users hdistinct rows id id' u u' _ hu hu' hkey hkey'

theorem checkIndexes_ok :
    checkIndexes users = .ok () ↔ Distinct providerEmail users ∧ Distinct providerUPN users := by
  rw [← isDistinct_iff, ← isDistinct_iff, checkIndexes]
  cases isDistinct providerEmail users <;> cases isDistinct providerUPN users <;> simp

theorem check_iff (hdistinct : Distinct userKey users)
    (hslots : (rows.map (userUpsert now source).slot).Nodup) (hprovider : source ≠ .sourceLocal) :
    checkIndexes (putUsers now source rows users) = .ok () ↔
      Separate (fun row => row.mail.getD row.userPrincipalName) rows ∧
        Separate UserSnapshot.userPrincipalName rows := by
  have hemail : Distinct providerEmail (putUsers now source rows users) ↔
      Separate (fun row => row.mail.getD row.userPrincipalName) rows := by
    apply distinct_iff_separate hdistinct hslots hprovider
    · intro u v hv
      rw [providerEmail] at hv
      split_ifs at hv with hindexed
      exact hindexed
    · intro u row hindexed hcarries
      rw [providerEmail, if_pos hindexed, hcarries.email]
  have hupn : Distinct providerUPN (putUsers now source rows users) ↔
      Separate UserSnapshot.userPrincipalName rows := by
    apply distinct_iff_separate hdistinct hslots hprovider
    · intro u v hv
      rw [providerUPN] at hv
      split_ifs at hv with hindexed
      exact hindexed
    · intro u row hindexed hcarries
      rw [providerUPN, if_pos hindexed, hcarries.userPrincipalName]
  rw [checkIndexes_ok, hemail, hupn]

end

/-- The upsert goes through exactly when the enabled users' values are pairwise distinct. -/
theorem reconcileUsers_ok (hdistinct : Distinct userKey users) (hprovider : source ≠ .sourceLocal) :
    putAllChecked (userUpsert now source) checkIndexes (users.map (tombstone now source)) (userRows snapshot) =
        .ok users' ↔
      users' = putUsers now source (userRows snapshot) users ∧
        Separate (fun row => row.mail.getD row.userPrincipalName) (userRows snapshot) ∧
        Separate UserSnapshot.userPrincipalName (userRows snapshot) := by
  have hslots := slots_userRows now source snapshot
  have hinitial (n : Nat) : (((userRows snapshot).take (n + 1)).map (userUpsert now source).slot).Nodup :=
    hslots.sublist (List.Sublist.map _ (List.take_sublist _ _))
  rw [putAllChecked_eq_ok]
  refine and_congr_right (fun _ => ?_)
  have hchecks (n : Nat) : checkIndexes (putUsers now source ((userRows snapshot).take (n + 1)) users) = .ok () ↔
      Separate (fun row => row.mail.getD row.userPrincipalName) ((userRows snapshot).take (n + 1)) ∧
        Separate UserSnapshot.userPrincipalName ((userRows snapshot).take (n + 1)) :=
    check_iff hdistinct (hinitial n) hprovider
  constructor
  · intro hall
    cases hrows : (userRows snapshot).length with
    | zero =>
      rw [List.length_eq_zero_iff] at hrows
      rw [hrows]
      exact ⟨List.forall_mem_nil _, List.forall_mem_nil _⟩
    | succ n =>
      have hlast := (hchecks n).mp (hall n (by omega))
      rwa [List.take_of_length_le (by omega)] at hlast
  · intro ⟨hemail, hupn⟩ n _
    have hsub : ∀ row ∈ (userRows snapshot).take (n + 1), row ∈ userRows snapshot :=
      fun row hrow => List.mem_of_mem_take hrow
    exact (hchecks n).mpr
      ⟨fun a ha b hb => hemail a (hsub a ha) b (hsub b hb), fun a ha b hb => hupn a (hsub a ha) b (hsub b hb)⟩

end

end ProviderSnapshots
