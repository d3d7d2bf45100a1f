import Woodstar.ProviderExactness

/-!
# Laws of applied snapshots

Applying a snapshot again changes only timestamps, and what is applied depends on the
snapshot as a set and on the identities of the rows before.
-/
namespace ProviderSnapshots

open DerivedLabels (Source)
open KeyedRows (Table)
open KeyedUpserts
open LatestRows (distinctOn)
open Primitives (trimSpace)

section

variable {source : Source} {snapshot : ProviderSnapshot} {t t' t'' : Tables} {u u' : User} {g g' : Group} {id : Int}

theorem timeless_eq {p : ProviderUser} (h : Attributes p u) (h' : Attributes p u') (hsource : u'.source = u.source)
    (hexternal : u'.externalID = u.externalID) (hkey : u'.apiKey = u.apiKey)
    (hlive : u'.deletedAt = none ↔ u.deletedAt = none) : u'.timeless = u.timeless := by
  have hdeleted : u'.deletedAt.map (fun _ => (0 : Int)) = u.deletedAt.map (fun _ => 0) := by
    cases hu : u.deletedAt with
    | none => rw [hlive.mpr hu]
    | some at' =>
      cases hu' : u'.deletedAt with
      | none =>
        rw [hlive.mp hu'] at hu
        cases hu
      | some at'' => rfl
  simp only [User.timeless, h.email, h'.email, h.name, h'.name, h.userPrincipalName, h'.userPrincipalName,
    h.mailNickname, h'.mailNickname, h.givenName, h'.givenName, h.familyName, h'.familyName, h.department,
    h'.department, hsource, hexternal, hkey, hdeleted]

/-- The users are the same but for their timestamps. -/
theorem users_again (h : Exact source snapshot t t') (h' : Exact source snapshot t' t'') (id : Int) :
    (t''.users.row id).map User.timeless = (t'.users.row id).map User.timeless := by
  cases hu : t'.users.row id with
  | some u =>
    obtain ⟨u', hu', hsource, hexternal, hkey⟩ := h'.identity id u hu
    rw [hu', Option.map_some, Option.map_some, Option.some.injEq]
    by_cases hown : u.source = source
    · have hown' : u'.source = source := hsource.trans hown
      have huserOf : snapshot.userOf u' = snapshot.userOf u := by
        rw [ProviderSnapshot.userOf, hexternal, ProviderSnapshot.userOf]
      have hlive := h.active id u hu hown
      have hlive' := h'.active id u' hu' hown'
      rw [huserOf] at hlive'
      cases hp : snapshot.userOf u with
      | some p =>
        exact timeless_eq (h.attributes id u p hu hown hp) (h'.attributes id u' p hu' hown' (huserOf.trans hp)) hsource
          hexternal hkey (hlive'.trans hlive.symm)
      | none =>
        -- a user that is not in the snapshot is deleted already
        obtain ⟨v, hv, htimeless⟩ := h'.vanished id u hu hown hp
        obtain rfl := Option.some.inj (hu'.symm.trans hv)
        have hdeleted : u.deletedAt ≠ none := by
          intro hnone
          obtain ⟨p, hp', -⟩ := hlive.mp hnone
          rw [hp] at hp'
          cases hp'
        obtain ⟨at', hat⟩ := Option.ne_none_iff_exists'.mp hdeleted
        rw [htimeless, User.timeless, hat]
        rfl
    · rw [Option.some.inj (hu'.symm.trans ((h'.otherUsers id u hown).mpr hu))]
  | none =>
    cases hu' : t''.users.row id with
    | none => rfl
    | some u' =>
      obtain ⟨-, -, e, p, hp, -, hfind⟩ := h'.newUsers id u' hu' hu
      obtain ⟨i, v, hv, hkey⟩ := h.everyUser e p hp
      exact absurd hkey (find_eq_none.mp hfind i v hv)

theorem groups_again (h : Exact source snapshot t t') (h' : Exact source snapshot t' t'') (id : Int) :
    (t''.groups.row id).map Group.timeless = (t'.groups.row id).map Group.timeless := by
  cases hg : t'.groups.row id with
  | some g =>
    by_cases hown : g.source = source
    · obtain ⟨q, hq, hname, hnickname⟩ := h.groups id g hg hown
      obtain ⟨g', hg', hkey⟩ := h'.groupIDs id g hg (fun _ => Option.isSome_iff_exists.mpr ⟨q, hq⟩)
      obtain ⟨hsource, hexternal⟩ := Prod.mk.inj (Option.some.inj hkey)
      obtain ⟨q', hq', hname', hnickname'⟩ := h'.groups id g' hg' (hsource.trans hown)
      rw [hexternal] at hq'
      obtain rfl := Option.some.inj (hq.symm.trans hq')
      rw [hg', Option.map_some, Option.map_some, Group.timeless, Group.timeless, hname, hname', hnickname,
        hnickname', hsource, hexternal]
    · rw [(h'.otherGroups id g hown).mpr hg]
  | none =>
    cases hg' : t''.groups.row id with
    | none => rfl
    | some g' =>
      by_cases hown : g'.source = source
      · obtain ⟨q, hq, -⟩ := h'.groups id g' hg' hown
        obtain ⟨i, g, hg₁, hkey⟩ := h.everyGroup g'.externalID q hq
        exact absurd hkey (find_eq_none.mp (h'.newGroups id g' hg' hg) i g hg₁)
      · rw [(h'.otherGroups id g' hown).mp hg'] at hg
        cases hg

theorem isSome_of_map_eq {α β : Type} {f : α → β} {x y : Option α} (h : x.map f = y.map f) :
    x.isSome = y.isSome := by
  have hsome := congrArg Option.isSome h
  rwa [Option.isSome_map, Option.isSome_map] at hsome

/-- A group under an id keeps its key. -/
theorem group_key_again (h : Exact source snapshot t t') (h' : Exact source snapshot t' t'') (id : Int) (e : String) :
    (∃ g, t''.groups.row id = some g ∧ g.source = source ∧ g.externalID = e) ↔
      ∃ g, t'.groups.row id = some g ∧ g.source = source ∧ g.externalID = e := by
  have hgroups := groups_again h h' id
  constructor
  · intro ⟨g, hg, hsource, he⟩
    rw [hg, Option.map_some, eq_comm, Option.map_eq_some_iff] at hgroups
    obtain ⟨g', hg', heq⟩ := hgroups
    have hkey : g'.timeless.source = g.timeless.source ∧ g'.timeless.externalID = g.timeless.externalID := by
      rw [heq]
      exact ⟨rfl, rfl⟩
    exact ⟨g', hg', hkey.1.trans hsource, hkey.2.trans he⟩
  · intro ⟨g, hg, hsource, he⟩
    rw [hg, Option.map_some, Option.map_eq_some_iff] at hgroups
    obtain ⟨g', hg', heq⟩ := hgroups
    have hkey : g'.timeless.source = g.timeless.source ∧ g'.timeless.externalID = g.timeless.externalID := by
      rw [heq]
      exact ⟨rfl, rfl⟩
    exact ⟨g', hg', hkey.1.trans hsource, hkey.2.trans he⟩

theorem memberships_again (h : Exact source snapshot t t') (h' : Exact source snapshot t' t'') (hvalid : t'.Valid)
    (hvalid' : t''.Valid) : t''.memberships = t'.memberships := by
  ext ⟨userID, groupID⟩
  cases hu : t'.users.row userID with
  | none =>
    have hu' : t''.users.row userID = none := by
      have hsome := isSome_of_map_eq (users_again h h' userID)
      rw [hu] at hsome
      exact Option.not_isSome_iff_eq_none.mp (by rw [hsome]; exact Bool.false_ne_true)
    constructor
    · intro hmem
      have hsome := (hvalid'.memberships _ hmem).1
      rw [hu'] at hsome
      cases hsome
    · intro hmem
      have hsome := (hvalid.memberships _ hmem).1
      rw [hu] at hsome
      cases hsome
  | some u =>
    obtain ⟨u', hu', hsource, hexternal, -⟩ := h'.identity userID u hu
    by_cases hown : u.source = source
    · have huserOf : snapshot.userOf u' = snapshot.userOf u := by
        rw [ProviderSnapshot.userOf, hexternal, ProviderSnapshot.userOf]
      rw [h.memberships userID u groupID hu hown, h'.memberships userID u' groupID hu' (hsource.trans hown), huserOf]
      constructor
      · rintro ⟨p, g, hp, hg, hgsource, hf⟩
        obtain ⟨g', hg', hgsource', he⟩ := (group_key_again h h' groupID g.externalID).mp ⟨g, hg, hgsource, rfl⟩
        exact ⟨p, g', hp, hg', hgsource', he.symm ▸ hf⟩
      · rintro ⟨p, g, hp, hg, hgsource, hf⟩
        obtain ⟨g', hg', hgsource', he⟩ := (group_key_again h h' groupID g.externalID).mpr ⟨g, hg, hgsource, rfl⟩
        exact ⟨p, g', hp, hg', hgsource', he.symm ▸ hf⟩
    · rw [h'.otherMemberships userID u' groupID hu' (fun heq => hown (hsource.symm.trans heq)),
        isSome_of_map_eq (groups_again h h' groupID)]
      exact and_iff_left_of_imp (fun hmem => (hvalid.memberships _ hmem).2)

theorem groupRoles_again (h : Exact source snapshot t t') (h' : Exact source snapshot t' t'') :
    t''.groupRoles = t'.groupRoles := by
  ext row
  rw [h'.groupRoles row, isSome_of_map_eq (groups_again h h' row.1)]
  exact and_iff_left_of_imp (fun hmem => ((h.groupRoles row).mp hmem).2)

theorem ids_eq {α β : Type} {a : Table α} {b : Table β} (h : ∀ id, (a.row id).isSome = (b.row id).isSome) :
    a.ids = b.ids := by
  have hmem (id : Int) : id ∈ a.ids ↔ id ∈ b.ids := by
    rw [KeyedRows.Table.mem_ids, KeyedRows.Table.mem_ids, h]
  apply ((List.perm_ext_iff_of_nodup a.ids_nodup b.ids_nodup).mpr hmem).eq_of_pairwise _ a.ids_ascending
    b.ids_ascending
  intro i j _ _ hij hji
  exact absurd hji (Int.lt_asymm hij)

/-- The refresh of derived labels reads no timestamp. -/
theorem view_again (h : Exact source snapshot t t') (h' : Exact source snapshot t' t'') (hvalid : t'.Valid)
    (hvalid' : t''.Valid) : t''.view = t'.view := by
  have husers (id : Int) := users_again h h' id
  have hgroups (id : Int) := groups_again h h' id
  have huserIDs : t''.users.ids = t'.users.ids := ids_eq (fun id => isSome_of_map_eq (husers id))
  have hgroupIDs : t''.groups.ids = t'.groups.ids := ids_eq (fun id => isSome_of_map_eq (hgroups id))
  have huser {β : Type} (f : User → β) (hf : ∀ u : User, f u = f u.timeless) (id : Int) :
      (t''.users.row id).map f = (t'.users.row id).map f := by
    have hmap := congrArg (Option.map f) (husers id)
    rwa [Option.map_map, Option.map_map, Function.comp_def, ← funext hf] at hmap
  have hgroup {β : Type} (f : Group → β) (hf : ∀ g : Group, f g = f g.timeless) (id : Int) :
      (t''.groups.row id).map f = (t'.groups.row id).map f := by
    have hmap := congrArg (Option.map f) (hgroups id)
    rwa [Option.map_map, Option.map_map, Function.comp_def, ← funext hf] at hmap
  have hview (u : User) : u.view = u.timeless.view := by
    simp [User.view, User.timeless]
  have hkeys (id : Int) : (t''.groups.row id).bind groupKey = (t'.groups.row id).bind groupKey := by
    have hkey := hgroup (fun g => (g.source, g.externalID)) (fun _ => rfl) id
    cases hg : t'.groups.row id <;> cases hg' : t''.groups.row id <;> simp_all [groupKey]
  have hentries (id : Int) : (t''.users.row id).map (fun u => (⟨id, u.view⟩ : (_ : Int) × DerivedLabels.User)) =
      (t'.users.row id).map (fun u => ⟨id, u.view⟩) :=
    huser _ (fun u => by rw [hview u]) id
  have hmembers (userID id : Int) : (t''.groups.row id).map (fun g => (userID, g.source, g.externalID)) =
      (t'.groups.row id).map (fun g => (userID, g.source, g.externalID)) :=
    hgroup _ (fun _ => rfl) id
  simp only [Tables.view, h'.hosts, h'.labels, h'.primaryUsers, huserIDs, hgroupIDs, hentries, hkeys, hmembers,
    memberships_again h h' hvalid hvalid']

theorem sameButTimes (h : Exact source snapshot t t') (h' : Exact source snapshot t' t'') (hvalid : t'.Valid)
    (hvalid' : t''.Valid) : SameButTimes t' t'' where
  users := users_again h h'
  groups := groups_again h h'
  memberships := memberships_again h h' hvalid hvalid'
  userRoles := h'.userRoles
  groupRoles := groupRoles_again h h'
  labels := h'.labels
  hosts := h'.hosts
  primaryUsers := h'.primaryUsers
  labelMembers := by
    ext ⟨labelID, hostID⟩
    rw [h'.labelMembers, view_again h h' hvalid hvalid', h.labels]
    constructor
    · rintro (⟨hmem, -⟩ | hbelongs)
      · exact hmem
      · exact (h.labelMembers labelID hostID).mpr (Or.inr hbelongs)
    · intro hmem
      rcases (h.labelMembers labelID hostID).mp hmem with ⟨-, hother⟩ | hbelongs
      · exact Or.inl ⟨hmem, hother⟩
      · exact Or.inr hbelongs

end

section

variable {now : Int} {source : Source} {snapshot : ProviderSnapshot} {t t' : Tables} {users users' : Table User}
  {groups groups' : Table Group} {u : User} {g : Group} {id : Int}

theorem Alike.symm {α ι : Type} {identity : α → ι} {a b : Table α} (h : Alike identity a b) : Alike identity b a :=
  ⟨h.used.symm, fun id => (h.rows id).symm⟩

theorem merge_group (row : GroupSnapshot) (g g' : Group) (h : (g.source, g.externalID) = (g'.source, g'.externalID)) :
    (groupUpsert now source).merge row g = (groupUpsert now source).merge row g' := by
  obtain ⟨hsource, hexternal⟩ := Prod.mk.inj h
  simp only [groupUpsert, hsource, hexternal]

theorem merge_user (row : UserSnapshot) (u u' : User)
    (h : (u.source, u.externalID, u.apiKey) = (u'.source, u'.externalID, u'.apiKey)) :
    (userUpsert now source).merge row u = (userUpsert now source).merge row u' := by
  obtain ⟨hsource, hrest⟩ := Prod.mk.inj h
  obtain ⟨hexternal, hkey⟩ := Prod.mk.inj hrest
  simp only [userUpsert, hsource, hexternal, hkey]

theorem key_group (g g' : Group) (h : (g.source, g.externalID) = (g'.source, g'.externalID)) :
    (groupUpsert now source).key g = (groupUpsert now source).key g' := congrArg some h

theorem key_user (u u' : User) (h : (u.source, u.externalID, u.apiKey) = (u'.source, u'.externalID, u'.apiKey)) :
    (userUpsert now source).key u = (userUpsert now source).key u' := by
  obtain ⟨hsource, hrest⟩ := Prod.mk.inj h
  simp only [userUpsert, userKey, hsource, (Prod.mk.inj hrest).1]

theorem group_of_alike (h : Alike (fun g : Group => (g.source, g.externalID)) t.groups t'.groups)
    (hdistinct : Distinct groupKey t.groups) (hdistinct' : Distinct groupKey t'.groups) (hown : g.source = source)
    (hg : (reconcileGroupSnapshot now source snapshot.staged t).groups.row id = some g) :
    (reconcileGroupSnapshot now source snapshot.staged t').groups.row id = some g := by
  rw [kept_group] at hg ⊢
  obtain ⟨hrow, hkept⟩ := hg
  obtain ⟨q, hq⟩ := Option.isSome_iff_exists.mp (hkept hown)
  have halike := putAll_alike (u := groupUpsert now source) (groupRows snapshot) key_group merge_group h
  obtain ⟨g', hg', -⟩ := halike.row hrow
  have hslot : (groupUpsert now source).key g = some ((groupUpsert now source).slot q.staged) := by
    change some (g.source, g.externalID) = some (source, q.externalID)
    rw [hown, externalID_group hq]
  have heq := putAll_eq_of_alike (u := groupUpsert now source) key_group merge_group h hdistinct hdistinct'
    (slots_groupRows now source snapshot) hrow hg' (staged_mem_groupRows hq) hslot
  exact ⟨heq ▸ hg', hkept⟩

theorem alike_tombstone (now : Int) (source : Source)
    (h : Alike (fun u : User => (u.source, u.externalID, u.apiKey)) users users') :
    Alike (fun u : User => (u.source, u.externalID, u.apiKey)) (users.map (tombstone now source))
      (users'.map (tombstone now source)) := by
  refine ⟨h.used, ?_⟩
  intro id
  have hident (u : User) : ((tombstone now source u).source, (tombstone now source u).externalID,
      (tombstone now source u).apiKey) = (u.source, u.externalID, u.apiKey) := by
    rw [tombstone]
    split_ifs <;> rfl
  change ((users.row id).map _).map _ = ((users'.row id).map _).map _
  simp only [Option.map_map, Function.comp_def, hident]
  exact h.rows id

theorem user_of_alike (h : Alike (fun u : User => (u.source, u.externalID, u.apiKey)) users users')
    (hdistinct : Distinct userKey users) (hdistinct' : Distinct userKey users') (hown : u.source = source)
    (hsome : (snapshot.userOf u).isSome = true)
    (hu : (putUsers now source (userRows snapshot) users).row id = some u) :
    (putUsers now source (userRows snapshot) users').row id = some u := by
  obtain ⟨p, hp⟩ := Option.isSome_iff_exists.mp hsome
  obtain ⟨e, he, hp⟩ := userOf_eq_some.mp hp
  have halike := putAll_alike (u := userUpsert now source) (userRows snapshot) key_user merge_user
    (alike_tombstone now source h)
  obtain ⟨u', hu', -⟩ := halike.row hu
  have hslot : (userUpsert now source).key u = some ((userUpsert now source).slot p.staged) := by
    change userKey u = some (source, p.externalID)
    rw [externalID_user hp]
    exact userKey_eq_some.mpr ⟨hown, he⟩
  have heq := putAll_eq_of_alike (u := userUpsert now source) key_user merge_user
    (alike_tombstone now source h) (distinct_tombstone hdistinct) (distinct_tombstone hdistinct')
    (slots_userRows now source snapshot) hu hu' (staged_mem_userRows hp) hslot
  exact heq ▸ hu'

/-- What is applied depends on the identities of the rows before. -/
theorem sameOutcome (hvalid : t.Valid) (hvalid' : t'.Valid) (hprovider : source ≠ .sourceLocal)
    (h : SameIdentities t t') : SameOutcome source snapshot (refreshed (reconciled now source snapshot t))
      (refreshed (reconciled now source snapshot t')) := by
  have hexact : Exact source snapshot t (refreshed (reconciled now source snapshot t)) :=
    exact_of_applicable hvalid hprovider
  have hexact' : Exact source snapshot t' (refreshed (reconciled now source snapshot t')) :=
    exact_of_applicable hvalid' hprovider
  have hgroups (id : Int) (g : Group) (hown : g.source = source) :
      (refreshed (reconciled now source snapshot t)).groups.row id = some g ↔
        (refreshed (reconciled now source snapshot t')).groups.row id = some g :=
    ⟨group_of_alike h.groups hvalid.groups hvalid'.groups hown,
      group_of_alike (Alike.symm h.groups) hvalid'.groups hvalid.groups hown⟩
  have hidentities := putAll_alike (u := userUpsert now source) (userRows snapshot) key_user merge_user
    (alike_tombstone now source h.users)
  constructor
  · exact hgroups
  · exact fun id u hown hsome => ⟨user_of_alike h.users hvalid.users hvalid'.users hown hsome,
      user_of_alike (Alike.symm h.users) hvalid'.users hvalid.users hown hsome⟩
  · intro userID u groupID hu hown
    obtain ⟨u', hu', hident⟩ := hidentities.row hu
    obtain ⟨hsource, hrest⟩ := Prod.mk.inj hident
    have huserOf : snapshot.userOf u' = snapshot.userOf u := by
      rw [ProviderSnapshot.userOf, (Prod.mk.inj hrest).1, ProviderSnapshot.userOf]
    rw [hexact.memberships userID u groupID hu hown,
      hexact'.memberships userID u' groupID hu' (hsource.trans hown), huserOf]
    constructor
    · rintro ⟨p, g, hp, hg, hgsource, hf⟩
      exact ⟨p, g, hp, (hgroups groupID g hgsource).mp hg, hgsource, hf⟩
    · rintro ⟨p, g, hp, hg, hgsource, hf⟩
      exact ⟨p, g, hp, (hgroups groupID g hgsource).mpr hg, hgsource, hf⟩

end

section

variable {now : Int} {source : Source} {s s' : ProviderSnapshot} {t : Tables} {users : Table User}

theorem SameSets.symm (h : SameSets s s') : SameSets s' s where
  storable := h.storable.symm
  groups e := (h.groups e).symm
  users e := (h.users e).symm
  memberOf e p p' hp hp' f := (h.memberOf e p' p hp' hp f).symm

theorem groupRows_eq (h : SameSets s s') : groupRows s = groupRows s' := by
  apply LatestRows.eq_of_ascending (LatestRows.distinctOn_ascending _ _) (LatestRows.distinctOn_ascending _ _)
  intro row
  change row ∈ groupRows s ↔ row ∈ groupRows s'
  rw [mem_groupRows, mem_groupRows, h.groups]

/-- A staged user without its groups, which the upsert does not read. -/
def UserSnapshot.bare (row : UserSnapshot) : UserSnapshot := { row with groupExternalIDs := [] }

theorem bare_mem (h : SameSets s s') {row : UserSnapshot} (hrow : row ∈ (userRows s).map UserSnapshot.bare) :
    row ∈ (userRows s').map UserSnapshot.bare := by
  obtain ⟨staged, hstaged, rfl⟩ := List.mem_map.mp hrow
  obtain ⟨p, hp, rfl⟩ := mem_userRows.mp hstaged
  have hsame := h.users p.staged.externalID
  rw [hp, Option.map_some, eq_comm, Option.map_eq_some_iff] at hsame
  obtain ⟨p', hp', heq⟩ := hsame
  have hbare (q : ProviderUser) : q.staged.bare = ProviderUser.staged { q with groupExternalIDs := [] } := rfl
  refine List.mem_map.mpr ⟨p'.staged, staged_mem_userRows hp', ?_⟩
  rw [hbare, hbare, heq]

theorem bareRows_eq (h : SameSets s s') :
    (userRows s).map UserSnapshot.bare = (userRows s').map UserSnapshot.bare := by
  have hascending (snapshot : ProviderSnapshot) : ((userRows snapshot).map UserSnapshot.bare).Pairwise
      (fun a b => a.externalID < b.externalID) :=
    List.pairwise_map.mpr (LatestRows.distinctOn_ascending UserSnapshot.externalID snapshot.staged.users)
  exact LatestRows.eq_of_ascending (hascending s) (hascending s') (fun _ => ⟨bare_mem h, bare_mem h.symm⟩)

theorem putAllChecked_bare (users : Table User) (rows : List UserSnapshot) :
    putAllChecked (userUpsert now source) checkIndexes users (rows.map UserSnapshot.bare) =
      putAllChecked (userUpsert now source) checkIndexes users rows := by
  rw [putAllChecked, List.foldlM_map]
  rfl

theorem reconcileGroupSnapshot_eq (h : SameSets s s') :
    reconcileGroupSnapshot now source s.staged t = reconcileGroupSnapshot now source s'.staged t := by
  have hrows : distinctOn GroupSnapshot.externalID s.staged.groups =
      distinctOn GroupSnapshot.externalID s'.staged.groups := groupRows_eq h
  simp only [reconcileGroupSnapshot, hrows, any_staged_groups, h.groups]

theorem reconcileUserSnapshot_eq (h : SameSets s s') :
    reconcileUserSnapshot now source s.staged t = reconcileUserSnapshot now source s'.staged t := by
  have hchecked : putAllChecked (userUpsert now source) checkIndexes (t.users.map (tombstone now source))
      (userRows s) = putAllChecked (userUpsert now source) checkIndexes (t.users.map (tombstone now source))
      (userRows s') := by
    rw [← putAllChecked_bare, bareRows_eq h, putAllChecked_bare]
  exact congrArg (Except.map (fun users => { t with users := users })) hchecked

theorem membership_of_sameSets (h : SameSets s s') {userID groupID : Int}
    (hmem : ∃ e p f, s.user e = some p ∧ find userKey t.users (source, e) = some userID ∧
      f ∈ p.groupExternalIDs ∧ find groupKey t.groups (source, f) = some groupID) :
    ∃ e p f, s'.user e = some p ∧ find userKey t.users (source, e) = some userID ∧
      f ∈ p.groupExternalIDs ∧ find groupKey t.groups (source, f) = some groupID := by
  obtain ⟨e, p, f, hp, hfind, hf, hfind'⟩ := hmem
  have hsame := h.users e
  rw [hp, Option.map_some, eq_comm, Option.map_eq_some_iff] at hsame
  obtain ⟨p', hp', -⟩ := hsame
  exact ⟨e, p', f, hp', hfind, (h.memberOf e p p' hp hp' f).mp hf, hfind'⟩

theorem reconcileGroupMembershipSnapshot_eq (h : SameSets s s') :
    reconcileGroupMembershipSnapshot source s.staged t = reconcileGroupMembershipSnapshot source s'.staged t := by
  have hmemberships : (reconcileGroupMembershipSnapshot source s.staged t).memberships =
      (reconcileGroupMembershipSnapshot source s'.staged t).memberships := by
    ext ⟨userID, groupID⟩
    rw [mem_memberships, mem_memberships]
    exact or_congr_right ⟨membership_of_sameSets h, membership_of_sameSets h.symm⟩
  exact congrArg (fun memberships => { t with memberships := memberships }) hmemberships

/-- The order of the lists does not matter. -/
theorem applyProviderSnapshot_eq (h : SameSets s s') :
    applyProviderSnapshot now source s t = applyProviderSnapshot now source s' t := by
  have hreconcile : reconcile now source s.staged t = reconcile now source s'.staged t := by
    rw [reconcile, reconcile, reconcileGroupSnapshot_eq h, reconcileUserSnapshot_eq h]
    congr 1
    funext between
    exact reconcileGroupMembershipSnapshot_eq h
  have hstaged (snapshot : ProviderSnapshot) : stageProviderSnapshot snapshot =
      if snapshot.storable = true then .ok snapshot.staged else .error (.database "character_not_in_repertoire") := rfl
  rw [applyProviderSnapshot, applyProviderSnapshot, hstaged, hstaged, h.storable]
  split_ifs
  · rfl
  · change (reconcile now source s.staged t >>= _) = (reconcile now source s'.staged t >>= _)
    rw [hreconcile]
  · rfl

end

section

variable {t : Tables}

/-- A snapshot is applied exactly or not at all, which depends on the snapshot as a set and on
the identities before, and applying it again changes only timestamps. -/
theorem provider_snapshot_applied (hvalid : t.Valid) (now : Int) (source : Source) (snapshot : ProviderSnapshot) :
    ((∃ e, applyProviderSnapshot now source snapshot t = .error e ∧
        committed t (applyProviderSnapshot now source snapshot t) = t) ∨
      ∃ t', applyProviderSnapshot now source snapshot t = .ok t' ∧
        committed t (applyProviderSnapshot now source snapshot t) = t' ∧ t'.Valid ∧
        Exact source snapshot t t' ∧
        (∀ later, ∃ t'', applyProviderSnapshot later source snapshot t' = .ok t'' ∧ SameButTimes t' t'') ∧
        ∀ other other', other.Valid → SameIdentities t other →
          applyProviderSnapshot now source snapshot other = .ok other' →
          SameOutcome source snapshot t' other') ∧
    (∀ snapshot', SameSets snapshot snapshot' →
      applyProviderSnapshot now source snapshot t = applyProviderSnapshot now source snapshot' t) ∧
    ((∃ t', applyProviderSnapshot now source snapshot t = .ok t') ↔ Applicable source snapshot t) := by
  refine ⟨?_, fun snapshot' h => applyProviderSnapshot_eq h, ?_⟩
  · cases happly : applyProviderSnapshot now source snapshot t with
    | error e => exact Or.inl ⟨e, rfl, rfl⟩
    | ok t' =>
      right
      obtain ⟨happlicable, rfl⟩ := (applyProviderSnapshot_ok hvalid.users).mp happly
      have hprovider := happlicable.provider
      have hvalid' : (refreshed (reconciled now source snapshot t)).Valid :=
        valid_of_applicable hvalid happlicable
      refine ⟨_, rfl, rfl, hvalid', exact_of_applicable hvalid hprovider, ?_, ?_⟩
      · intro later
        have hagain : Applicable source snapshot (refreshed (reconciled now source snapshot t)) :=
          ⟨hprovider, happlicable.storable, happlicable.emails, happlicable.userPrincipalNames, happlicable.labels⟩
        refine ⟨_, (applyProviderSnapshot_ok hvalid'.users).mpr ⟨hagain, rfl⟩, ?_⟩
        exact sameButTimes (exact_of_applicable hvalid hprovider) (exact_of_applicable hvalid' hprovider) hvalid'
          (valid_of_applicable hvalid' hagain)
      · intro other other' hother hsame hok
        obtain ⟨-, rfl⟩ := (applyProviderSnapshot_ok hother.users).mp hok
        exact sameOutcome hvalid hother hprovider hsame
  · constructor
    · intro ⟨t', h⟩
      exact ((applyProviderSnapshot_ok hvalid.users).mp h).1
    · exact fun h => ⟨_, (applyProviderSnapshot_ok hvalid.users).mpr ⟨h, rfl⟩⟩

end

def objectA : ProviderUser where
  externalID := "object-a"
  userPrincipalName := "a@example.edu"
  mail := "a@example.edu"

def objectB : ProviderUser where
  externalID := "object-b"
  userPrincipalName := "b@example.edu"
  mail := "b@example.edu"

def twoUsers : ProviderSnapshot where
  users := [objectA, objectB]

def rowOf (externalID address : String) : User where
  email := address
  source := .sourceEntra
  externalID := some externalID
  userPrincipalName := some address

/-- Each of the two has the other's address. -/
def swappedTables : Tables where
  users := (Table.empty.insert (rowOf "object-a" "b@example.edu")).insert (rowOf "object-b" "a@example.edu")

theorem swappedTables_valid : swappedTables.Valid where
  users := isDistinct_iff.mp (by decide)
  groups := isDistinct_iff.mp (by decide)
  providerEmail := isDistinct_iff.mp (by decide)
  providerUPN := isDistinct_iff.mp (by decide)
  localEmail := isDistinct_iff.mp (by decide)
  apiKey := isDistinct_iff.mp (by decide)
  localUser := by
    intro id u hu
    simp only [swappedTables, KeyedRows.Table.row_insert] at hu
    split_ifs at hu
    · rw [← Option.some.inj hu]
      decide
    · rw [← Option.some.inj hu]
      decide
    · cases hu
  providerGroup := by
    intro id g hg
    cases hg
  memberships := by
    intro row hrow
    cases Finset.notMem_empty row hrow

theorem user_of_two {a b p : ProviderUser} {e : String}
    (h : ({ users := [a, b] } : ProviderSnapshot).user e = some p) : p.externalID = e ∧ (p = a ∨ p = b) := by
  have hmem := LatestRows.mem_of_lastOf h
  exact ⟨externalID_user h, by simpa using hmem⟩

theorem twoUsers_applicable : Applicable .sourceEntra twoUsers swappedTables where
  provider := by decide
  storable := by decide
  emails := by
    intro e e' p p' hp hp' _ _ heq
    obtain ⟨rfl, rfl | rfl⟩ := user_of_two hp <;> obtain ⟨rfl, rfl | rfl⟩ := user_of_two hp'
    · rfl
    · exact absurd heq (by decide)
    · exact absurd heq (by decide)
    · rfl
  userPrincipalNames := by
    intro e e' p p' hp hp' _ _ heq
    obtain ⟨rfl, rfl | rfl⟩ := user_of_two hp <;> obtain ⟨rfl, rfl | rfl⟩ := user_of_two hp'
    · rfl
    · exact absurd heq (by decide)
    · exact absurd heq (by decide)
    · rfl
  labels := by
    intro id row hrow
    cases hrow

theorem swapped_addresses_applied : swappedTables.Valid ∧
    ∃ t', applyProviderSnapshot 7 .sourceEntra twoUsers swappedTables = .ok t' ∧
      Exact .sourceEntra twoUsers swappedTables t' := by
  refine ⟨swappedTables_valid, ?_⟩
  have happlied := provider_snapshot_applied swappedTables_valid 7 .sourceEntra twoUsers
  obtain ⟨t', ht'⟩ := happlied.2.2.mpr twoUsers_applicable
  rcases happlied.1 with ⟨e, he, -⟩ | ⟨t'', ht'', -, -, hexact, -⟩
  · rw [ht'] at he
    cases he
  · exact ⟨t'', ht'', hexact⟩

/-- Two users of one user principal name. -/
def sharedUPN : ProviderSnapshot where
  users := [objectA, { objectB with userPrincipalName := "a@example.edu" }]

/-- The e-mail addresses are distinct, and still the snapshot fails. -/
theorem shared_upn_fails : swappedTables.Valid ∧ sharedUPN.storable = true ∧
    EnabledDistinct ProviderUser.email sharedUPN ∧
    ∃ e, applyProviderSnapshot 7 .sourceEntra sharedUPN swappedTables = .error e := by
  refine ⟨swappedTables_valid, by decide, ?_, ?_⟩
  · intro e e' p p' hp hp' _ _ heq
    obtain ⟨rfl, rfl | rfl⟩ := user_of_two hp <;> obtain ⟨rfl, rfl | rfl⟩ := user_of_two hp'
    · rfl
    · exact absurd heq (by decide)
    · exact absurd heq (by decide)
    · rfl
  · cases happly : applyProviderSnapshot 7 .sourceEntra sharedUPN swappedTables with
    | error e => exact ⟨e, rfl⟩
    | ok t' =>
      have happlicable := ((applyProviderSnapshot_ok swappedTables_valid.users).mp happly).1
      have hsame := happlicable.userPrincipalNames "object-a" "object-b" objectA _ rfl rfl rfl rfl rfl
      exact absurd hsame (by decide)

end ProviderSnapshots
