import Woodstar.DetailEffects
import Woodstar.EvaluationOrder

/-!
# Distributed writes

A write in every order of its results: which bodies the stores take, and what the tables
hold afterwards.
-/
namespace DistributedWrites

open DetailEffects
open DetailRows
open DetailStore
open DetailValues
open DynamicLabels (LabelResult)
open EvaluationOrder (normalized)
open LiveQueries (Row)
open PolicyModel (EvaluationResult)
open Primitives (Fault)
open SoftwarePruning (HostSoftwareEntry stageSoftwareSnapshot)

variable {server : Server} {w s s' : World} {answers order : List Answer} {a b answer : Answer}

section Policies

theorem policyResult_status {raw : EvaluationResult} (h : policyResult answer = some raw) : raw.status ≠ .pending := by
  rw [policyResult] at h
  cases hparse : DynamicLabels.parseQueryName answer.name with
  | none =>
    rw [hparse] at h
    cases h
  | some parts =>
    obtain ⟨kind, suffix⟩ := parts
    rw [hparse] at h
    cases kind with
    | policy =>
      obtain ⟨identity, -, rfl⟩ := Option.map_eq_some_iff.mp h
      dsimp only
      cases DynamicLabels.rowPresenceResult answer.status answer.rowList with
      | none => exact nofun
      | some matched =>
        dsimp only
        split_ifs
        · exact nofun
        · exact nofun
    | _ => cases h

theorem mem_policyResults_status : ∀ raw ∈ answers.filterMap policyResult, raw.status ≠ .pending := by
  intro raw hraw
  obtain ⟨answer, -, hanswer⟩ := List.mem_filterMap.mp hraw
  exact policyResult_status hanswer

/-- Results leave what decides which policy answers count. -/
theorem eligible_reached (h : Reached server w s) (hw : Reached server w w) (raw : EvaluationResult) :
    PolicyStore.eligible server.crypto s.policyDb server.hostID raw =
      PolicyStore.eligible server.crypto w.policyDb server.hostID raw := by
  obtain ⟨row, hrow, -⟩ := h.host
  obtain ⟨row', hrow', -⟩ := hw.host
  have hpolicies : s.policies = w.policies := by rw [h.frame]
  have hmembership : s.membership = w.membership := by rw [h.frame]
  have hmembers : s.members = w.members := by rw [h.frame]
  have hassigned (k : PolicyModel.Pair) : s.policyDb.assigned k = w.policyDb.assigned k := by
    simp only [PolicyModel.Db.assigned, World.policyDb, hpolicies, hmembers]
  have hhost : s.policyDb.hosts.row server.hostID = some ⟨row.orbitScriptsEnabled, row.orbitNodeKey⟩ := by
    change (s.hosts.row server.hostID).map _ = _
    rw [hrow, Option.map_some]
  have hhost' : w.policyDb.hosts.row server.hostID = some ⟨row'.orbitScriptsEnabled, row'.orbitNodeKey⟩ := by
    change (w.hosts.row server.hostID).map _ = _
    rw [hrow', Option.map_some]
  have hpolicyRows : s.policyDb.policies = w.policyDb.policies := hpolicies
  have hmembershipRows : s.policyDb.membership = w.policyDb.membership := hmembership
  rw [PolicyStore.eligible, PolicyStore.eligible, hpolicyRows, hmembershipRows, hhost, hhost']
  cases w.policyDb.policies.row raw.policyID with
  | none => rfl
  | some policy =>
    cases w.policyDb.membership ⟨raw.policyID, server.hostID⟩ with
    | none => rfl
    | some membership =>
      dsimp only
      rw [hassigned]

/-- The policy answers of a body that are recorded as the same. -/
def PoliciesAgree (server : Server) (w : World) (a b : Answer) : Prop :=
  ∀ raw raw', policyResult a = some raw → policyResult b = some raw' →
    EvaluationOrder.Agree server.crypto w.policyDb server.hostID raw raw'

theorem recordEvaluations_perm (h : Reached server w s) (hw : Reached server w w) (hperm : answers.Perm order)
    (hagree : ∀ a ∈ answers, ∀ b ∈ answers, PoliciesAgree server w a b) :
    recordEvaluations server s (answers.filterMap policyResult) =
      recordEvaluations server s (order.filterMap policyResult) := by
  rw [recordEvaluations, recordEvaluations,
    EvaluationOrder.recordEvaluations_perm (hperm.filterMap policyResult) mem_policyResults_status]
  intro raw hraw raw' hraw' hpolicy heligible heligible'
  obtain ⟨a, ha, hraw⟩ := List.mem_filterMap.mp hraw
  obtain ⟨b, hb, hraw'⟩ := List.mem_filterMap.mp hraw'
  rw [eligible_reached h hw] at heligible heligible'
  exact hagree a ha b hb raw raw' hraw hraw' hpolicy heligible heligible'

/-- The error text of an answer holds no NUL where it is stored. -/
def PolicyClean (answer : Answer) : Prop :=
  ∀ raw result, policyResult answer = some raw → normalized raw = some result →
    PolicyStore.storableResult result = true

theorem recordEvaluations_iff : (∃ s', recordEvaluations server s (answers.filterMap policyResult) = .ok s') ↔
    ∀ answer ∈ answers, PolicyClean answer := by
  have hstatus : ∀ raw ∈ answers.filterMap policyResult, raw.status ≠ .pending := mem_policyResults_status
  have hiff : (∃ db', PolicyStore.recordEvaluations server.crypto s.policyDb server.hostID
      (answers.filterMap policyResult) = .ok db') ↔ _ := EvaluationOrder.recordEvaluations_iff hstatus
  have hmap : (∃ s', recordEvaluations server s (answers.filterMap policyResult) = .ok s') ↔
      ∃ db', PolicyStore.recordEvaluations server.crypto s.policyDb server.hostID
        (answers.filterMap policyResult) = .ok db' := by
    rw [recordEvaluations]
    cases PolicyStore.recordEvaluations server.crypto s.policyDb server.hostID (answers.filterMap policyResult) with
    | error fault => simp [Except.map]
    | ok db => simp [Except.map]
  rw [hmap, hiff]
  constructor
  · intro hall answer hanswer raw result hraw hn
    exact hall raw (List.mem_filterMap.mpr ⟨answer, hanswer, hraw⟩) result hn
  · intro hall raw hraw result hn
    obtain ⟨answer, hanswer, hraw⟩ := List.mem_filterMap.mp hraw
    exact hall answer hanswer raw result hraw hn

/-- What the policies leave alone. -/
theorem recordEvaluations_frame {results : List EvaluationResult} (h : recordEvaluations server s results = .ok s') :
    s' = { s with membership := s'.membership, runs := s'.runs, drawn := s'.drawn } := by
  rw [recordEvaluations] at h
  cases hok : PolicyStore.recordEvaluations server.crypto s.policyDb server.hostID results with
  | error fault =>
    rw [hok] at h
    cases h
  | ok db =>
    rw [hok] at h
    cases h
    rfl

end Policies

section Passes

/-- The software that the stores take. -/
def SoftwareClean (server : Server) (answers : List Answer) : Prop :=
  succeeded answers .softwareMacOS = true →
    ∀ row ∈ softwareRows (rowsByKey answers), field row "name" ≠ "" →
      EntryClean server (queryRows answers .softwareMacOSSignature) (queryRows answers .softwareMacOSExecutableHash) row

theorem staged_kept (entries : List HostSoftwareEntry) :
    stageSoftwareSnapshot (entries.map (keptEntry server)) =
      (stageSoftwareSnapshot entries).map (keptEntry server) := by
  rw [stageSoftwareSnapshot, stageSoftwareSnapshot, List.filter_map]
  rfl

/-- What decides whether entries are stored does not look at their times. -/
theorem storable_kept (server : Server) {db : SoftwareCatalog.Db} {entries : List HostSoftwareEntry} :
    SoftwareSnapshots.Storable db server.hostID (entries.map (keptEntry server)) ↔
      SoftwareSnapshots.Storable db server.hostID entries := by
  constructor
  · intro h
    refine ⟨?_, ?_, ?_⟩
    · exact fun entry hentry => h.sources (keptEntry server entry) (List.mem_map_of_mem hentry)
    · exact fun entry hentry => h.texts (keptEntry server entry) (List.mem_map_of_mem hentry)
    · intro hne
      apply h.host
      rw [staged_kept]
      exact fun hnil => hne (List.map_eq_nil_iff.mp hnil)
  · intro h
    refine ⟨?_, ?_, ?_⟩
    · intro kept hkept
      obtain ⟨entry, hentry, rfl⟩ := List.mem_map.mp hkept
      exact h.sources entry hentry
    · intro kept hkept
      obtain ⟨entry, hentry, rfl⟩ := List.mem_map.mp hkept
      exact h.texts entry hentry
    · intro hne
      apply h.host
      intro hnil
      rw [staged_kept, hnil] at hne
      exact hne rfl

theorem replaceHostSoftware_iff {entries : List HostSoftwareEntry} (hvalid : s.catalog.Valid)
    (hhost : server.hostID ∈ s.hosts.ids) : (∃ s', replaceHostSoftware server s entries = .ok s') ↔
      ∀ entry ∈ entries, entry.name ≠ "" →
        SoftwareCatalog.SoftwareSource.valid entry.source = true ∧ storableEntry server entry = true := by
  have hreplace : (∃ db, SoftwareCatalog.replaceHostSoftware server.plan s.catalog server.hostID
      (entries.map (keptEntry server)) = .ok db) ↔
      SoftwareSnapshots.Storable s.catalog server.hostID entries := by
    rw [← storable_kept server]
    constructor
    · rintro ⟨db, hok⟩
      exact ((SoftwareSnapshots.replace_ok_iff server.plan hvalid).mp hok).1
    · intro hstorable
      exact ⟨_, (SoftwareSnapshots.replace_ok_iff server.plan hvalid).mpr ⟨hstorable, rfl⟩⟩
  rw [replaceHostSoftware]
  split_ifs with hrefused
  · constructor
    · rintro ⟨_, h⟩
      cases h
    · intro hall
      have hstaged : (stageSoftwareSnapshot entries).all (storableEntry server) = true := by
        rw [List.all_eq_true]
        intro entry hentry
        obtain ⟨hmem, hname⟩ := SoftwareSnapshots.mem_staged.mp hentry
        exact (hall entry hmem hname).2
      rw [hrefused.2] at hstaged
      cases hstaged
  · constructor
    · rintro ⟨s', hok⟩ entry hentry hname
      have hstorable : SoftwareSnapshots.Storable s.catalog server.hostID entries := by
        apply hreplace.mp
        cases hdb : SoftwareCatalog.replaceHostSoftware server.plan s.catalog server.hostID
            (entries.map (keptEntry server)) with
        | error fault =>
          rw [hdb] at hok
          cases hok
        | ok db => exact ⟨db, rfl⟩
      constructor
      · exact hstorable.sources entry hentry hname
      · have hvalidSources : entries.all (fun entry => decide (entry.name = "") ||
            SoftwareCatalog.SoftwareSource.valid entry.source) = true := by
          rw [List.all_eq_true]
          intro other hother
          rw [Bool.or_eq_true, decide_eq_true_eq]
          by_cases hblank : other.name = ""
          · exact .inl hblank
          · exact .inr (hstorable.sources other hother hblank)
        have hstaged : (stageSoftwareSnapshot entries).all (storableEntry server) = true := by
          by_contra hnot
          exact hrefused ⟨hvalidSources, Bool.not_eq_true _ ▸ hnot⟩
        exact List.all_eq_true.mp hstaged entry (SoftwareSnapshots.mem_staged.mpr ⟨hentry, hname⟩)
    · intro hall
      have hstorable : SoftwareSnapshots.Storable s.catalog server.hostID entries := by
        constructor
        · intro entry hentry hname
          exact (hall entry hentry hname).1
        · intro entry hentry hname
          have htexts := (hall entry hentry hname).2
          rw [storableEntry, Bool.and_eq_true] at htexts
          exact htexts.1
        · intro _
          exact hhost
      obtain ⟨db, hdb⟩ := hreplace.mpr hstorable
      rw [hdb]
      exact ⟨_, rfl⟩

theorem ingestSoftware_iff (hvalid : s.catalog.Valid) (hhost : server.hostID ∈ s.hosts.ids) :
    (∃ s', ingestSoftware server s answers = .ok s') ↔ SoftwareClean server answers := by
  rw [ingestSoftware, SoftwareClean]
  split_ifs with hsucceeded
  · rw [replaceHostSoftware_iff hvalid hhost, softwareEntries, parseSoftwareRows]
    constructor
    · intro hall _ row hrow hname
      have hentry := hall (parseSoftwareRow _ row)
        (List.mem_map_of_mem (List.mem_filter.mpr ⟨hrow, decide_eq_true hname⟩)) hname
      exact (entry_storable server _ _ row).mp hentry
    · intro hall entry hentry _
      obtain ⟨row, hrow, rfl⟩ := List.mem_map.mp hentry
      obtain ⟨hrow, hname⟩ := List.mem_filter.mp hrow
      exact (entry_storable server _ _ row).mpr (hall hsucceeded row hrow (of_decide_eq_true hname))
  · constructor
    · intro _ htrue
      exact absurd htrue hsucceeded
    · intro _
      exact ⟨s, rfl⟩

/-- What the software leaves alone. -/
theorem ingestSoftware_frame (h : ingestSoftware server s answers = .ok s') :
    s' = { s with titles := s'.titles, software := s'.software, links := s'.links, paths := s'.paths } := by
  rw [ingestSoftware] at h
  split_ifs at h
  · rw [replaceHostSoftware] at h
    split_ifs at h
    · cases h
    · cases hok : SoftwareCatalog.replaceHostSoftware server.plan s.catalog server.hostID
          ((softwareEntries answers).map (keptEntry server)) with
      | error fault =>
        rw [hok] at h
        cases h
      | ok db =>
        rw [hok] at h
        cases h
        rfl
  · cases h
    rfl

/-- The Munki report that the store takes. -/
def CollectionClean (answers : List Answer) : Prop :=
  sawKnownDetailResult answers = true ∧ collectionAuthoritative answers = true →
    MunkiClean (queryRows answers .munkiInfo) (queryRows answers .munkiInstalls)

theorem applyCollection_iff {row : HostEnrollment.HostRow} (hrow : s.hosts.row server.hostID = some row)
    (info installs : List Row) :
    (∃ s', applyCollection server s ((hostStatusFromInfoRows info).map (fun observation =>
      (observation, itemsFromInstallRows installs))) = .ok s') ↔ MunkiClean info installs := by
  rw [MunkiClean]
  cases hreport : hostStatusFromInfoRows info with
  | none =>
    have hnone : info.head? = none := Option.map_eq_none_iff.mp hreport
    rw [hnone]
    constructor
    · intro _ row hrow
      cases hrow
    · intro _
      exact ⟨_, rfl⟩
  | some observation =>
    obtain ⟨first, hfirst, -⟩ := Option.map_eq_some_iff.mp hreport
    have hstatus := @observation_storable server _ _ hreport
    rw [hfirst] at hstatus ⊢
    simp only [Option.some.injEq, forall_eq'] at hstatus ⊢
    rw [Option.map_some, applyCollection, ← hstatus, ← items_storable installs]
    split_ifs with hrefused hmissing
    · constructor
      · rintro ⟨_, h⟩
        cases h
      · rintro ⟨hobservation, hitems⟩
        rw [hobservation, hitems] at hrefused
        cases hrefused with
        | inl h => cases h
        | inr h => cases h
    · rw [hrow] at hmissing
      cases hmissing
    · constructor
      · intro _
        rw [not_or, Bool.not_eq_false, Bool.not_eq_false] at hrefused
        exact hrefused
      · intro _
        exact ⟨_, rfl⟩

theorem finalizeMunkiCollection_iff {row : HostEnrollment.HostRow} (hrow : s.hosts.row server.hostID = some row) :
    (∃ s', finalizeMunkiCollection server s answers = .ok s') ↔ CollectionClean answers := by
  rw [finalizeMunkiCollection, CollectionClean]
  split_ifs with hcollected
  · rw [munkiReport, applyCollection_iff hrow]
    constructor
    · intro h _
      exact h
    · intro h
      exact h hcollected
  · constructor
    · intro _ h
      exact absurd h hcollected
    · intro _
      exact ⟨s, rfl⟩

/-- What Munki leaves alone. -/
theorem finalizeMunkiCollection_frame (h : finalizeMunkiCollection server s answers = .ok s') :
    s' = { s with munkiStatus := s'.munkiStatus, munkiItems := s'.munkiItems } := by
  rw [finalizeMunkiCollection] at h
  split_ifs at h
  · cases hreport : munkiReport answers with
    | none =>
      rw [hreport, applyCollection] at h
      cases h
      rfl
    | some report =>
      obtain ⟨observation, items⟩ := report
      rw [hreport, applyCollection] at h
      split_ifs at h
      · cases h
      · cases h
        rfl
  · cases h
    rfl

end Passes

section Orders

theorem resultOf_perm (hperm : answers.Perm order) (hnames : (answers.map Answer.name).Nodup) :
    resultOf answers = resultOf order := by
  funext name
  have hfind := Reorderings.find?_perm hperm (p := fun answer => answer.detail == some name)
    (g := fun answer => answer) ?_
  · simp only [Option.map_id'] at hfind
    exact hfind
  · intro a ha b hb hdetail hdetail'
    apply List.inj_on_of_nodup_map hnames ha hb
    rw [name_of_detail (beq_iff_eq.mp hdetail), name_of_detail (beq_iff_eq.mp hdetail')]

theorem succeeded_congr (h : resultOf answers = resultOf order) : succeeded answers = succeeded order := by
  funext name
  rw [succeeded, succeeded, h]

theorem queryRows_congr (h : resultOf answers = resultOf order) : queryRows answers = queryRows order := by
  funext name
  rw [queryRows, queryRows, succeeded_congr h, h]

theorem ingestSoftware_congr (h : resultOf answers = resultOf order) (s : World) :
    ingestSoftware server s answers = ingestSoftware server s order := by
  have hrows : rowsByKey answers = rowsByKey order := by
    funext key
    rw [rowsByKey, rowsByKey, queryRows_congr h]
  rw [ingestSoftware, ingestSoftware, softwareEntries, softwareEntries, succeeded_congr h, queryRows_congr h, hrows]

theorem markFresh_congr (h : resultOf answers = resultOf order) (s : World) :
    markFresh server s answers = markFresh server s order := by
  rw [markFresh, markFresh, allSucceeded, allSucceeded, sawEveryRequiredDetailQuery, sawEveryRequiredDetailQuery, h,
    succeeded_congr h]

theorem finalizeMunkiCollection_congr (h : resultOf answers = resultOf order)
    (hknown : sawKnownDetailResult answers = sawKnownDetailResult order) (s : World) :
    finalizeMunkiCollection server s answers = finalizeMunkiCollection server s order := by
  rw [finalizeMunkiCollection, finalizeMunkiCollection, hknown, collectionAuthoritative, collectionAuthoritative,
    munkiReport, munkiReport, h, succeeded_congr h, queryRows_congr h]

theorem finalizeDetailPass_perm (hperm : answers.Perm order) (hnames : (answers.map Answer.name).Nodup) (s : World) :
    finalizeDetailPass server s answers = finalizeDetailPass server s order := by
  have h := resultOf_perm hperm hnames
  have hknown : sawKnownDetailResult answers = sawKnownDetailResult order := hperm.any_eq
  simp only [finalizeDetailPass, ingestSoftware_congr h, markFresh_congr h, finalizeMunkiCollection_congr h hknown]

/-- With distinct labels the memberships are a set of rows. -/
theorem finalizeLabelPass_perm (hperm : answers.Perm order) (s : World) :
    finalizeLabelPass server s answers = finalizeLabelPass server s order := by
  have hresults := hperm.filterMap labelResult
  have hids := hresults.map LabelResult.labelID
  rw [finalizeLabelPass, finalizeLabelPass, setDynamicMemberships, setDynamicMemberships]
  by_cases hnodup : ((answers.filterMap labelResult).map LabelResult.labelID).Nodup
  · have hfind (label : Int) := Reorderings.find?_perm
      (hresults.filter (fun result => s.labels result.labelID == some .dynamic))
      (p := fun result => result.labelID == label) (g := fun result => result) ?_
    · simp only [Option.map_id'] at hfind
      rw [if_pos hnodup, if_pos (hids.nodup_iff.mp hnodup)]
      simp only [hfind]
    · intro a ha b hb hlabel hlabel'
      apply List.inj_on_of_nodup_map hnodup (List.mem_filter.mp ha).1 (List.mem_filter.mp hb).1
      rw [beq_iff_eq.mp hlabel, beq_iff_eq.mp hlabel']
  · rw [if_neg hnodup, if_neg fun h => hnodup (hids.nodup_iff.mpr h)]

end Orders

section Stages

theorem labels_iff : (∃ s', finalizeLabelPass server s answers = (s', none)) ↔
    ((answers.filterMap labelResult).map LabelResult.labelID).Nodup := by
  rw [finalizeLabelPass, setDynamicMemberships]
  split_ifs with hnodup
  · exact iff_of_true ⟨_, rfl⟩ hnodup
  · constructor
    · rintro ⟨s', h⟩
      cases h
    · intro h
      exact absurd h hnodup

theorem finalizeLabelPass_frame (h : finalizeLabelPass server s answers = (s', none)) :
    s' = { s with members := s'.members } := by
  rw [finalizeLabelPass, setDynamicMemberships] at h
  split_ifs at h
  · cases h
    rfl
  · cases h

theorem markFresh_row {row : HostEnrollment.HostRow} (answers : List Answer)
    (hrow : s.hosts.row server.hostID = some row) :
    ∃ row', (markFresh server s answers).hosts.row server.hostID = some row' := by
  rw [markFresh]
  split_ifs
  · rw [markInventoryFresh]
    dsimp only
    rw [KeyedRows.Table.row_modify, if_pos rfl, hrow]
    exact ⟨_, rfl⟩
  · exact ⟨row, hrow⟩

theorem markFresh_frame (server : Server) (s : World) (answers : List Answer) : markFresh server s answers = { s with
    hosts := (markFresh server s answers).hosts
    refreshRequested := (markFresh server s answers).refreshRequested } := by
  rw [markFresh]
  split_ifs
  · rfl
  · rfl

theorem finalizeDetailPass_iff {row : HostEnrollment.HostRow} (hvalid : s.catalog.Valid)
    (hrow : s.hosts.row server.hostID = some row) : (∃ s', finalizeDetailPass server s answers = (s', none)) ↔
      SoftwareClean server answers ∧ CollectionClean answers := by
  have hids : server.hostID ∈ s.hosts.ids := KeyedRows.Table.mem_ids.mpr (by rw [hrow]; rfl)
  rw [← ingestSoftware_iff hvalid hids, finalizeDetailPass]
  cases hsoftware : ingestSoftware server s answers with
  | error fault =>
    constructor
    · rintro ⟨s', h⟩
      cases h
    · rintro ⟨⟨s', h⟩, -⟩
      cases h
  | ok next =>
    have hnext : next.hosts = s.hosts := by rw [ingestSoftware_frame hsoftware]
    obtain ⟨row', hrow'⟩ := markFresh_row answers (hnext ▸ hrow)
    rw [← finalizeMunkiCollection_iff hrow']
    dsimp only
    cases hmunki : finalizeMunkiCollection server (markFresh server next answers) answers with
    | error fault =>
      constructor
      · rintro ⟨s', h⟩
        cases h
      · rintro ⟨-, s', h⟩
        cases h
    | ok done =>
      constructor
      · intro _
        exact ⟨⟨_, rfl⟩, done, rfl⟩
      · intro _
        exact ⟨done, rfl⟩

/-- The passes after the policies leave live queries and policies. -/
theorem finalizeDetailPass_frame (h : finalizeDetailPass server s answers = (s', none)) :
    s'.live = s.live ∧ s'.membership = s.membership := by
  rw [finalizeDetailPass] at h
  cases hsoftware : ingestSoftware server s answers with
  | error fault =>
    rw [hsoftware] at h
    cases h
  | ok next =>
    rw [hsoftware] at h
    dsimp only at h
    cases hmunki : finalizeMunkiCollection server (markFresh server next answers) answers with
    | error fault =>
      rw [hmunki] at h
      cases h
    | ok done =>
      rw [hmunki] at h
      cases h
      have hfresh := markFresh_frame server next answers
      rw [finalizeMunkiCollection_frame hmunki]
      dsimp only
      rw [hfresh]
      dsimp only
      rw [ingestSoftware_frame hsoftware]
      exact ⟨rfl, rfl⟩

/-- An accepted write passes every stage. -/
theorem dispatch_stages (h : dispatchWriteResults server w answers = (s', none)) :
    ∃ s₁ s₂ s₃, handleResults server w answers = (s₁, none) ∧
      recordEvaluations server s₁ (answers.filterMap policyResult) = .ok s₂ ∧
      finalizeDetailPass server s₂ answers = (s₃, none) ∧ finalizeLabelPass server s₃ answers = (s', none) := by
  rw [dispatchWriteResults] at h
  cases hresults : handleResults server w answers with
  | mk s₁ refused =>
    rw [hresults] at h
    cases refused with
    | some fault => cases h
    | none =>
      dsimp only at h
      cases hpolicies : recordEvaluations server s₁ (answers.filterMap policyResult) with
      | error fault =>
        rw [hpolicies] at h
        cases h
      | ok s₂ =>
        rw [hpolicies] at h
        dsimp only at h
        cases hdetails : finalizeDetailPass server s₂ answers with
        | mk s₃ refused =>
          rw [hdetails] at h
          cases refused with
          | some refusal => cases h
          | none => exact ⟨s₁, s₂, s₃, rfl, hpolicies, hdetails, h⟩

theorem dispatch_of_stages {s₁ s₂ s₃ : World} (hresults : handleResults server w answers = (s₁, none))
    (hpolicies : recordEvaluations server s₁ (answers.filterMap policyResult) = .ok s₂)
    (hdetails : finalizeDetailPass server s₂ answers = (s₃, none))
    (hlabels : finalizeLabelPass server s₃ answers = (s', none)) :
    dispatchWriteResults server w answers = (s', none) := by
  rw [dispatchWriteResults, hresults]
  dsimp only
  rw [hpolicies]
  dsimp only
  rw [hdetails]
  exact hlabels

end Stages

/-- A decoded body: its results are under the keys of a map. -/
structure Body where
  answers : List Answer
  distinct : (answers.map Answer.name).Nodup

/-- What the migrations and the transactions before leave. A run started before now. -/
structure Ready (server : Server) (w : World) : Prop where
  host : ∃ row, w.hosts.row server.hostID = some row
  fits : RowsFit w
  catalog : w.catalog.Valid
  started : ∀ id run, w.live.runs.row id = some run → run.startedAt ≤ server.clock

/-- Every order of the results is accepted and leaves the same tables, and the times that
are stored are exact. -/
structure Unbroken (server : Server) (w : World) (body : Body) : Prop where
  accepted : ∀ order, body.answers.Perm order → (dispatchWriteResults server w order).2 = none
  sameTables : ∀ order, body.answers.Perm order →
    (dispatchWriteResults server w order).1 = (dispatchWriteResults server w body.answers).1
  restarted : ∀ answer ∈ body.answers, ∀ row seconds, okDetail answer = some .uptime →
    answer.rowList.head? = some row → parsePositiveInt64Ptr (text row "total_seconds") = some seconds →
    negatedUptime seconds = -seconds * timeSecond
  unixTimes : ∀ value parts, parseUnixTimeParts value = some parts →
    (unixTime parts.1 parts.2).instant = parts.1 * timeSecond + parts.2

/-- Each result is clean, and results for one run or one policy say the same. -/
structure Clean (server : Server) (w : World) (body : Body) : Prop where
  answers : ∀ answer ∈ body.answers, AnswerClean server w answer
  runs : ∀ a ∈ body.answers, ∀ b ∈ body.answers, Agree server w a b
  policies : ∀ answer ∈ body.answers, PolicyClean answer
  verdicts : ∀ a ∈ body.answers, ∀ b ∈ body.answers, PoliciesAgree server w a b
  labels : ((body.answers.filterMap labelResult).map LabelResult.labelID).Nodup
  software : SoftwareClean server body.answers
  munki : CollectionClean body.answers
  uptime : ∀ answer ∈ body.answers, ∀ row seconds, okDetail answer = some .uptime →
    answer.rowList.head? = some row → parsePositiveInt64Ptr (text row "total_seconds") = some seconds →
    seconds ≤ 9223372036

section Main

variable {body : Body}

theorem reached_ready (h : Ready server w) : Reached server w w := by
  obtain ⟨row, hrow⟩ := h.host
  exact reached_self hrow (h.fits _ row hrow) h.started

/-- The catalog of software before it is reported. -/
theorem catalog_reached (h : Ready server w) (hs : Reached server w s)
    {results : List EvaluationResult} (hok : recordEvaluations server s results = .ok s') : s'.catalog.Valid := by
  have htitles : s'.titles = w.titles := by rw [recordEvaluations_frame hok, hs.frame]
  have hsoftware : s'.software = w.software := by rw [recordEvaluations_frame hok, hs.frame]
  have hpaths : s'.paths = w.paths := by rw [recordEvaluations_frame hok, hs.frame]
  constructor
  · rw [World.catalog, htitles]
    exact h.catalog.names
  · rw [World.catalog, htitles]
    exact h.catalog.bundles
  · rw [World.catalog, hsoftware]
    exact h.catalog.versions
  · rw [World.catalog, hpaths]
    exact h.catalog.paths
  · rw [World.catalog, hsoftware, htitles]
    exact h.catalog.version_title

theorem passes_iff (h : Ready server w) (hs : Reached server w s) {results : List EvaluationResult}
    (hok : recordEvaluations server s results = .ok s') :
    (∃ done, finalizeDetailPass server s' answers = (done, none)) ↔
      SoftwareClean server answers ∧ CollectionClean answers := by
  obtain ⟨row, hrow, -⟩ := hs.host
  have hhosts : s'.hosts = s.hosts := by rw [recordEvaluations_frame hok]
  exact finalizeDetailPass_iff (catalog_reached h hs hok) (hhosts ▸ hrow)

/-- One outcome for every order. -/
theorem dispatch_clean (h : Ready server w) (hclean : Clean server w body) :
    ∃ done, ∀ order, body.answers.Perm order → dispatchWriteResults server w order = (done, none) := by
  have hw := reached_ready h
  obtain ⟨hresults, hs⟩ := handleResults_ok hw hclean.answers
  obtain ⟨s₂, hpolicies⟩ := recordEvaluations_iff.mpr hclean.policies
  obtain ⟨s₃, hdetails⟩ := (passes_iff h hs hpolicies).mpr ⟨hclean.software, hclean.munki⟩
  obtain ⟨done, hlabels⟩ := labels_iff.mpr hclean.labels
  refine ⟨done, fun order hperm => ?_⟩
  have horder : ∀ answer ∈ order, AnswerClean server w answer := fun answer hanswer =>
    hclean.answers answer (hperm.mem_iff.mpr hanswer)
  apply dispatch_of_stages
  · rw [(handleResults_ok hw horder).1, ← results_perm hperm hw hclean.answers body.distinct hclean.runs]
  · rw [← recordEvaluations_perm hs hw hperm hclean.verdicts]
    exact hpolicies
  · rw [← finalizeDetailPass_perm hperm body.distinct]
    exact hdetails
  · rw [← finalizeLabelPass_perm hperm]
    exact hlabels

theorem foldl_settled {r : LiveQueries.Result} {rest : List Answer} (hs : Reached server w s)
    (hclean : ∀ answer ∈ rest, AnswerClean server w answer)
    (hsettled : LiveEffects.Settled server.clock server.hostID s.live r.queryID) :
    (rest.foldl (step server) s).live.targets r.queryID = s.live.targets r.queryID := by
  induction rest generalizing s with
  | nil => rfl
  | cons answer rest ih =>
    have hfirst := answerClean_reached hs (hclean answer List.mem_cons_self)
    have hlive : (step server s answer).live.targets r.queryID = s.live.targets r.queryID ∧
        LiveEffects.Settled server.clock server.hostID (step server s answer).live r.queryID := by
      rw [step, live_changeOf, liveChange]
      cases hresult : liveResult server answer with
      | none => exact ⟨rfl, hsettled⟩
      | some r' =>
        rw [Option.map_some, Option.getD_some]
        by_cases hid : r.queryID = r'.queryID
        · have hsettled' : LiveEffects.Settled server.clock r'.hostID s.live r'.queryID := by
            rw [liveResult_hostID hresult, ← hid]
            exact hsettled
          rw [LiveEffects.record_settled hsettled']
          exact ⟨rfl, hsettled⟩
        · exact ⟨LiveEffects.record_targets_ne hid, LiveEffects.settled_of_eq hsettled
            (LiveEffects.record_row_ne hid) (LiveEffects.record_targets_ne hid)⟩
    have hnext : Reached server w (step server s answer) := reached_apply hs hfirst
    rw [List.foldl_cons, ih hnext (fun other hother => hclean other (List.mem_cons_of_mem _ hother)) hlive.2]
    exact hlive.1

/-- The targets after a write whose first result answers an awaited run. -/
theorem targets_first {r : LiveQueries.Result} {rest : List Answer} (h : Ready server w)
    (hclean : ∀ answer ∈ a :: rest, AnswerClean server w answer) (hresult : liveResult server a = some r)
    (hwaits : LiveEffects.Awaited server.clock server.hostID w.live r.queryID)
    (hok : dispatchWriteResults server w (a :: rest) = (s', none)) :
    s'.live.targets r.queryID = (w.live.targets r.queryID).map (LiveQueries.recordTarget r server.clock) := by
  have hw := reached_ready h
  obtain ⟨s₁, s₂, s₃, hresults, hpolicies, hdetails, hlabels⟩ := dispatch_stages hok
  have hstart : s₁ = (a :: rest).foldl (step server) w := by
    rw [(handleResults_ok hw hclean).1] at hresults
    exact (congrArg Prod.fst hresults).symm
  have hlive : s'.live = s₁.live := by
    rw [finalizeLabelPass_frame hlabels, (finalizeDetailPass_frame hdetails).1, recordEvaluations_frame hpolicies]
  have hhost := liveResult_hostID hresult
  have hstep : (step server w a).live = LiveEffects.record server.clock r w.live := by
    rw [step, live_changeOf, liveChange, hresult]
    rfl
  have hsettled : LiveEffects.Settled server.clock server.hostID (step server w a).live r.queryID := by
    rw [hstep, ← hhost]
    exact LiveEffects.settled_record
  have hfirst : Reached server w (step server w a) := reached_apply hw (hclean a List.mem_cons_self)
  rw [hlive, hstart, List.foldl_cons, foldl_settled hfirst
    (fun other hother => hclean other (List.mem_cons_of_mem _ hother)) hsettled, hstep]
  rw [← hhost] at hwaits
  exact LiveEffects.targets_awaited hwaits

/-- The membership after a write whose first result counts for a policy. -/
theorem membership_first {raw result : EvaluationResult} {rest : List Answer} (h : Ready server w)
    (hclean : ∀ answer ∈ a :: rest, AnswerClean server w answer) (hraw : policyResult a = some raw)
    (heligible : PolicyStore.eligible server.crypto w.policyDb server.hostID raw = true)
    (hn : normalized raw = some result) (hok : dispatchWriteResults server w (a :: rest) = (s', none)) :
    s'.membership ⟨raw.policyID, server.hostID⟩ = (w.membership ⟨raw.policyID, server.hostID⟩).map
      (fun membership => PolicyStore.completeMembership membership result) := by
  have hw := reached_ready h
  obtain ⟨s₁, s₂, s₃, hresults, hpolicies, hdetails, hlabels⟩ := dispatch_stages hok
  obtain ⟨hfold, hreached⟩ := handleResults_ok hw hclean
  have hstart : s₁ = (a :: rest).foldl (step server) w := by
    rw [hfold] at hresults
    exact (congrArg Prod.fst hresults).symm
  subst hstart
  have hmembership : s'.membership = s₂.membership := by
    rw [finalizeLabelPass_frame hlabels, (finalizeDetailPass_frame hdetails).2]
  have hbefore : ((a :: rest).foldl (step server) w).membership = w.membership := by rw [hreached.frame]
  rw [List.filterMap_cons, hraw, recordEvaluations] at hpolicies
  cases hrecorded : PolicyStore.recordEvaluations server.crypto
      ((a :: rest).foldl (step server) w).policyDb server.hostID (raw :: rest.filterMap policyResult) with
  | error fault =>
    rw [hrecorded] at hpolicies
    cases hpolicies
  | ok db =>
    rw [hrecorded] at hpolicies
    have hstatus : ∀ other ∈ raw :: rest.filterMap policyResult, other.status ≠ .pending := by
      intro other hother
      cases List.mem_cons.mp hother with
      | inl heq => exact heq ▸ policyResult_status hraw
      | inr hmem => exact mem_policyResults_status other hmem
    have hcounts : PolicyStore.eligible server.crypto ((a :: rest).foldl (step server) w).policyDb
        server.hostID raw = true := (eligible_reached hreached hw raw).trans heligible
    have hfirst := EvaluationOrder.membership_first hstatus hcounts hn hrecorded
    cases hpolicies
    rw [hmembership]
    exact hfirst.trans (by rw [World.policyDb, hbefore])

/-- An answer that counts is not left out. -/
theorem exists_normalized {raw : EvaluationResult}
    (heligible : PolicyStore.eligible server.crypto w.policyDb server.hostID raw = true)
    (hstatus : raw.status ≠ .pending) : ∃ result, normalized raw = some result := by
  obtain ⟨policy, membership, host, hcounts⟩ := PolicyStore.eligible_iff.mp heligible
  have hpolicy : 0 < raw.policyID := (w.policyDb.policies.numbered _ (by rw [hcounts.policyRow]; rfl)).1
  have hrevision : 0 < raw.revision := hcounts.revision ▸ policy.evaluation_check
  have hsequence : 0 < raw.sequence := by
    have hcheck := membership.sequence_check
    have hawaited := hcounts.awaited.2
    omega
  obtain ⟨result, hresult⟩ := EvaluationOrder.normalizeResult_verdict hstatus
  rw [normalized, if_neg (by omega), hresult]
  exact ⟨result, rfl⟩

theorem runs_agree (h : Ready server w) (hclean : ∀ answer ∈ body.answers, AnswerClean server w answer)
    (hok : ∀ order, body.answers.Perm order →
      dispatchWriteResults server w order = ((dispatchWriteResults server w body.answers).1, none)) :
    ∀ a ∈ body.answers, ∀ b ∈ body.answers, Agree server w a b := by
  intro a ha b hb r r' hr hr' hid hwaits
  obtain ⟨rest, hfirst⟩ := Reorderings.exists_first ha
  obtain ⟨rest', hfirst'⟩ := Reorderings.exists_first hb
  have hkeep := targets_first h (fun answer hanswer => hclean answer (hfirst.mem_iff.mp hanswer)) hr hwaits
    (hok _ hfirst.symm)
  have hkeep' := targets_first h (fun answer hanswer => hclean answer (hfirst'.mem_iff.mp hanswer)) hr'
    (hid ▸ hwaits) (hok _ hfirst'.symm)
  rw [← hid] at hkeep'
  exact LiveEffects.same_of_targets hwaits (liveResult_hostID hr) (liveResult_hostID hr')
    ((liveResult_hostName hr).trans (liveResult_hostName hr').symm) (hkeep.symm.trans hkeep')

theorem policies_agree (h : Ready server w) (hclean : ∀ answer ∈ body.answers, AnswerClean server w answer)
    (hok : ∀ order, body.answers.Perm order →
      dispatchWriteResults server w order = ((dispatchWriteResults server w body.answers).1, none)) :
    ∀ a ∈ body.answers, ∀ b ∈ body.answers, PoliciesAgree server w a b := by
  intro a ha b hb raw raw' hraw hraw' hpolicy heligible heligible'
  obtain ⟨rest, hfirst⟩ := Reorderings.exists_first ha
  obtain ⟨rest', hfirst'⟩ := Reorderings.exists_first hb
  obtain ⟨result, hn⟩ := exists_normalized heligible (policyResult_status hraw)
  obtain ⟨result', hn'⟩ := exists_normalized heligible' (policyResult_status hraw')
  have hkeep := membership_first h (fun answer hanswer => hclean answer (hfirst.mem_iff.mp hanswer)) hraw
    heligible hn (hok _ hfirst.symm)
  have hkeep' := membership_first h (fun answer hanswer => hclean answer (hfirst'.mem_iff.mp hanswer)) hraw'
    heligible' hn' (hok _ hfirst'.symm)
  obtain ⟨_, membership, _, hcounts⟩ := PolicyStore.eligible_iff.mp heligible
  have hrow : w.membership ⟨raw.policyID, server.hostID⟩ = some membership := hcounts.membershipRow
  rw [← hpolicy, hrow] at hkeep'
  rw [hrow] at hkeep
  have hsame := Option.some.inj (hkeep.symm.trans hkeep')
  rw [hn, hn', EvaluationOrder.agree_of_membership hcounts.membershipRow hpolicy heligible heligible' hn hn' hsame]

/-- No row breaks the write, in no order of its results, exactly when the body is clean. -/
theorem unbroken_iff (h : Ready server w) (body : Body) : Unbroken server w body ↔ Clean server w body := by
  have hw := reached_ready h
  constructor
  · intro hunbroken
    have hok : ∀ order, body.answers.Perm order →
        dispatchWriteResults server w order = ((dispatchWriteResults server w body.answers).1, none) := by
      intro order hperm
      exact Prod.ext (hunbroken.sameTables order hperm) (hunbroken.accepted order hperm)
    have hclean : ∀ answer ∈ body.answers, AnswerClean server w answer := by
      intro answer hanswer
      obtain ⟨rest, hfirst⟩ := Reorderings.exists_first hanswer
      obtain ⟨s₁, _, _, hresults, -⟩ := dispatch_stages (hok _ hfirst.symm)
      exact clean_of_first hw hresults
    obtain ⟨s₁, s₂, s₃, hresults, hpolicies, hdetails, hlabels⟩ := dispatch_stages (hok _ (List.Perm.refl _))
    obtain ⟨hfold, hreached⟩ := handleResults_ok hw hclean
    have hstart : s₁ = body.answers.foldl (step server) w := by
      rw [hfold] at hresults
      exact (congrArg Prod.fst hresults).symm
    obtain ⟨hsoftware, hmunki⟩ := (passes_iff h (hstart ▸ hreached) hpolicies).mp ⟨s₃, hdetails⟩
    constructor
    · exact hclean
    · exact runs_agree h hclean hok
    · exact recordEvaluations_iff.mp ⟨s₂, hpolicies⟩
    · exact policies_agree h hclean hok
    · exact labels_iff.mp ⟨_, hlabels⟩
    · exact hsoftware
    · exact hmunki
    · intro answer hanswer row seconds hok hrow hseconds
      have hpos : 0 < seconds := of_decide_eq_true (Option.filter_eq_some_iff.mp hseconds).2
      exact (negatedUptime_exact hpos).mp (hunbroken.restarted answer hanswer row seconds hok hrow hseconds)
  · intro hclean
    obtain ⟨done, hdone⟩ := dispatch_clean h hclean
    constructor
    · intro order hperm
      rw [hdone order hperm]
    · intro order hperm
      rw [hdone order hperm, hdone body.answers (List.Perm.refl _)]
    · intro answer hanswer row seconds hok hrow hseconds
      have hpos : 0 < seconds := of_decide_eq_true (Option.filter_eq_some_iff.mp hseconds).2
      exact (negatedUptime_exact hpos).mpr (hclean.uptime answer hanswer row seconds hok hrow hseconds)
    · intro value parts hparts
      obtain ⟨hpos, hsec, hlow, hhigh⟩ := parseUnixTimeParts_bounds hparts
      exact instant_unixTime hpos hsec hlow hhigh

/-- An instant as 64 bits of microseconds from the year 2000 on, if they are in the range of
the type. -/
def microseconds (t : Int) : Option Int :=
  let stored := GoNumbers.wrap64 (t / 1000 - 946684800000000)
  if -211813488000000000 ≤ stored ∧ stored < 9223371331200000000 then
    some ((stored + 946684800000000) * 1000)
  else none

/-- Far times wrap around: this one is kept as a moment of 1970. -/
example : microseconds (18446744073710 * timeSecond) = some 448384000 := by decide

theorem microseconds_years {t : Int} (hlow : -62167824000 * timeSecond ≤ t)
    (hhigh : t < 253402905600 * timeSecond) : (microseconds t).isSome = true := by
  have hint : GoText.IsInt64 (t / 1000 - 946684800000000) := by
    simp only [timeSecond, GoText.IsInt64] at *
    omega
  have hrange : -211813488000000000 ≤ t / 1000 - 946684800000000 ∧
      t / 1000 - 946684800000000 < 9223371331200000000 := by
    simp only [timeSecond] at *
    omega
  rw [microseconds, GoNumbers.wrap64_eq_iff.mpr hint, if_pos hrange]
  rfl

def bareServer : Server where
  hostID := 1
  displayName := "mac"
  readers := { parseFloat64 := fun _ => none, parseAddr := fun _ => none }
  inet := fun _ => none
  timestamptz := microseconds
  crypto := { queryHash := id, draw := toString }
  plan := SoftwareSnapshots.inOrder
  detailQueryHash := ""
  now := 1
  clock := 1
  now_bounds := by decide
  addr_text := nofun
  addr_inet := nofun
  years_kept := fun _ => microseconds_years

def bareRow : HostEnrollment.HostRow := { hardwareUUID := "uuid" }

def enrolled : World := { hosts := KeyedRows.Table.empty.insert bareRow }

def usersBody (description : String) : Body where
  answers := [{
    name := "woodstar_detail_query_users".toList
    rows := some [[("uid", "501"), ("username", "ada"), ("description", description)]]
    status := some 0 }]
  distinct := List.nodup_singleton _

theorem ready_enrolled : Ready bareServer enrolled := by
  constructor
  · exact ⟨bareRow, rfl⟩
  · intro id row hrow
    rw [enrolled, KeyedRows.Table.row_insert] at hrow
    split_ifs at hrow with hid
    · rw [← Option.some.inj hrow, hid]
      decide
    · cases hrow
  · constructor
    · exact KeyedUpserts.isDistinct_iff.mp (by decide)
    · exact KeyedUpserts.isDistinct_iff.mp (by decide)
    · exact KeyedUpserts.isDistinct_iff.mp (by decide)
    · exact KeyedUpserts.isDistinct_iff.mp (by decide)
    · intro id row hrow
      cases hrow
  · intro id run hrun
    cases hrun

theorem users_detail (description : String) (answer : Answer) (h : answer ∈ (usersBody description).answers) :
    answer.detail = some .users := by
  rw [List.mem_singleton.mp h]
  rfl

theorem users_policy (description : String) (answer : Answer) (h : answer ∈ (usersBody description).answers) :
    policyResult answer = none := by
  rw [List.mem_singleton.mp h]
  rfl

theorem users_live (description : String) (answer : Answer) (h : answer ∈ (usersBody description).answers) :
    liveResult bareServer answer = none := by
  rw [List.mem_singleton.mp h]
  rfl

theorem clean_users : Clean bareServer enrolled (usersBody "Ada") := by
  constructor
  · intro answer hanswer
    constructor
    · intro name hname _
      cases (users_detail "Ada" answer hanswer).symm.trans hname
      rw [List.mem_singleton.mp hanswer]
      intro row hrow _ _
      rw [List.mem_singleton.mp hrow]
      decide
    · intro r hr
      cases (users_live "Ada" answer hanswer).symm.trans hr
  · intro a ha b _ r r' hr
    cases (users_live "Ada" a ha).symm.trans hr
  · intro answer hanswer raw result hraw
    cases (users_policy "Ada" answer hanswer).symm.trans hraw
  · intro a ha b _ raw raw' hraw
    cases (users_policy "Ada" a ha).symm.trans hraw
  · exact List.nodup_nil
  · intro h
    cases h
  · intro _ row hrow
    cases hrow
  · intro answer hanswer row seconds hok
    cases (users_detail "Ada" answer hanswer).symm.trans (okDetail_some hok).1

/-- A user with a NUL in the description breaks the write. -/
theorem users_unbroken : Unbroken bareServer enrolled (usersBody "Ada") ∧
    ¬Unbroken bareServer enrolled (usersBody "Ada\x00") := by
  constructor
  · exact (unbroken_iff ready_enrolled (usersBody "Ada")).mpr clean_users
  · intro hunbroken
    have hclean := (unbroken_iff ready_enrolled (usersBody "Ada\x00")).mp hunbroken
    have hrows := (hclean.answers _ List.mem_cons_self).detail .users rfl rfl
    exact absurd (hrows _ List.mem_cons_self (by decide) (by decide)) (by decide)

end Main

end DistributedWrites
