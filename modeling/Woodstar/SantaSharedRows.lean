import Woodstar.SantaIngestion
import Mathlib.Data.List.Find

/-!
# Shared rows of Santa events

What the transaction of an upload does to the tables, row by row: it keeps their constraints
and leaves what its events leave one after the other.
-/
namespace SantaIngestion

open KeyedRelations
open KeyedRows (Table)
open KeyedUpserts
open SantaUploads

section

variable {α β : Type} {u : Upsert α β String} {t : Table α} {m : ByHash β} {k : String}

theorem find_sortedMapValues {f : β → String} (h : ∀ k, ∀ w ∈ m.lookup k, f w = k) (k : String) :
    (sortedMapValues m).find? (fun w => decide (f w = k)) = m.lookup k := by
  cases hlookup : m.lookup k with
  | none =>
    rw [List.find?_eq_none]
    intro w hw heq
    obtain ⟨k', hk'⟩ := mem_sortedMapValues.mp hw
    obtain rfl := (h k' w hk').symm.trans (of_decide_eq_true heq)
    rw [hlookup] at hk'
    cases hk'
  | some w =>
    have hmem : w ∈ sortedMapValues m := mem_sortedMapValues.mpr ⟨k, hlookup⟩
    have hfound : ((sortedMapValues m).find? (fun w => decide (f w = k))).isSome = true := by
      rw [List.find?_isSome]
      exact ⟨w, hmem, decide_eq_true (h k w hlookup)⟩
    obtain ⟨w', hw'⟩ := Option.isSome_iff_exists.mp hfound
    obtain ⟨k', hk'⟩ := mem_sortedMapValues.mp (List.mem_of_find?_eq_some hw')
    have hname : f w' = k := by simpa using List.find?_some hw'
    obtain rfl := (h k' w' hk').symm.trans hname
    rw [hw', ← hlookup]
    exact hk'.symm

theorem slots_sortedMapValues (h : ∀ k, ∀ w ∈ m.lookup k, u.slot w = k) :
    ((sortedMapValues m).map u.slot).Nodup := by
  rw [sortedMapValues_key h]
  exact sortedMapKeys_pairwise.imp (fun hlt => ne_of_lt hlt)

/-- What the entries of a plan leave under a hash. -/
theorem under_putAll_sorted (hdistinct : Distinct u.key t) (h : ∀ k, ∀ w ∈ m.lookup k, u.slot w = k) (k : String) :
    under u.key (putAll u t (sortedMapValues m)) k =
      ((m.lookup k).map (written u (under u.key t k))).or (under u.key t k) := by
  rw [under_putAll hdistinct (slots_sortedMapValues h), find_sortedMapValues h]

theorem find_putAll_sorted (hdistinct : Distinct u.key t) (h : ∀ k, ∀ w ∈ m.lookup k, u.slot w = k) (k : String) :
    (find u.key (putAll u t (sortedMapValues m)) k).isSome = ((m.lookup k).isSome || (find u.key t k).isSome) := by
  rw [isSome_find, isSome_find, under_putAll_sorted hdistinct h, Option.isSome_or, Option.isSome_map]

end

section

variable {entries : Int → Nat → Option Int} {chainID : String → Int} {certificateID : String → Int}

/-- The entries of one chain, one after the other. -/
theorem linkChain_eq (c : Int) (certificates : List CertificateInput) (id : Int) (n : Nat) :
    (certificates.zipIdx.foldl (fun entries entry =>
        linkSigningChainEntry entries c entry.2 (certificateID entry.1.sha256)) entries) id n =
      (if id = c then certificates[n]?.map (fun entry => certificateID entry.sha256) else none).or
        (entries id n) := by
  induction certificates using List.reverseRecOn with
  | nil => simp
  | append_singleton certificates last ih =>
    rw [List.zipIdx_append, List.foldl_append]
    simp only [List.zipIdx_singleton, List.foldl_cons, List.foldl_nil, zero_add]
    rw [linkSigningChainEntry]
    by_cases hid : id = c
    · by_cases hn : n = certificates.length
      · simp [hid, hn]
      · rw [if_neg (fun h => hn h.2), ih, if_pos hid, if_pos hid, List.getElem?_append]
        split_ifs with hlt
        · rfl
        · have hshort : ([last] : List CertificateInput)[n - certificates.length]? = none := by
            rw [List.getElem?_eq_none_iff, List.length_singleton]
            omega
          rw [hshort, List.getElem?_eq_none_iff.mpr (by omega)]
    · rw [if_neg (fun h => hid h.1), ih, if_neg hid, if_neg hid]

/-- The chains have different rows. -/
theorem linkChains_eq (chains : List SigningChainWrite) (hnodup : (chains.map (fun c => chainID c.sha256)).Nodup)
    (id : Int) (n : Nat) :
    (chains.foldl (fun entries chain => chain.entries.zipIdx.foldl (fun entries entry =>
        linkSigningChainEntry entries (chainID chain.sha256) entry.2 (certificateID entry.1.sha256)) entries)
          entries) id n =
      ((chains.find? (fun chain => decide (chainID chain.sha256 = id))).bind (fun chain =>
        chain.entries[n]?.map (fun entry => certificateID entry.sha256))).or (entries id n) := by
  induction chains generalizing entries with
  | nil => rfl
  | cons chain chains ih =>
    rw [List.map_cons, List.nodup_cons] at hnodup
    rw [List.foldl_cons, ih hnodup.2, linkChain_eq, List.find?_cons]
    by_cases hid : chainID chain.sha256 = id
    · have hnone : chains.find? (fun chain => decide (chainID chain.sha256 = id)) = none := by
        rw [List.find?_eq_none]
        intro other hother heq
        apply hnodup.1
        rw [hid, ← of_decide_eq_true heq]
        exact List.mem_map_of_mem hother
      simp [hid, hnone]
    · simp [hid, Ne.symm hid]

end

/-- The constraints of the tables. -/
structure Database.Wf (db : Database) : Prop where
  executables : Distinct upsertExecutable.key db.executables
  signingChains : Distinct upsertSigningChain.key db.signingChains
  certificates : Distinct upsertCertificate.key db.certificates
  bundles : Distinct upsertBundle.key db.bundles
  entries : ∀ id n c, db.signingChainEntries id n = some c →
    (db.signingChains.row id).isSome = true ∧ (db.certificates.row c).isSome = true
  executableSigningChains : ∀ link ∈ db.executableSigningChains,
    (db.executables.row link.1).isSome = true ∧ (db.signingChains.row link.2).isSome = true
  bundleExecutables : ∀ link ∈ db.bundleExecutables,
    (db.bundles.row link.1).isSome = true ∧ (db.executables.row link.2).isSome = true
  executionEvents : ∀ row ∈ db.executionEvents, (db.executables.row row.executableID).isSome = true

section

variable {hash : List String → String} {upload : Upload} {db : Database} {now hostID : Int} {events : Events}

/-- The plan of an upload, table by table. -/
structure Planned (hash : List String → String) (upload : Upload) (plan : IngestPlan) (b : IngestPlanBuilder) :
    Prop where
  built : Built hash upload.executionEvents b
  executables : plan.executables = sortedMapValues b.executables
  signingChains : plan.signingChains = sortedMapValues b.signingChains
  certificates : plan.certificates = sortedMapValues b.certificates
  bundles : plan.bundles = sortedMapValues b.bundles
  executableSigningLinks : plan.executableSigningLinks.toFinset = b.executableSigningLinks
  bundleExecutableLinks : plan.bundleExecutableLinks.toFinset = b.bundleExecutableLinks

theorem planned (hash : List String → String) (upload : Upload) :
    Planned hash upload (newIngestPlan hash upload) (buildPlan hash upload.executionEvents) where
  built := built_plan hash upload.executionEvents
  executables := rfl
  signingChains := rfl
  certificates := rfl
  bundles := rfl
  executableSigningLinks := Finset.sort_toFinset _ _
  bundleExecutableLinks := Finset.sort_toFinset _ _

variable {plan : IngestPlan} {b : IngestPlanBuilder}

theorem find_executables (hwf : db.Wf) (h : Planned hash upload plan b) (k : String) :
    (find upsertExecutable.key (upsertPlanReferences plan db).executables k).isSome =
      ((b.executables.lookup k).isSome || (find upsertExecutable.key db.executables k).isSome) := by
  rw [upsertPlanReferences, h.executables]
  exact find_putAll_sorted hwf.executables h.built.executable_key k

theorem find_signingChains (hwf : db.Wf) (h : Planned hash upload plan b) (k : String) :
    (find upsertSigningChain.key (upsertPlanReferences plan db).signingChains k).isSome =
      ((b.signingChains.lookup k).isSome || (find upsertSigningChain.key db.signingChains k).isSome) := by
  rw [upsertPlanReferences, h.signingChains]
  exact find_putAll_sorted hwf.signingChains h.built.chain_key k

theorem find_certificates (hwf : db.Wf) (h : Planned hash upload plan b) (k : String) :
    (find upsertCertificate.key (upsertPlanReferences plan db).certificates k).isSome =
      ((b.certificates.lookup k).isSome || (find upsertCertificate.key db.certificates k).isSome) := by
  rw [upsertPlanReferences, h.certificates]
  exact find_putAll_sorted hwf.certificates h.built.certificate_key k

theorem find_bundles (hwf : db.Wf) (h : Planned hash upload plan b) (k : String) :
    (find upsertBundle.key (upsertPlanReferences plan db).bundles k).isSome =
      ((b.bundles.lookup k).isSome || (find upsertBundle.key db.bundles k).isSome) := by
  rw [upsertPlanReferences, h.bundles]
  exact find_putAll_sorted hwf.bundles h.built.bundle_key k

theorem executables_ingest (hwf : db.Wf) (h : Planned hash upload plan b) (k : String) :
    (ingestEventsTx now hostID plan events db).shared.executables k = (db.shared.apply b).executables k := by
  have hunder := under_putAll_sorted (u := upsertExecutable) hwf.executables h.built.executable_key k
  rw [← h.executables] at hunder
  change under upsertExecutable.key (putAll upsertExecutable db.executables plan.executables) k =
    (b.executables.lookup k).or (under upsertExecutable.key db.executables k)
  rw [hunder]
  cases b.executables.lookup k with
  | none => rfl
  | some w =>
    cases under upsertExecutable.key db.executables k <;> rfl

theorem signingChains_ingest (hwf : db.Wf) (h : Planned hash upload plan b) (k : String) :
    (ingestEventsTx now hostID plan events db).shared.signingChains k = (db.shared.apply b).signingChains k := by
  change (find upsertSigningChain.key (upsertPlanReferences plan db).signingChains k).isSome = _
  rw [find_signingChains hwf h]
  exact Bool.or_comm _ _

theorem certificates_ingest (hwf : db.Wf) (h : Planned hash upload plan b) (k : String) :
    (ingestEventsTx now hostID plan events db).shared.certificates k = (db.shared.apply b).certificates k := by
  have hunder := under_putAll_sorted (u := upsertCertificate) hwf.certificates h.built.certificate_key k
  rw [← h.certificates] at hunder
  change under upsertCertificate.key (putAll upsertCertificate db.certificates plan.certificates) k =
    ((b.certificates.lookup k).map certificateRow).or (under upsertCertificate.key db.certificates k)
  rw [hunder]
  cases b.certificates.lookup k with
  | none => rfl
  | some w =>
    cases under upsertCertificate.key db.certificates k <;> rfl

theorem executable_of_link (hwf : db.Wf) (h : Planned hash upload plan b) {link : ExecutableSigningLink}
    (hlink : link ∈ plan.executableSigningLinks) :
    (find upsertExecutable.key (upsertPlanReferences plan db).executables link.executableSHA256).isSome = true ∧
      (find upsertSigningChain.key (upsertPlanReferences plan db).signingChains
        link.signingChainSHA256).isSome = true := by
  have hmem : link ∈ b.executableSigningLinks := by
    rw [← h.executableSigningLinks]
    exact List.mem_toFinset.mpr hlink
  obtain ⟨e, he, k, hchain, rfl⟩ := (h.built.executable_links link).mp hmem
  have hexecutable := AList.lookup_isSome.mpr ((h.built.executables e.fileSHA256).mpr ⟨e, he, rfl⟩)
  have hsigning := AList.lookup_isSome.mpr ((h.built.chains k).mpr ⟨e, he, hchain⟩)
  rw [find_executables hwf h, find_signingChains hwf h, hexecutable, hsigning]
  exact ⟨rfl, rfl⟩

theorem bundle_of_link (hwf : db.Wf) (h : Planned hash upload plan b) {link : BundleExecutableLink}
    (hlink : link ∈ plan.bundleExecutableLinks) :
    (find upsertBundle.key (upsertPlanReferences plan db).bundles link.bundleSHA256).isSome = true ∧
      (find upsertExecutable.key (upsertPlanReferences plan db).executables
        link.executableSHA256).isSome = true := by
  have hmem : link ∈ b.bundleExecutableLinks := by
    rw [← h.bundleExecutableLinks]
    exact List.mem_toFinset.mpr hlink
  obtain ⟨e, he, hnamed, rfl⟩ := (h.built.bundle_links link).mp hmem
  have hbundle := AList.lookup_isSome.mpr ((h.built.bundles e.bundleHash).mpr ⟨e, he, hnamed, rfl⟩)
  have hexecutable := AList.lookup_isSome.mpr ((h.built.executables e.fileSHA256).mpr ⟨e, he, rfl⟩)
  rw [find_bundles hwf h, find_executables hwf h, hbundle, hexecutable]
  exact ⟨rfl, rfl⟩

theorem executableSigningChains_ingest (hwf : db.Wf) (h : Planned hash upload plan b) :
    (ingestEventsTx now hostID plan events db).shared.executableSigningChains =
      (db.shared.apply b).executableSigningChains := by
  change Finset.image (fun link : Int × Int =>
    (keyOf upsertExecutable.key (upsertPlanReferences plan db).executables link.1,
      keyOf upsertSigningChain.key (upsertPlanReferences plan db).signingChains link.2))
    (db.executableSigningChains ∪ _) = _
  rw [image_links (keyOf upsertExecutable.key db.executables) (keyOf upsertSigningChain.key db.signingChains)
    ExecutableSigningLink.executableSHA256 ExecutableSigningLink.signingChainSHA256,
    h.executableSigningLinks]
  · rfl
  · intro link hlink
    obtain ⟨hexecutable, hchain⟩ := hwf.executableSigningChains link hlink
    exact ⟨keyOf_putAll hwf.executables _ hexecutable, keyOf_putAll hwf.signingChains _ hchain⟩
  · intro link hlink
    obtain ⟨hexecutable, hchain⟩ := executable_of_link hwf h hlink
    exact ⟨keyOf_idOf hexecutable, keyOf_idOf hchain⟩

theorem bundleExecutables_ingest (hwf : db.Wf) (h : Planned hash upload plan b) :
    (insertPlanRelationships plan (upsertPlanReferences plan db)).bundleExecutables.image (fun link =>
        (keyOf upsertBundle.key (upsertPlanReferences plan db).bundles link.1,
          keyOf upsertExecutable.key (upsertPlanReferences plan db).executables link.2)) =
      (db.shared.apply b).bundleExecutables := by
  change Finset.image _ (db.bundleExecutables ∪ _) = _
  rw [image_links (keyOf upsertBundle.key db.bundles) (keyOf upsertExecutable.key db.executables)
    BundleExecutableLink.bundleSHA256 BundleExecutableLink.executableSHA256,
    h.bundleExecutableLinks]
  · rfl
  · intro link hlink
    obtain ⟨hbundle, hexecutable⟩ := hwf.bundleExecutables link hlink
    exact ⟨keyOf_putAll hwf.bundles _ hbundle, keyOf_putAll hwf.executables _ hexecutable⟩
  · intro link hlink
    obtain ⟨hbundle, hexecutable⟩ := bundle_of_link hwf h hlink
    exact ⟨keyOf_idOf hbundle, keyOf_idOf hexecutable⟩

theorem certificate_of_chain (hwf : db.Wf) (h : Planned hash upload plan b) {k : String} {chain : SigningChainWrite}
    (hlookup : b.signingChains.lookup k = some chain) {entry : CertificateInput} (hentry : entry ∈ chain.entries) :
    (find upsertCertificate.key (upsertPlanReferences plan db).certificates entry.sha256).isSome = true := by
  obtain ⟨e, he, -, hentries⟩ := h.built.chain_entries k chain hlookup
  rw [hentries] at hentry
  rw [find_certificates hwf h,
    AList.lookup_isSome.mpr ((h.built.certificates entry.sha256).mpr ⟨e, he, entry, hentry, rfl⟩)]
  rfl

theorem found_chain (hwf : db.Wf) (h : Planned hash upload plan b) {chain : SigningChainWrite}
    (hchain : chain ∈ plan.signingChains) :
    (find upsertSigningChain.key (upsertPlanReferences plan db).signingChains chain.sha256).isSome = true := by
  rw [h.signingChains] at hchain
  obtain ⟨k, hlookup⟩ := mem_sortedMapValues.mp hchain
  rw [find_signingChains hwf h, h.built.chain_key k chain hlookup, Option.isSome_of_eq_some hlookup]
  rfl

theorem nodup_chainIDs (hwf : db.Wf) (h : Planned hash upload plan b) :
    (plan.signingChains.map (fun chain =>
      idOf upsertSigningChain.key (upsertPlanReferences plan db).signingChains chain.sha256)).Nodup := by
  have hhashes : (plan.signingChains.map SigningChainWrite.sha256).Nodup := by
    rw [h.signingChains, sortedMapValues_key h.built.chain_key]
    exact sortedMapKeys_pairwise.imp (fun hlt => ne_of_lt hlt)
  rw [List.nodup_map_iff_inj_on (List.Nodup.of_map _ hhashes)]
  intro chain hchain chain' hchain' heq
  exact List.inj_on_of_nodup_map hhashes hchain hchain'
    (eq_of_idOf (found_chain hwf h hchain) (found_chain hwf h hchain') heq)

theorem find_chain (hwf : db.Wf) (h : Planned hash upload plan b) {k : String}
    (hfound : (find upsertSigningChain.key (upsertPlanReferences plan db).signingChains k).isSome = true) :
    plan.signingChains.find? (fun chain => decide
        (idOf upsertSigningChain.key (upsertPlanReferences plan db).signingChains chain.sha256 =
          idOf upsertSigningChain.key (upsertPlanReferences plan db).signingChains k)) =
      b.signingChains.lookup k := by
  rw [← find_sortedMapValues h.built.chain_key, ← h.signingChains]
  apply List.find?_congr
  intro chain hchain
  rw [decide_eq_decide]
  constructor
  · exact fun heq => eq_of_idOf (found_chain hwf h hchain) hfound heq
  · exact fun heq => heq ▸ rfl

/-- The entries of a chain that was there. -/
theorem storedEntries (hwf : db.Wf) (plan : IngestPlan) {k : String} {n : Nat}
    (hfound : (find upsertSigningChain.key (upsertPlanReferences plan db).signingChains k).isSome = true) :
    (db.signingChainEntries (idOf upsertSigningChain.key (upsertPlanReferences plan db).signingChains k) n).map
        (keyOf upsertCertificate.key (upsertPlanReferences plan db).certificates) =
      db.shared.signingChainEntries k n := by
  change _ = (find upsertSigningChain.key db.signingChains k).bind (fun id =>
    (db.signingChainEntries id n).map (keyOf upsertCertificate.key db.certificates))
  have hcertificates (id c : Int) (hentry : db.signingChainEntries id n = some c) :
      keyOf upsertCertificate.key (upsertPlanReferences plan db).certificates c =
        keyOf upsertCertificate.key db.certificates c :=
    keyOf_putAll hwf.certificates _ (hwf.entries id n c hentry).2
  cases hfind : find upsertSigningChain.key db.signingChains k with
  | some id =>
    have hafter : idOf upsertSigningChain.key (upsertPlanReferences plan db).signingChains k = id :=
      idOf_of_find (find_putAll hwf.signingChains _ hfind)
    rw [hafter, Option.bind_some]
    cases hentry : db.signingChainEntries id n with
    | none => rfl
    | some c => rw [Option.map_some, Option.map_some, hcertificates id c hentry]
  | none =>
    rw [Option.bind_none, Option.map_eq_none_iff]
    by_contra hsome
    obtain ⟨c, hentry⟩ := Option.ne_none_iff_exists'.mp hsome
    -- a chain with entries has a row, which keeps its hash
    have hrow := (hwf.entries _ n c hentry).1
    have hhash := keyOf_putAll hwf.signingChains plan.signingChains hrow
    change keyOf upsertSigningChain.key (upsertPlanReferences plan db).signingChains _ = _ at hhash
    rw [keyOf_idOf hfound] at hhash
    have hold := find_keyOf hwf.signingChains (fun _ => rfl) hrow
    rw [← hhash, hfind] at hold
    cases hold

theorem signingChainEntries_ingest (hwf : db.Wf) (h : Planned hash upload plan b) (k : String) (n : Nat) :
    (ingestEventsTx now hostID plan events db).shared.signingChainEntries k n =
      (db.shared.apply b).signingChainEntries k n := by
  change (find upsertSigningChain.key (upsertPlanReferences plan db).signingChains k).bind (fun id =>
    ((insertPlanRelationships plan (upsertPlanReferences plan db)).signingChainEntries id n).map
      (keyOf upsertCertificate.key (upsertPlanReferences plan db).certificates)) =
    ((b.signingChains.lookup k).bind (fun chain => chain.entries[n]?.map CertificateInput.sha256)).or
      (db.shared.signingChainEntries k n)
  cases hfound : (find upsertSigningChain.key (upsertPlanReferences plan db).signingChains k).isSome with
  | false =>
    have hneither := hfound
    rw [find_signingChains hwf h, Bool.or_eq_false_iff] at hneither
    have hlookup : b.signingChains.lookup k = none := by simpa using hneither.1
    have hold : find upsertSigningChain.key db.signingChains k = none := by simpa using hneither.2
    have hnone : find upsertSigningChain.key (upsertPlanReferences plan db).signingChains k = none := by
      simpa using hfound
    rw [hlookup, hnone]
    change none = Option.bind (find upsertSigningChain.key db.signingChains k) _
    rw [hold]
    rfl
  | true =>
    rw [find_idOf hfound, Option.bind_some, ← storedEntries hwf plan hfound]
    change Option.map _ (plan.signingChains.foldl _ db.signingChainEntries _ n) = _
    rw [linkChains_eq plan.signingChains (nodup_chainIDs hwf h), find_chain hwf h hfound, Option.map_or]
    congr 1
    cases hlookup : b.signingChains.lookup k with
    | none => rfl
    | some chain =>
      rw [Option.bind_some, Option.bind_some, Option.map_map]
      cases hentry : chain.entries[n]? with
      | none => rfl
      | some entry =>
        have hmem : entry ∈ chain.entries := List.mem_of_getElem? hentry
        exact congrArg some (keyOf_idOf (certificate_of_chain hwf h hlookup hmem))

theorem completion_completion (now : Int) (links : Finset (Int × Int)) (id : Int) (a : Bundle) :
    completion now links id (completion now links id a) = completion now links id a := by
  simp only [completion]
  split_ifs <;> rfl

theorem toBundleWrite_completion (now : Int) (links : Finset (Int × Int)) (id : Int) (a : Bundle) :
    (completion now links id a).toBundleWrite = a.toBundleWrite := rfl

theorem isSome_completion (now : Int) (links : Finset (Int × Int)) (id : Int) (a : Bundle) :
    (completion now links id a).uploadedAt.isSome =
      decide (0 < a.binaryCount ∧ a.binaryCount ≤ (links.filter (fun link => link.1 = id)).card) := by
  by_cases hcomplete : 0 < a.binaryCount ∧ a.binaryCount ≤ (links.filter (fun link => link.1 = id)).card
  · simp only [completion, hcomplete]
    rfl
  · simp only [completion, hcomplete]
    rfl

theorem found_bundle (hwf : db.Wf) (h : Planned hash upload plan b) {w : BundleWrite} (hw : w ∈ plan.bundles) :
    (find upsertBundle.key (upsertPlanReferences plan db).bundles w.sha256).isSome = true := by
  rw [h.bundles] at hw
  obtain ⟨k, hlookup⟩ := mem_sortedMapValues.mp hw
  rw [find_bundles hwf h, h.built.bundle_key k w hlookup, Option.isSome_of_eq_some hlookup]
  rfl

/-- The completion looks at the bundles of the plan. -/
theorem mem_bundleIDs (hwf : db.Wf) (h : Planned hash upload plan b) {k : String} {id : Int}
    (hfind : find upsertBundle.key (upsertPlanReferences plan db).bundles k = some id) :
    id ∈ plan.bundles.map (fun w => idOf upsertBundle.key (upsertPlanReferences plan db).bundles w.sha256) ↔
      (b.bundles.lookup k).isSome = true := by
  have hfound := Option.isSome_of_eq_some hfind
  rw [List.mem_map]
  constructor
  · rintro ⟨w, hw, hid⟩
    have hname : w.sha256 = k := eq_of_idOf (found_bundle hwf h hw) hfound (hid.trans (idOf_of_find hfind).symm)
    rw [h.bundles] at hw
    obtain ⟨k', hlookup⟩ := mem_sortedMapValues.mp hw
    obtain rfl := (h.built.bundle_key k' w hlookup).symm.trans hname
    exact Option.isSome_of_eq_some hlookup
  · intro hsome
    obtain ⟨w, hlookup⟩ := Option.isSome_iff_exists.mp hsome
    refine ⟨w, ?_, ?_⟩
    · rw [h.bundles]
      exact mem_sortedMapValues.mpr ⟨k, hlookup⟩
    · rw [h.built.bundle_key k w hlookup]
      exact idOf_of_find hfind

theorem bundlesTable_ingest : (ingestEventsTx now hostID plan events db).bundles =
    (plan.bundles.map (fun w => idOf upsertBundle.key (upsertPlanReferences plan db).bundles w.sha256)).foldl
      (fun t id => t.modify id
        (completion now (insertPlanRelationships plan (upsertPlanReferences plan db)).bundleExecutables id))
      (upsertPlanReferences plan db).bundles := by
  rw [List.foldl_map]
  rfl

theorem alike_bundles : Alike upsertBundle.key (ingestEventsTx now hostID plan events db).bundles
    (upsertPlanReferences plan db).bundles := by
  rw [bundlesTable_ingest]
  exact alike_modifyAll (f := completion now _) (fun _ _ => rfl) _

theorem under_ingest (hwf : db.Wf) (h : Planned hash upload plan b) (k : String) :
    under upsertBundle.key (ingestEventsTx now hostID plan events db).bundles k =
      if (b.bundles.lookup k).isSome = true then
        (find upsertBundle.key (upsertPlanReferences plan db).bundles k).bind (fun id =>
          ((upsertPlanReferences plan db).bundles.row id).map
            (completion now (insertPlanRelationships plan (upsertPlanReferences plan db)).bundleExecutables id))
      else under upsertBundle.key (upsertPlanReferences plan db).bundles k := by
  rw [bundlesTable_ingest, under_modifyAll (completion_completion now _) (fun _ _ => rfl)]
  cases hfind : find upsertBundle.key (upsertPlanReferences plan db).bundles k with
  | none =>
    rw [under_eq_none.mpr hfind]
    split_ifs <;> rfl
  | some id =>
    rw [Option.bind_some, Option.bind_some, under, hfind, Option.bind_some]
    simp only [mem_bundleIDs hwf h hfind]

theorem under_bundles (hwf : db.Wf) (h : Planned hash upload plan b) (k : String) :
    (under upsertBundle.key (upsertPlanReferences plan db).bundles k).map Bundle.toBundleWrite =
      (db.shared.apply b).bundles k := by
  have hunder := under_putAll_sorted (u := upsertBundle) hwf.bundles h.built.bundle_key k
  rw [← h.bundles] at hunder
  change (under upsertBundle.key (putAll upsertBundle db.bundles plan.bundles) k).map Bundle.toBundleWrite = _
  rw [hunder]
  simp only [Shared.apply, Database.shared]
  cases b.bundles.lookup k with
  | none => rfl
  | some w => cases under upsertBundle.key db.bundles k <;> rfl

theorem bundles_ingest (hwf : db.Wf) (h : Planned hash upload plan b) (k : String) :
    (ingestEventsTx now hostID plan events db).shared.bundles k = (db.shared.apply b).bundles k := by
  rw [← under_bundles hwf h]
  change (under upsertBundle.key (ingestEventsTx now hostID plan events db).bundles k).map _ = _
  rw [under_ingest hwf h, under]
  split_ifs
  · rw [Option.map_bind, Option.map_bind]
    simp only [Function.comp_def, Option.map_map, toBundleWrite_completion]
  · rfl

theorem links_rows (hwf : db.Wf) (h : Planned hash upload plan b) : ∀ link ∈
    (insertPlanRelationships plan (upsertPlanReferences plan db)).bundleExecutables,
      ((upsertPlanReferences plan db).bundles.row link.1).isSome = true ∧
        ((upsertPlanReferences plan db).executables.row link.2).isSome = true := by
  intro link hlink
  change link ∈ db.bundleExecutables ∪ _ at hlink
  rw [Finset.mem_union, List.mem_toFinset, List.mem_map] at hlink
  obtain hold | ⟨new, hnew, rfl⟩ := hlink
  · obtain ⟨hbundle, hexecutable⟩ := hwf.bundleExecutables link hold
    exact ⟨row_putAll hwf.bundles _ hbundle, row_putAll hwf.executables _ hexecutable⟩
  · obtain ⟨hbundle, hexecutable⟩ := bundle_of_link hwf h hnew
    exact ⟨row_idOf hbundle, row_idOf hexecutable⟩

theorem uploaded_ingest (hwf : db.Wf) (h : Planned hash upload plan b) (k : String) :
    (ingestEventsTx now hostID plan events db).shared.uploaded k = (db.shared.apply b).uploaded k := by
  change ((under upsertBundle.key (ingestEventsTx now hostID plan events db).bundles k).bind
    Bundle.uploadedAt).isSome = if (b.bundles.lookup k).isSome = true then
      complete (db.shared.apply b).bundles (db.shared.apply b).bundleExecutables k else db.shared.uploaded k
  rw [under_ingest hwf h]
  cases hlookup : b.bundles.lookup k with
  | none =>
    have hunder := under_putAll_sorted (u := upsertBundle) hwf.bundles h.built.bundle_key k
    rw [← h.bundles, hlookup] at hunder
    change ((under upsertBundle.key (putAll upsertBundle db.bundles plan.bundles) k).bind _).isSome = _
    rw [hunder]
    rfl
  | some w =>
    have hfound : (find upsertBundle.key (upsertPlanReferences plan db).bundles k).isSome = true := by
      rw [find_bundles hwf h, hlookup]
      rfl
    obtain ⟨id, hfind⟩ := Option.isSome_iff_exists.mp hfound
    obtain ⟨a, ha, -⟩ := find_spec hfind
    have hunder : under upsertBundle.key (upsertPlanReferences plan db).bundles k = some a := by
      rw [under, hfind]
      exact ha
    have hbundle := under_bundles hwf h k
    rw [hunder] at hbundle
    have hcard := card_links (distinct_putAll hwf.bundles plan.bundles)
      (distinct_putAll hwf.executables plan.executables) (fun _ => rfl) (fun _ => rfl) (links_rows hwf h) hfind
    rw [if_pos Option.isSome_some, if_pos Option.isSome_some, hfind, Option.bind_some, ha, Option.map_some,
      Option.bind_some, isSome_completion, complete, ← hbundle, ← bundleExecutables_ingest hwf h, Option.map_some,
      Option.any_some, ← hcard]
    rfl

/-- What an upload does to the shared rows. -/
theorem shared_ingest (hwf : db.Wf) (h : Planned hash upload plan b) :
    (ingestEventsTx now hostID plan events db).shared = db.shared.apply b := by
  apply Shared.ext
  case executables => exact funext (executables_ingest hwf h)
  case signingChains => exact funext (signingChains_ingest hwf h)
  case certificates => exact funext (certificates_ingest hwf h)
  case bundles => exact funext (bundles_ingest hwf h)
  case uploaded => exact funext (uploaded_ingest hwf h)
  case signingChainEntries => exact funext (fun k => funext (signingChainEntries_ingest hwf h k))
  case executableSigningChains => exact executableSigningChains_ingest hwf h
  case bundleExecutables =>
    rw [← bundleExecutables_ingest hwf h]
    have hkeys : keyOf upsertBundle.key (ingestEventsTx now hostID plan events db).bundles =
        keyOf upsertBundle.key (upsertPlanReferences plan db).bundles :=
      keyOf_alike alike_bundles
    change Finset.image (fun link : Int × Int => (keyOf upsertBundle.key
      (ingestEventsTx now hostID plan events db).bundles link.1, _)) _ = _
    rw [hkeys]
    rfl

theorem entries_ingest (hwf : db.Wf) (h : Planned hash upload plan b) (id : Int) (n : Nat) (c : Int)
    (hentry : (insertPlanRelationships plan (upsertPlanReferences plan db)).signingChainEntries id n = some c) :
    ((upsertPlanReferences plan db).signingChains.row id).isSome = true ∧
      ((upsertPlanReferences plan db).certificates.row c).isSome = true := by
  change plan.signingChains.foldl _ db.signingChainEntries id n = some c at hentry
  rw [linkChains_eq plan.signingChains (nodup_chainIDs hwf h), Option.or_eq_some_iff] at hentry
  obtain hnew | ⟨-, hold⟩ := hentry
  · obtain ⟨chain, hchain, hat⟩ := Option.bind_eq_some_iff.mp hnew
    obtain ⟨entry, hget, rfl⟩ := Option.map_eq_some_iff.mp hat
    have hmem := List.mem_of_find?_eq_some hchain
    have hid := List.find?_some hchain
    rw [decide_eq_true_eq] at hid
    rw [← hid]
    have hplanned := hmem
    rw [h.signingChains] at hplanned
    obtain ⟨k, hlookup⟩ := mem_sortedMapValues.mp hplanned
    exact ⟨row_idOf (found_chain hwf h hmem),
      row_idOf (certificate_of_chain hwf h hlookup (List.mem_of_getElem? hget))⟩
  · obtain ⟨hchain, hcertificate⟩ := hwf.entries id n c hold
    exact ⟨row_putAll hwf.signingChains _ hchain, row_putAll hwf.certificates _ hcertificate⟩

theorem executableSigningChains_rows (hwf : db.Wf) (h : Planned hash upload plan b) : ∀ link ∈
    (insertPlanRelationships plan (upsertPlanReferences plan db)).executableSigningChains,
      ((upsertPlanReferences plan db).executables.row link.1).isSome = true ∧
        ((upsertPlanReferences plan db).signingChains.row link.2).isSome = true := by
  intro link hlink
  change link ∈ db.executableSigningChains ∪ _ at hlink
  rw [Finset.mem_union, List.mem_toFinset, List.mem_map] at hlink
  obtain hold | ⟨new, hnew, rfl⟩ := hlink
  · obtain ⟨hexecutable, hchain⟩ := hwf.executableSigningChains link hold
    exact ⟨row_putAll hwf.executables _ hexecutable, row_putAll hwf.signingChains _ hchain⟩
  · obtain ⟨hexecutable, hchain⟩ := executable_of_link hwf h hnew
    exact ⟨row_idOf hexecutable, row_idOf hchain⟩

end

section

variable {hash : List String → String} {db : Database} {now hostID : Int} {events : Events} {plan : IngestPlan}
  {b : IngestPlanBuilder}

theorem found_executable (hwf : db.Wf) (h : Planned hash events.upload plan b) {event : ExecutionEvent}
    (hevent : event ∈ events.execution) :
    (find upsertExecutable.key (upsertPlanReferences plan db).executables event.fileSHA256).isSome = true := by
  have hmem : event.toExecutionEventInput ∈ events.upload.executionEvents := List.mem_map_of_mem hevent
  rw [find_executables hwf h,
    AList.lookup_isSome.mpr ((h.built.executables event.fileSHA256).mpr ⟨_, hmem, rfl⟩)]
  rfl

/-- An upload keeps the constraints. -/
theorem wf_ingest (hwf : db.Wf) (h : Planned hash events.upload plan b) :
    (ingestEventsTx now hostID plan events db).Wf where
  executables := distinct_putAll hwf.executables _
  signingChains := distinct_putAll hwf.signingChains _
  certificates := distinct_putAll hwf.certificates _
  bundles := distinct_alike alike_bundles (distinct_putAll hwf.bundles _)
  entries := entries_ingest hwf h
  executableSigningChains := executableSigningChains_rows hwf h
  bundleExecutables := by
    intro link hlink
    obtain ⟨hbundle, hexecutable⟩ := links_rows hwf h link hlink
    exact ⟨(alike_bundles.isSome link.1).trans hbundle, hexecutable⟩
  executionEvents := by
    intro row hrow
    change row ∈ db.executionEvents ++ _ at hrow
    rw [List.mem_append, List.mem_map] at hrow
    obtain hold | ⟨event, hevent, rfl⟩ := hrow
    · exact row_putAll hwf.executables _ (hwf.executionEvents row hold)
    · exact row_idOf (found_executable hwf h (List.mem_of_mem_filter hevent))

theorem keyed_shared (hwf : db.Wf) : db.shared.Keyed := by
  intro k w hw
  obtain ⟨a, ha, rfl⟩ := Option.map_eq_some_iff.mp hw
  obtain ⟨id, -, hkey⟩ := (under_eq_some hwf.bundles).mp ha
  exact Option.some.inj hkey

/-- All events of an upload in a row. -/
def View.record (hash : List String → String) (hostID : Int) (v : View) (events : Events) : View where
  shared := events.upload.executionEvents.foldl (Shared.absorb hash) v.shared
  executionEvents := v.executionEvents ++ (executionRows events.execution).map (fun event =>
    (event.fileSHA256, insertExecutionEvent hostID 0 event))
  fileAccessEvents := v.fileAccessEvents ++ events.fileAccess.map (insertFileAccessEvent hostID)
  standaloneEvents := v.standaloneEvents ++ events.standalone.map (insertStandaloneRuleCreationEvent hostID)

theorem view_ingest (hwf : db.Wf) (hfree : CollisionFree hash events.upload.executionEvents) :
    (ingestEventsTx now hostID (newIngestPlan hash events.upload) events db).view =
      db.view.record hash hostID events := by
  have h := planned hash events.upload
  apply View.ext
  case shared =>
    change (ingestEventsTx now hostID (newIngestPlan hash events.upload) events db).shared = _
    rw [shared_ingest hwf h]
    exact apply_buildPlan hfree (keyed_shared hwf)
  case executionEvents =>
    change List.map _ (db.executionEvents ++ _) = _
    rw [List.map_append, List.map_map]
    apply congrArg₂ (· ++ ·)
    · apply List.map_congr_left
      intro row hrow
      exact congrArg (·, _) (keyOf_putAll hwf.executables _ (hwf.executionEvents row hrow))
    · apply List.map_congr_left
      intro event hevent
      exact congrArg (·, _) (keyOf_idOf (found_executable hwf h (List.mem_of_mem_filter hevent)))
  case fileAccessEvents => rfl
  case standaloneEvents => rfl

theorem record_append (v : View) (xs ys : Events) :
    v.record hash hostID (xs.append ys) = (v.record hash hostID xs).record hash hostID ys := by
  simp only [View.record, Events.append, Events.upload, executionRows, List.map_append, List.foldl_append,
    List.filter_append, List.append_assoc]

theorem record_nil (v : View) : v.record hash hostID {} = v := by
  simp [View.record, Events.upload, executionRows]

end

end SantaIngestion
