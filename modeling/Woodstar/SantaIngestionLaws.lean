import Woodstar.SantaSharedRows

/-!
# Division of Santa events into uploads

Valid events leave the same rows however they are divided into uploads.
-/
namespace SantaIngestion

open KeyedUpserts (isDistinct_iff)
open Primitives (btrimNotEmpty isText)
open SantaUploads

/-- The event passes the validation and each of its rows the constraints. -/
def validExecutionEvent (object : List UInt8 → Bool) (event : ExecutionEvent) : Bool :=
  (event.decision == .bundleBinary || event.occurredAt.isSome && storableExecutionEvent event) &&
    storableExecutable object (executableWriteFromEvent event.toExecutionEventInput) &&
    (signingChainEntries event.signingChain).all storableCertificate &&
    (event.bundleHash == "" || storableBundle (({} : BundleWrite).merge event.toExecutionEventInput))

def validFileAccessEvent (event : FileAccessEvent) : Bool :=
  event.occurredAt.isSome && storableFileAccessEvent event

def validStandaloneEvent (event : StandaloneRuleCreationEventInput) : Bool :=
  event.decision != .unknown && event.occurredAt.isSome && Primitives.notBlank event.identifier &&
    storableStandaloneEvent event

def Events.valid (object : List UInt8 → Bool) (events : Events) : Bool :=
  events.execution.all (validExecutionEvent object) && events.fileAccess.all validFileAccessEvent &&
    events.standalone.all validStandaloneEvent

section

variable {hash : List String → String} {object : List UInt8 → Bool} {hosts : Finset Int} {hostID : Int}
  {events : Events}

theorem valid_append (xs ys : Events) :
    (xs.append ys).valid object = (xs.valid object && ys.valid object) := by
  simp only [Events.valid, Events.append, List.all_append]
  ac_rfl

theorem validateEventInputs_of_valid (hvalid : events.valid object = true) :
    validateEventInputs events.upload = true := by
  simp only [Events.valid, Bool.and_eq_true, List.all_eq_true] at hvalid
  obtain ⟨⟨hexecution, hfile⟩, hstandalone⟩ := hvalid
  simp only [validateEventInputs, Events.upload, List.all_map, Bool.and_eq_true, List.all_eq_true]
  refine ⟨⟨?_, ?_⟩, ?_⟩
  · intro event hevent
    have hone := hexecution event hevent
    simp only [validExecutionEvent, Bool.and_eq_true, Bool.or_eq_true] at hone
    simp only [Function.comp_apply, Bool.or_eq_true]
    exact hone.1.1.1.imp id (fun h => h.1)
  · intro event hevent
    have hone := hfile event hevent
    rw [validFileAccessEvent, Bool.and_eq_true] at hone
    exact hone.1
  · intro event hevent
    have hone := hstandalone event hevent
    simp only [validStandaloneEvent, storableStandaloneEvent, Bool.and_eq_true] at hone
    refine ⟨⟨⟨hone.1.2, hone.1.1.1⟩, ?_⟩, hone.1.1.2⟩
    have hknown := hone.2.1.2
    cases hdecision : event.decision with
    | other value =>
      rw [hdecision] at hknown
      cases hknown
    | _ => rfl

theorem executables_buildPlan (hash : List String → String) (events : List ExecutionEventInput) (k : String) :
    (buildPlan hash events).executables.lookup k =
      (events.reverse.find? (fun e => decide (e.fileSHA256 = k))).map executableWriteFromEvent := by
  induction events using List.reverseRecOn with
  | nil => rfl
  | append_singleton events event ih =>
    rw [buildPlan, List.foldl_append, List.foldl_cons, List.foldl_nil, executables_add, List.reverse_append,
      List.reverse_singleton, List.singleton_append, List.find?_cons]
    by_cases hk : k = event.fileSHA256
    · rw [hk, AList.lookup_insert]
      simp
    · rw [AList.lookup_insert_ne hk, decide_eq_false (Ne.symm hk)]
      exact ih

/-- The certificates of the chains, in the order in which they come. -/
def certificatesOf (events : List ExecutionEventInput) : List CertificateInput :=
  events.flatMap (fun e => signingChainEntries e.signingChain)

theorem certificates_buildPlan (hash : List String → String) (events : List ExecutionEventInput) (k : String) :
    (buildPlan hash events).certificates.lookup k =
      (certificatesOf events).reverse.find? (fun entry => decide (entry.sha256 = k)) := by
  induction events using List.reverseRecOn with
  | nil => rfl
  | append_singleton events event ih =>
    rw [buildPlan, List.foldl_append, List.foldl_cons, List.foldl_nil, certificates_add, lookup_addCertificates_eq,
      certificatesOf, List.flatMap_append, List.reverse_append, List.find?_append]
    congr 1
    rw [List.flatMap_singleton]

theorem chains_buildPlan (hash : List String → String) (events : List ExecutionEventInput) (k : String) :
    (buildPlan hash events).signingChains.lookup k =
      (events.reverse.find? (fun e => decide (chainOf hash e = some k))).map
        (fun e => ⟨k, signingChainEntries e.signingChain⟩) := by
  induction events using List.reverseRecOn with
  | nil => rfl
  | append_singleton events event ih =>
    rw [buildPlan, List.foldl_append, List.foldl_cons, List.foldl_nil, signingChains_add, List.reverse_append,
      List.reverse_singleton, List.singleton_append, List.find?_cons]
    cases hchain : chainOf hash event with
    | none => exact ih
    | some k' =>
      by_cases hk : k = k'
      · subst hk
        simp
      · have hother : ¬ some k' = some k := fun heq => hk (Option.some.inj heq).symm
        rw [AList.lookup_insert_ne hk, decide_eq_false hother]
        exact ih

/-- The events that name a bundle. -/
def naming (events : List ExecutionEventInput) (k : String) : List ExecutionEventInput :=
  events.filter (fun e => decide (e.bundleHash = k))

theorem bundles_buildPlan (hash : List String → String) (events : List ExecutionEventInput) {k : String}
    (hk : k ≠ "") : (buildPlan hash events).bundles.lookup k =
      if naming events k = [] then none else some ((naming events k).foldl BundleWrite.merge {}) := by
  induction events using List.reverseRecOn with
  | nil => rfl
  | append_singleton events event ih =>
    rw [buildPlan, List.foldl_append, List.foldl_cons, List.foldl_nil, bundles_add, naming, List.filter_append]
    change (if event.bundleHash = "" then (buildPlan hash events).bundles
      else (buildPlan hash events).bundles.insert event.bundleHash _).lookup k = _
    by_cases hname : event.bundleHash = k
    · subst hname
      rw [if_neg hk, AList.lookup_insert]
      change some ((((buildPlan hash events).bundles.lookup event.bundleHash).getD {}).merge event) = _
      rw [ih]
      by_cases hnone : naming events event.bundleHash = []
      · have hfilter : events.filter (fun e => decide (e.bundleHash = event.bundleHash)) = [] := hnone
        simp [hnone, hfilter]
      · rw [if_neg hnone]
        simp only [naming] at hnone ⊢
        simp [hnone]
    · have hfilter : [event].filter (fun e => decide (e.bundleHash = k)) = [] := by simp [hname]
      rw [hfilter, List.append_nil]
      by_cases hblank : event.bundleHash = ""
      · rw [if_pos hblank]
        exact ih
      · rw [if_neg hblank]
        exact (AList.lookup_insert_ne (Ne.symm hname)).trans ih

theorem isText_merge {x y : String} (hx : isText (if x ≠ "" then x else "") = true) (hy : isText y = true) :
    isText (if x ≠ "" then x else y) = true := by
  split_ifs at hx ⊢
  · exact hx
  · exact hy

theorem storableBundle_merge {w : BundleWrite} {event : ExecutionEventInput} (hw : storableBundle w = true)
    (hevent : storableBundle (({} : BundleWrite).merge event) = true) : storableBundle (w.merge event) = true := by
  simp only [storableBundle, BundleWrite.merge, Bool.and_eq_true] at hw hevent ⊢
  obtain ⟨⟨⟨⟨⟨⟨⟨-, -⟩, h1⟩, h2⟩, h3⟩, h4⟩, h5⟩, h6⟩ := hw
  obtain ⟨⟨⟨⟨⟨⟨⟨hblank, htext⟩, g1⟩, g2⟩, g3⟩, g4⟩, g5⟩, g6⟩ := hevent
  exact ⟨⟨⟨⟨⟨⟨⟨hblank, htext⟩, isText_merge g1 h1⟩, isText_merge g2 h2⟩, isText_merge g3 h3⟩,
    isText_merge g4 h4⟩, isText_merge g5 h5⟩, isText_merge g6 h6⟩

theorem storable_merges {events : List ExecutionEventInput}
    (h : ∀ e ∈ events, storableBundle (({} : BundleWrite).merge e) = true) (hsome : events ≠ []) :
    storableBundle (events.foldl BundleWrite.merge {}) = true := by
  induction events using List.reverseRecOn with
  | nil => exact absurd rfl hsome
  | append_singleton events event ih =>
    rw [List.foldl_append, List.foldl_cons, List.foldl_nil]
    have hlast := h event (by simp)
    by_cases hnone : events = []
    · rw [hnone]
      exact hlast
    · exact storableBundle_merge (ih (fun e he => h e (by simp [he])) hnone) hlast

/-- What valid events plan can be stored. -/
theorem storable_of_valid (hhash : ∀ fields, btrimNotEmpty (hash fields) = true) (hhost : hostID ∈ hosts)
    (hvalid : events.valid object = true) :
    storable object hosts hostID (newIngestPlan hash events.upload) events = true := by
  have h := planned hash events.upload
  simp only [Events.valid, Bool.and_eq_true, List.all_eq_true] at hvalid
  obtain ⟨⟨hexecution, hfile⟩, hstandalone⟩ := hvalid
  have hinput (e : ExecutionEventInput) (he : e ∈ events.upload.executionEvents) :
      storableExecutable object (executableWriteFromEvent e) = true ∧
        (∀ entry ∈ signingChainEntries e.signingChain, storableCertificate entry = true) ∧
        (e.bundleHash ≠ "" → storableBundle (({} : BundleWrite).merge e) = true) := by
    obtain ⟨event, hevent, rfl⟩ := List.mem_map.mp he
    have hone := hexecution event hevent
    simp only [validExecutionEvent, Bool.and_eq_true, Bool.or_eq_true, beq_iff_eq, List.all_eq_true] at hone
    exact ⟨hone.1.1.2, hone.1.2, fun hnamed => hone.2.resolve_left hnamed⟩
  simp only [storable, Bool.and_eq_true, List.all_eq_true, Bool.or_eq_true, decide_eq_true_eq]
  refine ⟨⟨⟨⟨⟨⟨⟨?_, ?_⟩, ?_⟩, ?_⟩, ?_⟩, ?_⟩, ?_⟩, .inl hhost⟩
  · intro w hw
    rw [h.executables] at hw
    obtain ⟨k, hlookup⟩ := mem_sortedMapValues.mp hw
    rw [executables_buildPlan, Option.mem_def, Option.map_eq_some_iff] at hlookup
    obtain ⟨e, he, rfl⟩ := hlookup
    exact (hinput e (List.mem_reverse.mp (List.mem_of_find?_eq_some he))).1
  · intro chain hchain
    rw [h.signingChains] at hchain
    obtain ⟨k, hlookup⟩ := mem_sortedMapValues.mp hchain
    obtain ⟨e, -, hname, -⟩ := h.built.chain_entries k chain hlookup
    rw [h.built.chain_key k chain hlookup]
    rw [chainOf] at hname
    split_ifs at hname
    rw [← Option.some.inj hname]
    exact hhash _
  · intro entry hentry
    rw [h.certificates] at hentry
    obtain ⟨k, hlookup⟩ := mem_sortedMapValues.mp hentry
    rw [certificates_buildPlan] at hlookup
    have hmem := List.mem_reverse.mp (List.mem_of_find?_eq_some hlookup)
    obtain ⟨e, he, hcertificate⟩ := List.mem_flatMap.mp hmem
    exact (hinput e he).2.1 entry hcertificate
  · intro w hw
    rw [h.bundles] at hw
    obtain ⟨k, hlookup⟩ := mem_sortedMapValues.mp hw
    obtain ⟨e, -, hnamed, rfl⟩ := (h.built.bundles k).mp (AList.lookup_isSome.mp (Option.isSome_of_mem hlookup))
    rw [bundles_buildPlan _ _ hnamed] at hlookup
    split_ifs at hlookup with hnone
    · cases hlookup
    · rw [← Option.some.inj hlookup]
      apply storable_merges _ hnone
      intro e' he'
      obtain ⟨hmem, hname⟩ := List.mem_filter.mp he'
      exact (hinput e' hmem).2.2 (of_decide_eq_true hname ▸ hnamed)
  · intro event hevent
    obtain ⟨hmem, hdecision⟩ := List.mem_filter.mp hevent
    have hone := hexecution event hmem
    simp only [validExecutionEvent, Bool.and_eq_true, Bool.or_eq_true, beq_iff_eq] at hone
    exact (hone.1.1.1.resolve_left (by simpa using hdecision)).2
  · intro event hevent
    have hone := hfile event hevent
    rw [validFileAccessEvent, Bool.and_eq_true] at hone
    exact hone.2
  · intro event hevent
    have hone := hstandalone event hevent
    simp only [validStandaloneEvent, Bool.and_eq_true] at hone
    exact hone.2

end

section

variable {hash : List String → String} {object : List UInt8 → Bool} {hostID : Int} {events : Events} {db : Database}

/-- A valid upload is written, and leaves what its events leave. -/
theorem ingestEvents_ok (hhash : ∀ fields, btrimNotEmpty (hash fields) = true) (hwf : db.Wf)
    (hhost : hostID ∈ db.hosts) (hvalid : events.valid object = true)
    (hfree : CollisionFree hash events.upload.executionEvents) (now : Int) :
    ∃ db', ingestEvents hash object hostID now events db = .ok db' ∧ db'.Wf ∧ db'.hosts = db.hosts ∧
      db'.view = db.view.record hash hostID events := by
  by_cases hempty : events.execution = [] ∧ events.fileAccess = [] ∧ events.standalone = []
  · refine ⟨db, if_pos hempty, hwf, rfl, ?_⟩
    obtain ⟨hexecution, hfile, hstandalone⟩ := hempty
    simp [View.record, Events.upload, executionRows, hexecution, hfile, hstandalone]
  · have hok : ingestEvents hash object hostID now events db =
        .ok (ingestEventsTx now hostID (newIngestPlan hash events.upload) events db) := by
      rw [ingestEvents, if_neg hempty, if_neg (by simp [validateEventInputs_of_valid hvalid])]
      exact if_neg (by simp [storable_of_valid hhash hhost hvalid])
    exact ⟨_, hok, wf_ingest hwf (planned hash events.upload), rfl, view_ingest hwf hfree⟩

/-- All events of some uploads. -/
def concat (parts : List Events) : Events := parts.foldr Events.append {}

theorem ingestParts_ok (hhash : ∀ fields, btrimNotEmpty (hash fields) = true) (hwf : db.Wf)
    (hhost : hostID ∈ db.hosts) (parts : List (Int × Events))
    (hvalid : (concat (parts.map Prod.snd)).valid object = true)
    (hfree : CollisionFree hash (concat (parts.map Prod.snd)).upload.executionEvents) :
    ∃ db', parts.foldlM (fun db part => ingestEvents hash object hostID part.1 part.2 db) db = .ok db' ∧
      db'.view = db.view.record hash hostID (concat (parts.map Prod.snd)) := by
  induction parts generalizing db with
  | nil => exact ⟨db, rfl, (record_nil db.view).symm⟩
  | cons part parts ih =>
    change ((part.2.append (concat (parts.map Prod.snd))).valid object) = true at hvalid
    change CollisionFree hash (part.2.append (concat (parts.map Prod.snd))).upload.executionEvents at hfree
    rw [valid_append, Bool.and_eq_true] at hvalid
    have hsplit : (part.2.append (concat (parts.map Prod.snd))).upload.executionEvents =
        part.2.upload.executionEvents ++ (concat (parts.map Prod.snd)).upload.executionEvents := List.map_append
    rw [hsplit] at hfree
    obtain ⟨first, hfirst, hwf', hhosts, hview⟩ := ingestEvents_ok hhash hwf hhost hvalid.1
      (collisionFree_of_subset hfree (fun e he => List.mem_append_left _ he)) part.1
    obtain ⟨last, hlast, hview'⟩ := ih hwf' (hhosts ▸ hhost) hvalid.2
      (collisionFree_of_subset hfree (fun e he => List.mem_append_right _ he))
    refine ⟨last, ?_, ?_⟩
    · rw [List.foldlM_cons, hfirst]
      exact hlast
    · rw [hview', hview, ← record_append]
      rfl

end

def lastWhere {α : Type} (p : α → Bool) (values : List α) (stored : α) : α :=
  (values.reverse.find? p).getD stored

/-- Each field has its last value that is not empty, the stored one if there is none. -/
structure Merged (events : List ExecutionEventInput) (stored w : BundleWrite) : Prop where
  bundleID : w.bundleID = lastWhere (· != "") (events.map ExecutionEventInput.bundleID) stored.bundleID
  name : w.name = lastWhere (· != "") (events.map ExecutionEventInput.bundleName) stored.name
  path : w.path = lastWhere (· != "") (events.map ExecutionEventInput.bundlePath) stored.path
  executableRelPath : w.executableRelPath =
    lastWhere (· != "") (events.map ExecutionEventInput.bundleExecutableRelPath) stored.executableRelPath
  version : w.version = lastWhere (· != "") (events.map ExecutionEventInput.bundleVersion) stored.version
  versionString : w.versionString =
    lastWhere (· != "") (events.map ExecutionEventInput.bundleVersionString) stored.versionString
  binaryCount : w.binaryCount =
    lastWhere (fun n => decide (0 < n)) (events.map ExecutionEventInput.bundleBinaryCount) stored.binaryCount
  hashMillis : w.hashMillis =
    lastWhere (fun n => decide (0 < n)) (events.map ExecutionEventInput.bundleHashMillis) stored.hashMillis

/-- As many executables are linked as the bundle has. -/
def Complete (s : Shared) (k : String) : Prop :=
  ∃ w, s.bundles k = some w ∧ 0 < w.binaryCount ∧
    w.binaryCount ≤ (s.bundleExecutables.filter (fun link => link.1 = k)).card

/-- The rows after some events, from the rows before. -/
structure Written (hash : List String → String) (hostID : Int) (before : View) (events : Events) (after : View) :
    Prop where
  executables : ∀ k, after.shared.executables k =
    ((events.upload.executionEvents.reverse.find? (fun e => decide (e.fileSHA256 = k))).map
      executableWriteFromEvent).or (before.shared.executables k)
  certificates : ∀ k, after.shared.certificates k =
    (((certificatesOf events.upload.executionEvents).reverse.find? (fun entry => decide (entry.sha256 = k))).map
      certificateRow).or (before.shared.certificates k)
  signingChains : ∀ k, after.shared.signingChains k = true ↔
    before.shared.signingChains k = true ∨ ∃ e ∈ events.upload.executionEvents, chainOf hash e = some k
  signingChainEntries : ∀ k n, after.shared.signingChainEntries k n =
    ((events.upload.executionEvents.reverse.find? (fun e => decide (chainOf hash e = some k))).bind
      (fun e => (signingChainEntries e.signingChain)[n]?.map CertificateInput.sha256)).or
        (before.shared.signingChainEntries k n)
  executableSigningChains : ∀ file k, (file, k) ∈ after.shared.executableSigningChains ↔
    (file, k) ∈ before.shared.executableSigningChains ∨
      ∃ e ∈ events.upload.executionEvents, e.fileSHA256 = file ∧ chainOf hash e = some k
  bundleExecutables : ∀ k file, (k, file) ∈ after.shared.bundleExecutables ↔
    (k, file) ∈ before.shared.bundleExecutables ∨
      ∃ e ∈ events.upload.executionEvents, e.bundleHash ≠ "" ∧ e.bundleHash = k ∧ e.fileSHA256 = file
  bundles : ∀ e ∈ events.upload.executionEvents, e.bundleHash ≠ "" →
    ∃ w, after.shared.bundles e.bundleHash = some w ∧ w.sha256 = e.bundleHash ∧
      Merged (naming events.upload.executionEvents e.bundleHash) ((before.shared.bundles e.bundleHash).getD {}) w
  uploaded : ∀ e ∈ events.upload.executionEvents, e.bundleHash ≠ "" →
    (after.shared.uploaded e.bundleHash = true ↔ Complete after.shared e.bundleHash)
  otherBundles : ∀ k, (∀ e ∈ events.upload.executionEvents, e.bundleHash ≠ "" → e.bundleHash ≠ k) →
    after.shared.bundles k = before.shared.bundles k ∧ after.shared.uploaded k = before.shared.uploaded k
  allUploaded : (∀ k, before.shared.uploaded k = true ↔ Complete before.shared k) →
    ∀ k, after.shared.uploaded k = true ↔ Complete after.shared k
  executionEvents : after.executionEvents = before.executionEvents ++
    (executionRows events.execution).map (fun e => (e.fileSHA256, insertExecutionEvent hostID 0 e))
  fileAccessEvents : after.fileAccessEvents =
    before.fileAccessEvents ++ events.fileAccess.map (insertFileAccessEvent hostID)
  standaloneEvents : after.standaloneEvents =
    before.standaloneEvents ++ events.standalone.map (insertStandaloneRuleCreationEvent hostID)

section

variable {hash : List String → String} {hostID : Int} {s : Shared} {events : List ExecutionEventInput} {k : String}

theorem lastWhere_append {α : Type} (p : α → Bool) (values : List α) (a stored : α) :
    lastWhere p (values ++ [a]) stored = if p a = true then a else lastWhere p values stored := by
  rw [lastWhere, List.reverse_append, List.reverse_singleton, List.singleton_append, List.find?_cons]
  cases p a <;> rfl

theorem merged_foldl (events : List ExecutionEventInput) (stored : BundleWrite) :
    Merged events stored (events.foldl BundleWrite.merge stored) := by
  induction events using List.reverseRecOn with
  | nil => exact ⟨rfl, rfl, rfl, rfl, rfl, rfl, rfl, rfl⟩
  | append_singleton events event ih =>
    rw [List.foldl_append, List.foldl_cons, List.foldl_nil]
    constructor
    all_goals
      rw [List.map_append, List.map_singleton, lastWhere_append]
    case bundleID => simp [BundleWrite.merge, ih.bundleID]
    case name => simp [BundleWrite.merge, ih.name]
    case path => simp [BundleWrite.merge, ih.path]
    case executableRelPath => simp [BundleWrite.merge, ih.executableRelPath]
    case version => simp [BundleWrite.merge, ih.version]
    case versionString => simp [BundleWrite.merge, ih.versionString]
    case binaryCount => simp [BundleWrite.merge, ih.binaryCount]
    case hashMillis => simp [BundleWrite.merge, ih.hashMillis]

theorem sha256_foldl (hsome : events ≠ []) (h : ∀ e ∈ events, e.bundleHash = k) (stored : BundleWrite) :
    (events.foldl BundleWrite.merge stored).sha256 = k := by
  cases events using List.reverseRecOn with
  | nil => exact absurd rfl hsome
  | append_singleton events event =>
    rw [List.foldl_append, List.foldl_cons, List.foldl_nil]
    exact h event (by simp)

theorem bundles_absorb (hk : k ≠ "") : (events.foldl (Shared.absorb hash) s).bundles k =
    if naming events k = [] then s.bundles k
    else some ((naming events k).foldl BundleWrite.merge ((s.bundles k).getD {})) := by
  induction events using List.reverseRecOn with
  | nil => rfl
  | append_singleton events event ih =>
    rw [List.foldl_append, List.foldl_cons, List.foldl_nil, naming, List.filter_append]
    by_cases hname : event.bundleHash = k
    · subst hname
      simp only [Shared.absorb, if_neg hk, Function.update_self]
      rw [ih]
      by_cases hnone : naming events event.bundleHash = []
      · have hfilter : events.filter (fun e => decide (e.bundleHash = event.bundleHash)) = [] := hnone
        simp [hnone, hfilter]
      · rw [if_neg hnone]
        simp only [naming] at hnone ⊢
        simp [hnone]
    · have hfilter : [event].filter (fun e => decide (e.bundleHash = k)) = [] := by simp [hname]
      rw [hfilter, List.append_nil]
      by_cases hblank : event.bundleHash = ""
      · simp only [Shared.absorb, if_pos hblank]
        exact ih
      · simp only [Shared.absorb, if_neg hblank, Function.update_of_ne (Ne.symm hname)]
        exact ih

theorem naming_ne_nil {e : ExecutionEventInput} (he : e ∈ events) : naming events e.bundleHash ≠ [] :=
  List.ne_nil_of_mem (List.mem_filter.mpr ⟨he, decide_eq_true rfl⟩)

theorem complete_iff : complete s.bundles s.bundleExecutables k = true ↔ Complete s k := by
  rw [complete, Option.any_eq_true]
  simp only [Complete, decide_eq_true_eq]

theorem uploaded_absorb (k : String) : (events.foldl (Shared.absorb hash) s).uploaded k =
    if k ≠ "" ∧ naming events k ≠ [] then
      complete (events.foldl (Shared.absorb hash) s).bundles (events.foldl (Shared.absorb hash) s).bundleExecutables k
    else s.uploaded k := by
  induction events using List.reverseRecOn with
  | nil => simp [naming]
  | append_singleton events event ih =>
    rw [List.foldl_append, List.foldl_cons, List.foldl_nil, naming, List.filter_append]
    by_cases hblank : event.bundleHash = ""
    · have hsame : k ≠ "" → [event].filter (fun e => decide (e.bundleHash = k)) = [] := by
        intro hk
        simp [hblank, Ne.symm hk]
      simp only [Shared.absorb, if_pos hblank]
      rw [ih]
      by_cases hk : k = ""
      · rw [if_neg (fun h => h.1 hk), if_neg (fun h => h.1 hk)]
      · rw [hsame hk, List.append_nil]
        rfl
    · by_cases hname : k = event.bundleHash
      · subst hname
        have hsome : naming events event.bundleHash ++
            [event].filter (fun e => decide (e.bundleHash = event.bundleHash)) ≠ [] := by simp
        rw [if_pos ⟨hblank, hsome⟩]
        simp only [Shared.absorb, if_neg hblank, Function.update_self]
      · have hnone : [event].filter (fun e => decide (e.bundleHash = k)) = [] := by simp [Ne.symm hname]
        have hsame : complete ((events.foldl (Shared.absorb hash) s).absorb hash event).bundles
            ((events.foldl (Shared.absorb hash) s).absorb hash event).bundleExecutables k =
            complete (events.foldl (Shared.absorb hash) s).bundles
              (events.foldl (Shared.absorb hash) s).bundleExecutables k := by
          simp only [Shared.absorb, if_neg hblank]
          apply complete_congr
          · exact Function.update_of_ne hname _ _
          · rw [Finset.filter_insert, if_neg (Ne.symm hname)]
        rw [hsame, hnone, List.append_nil]
        simp only [Shared.absorb, if_neg hblank, Function.update_of_ne hname]
        exact ih

theorem mem_bundleExecutables_absorb (k file : String) :
    (k, file) ∈ (events.foldl (Shared.absorb hash) s).bundleExecutables ↔
      (k, file) ∈ s.bundleExecutables ∨
        ∃ e ∈ events, e.bundleHash ≠ "" ∧ e.bundleHash = k ∧ e.fileSHA256 = file := by
  induction events using List.reverseRecOn with
  | nil => simp
  | append_singleton events event ih =>
    rw [List.foldl_append, List.foldl_cons, List.foldl_nil, exists_append_singleton, ← or_assoc, ← ih]
    by_cases hblank : event.bundleHash = ""
    · simp [Shared.absorb, hblank]
    · simp only [Shared.absorb, if_neg hblank, Finset.mem_insert, Prod.mk.injEq]
      rw [or_comm, eq_comm (a := k), eq_comm (a := file)]
      simp [hblank]

theorem filter_links_absorb (h : ∀ e ∈ events, e.bundleHash ≠ "" → e.bundleHash ≠ k) :
    (events.foldl (Shared.absorb hash) s).bundleExecutables.filter (fun link => link.1 = k) =
      s.bundleExecutables.filter (fun link => link.1 = k) := by
  ext ⟨bundle, file⟩
  simp only [Finset.mem_filter, mem_bundleExecutables_absorb]
  constructor
  · rintro ⟨hold | ⟨e, he, hnamed, rfl, -⟩, rfl⟩
    · exact ⟨hold, rfl⟩
    · exact absurd rfl (h e he hnamed)
  · exact fun hold => ⟨.inl hold.1, hold.2⟩

end

section

variable {hash : List String → String} {hostID : Int} {before : View} {events : Events}

theorem other_bundles {s : Shared} {events : List ExecutionEventInput} {k : String} (hfree : CollisionFree hash events)
    (hkeyed : s.Keyed) (h : ∀ e ∈ events, e.bundleHash ≠ "" → e.bundleHash ≠ k) :
    (events.foldl (Shared.absorb hash) s).bundles k = s.bundles k ∧
      (events.foldl (Shared.absorb hash) s).uploaded k = s.uploaded k := by
  rw [uploaded_absorb]
  by_cases hk : k = ""
  · subst hk
    refine ⟨?_, if_neg (fun hand => hand.1 rfl)⟩
    have hlookup : (buildPlan hash events).bundles.lookup "" = none := by
      rw [← Option.not_isSome_iff_eq_none, AList.lookup_isSome, (built_plan hash events).bundles]
      rintro ⟨e, -, hnamed, hname⟩
      exact hnamed hname
    rw [← apply_buildPlan hfree hkeyed]
    simp only [Shared.apply, hlookup]
  · have hnone : naming events k = [] := by
      rw [naming, List.filter_eq_nil_iff]
      intro e he hname
      rw [decide_eq_true_eq] at hname
      exact h e he (hname ▸ hk) hname
    rw [bundles_absorb hk, if_pos hnone]
    exact ⟨rfl, if_neg (fun hand => hand.2 hnone)⟩

theorem written_record (hfree : CollisionFree hash events.upload.executionEvents) (hkeyed : before.shared.Keyed) :
    Written hash hostID before events (before.record hash hostID events) := by
  have hplan := apply_buildPlan hfree hkeyed
  have hbuilt := built_plan hash events.upload.executionEvents
  constructor
  case executables =>
    intro k
    simp only [View.record]
    rw [← hplan, ← executables_buildPlan hash]
    rfl
  case certificates =>
    intro k
    simp only [View.record]
    rw [← hplan, ← certificates_buildPlan hash]
    rfl
  case signingChains =>
    intro k
    simp only [View.record]
    rw [← hplan, ← hbuilt.chains k, ← AList.lookup_isSome]
    exact Bool.or_eq_true_iff
  case signingChainEntries =>
    intro k n
    simp only [View.record]
    rw [← hplan]
    change ((AList.lookup k _).bind _).or _ = _
    rw [chains_buildPlan, Option.bind_map]
    rfl
  case executableSigningChains =>
    intro file k
    simp only [View.record]
    rw [← hplan]
    change (file, k) ∈ before.shared.executableSigningChains ∪ _ ↔ _
    rw [Finset.mem_union, Finset.mem_image]
    apply or_congr_right
    constructor
    · rintro ⟨link, hlink, heq⟩
      obtain ⟨e, he, k', hchain, rfl⟩ := (hbuilt.executable_links link).mp hlink
      obtain ⟨rfl, rfl⟩ := Prod.mk.inj heq
      exact ⟨e, he, rfl, hchain⟩
    · rintro ⟨e, he, rfl, hchain⟩
      exact ⟨_, (hbuilt.executable_links _).mpr ⟨e, he, k, hchain, rfl⟩, rfl⟩
  case bundleExecutables => exact fun k file => mem_bundleExecutables_absorb k file
  case bundles =>
    intro e he hnamed
    have hsome := naming_ne_nil he
    refine ⟨_, (bundles_absorb hnamed).trans (if_neg hsome), sha256_foldl hsome ?_ _, merged_foldl _ _⟩
    exact fun e' he' => of_decide_eq_true (List.mem_filter.mp he').2
  case uploaded =>
    intro e he hnamed
    simp only [View.record]
    rw [uploaded_absorb, if_pos ⟨hnamed, naming_ne_nil he⟩]
    exact complete_iff
  case otherBundles => exact fun k h => other_bundles hfree hkeyed h
  case allUploaded =>
    intro hall k
    simp only [View.record]
    by_cases hnamed : ∃ e ∈ events.upload.executionEvents, e.bundleHash ≠ "" ∧ e.bundleHash = k
    · obtain ⟨e, he, hblank, rfl⟩ := hnamed
      rw [uploaded_absorb, if_pos ⟨hblank, naming_ne_nil he⟩]
      exact complete_iff
    · have hother : ∀ e ∈ events.upload.executionEvents, e.bundleHash ≠ "" → e.bundleHash ≠ k :=
        fun e he hblank hname => hnamed ⟨e, he, hblank, hname⟩
      obtain ⟨hbundle, huploaded⟩ := other_bundles hfree hkeyed hother
      rw [huploaded, hall k, Complete, Complete, hbundle, filter_links_absorb hother]
  case executionEvents => rfl
  case fileAccessEvents => rfl
  case standaloneEvents => rfl

end

/-- For any division of valid events into uploads, such as one upload for each event. -/
theorem ingestion_event_at_a_time (hash : List String → String) (object : List UInt8 → Bool)
    (hhash : ∀ fields, btrimNotEmpty (hash fields) = true) (hostID : Int) (db : Database) (hwf : db.Wf)
    (hhost : hostID ∈ db.hosts) (xs ys : Events) (hvalid : (xs.append ys).valid object = true)
    (hfree : CollisionFree hash (xs.append ys).upload.executionEvents) (parts : List (Int × Events))
    (hparts : concat (parts.map Prod.snd) = xs.append ys) (now nowFirst nowSecond : Int) :
    ∃ whole first second last,
      ingestEvents hash object hostID now (xs.append ys) db = .ok whole ∧
      ingestEvents hash object hostID nowFirst xs db = .ok first ∧
      ingestEvents hash object hostID nowSecond ys first = .ok second ∧
      parts.foldlM (fun db part => ingestEvents hash object hostID part.1 part.2 db) db = .ok last ∧
      second.view = whole.view ∧ last.view = whole.view ∧
      Written hash hostID db.view (xs.append ys) whole.view := by
  obtain ⟨whole, hwhole, -, -, hview⟩ := ingestEvents_ok hhash hwf hhost hvalid hfree now
  obtain ⟨last, hlast, hviewLast⟩ := ingestParts_ok hhash hwf hhost parts (hparts ▸ hvalid) (hparts ▸ hfree)
  have htwo : concat ([(nowFirst, xs), (nowSecond, ys)].map Prod.snd) = xs.append ys := by
    simp [concat, Events.append]
  rw [valid_append, Bool.and_eq_true] at hvalid
  have hsplit : (xs.append ys).upload.executionEvents = xs.upload.executionEvents ++ ys.upload.executionEvents :=
    List.map_append
  obtain ⟨first, hfirst, hwf', hhosts, hviewFirst⟩ := ingestEvents_ok hhash hwf hhost hvalid.1
    (collisionFree_of_subset hfree (fun e he => hsplit ▸ List.mem_append_left _ he)) nowFirst
  obtain ⟨second, hsecond, -, -, hviewSecond⟩ := ingestEvents_ok hhash hwf' (hhosts ▸ hhost) hvalid.2
    (collisionFree_of_subset hfree (fun e he => hsplit ▸ List.mem_append_right _ he)) nowSecond
  refine ⟨whole, first, second, last, hwhole, hfirst, hsecond, hlast, ?_, ?_, ?_⟩
  · rw [hviewSecond, hviewFirst, hview, record_append]
  · rw [hviewLast, hparts, hview]
  · rw [hview]
    exact written_record hfree (keyed_shared hwf)

theorem btrimNotEmpty_append {text : String} (h : btrimNotEmpty text = true) (rest : String) :
    btrimNotEmpty (text ++ rest) = true := by
  rw [btrimNotEmpty, String.toList_append, List.any_append]
  exact Bool.or_eq_true_iff.mpr (.inl h)

theorem btrimNotEmpty_framed (fields : List String) : btrimNotEmpty (framed fields) = true := by
  have hfold (text : String) (h : btrimNotEmpty text = true) : btrimNotEmpty
      (fields.foldl (fun text field => text ++ "." ++ toString field.length ++ ":" ++ field) text) = true := by
    induction fields generalizing text with
    | nil => exact h
    | cons field fields ih =>
      apply ih
      simp only [String.append_assoc]
      exact btrimNotEmpty_append h _
  exact hfold "v1" (by decide)

/-- A host and nothing else. -/
def sampleDatabase : Database where
  hosts := {7}
  executables := .empty
  signingChains := .empty
  certificates := .empty
  bundles := .empty
  signingChainEntries := fun _ _ => none
  executableSigningChains := ∅
  bundleExecutables := ∅
  executionEvents := []
  fileAccessEvents := []
  standaloneEvents := []

theorem wf_sampleDatabase : sampleDatabase.Wf := by
  constructor
  case executables => exact isDistinct_iff.mp (by decide)
  case signingChains => exact isDistinct_iff.mp (by decide)
  case certificates => exact isDistinct_iff.mp (by decide)
  case bundles => exact isDistinct_iff.mp (by decide)
  case entries =>
    intro id n c h
    cases h
  case executableSigningChains =>
    intro link h
    exact absurd h (Finset.notMem_empty link)
  case bundleExecutables =>
    intro link h
    exact absurd h (Finset.notMem_empty link)
  case executionEvents =>
    intro row h
    cases h

/-- An executable of a bundle of two. -/
def sampleEvent (file name : String) (count : Nat) : ExecutionEvent where
  fileSHA256 := file
  occurredAt := some 0
  decision := .allowBinary
  bundleHash := "b"
  bundleName := name
  bundleBinaryCount := count
  signingChain := [{ sha256 := "leaf" }]

/-- The second event names the bundle; the first and the third are of one executable. -/
theorem ingestion_event_at_a_time_sample : ∃ whole first second last,
    ingestEvents framed (fun _ => false) 7 1 (Events.append
      { execution := [sampleEvent "x" "" 2] }
      { execution := [sampleEvent "y" "Tool" 0, sampleEvent "x" "" 0] }) sampleDatabase = .ok whole ∧
    ingestEvents framed (fun _ => false) 7 1 { execution := [sampleEvent "x" "" 2] } sampleDatabase = .ok first ∧
    ingestEvents framed (fun _ => false) 7 2 { execution := [sampleEvent "y" "Tool" 0, sampleEvent "x" "" 0] }
      first = .ok second ∧
    [(1, { execution := [sampleEvent "x" "" 2] }), (2, { execution := [sampleEvent "y" "Tool" 0] }),
      (3, { execution := [sampleEvent "x" "" 0] })].foldlM
        (fun db (part : Int × Events) => ingestEvents framed (fun _ => false) 7 part.1 part.2 db) sampleDatabase =
          .ok last ∧
    second.view = whole.view ∧ last.view = whole.view ∧
    Written framed 7 sampleDatabase.view (Events.append
      { execution := [sampleEvent "x" "" 2] }
      { execution := [sampleEvent "y" "Tool" 0, sampleEvent "x" "" 0] }) whole.view :=
  ingestion_event_at_a_time framed (fun _ => false) btrimNotEmpty_framed 7 sampleDatabase wf_sampleDatabase
    (by decide) { execution := [sampleEvent "x" "" 2] }
    { execution := [sampleEvent "y" "Tool" 0, sampleEvent "x" "" 0] } (by decide) (by decide)
    [(1, { execution := [sampleEvent "x" "" 2] }), (2, { execution := [sampleEvent "y" "Tool" 0] }),
      (3, { execution := [sampleEvent "x" "" 0] })] rfl 1 1 2

end SantaIngestion
