import Woodstar.LockOrder
import Woodstar.Primitives
import Mathlib.Algebra.Order.Ring.Nat
import Mathlib.Data.Finset.Sort
import Mathlib.Data.List.AList
import Mathlib.Data.List.Sort
import Mathlib.Data.Prod.Lex
import Mathlib.Data.String.Basic

/-!
# Row locks of Santa event uploads

`internal/santa/events`: the plan that an upload makes of its events and the rows that
its transaction locks, in order. `hash` stands for `payloadhash.Hash`; a Go map is an
association list, read back sorted by key.
-/
namespace SantaUploads

open Runs (tryExec)

inductive ExecutionDecision where
  | unknown | allowUnknown | allowBinary | allowCertificate | allowScope | allowTeamID
  | allowSigningID | allowCDHash | blockUnknown | blockBinary | blockCertificate | blockScope
  | blockTeamID | blockSigningID | blockCDHash | bundleBinary | blockBinaryMismatch | allowPlatform
  | other (value : String)
  deriving DecidableEq, Repr

inductive SigningStatus where
  | unspecified | unsigned | invalid | adhoc | development | production
  | other (value : String)
  deriving DecidableEq, Repr

structure CertificateInput where
  sha256 : String
  commonName : String := ""
  org : String := ""
  ou : String := ""
  validFrom : Nat := 0
  validUntil : Nat := 0
  deriving DecidableEq, Repr

/-- Times are microseconds, `none` is the zero time. -/
structure ExecutionEventInput where
  fileSHA256 : String
  fileName : String := ""
  occurredAt : Option Int := none
  decision : ExecutionDecision
  bundleID : String := ""
  bundlePath : String := ""
  bundleExecutableRelPath : String := ""
  bundleName : String := ""
  bundleVersion : String := ""
  bundleVersionString : String := ""
  bundleHash : String := ""
  bundleHashMillis : Nat := 0
  bundleBinaryCount : Nat := 0
  signingID : String := ""
  teamID : String := ""
  cdhash : String := ""
  codesigningFlags : Nat := 0
  signingStatus : SigningStatus := .unspecified
  secureSigningTime : Option Int := none
  signingTime : Option Int := none
  entitlements : List UInt8 := []
  signingChain : List CertificateInput := []
  deriving DecidableEq, Repr

structure FileAccessEventInput where
  occurredAt : Option Int
  deriving DecidableEq, Repr

structure StandaloneRuleCreationEventInput where
  identifier : String
  decision : ExecutionDecision
  occurredAt : Option Int
  deriving DecidableEq, Repr

structure Upload where
  executionEvents : List ExecutionEventInput := []
  fileAccessEvents : List FileAccessEventInput := []
  standaloneEvents : List StandaloneRuleCreationEventInput := []
  deriving DecidableEq, Repr

structure ExecutableWrite where
  sha256 : String
  fileName : String
  fileBundleID : String
  fileBundlePath : String
  fileBundleExecutableRelPath : String
  fileBundleName : String
  fileBundleVersion : String
  fileBundleVersionString : String
  fileBundleHash : String
  fileBundleHashMillis : Nat
  fileBundleBinaryCount : Nat
  signingID : String
  teamID : String
  cdhash : String
  codesigningFlags : Nat
  signingStatus : SigningStatus
  secureSigningTime : Option Int
  signingTime : Option Int
  entitlements : Option (List UInt8)
  deriving DecidableEq, Repr

structure SigningChainWrite where
  sha256 : String
  entries : List CertificateInput
  deriving DecidableEq, Repr

structure BundleWrite where
  sha256 : String := ""
  bundleID : String := ""
  name : String := ""
  path : String := ""
  executableRelPath : String := ""
  version : String := ""
  versionString : String := ""
  binaryCount : Nat := 0
  hashMillis : Nat := 0
  deriving DecidableEq, Repr

@[ext]
structure ExecutableSigningLink where
  executableSHA256 : String
  signingChainSHA256 : String
  deriving DecidableEq, Repr

@[ext]
structure BundleExecutableLink where
  bundleSHA256 : String
  executableSHA256 : String
  deriving DecidableEq, Repr

def ExecutableSigningLink.key (link : ExecutableSigningLink) : String ×ₗ String :=
  toLex (link.executableSHA256, link.signingChainSHA256)

def BundleExecutableLink.key (link : BundleExecutableLink) : String ×ₗ String :=
  toLex (link.bundleSHA256, link.executableSHA256)

instance : LinearOrder ExecutableSigningLink :=
  LinearOrder.lift' ExecutableSigningLink.key (by
    rintro ⟨a, b⟩ ⟨c, d⟩ h
    simpa [ExecutableSigningLink.key] using h)

instance : LinearOrder BundleExecutableLink :=
  LinearOrder.lift' BundleExecutableLink.key (by
    rintro ⟨a, b⟩ ⟨c, d⟩ h
    simpa [BundleExecutableLink.key] using h)

abbrev ByHash (α : Type) := AList (fun _ : String => α)

structure IngestPlanBuilder where
  executables : ByHash ExecutableWrite := ∅
  signingChains : ByHash SigningChainWrite := ∅
  certificates : ByHash CertificateInput := ∅
  bundles : ByHash BundleWrite := ∅
  executableSigningLinks : Finset ExecutableSigningLink := ∅
  bundleExecutableLinks : Finset BundleExecutableLink := ∅
  bundleRequestHashes : Finset String := ∅

structure IngestPlan where
  executables : List ExecutableWrite
  signingChains : List SigningChainWrite
  certificates : List CertificateInput
  bundles : List BundleWrite
  executableSigningLinks : List ExecutableSigningLink
  bundleExecutableLinks : List BundleExecutableLink
  executionEvents : List ExecutionEventInput
  fileAccessEvents : List FileAccessEventInput
  standaloneEvents : List StandaloneRuleCreationEventInput
  bundleRequestHashes : List String
  deriving Repr

def normalizeSigningStatus : SigningStatus → SigningStatus
  | .other _ => .unspecified
  | status => status

def executableEntitlements (event : ExecutionEventInput) : Option (List UInt8) :=
  if event.entitlements = [] then none else some event.entitlements

def executableWriteFromEvent (event : ExecutionEventInput) : ExecutableWrite where
  sha256 := event.fileSHA256
  fileName := event.fileName
  fileBundleID := event.bundleID
  fileBundlePath := event.bundlePath
  fileBundleExecutableRelPath := event.bundleExecutableRelPath
  fileBundleName := event.bundleName
  fileBundleVersion := event.bundleVersion
  fileBundleVersionString := event.bundleVersionString
  fileBundleHash := event.bundleHash
  fileBundleHashMillis := event.bundleHashMillis
  fileBundleBinaryCount := event.bundleBinaryCount
  signingID := event.signingID
  teamID := event.teamID
  cdhash := event.cdhash
  codesigningFlags := event.codesigningFlags
  signingStatus := normalizeSigningStatus event.signingStatus
  secureSigningTime := event.secureSigningTime
  signingTime := event.signingTime
  entitlements := executableEntitlements event

/-- The last non-empty value of each field. -/
def BundleWrite.merge (w : BundleWrite) (event : ExecutionEventInput) : BundleWrite where
  sha256 := event.bundleHash
  bundleID := if event.bundleID ≠ "" then event.bundleID else w.bundleID
  name := if event.bundleName ≠ "" then event.bundleName else w.name
  path := if event.bundlePath ≠ "" then event.bundlePath else w.path
  executableRelPath :=
    if event.bundleExecutableRelPath ≠ "" then event.bundleExecutableRelPath else w.executableRelPath
  version := if event.bundleVersion ≠ "" then event.bundleVersion else w.version
  versionString := if event.bundleVersionString ≠ "" then event.bundleVersionString else w.versionString
  binaryCount := if 0 < event.bundleBinaryCount then event.bundleBinaryCount else w.binaryCount
  hashMillis := if 0 < event.bundleHashMillis then event.bundleHashMillis else w.hashMillis

def signingChainEntries (chain : List CertificateInput) : List CertificateInput :=
  chain.filter (fun cert => cert.sha256 != "")

def signingChainHash (hash : List String → String) (entries : List CertificateInput) : String :=
  hash (entries.map CertificateInput.sha256)

def addCertificates (certificates : ByHash CertificateInput) (entries : List CertificateInput) :
    ByHash CertificateInput :=
  entries.foldl (fun certificates entry => certificates.insert entry.sha256 entry) certificates

def IngestPlanBuilder.addSigningChain (hash : List String → String) (b : IngestPlanBuilder)
    (executableSHA256 : String) (chain : List CertificateInput) : IngestPlanBuilder :=
  let entries := signingChainEntries chain
  if entries = [] then b
  else
    let chainSHA256 := signingChainHash hash entries
    { b with
      signingChains := b.signingChains.insert chainSHA256 ⟨chainSHA256, entries⟩
      executableSigningLinks := insert ⟨executableSHA256, chainSHA256⟩ b.executableSigningLinks
      certificates := addCertificates b.certificates entries }

def IngestPlanBuilder.addBundle (b : IngestPlanBuilder) (event : ExecutionEventInput) : IngestPlanBuilder :=
  if event.bundleHash = "" then b
  else
    let bundle := ((b.bundles.lookup event.bundleHash).getD {}).merge event
    { b with
      bundles := b.bundles.insert event.bundleHash bundle
      bundleExecutableLinks := insert ⟨event.bundleHash, event.fileSHA256⟩ b.bundleExecutableLinks
      bundleRequestHashes :=
        if event.decision ≠ .bundleBinary then insert event.bundleHash b.bundleRequestHashes
        else b.bundleRequestHashes }

def IngestPlanBuilder.addExecutionEvent (hash : List String → String) (b : IngestPlanBuilder)
    (event : ExecutionEventInput) : IngestPlanBuilder :=
  let b := { b with executables := b.executables.insert event.fileSHA256 (executableWriteFromEvent event) }
  (b.addSigningChain hash event.fileSHA256 event.signingChain).addBundle event

def sortedMapKeys {α : Type} (values : ByHash α) : List String := values.keys.mergeSort (· ≤ ·)

def sortedMapValues {α : Type} (values : ByHash α) : List α :=
  (sortedMapKeys values).filterMap (fun key => values.lookup key)

def executionEventRows (events : List ExecutionEventInput) : List ExecutionEventInput :=
  events.filter (fun event => event.decision != .bundleBinary)

def IngestPlanBuilder.build (b : IngestPlanBuilder) (upload : Upload) : IngestPlan where
  executables := sortedMapValues b.executables
  signingChains := sortedMapValues b.signingChains
  certificates := sortedMapValues b.certificates
  bundles := sortedMapValues b.bundles
  executableSigningLinks := b.executableSigningLinks.sort (· ≤ ·)
  bundleExecutableLinks := b.bundleExecutableLinks.sort (· ≤ ·)
  executionEvents := executionEventRows upload.executionEvents
  fileAccessEvents := upload.fileAccessEvents
  standaloneEvents := upload.standaloneEvents
  bundleRequestHashes := b.bundleRequestHashes.sort (· ≤ ·)

def buildPlan (hash : List String → String) (events : List ExecutionEventInput) : IngestPlanBuilder :=
  events.foldl (IngestPlanBuilder.addExecutionEvent hash) {}

def newIngestPlan (hash : List String → String) (upload : Upload) : IngestPlan :=
  (buildPlan hash upload.executionEvents).build upload

/-- A row that uploads share, by its class and natural key. -/
inductive SharedRow where
  | executable (sha256 : String)
  | signingChain (sha256 : String)
  | certificate (sha256 : String)
  | bundle (sha256 : String)
  | signingChainEntry (chain : String) (position : Nat)
  | executableSigningChain (link : ExecutableSigningLink)
  | bundleExecutable (link : BundleExecutableLink)
  deriving DecidableEq, Repr

def SharedRow.key : SharedRow → ℕ ×ₗ String ×ₗ String ×ₗ ℕ
  | .executable sha256 => toLex (0, toLex (sha256, toLex ("", 0)))
  | .signingChain sha256 => toLex (1, toLex (sha256, toLex ("", 0)))
  | .certificate sha256 => toLex (2, toLex (sha256, toLex ("", 0)))
  | .bundle sha256 => toLex (3, toLex (sha256, toLex ("", 0)))
  | .signingChainEntry chain position => toLex (4, toLex (chain, toLex ("", position)))
  | .executableSigningChain link =>
    toLex (5, toLex (link.executableSHA256, toLex (link.signingChainSHA256, 0)))
  | .bundleExecutable link => toLex (6, toLex (link.bundleSHA256, toLex (link.executableSHA256, 0)))

theorem key_injective : Function.Injective SharedRow.key := by
  intro a b h
  cases a <;> cases b <;> simp_all [SharedRow.key, ExecutableSigningLink.ext_iff, BundleExecutableLink.ext_iff]

/-- Class before key. -/
instance : LinearOrder SharedRow := LinearOrder.lift' SharedRow.key key_injective

def SharedRow.isBundle : SharedRow → Bool
  | .bundle _ => true
  | _ => false

def upsertPlanReferences (plan : IngestPlan) : List SharedRow :=
  plan.executables.map (fun write => .executable write.sha256) ++
    (plan.signingChains.map (fun write => .signingChain write.sha256) ++
      (plan.certificates.map (fun write => .certificate write.sha256) ++
        plan.bundles.map (fun write => .bundle write.sha256)))

/-- The entries are upserts. The links are inserted unless they are there; one that is
there is not locked. -/
def insertPlanRelationships (present : SharedRow → Bool) (plan : IngestPlan) : List SharedRow :=
  plan.signingChains.flatMap (fun chain =>
      chain.entries.zipIdx.map (fun entry => .signingChainEntry chain.sha256 entry.2)) ++
    ((plan.executableSigningLinks.map .executableSigningChain).filter (fun row => !present row) ++
      (plan.bundleExecutableLinks.map .bundleExecutable).filter (fun row => !present row))

def reconcilePlanBundleCompletion (plan : IngestPlan) : List SharedRow :=
  plan.bundles.map (fun bundle => .bundle bundle.sha256)

/-- The shared rows in the order in which the transaction asks for them. -/
def ingestEventsTx (present : SharedRow → Bool) (plan : IngestPlan) : List SharedRow :=
  upsertPlanReferences plan ++ insertPlanRelationships present plan ++ reconcilePlanBundleCompletion plan

def validateEventInputs (upload : Upload) : Bool :=
  upload.executionEvents.all (fun e => e.decision == .bundleBinary || e.occurredAt.isSome) &&
    upload.fileAccessEvents.all (fun e => e.occurredAt.isSome) &&
    upload.standaloneEvents.all (fun e => Primitives.notBlank e.identifier && e.decision != .unknown &&
      (match e.decision with | .other _ => false | _ => true) && e.occurredAt.isSome)

/-- No transaction for an upload that is empty or invalid. -/
def ingestEvents (hash : List String → String) (present : SharedRow → Bool) (upload : Upload) :
    List SharedRow :=
  if upload.executionEvents = [] ∧ upload.fileAccessEvents = [] ∧ upload.standaloneEvents = [] then []
  else if validateEventInputs upload = false then []
  else ingestEventsTx present (newIngestPlan hash upload)

/-- The rows that an event refers to. -/
def references (hash : List String → String) (event : ExecutionEventInput) : List SharedRow :=
  let entries := signingChainEntries event.signingChain
  let chain := signingChainHash hash entries
  .executable event.fileSHA256 ::
    ((if entries = [] then []
      else .signingChain chain :: .executableSigningChain ⟨event.fileSHA256, chain⟩ ::
        (entries.map (fun entry => .certificate entry.sha256) ++
          entries.zipIdx.map (fun entry => .signingChainEntry chain entry.2))) ++
    (if event.bundleHash = "" then []
      else [.bundle event.bundleHash, .bundleExecutable ⟨event.bundleHash, event.fileSHA256⟩]))

section

variable {hash : List String → String} {b : IngestPlanBuilder} {events : List ExecutionEventInput}
  {event : ExecutionEventInput}

/-- The chain that an event names, unless it names none. -/
def chainOf (hash : List String → String) (event : ExecutionEventInput) : Option String :=
  if signingChainEntries event.signingChain = [] then none
  else some (signingChainHash hash (signingChainEntries event.signingChain))

structure Built (hash : List String → String) (events : List ExecutionEventInput)
    (b : IngestPlanBuilder) : Prop where
  executables : ∀ k, k ∈ b.executables ↔ ∃ e ∈ events, e.fileSHA256 = k
  executable_key : ∀ k, ∀ w ∈ b.executables.lookup k, w.sha256 = k
  chains : ∀ k, k ∈ b.signingChains ↔ ∃ e ∈ events, chainOf hash e = some k
  chain_key : ∀ k, ∀ w ∈ b.signingChains.lookup k, w.sha256 = k
  chain_entries : ∀ k, ∀ w ∈ b.signingChains.lookup k,
    ∃ e ∈ events, chainOf hash e = some k ∧ w.entries = signingChainEntries e.signingChain
  certificates : ∀ k, k ∈ b.certificates ↔
    ∃ e ∈ events, ∃ c ∈ signingChainEntries e.signingChain, c.sha256 = k
  certificate_key : ∀ k, ∀ w ∈ b.certificates.lookup k, w.sha256 = k
  bundles : ∀ k, k ∈ b.bundles ↔ ∃ e ∈ events, e.bundleHash ≠ "" ∧ e.bundleHash = k
  bundle_key : ∀ k, ∀ w ∈ b.bundles.lookup k, w.sha256 = k
  executable_links : ∀ link, link ∈ b.executableSigningLinks ↔
    ∃ e ∈ events, ∃ k, chainOf hash e = some k ∧ link = ⟨e.fileSHA256, k⟩
  bundle_links : ∀ link, link ∈ b.bundleExecutableLinks ↔
    ∃ e ∈ events, e.bundleHash ≠ "" ∧ link = ⟨e.bundleHash, e.fileSHA256⟩
  requests : ∀ k, k ∈ b.bundleRequestHashes ↔
    ∃ e ∈ events, e.bundleHash ≠ "" ∧ e.decision ≠ .bundleBinary ∧ e.bundleHash = k

theorem mem_addCertificates {certificates : ByHash CertificateInput} (entries : List CertificateInput)
    (k : String) : k ∈ addCertificates certificates entries ↔
      k ∈ certificates ∨ ∃ c ∈ entries, c.sha256 = k := by
  unfold addCertificates
  induction entries generalizing certificates with
  | nil => simp
  | cons entry entries ih =>
    rw [List.foldl_cons, ih, AList.mem_insert]
    simp only [List.exists_mem_cons_iff]
    rw [eq_comm (a := k), or_comm (a := entry.sha256 = k), or_assoc]

theorem lookup_insert_iff {α : Type} {m : ByHash α} {k k' : String} {v w : α} :
    w ∈ (m.insert k v).lookup k' ↔ (k' = k ∧ w = v) ∨ (k' ≠ k ∧ w ∈ m.lookup k') := by
  by_cases hk : k' = k
  · subst hk
    simp [AList.lookup_insert, eq_comm]
  · simp [AList.lookup_insert_ne hk, hk]

theorem lookup_addCertificates {certificates : ByHash CertificateInput} (entries : List CertificateInput)
    (h : ∀ k, ∀ w ∈ certificates.lookup k, w.sha256 = k) (k : String) (w : CertificateInput)
    (hw : w ∈ (addCertificates certificates entries).lookup k) : w.sha256 = k := by
  unfold addCertificates at hw
  induction entries generalizing certificates with
  | nil => exact h k w hw
  | cons entry entries ih =>
    apply ih _ hw
    intro k' w' hw'
    rcases lookup_insert_iff.mp hw' with ⟨rfl, rfl⟩ | ⟨-, hw'⟩
    · rfl
    · exact h k' w' hw'

theorem executables_add : (b.addExecutionEvent hash event).executables =
    b.executables.insert event.fileSHA256 (executableWriteFromEvent event) := by
  simp only [IngestPlanBuilder.addExecutionEvent, IngestPlanBuilder.addSigningChain, IngestPlanBuilder.addBundle]
  split_ifs <;> rfl

theorem signingChains_add : (b.addExecutionEvent hash event).signingChains =
    match chainOf hash event with
    | none => b.signingChains
    | some k => b.signingChains.insert k ⟨k, signingChainEntries event.signingChain⟩ := by
  simp only [IngestPlanBuilder.addExecutionEvent, IngestPlanBuilder.addSigningChain,
    IngestPlanBuilder.addBundle, chainOf]
  split_ifs <;> rfl

theorem executableSigningLinks_add : (b.addExecutionEvent hash event).executableSigningLinks =
    match chainOf hash event with
    | none => b.executableSigningLinks
    | some k => insert ⟨event.fileSHA256, k⟩ b.executableSigningLinks := by
  simp only [IngestPlanBuilder.addExecutionEvent, IngestPlanBuilder.addSigningChain,
    IngestPlanBuilder.addBundle, chainOf]
  split_ifs <;> rfl

theorem certificates_add : (b.addExecutionEvent hash event).certificates =
    addCertificates b.certificates (signingChainEntries event.signingChain) := by
  simp only [IngestPlanBuilder.addExecutionEvent, IngestPlanBuilder.addSigningChain, IngestPlanBuilder.addBundle]
  split_ifs <;> simp_all [addCertificates]

theorem bundles_add : (b.addExecutionEvent hash event).bundles =
    if event.bundleHash = "" then b.bundles
    else b.bundles.insert event.bundleHash (((b.bundles.lookup event.bundleHash).getD {}).merge event) := by
  simp only [IngestPlanBuilder.addExecutionEvent, IngestPlanBuilder.addSigningChain, IngestPlanBuilder.addBundle]
  split_ifs <;> rfl

theorem bundleExecutableLinks_add : (b.addExecutionEvent hash event).bundleExecutableLinks =
    if event.bundleHash = "" then b.bundleExecutableLinks
    else insert ⟨event.bundleHash, event.fileSHA256⟩ b.bundleExecutableLinks := by
  simp only [IngestPlanBuilder.addExecutionEvent, IngestPlanBuilder.addSigningChain, IngestPlanBuilder.addBundle]
  split_ifs <;> rfl

theorem bundleRequestHashes_add : (b.addExecutionEvent hash event).bundleRequestHashes =
    if event.bundleHash ≠ "" ∧ event.decision ≠ .bundleBinary then
      insert event.bundleHash b.bundleRequestHashes
    else b.bundleRequestHashes := by
  simp only [IngestPlanBuilder.addExecutionEvent, IngestPlanBuilder.addSigningChain, IngestPlanBuilder.addBundle]
  split_ifs <;> simp_all

theorem exists_append_singleton {p : ExecutionEventInput → Prop} :
    (∃ e ∈ events ++ [event], p e) ↔ (∃ e ∈ events, p e) ∨ p event := by
  simp [or_and_right, exists_or]

theorem built_add (h : Built hash events b) :
    Built hash (events ++ [event]) (b.addExecutionEvent hash event) where
  executables := by
    intro k
    rw [executables_add, AList.mem_insert, exists_append_singleton, h.executables, eq_comm (a := k), or_comm]
  executable_key := by
    intro k w hw
    rw [executables_add] at hw
    rcases lookup_insert_iff.mp hw with ⟨rfl, rfl⟩ | ⟨-, hw⟩
    · rfl
    · exact h.executable_key k w hw
  chains := by
    intro k
    rw [signingChains_add, exists_append_singleton, ← h.chains]
    cases chainOf hash event with
    | none => simp
    | some k' => rw [AList.mem_insert, Option.some.injEq, eq_comm (a := k), or_comm]
  chain_key := by
    intro k w hw
    rw [signingChains_add] at hw
    cases hc : chainOf hash event with
    | none => exact h.chain_key k w (by simpa [hc] using hw)
    | some k' =>
      rw [hc] at hw
      rcases lookup_insert_iff.mp hw with ⟨rfl, rfl⟩ | ⟨-, hw⟩
      · rfl
      · exact h.chain_key k w hw
  chain_entries := by
    intro k w hw
    rw [signingChains_add] at hw
    rw [exists_append_singleton]
    cases hc : chainOf hash event with
    | none => exact .inl (h.chain_entries k w (by simpa [hc] using hw))
    | some k' =>
      rw [hc] at hw
      rcases lookup_insert_iff.mp hw with ⟨rfl, rfl⟩ | ⟨-, hw⟩
      · exact .inr ⟨rfl, rfl⟩
      · exact .inl (h.chain_entries k w hw)
  certificates := by
    intro k
    rw [certificates_add, mem_addCertificates, exists_append_singleton, h.certificates]
  certificate_key := by
    intro k w hw
    rw [certificates_add] at hw
    exact lookup_addCertificates _ h.certificate_key k w hw
  bundles := by
    intro k
    rw [bundles_add, exists_append_singleton, ← h.bundles]
    split_ifs with hb
    · simp [hb]
    · rw [AList.mem_insert, eq_comm (a := k), or_comm]
      simp [hb]
  bundle_key := by
    intro k w hw
    rw [bundles_add] at hw
    split_ifs at hw
    · exact h.bundle_key k w hw
    · rcases lookup_insert_iff.mp hw with ⟨rfl, rfl⟩ | ⟨-, hw⟩
      · rfl
      · exact h.bundle_key k w hw
  executable_links := by
    intro link
    rw [executableSigningLinks_add, exists_append_singleton, ← h.executable_links]
    cases chainOf hash event with
    | none => simp
    | some k => simp [or_comm]
  bundle_links := by
    intro link
    rw [bundleExecutableLinks_add, exists_append_singleton, ← h.bundle_links]
    split_ifs with hb
    · simp [hb]
    · simp [hb, or_comm]
  requests := by
    intro k
    rw [bundleRequestHashes_add, exists_append_singleton, ← h.requests]
    split_ifs with hb
    · rw [Finset.mem_insert, eq_comm (a := k), or_comm]
      simp [hb]
    · have hnone : ¬(event.bundleHash ≠ "" ∧ event.decision ≠ .bundleBinary ∧ event.bundleHash = k) :=
        fun hand => hb ⟨hand.1, hand.2.1⟩
      simp only [hnone, or_false]

theorem built_nil : Built hash [] {} := by
  constructor <;> simp

/-- What the builder holds after all events. -/
theorem built_plan (hash : List String → String) (events : List ExecutionEventInput) :
    Built hash events (buildPlan hash events) := by
  induction events using List.reverseRecOn with
  | nil => exact built_nil
  | append_singleton events event ih =>
    rw [buildPlan, List.foldl_append]
    exact built_add ih

end

section

variable {α : Type} {m : ByHash α} {hash : List String → String} {present : SharedRow → Bool}
  {upload : Upload}

theorem mem_sortedMapKeys {k : String} : k ∈ sortedMapKeys m ↔ k ∈ m := by
  rw [sortedMapKeys, List.mem_mergeSort, AList.mem_keys]

theorem sortedMapKeys_pairwise : (sortedMapKeys m).Pairwise (· < ·) := by
  have hsorted : (sortedMapKeys m).Pairwise (· ≤ ·) := List.pairwise_mergeSort' (· ≤ ·) m.keys
  have hnodup : (sortedMapKeys m).Nodup := (List.mergeSort_perm m.keys _).nodup_iff.mpr m.keys_nodup
  exact (hsorted.and hnodup).imp (fun h => lt_of_le_of_ne h.1 h.2)

/-- Values that name their own key come in the order of the keys. -/
theorem sortedMapValues_key {f : α → String} (h : ∀ k, ∀ w ∈ m.lookup k, f w = k) :
    (sortedMapValues m).map f = sortedMapKeys m := by
  have hkeys : ∀ k ∈ sortedMapKeys m, k ∈ m := fun k hk => mem_sortedMapKeys.mp hk
  rw [sortedMapValues]
  generalize sortedMapKeys m = keys at hkeys
  induction keys with
  | nil => rfl
  | cons k keys ih =>
    obtain ⟨hk, hrest⟩ := List.forall_mem_cons.mp hkeys
    obtain ⟨w, hw⟩ := Option.isSome_iff_exists.mp (AList.lookup_isSome.mpr hk)
    simp only [List.filterMap_cons, hw, List.map_cons, h k w hw, ih hrest]

theorem mem_sortedMapValues {w : α} : w ∈ sortedMapValues m ↔ ∃ k, w ∈ m.lookup k := by
  rw [sortedMapValues, List.mem_filterMap]
  constructor
  · rintro ⟨k, -, hw⟩
    exact ⟨k, hw⟩
  · rintro ⟨k, hw⟩
    exact ⟨k, mem_sortedMapKeys.mpr (AList.lookup_isSome.mp (by rw [hw]; rfl)), hw⟩

/-- Rows of one class made from ascending keys. -/
theorem pairwise_map_key {β : Type} {l : List α} (key : α → β) [LT β] {row : α → SharedRow}
    (h : (l.map key).Pairwise (· < ·)) (hrow : ∀ a b, key a < key b → row a < row b) :
    (l.map row).Pairwise (· < ·) := by
  rw [List.pairwise_map] at h ⊢
  exact h.imp (fun {a b} => hrow a b)

theorem sort_pairwise_lt {β : Type} [LinearOrder β] (s : Finset β) : (s.sort (· ≤ ·)).Pairwise (· < ·) := by
  have hnodup := s.sort_nodup (· ≤ ·)
  exact ((s.pairwise_sort (· ≤ ·)).and hnodup).imp (fun h => lt_of_le_of_ne h.1 h.2)

def SharedRow.rank (row : SharedRow) : ℕ := (ofLex row.key).1

theorem lt_of_rank {a b : SharedRow} (h : a.rank < b.rank) : a < b := Prod.Lex.lt_iff.mpr (.inl h)

theorem lt_iff_key {a b : SharedRow} : a < b ↔ a.key < b.key := Iff.rfl

theorem executableSigningChain_lt {a b : ExecutableSigningLink} (h : a < b) :
    SharedRow.executableSigningChain a < SharedRow.executableSigningChain b := by
  change a.key < b.key at h
  rw [ExecutableSigningLink.key, ExecutableSigningLink.key, Prod.Lex.toLex_lt_toLex] at h
  rw [lt_iff_key, SharedRow.key, SharedRow.key, Prod.Lex.toLex_lt_toLex]
  refine .inr ⟨rfl, Prod.Lex.toLex_lt_toLex.mpr ?_⟩
  exact h.imp id (fun hand => ⟨hand.1, Prod.Lex.toLex_lt_toLex.mpr (.inl hand.2)⟩)

theorem bundleExecutable_lt {a b : BundleExecutableLink} (h : a < b) :
    SharedRow.bundleExecutable a < SharedRow.bundleExecutable b := by
  change a.key < b.key at h
  rw [BundleExecutableLink.key, BundleExecutableLink.key, Prod.Lex.toLex_lt_toLex] at h
  rw [lt_iff_key, SharedRow.key, SharedRow.key, Prod.Lex.toLex_lt_toLex]
  refine .inr ⟨rfl, Prod.Lex.toLex_lt_toLex.mpr ?_⟩
  exact h.imp id (fun hand => ⟨hand.1, Prod.Lex.toLex_lt_toLex.mpr (.inl hand.2)⟩)

/-- The class and the hash decide between rows of the first classes. -/
theorem lt_of_hash {n : ℕ} {k k' : String} (h : k < k') {a b : SharedRow}
    (ha : a.key = toLex (n, toLex (k, toLex ("", 0)))) (hb : b.key = toLex (n, toLex (k', toLex ("", 0)))) :
    a < b := by
  rw [lt_iff_key, ha, hb, Prod.Lex.toLex_lt_toLex]
  exact .inr ⟨rfl, Prod.Lex.toLex_lt_toLex.mpr (.inl h)⟩

theorem signingChainEntry_lt {k k' : String} {n n' : ℕ} (h : k < k' ∨ k = k' ∧ n < n') :
    SharedRow.signingChainEntry k n < SharedRow.signingChainEntry k' n' := by
  rw [lt_iff_key, SharedRow.key, SharedRow.key, Prod.Lex.toLex_lt_toLex]
  refine .inr ⟨rfl, Prod.Lex.toLex_lt_toLex.mpr ?_⟩
  refine h.imp id (fun hand => ⟨hand.1, Prod.Lex.toLex_lt_toLex.mpr (.inr ⟨rfl, ?_⟩)⟩)
  exact hand.2

/-- Every reference of one class before those of the next, each class by its hash. -/
theorem references_pairwise : (upsertPlanReferences (newIngestPlan hash upload)).Pairwise (· < ·) := by
  have hbuilt := built_plan hash upload.executionEvents
  have hexecutables : ((newIngestPlan hash upload).executables.map
      (fun write => SharedRow.executable write.sha256)).Pairwise (· < ·) := by
    refine pairwise_map_key ExecutableWrite.sha256 ?_ (fun _ _ h => lt_of_hash h rfl rfl)
    rw [newIngestPlan, IngestPlanBuilder.build, sortedMapValues_key hbuilt.executable_key]
    exact sortedMapKeys_pairwise
  have hchains : ((newIngestPlan hash upload).signingChains.map
      (fun write => SharedRow.signingChain write.sha256)).Pairwise (· < ·) := by
    refine pairwise_map_key SigningChainWrite.sha256 ?_ (fun _ _ h => lt_of_hash h rfl rfl)
    rw [newIngestPlan, IngestPlanBuilder.build, sortedMapValues_key hbuilt.chain_key]
    exact sortedMapKeys_pairwise
  have hcertificates : ((newIngestPlan hash upload).certificates.map
      (fun write => SharedRow.certificate write.sha256)).Pairwise (· < ·) := by
    refine pairwise_map_key CertificateInput.sha256 ?_ (fun _ _ h => lt_of_hash h rfl rfl)
    rw [newIngestPlan, IngestPlanBuilder.build, sortedMapValues_key hbuilt.certificate_key]
    exact sortedMapKeys_pairwise
  have hbundles : ((newIngestPlan hash upload).bundles.map
      (fun write => SharedRow.bundle write.sha256)).Pairwise (· < ·) := by
    refine pairwise_map_key BundleWrite.sha256 ?_ (fun _ _ h => lt_of_hash h rfl rfl)
    rw [newIngestPlan, IngestPlanBuilder.build, sortedMapValues_key hbuilt.bundle_key]
    exact sortedMapKeys_pairwise
  rw [upsertPlanReferences, List.pairwise_append, List.pairwise_append, List.pairwise_append]
  refine ⟨hexecutables, ⟨hchains, ⟨hcertificates, hbundles, ?_⟩, ?_⟩, ?_⟩
  · simp only [List.mem_map]
    rintro _ ⟨a, -, rfl⟩ _ ⟨c, -, rfl⟩
    exact lt_of_rank (by simp [SharedRow.rank, SharedRow.key])
  · simp only [List.mem_append, List.mem_map]
    rintro _ ⟨a, -, rfl⟩ _ (⟨c, -, rfl⟩ | ⟨c, -, rfl⟩)
    all_goals exact lt_of_rank (by simp [SharedRow.rank, SharedRow.key])
  · simp only [List.mem_append, List.mem_map]
    rintro _ ⟨a, -, rfl⟩ _ (⟨c, -, rfl⟩ | ⟨c, -, rfl⟩ | ⟨c, -, rfl⟩)
    all_goals exact lt_of_rank (by simp [SharedRow.rank, SharedRow.key])

theorem chainEntries_pairwise : ((newIngestPlan hash upload).signingChains.flatMap (fun chain =>
    chain.entries.zipIdx.map (fun entry => SharedRow.signingChainEntry chain.sha256 entry.2))).Pairwise
      (· < ·) := by
  have hbuilt := built_plan hash upload.executionEvents
  rw [List.pairwise_flatMap]
  constructor
  · intro chain _
    have hpositions : (chain.entries.zipIdx.map Prod.snd).Pairwise (· < ·) := by
      rw [List.zipIdx_map_snd]
      exact List.pairwise_lt_range'
    rw [List.pairwise_map] at hpositions ⊢
    exact hpositions.imp (fun hn => signingChainEntry_lt (.inr ⟨rfl, hn⟩))
  · have hkeys : ((newIngestPlan hash upload).signingChains.map SigningChainWrite.sha256).Pairwise (· < ·) := by
      rw [newIngestPlan, IngestPlanBuilder.build, sortedMapValues_key hbuilt.chain_key]
      exact sortedMapKeys_pairwise
    rw [List.pairwise_map] at hkeys
    refine hkeys.imp (fun hlt x hx y hy => ?_)
    obtain ⟨_, -, rfl⟩ := List.mem_map.mp hx
    obtain ⟨_, -, rfl⟩ := List.mem_map.mp hy
    exact signingChainEntry_lt (.inl hlt)

theorem relationships_pairwise (present : SharedRow → Bool) :
    (insertPlanRelationships present (newIngestPlan hash upload)).Pairwise (· < ·) := by
  have hlinks : ((newIngestPlan hash upload).executableSigningLinks.map
      SharedRow.executableSigningChain).Pairwise (· < ·) := by
    rw [List.pairwise_map]
    exact (sort_pairwise_lt _).imp executableSigningChain_lt
  have hbundles : ((newIngestPlan hash upload).bundleExecutableLinks.map
      SharedRow.bundleExecutable).Pairwise (· < ·) := by
    rw [List.pairwise_map]
    exact (sort_pairwise_lt _).imp bundleExecutable_lt
  rw [insertPlanRelationships, List.pairwise_append, List.pairwise_append]
  refine ⟨chainEntries_pairwise, ⟨hlinks.filter _, hbundles.filter _, ?_⟩, ?_⟩
  · simp only [List.mem_filter, List.mem_map]
    rintro _ ⟨⟨a, -, rfl⟩, -⟩ _ ⟨⟨c, -, rfl⟩, -⟩
    exact lt_of_rank (by simp [SharedRow.rank, SharedRow.key])
  · simp only [List.mem_append, List.mem_filter, List.mem_map, List.mem_flatMap]
    rintro _ ⟨chain, -, a, -, rfl⟩ _ (⟨⟨c, -, rfl⟩, -⟩ | ⟨⟨c, -, rfl⟩, -⟩)
    all_goals exact lt_of_rank (by simp [SharedRow.rank, SharedRow.key])

/-- All rows that are locked anew, in one ascending order. -/
theorem rows_pairwise (present : SharedRow → Bool) :
    (upsertPlanReferences (newIngestPlan hash upload) ++
      insertPlanRelationships present (newIngestPlan hash upload)).Pairwise (· < ·) := by
  refine List.pairwise_append.mpr ⟨references_pairwise, relationships_pairwise present, ?_⟩
  simp only [upsertPlanReferences, insertPlanRelationships, List.mem_append, List.mem_filter,
    List.mem_map, List.mem_flatMap]
  rintro _ (⟨a, -, rfl⟩ | ⟨a, -, rfl⟩ | ⟨a, -, rfl⟩ | ⟨a, -, rfl⟩) _
    (⟨chain, -, c, -, rfl⟩ | ⟨⟨c, -, rfl⟩, -⟩ | ⟨⟨c, -, rfl⟩, -⟩)
  all_goals exact lt_of_rank (by simp [SharedRow.rank, SharedRow.key])

/-- A lock taken anew is above all that are held; the completion updates meet bundles
that are held already. -/
theorem ingestEventsTx_above (present : SharedRow → Bool) {taken rest : List SharedRow} {row : SharedRow}
    (h : ingestEventsTx present (newIngestPlan hash upload) = taken ++ row :: rest) :
    row ∈ taken ∧ row.isBundle = true ∨ ∀ held ∈ taken, held < row := by
  have hrelock : ∀ row ∈ reconcilePlanBundleCompletion (newIngestPlan hash upload),
      row ∈ upsertPlanReferences (newIngestPlan hash upload) ++
        insertPlanRelationships present (newIngestPlan hash upload) ∧ row.isBundle = true := by
    intro row hrow
    obtain ⟨bundle, hb, rfl⟩ := List.mem_map.mp hrow
    refine ⟨?_, rfl⟩
    simp only [upsertPlanReferences, List.mem_append, List.mem_map]
    exact .inl (.inr (.inr (.inr ⟨bundle, hb, rfl⟩)))
  rcases List.append_eq_append_iff.mp h with ⟨more, rfl, hrest⟩ | ⟨more, hrows, hrest⟩
  · obtain ⟨hmem, hbundle⟩ := hrelock row (by rw [hrest]; simp)
    exact .inl ⟨List.mem_append_left _ hmem, hbundle⟩
  · cases more with
    | nil =>
      rw [List.append_nil] at hrows
      obtain ⟨hmem, hbundle⟩ := hrelock row (by rw [List.nil_append] at hrest; rw [← hrest]; simp)
      exact .inl ⟨hrows ▸ hmem, hbundle⟩
    | cons first more =>
      obtain ⟨rfl, -⟩ := List.cons.inj hrest
      have hpairwise := @rows_pairwise hash upload present
      rw [hrows, List.pairwise_append] at hpairwise
      exact .inr (fun held hheld => hpairwise.2.2 held hheld row List.mem_cons_self)

def Refers (hash : List String → String) (event : ExecutionEventInput) : SharedRow → Prop
  | .executable k => event.fileSHA256 = k
  | .signingChain k => chainOf hash event = some k
  | .certificate k => ∃ c ∈ signingChainEntries event.signingChain, c.sha256 = k
  | .bundle k => event.bundleHash ≠ "" ∧ event.bundleHash = k
  | .signingChainEntry k n =>
    chainOf hash event = some k ∧ n < (signingChainEntries event.signingChain).length
  | .executableSigningChain link => ∃ k, chainOf hash event = some k ∧ link = ⟨event.fileSHA256, k⟩
  | .bundleExecutable link => event.bundleHash ≠ "" ∧ link = ⟨event.bundleHash, event.fileSHA256⟩

theorem mem_zipIdx_map {β : Type} {l : List β} {row : ℕ → SharedRow} (hrow : Function.Injective row) {n : ℕ} :
    row n ∈ l.zipIdx.map (fun entry => row entry.2) ↔ n < l.length := by
  have hmap : l.zipIdx.map (fun entry => row entry.2) = (List.range' 0 l.length).map row := by
    rw [← List.zipIdx_map_snd 0 l, List.map_map]
    rfl
  rw [hmap, List.mem_map_of_injective hrow, List.mem_range'_1]
  omega

theorem signingChainEntry_injective (chain : String) :
    Function.Injective (SharedRow.signingChainEntry chain) := fun _ _ h => (SharedRow.signingChainEntry.inj h).2

theorem mem_references {event : ExecutionEventInput} {row : SharedRow} :
    row ∈ references hash event ↔ Refers hash event row := by
  unfold references
  by_cases hentries : signingChainEntries event.signingChain = []
  · cases row <;> by_cases hb : event.bundleHash = "" <;>
      simp [Refers, chainOf, hentries, hb, eq_comm]
  · cases row with
    | signingChainEntry k n =>
      by_cases hk : signingChainHash hash (signingChainEntries event.signingChain) = k
      · subst hk
        have := mem_zipIdx_map (l := signingChainEntries event.signingChain) (n := n)
          (signingChainEntry_injective (signingChainHash hash (signingChainEntries event.signingChain)))
        by_cases hb : event.bundleHash = "" <;> simp [Refers, chainOf, hentries, hb] at this ⊢ <;> exact this
      · by_cases hb : event.bundleHash = "" <;> simp [Refers, chainOf, hentries, hb, hk]
    | executable k => by_cases hb : event.bundleHash = "" <;> simp [Refers, hentries, hb, eq_comm]
    | signingChain k => by_cases hb : event.bundleHash = "" <;> simp [Refers, chainOf, hentries, hb, eq_comm]
    | certificate k => by_cases hb : event.bundleHash = "" <;> simp [Refers, hentries, hb]
    | bundle k => by_cases hb : event.bundleHash = "" <;> simp [Refers, hentries, hb, eq_comm]
    | executableSigningChain link =>
      by_cases hb : event.bundleHash = "" <;> simp [Refers, chainOf, hentries, hb]
    | bundleExecutable link => by_cases hb : event.bundleHash = "" <;> simp [Refers, hentries, hb]

theorem exists_sortedMapValues {f : α → String} (h : ∀ k, ∀ w ∈ m.lookup k, f w = k) {k : String} :
    (∃ w ∈ sortedMapValues m, f w = k) ↔ k ∈ m := by
  rw [← mem_sortedMapKeys, ← sortedMapValues_key h, List.mem_map]

/-- Chains under one hash have one length. -/
def CollisionFree (hash : List String → String) (events : List ExecutionEventInput) : Prop :=
  ∀ e ∈ events, ∀ e' ∈ events, (chainOf hash e).isSome = true → chainOf hash e = chainOf hash e' →
    (signingChainEntries e.signingChain).length = (signingChainEntries e'.signingChain).length

instance (hash : List String → String) (events : List ExecutionEventInput) :
    Decidable (CollisionFree hash events) := by
  unfold CollisionFree
  infer_instance

theorem mem_chainEntries (hfree : CollisionFree hash upload.executionEvents) {k : String} {n : ℕ} :
    (∃ chain ∈ (newIngestPlan hash upload).signingChains,
        ∃ entry ∈ chain.entries.zipIdx, chain.sha256 = k ∧ entry.2 = n) ↔
      ∃ e ∈ upload.executionEvents, chainOf hash e = some k ∧
        n < (signingChainEntries e.signingChain).length := by
  have hbuilt := built_plan hash upload.executionEvents
  have hpositions : ∀ chain : SigningChainWrite,
      (∃ entry ∈ chain.entries.zipIdx, entry.2 = n) ↔ n < chain.entries.length := by
    intro chain
    rw [← List.mem_map, List.zipIdx_map_snd, List.mem_range'_1]
    omega
  constructor
  · rintro ⟨chain, hchain, entry, hentry, hk, hn⟩
    obtain ⟨k', hlookup⟩ := mem_sortedMapValues.mp hchain
    obtain rfl := hk.symm.trans (hbuilt.chain_key k' chain hlookup)
    obtain ⟨e, he, hc, hentries⟩ := hbuilt.chain_entries k chain hlookup
    exact ⟨e, he, hc, hentries ▸ (hpositions chain).mp ⟨entry, hentry, hn⟩⟩
  · rintro ⟨e, he, hc, hn⟩
    have hmem : k ∈ (buildPlan hash upload.executionEvents).signingChains :=
      (hbuilt.chains k).mpr ⟨e, he, hc⟩
    obtain ⟨chain, hlookup⟩ := Option.isSome_iff_exists.mp (AList.lookup_isSome.mpr hmem)
    obtain ⟨e', he', hc', hentries⟩ := hbuilt.chain_entries k chain hlookup
    have hlength := hfree e he e' he' (by rw [hc]; rfl) (hc.trans hc'.symm)
    obtain ⟨entry, hentry, hpos⟩ := (hpositions chain).mpr (by rw [hentries]; omega)
    exact ⟨chain, mem_sortedMapValues.mpr ⟨k, hlookup⟩, entry, hentry,
      hbuilt.chain_key k chain hlookup, hpos⟩

theorem mem_rows (hfree : CollisionFree hash upload.executionEvents) {row : SharedRow} :
    row ∈ upsertPlanReferences (newIngestPlan hash upload) ++
        insertPlanRelationships (fun _ => false) (newIngestPlan hash upload) ↔
      ∃ e ∈ upload.executionEvents, Refers hash e row := by
  have hbuilt := built_plan hash upload.executionEvents
  simp only [upsertPlanReferences, insertPlanRelationships, List.mem_append, List.mem_filter,
    List.mem_map, List.mem_flatMap, Bool.not_false, and_true]
  cases row with
  | executable k =>
    simp only [SharedRow.executable.injEq, reduceCtorEq, and_false, exists_false, or_false]
    exact (exists_sortedMapValues hbuilt.executable_key).trans (hbuilt.executables k)
  | signingChain k =>
    simp only [SharedRow.signingChain.injEq, reduceCtorEq, and_false, exists_false, or_false, false_or]
    exact (exists_sortedMapValues hbuilt.chain_key).trans (hbuilt.chains k)
  | certificate k =>
    simp only [SharedRow.certificate.injEq, reduceCtorEq, and_false, exists_false, or_false, false_or]
    exact (exists_sortedMapValues hbuilt.certificate_key).trans (hbuilt.certificates k)
  | bundle k =>
    simp only [SharedRow.bundle.injEq, reduceCtorEq, and_false, exists_false, or_false, false_or]
    exact (exists_sortedMapValues hbuilt.bundle_key).trans (hbuilt.bundles k)
  | signingChainEntry k n =>
    simp only [SharedRow.signingChainEntry.injEq, reduceCtorEq, and_false, exists_false, or_false, false_or]
    exact mem_chainEntries hfree
  | executableSigningChain link =>
    simp only [SharedRow.executableSigningChain.injEq, reduceCtorEq, and_false, exists_false, or_false,
      false_or, exists_eq_right]
    exact (Finset.mem_sort _).trans (hbuilt.executable_links link)
  | bundleExecutable link =>
    simp only [SharedRow.bundleExecutable.injEq, reduceCtorEq, and_false, exists_false, false_or,
      exists_eq_right]
    exact (Finset.mem_sort _).trans (hbuilt.bundle_links link)

/-- The rows of a plan are the set of the rows that the events refer to, sorted. -/
theorem rows_eq_sort (hfree : CollisionFree hash upload.executionEvents) :
    upsertPlanReferences (newIngestPlan hash upload) ++
        insertPlanRelationships (fun _ => false) (newIngestPlan hash upload) =
      (upload.executionEvents.flatMap (references hash)).toFinset.sort (· ≤ ·) := by
  have hpairwise := @rows_pairwise hash upload (fun _ => false)
  have hnodup : (upsertPlanReferences (newIngestPlan hash upload) ++
      insertPlanRelationships (fun _ => false) (newIngestPlan hash upload)).Nodup :=
    hpairwise.imp (fun h => ne_of_lt h)
  rw [← (List.toFinset_sort (· ≤ ·) hnodup).mpr (hpairwise.imp (fun h => le_of_lt h))]
  congr 1
  ext row
  simp only [List.mem_toFinset, mem_rows hfree, List.mem_flatMap, mem_references]

/-- The bundles that a response may ask for. -/
def requestedBundles (events : List ExecutionEventInput) : Finset String :=
  ((events.filter (fun e => e.bundleHash != "" && e.decision != .bundleBinary)).map
    ExecutionEventInput.bundleHash).toFinset

theorem bundleRequestHashes_eq_sort : (newIngestPlan hash upload).bundleRequestHashes =
    (requestedBundles upload.executionEvents).sort (· ≤ ·) := by
  have hbuilt := built_plan hash upload.executionEvents
  change (buildPlan hash upload.executionEvents).bundleRequestHashes.sort (· ≤ ·) = _
  congr 1
  ext k
  rw [hbuilt.requests]
  simp [requestedBundles, and_assoc]

end

/-- For any uploads at once, each with the links that are there when it inserts them. -/
theorem uploads_never_deadlock {ι : Type} [Fintype ι] [DecidableEq ι] (hash : List String → String)
    (uploads : ι → Upload) (present : ι → SharedRow → Bool) :
    (∀ i taken row rest, ingestEvents hash (present i) (uploads i) = taken ++ row :: rest →
      row ∈ taken ∧ row.isBundle = true ∨ ∀ held ∈ taken, held < row) ∧
    (∀ sched s, tryExec (LockOrder.step (fun i => ingestEvents hash (present i) (uploads i))) {} sched = some s →
      ¬LockOrder.Deadlocked (fun i => ingestEvents hash (present i) (uploads i)) s) ∧
    ∀ i, (CollisionFree hash (uploads i).executionEvents →
        upsertPlanReferences (newIngestPlan hash (uploads i)) ++
            insertPlanRelationships (fun _ => false) (newIngestPlan hash (uploads i)) =
          ((uploads i).executionEvents.flatMap (references hash)).toFinset.sort (· ≤ ·)) ∧
      (newIngestPlan hash (uploads i)).bundleRequestHashes =
        (requestedBundles (uploads i).executionEvents).sort (· ≤ ·) := by
  have habove : ∀ i taken row rest, ingestEvents hash (present i) (uploads i) = taken ++ row :: rest →
      row ∈ taken ∧ row.isBundle = true ∨ ∀ held ∈ taken, held < row := by
    intro i taken row rest h
    unfold ingestEvents at h
    split_ifs at h
    · simp at h
    · simp at h
    · exact ingestEventsTx_above (present i) h
  refine ⟨habove, fun sched s hrun hdeadlock => ?_, fun i => ⟨rows_eq_sort, bundleRequestHashes_eq_sort⟩⟩
  have hring := LockOrder.deadlock_iff_ring.mp ⟨sched, s, hrun, hdeadlock⟩
  refine LockOrder.not_ring_of_above (fun i taken x rest h => ?_) hring
  exact (habove i taken x rest h).imp And.left id

/-- The text that is hashed, up to the separators. -/
def framed (fields : List String) : String :=
  fields.foldl (fun text field => text ++ "." ++ toString field.length ++ ":" ++ field) "v1"

def execution (file bundle : String) (chain : List String) : ExecutionEventInput where
  fileSHA256 := file
  occurredAt := some 0
  decision := .allowBinary
  bundleHash := bundle
  signingChain := chain.map (fun sha256 => { sha256 := sha256 })

local instance twoReports : NeZero 2 := ⟨Nat.succ_ne_zero 1⟩

/-- Two hosts report the same two executables in opposite orders. -/
def crossed (i : Fin 2) : Upload where
  executionEvents :=
    if i = 0 then [execution "b" "y" ["d", "c"], execution "a" "x" ["c"]]
    else [execution "a" "x" ["c"], execution "b" "y" ["d", "c"]]

theorem uploads_never_deadlock_crossed :
    upsertPlanReferences (newIngestPlan framed (crossed 0)) ++
        insertPlanRelationships (fun _ => false) (newIngestPlan framed (crossed 0)) =
      ((crossed 0).executionEvents.flatMap (references framed)).toFinset.sort (· ≤ ·) :=
  ((uploads_never_deadlock framed crossed (fun _ _ => false)).2.2 0).1 (by decide)

end SantaUploads
