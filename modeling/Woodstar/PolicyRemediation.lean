import Woodstar.PolicyModel

/-!
# Remediation runs

`internal/osquery/policies/remediation.go`: the batch upsert that queues runs,
RunRemediations, the two delivery queries and the recording of a result.
-/
namespace PolicyRemediation

open Primitives (Fault bind_eq_ok isText btrimNotEmpty truncateRunes)
open KeyedRows (Table upsertAll)
open PolicyModel

def maxRemediationOutputRunes : Nat := 10000

/-- One row of the batch before its token is drawn. -/
structure Candidate where
  key : Pair
  failureSequence : Int
  remediationRevision : Int
  script : String
  automatic : Bool
  deriving DecidableEq, Repr

/-- The proposed row. PostgreSQL checks it before it looks for a conflict. That
`execution_id` is UNIQUE needs no check: no token is drawn twice. -/
def Candidate.newRun (c : Candidate) (executionID : String) : Except Fault RunRow :=
  if hf : 0 < c.failureSequence then
    if hr : 0 < c.remediationRevision then
      if hs : btrimNotEmpty c.script = true then
        .ok {
          executionID := executionID
          scriptContents := c.script
          remediationRevision := c.remediationRevision
          failureSequence := c.failureSequence
          automatic := c.automatic
          script_check := hs
          revision_check := hr
          failure_check := hf }
      else .error (.database "osquery_policy_remediation_runs_script_contents_check")
    else .error (.database "osquery_policy_remediation_runs_remediation_revision_check")
  else .error (.database "osquery_policy_remediation_runs_failure_sequence_check")

/-- A candidate that meets the CHECK constraints. -/
structure Candidate.Valid (c : Candidate) : Prop where
  failure : 0 < c.failureSequence
  revision : 0 < c.remediationRevision
  script : btrimNotEmpty c.script = true

def newRuns (crypto : Crypto) (drawn : Nat) : List Candidate → Except Fault (List (Pair × RunRow))
  | [] => .ok []
  | c :: cs => do
    let run ← c.newRun (crypto.draw drawn)
    let runs ← newRuns crypto (drawn + 1) cs
    .ok ((c.key, run) :: runs)

/-- The WHERE of the conflict action. -/
def replaces (new old : RunRow) : Bool :=
  old.reported.isSome || old.remediationRevision != new.remediationRevision ||
    old.failureSequence != new.failureSequence || old.scriptContents != new.scriptContents

def upsertRun (entry : Pair × RunRow) : Option RunRow → RunRow
  | none => entry.2
  | some old => if replaces entry.2 old = true then entry.2 else old

/-- An upserted row is the proposed one or the old one. -/
theorem upsertRun_cases {k : Pair} {new run : RunRow} {old : Option RunRow}
    (h : upsertRun (k, new) old = run) : run = new ∨ old = some run := by
  cases old with
  | none => exact .inl h.symm
  | some old =>
    simp only [upsertRun] at h
    split_ifs at h
    · exact .inl h.symm
    · exact .inr (by rw [h])

/-- The rows that RETURNING yields. -/
def returned (db : Db) (rows : List (Pair × RunRow)) : List (Pair × RunRow) :=
  rows.filter (fun entry => (db.runs entry.1).all (replaces entry.2))

/-- `enqueueRemediationBatchTx`, with the tokens its callers draw for it. -/
def enqueueRemediationBatch (crypto : Crypto) (db : Db) (batch : List Candidate) :
    Except Fault (Db × List (Pair × RunRow)) := do
  let rows ← newRuns crypto db.drawn batch
  .ok ({ db with
      runs := upsertAll Prod.fst upsertRun db.runs rows
      drawn := db.drawn + batch.length }, returned db rows)

section Batch

variable {crypto : Crypto} {db db' : Db} {c : Candidate} {cs batch : List Candidate} {n : Nat}
  {executionID : String} {run : RunRow} {rows stored : List (Pair × RunRow)}

/-- The row of a candidate under a token. -/
structure IsNewRun (c : Candidate) (executionID : String) (run : RunRow) : Prop where
  executionID : run.executionID = executionID
  scriptContents : run.scriptContents = c.script
  remediationRevision : run.remediationRevision = c.remediationRevision
  failureSequence : run.failureSequence = c.failureSequence
  automatic : run.automatic = c.automatic
  reported : run.reported = none

theorem newRun_ok (h : c.newRun executionID = .ok run) : IsNewRun c executionID run := by
  unfold Candidate.newRun at h
  split_ifs at h
  cases h
  exact ⟨rfl, rfl, rfl, rfl, rfl, rfl⟩

theorem newRun_valid (h : c.Valid) (executionID : String) : ∃ run, c.newRun executionID = .ok run := by
  unfold Candidate.newRun
  rw [dif_pos h.failure, dif_pos h.revision, dif_pos h.script]
  exact ⟨_, rfl⟩

theorem newRuns_valid (crypto : Crypto) (n : Nat) (h : ∀ c ∈ cs, c.Valid) :
    ∃ rows, newRuns crypto n cs = .ok rows := by
  induction cs generalizing n with
  | nil => exact ⟨[], rfl⟩
  | cons c cs ih =>
    obtain ⟨run, hrun⟩ := newRun_valid (h c (List.mem_cons_self ..)) (crypto.draw n)
    obtain ⟨rows, hrows⟩ := ih (n + 1) (fun c' hc => h c' (List.mem_cons_of_mem _ hc))
    refine ⟨(c.key, run) :: rows, ?_⟩
    unfold newRuns
    rw [hrun, hrows]
    rfl

theorem newRuns_cons (h : newRuns crypto n (c :: cs) = .ok rows) :
    ∃ run rest, IsNewRun c (crypto.draw n) run ∧ newRuns crypto (n + 1) cs = .ok rest ∧
      rows = (c.key, run) :: rest := by
  unfold newRuns at h
  obtain ⟨run, hrun, h⟩ := bind_eq_ok.mp h
  obtain ⟨rest, hrest, h⟩ := bind_eq_ok.mp h
  cases h
  exact ⟨run, rest, newRun_ok hrun, hrest, rfl⟩

theorem newRuns_keys (h : newRuns crypto n cs = .ok rows) :
    rows.map Prod.fst = cs.map Candidate.key := by
  induction cs generalizing n rows with
  | nil =>
    cases h
    rfl
  | cons c cs ih =>
    obtain ⟨run, rest, -, hrest, rfl⟩ := newRuns_cons h
    rw [List.map_cons, List.map_cons, ih hrest]

/-- A row of the batch comes from a candidate and one of the drawn tokens. -/
theorem newRuns_mem (h : newRuns crypto n cs = .ok rows) {entry : Pair × RunRow} (he : entry ∈ rows) :
    ∃ c ∈ cs, ∃ i, n ≤ i ∧ i < n + cs.length ∧ entry.1 = c.key ∧
      IsNewRun c (crypto.draw i) entry.2 := by
  induction cs generalizing n rows with
  | nil =>
    cases h
    cases he
  | cons c cs ih =>
    obtain ⟨run, rest, hrun, hrest, rfl⟩ := newRuns_cons h
    rw [List.length_cons]
    rcases List.mem_cons.mp he with rfl | he
    · exact ⟨c, List.mem_cons_self .., n, by omega, by omega, rfl, hrun⟩
    · obtain ⟨c', hc, i, hlo, hhi, hkey, hnew⟩ := ih hrest he
      exact ⟨c', List.mem_cons_of_mem _ hc, i, by omega, by omega, hkey, hnew⟩

theorem newRuns_distinct {m : Nat} (hdraw : crypto.DistinctTokens m) (hm : n + cs.length ≤ m)
    (h : newRuns crypto n cs = .ok rows) :
    (rows.map (fun entry => entry.2.executionID)).Nodup := by
  induction cs generalizing n rows with
  | nil =>
    cases h
    exact List.nodup_nil
  | cons c cs ih =>
    obtain ⟨run, rest, hrun, hrest, rfl⟩ := newRuns_cons h
    rw [List.length_cons] at hm
    refine List.nodup_cons.mpr ⟨?_, ih (by omega) hrest⟩
    intro hmem
    obtain ⟨entry, he, heq⟩ := List.mem_map.mp hmem
    obtain ⟨c', -, i, hlo, hhi, -, hnew⟩ := newRuns_mem hrest he
    have := hdraw n (by omega) i (by omega)
      (hrun.executionID.symm.trans (heq.symm.trans hnew.executionID))
    omega

theorem enqueue_valid (crypto : Crypto) (db : Db) (h : ∀ c ∈ batch, c.Valid) :
    ∃ result, enqueueRemediationBatch crypto db batch = .ok result := by
  obtain ⟨rows, hrows⟩ := newRuns_valid crypto db.drawn h
  unfold enqueueRemediationBatch
  rw [hrows]
  exact ⟨_, rfl⟩

theorem enqueue_ok (h : enqueueRemediationBatch crypto db batch = .ok (db', stored)) :
    ∃ rows, newRuns crypto db.drawn batch = .ok rows ∧
      db' = { db with
        runs := upsertAll Prod.fst upsertRun db.runs rows
        drawn := db.drawn + batch.length } := by
  unfold enqueueRemediationBatch at h
  obtain ⟨rows, hrows, h⟩ := bind_eq_ok.mp h
  cases h
  exact ⟨rows, hrows, rfl⟩

/-- The row under a key that no candidate has stays. -/
theorem enqueue_other (h : enqueueRemediationBatch crypto db batch = .ok (db', stored)) {k : Pair}
    (hk : k ∉ batch.map Candidate.key) : db'.runs k = db.runs k := by
  obtain ⟨rows, hrows, rfl⟩ := enqueue_ok h
  rw [← newRuns_keys hrows] at hk
  exact KeyedRows.upsertAll_of_notMem hk

/-- The row under a candidate's key is the candidate's, unless the old row stays. -/
theorem enqueue_at (h : enqueueRemediationBatch crypto db batch = .ok (db', stored))
    (hkeys : (batch.map Candidate.key).Nodup) (hc : c ∈ batch) :
    ∃ i run, db.drawn ≤ i ∧ i < db'.drawn ∧ IsNewRun c (crypto.draw i) run ∧
      db'.runs c.key = some (upsertRun (c.key, run) (db.runs c.key)) := by
  obtain ⟨rows, hrows, rfl⟩ := enqueue_ok h
  have hmem : c.key ∈ rows.map Prod.fst := by
    rw [newRuns_keys hrows]
    exact List.mem_map.mpr ⟨c, hc, rfl⟩
  obtain ⟨⟨k, run⟩, he, hkey⟩ := List.mem_map.mp hmem
  simp only at hkey
  subst hkey
  obtain ⟨c', hc', i, hlo, hhi, hkey', hnew⟩ := newRuns_mem hrows he
  have hcc : c' = c := List.inj_on_of_nodup_map hkeys hc' hc hkey'.symm
  subst hcc
  refine ⟨i, run, hlo, hhi, hnew, ?_⟩
  have hnodup : (rows.map Prod.fst).Nodup := newRuns_keys hrows ▸ hkeys
  exact KeyedRows.upsertAll_of_mem hnodup he

/-- A row found after the batch was there before, or is one of the batch. -/
theorem enqueue_cases (hkeys : (rows.map Prod.fst).Nodup) {k : Pair}
    (h : upsertAll Prod.fst upsertRun db.runs rows k = some run) :
    db.runs k = some run ∨ (k, run) ∈ rows := by
  by_cases hk : k ∈ rows.map Prod.fst
  · obtain ⟨⟨k', new⟩, he, rfl⟩ := List.mem_map.mp hk
    rw [KeyedRows.upsertAll_of_mem hkeys he, Option.some.injEq] at h
    rcases upsertRun_cases h with rfl | hold
    · exact .inr he
    · exact .inl hold
  · rw [KeyedRows.upsertAll_of_notMem hk] at h
    exact .inl h

/-- Every stored execution id is a token drawn for that row alone. -/
structure OwnTokens (crypto : Crypto) (db : Db) : Prop where
  drawn : ∀ k run, db.runs k = some run → ∃ i < db.drawn, run.executionID = crypto.draw i
  unique : ∀ k k' run run', db.runs k = some run → db.runs k' = some run' →
    run.executionID = run'.executionID → k = k'

theorem enqueue_ownTokens {m : Nat} (hdraw : crypto.DistinctTokens m) (hm : db'.drawn ≤ m)
    (hown : OwnTokens crypto db) (hkeys : (batch.map Candidate.key).Nodup)
    (h : enqueueRemediationBatch crypto db batch = .ok (db', stored)) : OwnTokens crypto db' := by
  obtain ⟨rows, hrows, rfl⟩ := enqueue_ok h
  rw [← newRuns_keys hrows] at hkeys
  simp only at hm
  have hfresh : ∀ k k' run run', db.runs k = some run → (k', run') ∈ rows →
      run.executionID ≠ run'.executionID := by
    intro k k' run run' hrun hrun' heq
    obtain ⟨i, hi, hid⟩ := hown.drawn k run hrun
    obtain ⟨c, -, j, hj, hj', -, hnew⟩ := newRuns_mem hrows hrun'
    have := hdraw i (by omega) j (by omega) (hid.symm.trans (heq.trans hnew.executionID))
    omega
  constructor
  · intro k run hrun
    simp only
    rcases enqueue_cases hkeys hrun with hrun | hrun
    · obtain ⟨i, hi, hid⟩ := hown.drawn k run hrun
      exact ⟨i, by omega, hid⟩
    · obtain ⟨c, -, i, -, hi, -, hnew⟩ := newRuns_mem hrows hrun
      exact ⟨i, hi, hnew.executionID⟩
  · intro k k' run run' hrun hrun' heq
    rcases enqueue_cases hkeys hrun with hrun | hrun
    · rcases enqueue_cases hkeys hrun' with hrun' | hrun'
      · exact hown.unique k k' run run' hrun hrun' heq
      · exact absurd heq (hfresh _ _ _ _ hrun hrun')
    · rcases enqueue_cases hkeys hrun' with hrun' | hrun'
      · exact absurd heq.symm (hfresh _ _ _ _ hrun' hrun)
      · have := List.inj_on_of_nodup_map (newRuns_distinct hdraw hm hrows) hrun hrun' heq
        exact congrArg Prod.fst this

end Batch

structure RemediationCandidate where
  hostID : Int
  failureSequence : Int
  eligible : Bool
  deriving DecidableEq, Repr

structure PolicyRemediationBatchSummary where
  queued : Int
  skipped : Int
  deriving DecidableEq, Repr

def normalizeRemediationHostIDs (hostIDs : List Int) : Except Fault (List Int) :=
  if hostIDs.any (· ≤ 0) = true then .error (.invalidInput "host IDs must be positive")
  else .ok hostIDs.eraseDups

/-- The failing hosts of the request, in the order of their ids. -/
def remediationCandidates (db : Db) (policyID : Int) (hostIDs : List Int) (allFailures : Bool) :
    List RemediationCandidate :=
  db.hosts.ids.filterMap (fun hostID =>
    match db.membership ⟨policyID, hostID⟩, db.hosts.row hostID with
    | some membership, some host =>
      if db.assigned ⟨policyID, hostID⟩ = true ∧ membership.status = .fail ∧
          (allFailures = true ∨ hostID ∈ hostIDs) then
        some ⟨hostID, membership.remediationFailureSequence, host.runsScripts⟩
      else none
    | _, _ => none)

def manualRemediation (policyID : Int) (policy : PolicyRow) (c : RemediationCandidate) : Candidate where
  key := ⟨policyID, c.hostID⟩
  failureSequence := c.failureSequence
  remediationRevision := policy.remediationRevision
  script := policy.remediationScript
  automatic := false

def manualBatch (db : Db) (policyID : Int) (policy : PolicyRow) (hostIDs : List Int)
    (allFailures : Bool) : List Candidate :=
  ((remediationCandidates db policyID hostIDs allFailures).filter (fun c => c.eligible)).map
    (manualRemediation policyID policy)

def runRemediations (crypto : Crypto) (db : Db) (policyID : Int) (hostIDs : List Int)
    (allFailures : Bool) : Except Fault (Db × PolicyRemediationBatchSummary) := do
  let hostIDs ← normalizeRemediationHostIDs hostIDs
  if allFailures = !hostIDs.isEmpty then
    .error (.invalidInput "choose either all failures or one or more hosts")
  else
    match db.policies.row policyID with
    | none => .error .notFound
    | some policy =>
      if policy.remediationScript = "" then .error (.conflict "policy has no remediation script")
      else
        let candidates := remediationCandidates db policyID hostIDs allFailures
        let result ← enqueueRemediationBatch crypto db
          (manualBatch db policyID policy hostIDs allFailures)
        let queued : Int := result.2.length
        let considered : Int := if allFailures = true then candidates.length else hostIDs.length
        .ok (result.1, ⟨queued, considered - queued⟩)

section Manual

variable {crypto : Crypto} {db db' : Db} {policyID : Int} {policy : PolicyRow} {hostIDs : List Int}
  {allFailures : Bool}

/-- What the request queues: for every failing assigned host of it that runs
scripts, the policy's script under the host's failure sequence. -/
theorem mem_manualBatch {c : Candidate} :
    c ∈ manualBatch db policyID policy hostIDs allFailures ↔
      ∃ hostID membership host, db.membership ⟨policyID, hostID⟩ = some membership ∧
        db.hosts.row hostID = some host ∧ db.assigned ⟨policyID, hostID⟩ = true ∧
        membership.status = .fail ∧ (allFailures = true ∨ hostID ∈ hostIDs) ∧
        host.runsScripts = true ∧
        c = ⟨⟨policyID, hostID⟩, membership.remediationFailureSequence, policy.remediationRevision,
          policy.remediationScript, false⟩ := by
  simp only [manualBatch, List.mem_map, List.mem_filter, remediationCandidates, List.mem_filterMap]
  constructor
  · rintro ⟨r, ⟨⟨hostID, -, hr⟩, heligible⟩, rfl⟩
    split at hr
    · rename_i membership host hm hh
      split_ifs at hr with hc
      cases hr
      exact ⟨hostID, membership, host, hm, hh, hc.1, hc.2.1, hc.2.2, heligible, rfl⟩
    · cases hr
  · rintro ⟨hostID, membership, host, hm, hh, ha, hs, hr, heligible, rfl⟩
    refine ⟨⟨hostID, membership.remediationFailureSequence, host.runsScripts⟩,
      ⟨⟨hostID, ?_, ?_⟩, heligible⟩, rfl⟩
    · exact Table.mem_ids.mpr (by rw [hh]; rfl)
    · simp only [hm, hh]
      rw [if_pos ⟨ha, hs, hr⟩]

theorem manualBatch_keys :
    ((manualBatch db policyID policy hostIDs allFailures).map Candidate.key).Nodup := by
  have hids : ((remediationCandidates db policyID hostIDs allFailures).map
      RemediationCandidate.hostID).Nodup := by
    refine KeyedRows.nodup_keys_filterMap id Function.injective_id db.hosts.ids_nodup ?_
    intro id r hr
    split at hr
    · split_ifs at hr
      cases hr
      rfl
    · cases hr
  have hkey : (manualBatch db policyID policy hostIDs allFailures).map Candidate.key =
      (((remediationCandidates db policyID hostIDs allFailures).filter
        (fun c => c.eligible)).map RemediationCandidate.hostID).map (fun id => ⟨policyID, id⟩) := by
    simp [manualBatch, manualRemediation, Function.comp_def]
  rw [hkey]
  exact (List.Nodup.sublist (List.Sublist.map _ List.filter_sublist) hids).map
    (fun _ _ h => (Pair.mk.inj h).2)

/-- A request that succeeds found the policy with a script and queued its batch. -/
theorem runRemediations_ok {summary : PolicyRemediationBatchSummary}
    (h : runRemediations crypto db policyID hostIDs allFailures = .ok (db', summary)) :
    ∃ policy ids stored, db.policies.row policyID = some policy ∧ policy.remediationScript ≠ "" ∧
      normalizeRemediationHostIDs hostIDs = .ok ids ∧
      enqueueRemediationBatch crypto db (manualBatch db policyID policy ids allFailures) =
        .ok (db', stored) := by
  unfold runRemediations at h
  obtain ⟨ids, hids, h⟩ := bind_eq_ok.mp h
  split at h
  · cases h
  · cases hp : db.policies.row policyID with
    | none => simp [hp] at h
    | some policy =>
      simp only [hp] at h
      split at h
      · cases h
      · rename_i hs
        obtain ⟨⟨db'', stored⟩, hq, h⟩ := bind_eq_ok.mp h
        cases h
        exact ⟨policy, ids, stored, rfl, hs, hids, hq⟩

end Manual

structure RemediationResult where
  executionID : String
  output : String := ""
  runtimeSeconds : Int := 0
  exitCode : Int := 0
  deriving DecidableEq, Repr

/-- The range of the type INTEGER. -/
def isInteger (n : Int) : Bool := -2147483648 ≤ n && n ≤ 2147483647

def reportRun (run : RunRow) (report : Report) : RunRow := { run with reported := some report }

def recordRemediationResult (db : Db) (hostID : Int) (result : RemediationResult) : Except Fault Db :=
  if h : result.executionID = "" ∨ result.runtimeSeconds < 0 then .error (.invalidInput "")
  else
    let output := truncateRunes result.output maxRemediationOutputRunes
    if (isText result.executionID && isText output) = false then
      .error (.database "character_not_in_repertoire")
    else if (isInteger result.runtimeSeconds && isInteger result.exitCode) = false then
      .error (.database "numeric_value_out_of_range")
    else
      let report : Report := {
        output := output
        runtimeSeconds := result.runtimeSeconds
        exitCode := result.exitCode
        runtime_check := by omega }
      .ok { db with runs := fun k => (db.runs k).map (fun run =>
        if k.hostID = hostID ∧ run.executionID = result.executionID ∧ run.reported = none then
          reportRun run report
        else run) }

/-- A recorded result reaches the unreported row of its execution, and no other. -/
theorem recordRemediationResult_ok {db db' : Db} {hostID : Int} {result : RemediationResult}
    (h : recordRemediationResult db hostID result = .ok db') :
    ∃ report : Report, report.output = truncateRunes result.output maxRemediationOutputRunes ∧
      report.runtimeSeconds = result.runtimeSeconds ∧ report.exitCode = result.exitCode ∧
      db' = { db with runs := fun k => (db.runs k).map (fun run =>
        if k.hostID = hostID ∧ run.executionID = result.executionID ∧ run.reported = none then
          reportRun run report
        else run) } := by
  unfold recordRemediationResult at h
  simp only at h
  split_ifs at h
  cases h
  exact ⟨_, rfl, rfl, rfl, rfl⟩

end PolicyRemediation
