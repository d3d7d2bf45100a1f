import Woodstar.PolicyRemediation

/-!
# The policy store

`internal/osquery/policies/store.go`: creating, editing and deleting policies,
issuing evaluations to a host and recording its answers. Each function is one
transaction; an error leaves the tables as they were.
-/
namespace PolicyStore

open Primitives (Fault bind_eq_ok isText truncateRunes)
open KeyedRows (Table)
open PolicyModel
open PolicyRemediation

def maxPolicyErrorRunes : Nat := 4096

/-- `osquery_policies_name_key`: a row other than `id` has the name. -/
def nameTaken (db : Db) (name : String) (id : Int) : Bool :=
  db.policies.ids.any (fun other =>
    other != id && (db.policies.row other).any (fun policy => policy.name == name))

/-- The foreign key of the target rows. -/
def labelsExist (db : Db) (write : PolicyWrite) : Bool := write.targets.labelIDs.all db.labels

def newPolicy (write : PolicyWrite) : PolicyRow :=
  { write with evaluation_check := Int.one_pos, remediation_check := Int.one_pos }

def create (db : Db) (p : PolicyMutation) : Except Fault Db := do
  let write ← p.checked
  if nameTaken db write.name db.policies.next = true then .error .alreadyExists
  else if labelsExist db write = false then .error .notFound
  else .ok { db with policies := db.policies.insert (newPolicy write) }

/-- The SET of the update: an edited query or an edited script starts a revision. -/
def PolicyRow.edit (current : PolicyRow) (write : PolicyWrite) : PolicyRow :=
  { write with
    evaluationRevision :=
      if current.query = write.query then current.evaluationRevision
      else current.evaluationRevision + 1
    remediationRevision :=
      if current.remediationScript = write.remediationScript ∧
          current.automaticRemediationEnabled = write.automaticRemediationEnabled then
        current.remediationRevision
      else current.remediationRevision + 1
    evaluation_check := by
      have := current.evaluation_check
      split <;> omega
    remediation_check := by
      have := current.remediation_check
      split <;> omega }

/-- Deleted membership rows take their runs with them. -/
def dropMembership (db : Db) (dropped : Pair → Bool) : Db :=
  { db with
    membership := fun k => if dropped k = true then none else db.membership k
    runs := fun k => if dropped k = true then none else db.runs k }

def update (db : Db) (id : Int) (p : PolicyMutation) : Except Fault Db := do
  let write ← p.checked
  match db.policies.row id with
  | none => .error .notFound
  | some current =>
    if nameTaken db write.name id = true then .error .alreadyExists
    else if labelsExist db write = false then .error .notFound
    else
      let edited := { db with policies := db.policies.modify id (fun _ => PolicyRow.edit current write) }
      .ok (dropMembership edited (fun k =>
        k.policyID == id && (current.query != write.query || !edited.assigned k)))

def delete (db : Db) (id : Int) : Except Fault Db :=
  match db.policies.row id with
  | none => .error .notFound
  | some _ =>
    .ok (dropMembership { db with policies := db.policies.erase id } (fun k => k.policyID == id))

/-- The row that an issued evaluation leaves. -/
def issueMembership : Option MembershipRow → MembershipRow
  | none => {
      lastIssuedSequence := 1
      sequence_check := by omega
      failure_check := by omega }
  | some membership => { membership with
      lastIssuedSequence := membership.lastIssuedSequence + 1
      sequence_check := by
        have := membership.sequence_check
        omega }

def issueEvaluationsForHost (db : Db) (hostID : Int) : Db × List Evaluation :=
  let issued (k : Pair) : Option MembershipRow :=
    if k.hostID = hostID ∧ db.assigned k = true then some (issueMembership (db.membership k))
    else db.membership k
  let evaluation (policyID : Int) : Option Evaluation :=
    match db.policies.row policyID with
    | some policy =>
      if db.assigned ⟨policyID, hostID⟩ = true then
        some ⟨policyID, policy.query, policy.evaluationRevision,
          (issueMembership (db.membership ⟨policyID, hostID⟩)).lastIssuedSequence⟩
      else none
    | none => none
  ({ db with membership := issued }, db.policies.ids.filterMap evaluation)

def normalizeResult (result : EvaluationResult) : Except Fault EvaluationResult :=
  match result.status with
  | .pass | .fail => .ok { result with error := "" }
  | .error => .ok { result with error := truncateRunes result.error maxPolicyErrorRunes }
  | .pending => .error (.invalidInput "")

def normalizeEvaluationResults : List EvaluationResult → Except Fault (List EvaluationResult)
  | [] => .ok []
  | result :: results =>
    if result.policyID ≤ 0 ∨ result.revision ≤ 0 ∨ result.sequence ≤ 0 then
      normalizeEvaluationResults results
    else do
      let first ← normalizeResult result
      let rest ← normalizeEvaluationResults results
      .ok (first :: rest)

/-- The answer carries the identity of the last evaluation issued under the
membership row, and that one is not completed. -/
def MembershipRow.awaits (membership : MembershipRow) (sequence : Int) : Prop :=
  membership.lastIssuedSequence = sequence ∧ membership.lastCompletedSequence < sequence

instance (membership : MembershipRow) (sequence : Int) :
    Decidable (MembershipRow.awaits membership sequence) :=
  inferInstanceAs (Decidable (membership.lastIssuedSequence = sequence ∧
    membership.lastCompletedSequence < sequence))

/-- The join and the WHERE of `eligible`. -/
def eligible (crypto : Crypto) (db : Db) (hostID : Int) (result : EvaluationResult) : Bool :=
  match db.policies.row result.policyID, db.membership ⟨result.policyID, hostID⟩,
    db.hosts.row hostID with
  | some policy, some membership, some _ =>
    db.assigned ⟨result.policyID, hostID⟩ && crypto.queryHash policy.query == result.queryHash &&
      policy.evaluationRevision == result.revision &&
      decide (MembershipRow.awaits membership result.sequence)
  | _, _, _ => false

/-- Of several eligible answers to one evaluation PostgreSQL uses one. The answers
come in the order of a map, so the first stands for any of them. -/
def eligibleResult (crypto : Crypto) (db : Db) (hostID : Int) (results : List EvaluationResult)
    (policyID : Int) : Option EvaluationResult :=
  results.find? (fun result => result.policyID == policyID && eligible crypto db hostID result)

def newlyFailing (membership : MembershipRow) (result : EvaluationResult) : Bool :=
  result.status == .fail && membership.lastConclusivePasses != some false

/-- The SET of `updated`. -/
def completeMembership (membership : MembershipRow) (result : EvaluationResult) : MembershipRow :=
  if h : MembershipRow.awaits membership result.sequence then
    { membership with
      status := result.status
      error := result.error
      lastConclusivePasses := match result.status with
        | .pass => some true
        | .fail => some false
        | _ => membership.lastConclusivePasses
      remediationFailureSequence :=
        if newlyFailing membership result = true then result.sequence
        else membership.remediationFailureSequence
      lastCompletedSequence := result.sequence
      sequence_check := by
        have := membership.sequence_check
        obtain ⟨hi, hc⟩ := h
        omega
      failure_check := by
        have := membership.sequence_check
        have := membership.failure_check
        obtain ⟨hi, hc⟩ := h
        split <;> omega }
  else membership

def storeResults (crypto : Crypto) (db : Db) (hostID : Int) (results : List EvaluationResult) : Db :=
  { db with membership := fun k =>
      match (if k.hostID = hostID then eligibleResult crypto db hostID results k.policyID else none) with
      | some result => (db.membership k).map (fun membership => completeMembership membership result)
      | none => db.membership k }

/-- The row of `updated` that asks for an automatic run, if the policy has one. -/
def automaticCandidate (crypto : Crypto) (db : Db) (hostID : Int) (results : List EvaluationResult)
    (policyID : Int) : Option Candidate :=
  match eligibleResult crypto db hostID results policyID, db.policies.row policyID,
    db.membership ⟨policyID, hostID⟩, db.hosts.row hostID with
  | some result, some policy, some membership, some host =>
    if newlyFailing membership result = true ∧ policy.automaticRemediationEnabled = true ∧
        host.runsScripts = true then
      some {
        key := ⟨policyID, hostID⟩
        failureSequence := result.sequence
        remediationRevision := policy.remediationRevision
        script := policy.remediationScript
        automatic := true }
    else none
  | _, _, _, _ => none

def automaticBatch (crypto : Crypto) (db : Db) (hostID : Int) (results : List EvaluationResult) :
    List Candidate :=
  db.policies.ids.filterMap (automaticCandidate crypto db hostID results)

def storableResult (result : EvaluationResult) : Bool := isText result.queryHash && isText result.error

def recordEvaluations (crypto : Crypto) (db : Db) (hostID : Int) (results : List EvaluationResult) :
    Except Fault Db := do
  let results ← normalizeEvaluationResults results
  if results = [] then .ok db
  else if results.all storableResult = false then .error (.database "character_not_in_repertoire")
  else
    let queued ← enqueueRemediationBatch crypto (storeResults crypto db hostID results)
      (automaticBatch crypto db hostID results)
    .ok queued.1

/-- The answer that a request stores for a policy. -/
def acceptedResult (crypto : Crypto) (db : Db) (hostID : Int) (results : List EvaluationResult)
    (policyID : Int) : Option EvaluationResult :=
  match normalizeEvaluationResults results with
  | .ok results =>
    if results.all storableResult = true then eligibleResult crypto db hostID results policyID else none
  | .error _ => none

theorem create_ok {db db' : Db} {p : PolicyMutation} (h : create db p = .ok db') :
    ∃ write, db' = { db with policies := db.policies.insert (newPolicy write) } := by
  unfold create at h
  obtain ⟨write, -, h⟩ := bind_eq_ok.mp h
  split_ifs at h
  cases h
  exact ⟨write, rfl⟩

/-- The policies table of an edit. -/
def editPolicies (db : Db) (id : Int) (current : PolicyRow) (write : PolicyWrite) : Db :=
  { db with policies := db.policies.modify id (fun _ => PolicyRow.edit current write) }

/-- The membership rows that an edit deletes. -/
def editDrops (db : Db) (id : Int) (current : PolicyRow) (write : PolicyWrite) (k : Pair) : Bool :=
  k.policyID == id && (current.query != write.query || !(editPolicies db id current write).assigned k)

theorem update_ok {db db' : Db} {id : Int} {p : PolicyMutation} (h : update db id p = .ok db') :
    ∃ write current, p.checked = .ok write ∧ db.policies.row id = some current ∧
      db' = dropMembership (editPolicies db id current write) (editDrops db id current write) := by
  unfold update at h
  obtain ⟨write, hw, h⟩ := bind_eq_ok.mp h
  cases hp : db.policies.row id with
  | none => simp [hp] at h
  | some current =>
    simp only [hp] at h
    split_ifs at h
    cases h
    exact ⟨write, current, hw, rfl, rfl⟩

theorem delete_ok {db db' : Db} {id : Int} (h : delete db id = .ok db') :
    db' = dropMembership { db with policies := db.policies.erase id } (fun k => k.policyID == id) := by
  unfold delete at h
  split at h
  · cases h
  · cases h
    rfl

section Complete

variable {membership : MembershipRow} {result : EvaluationResult}

@[simp] theorem complete_lastIssued :
    (completeMembership membership result).lastIssuedSequence = membership.lastIssuedSequence := by
  unfold completeMembership
  split <;> rfl

theorem complete_status (h : MembershipRow.awaits membership result.sequence) :
    (completeMembership membership result).status = result.status := by
  rw [completeMembership, dif_pos h]

theorem complete_lastCompleted (h : MembershipRow.awaits membership result.sequence) :
    (completeMembership membership result).lastCompletedSequence = result.sequence := by
  rw [completeMembership, dif_pos h]

theorem complete_conclusive (h : MembershipRow.awaits membership result.sequence) :
    (completeMembership membership result).lastConclusivePasses = match result.status with
      | .pass => some true
      | .fail => some false
      | _ => membership.lastConclusivePasses := by
  rw [completeMembership, dif_pos h]

theorem complete_failureSequence (h : MembershipRow.awaits membership result.sequence) :
    (completeMembership membership result).remediationFailureSequence =
      if newlyFailing membership result = true then result.sequence
      else membership.remediationFailureSequence := by
  rw [completeMembership, dif_pos h]

@[simp] theorem newlyFailing_iff : newlyFailing membership result = true ↔
    result.status = .fail ∧ membership.lastConclusivePasses ≠ some false := by
  simp [newlyFailing]

end Complete

section Record

variable {crypto : Crypto} {db db' : Db} {hostID policyID : Int} {result : EvaluationResult}
  {results normalized : List EvaluationResult}

/-- A normalized answer is one of the request, with positive numbers and a verdict
that is not pending. Only its error text may differ. -/
structure IsNormalized (result raw : EvaluationResult) : Prop where
  policyID : result.policyID = raw.policyID
  queryHash : result.queryHash = raw.queryHash
  revision : result.revision = raw.revision
  sequence : result.sequence = raw.sequence
  status : result.status = raw.status
  positive : 0 < result.sequence
  conclusive : result.status ≠ .pending

theorem normalizeResult_ok {raw : EvaluationResult} (h : normalizeResult raw = .ok result) :
    ∃ error, result = { raw with error := error } ∧ raw.status ≠ .pending := by
  unfold normalizeResult at h
  split at h
  · cases h
    exact ⟨_, rfl, by simp [*]⟩
  · cases h
    exact ⟨_, rfl, by simp [*]⟩
  · cases h
    exact ⟨_, rfl, by simp [*]⟩
  · cases h

theorem mem_normalizeEvaluationResults (h : normalizeEvaluationResults results = .ok normalized)
    (hr : result ∈ normalized) : ∃ raw ∈ results, IsNormalized result raw := by
  induction results generalizing normalized with
  | nil =>
    cases h
    cases hr
  | cons raw raws ih =>
    unfold normalizeEvaluationResults at h
    split at h
    · obtain ⟨raw', hraw, hn⟩ := ih h hr
      exact ⟨raw', List.mem_cons_of_mem _ hraw, hn⟩
    · rename_i hpos
      obtain ⟨first, hfirst, h⟩ := bind_eq_ok.mp h
      obtain ⟨rest, hrest, h⟩ := bind_eq_ok.mp h
      cases h
      rcases List.mem_cons.mp hr with rfl | hr
      · obtain ⟨error, rfl, hs⟩ := normalizeResult_ok hfirst
        exact ⟨raw, List.mem_cons_self .., rfl, rfl, rfl, rfl, rfl, by simp only; omega, hs⟩
      · obtain ⟨raw', hraw, hn⟩ := ih hrest hr
        exact ⟨raw', List.mem_cons_of_mem _ hraw, hn⟩

/-- An eligible answer has the identity of the evaluation that its assigned
membership row awaits. -/
structure IsEligible (crypto : Crypto) (db : Db) (hostID : Int) (result : EvaluationResult)
    (policy : PolicyRow) (membership : MembershipRow) (host : HostRow) : Prop where
  policyRow : db.policies.row result.policyID = some policy
  membershipRow : db.membership ⟨result.policyID, hostID⟩ = some membership
  hostRow : db.hosts.row hostID = some host
  assigned : db.assigned ⟨result.policyID, hostID⟩ = true
  queryHash : crypto.queryHash policy.query = result.queryHash
  revision : policy.evaluationRevision = result.revision
  awaited : MembershipRow.awaits membership result.sequence

theorem eligible_iff : eligible crypto db hostID result = true ↔
    ∃ policy membership host, IsEligible crypto db hostID result policy membership host := by
  unfold eligible
  constructor
  · intro h
    split at h
    · rename_i policy membership host hp hm hh
      simp only [Bool.and_eq_true, beq_iff_eq, decide_eq_true_eq] at h
      exact ⟨policy, membership, host, hp, hm, hh, h.1.1.1, h.1.1.2, h.1.2, h.2⟩
    · cases h
  · rintro ⟨policy, membership, host, hp, hm, hh, ha, hq, hr, hs⟩
    simp only [hp, hm, hh, ha, hq, hr, hs, beq_self_eq_true, Bool.and_self, decide_true]

/-- Normalizing leaves an answer eligible. -/
theorem IsEligible.raw {policy : PolicyRow} {membership : MembershipRow} {host : HostRow}
    (he : IsEligible crypto db hostID result policy membership host) {raw : EvaluationResult}
    (hn : IsNormalized result raw) : eligible crypto db hostID raw = true := by
  refine eligible_iff.mpr ⟨policy, membership, host, ?_⟩
  have hpolicyID := hn.policyID
  exact ⟨hpolicyID ▸ he.policyRow, hpolicyID ▸ he.membershipRow, he.hostRow,
    hpolicyID ▸ he.assigned, hn.queryHash ▸ he.queryHash, hn.revision ▸ he.revision,
    hn.sequence ▸ he.awaited⟩

theorem eligibleResult_some (h : eligibleResult crypto db hostID results policyID = some result) :
    result ∈ results ∧ result.policyID = policyID ∧ eligible crypto db hostID result = true := by
  have hp := List.find?_some h
  simp only [Bool.and_eq_true, beq_iff_eq] at hp
  exact ⟨List.mem_of_find?_eq_some h, hp.1, hp.2⟩

theorem acceptedResult_ok (crypto : Crypto) (db : Db) (hostID : Int)
    (h : normalizeEvaluationResults results = .ok normalized)
    (hs : normalized.all storableResult = true) (policyID : Int) :
    acceptedResult crypto db hostID results policyID =
      eligibleResult crypto db hostID normalized policyID := by
  simp [acceptedResult, h, hs]

/-- An accepted answer is one of the request and eligible. -/
theorem acceptedResult_some (h : acceptedResult crypto db hostID results policyID = some result) :
    result.policyID = policyID ∧ (∃ raw ∈ results, IsNormalized result raw) ∧
      ∃ policy membership host, IsEligible crypto db hostID result policy membership host := by
  unfold acceptedResult at h
  split at h
  · rename_i normalized hn
    split_ifs at h
    obtain ⟨hmem, hp, he⟩ := eligibleResult_some h
    exact ⟨hp, mem_normalizeEvaluationResults hn hmem, eligible_iff.mp he⟩
  · cases h

theorem automaticCandidate_some {c : Candidate}
    (h : automaticCandidate crypto db hostID results policyID = some c) :
    ∃ result policy membership host,
      eligibleResult crypto db hostID results policyID = some result ∧
      db.policies.row policyID = some policy ∧ db.membership ⟨policyID, hostID⟩ = some membership ∧
      db.hosts.row hostID = some host ∧ newlyFailing membership result = true ∧
      policy.automaticRemediationEnabled = true ∧ host.runsScripts = true ∧
      c = ⟨⟨policyID, hostID⟩, result.sequence, policy.remediationRevision,
        policy.remediationScript, true⟩ := by
  unfold automaticCandidate at h
  split at h
  · rename_i result policy membership host hr hp hm hh
    split_ifs at h with hc
    cases h
    exact ⟨result, policy, membership, host, hr, hp, hm, hh, hc.1, hc.2.1, hc.2.2, rfl⟩
  · cases h

theorem automaticCandidate_key {c : Candidate}
    (h : automaticCandidate crypto db hostID results policyID = some c) :
    c.key = ⟨policyID, hostID⟩ := by
  obtain ⟨_, _, _, _, -, -, -, -, -, -, -, rfl⟩ := automaticCandidate_some h
  rfl

theorem automaticBatch_keys :
    ((automaticBatch crypto db hostID results).map Candidate.key).Nodup :=
  KeyedRows.nodup_keys_filterMap (fun policyID => ⟨policyID, hostID⟩)
    (fun _ _ h => (Pair.mk.inj h).1) db.policies.ids_nodup (fun _ _ h => automaticCandidate_key h)

theorem mem_automaticBatch {c : Candidate} : c ∈ automaticBatch crypto db hostID results ↔
    ∃ policyID, automaticCandidate crypto db hostID results policyID = some c := by
  simp only [automaticBatch, List.mem_filterMap]
  constructor
  · rintro ⟨policyID, -, h⟩
    exact ⟨policyID, h⟩
  · rintro ⟨policyID, h⟩
    obtain ⟨_, policy, _, _, -, hp, -⟩ := automaticCandidate_some h
    exact ⟨policyID, Table.mem_ids.mpr (by rw [hp]; rfl), h⟩

/-- No automatic candidate violates a constraint of the runs table. -/
theorem automaticBatch_valid (crypto : Crypto) (db : Db) (hostID : Int)
    (h : normalizeEvaluationResults results = .ok normalized) :
    ∀ c ∈ automaticBatch crypto db hostID normalized, c.Valid := by
  intro c hc
  obtain ⟨policyID, hc⟩ := mem_automaticBatch.mp hc
  obtain ⟨result, policy, _, _, hr, -, -, -, -, hauto, -, rfl⟩ := automaticCandidate_some hc
  obtain ⟨raw, -, hn⟩ := mem_normalizeEvaluationResults h (eligibleResult_some hr).1
  exact ⟨hn.positive, policy.remediation_check, policy.automatic_check hauto⟩

theorem recordEvaluations_ok (h : recordEvaluations crypto db hostID results = .ok db') :
    ∃ normalized stored, normalizeEvaluationResults results = .ok normalized ∧
      normalized.all storableResult = true ∧
      enqueueRemediationBatch crypto (storeResults crypto db hostID normalized)
        (automaticBatch crypto db hostID normalized) = .ok (db', stored) := by
  unfold recordEvaluations at h
  obtain ⟨normalized, hn, h⟩ := bind_eq_ok.mp h
  split_ifs at h with hnil hs
  · cases h
    refine ⟨normalized, [], hn, by rw [hnil]; rfl, ?_⟩
    have hbatch : automaticBatch crypto db hostID normalized = [] := by
      rw [automaticBatch, List.filterMap_eq_nil_iff]
      intro policyID _
      simp [automaticCandidate, eligibleResult, hnil]
    have hstore : storeResults crypto db hostID normalized = db := by
      simp [storeResults, eligibleResult, hnil]
    rw [hbatch, hstore]
    rfl
  · obtain ⟨⟨db'', stored⟩, hq, h⟩ := bind_eq_ok.mp h
    cases h
    exact ⟨normalized, stored, hn, by simpa using hs, hq⟩

/-- Only an answer that cannot be stored makes the request fail. -/
theorem recordEvaluations_succeeds (crypto : Crypto) (db : Db) (hostID : Int)
    (hn : normalizeEvaluationResults results = .ok normalized)
    (hs : normalized.all storableResult = true) :
    ∃ db', recordEvaluations crypto db hostID results = .ok db' := by
  obtain ⟨queued, hq⟩ := enqueue_valid crypto (storeResults crypto db hostID normalized)
    (automaticBatch_valid crypto db hostID hn)
  unfold recordEvaluations
  rw [hn]
  simp only [bind, Except.bind, hs, hq]
  split <;> simp

end Record

end PolicyStore
