import Woodstar.PolicyStore
import Woodstar.Runs

/-!
# Runs of the policy store

The transactions of administrators, hosts and Orbit as events, and what one event
can do to the membership row and the remediation run of one policy and host.
-/
namespace PolicyRuns

open Primitives (Fault)
open PolicyModel PolicyRemediation PolicyStore
open Runs (exec)

/-- `label` and `orbit` are what the label evaluator and the host tables write:
a label's members, and a host's Orbit columns. -/
inductive Event where
  | create (p : PolicyMutation)
  | update (id : Int) (p : PolicyMutation)
  | delete (id : Int)
  | label (labelID hostID : Int) (member : Bool)
  | enroll
  | orbit (hostID : Int) (row : HostRow)
  | issue (hostID : Int)
  | record (hostID : Int) (results : List EvaluationResult)
  | run (policyID : Int) (hostIDs : List Int) (allFailures : Bool)
  | report (hostID : Int) (result : RemediationResult)
  deriving DecidableEq, Repr

/-- An error rolls the transaction back. -/
def committed (db : Db) : Except Fault Db → Db
  | .ok db' => db'
  | .error _ => db

/-- The foreign keys of `label_membership` name a label and a host. -/
def setLabelMembership (db : Db) (labelID hostID : Int) (member : Bool) : Db :=
  if db.labels labelID = true ∧ (db.hosts.row hostID).isSome = true then
    { db with labelMembership := fun label host =>
        if label = labelID ∧ host = hostID then member else db.labelMembership label host }
  else db

def step (crypto : Crypto) (db : Db) : Event → Db
  | .create p => committed db (create db p)
  | .update id p => committed db (update db id p)
  | .delete id => committed db (delete db id)
  | .label labelID hostID member => setLabelMembership db labelID hostID member
  | .enroll => { db with hosts := db.hosts.insert {} }
  | .orbit hostID row => { db with hosts := db.hosts.modify hostID (fun _ => row) }
  | .issue hostID => (issueEvaluationsForHost db hostID).1
  | .record hostID results => committed db (recordEvaluations crypto db hostID results)
  | .run policyID hostIDs allFailures =>
    committed db ((runRemediations crypto db policyID hostIDs allFailures).map Prod.fst)
  | .report hostID result => committed db (recordRemediationResult db hostID result)

/-- The answer that the event stores for the pair. -/
def accepted (crypto : Crypto) (db : Db) (k : Pair) : Event → Option EvaluationResult
  | .record hostID results =>
    if k.hostID = hostID then acceptedResult crypto db hostID results k.policyID else none
  | _ => none

theorem accepted_record {crypto : Crypto} {db : Db} {k : Pair} {results : List EvaluationResult}
    {result : EvaluationResult}
    (h : acceptedResult crypto db k.hostID results k.policyID = some result) :
    accepted crypto db k (.record k.hostID results) = some result := by
  simp [accepted, h]

/-- What an event leaves of the tables. A refused one leaves them as they were. -/
inductive StepSpec (crypto : Crypto) (db : Db) : Event → Db → Prop
  | refused (e : Event) (hnone : ∀ k, accepted crypto db k e = none) : StepSpec crypto db e db
  | created (p : PolicyMutation) (write : PolicyWrite) :
      StepSpec crypto db (.create p) { db with policies := db.policies.insert (newPolicy write) }
  | edited (id : Int) (p : PolicyMutation) (write : PolicyWrite) (current : PolicyRow)
      (hchecked : p.checked = .ok write) (hcurrent : db.policies.row id = some current) :
      StepSpec crypto db (.update id p)
        (dropMembership (editPolicies db id current write) (editDrops db id current write))
  | deleted (id : Int) : StepSpec crypto db (.delete id)
      (dropMembership { db with policies := db.policies.erase id } (fun k => k.policyID == id))
  | labelled (labelID hostID : Int) (member : Bool) (holds : Int → Int → Bool) :
      StepSpec crypto db (.label labelID hostID member) { db with labelMembership := holds }
  | enrolled : StepSpec crypto db .enroll { db with hosts := db.hosts.insert {} }
  | orbit (hostID : Int) (row : HostRow) : StepSpec crypto db (.orbit hostID row)
      { db with hosts := db.hosts.modify hostID (fun _ => row) }
  | issued (hostID : Int) : StepSpec crypto db (.issue hostID) (issueEvaluationsForHost db hostID).1
  | recorded (hostID : Int) (results normalized : List EvaluationResult) (db' : Db)
      (stored : List (Pair × RunRow)) (hn : normalizeEvaluationResults results = .ok normalized)
      (hs : normalized.all storableResult = true)
      (hq : enqueueRemediationBatch crypto (storeResults crypto db hostID normalized)
        (automaticBatch crypto db hostID normalized) = .ok (db', stored)) :
      StepSpec crypto db (.record hostID results) db'
  | requested (policyID : Int) (hostIDs ids : List Int) (allFailures : Bool) (policy : PolicyRow)
      (db' : Db) (stored : List (Pair × RunRow)) (hpolicy : db.policies.row policyID = some policy)
      (hq : enqueueRemediationBatch crypto db (manualBatch db policyID policy ids allFailures) =
        .ok (db', stored)) : StepSpec crypto db (.run policyID hostIDs allFailures) db'
  | reported (hostID : Int) (result : RemediationResult) (report : Report) :
      StepSpec crypto db (.report hostID result)
        { db with runs := fun k => (db.runs k).map (fun run =>
          if k.hostID = hostID ∧ run.executionID = result.executionID ∧ run.reported = none then
            reportRun run report
          else run) }

theorem accepted_of_error {crypto : Crypto} {db : Db} {hostID : Int} {results : List EvaluationResult}
    {e : Fault} (h : recordEvaluations crypto db hostID results = .error e) (k : Pair) :
    accepted crypto db k (.record hostID results) = none := by
  have hno : acceptedResult crypto db hostID results k.policyID = none := by
    cases hn : normalizeEvaluationResults results with
    | error e' => simp [acceptedResult, hn]
    | ok normalized =>
      by_cases hs : normalized.all storableResult = true
      · obtain ⟨db', hok⟩ := recordEvaluations_succeeds crypto db hostID hn hs
        rw [h] at hok
        cases hok
      · simp only [acceptedResult, hn, if_neg hs]
  simp [accepted, hno]

/-- The one place where the transactions of a step are opened. -/
theorem step_spec (crypto : Crypto) (db : Db) (e : Event) :
    StepSpec crypto db e (step crypto db e) := by
  cases e with
  | create p =>
    simp only [step]
    cases h : create db p with
    | error f => exact .refused _ (fun _ => rfl)
    | ok db' =>
      obtain ⟨write, rfl⟩ := create_ok h
      exact .created p write
  | update id p =>
    simp only [step]
    cases h : update db id p with
    | error f => exact .refused _ (fun _ => rfl)
    | ok db' =>
      obtain ⟨write, current, hchecked, hcurrent, rfl⟩ := update_ok h
      exact .edited id p write current hchecked hcurrent
  | delete id =>
    simp only [step]
    cases h : delete db id with
    | error f => exact .refused _ (fun _ => rfl)
    | ok db' =>
      rw [delete_ok h]
      exact .deleted id
  | label labelID hostID member =>
    simp only [step, setLabelMembership]
    split
    · exact .labelled labelID hostID member _
    · exact .refused _ (fun _ => rfl)
  | enroll => exact .enrolled
  | orbit hostID row => exact .orbit hostID row
  | issue hostID => exact .issued hostID
  | record hostID results =>
    simp only [step]
    cases h : recordEvaluations crypto db hostID results with
    | error f => exact .refused _ (accepted_of_error h)
    | ok db' =>
      obtain ⟨normalized, stored, hn, hs, hq⟩ := recordEvaluations_ok h
      exact .recorded hostID results normalized db' stored hn hs hq
  | run policyID hostIDs allFailures =>
    simp only [step]
    cases h : runRemediations crypto db policyID hostIDs allFailures with
    | error f => exact .refused _ (fun _ => rfl)
    | ok result =>
      obtain ⟨db', summary⟩ := result
      obtain ⟨policy, ids, stored, hpolicy, -, -, hq⟩ := runRemediations_ok h
      exact .requested policyID hostIDs ids allFailures policy db' stored hpolicy hq
  | report hostID result =>
    simp only [step]
    cases h : recordRemediationResult db hostID result with
    | error f => exact .refused _ (fun _ => rfl)
    | ok db' =>
      obtain ⟨report, -, -, -, rfl⟩ := recordRemediationResult_ok h
      exact .reported hostID result report

/-- Only an edited or deleted policy loses membership rows. -/
def mayDrop : Event → Bool
  | .update _ _ => true
  | .delete _ => true
  | _ => false

/-- The accepted answer asks for an automatic run: it newly fails, automation is
enabled, and the host runs scripts. -/
def Fires (db : Db) (k : Pair) (membership : MembershipRow) (result : EvaluationResult) : Prop :=
  newlyFailing membership result = true ∧
    (∃ policy, db.policies.row k.policyID = some policy ∧ policy.automaticRemediationEnabled = true) ∧
    ∃ host, db.hosts.row k.hostID = some host ∧ host.runsScripts = true

/-- Everything an event can do to the rows of one pair. -/
inductive PairStep (crypto : Crypto) (db db' : Db) (k : Pair) : Event → Prop
  | kept (e : Event) (hmembership : db'.membership k = db.membership k)
      (hruns : db'.runs k = db.runs k) (hnone : accepted crypto db k e = none) :
      PairStep crypto db db' k e
  | dropped (e : Event) (hdrop : mayDrop e = true) (hmembership : db'.membership k = none)
      (hruns : db'.runs k = none) (hnone : accepted crypto db k e = none) : PairStep crypto db db' k e
  | issued (hassigned : db.assigned k = true)
      (hmembership : db'.membership k = some (issueMembership (db.membership k)))
      (hruns : db'.runs k = db.runs k) : PairStep crypto db db' k (.issue k.hostID)
  | answered (results : List EvaluationResult) (result : EvaluationResult)
      (membership : MembershipRow)
      (haccepted : acceptedResult crypto db k.hostID results k.policyID = some result)
      (hold : db.membership k = some membership)
      (hawaits : MembershipRow.awaits membership result.sequence)
      (hmembership : db'.membership k = some (completeMembership membership result))
      (hfires : ¬Fires db k membership result) (hruns : db'.runs k = db.runs k) :
      PairStep crypto db db' k (.record k.hostID results)
  | fired (results : List EvaluationResult) (result : EvaluationResult)
      (membership : MembershipRow) (policy : PolicyRow) (i : Nat) (run : RunRow)
      (haccepted : acceptedResult crypto db k.hostID results k.policyID = some result)
      (hold : db.membership k = some membership)
      (hawaits : MembershipRow.awaits membership result.sequence)
      (hmembership : db'.membership k = some (completeMembership membership result))
      (hfires : Fires db k membership result) (hpolicy : db.policies.row k.policyID = some policy)
      (hlo : db.drawn ≤ i) (hhi : i < db'.drawn)
      (hrun : IsNewRun ⟨k, result.sequence, policy.remediationRevision, policy.remediationScript, true⟩
        (crypto.draw i) run)
      (hruns : db'.runs k = some (upsertRun (k, run) (db.runs k))) :
      PairStep crypto db db' k (.record k.hostID results)
  | requested (hostIDs : List Int) (allFailures : Bool) (membership : MembershipRow)
      (policy : PolicyRow) (i : Nat) (run : RunRow)
      (hold : db.membership k = some membership) (hfail : membership.status = .fail)
      (hpolicy : db.policies.row k.policyID = some policy)
      (hmembership : db'.membership k = db.membership k)
      (hlo : db.drawn ≤ i) (hhi : i < db'.drawn)
      (hrun : IsNewRun ⟨k, membership.remediationFailureSequence, policy.remediationRevision,
        policy.remediationScript, false⟩ (crypto.draw i) run)
      (hruns : db'.runs k = some (upsertRun (k, run) (db.runs k))) :
      PairStep crypto db db' k (.run k.policyID hostIDs allFailures)
  | reported (result : RemediationResult) (report : Report) (run : RunRow)
      (hold : db.runs k = some run) (hid : run.executionID = result.executionID)
      (hunreported : run.reported = none) (hmembership : db'.membership k = db.membership k)
      (hruns : db'.runs k = some (reportRun run report)) :
      PairStep crypto db db' k (.report k.hostID result)

/-- Everything an event can do to the membership row of a pair. -/
inductive MembershipStep (crypto : Crypto) (db db' : Db) (k : Pair) : Event → Prop
  | kept (e : Event) (hmembership : db'.membership k = db.membership k)
      (hnone : accepted crypto db k e = none) : MembershipStep crypto db db' k e
  | dropped (e : Event) (hdrop : mayDrop e = true) (hmembership : db'.membership k = none)
      (hnone : accepted crypto db k e = none) : MembershipStep crypto db db' k e
  | issued (hassigned : db.assigned k = true)
      (hmembership : db'.membership k = some (issueMembership (db.membership k))) :
      MembershipStep crypto db db' k (.issue k.hostID)
  | answered (results : List EvaluationResult) (result : EvaluationResult)
      (membership : MembershipRow)
      (haccepted : accepted crypto db k (.record k.hostID results) = some result)
      (hold : db.membership k = some membership)
      (hawaits : MembershipRow.awaits membership result.sequence)
      (hmembership : db'.membership k = some (completeMembership membership result)) :
      MembershipStep crypto db db' k (.record k.hostID results)

section

variable {crypto : Crypto} {db db' : Db} {k : Pair}

theorem pair_dropMembership {e : Event} {dropped : Pair → Bool}
    (hm : db'.membership = db.membership) (hr : db'.runs = db.runs) (hdrop : mayDrop e = true)
    (hnone : accepted crypto db k e = none) :
    PairStep crypto db (dropMembership db' dropped) k e := by
  by_cases hd : dropped k = true
  · exact .dropped e hdrop (by simp [dropMembership, hd]) (by simp [dropMembership, hd]) hnone
  · exact .kept e (by simp [dropMembership, hd, hm]) (by simp [dropMembership, hd, hr]) hnone

theorem pair_issue (crypto : Crypto) (db : Db) (k : Pair) (hostID : Int) :
    PairStep crypto db (issueEvaluationsForHost db hostID).1 k (.issue hostID) := by
  by_cases hc : k.hostID = hostID ∧ db.assigned k = true
  · obtain ⟨rfl, ha⟩ := hc
    exact .issued ha (by simp [issueEvaluationsForHost, ha]) rfl
  · exact .kept _ (by simp only [issueEvaluationsForHost, if_neg hc]) rfl rfl

/-- The batch of a record leaves the pair's run, or puts the automatic run there. -/
theorem pair_record {hostID : Int} {results normalized : List EvaluationResult}
    {stored : List (Pair × RunRow)} (hn : normalizeEvaluationResults results = .ok normalized)
    (hs : normalized.all storableResult = true)
    (hq : enqueueRemediationBatch crypto (storeResults crypto db hostID normalized)
      (automaticBatch crypto db hostID normalized) = .ok (db', stored)) :
    PairStep crypto db db' k (.record hostID results) := by
  have hacc := acceptedResult_ok crypto db hostID hn hs
  have hmem : db'.membership = (storeResults crypto db hostID normalized).membership := by
    obtain ⟨rows, -, rfl⟩ := enqueue_ok hq
    rfl
  have hother : (∀ c, automaticCandidate crypto db hostID normalized k.policyID = some c → c.key ≠ k) →
      db'.runs k = db.runs k := by
    intro hno
    apply enqueue_other hq
    intro hin
    obtain ⟨c, hc, rfl⟩ := List.mem_map.mp hin
    obtain ⟨policyID, hcand⟩ := mem_automaticBatch.mp hc
    have hkey := automaticCandidate_key hcand
    rw [hkey] at hno
    exact hno c hcand hkey
  by_cases hhost : k.hostID = hostID
  swap
  · refine .kept _ (by simp [hmem, storeResults, hhost]) (hother ?_) (by simp [accepted, hhost])
    intro c hc hkey
    rw [automaticCandidate_key hc] at hkey
    exact hhost (hkey ▸ rfl)
  subst hhost
  cases hr : eligibleResult crypto db k.hostID normalized k.policyID with
  | none =>
    refine .kept _ (by simp [hmem, storeResults, hr]) (hother ?_) (by simp [accepted, hacc, hr])
    intro c hc
    simp [automaticCandidate, hr] at hc
  | some result =>
    obtain ⟨-, hpid, he⟩ := eligibleResult_some hr
    obtain ⟨policy, membership, host, he⟩ := eligible_iff.mp he
    have hp : db.policies.row k.policyID = some policy := hpid ▸ he.policyRow
    have hm : db.membership k = some membership := by
      have := he.membershipRow
      rwa [hpid] at this
    have hm' : db'.membership k = some (completeMembership membership result) := by
      simp [hmem, storeResults, hr, hm]
    cases hc : automaticCandidate crypto db k.hostID normalized k.policyID with
    | none =>
      refine .answered results result membership (by rw [hacc, hr]) hm he.awaited hm' ?_
        (hother (by simp [hc]))
      rintro ⟨hnew, ⟨policy', hp', hauto⟩, host', hh', hruns⟩
      rw [automaticCandidate, hr, hp', hm, hh'] at hc
      simp only [hnew, hauto, hruns, and_self, if_true] at hc
      cases hc
    | some c =>
      obtain ⟨result', policy', membership', host', hr', hp', hmb', hh', hnew, hauto, hruns, rfl⟩ :=
        automaticCandidate_some hc
      obtain rfl : result = result' := Option.some.inj (hr.symm.trans hr')
      obtain rfl : policy = policy' := Option.some.inj (hp.symm.trans hp')
      obtain rfl : membership = membership' := Option.some.inj (hm.symm.trans hmb')
      obtain ⟨i, run, hlo, hhi, hrun, hat⟩ :=
        enqueue_at hq automaticBatch_keys (mem_automaticBatch.mpr ⟨_, hc⟩)
      exact .fired results result membership policy i run (by rw [hacc, hr]) hm he.awaited hm'
        ⟨hnew, ⟨policy, hp, hauto⟩, host', hh', hruns⟩ hp hlo hhi hrun hat

theorem pair_run {policyID : Int} {hostIDs ids : List Int} {allFailures : Bool} {policy : PolicyRow}
    {stored : List (Pair × RunRow)} (hp : db.policies.row policyID = some policy)
    (hq : enqueueRemediationBatch crypto db (manualBatch db policyID policy ids allFailures) =
      .ok (db', stored)) : PairStep crypto db db' k (.run policyID hostIDs allFailures) := by
  have hmem : db'.membership = db.membership := by
    obtain ⟨rows, -, rfl⟩ := enqueue_ok hq
    rfl
  by_cases hin : k ∈ (manualBatch db policyID policy ids allFailures).map Candidate.key
  · obtain ⟨c, hc, rfl⟩ := List.mem_map.mp hin
    obtain ⟨i, run, hlo, hhi, hrun, hat⟩ := enqueue_at hq manualBatch_keys hc
    obtain ⟨hostID, membership, host, hm, -, -, hfail, -, -, rfl⟩ := mem_manualBatch.mp hc
    exact .requested hostIDs allFailures membership policy i run hm hfail hp (by rw [hmem]) hlo hhi
      hrun hat
  · exact .kept _ (by rw [hmem]) (enqueue_other hq hin) rfl

theorem pair_report (hostID : Int) (result : RemediationResult) (report : Report) :
    PairStep crypto db { db with runs := fun k => (db.runs k).map (fun run =>
      if k.hostID = hostID ∧ run.executionID = result.executionID ∧ run.reported = none then
        reportRun run report
      else run) } k (.report hostID result) := by
  cases hr : db.runs k with
  | none => exact .kept _ rfl (by simp [hr]) rfl
  | some run =>
    by_cases hc : k.hostID = hostID ∧ run.executionID = result.executionID ∧ run.reported = none
    · obtain ⟨rfl, hid, hrep⟩ := hc
      exact .reported result report run hr hid hrep rfl (by simp [hr, hid, hrep])
    · exact .kept _ rfl (by simp [hr, hc]) rfl

/-- Every event is one of these steps for every pair. -/
theorem pair_step (crypto : Crypto) (db : Db) (k : Pair) (e : Event) :
    PairStep crypto db (step crypto db e) k e := by
  have hspec := step_spec crypto db e
  generalize step crypto db e = db' at hspec
  cases hspec with
  | refused _ hnone => exact .kept _ rfl rfl (hnone k)
  | created p write => exact .kept _ rfl rfl rfl
  | edited id p write current => exact pair_dropMembership rfl rfl rfl rfl
  | deleted id => exact pair_dropMembership rfl rfl rfl rfl
  | labelled => exact .kept _ rfl rfl rfl
  | enrolled => exact .kept _ rfl rfl rfl
  | orbit => exact .kept _ rfl rfl rfl
  | issued hostID => exact pair_issue crypto db k hostID
  | recorded hostID results normalized _ stored hn hs hq => exact pair_record hn hs hq
  | requested policyID hostIDs ids allFailures policy _ stored hpolicy hq => exact pair_run hpolicy hq
  | reported hostID result report => exact pair_report hostID result report

theorem membership_step (crypto : Crypto) (db : Db) (k : Pair) (e : Event) :
    MembershipStep crypto db (step crypto db e) k e := by
  cases pair_step crypto db k e with
  | kept _ hkept _ hnone => exact .kept _ hkept hnone
  | dropped _ hdrop hgone _ hnone => exact .dropped _ hdrop hgone hnone
  | issued hassigned hissued => exact .issued hassigned hissued
  | answered results result membership hacc hold hawaits hnew =>
    exact .answered results result membership (accepted_record hacc) hold hawaits hnew
  | fired results result membership _ _ _ hacc hold hawaits hnew =>
    exact .answered results result membership (accepted_record hacc) hold hawaits hnew
  | requested _ _ _ _ _ _ _ _ _ hkept => exact .kept _ hkept rfl
  | reported _ _ _ _ _ _ hkept => exact .kept _ hkept rfl

/-- Both counters of a membership row only grow while the row is there. -/
theorem membership_grows {e : Event} {m m' : MembershipRow} (hm : db.membership k = some m)
    (hm' : (step crypto db e).membership k = some m') :
    m.lastIssuedSequence ≤ m'.lastIssuedSequence ∧
      m.lastCompletedSequence ≤ m'.lastCompletedSequence := by
  cases membership_step crypto db k e with
  | kept _ hkept =>
    obtain rfl : m = m' := by rw [hm', hm, Option.some.injEq] at hkept; exact hkept.symm
    exact ⟨Int.le_refl _, Int.le_refl _⟩
  | dropped _ _ hnone => simp [hm'] at hnone
  | issued _ hissued =>
    rw [hm', hm, Option.some.injEq] at hissued
    rw [hissued]
    exact ⟨by simp only [issueMembership]; omega, Int.le_refl _⟩
  | answered _ result m'' _ hold hawaits hnew =>
    obtain rfl : m = m'' := Option.some.inj (hm.symm.trans hold)
    obtain rfl : m' = completeMembership m result := Option.some.inj (hm'.symm.trans hnew)
    have := hawaits.2
    rw [complete_lastIssued, complete_lastCompleted hawaits]
    omega

end

/-- Everything an event can do to the row of a policy. -/
inductive PolicyStep (db db' : Db) (id : Int) : Event → Prop
  | kept (e : Event) (hrow : db'.policies.row id = db.policies.row id)
      (hstays : ∀ hostID, (db.membership ⟨id, hostID⟩).isSome = true →
        (db'.membership ⟨id, hostID⟩).isSome = true) : PolicyStep db db' id e
  | created (p : PolicyMutation) (hnew : id = db.policies.next) : PolicyStep db db' id (.create p)
  | edited (p : PolicyMutation) (write : PolicyWrite) (current : PolicyRow)
      (hchecked : p.checked = .ok write) (hcurrent : db.policies.row id = some current)
      (hrow : db'.policies.row id = some (PolicyRow.edit current write))
      (hmembership : ∀ hostID, db'.membership ⟨id, hostID⟩ =
        if editDrops db id current write ⟨id, hostID⟩ = true then none
        else db.membership ⟨id, hostID⟩) : PolicyStep db db' id (.update id p)
  | deleted (hrow : db'.policies.row id = none) : PolicyStep db db' id (.delete id)

section

variable {crypto : Crypto} {db db' : Db} {k : Pair}

theorem stays_of_not_mayDrop {e : Event} (h : mayDrop e = false)
    (hm : (db.membership k).isSome = true) : ((step crypto db e).membership k).isSome = true := by
  cases membership_step crypto db k e with
  | kept _ hkept => exact hkept ▸ hm
  | dropped _ hdrop => simp [h] at hdrop
  | issued _ hissued => simp [hissued]
  | answered _ _ _ _ _ _ hnew => simp [hnew]

/-- Events other than those on policies leave the policies table. -/
theorem step_policies (crypto : Crypto) (db : Db) (e : Event) (h : mayDrop e = false)
    (hcreate : ∀ p, e ≠ .create p) : (step crypto db e).policies = db.policies := by
  have hspec := step_spec crypto db e
  generalize step crypto db e = db' at hspec ⊢
  cases hspec with
  | refused => rfl
  | created p write => exact absurd rfl (hcreate p)
  | edited => cases h
  | deleted => cases h
  | labelled => rfl
  | enrolled => rfl
  | orbit => rfl
  | issued => rfl
  | recorded hostID results normalized _ stored hn hs hq =>
    obtain ⟨rows, -, rfl⟩ := enqueue_ok hq
    rfl
  | requested policyID hostIDs ids allFailures policy _ stored hpolicy hq =>
    obtain ⟨rows, -, rfl⟩ := enqueue_ok hq
    rfl
  | reported => rfl

theorem policy_step (crypto : Crypto) (db : Db) (id : Int) (e : Event) :
    PolicyStep db (step crypto db e) id e := by
  have hkept : (step crypto db e).policies.row id = db.policies.row id → mayDrop e = false →
      PolicyStep db (step crypto db e) id e :=
    fun hrow hdrop => .kept e hrow (fun hostID hm => stays_of_not_mayDrop hdrop hm)
  have hspec := step_spec crypto db e
  generalize step crypto db e = db' at hspec hkept ⊢
  cases hspec with
  | refused _ hnone => exact .kept _ rfl (fun _ hm => hm)
  | created p write =>
    by_cases hid : id = db.policies.next
    · exact .created p hid
    · exact hkept (by rw [KeyedRows.Table.row_insert, if_neg hid]) rfl
  | edited id' p write current hchecked hcurrent =>
    by_cases hid : id = id'
    · subst hid
      refine .edited p write current hchecked hcurrent ?_ (fun _ => rfl)
      simp [dropMembership, editPolicies, KeyedRows.Table.row_modify, hcurrent]
    · refine .kept _ ?_ ?_
      · simp [dropMembership, editPolicies, KeyedRows.Table.row_modify, hid]
      · intro hostID hm
        simp only [dropMembership, editDrops, beq_eq_false_iff_ne.mpr hid, Bool.false_and,
          Bool.false_eq_true, if_false]
        exact hm
  | deleted id' =>
    by_cases hid : id = id'
    · subst hid
      apply PolicyStep.deleted
      simp [dropMembership, KeyedRows.Table.row_erase]
    · refine .kept _ ?_ ?_
      · simp [dropMembership, KeyedRows.Table.row_erase, hid]
      · intro hostID hm
        simp only [dropMembership, beq_iff_eq, if_neg hid]
        exact hm
  | labelled => exact hkept rfl rfl
  | enrolled => exact hkept rfl rfl
  | orbit => exact hkept rfl rfl
  | issued => exact hkept rfl rfl
  | recorded hostID results normalized _ stored hn hs hq =>
    obtain ⟨rows, -, rfl⟩ := enqueue_ok hq
    exact hkept rfl rfl
  | requested policyID hostIDs ids allFailures policy _ stored hpolicy hq =>
    obtain ⟨rows, -, rfl⟩ := enqueue_ok hq
    exact hkept rfl rfl
  | reported => exact hkept rfl rfl

/-- What an event never takes back: policy ids and random tokens. -/
theorem step_counters (crypto : Crypto) (db : Db) (e : Event) :
    db.policies.used ≤ (step crypto db e).policies.used ∧ db.drawn ≤ (step crypto db e).drawn := by
  have hspec := step_spec crypto db e
  generalize step crypto db e = db' at hspec ⊢
  have hsame : db.policies.used ≤ db.policies.used ∧ db.drawn ≤ db.drawn :=
    ⟨Nat.le_refl _, Nat.le_refl _⟩
  cases hspec with
  | refused => exact hsame
  | created p write => exact ⟨Nat.le_succ _, Nat.le_refl _⟩
  | edited => exact hsame
  | deleted => exact hsame
  | labelled => exact hsame
  | enrolled => exact hsame
  | orbit => exact hsame
  | issued => exact hsame
  | recorded hostID results normalized _ stored hn hs hq =>
    obtain ⟨rows, -, rfl⟩ := enqueue_ok hq
    exact ⟨Nat.le_refl _, Nat.le_add_right _ _⟩
  | requested policyID hostIDs ids allFailures policy _ stored hpolicy hq =>
    obtain ⟨rows, -, rfl⟩ := enqueue_ok hq
    exact ⟨Nat.le_refl _, Nat.le_add_right _ _⟩
  | reported => exact hsame

theorem step_used (crypto : Crypto) (db : Db) (e : Event) :
    db.policies.used ≤ (step crypto db e).policies.used := (step_counters crypto db e).1

theorem step_drawn (crypto : Crypto) (db : Db) (e : Event) : db.drawn ≤ (step crypto db e).drawn :=
  (step_counters crypto db e).2

/-- No event but a batch gives a row another execution id. -/
theorem ownTokens_of_kept (h : OwnTokens crypto db) (hdrawn : db.drawn ≤ db'.drawn)
    (hkept : ∀ k run', db'.runs k = some run' →
      ∃ run, db.runs k = some run ∧ run.executionID = run'.executionID) : OwnTokens crypto db' where
  drawn := by
    intro k run' hrun'
    obtain ⟨run, hrun, hid⟩ := hkept k run' hrun'
    obtain ⟨i, hi, hdraw⟩ := h.drawn k run hrun
    exact ⟨i, by omega, hid ▸ hdraw⟩
  unique := by
    intro k k' run₁ run₂ h₁ h₂ heq
    obtain ⟨r₁, hr₁, hid₁⟩ := hkept k run₁ h₁
    obtain ⟨r₂, hr₂, hid₂⟩ := hkept k' run₂ h₂
    exact h.unique k k' r₁ r₂ hr₁ hr₂ (by rw [hid₁, hid₂, heq])

theorem ownTokens_dropMembership (h : OwnTokens crypto db) (dropped : Pair → Bool) :
    OwnTokens crypto (dropMembership db dropped) := by
  refine ownTokens_of_kept h (Nat.le_refl _) ?_
  intro k run' hrun'
  simp only [dropMembership] at hrun'
  split_ifs at hrun'
  exact ⟨run', hrun', rfl⟩

/-- `n` bounds the tokens drawn up to the end of the step. -/
theorem step_ownTokens {n : Nat} (hdraw : crypto.DistinctTokens n) (h : OwnTokens crypto db)
    (e : Event) (hn : (step crypto db e).drawn ≤ n) : OwnTokens crypto (step crypto db e) := by
  have hsame : ∀ {db' : Db}, db'.runs = db.runs → db'.drawn = db.drawn → OwnTokens crypto db' := by
    intro db' hruns hdrawn
    exact ownTokens_of_kept h (by omega) (fun k run' hrun' => ⟨run', hruns ▸ hrun', rfl⟩)
  have hspec := step_spec crypto db e
  generalize step crypto db e = db' at hspec hn ⊢
  cases hspec with
  | refused => exact h
  | created => exact hsame rfl rfl
  | edited id p write current =>
    have hedited : OwnTokens crypto (editPolicies db id current write) := hsame rfl rfl
    exact ownTokens_dropMembership hedited _
  | deleted id =>
    have herased : OwnTokens crypto { db with policies := db.policies.erase id } := hsame rfl rfl
    exact ownTokens_dropMembership herased _
  | labelled => exact hsame rfl rfl
  | enrolled => exact hsame rfl rfl
  | orbit => exact hsame rfl rfl
  | issued => exact hsame rfl rfl
  | recorded hostID results normalized _ stored _ _ hq =>
    have hstored : OwnTokens crypto (storeResults crypto db hostID normalized) := hsame rfl rfl
    exact enqueue_ownTokens hdraw hn hstored automaticBatch_keys hq
  | requested policyID hostIDs ids allFailures policy _ stored hpolicy hq =>
    exact enqueue_ownTokens hdraw hn h manualBatch_keys hq
  | reported hostID result report =>
    refine ownTokens_of_kept h (Nat.le_refl _) ?_
    intro k run' hrun'
    obtain ⟨run, hrun, rfl⟩ := Option.map_eq_some_iff.mp hrun'
    refine ⟨run, hrun, ?_⟩
    split <;> rfl

/-- A token that a step draws is under no row yet. -/
theorem drawn_ne {n i : Nat} (hdraw : crypto.DistinctTokens n) (h : OwnTokens crypto db)
    (hi : db.drawn ≤ i) (hn : i < n) {old run : RunRow} (hold : db.runs k = some old)
    (hrun : run.executionID = crypto.draw i) : old.executionID ≠ run.executionID := by
  intro heq
  obtain ⟨j, hj, hid⟩ := h.drawn k old hold
  have := hdraw j (by omega) i hn (hid.symm.trans (heq.trans hrun))
  omega

/-- Tables without runs, as the last migration leaves them. -/
theorem ownTokens_empty (hruns : db.runs = fun _ => none) : OwnTokens crypto db where
  drawn := by simp [hruns]
  unique := by simp [hruns]

theorem distinctTokens_mono {n m : Nat} (h : crypto.DistinctTokens n) (hle : m ≤ n) :
    crypto.DistinctTokens m :=
  fun i hi j hj => h i (by omega) j (by omega)

end

def sampleCrypto : Crypto where
  queryHash query :=
    if query = "SELECT 1" then "e004ebd5b5532a4b85984a62f8ad48a81aa3460c1ca07701f386135d72cdecf5" else ""
  draw n := if n = 0 then "0IzBw2lgBj3VITXBHVoHREWb" else "PAUwgo37hHTLYcB21FFN-Cul"

def samplePolicy : PolicyMutation where
  name := "Disk encryption"
  query := "SELECT 1"
  targets := { includes := [⟨1⟩] }
  remediation := some ⟨"fdesetup enable", true⟩

def sampleDb : Db := { labels := fun label => label == 1 || label == 2 }

/-- Host 1 runs scripts and holds label 1, which policy 1 includes. -/
def sampleSetup : List Event :=
  [.enroll, .orbit 1 ⟨some true, "node-key"⟩, .label 1 1 true, .create samplePolicy]

def sampleAnswer (sequence : Int) (status : PolicyStatus) : EvaluationResult where
  policyID := 1
  queryHash := sampleCrypto.queryHash "SELECT 1"
  revision := 1
  sequence := sequence
  status := status

end PolicyRuns
