import Woodstar.PolicyRuns

/-!
# From checks to policies

The migrations `20260813092808_osquery_policies.sql` and
`20260819090000_osquery_remediation_current_state.sql` carry the check tables into
the policy tables. A failing membership row can be remediated when it names the
answer that began its episode.
-/
namespace PolicyMigration

open Primitives (Fault bind_eq_ok)
open Targeting (LabelSet)
open KeyedRows (Table)
open PolicyModel PolicyRemediation PolicyStore PolicyRuns
open Runs (exec)

structure CheckRow where
  name : String
  query : String
  targets : LabelSet := {}
  targets_key : targets.labelIDs.Nodup
  deriving Repr

/-- The tables before the policies. `passes` is the nullable column of
`osquery_check_membership`, `hosts` the Orbit node key of each host. -/
structure CheckDb where
  labels : Int → Bool := fun _ => false
  labelMembership : Int → Int → Bool := fun _ _ => false
  hosts : Table String := .empty
  checks : Table CheckRow := .empty
  membership : Pair → Option (Option Bool) := fun _ => none

/-- A membership row between the two migrations. -/
structure EvaluatedRow where
  status : PolicyStatus
  lastConclusivePasses : Option Bool
  error : String := ""
  lastIssuedSequence : Int := 0
  lastCompletedSequence : Int := 0
  sequence_check : 0 ≤ lastIssuedSequence ∧ 0 ≤ lastCompletedSequence ∧
    lastCompletedSequence ≤ lastIssuedSequence
  deriving Repr

def migrateStatus (passes : Option Bool) : EvaluatedRow where
  status := match passes with
    | some true => .pass
    | some false => .fail
    | none => .pending
  lastConclusivePasses := passes
  sequence_check := ⟨le_refl 0, le_refl 0, le_refl 0⟩

def migrateFailureSequence (row : EvaluatedRow) : MembershipRow where
  status := row.status
  lastConclusivePasses := row.lastConclusivePasses
  error := row.error
  lastIssuedSequence := row.lastIssuedSequence
  lastCompletedSequence := row.lastCompletedSequence
  remediationFailureSequence := if row.status = .fail then row.lastCompletedSequence else 0
  sequence_check := row.sequence_check
  failure_check := by
    have := row.sequence_check
    split <;> omega

def migratePolicy (check : CheckRow) : PolicyRow where
  name := check.name
  query := check.query
  targets := check.targets
  automatic_check := fun h => absurd h Bool.false_ne_true
  script_valid := .inl rfl
  targets_key := check.targets_key
  evaluation_check := Int.one_pos
  remediation_check := Int.one_pos

/-- Both migrations. The second one empties the runs table. -/
def migrate (old : CheckDb) : Db where
  labels := old.labels
  labelMembership := old.labelMembership
  hosts := old.hosts.map (fun orbitNodeKey => { orbitNodeKey := orbitNodeKey })
  policies := old.checks.map migratePolicy
  membership := fun k => (old.membership k).map
    (fun passes => migrateFailureSequence (migrateStatus passes))

/-- Every failing row names the answer that began its episode. -/
def FailuresNumbered (db : Db) : Prop :=
  ∀ k membership, db.membership k = some membership → membership.status = .fail →
    0 < membership.remediationFailureSequence

/-- No request for runs ends in an error of the database. -/
def RunsStorable (crypto : Crypto) (db : Db) : Prop :=
  ∀ policyID hostIDs allFailures constraint,
    runRemediations crypto db policyID hostIDs allFailures ≠ .error (.database constraint)

/-- A row whose last verdict is a fail has a failure sequence. -/
structure Numbered (membership : MembershipRow) : Prop where
  fail : membership.status = .fail → membership.lastConclusivePasses = some false
  failed : membership.lastConclusivePasses = some false → 0 < membership.remediationFailureSequence

def AllNumbered (db : Db) : Prop :=
  ∀ k membership, db.membership k = some membership → Numbered membership

theorem numbered_issue {membership : Option MembershipRow}
    (h : ∀ m, membership = some m → Numbered m) : Numbered (issueMembership membership) := by
  cases membership with
  | none => exact ⟨nofun, nofun⟩
  | some m => exact ⟨(h m rfl).fail, (h m rfl).failed⟩

theorem numbered_complete {membership : MembershipRow} {result : EvaluationResult}
    (h : Numbered membership) (hawaits : MembershipRow.awaits membership result.sequence) :
    Numbered (completeMembership membership result) := by
  have hpos : 0 < result.sequence := by
    have := membership.sequence_check
    have := hawaits.2
    omega
  constructor
  · rw [complete_status hawaits, complete_conclusive hawaits]
    intro hfail
    rw [hfail]
  · rw [complete_conclusive hawaits, complete_failureSequence hawaits]
    intro hlast
    split
    · exact hpos
    · rename_i hnew
      -- not newly failing: the verdict was a fail before
      apply h.failed
      cases hs : result.status with
      | pass => simp [hs] at hlast
      | fail => simpa [hs] using hnew
      | error => simpa [hs] using hlast
      | pending => simpa [hs] using hlast

theorem numbered_step (crypto : Crypto) {db : Db} (h : AllNumbered db) (e : Event) :
    AllNumbered (step crypto db e) := by
  intro k m hm
  cases membership_step crypto db k e with
  | kept _ hsame => exact h k m (hsame ▸ hm)
  | dropped _ _ hnone => simp [hm] at hnone
  | issued _ hissued =>
    rw [hissued, Option.some.injEq] at hm
    exact hm ▸ numbered_issue (h k)
  | answered _ _ membership _ hold hawaits hnew =>
    rw [hnew, Option.some.injEq] at hm
    exact hm ▸ numbered_complete (h k membership hold) hawaits

theorem failuresNumbered_of_all {db : Db} (h : AllNumbered db) : FailuresNumbered db :=
  fun k m hm hfail => (h k m hm).failed ((h k m hm).fail hfail)

/-- The batch of a request meets the constraints when its failing rows are numbered. -/
theorem manualBatch_valid {db : Db} (h : FailuresNumbered db) {policyID : Int} {policy : PolicyRow}
    (hostIDs : List Int) (allFailures : Bool) (hscript : policy.remediationScript ≠ "") :
    ∀ c ∈ manualBatch db policyID policy hostIDs allFailures, c.Valid := by
  intro c hc
  obtain ⟨hostID, membership, host, hm, -, -, hfail, -, -, rfl⟩ := mem_manualBatch.mp hc
  exact ⟨h _ membership hm hfail, policy.remediation_check, policy.script_valid.resolve_left hscript⟩

theorem runsStorable_of_numbered (crypto : Crypto) {db : Db} (h : FailuresNumbered db) :
    RunsStorable crypto db := by
  intro policyID hostIDs allFailures constraint hrun
  unfold runRemediations normalizeRemediationHostIDs at hrun
  split at hrun
  · cases hrun
  · simp only [bind, Except.bind] at hrun
    split at hrun
    · cases hrun
    · split at hrun
      · cases hrun
      · rename_i policy _
        split at hrun
        · cases hrun
        · rename_i hscript
          obtain ⟨result, hq⟩ := enqueue_valid crypto db
            (manualBatch_valid h hostIDs.eraseDups allFailures hscript)
          rw [hq] at hrun
          cases hrun

theorem migrate_membership {old : CheckDb} {k : Pair} {membership : MembershipRow}
    (h : (migrate old).membership k = some membership) :
    ∃ passes, old.membership k = some passes ∧
      membership = migrateFailureSequence (migrateStatus passes) := by
  obtain ⟨passes, hp, rfl⟩ := Option.map_eq_some_iff.mp h
  exact ⟨passes, hp, rfl⟩

/-- The counters of every check row start at zero, so a failing one gets sequence zero. -/
@[simp] theorem migrated_failureSequence (passes : Option Bool) :
    (migrateFailureSequence (migrateStatus passes)).remediationFailureSequence = 0 := by
  exact ite_self 0

theorem migrate_numbered {old : CheckDb} (h : ∀ k, old.membership k ≠ some (some false)) :
    AllNumbered (migrate old) := by
  intro k membership hm
  obtain ⟨passes, hp, rfl⟩ := migrate_membership hm
  cases passes with
  | none => exact ⟨nofun, nofun⟩
  | some passes =>
    cases passes with
    | true => exact ⟨nofun, nofun⟩
    | false => exact absurd hp (h k)

/-- In every run from the migrated tables all failing rows are numbered and no
request for runs violates a constraint, exactly when no check row had failed. -/
theorem failures_remediable_iff (crypto : Crypto) (old : CheckDb) :
    (∀ es, FailuresNumbered (exec (step crypto) (migrate old) es) ∧
        RunsStorable crypto (exec (step crypto) (migrate old) es)) ↔
      ∀ k, old.membership k ≠ some (some false) := by
  constructor
  · intro h k hk
    have hm : (migrate old).membership k =
        some (migrateFailureSequence (migrateStatus (some false))) := by
      simp [migrate, hk]
    have := (h []).1 k _ hm rfl
    rw [migrated_failureSequence] at this
    exact absurd this (Int.lt_irrefl 0)
  · intro h es
    have hall : AllNumbered (exec (step crypto) (migrate old) es) :=
      Runs.exec_invariant (P := AllNumbered) (fun _ e hn => numbered_step crypto hn e) es
        (migrate_numbered h)
    exact ⟨failuresNumbered_of_all hall, runsStorable_of_numbered crypto (failuresNumbered_of_all hall)⟩

def sampleCheck : CheckRow where
  name := "Disk encryption"
  query := "SELECT 1"
  targets := { includes := [⟨1⟩] }
  targets_key := by decide

/-- One check that host 1 had failed and host 2 had not answered. -/
def sampleChecks : CheckDb where
  labels := fun label => label == 1
  labelMembership := fun label host => label == 1 && (host == 1 || host == 2)
  hosts := (Table.empty.insert "node-key-1").insert "node-key-2"
  checks := Table.empty.insert sampleCheck
  membership := fun k => if k = ⟨1, 1⟩ then some (some false) else none

/-- The check becomes a policy with a script, and host 2 fails it too. -/
def sampleUpgrade : List Event :=
  [.orbit 1 ⟨some true, "node-key-1"⟩, .orbit 2 ⟨some true, "node-key-2"⟩,
    .update 1 { samplePolicy with remediation := some ⟨"fdesetup enable", false⟩ },
    .issue 2, .record 2 [sampleAnswer 1 .fail]]

/-- Host 1 is failing with sequence 0: the request for all failures breaks the
constraint of the runs table and queues nothing for host 2 either. -/
theorem migrated_failure_blocks_runs :
    let db := exec (step sampleCrypto) (migrate sampleChecks) sampleUpgrade
    (db.membership ⟨1, 1⟩).map (fun m => (m.status, m.remediationFailureSequence)) = some (.fail, 0) ∧
      (db.membership ⟨1, 2⟩).map (fun m => (m.status, m.remediationFailureSequence)) = some (.fail, 1) ∧
      (runRemediations sampleCrypto db 1 [] true).map Prod.snd =
        .error (.database "osquery_policy_remediation_runs_failure_sequence_check") ∧
      (step sampleCrypto db (.run 1 [] true)).runs ⟨1, 2⟩ = none := by
  decide

end PolicyMigration
