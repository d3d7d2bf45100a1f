import Woodstar.PolicyMigration

/-!
# Executions of remediation runs

One row per policy and host serves every execution in turn. An execution id keeps
its script and its first result, a superseded one is never heard of again, and a
run is delivered only in the failing episode and under the script it was queued
for. Beside the tables stands what the policy said when the present run of a pair
was queued, and the answers accepted since.
-/
namespace PolicyExecutions

open PolicyModel PolicyRemediation PolicyStore PolicyRuns
open PolicyMigration (CheckDb migrate)
open Runs (exec)

structure Origin where
  script : String
  revision : Int
  answers : List EvaluationResult := []
  deriving DecidableEq, Repr

structure World where
  db : Db
  origin : Pair → Option Origin := fun _ => none

def Origin.extend (origin : Origin) : Option EvaluationResult → Origin
  | none => origin
  | some result => { origin with answers := result :: origin.answers }

/-- Another execution id under the pair is a run queued by this step. -/
def track (crypto : Crypto) (w : World) (e : Event) : World where
  db := step crypto w.db e
  origin k :=
    match (step crypto w.db e).runs k with
    | none => none
    | some run =>
      if (w.db.runs k).map RunRow.executionID = some run.executionID then
        (w.origin k).map (fun origin => origin.extend (accepted crypto w.db k e))
      else
        (w.db.policies.row k.policyID).map (fun policy =>
          ⟨policy.remediationScript, policy.remediationRevision, []⟩)

section

variable {crypto : Crypto} {w : World} {k : Pair} {e : Event} {run run' : RunRow}

theorem origin_kept (h : w.db.runs k = some run) (h' : (step crypto w.db e).runs k = some run')
    (hid : run.executionID = run'.executionID) {origin : Origin} (ho : w.origin k = some origin) :
    (track crypto w e).origin k = some (origin.extend (accepted crypto w.db k e)) := by
  simp [track, h', h, hid, ho]

theorem origin_new (h' : (step crypto w.db e).runs k = some run')
    (hnew : ∀ old, w.db.runs k = some old → old.executionID ≠ run'.executionID) {policy : PolicyRow}
    (hp : w.db.policies.row k.policyID = some policy) :
    (track crypto w e).origin k =
      some ⟨policy.remediationScript, policy.remediationRevision, []⟩ := by
  have hid : (w.db.runs k).map RunRow.executionID ≠ some run'.executionID := by
    intro h
    obtain ⟨old, hold, hid⟩ := Option.map_eq_some_iff.mp h
    exact hnew old hold hid
  simp only [track, h', if_neg hid, hp, Option.map_some]

/-- A failing row's last verdict is a fail, and its episode began with an answer
that is completed. -/
structure Consistent (membership : MembershipRow) : Prop where
  fail : membership.status = .fail → membership.lastConclusivePasses = some false
  began : membership.remediationFailureSequence ≤ membership.lastCompletedSequence

/-- A run has the script and revision of its origin. Once a pass was accepted, the
pair is passing or in a later episode. -/
structure Backed (run : RunRow) (membership : MembershipRow) (origin : Origin) : Prop where
  script : run.scriptContents = origin.script
  revision : run.remediationRevision = origin.revision
  began : run.failureSequence ≤ membership.lastCompletedSequence
  ended : (∃ result ∈ origin.answers, result.status = .pass) →
    membership.lastConclusivePasses = some true ∨
      run.failureSequence < membership.remediationFailureSequence

theorem consistent_issue {membership : Option MembershipRow}
    (h : ∀ m, membership = some m → Consistent m) : Consistent (issueMembership membership) := by
  cases membership with
  | none => exact ⟨nofun, Int.le_refl 0⟩
  | some m => exact ⟨(h m rfl).fail, (h m rfl).began⟩

theorem consistent_complete {membership : MembershipRow} {result : EvaluationResult}
    (h : Consistent membership) (hawaits : MembershipRow.awaits membership result.sequence) :
    Consistent (completeMembership membership result) := by
  constructor
  · rw [complete_status hawaits, complete_conclusive hawaits]
    intro hfail
    rw [hfail]
  · rw [complete_failureSequence hawaits, complete_lastCompleted hawaits]
    have := h.began
    have := hawaits.2
    split <;> omega

/-- The run stays while an answer is accepted. -/
theorem backed_complete {membership : MembershipRow} {result : EvaluationResult} {origin : Origin}
    (h : Backed run membership origin) (hawaits : MembershipRow.awaits membership result.sequence) :
    Backed run (completeMembership membership result) (origin.extend (some result)) := by
  have hlt := hawaits.2
  have hbegan := h.began
  refine ⟨h.script, h.revision, ?_, ?_⟩
  · rw [complete_lastCompleted hawaits]
    omega
  · rw [complete_conclusive hawaits, complete_failureSequence hawaits]
    rintro ⟨answer, hanswer, hpass⟩
    rcases List.mem_cons.mp hanswer with rfl | hanswer
    · exact .inl (by rw [hpass])
    · by_cases hnew : newlyFailing membership result = true
      · exact .inr (by rw [if_pos hnew]; omega)
      · rw [if_neg hnew]
        rcases h.ended ⟨answer, hanswer, hpass⟩ with htrue | hlater
        · -- no fail without a new episode follows a pass
          cases hs : result.status with
          | pass => exact .inl rfl
          | fail => exact absurd (newlyFailing_iff.mpr ⟨hs, by simp [htrue]⟩) hnew
          | error => exact .inl htrue
          | pending => exact .inl htrue
        · exact .inr hlater

/-- What holds of every pair in every state. -/
structure Inv (crypto : Crypto) (w : World) : Prop where
  consistent : ∀ k membership, w.db.membership k = some membership → Consistent membership
  backed : ∀ k run, w.db.runs k = some run → ∃ membership origin,
    w.db.membership k = some membership ∧ w.origin k = some origin ∧ Backed run membership origin
  tokens : OwnTokens crypto w.db

theorem consistent_step (h : Inv crypto w) {membership : MembershipRow}
    (hm : (step crypto w.db e).membership k = some membership) : Consistent membership := by
  cases membership_step crypto w.db k e with
  | kept _ hsame => exact h.consistent k membership (hsame ▸ hm)
  | dropped _ _ hnone => simp [hm] at hnone
  | issued _ hissued =>
    rw [hissued, Option.some.injEq] at hm
    exact hm ▸ consistent_issue (h.consistent k)
  | answered _ _ m _ hold hawaits hnew =>
    rw [hnew, Option.some.injEq] at hm
    exact hm ▸ consistent_complete (h.consistent k m hold) hawaits

theorem backed_step {n : Nat} (hdraw : crypto.DistinctTokens n) (h : Inv crypto w)
    (hn : (step crypto w.db e).drawn ≤ n) (hrun' : (step crypto w.db e).runs k = some run') :
    ∃ membership origin, (step crypto w.db e).membership k = some membership ∧
      (track crypto w e).origin k = some origin ∧ Backed run' membership origin := by
  cases pair_step crypto w.db k e with
  | kept _ hsame hruns hnone =>
    obtain ⟨m, o, hm, ho, hb⟩ := h.backed k run' (hruns ▸ hrun')
    have horigin := origin_kept (hruns ▸ hrun') hrun' rfl ho
    rw [hnone] at horigin
    exact ⟨m, o, hsame ▸ hm, horigin, hb⟩
  | dropped _ _ _ hnone => simp [hrun'] at hnone
  | issued _ hissued hruns =>
    obtain ⟨m, o, hm, ho, hb⟩ := h.backed k run' (hruns ▸ hrun')
    refine ⟨_, o, hissued, origin_kept (hruns ▸ hrun') hrun' rfl ho, ?_⟩
    rw [hm]
    exact ⟨hb.script, hb.revision, hb.began, hb.ended⟩
  | answered results result m hacc hold hawaits hnew hfires hruns =>
    obtain ⟨m', o, hm, ho, hb⟩ := h.backed k run' (hruns ▸ hrun')
    obtain rfl : m = m' := Option.some.inj (hold.symm.trans hm)
    have horigin := origin_kept (hruns ▸ hrun') hrun' rfl ho
    rw [accepted_record hacc] at horigin
    exact ⟨_, _, hnew, horigin, backed_complete hb hawaits⟩
  | fired results result m policy i new hacc hold hawaits hnew hfires hp hlo hhi hisnew hruns =>
    rw [hrun', Option.some.injEq] at hruns
    rcases upsertRun_cases hruns.symm with rfl | hkept
    · have hid : ∀ old, w.db.runs k = some old → old.executionID ≠ run'.executionID :=
        fun old hold' => drawn_ne hdraw h.tokens hlo (by omega) hold' hisnew.executionID
      refine ⟨_, _, hnew, origin_new hrun' hid hp, hisnew.scriptContents, hisnew.remediationRevision,
        ?_, nofun⟩
      rw [hisnew.failureSequence, complete_lastCompleted hawaits]
    · obtain ⟨m', o, hm, ho, hb⟩ := h.backed k run' hkept
      obtain rfl : m = m' := Option.some.inj (hold.symm.trans hm)
      have horigin := origin_kept hkept hrun' rfl ho
      rw [accepted_record hacc] at horigin
      exact ⟨_, _, hnew, horigin, backed_complete hb hawaits⟩
  | requested hostIDs allFailures m policy i new hold hfail hp hsame hlo hhi hisnew hruns =>
    rw [hrun', Option.some.injEq] at hruns
    rcases upsertRun_cases hruns.symm with rfl | hkept
    · have hid : ∀ old, w.db.runs k = some old → old.executionID ≠ run'.executionID :=
        fun old hold' => drawn_ne hdraw h.tokens hlo (by omega) hold' hisnew.executionID
      refine ⟨m, _, hsame ▸ hold, origin_new hrun' hid hp, hisnew.scriptContents,
        hisnew.remediationRevision, ?_, nofun⟩
      rw [hisnew.failureSequence]
      exact (h.consistent k m hold).began
    · obtain ⟨m', o, hm, ho, hb⟩ := h.backed k run' hkept
      exact ⟨m', o, hsame ▸ hm, origin_kept hkept hrun' rfl ho, hb⟩
  | reported result report old hold hid hunreported hsame hruns =>
    obtain ⟨m, o, hm, ho, hb⟩ := h.backed k old hold
    rw [hrun', Option.some.injEq] at hruns
    subst hruns
    exact ⟨m, o, hsame ▸ hm, origin_kept hold hrun' rfl ho, hb.script, hb.revision, hb.began, hb.ended⟩

theorem inv_step {n : Nat} (hdraw : crypto.DistinctTokens n) (h : Inv crypto w) (e : Event)
    (hn : (track crypto w e).db.drawn ≤ n) : Inv crypto (track crypto w e) where
  consistent := fun _ _ hm => consistent_step h hm
  backed := fun _ _ hrun => backed_step hdraw h hn hrun
  tokens := step_ownTokens hdraw h.tokens e hn

/-- The same execution later: nothing but its first result is added. -/
structure SameExecution (run later : RunRow) : Prop where
  scriptContents : later.scriptContents = run.scriptContents
  remediationRevision : later.remediationRevision = run.remediationRevision
  failureSequence : later.failureSequence = run.failureSequence
  automatic : later.automatic = run.automatic
  reported : ∀ report, run.reported = some report → later.reported = some report

/-- Wherever the token number `i` of `run` still stands, it is that execution. -/
structure Keeps (crypto : Crypto) (k : Pair) (run : RunRow) (i : Nat) (db : Db) : Prop where
  drawn : i < db.drawn
  same : ∀ k' later, db.runs k' = some later → later.executionID = crypto.draw i →
    k' = k ∧ SameExecution run later

theorem inv_start (crypto : Crypto) (old : CheckDb) : Inv crypto ⟨migrate old, fun _ => none⟩ where
  consistent := by
    intro k membership hm
    obtain ⟨passes, -, rfl⟩ := PolicyMigration.migrate_membership hm
    refine ⟨?_, ?_⟩
    · rcases passes with _ | _ | _
      · nofun
      · exact fun _ => rfl
      · nofun
    · rw [PolicyMigration.migrated_failureSequence]
      exact Int.le_refl 0
  backed := by
    intro _ _ hrow
    cases hrow
  tokens := ownTokens_empty rfl

theorem exec_track_db (crypto : Crypto) (w : World) (es : List Event) :
    (exec (track crypto) w es).db = exec (step crypto) w.db es :=
  Runs.exec_project (fun _ _ => rfl) w es

theorem inv_exec (h : Inv crypto w) (es : List Event)
    (hdraw : crypto.DistinctTokens (exec (track crypto) w es).db.drawn) :
    Inv crypto (exec (track crypto) w es) :=
  Runs.exec_invariant_along (P := Inv crypto) (fun _ e h hn => inv_step hdraw h e hn) h
    (Runs.along_le_of_exec_le (m := fun w : World => w.db.drawn)
      (fun w e => step_drawn crypto w.db e) (Nat.le_refl _))

end

def sampleRun (executionID script : String) (revision : Int) (automatic : Bool)
    (hscript : Primitives.btrimNotEmpty script = true) (hrevision : 0 < revision) : RunRow where
  executionID := executionID
  scriptContents := script
  remediationRevision := revision
  failureSequence := 1
  automatic := automatic
  script_check := hscript
  revision_check := hrevision
  failure_check := Int.one_pos

end PolicyExecutions
