import Woodstar.PolicyMigration

/-!
# Failing episodes

The answers accepted for one policy and host, kept beside the tables as a history
of the membership row. An episode is a stretch of fails among the conclusive
answers. The stored columns describe the history, and an automatic run is queued
exactly where an episode begins.
-/
namespace PolicyEpisodes

open PolicyModel PolicyRemediation PolicyStore PolicyRuns
open PolicyMigration (CheckDb migrate)
open Runs (exec)

/-- The history of the present membership row, latest answer first. -/
structure World where
  db : Db
  history : List EvaluationResult := []

def track (crypto : Crypto) (k : Pair) (w : World) (e : Event) : World where
  db := step crypto w.db e
  history :=
    match (step crypto w.db e).membership k, accepted crypto w.db k e with
    | none, _ => []
    | some _, some result => result :: w.history
    | some _, none => w.history

def isConclusive (result : EvaluationResult) : Bool := result.status == .pass || result.status == .fail

def passes (result : EvaluationResult) : Bool := result.status == .pass

/-- The verdict of the latest conclusive answer. -/
def lastConclusive (history : List EvaluationResult) : Option Bool :=
  (history.find? isConclusive).map passes

/-- The sequence of the first fail of the current episode, or of the last one. -/
def episodeStart (history : List EvaluationResult) : Int :=
  match (((history.filter isConclusive).dropWhile passes).takeWhile (fun r => !passes r)).getLast? with
  | some first => first.sequence
  | none => 0

section Episode

variable {result : EvaluationResult} {history : List EvaluationResult}

theorem lastConclusive_error (h : result.status = .error) :
    lastConclusive (result :: history) = lastConclusive history := by
  simp [lastConclusive, isConclusive, h]

theorem lastConclusive_pass (h : result.status = .pass) :
    lastConclusive (result :: history) = some true := by
  simp [lastConclusive, isConclusive, passes, h]

theorem lastConclusive_fail (h : result.status = .fail) :
    lastConclusive (result :: history) = some false := by
  simp [lastConclusive, isConclusive, passes, h]

theorem episodeStart_error (h : result.status = .error) :
    episodeStart (result :: history) = episodeStart history := by
  simp [episodeStart, isConclusive, h]

theorem episodeStart_pass (h : result.status = .pass) :
    episodeStart (result :: history) = episodeStart history := by
  simp [episodeStart, isConclusive, passes, h]

theorem filter_fail (h : result.status = .fail) : (result :: history).filter isConclusive =
    result :: history.filter isConclusive := List.filter_cons_of_pos (by simp [isConclusive, h])

theorem head_conclusive : ((history.filter isConclusive).head?).map passes = lastConclusive history := by
  rw [lastConclusive, List.head?_filter]

/-- A fail after a pass, or the first one, begins an episode. -/
theorem episodeStart_begins (h : result.status = .fail) (hlast : lastConclusive history ≠ some false) :
    episodeStart (result :: history) = result.sequence := by
  have hresult : passes result = false := by simp [passes, h]
  have hrest : (history.filter isConclusive).takeWhile (fun r => !passes r) = [] := by
    rw [← head_conclusive] at hlast
    cases hf : history.filter isConclusive with
    | nil => rfl
    | cons first rest =>
      rw [hf] at hlast
      have hpass : passes first = true := by simpa using hlast
      simp [hpass]
  rw [episodeStart, filter_fail h, List.dropWhile_cons_of_neg (by simp [hresult]),
    List.takeWhile_cons_of_pos (by simp [hresult]), hrest]
  rfl

/-- Another fail leaves the episode its beginning. -/
theorem episodeStart_continues (h : result.status = .fail)
    (hlast : lastConclusive history = some false) :
    episodeStart (result :: history) = episodeStart history := by
  have hresult : passes result = false := by simp [passes, h]
  rw [← head_conclusive] at hlast
  cases hf : history.filter isConclusive with
  | nil => simp [hf] at hlast
  | cons first rest =>
    rw [hf] at hlast
    have hfirst : passes first = false := by simpa using hlast
    rw [episodeStart, episodeStart, filter_fail h, hf, List.dropWhile_cons_of_neg (by simp [hresult]),
      List.dropWhile_cons_of_neg (by simp [hfirst]), List.takeWhile_cons_of_pos (by simp [hresult]),
      List.takeWhile_cons_of_pos (by simp [hfirst]), List.getLast?_cons_cons]

end Episode

/-- The stored columns are those of the history. -/
structure Describes (history : List EvaluationResult) (membership : MembershipRow) : Prop where
  conclusive : membership.lastConclusivePasses = lastConclusive history
  failureSequence : membership.remediationFailureSequence = episodeStart history
  fail : membership.status = .fail → membership.lastConclusivePasses = some false
  pass : membership.status = .pass → membership.lastConclusivePasses = some true
  ordered : membership.remediationFailureSequence ≤ membership.lastCompletedSequence ∧
    membership.lastCompletedSequence ≤ membership.lastIssuedSequence

/-- What holds of the pair in every state. A run's episode began with an answer
that is already completed. -/
structure Inv (crypto : Crypto) (k : Pair) (w : World) : Prop where
  unissued : w.db.membership k = none → w.history = []
  stored : ∀ membership, w.db.membership k = some membership → Describes w.history membership
  run : ∀ run, w.db.runs k = some run → ∃ membership, w.db.membership k = some membership ∧
    run.failureSequence ≤ membership.lastCompletedSequence
  tokens : OwnTokens crypto w.db

section

variable {crypto : Crypto} {k : Pair} {w : World} {e : Event}

theorem describes_issue {membership : Option MembershipRow} {history : List EvaluationResult}
    (hnone : membership = none → history = [])
    (hsome : ∀ m, membership = some m → Describes history m) :
    Describes history (issueMembership membership) := by
  cases membership with
  | none =>
    rw [hnone rfl]
    exact ⟨rfl, rfl, nofun, nofun, by simp [issueMembership]⟩
  | some m =>
    obtain ⟨hc, hf, hfail, hpass, ho⟩ := hsome m rfl
    exact ⟨hc, hf, hfail, hpass, by simp only [issueMembership]; omega⟩

/-- An accepted answer extends the history and the columns alike. -/
theorem describes_complete {membership : MembershipRow} {result : EvaluationResult}
    {history : List EvaluationResult} (h : Describes history membership)
    (hawaits : MembershipRow.awaits membership result.sequence) (hs : result.status ≠ .pending) :
    Describes (result :: history) (completeMembership membership result) := by
  have hissued := hawaits.1
  have hlt := hawaits.2
  have hordered := h.ordered
  constructor
  · rw [complete_conclusive hawaits]
    cases hstatus : result.status with
    | pending => exact absurd hstatus hs
    | pass => exact (lastConclusive_pass hstatus).symm
    | fail => exact (lastConclusive_fail hstatus).symm
    | error =>
      rw [lastConclusive_error hstatus]
      exact h.conclusive
  · rw [complete_failureSequence hawaits]
    by_cases hnew : newlyFailing membership result = true
    · obtain ⟨hfail, hlast⟩ := newlyFailing_iff.mp hnew
      rw [if_pos hnew, episodeStart_begins hfail (h.conclusive ▸ hlast)]
    · rw [if_neg hnew, h.failureSequence]
      cases hstatus : result.status with
      | pending => exact absurd hstatus hs
      | pass => exact (episodeStart_pass hstatus).symm
      | error => exact (episodeStart_error hstatus).symm
      | fail =>
        have hlast : membership.lastConclusivePasses = some false := by
          by_contra hne
          exact hnew (newlyFailing_iff.mpr ⟨hstatus, hne⟩)
        exact (episodeStart_continues hstatus (h.conclusive ▸ hlast)).symm
  · rw [complete_status hawaits, complete_conclusive hawaits]
    intro hfail
    rw [hfail]
  · rw [complete_status hawaits, complete_conclusive hawaits]
    intro hpass
    rw [hpass]
  · rw [complete_failureSequence hawaits, complete_lastCompleted hawaits, complete_lastIssued]
    split <;> omega

theorem history_none (h : (step crypto w.db e).membership k = none) :
    (track crypto k w e).history = [] := by
  simp [track, h]

theorem history_kept {membership : MembershipRow}
    (h : (step crypto w.db e).membership k = some membership) (hnone : accepted crypto w.db k e = none) :
    (track crypto k w e).history = w.history := by
  simp [track, h, hnone]

theorem history_answered {membership : MembershipRow} {result : EvaluationResult}
    (h : (step crypto w.db e).membership k = some membership)
    (hsome : accepted crypto w.db k e = some result) :
    (track crypto k w e).history = result :: w.history := by
  simp [track, h, hsome]

theorem accepted_conclusive {result : EvaluationResult} (h : accepted crypto w.db k e = some result) :
    result.status ≠ .pending := by
  unfold accepted at h
  split at h
  · split_ifs at h
    obtain ⟨-, ⟨raw, -, hn⟩, -⟩ := acceptedResult_some h
    exact hn.conclusive
  · cases h

/-- An accepted answer is stored in a membership row. -/
theorem accepted_stored {result : EvaluationResult} (hacc : accepted crypto w.db k e = some result) :
    ∃ membership, (step crypto w.db e).membership k = some membership := by
  cases membership_step crypto w.db k e with
  | kept _ _ hnone => simp [hnone] at hacc
  | dropped _ _ _ hnone => simp [hnone] at hacc
  | issued => simp [accepted] at hacc
  | answered _ _ _ _ _ _ hnew => exact ⟨_, hnew⟩

/-- The columns and the history after a step, for a membership row that was there
or that the step creates. -/
theorem stored_step (h : Inv crypto k w) :
    ((step crypto w.db e).membership k = none → (track crypto k w e).history = []) ∧
      ∀ membership, (step crypto w.db e).membership k = some membership →
        Describes (track crypto k w e).history membership := by
  refine ⟨history_none, ?_⟩
  intro m hm
  cases membership_step crypto w.db k e with
  | kept _ hsame hnone =>
    rw [history_kept hm hnone]
    exact h.stored m (hsame ▸ hm)
  | dropped _ _ hnone =>
    rw [hm] at hnone
    cases hnone
  | issued _ hissued =>
    rw [history_kept hm rfl]
    rw [hissued, Option.some.injEq] at hm
    exact hm ▸ describes_issue h.unissued h.stored
  | answered results result membership hacc hold hawaits hnew =>
    rw [history_answered hm hacc]
    rw [hnew, Option.some.injEq] at hm
    exact hm ▸ describes_complete (h.stored membership hold) hawaits (accepted_conclusive hacc)

theorem run_step (h : Inv crypto k w) :
    ∀ run, (step crypto w.db e).runs k = some run →
      ∃ membership, (step crypto w.db e).membership k = some membership ∧
        run.failureSequence ≤ membership.lastCompletedSequence := by
  intro run hrun
  cases pair_step crypto w.db k e with
  | kept _ hsame hruns =>
    rw [hsame]
    exact h.run run (hruns ▸ hrun)
  | dropped _ _ _ hnone =>
    rw [hrun] at hnone
    cases hnone
  | issued _ hissued hruns =>
    obtain ⟨m, hm, hle⟩ := h.run run (hruns ▸ hrun)
    exact ⟨_, hissued, by simpa [hm, issueMembership] using hle⟩
  | answered results result membership hacc hold hawaits hnew hfires hruns =>
    obtain ⟨m, hm, hle⟩ := h.run run (hruns ▸ hrun)
    refine ⟨_, hnew, ?_⟩
    rw [hold, Option.some.injEq] at hm
    rw [complete_lastCompleted hawaits]
    have := hawaits.2
    rw [← hm] at hle
    omega
  | fired results result membership policy i new hacc hold hawaits hnew _ _ _ _ hisnew hruns =>
    refine ⟨_, hnew, ?_⟩
    rw [complete_lastCompleted hawaits]
    rw [hruns, Option.some.injEq] at hrun
    rcases upsertRun_cases hrun with rfl | hrun
    · exact le_of_eq hisnew.failureSequence
    · obtain ⟨m, hm, hle⟩ := h.run run hrun
      rw [hold, Option.some.injEq] at hm
      have := hawaits.2
      rw [← hm] at hle
      omega
  | requested hostIDs allFailures membership policy i new hold _ _ hsame _ _ hisnew hruns =>
    rw [hsame]
    rw [hruns, Option.some.injEq] at hrun
    rcases upsertRun_cases hrun with rfl | hrun
    · refine ⟨membership, hold, ?_⟩
      rw [hisnew.failureSequence]
      exact (h.stored membership hold).ordered.1
    · exact h.run run hrun
  | reported result report old hold hid hunreported hsame hruns =>
    rw [hsame]
    rw [hruns, Option.some.injEq] at hrun
    obtain ⟨m, hm, hle⟩ := h.run old hold
    exact ⟨m, hm, by rw [← hrun]; exact hle⟩

theorem inv_step {n : Nat} (hdraw : crypto.DistinctTokens n) (h : Inv crypto k w) (e : Event)
    (hn : (track crypto k w e).db.drawn ≤ n) : Inv crypto k (track crypto k w e) where
  unissued := (stored_step h).1
  stored := (stored_step h).2
  run := run_step h
  tokens := step_ownTokens hdraw h.tokens e hn

/-- The step puts a new automatic execution under the pair. -/
def Enqueues (db db' : Db) (k : Pair) : Prop :=
  ∃ run, db'.runs k = some run ∧ run.automatic = true ∧ run.reported = none ∧
    ∀ old, db.runs k = some old → old.executionID ≠ run.executionID

theorem not_enqueues_kept {db db' : Db} (h : db'.runs k = db.runs k) : ¬Enqueues db db' k := by
  rintro ⟨run, hrun, -, -, hnew⟩
  exact hnew run (h ▸ hrun) rfl

/-- An automatic run begins exactly at an accepted fail whose previous conclusive
answer is a pass or absent, with automation enabled and an eligible host. -/
theorem enqueues_iff (h : Inv crypto k w) (e : Event)
    (hdraw : crypto.DistinctTokens (step crypto w.db e).drawn) :
    Enqueues w.db (step crypto w.db e) k ↔
      ∃ result, accepted crypto w.db k e = some result ∧ result.status = .fail ∧
        lastConclusive w.history ≠ some false ∧
        (∃ policy, w.db.policies.row k.policyID = some policy ∧
          policy.automaticRemediationEnabled = true) ∧
        ∃ host, w.db.hosts.row k.hostID = some host ∧ host.runsScripts = true := by
  cases pair_step crypto w.db k e with
  | kept _ _ hruns hnone => exact iff_of_false (not_enqueues_kept hruns) (by simp [hnone])
  | dropped _ _ _ hruns hnone =>
    refine iff_of_false ?_ (by simp [hnone])
    rintro ⟨run, hrun, -⟩
    rw [hruns] at hrun
    cases hrun
  | issued _ _ hruns => exact iff_of_false (not_enqueues_kept hruns) (by simp [accepted])
  | answered results result membership hacc hold hawaits hnew hfires hruns =>
    refine iff_of_false (not_enqueues_kept hruns) ?_
    rintro ⟨result', hacc', hfail, hlast, hpolicy, hhost⟩
    rw [accepted_record hacc, Option.some.injEq] at hacc'
    subst hacc'
    refine hfires ⟨newlyFailing_iff.mpr ⟨hfail, ?_⟩, hpolicy, hhost⟩
    rw [(h.stored membership hold).conclusive]
    exact hlast
  | fired results result membership policy i run hacc hold hawaits hnew hfires _ hlo hhi hisnew hruns =>
    obtain ⟨hnf, hpolicy, hhost⟩ := hfires
    obtain ⟨hfail, hlast⟩ := newlyFailing_iff.mp hnf
    rw [(h.stored membership hold).conclusive] at hlast
    refine iff_of_true ?_ ⟨result, accepted_record hacc, hfail, hlast, hpolicy, hhost⟩
    refine ⟨run, ?_, hisnew.automatic, hisnew.reported, fun old hold' =>
      drawn_ne hdraw h.tokens hlo hhi hold' hisnew.executionID⟩
    rw [hruns]
    cases hr : w.db.runs k with
    | none => rfl
    | some old =>
      -- the old run belongs to an answer completed before this one
      obtain ⟨m, hm, hle⟩ := h.run old hr
      rw [hold, Option.some.injEq] at hm
      have hlt := hawaits.2
      have hne : old.failureSequence ≠ run.failureSequence := by
        rw [hisnew.failureSequence, ← hm] at *
        simp only
        omega
      simp [upsertRun, replaces, hne]
  | requested hostIDs allFailures membership policy i new hold _ _ hsame _ _ hisnew hruns =>
    refine iff_of_false ?_ (by simp [accepted])
    rintro ⟨run, hrun, hauto, -, hne⟩
    rw [hruns, Option.some.injEq] at hrun
    rcases upsertRun_cases hrun with rfl | hrun
    · rw [hisnew.automatic] at hauto
      cases hauto
    · exact hne run hrun rfl
  | reported result report old hold hid hunreported hsame hruns =>
    refine iff_of_false ?_ (by simp [accepted])
    rintro ⟨run, hrun, -, -, hne⟩
    rw [hruns, Option.some.injEq] at hrun
    exact hne old hold (by rw [← hrun]; rfl)

theorem exec_track_db (crypto : Crypto) (k : Pair) (w : World) (es : List Event) :
    (exec (track crypto k) w es).db = exec (step crypto) w.db es :=
  Runs.exec_project (fun _ _ => rfl) w es

theorem inv_exec (h : Inv crypto k w) (es : List Event)
    (hdraw : crypto.DistinctTokens (exec (track crypto k) w es).db.drawn) :
    Inv crypto k (exec (track crypto k) w es) :=
  Runs.exec_invariant_along (P := Inv crypto k) (fun _ e h hn => inv_step hdraw h e hn) h
    (Runs.along_le_of_exec_le (m := fun w : World => w.db.drawn)
      (fun w e => step_drawn crypto w.db e) (Nat.le_refl _))

/-- The verdict that a check row carries over: an answer without a number. -/
def carried (old : CheckDb) (k : Pair) : List EvaluationResult :=
  match old.membership k with
  | some (some passes) => [{
      policyID := k.policyID
      queryHash := ""
      revision := 0
      sequence := 0
      status := if passes = true then .pass else .fail }]
  | _ => []

theorem describes_carried {old : CheckDb} {membership : MembershipRow}
    (h : (migrate old).membership k = some membership) : Describes (carried old k) membership := by
  obtain ⟨verdict, hp, rfl⟩ := PolicyMigration.migrate_membership h
  simp only [carried, hp]
  rcases verdict with _ | _ | _
  · exact ⟨rfl, rfl, nofun, nofun, Int.le_refl 0, Int.le_refl 0⟩
  · exact ⟨rfl, rfl, fun _ => rfl, nofun, Int.le_refl 0, Int.le_refl 0⟩
  · exact ⟨rfl, rfl, nofun, fun _ => rfl, Int.le_refl 0, Int.le_refl 0⟩

theorem inv_start (crypto : Crypto) (k : Pair) (old : CheckDb) :
    Inv crypto k ⟨migrate old, carried old k⟩ where
  unissued := by
    intro h
    have hnone : old.membership k = none := Option.map_eq_none_iff.mp h
    simp [carried, hnone]
  stored := fun _ h => describes_carried h
  run := by
    intro _ hrun
    cases hrun
  tokens := ownTokens_empty rfl

end

/-- Automatic remediation fires once per failing episode: along every run from
migrated tables, the stored columns describe the accepted answers, an error answer
changes neither the verdict nor the episode, and an automatic run is queued exactly
at an accepted fail that begins an episode. -/
theorem automatic_remediation_once (crypto : Crypto) (k : Pair) (old : CheckDb) (es : List Event)
    (e : Event) (hdraw : crypto.DistinctTokens (exec (step crypto) (migrate old) (es ++ [e])).drawn) :
    let w := exec (track crypto k) ⟨migrate old, carried old k⟩ es
    let w' := track crypto k w e
    (∀ membership, w.db.membership k = some membership → Describes w.history membership) ∧
      (∀ result, accepted crypto w.db k e = some result → result.status = .error →
        lastConclusive w'.history = lastConclusive w.history ∧
          episodeStart w'.history = episodeStart w.history) ∧
      (Enqueues w.db w'.db k ↔
        ∃ result, accepted crypto w.db k e = some result ∧ result.status = .fail ∧
          lastConclusive w.history ≠ some false ∧
          (∃ policy, w.db.policies.row k.policyID = some policy ∧
            policy.automaticRemediationEnabled = true) ∧
          ∃ host, w.db.hosts.row k.hostID = some host ∧ host.runsScripts = true) := by
  intro w w'
  have hdb : w.db = exec (step crypto) (migrate old) es := exec_track_db crypto k _ es
  rw [Runs.exec_append, Runs.exec_cons, Runs.exec_nil, ← hdb] at hdraw
  have hprefix : crypto.DistinctTokens w.db.drawn :=
    distinctTokens_mono hdraw (step_drawn crypto w.db e)
  have hinv : Inv crypto k w := inv_exec (inv_start crypto k old) es hprefix
  refine ⟨hinv.stored, ?_, enqueues_iff hinv e hdraw⟩
  intro result hacc herr
  obtain ⟨membership, hm⟩ := accepted_stored hacc
  have hhist : w'.history = result :: w.history := history_answered hm hacc
  rw [hhist, lastConclusive_error herr, episodeStart_error herr]
  exact ⟨rfl, rfl⟩

/-- A fail, an error and another fail: only the first begins an episode. -/
theorem automatic_remediation_once_sample :
    let old : CheckDb := { labels := sampleDb.labels }
    let es := sampleSetup ++ [.issue 1, .record 1 [sampleAnswer 1 .fail], .issue 1,
      .record 1 [sampleAnswer 2 .error], .issue 1]
    let w := exec (track sampleCrypto ⟨1, 1⟩) ⟨migrate old, carried old ⟨1, 1⟩⟩ es
    ¬Enqueues w.db (track sampleCrypto ⟨1, 1⟩ w (.record 1 [sampleAnswer 3 .fail])).db ⟨1, 1⟩ := by
  intro old es w h
  have := (automatic_remediation_once sampleCrypto ⟨1, 1⟩ old es
    (.record 1 [sampleAnswer 3 .fail]) (by decide +kernel)).2.2.mp h
  obtain ⟨-, -, -, hlast, -⟩ := this
  exact hlast (by decide +kernel)

end PolicyEpisodes
