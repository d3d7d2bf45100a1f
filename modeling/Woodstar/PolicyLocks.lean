import Mathlib.Algebra.Order.Ring.Nat
import Woodstar.LockOrder
import Woodstar.PolicyRuns

/-!
# Row locks of concurrent policy transactions

RecordEvaluations, RunRemediations and Update lock rows of `osquery_policies` and
`osquery_policy_membership` one after another and keep them to commit. Without an
ORDER BY a `FOR UPDATE` takes the joined rows in the order of the input list.
-/
namespace PolicyLocks

open Primitives (Fault)
open Runs (exec tryExec)
open LockOrder (Deadlocked Ring Gated)
open PolicyModel
open PolicyRemediation
open PolicyStore
open PolicyRuns

inductive Row where
  | policy (id : Int)
  | membership (k : Pair)
  deriving DecidableEq, Repr

inductive Call where
  | record (hostID : Int) (results : List EvaluationResult)
  | run (policyID : Int) (hostIDs : List Int) (allFailures : Bool)
  | update (id : Int) (p : PolicyMutation)

/-- A call and the rows that its statements find. -/
structure Tx where
  found : Db
  call : Call

/-- The answers that `eligible` joins, in the order of the input. -/
def joinedResults (crypto : Crypto) (db : Db) (hostID : Int) (results : List EvaluationResult) :
    List EvaluationResult :=
  match normalizeEvaluationResults results with
  | .error _ => []
  | .ok results =>
    if results.all storableResult = false then [] else results.filter (eligible crypto db hostID)

/-- `FOR UPDATE OF policy, membership` on the joined rows. -/
def recordLocks (crypto : Crypto) (db : Db) (hostID : Int) (results : List EvaluationResult) :
    List Row :=
  (joinedResults crypto db hostID results).flatMap
    (fun result => [.policy result.policyID, .membership ⟨result.policyID, hostID⟩])

/-- The policy, then the failing hosts of the request in the order of their ids. -/
def runLocks (db : Db) (policyID : Int) (hostIDs : List Int) (allFailures : Bool) : List Row :=
  match normalizeRemediationHostIDs hostIDs with
  | .error _ => []
  | .ok hostIDs =>
    if allFailures = !hostIDs.isEmpty then []
    else
      match db.policies.row policyID with
      | none => []
      | some policy =>
        if policy.remediationScript = "" then [.policy policyID]
        else .policy policyID :: (remediationCandidates db policyID hostIDs allFailures).map
          (fun c => .membership ⟨policyID, c.hostID⟩)

/-- The policy, then the membership rows that the DELETE removes. It may find them in
any order: the order of the host ids stands for it. -/
def updateLocks (db : Db) (id : Int) (p : PolicyMutation) : List Row :=
  match p.checked with
  | .error _ => []
  | .ok write =>
    match db.policies.row id with
    | none => []
    | some current =>
      if nameTaken db write.name id = true ∨ labelsExist db write = false then [.policy id]
      else .policy id :: (db.hosts.ids.filter (fun hostID =>
        (db.membership ⟨id, hostID⟩).isSome && editDrops db id current write ⟨id, hostID⟩)).map
          (fun hostID => .membership ⟨id, hostID⟩)

def rowLocks (crypto : Crypto) (tx : Tx) : List Row :=
  match tx.call with
  | .record hostID results => recordLocks crypto tx.found hostID results
  | .run policyID hostIDs allFailures => runLocks tx.found policyID hostIDs allFailures
  | .update id p => updateLocks tx.found id p

/-- The policies of a host's eligible answers, in the order in which they came. The
other transactions take one policy only. -/
def answeredPolicies (crypto : Crypto) (tx : Tx) : List Int :=
  match tx.call with
  | .record hostID results =>
    (joinedResults crypto tx.found hostID results).map EvaluationResult.policyID
  | .run _ _ _ | .update _ _ => []

def applyCall (crypto : Crypto) (db : Db) : Call → Except Fault Db
  | .record hostID results => recordEvaluations crypto db hostID results
  | .run policyID hostIDs allFailures =>
    (runRemediations crypto db policyID hostIDs allFailures).map Prod.fst
  | .update id p => update db id p

section Writes

variable {crypto : Crypto} {db db' : Db}

theorem mem_recordLocks {hostID policyID : Int} {results : List EvaluationResult}
    {result : EvaluationResult}
    (h : acceptedResult crypto db hostID results policyID = some result) :
    Row.membership ⟨policyID, hostID⟩ ∈ recordLocks crypto db hostID results := by
  unfold acceptedResult at h
  split at h
  · rename_i normalized hn
    split_ifs at h with hs
    obtain ⟨hmem, rfl, he⟩ := eligibleResult_some h
    simp only [recordLocks, joinedResults, hn, hs, Bool.true_eq_false, if_false]
    exact List.mem_flatMap.mpr ⟨result, List.mem_filter.mpr ⟨hmem, he⟩, by simp⟩
  · cases h

theorem record_changes_locked {hostID : Int} {results : List EvaluationResult}
    (h : recordEvaluations crypto db hostID results = .ok db') :
    db'.policies = db.policies ∧ ∀ k, db'.membership k ≠ db.membership k →
      Row.membership k ∈ recordLocks crypto db hostID results := by
  obtain ⟨normalized, stored, hn, hs, hq⟩ := recordEvaluations_ok h
  obtain ⟨rows, -, rfl⟩ := enqueue_ok hq
  refine ⟨rfl, ?_⟩
  intro k hk
  obtain ⟨policyID, hostID'⟩ := k
  simp only [storeResults] at hk
  split at hk
  · rename_i result hr
    split_ifs at hr with hhostID
    cases hhostID
    exact mem_recordLocks ((acceptedResult_ok crypto db hostID hn hs policyID).trans hr)
  · exact absurd rfl hk

theorem run_changes_nothing {policyID : Int} {hostIDs : List Int} {allFailures : Bool}
    {summary : PolicyRemediationBatchSummary}
    (h : runRemediations crypto db policyID hostIDs allFailures = .ok (db', summary)) :
    db'.policies = db.policies ∧ db'.membership = db.membership := by
  obtain ⟨policy, ids, stored, -, -, -, hq⟩ := runRemediations_ok h
  obtain ⟨rows, -, rfl⟩ := enqueue_ok hq
  exact ⟨rfl, rfl⟩

/-- An edit that succeeds locks its policy and the membership rows that it drops. -/
theorem updateLocks_ok {id : Int} {p : PolicyMutation} {write : PolicyWrite} {current : PolicyRow}
    (h : update db id p = .ok db') (hw : p.checked = .ok write)
    (hp : db.policies.row id = some current) :
    updateLocks db id p = .policy id :: (db.hosts.ids.filter (fun hostID =>
      (db.membership ⟨id, hostID⟩).isSome && editDrops db id current write ⟨id, hostID⟩)).map
        (fun hostID => .membership ⟨id, hostID⟩) := by
  have hfree : ¬(nameTaken db write.name id = true ∨ labelsExist db write = false) := by
    rintro (hname | hlabel)
    · simp [update, hw, hp, hname, bind, Except.bind] at h
    · simp only [update, hw, hp, hlabel, bind, Except.bind, if_true] at h
      split_ifs at h
  simp only [updateLocks, hw, hp, if_neg hfree]

theorem update_changes_locked {id : Int} {p : PolicyMutation}
    (hhost : ∀ k, (db.membership k).isSome = true → (db.hosts.row k.hostID).isSome = true)
    (h : update db id p = .ok db') :
    (∀ other, db'.policies.row other ≠ db.policies.row other → Row.policy other ∈ updateLocks db id p) ∧
      ∀ k, db'.membership k ≠ db.membership k → Row.membership k ∈ updateLocks db id p := by
  obtain ⟨write, current, hw, hp, rfl⟩ := update_ok h
  simp only [updateLocks_ok h hw hp, List.mem_cons, List.mem_map, List.mem_filter, reduceCtorEq,
    false_or, Row.policy.injEq, Row.membership.injEq]
  constructor
  · intro other hother
    by_contra hne
    simp only [dropMembership, editPolicies, KeyedRows.Table.row_modify] at hother
    rw [if_neg (fun heq => hne (.inl heq))] at hother
    exact hother rfl
  · intro k hk
    simp only [dropMembership, editPolicies] at hk
    split_ifs at hk with hdrop
    · have hsome : (db.membership k).isSome = true := by
        rw [Option.isSome_iff_ne_none]
        exact fun hnone => hk hnone.symm
      have hid : k.policyID = id := by
        simp only [editDrops, Bool.and_eq_true, beq_iff_eq] at hdrop
        exact hdrop.1
      subst hid
      exact ⟨k.hostID, ⟨KeyedRows.Table.mem_ids.mpr (hhost k hsome), by simp [hsome, hdrop]⟩, rfl⟩
    · exact absurd rfl hk

/-- A call changes only policies and membership rows that it has locked. The foreign
key of the membership table names a host. -/
theorem apply_changes_locked {call : Call}
    (hhost : ∀ k, (db.membership k).isSome = true → (db.hosts.row k.hostID).isSome = true)
    (h : applyCall crypto db call = .ok db') :
    (∀ id, db'.policies.row id ≠ db.policies.row id → Row.policy id ∈ rowLocks crypto ⟨db, call⟩) ∧
      ∀ k, db'.membership k ≠ db.membership k → Row.membership k ∈ rowLocks crypto ⟨db, call⟩ := by
  cases call with
  | record hostID results =>
    obtain ⟨hpolicies, hmembership⟩ := record_changes_locked h
    exact ⟨fun id hid => absurd (by rw [hpolicies]) hid, hmembership⟩
  | run policyID hostIDs allFailures =>
    cases hr : runRemediations crypto db policyID hostIDs allFailures with
    | error f => simp [applyCall, hr, Except.map] at h
    | ok result =>
      simp only [applyCall, hr, Except.map, Except.ok.injEq] at h
      subst h
      obtain ⟨hpolicies, hmembership⟩ := run_changes_nothing hr
      exact ⟨fun id hid => absurd (by rw [hpolicies]) hid, fun k hk => absurd (by rw [hmembership]) hk⟩
  | update id p => exact update_changes_locked hhost h

end Writes

def gate : Row → Option Int
  | .policy id => some id
  | .membership _ => none

def owner : Row → Int
  | .policy id => id
  | .membership k => k.policyID

/-- A list in which each membership row stands behind its policy. -/
def Guarded (rows : List Row) : Prop :=
  ∀ begun x rest, rows = begun ++ x :: rest → gate x = none → owner x ∈ begun.filterMap gate

theorem guarded_nil : Guarded [] := by
  intro begun x rest h
  simp at h

theorem guarded_append {front back : List Row} (hf : Guarded front) (hb : Guarded back) :
    Guarded (front ++ back) := by
  intro begun x rest h hx
  rcases List.append_eq_append_iff.mp h with ⟨mid, rfl, hback⟩ | ⟨mid, hfront, hrest⟩
  · rw [List.filterMap_append]
    exact List.mem_append_right _ (hb mid x rest hback hx)
  · cases mid with
    | nil =>
      simp only [List.nil_append] at hrest
      rw [List.append_nil] at hfront
      have := hb [] x rest hrest.symm hx
      simp at this
    | cons y mid =>
      simp only [List.cons_append, List.cons.injEq] at hrest
      obtain ⟨rfl, -⟩ := hrest
      exact hf begun x mid hfront hx

/-- A policy, then membership rows of it. -/
def block (b : Int × List Int) : List Row :=
  .policy b.1 :: b.2.map (fun hostID => .membership ⟨b.1, hostID⟩)

theorem guarded_block (b : Int × List Int) : Guarded (block b) := by
  intro begun x rest h hx
  cases begun with
  | nil =>
    simp only [block, List.nil_append, List.cons.injEq] at h
    rw [← h.1] at hx
    cases hx
  | cons y begun =>
    simp only [block, List.cons_append, List.cons.injEq] at h
    obtain ⟨rfl, h⟩ := h
    have hmem : x ∈ begun ++ x :: rest := by simp
    rw [← h, List.mem_map] at hmem
    obtain ⟨hostID, -, rfl⟩ := hmem
    simp [gate, owner]

theorem guarded_blocks (blocks : List (Int × List Int)) : Guarded (blocks.flatMap block) := by
  induction blocks with
  | nil => exact guarded_nil
  | cons b blocks ih => exact guarded_append (guarded_block b) ih

theorem gates_blocks (blocks : List (Int × List Int)) :
    (blocks.flatMap block).filterMap gate = blocks.map Prod.fst := by
  induction blocks with
  | nil => rfl
  | cons b blocks ih =>
    rw [List.flatMap_cons, List.filterMap_append, ih]
    simp [block, gate, List.filterMap_map, Function.comp_def]

section Order

variable (crypto : Crypto) (tx : Tx)

/-- A record has a block for each eligible answer, the other calls have one at most. -/
theorem rowLocks_blocks : ∃ blocks : List (Int × List Int), rowLocks crypto tx = blocks.flatMap block ∧
    (answeredPolicies crypto tx = blocks.map Prod.fst ∨
      blocks.length ≤ 1 ∧ answeredPolicies crypto tx = []) := by
  obtain ⟨db, call⟩ := tx
  cases call with
  | record hostID results =>
    refine ⟨(joinedResults crypto db hostID results).map (fun r => (r.policyID, [hostID])), ?_, ?_⟩
    · simp [rowLocks, recordLocks, List.flatMap_map, block]
    · simp [answeredPolicies, Function.comp_def]
  | run policyID hostIDs allFailures =>
    simp only [rowLocks, answeredPolicies, runLocks]
    split
    · exact ⟨[], rfl, .inl rfl⟩
    · rename_i ids _
      split
      · exact ⟨[], rfl, .inl rfl⟩
      · split
        · exact ⟨[], rfl, .inl rfl⟩
        · split
          · exact ⟨[(policyID, [])], rfl, .inr ⟨Nat.le_refl _, trivial⟩⟩
          · refine ⟨[(policyID, (remediationCandidates db policyID ids allFailures).map
              RemediationCandidate.hostID)], ?_, .inr ⟨Nat.le_refl _, trivial⟩⟩
            simp [block, Function.comp_def]
  | update id p =>
    simp only [rowLocks, answeredPolicies, updateLocks]
    split
    · exact ⟨[], rfl, .inl rfl⟩
    · split
      · exact ⟨[], rfl, .inl rfl⟩
      · rename_i write _ _ current _
        split
        · exact ⟨[(id, [])], rfl, .inr ⟨Nat.le_refl _, trivial⟩⟩
        · exact ⟨[(id, db.hosts.ids.filter (fun hostID => (db.membership ⟨id, hostID⟩).isSome &&
            editDrops db id current write ⟨id, hostID⟩))], by simp [block],
            .inr ⟨Nat.le_refl _, trivial⟩⟩

theorem rowLocks_gated {ι : Type} (txs : ι → Tx) :
    Gated gate owner (fun i => rowLocks crypto (txs i)) where
  single := by
    intro x y g hx hy
    cases x <;> cases y <;> simp_all [gate]
  before := by
    intro i begun x rest h hx
    obtain ⟨blocks, hblocks, -⟩ := rowLocks_blocks crypto (txs i)
    rw [hblocks] at h
    exact guarded_blocks blocks begun x rest h hx

theorem rowLocks_gates : answeredPolicies crypto tx = (rowLocks crypto tx).filterMap gate ∨
    ((rowLocks crypto tx).filterMap gate).length ≤ 1 ∧ answeredPolicies crypto tx = [] := by
  obtain ⟨blocks, hblocks, h⟩ := rowLocks_blocks crypto tx
  rw [hblocks, gates_blocks, List.length_map]
  exact h

end Order

section Deadlock

variable (crypto : Crypto) {n : ℕ} (txs : Fin n → Tx)

/-- Some interleaving of the row locks reaches a cycle of waiting transactions. -/
def MayDeadlock : Prop :=
  ∃ sched s, tryExec (LockOrder.step (fun i => rowLocks crypto (txs i))) {} sched = some s ∧
    Deadlocked (fun i => rowLocks crypto (txs i)) s

theorem mayDeadlock_iff : MayDeadlock crypto txs ↔ Ring (fun i => answeredPolicies crypto (txs i)) := by
  rw [MayDeadlock, LockOrder.deadlock_iff_ring, (rowLocks_gated crypto txs).ring_iff]
  exact LockOrder.ring_without_short (fun i => rowLocks_gates crypto (txs i))

/-- No interleaving deadlocks exactly when the orders of the eligible answers form no ring. -/
theorem answers_never_deadlock_iff :
    (∀ sched s, tryExec (LockOrder.step (fun i => rowLocks crypto (txs i))) {} sched = some s →
      ¬Deadlocked (fun i => rowLocks crypto (txs i)) s) ↔
      ¬Ring (fun i => answeredPolicies crypto (txs i)) := by
  rw [← mayDeadlock_iff]
  constructor
  · rintro h ⟨sched, s, hrun, hd⟩
    exact h sched s hrun hd
  · intro h sched s hrun hd
    exact h ⟨sched, s, hrun, hd⟩

/-- Answers in the order of their policy ids cannot deadlock. -/
theorem sorted_answers_never_deadlock
    (h : ∀ i, (answeredPolicies crypto (txs i)).Pairwise (· ≤ ·)) : ¬MayDeadlock crypto txs := by
  rw [mayDeadlock_iff]
  exact LockOrder.not_ring_of_sorted h

end Deadlock

/-- Policies 1 and 2 are issued to hosts 1 and 2. -/
def twoHosts : Db :=
  exec (step sampleCrypto) sampleDb [.enroll, .enroll, .label 1 1 true, .label 1 2 true,
    .create samplePolicy, .create { samplePolicy with name := "Firewall" }, .issue 1, .issue 2]

def answerPolicy (policyID : Int) : EvaluationResult :=
  { sampleAnswer 1 .pass with policyID := policyID }

local instance twoAnswers : NeZero 2 := ⟨Nat.succ_ne_zero 1⟩

/-- Both hosts answer both policies, in opposite orders. -/
def crossed (i : Fin 2) : Tx where
  found := twoHosts
  call := if i = 0 then .record 1 [answerPolicy 1, answerPolicy 2]
    else .record 2 [answerPolicy 2, answerPolicy 1]

/-- What they lock: each has the other's second policy behind its first. -/
def crossedRows (i : Fin 2) : List Row :=
  if i = 0 then [.policy 1, .membership ⟨1, 1⟩, .policy 2, .membership ⟨2, 1⟩]
  else [.policy 2, .membership ⟨2, 2⟩, .policy 1, .membership ⟨1, 2⟩]

theorem rowLocks_crossed : (fun i => rowLocks sampleCrypto (crossed i)) = crossedRows := by
  decide

theorem crossed_answers_deadlock : ∃ s,
    tryExec (LockOrder.step (fun i => rowLocks sampleCrypto (crossed i))) {} [0, 0, 1, 1] = some s ∧
      Deadlocked (fun i => rowLocks sampleCrypto (crossed i)) s := by
  rw [rowLocks_crossed]
  let s := (tryExec (LockOrder.step crossedRows) {} [0, 0, 1, 1]).getD {}
  have h01 : LockOrder.Waits crossedRows s 0 1 := ⟨by decide, .policy 2, rfl, by decide⟩
  have h10 : LockOrder.Waits crossedRows s 1 0 := ⟨by decide, .policy 1, rfl, by decide⟩
  exact ⟨s, rfl, 0, .tail (.single h01) h10⟩

end PolicyLocks
