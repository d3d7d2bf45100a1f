import Woodstar.PolicyStore
import Woodstar.Reorderings

/-!
# Policy answers in another order

The answers of one write come in the order of a map. When the answers that count for a
policy say the same, RecordEvaluations stores the same in every order.
-/
namespace EvaluationOrder

open PolicyModel
open PolicyRemediation (enqueueRemediationBatch enqueue_ok)
open PolicyStore
open Primitives (Fault)

variable {crypto : Crypto} {db db' : Db} {hostID policyID : Int} {raw raw' result result' : EvaluationResult}
  {results results' : List EvaluationResult}

/-- What an answer is recorded as. -/
def normalized (raw : EvaluationResult) : Option EvaluationResult :=
  if raw.policyID ≤ 0 ∨ raw.revision ≤ 0 ∨ raw.sequence ≤ 0 then none else (normalizeResult raw).toOption

theorem normalizeResult_verdict (h : raw.status ≠ .pending) : ∃ result, normalizeResult raw = .ok result := by
  rw [normalizeResult]
  cases hstatus : raw.status with
  | pending => exact absurd hstatus h
  | pass => exact ⟨_, rfl⟩
  | fail => exact ⟨_, rfl⟩
  | error => exact ⟨_, rfl⟩

theorem normalize_eq (h : ∀ raw ∈ results, raw.status ≠ .pending) :
    normalizeEvaluationResults results = .ok (results.filterMap normalized) := by
  induction results with
  | nil => rfl
  | cons raw results ih =>
    have hrest := ih fun other hother => h other (List.mem_cons_of_mem _ hother)
    rw [normalizeEvaluationResults, List.filterMap_cons, normalized]
    split_ifs with hskipped
    · exact hrest
    · obtain ⟨result, hresult⟩ := normalizeResult_verdict (h raw List.mem_cons_self)
      rw [hresult, hrest]
      rfl

theorem normalized_spec (h : normalized raw = some result) : IsNormalized result raw := by
  rw [normalized] at h
  split_ifs at h with hskipped
  cases hresult : normalizeResult raw with
  | error fault =>
    rw [hresult] at h
    cases h
  | ok found =>
    rw [hresult] at h
    cases h
    obtain ⟨error, rfl, hstatus⟩ := normalizeResult_ok hresult
    exact ⟨rfl, rfl, rfl, rfl, rfl, by simp only; omega, hstatus⟩

theorem eligible_normalized (h : IsNormalized result raw) :
    eligible crypto db hostID result = eligible crypto db hostID raw := by
  rw [eligible, eligible, h.policyID, h.queryHash, h.revision, h.sequence]

/-- The answers, if both count for a policy, are recorded as the same. -/
def Agree (crypto : Crypto) (db : Db) (hostID : Int) (raw raw' : EvaluationResult) : Prop :=
  raw.policyID = raw'.policyID → eligible crypto db hostID raw = true → eligible crypto db hostID raw' = true →
    normalized raw = normalized raw'

theorem eligibleResult_perm (hperm : results.Perm results')
    (hagree : ∀ raw ∈ results, ∀ raw' ∈ results, Agree crypto db hostID raw raw') :
    eligibleResult crypto db hostID (results.filterMap normalized) =
      eligibleResult crypto db hostID (results'.filterMap normalized) := by
  funext policyID
  have hfind := Reorderings.find?_perm (hperm.filterMap normalized)
    (p := fun result => result.policyID == policyID && eligible crypto db hostID result)
    (g := fun result => result) ?_
  · simp only [Option.map_id'] at hfind
    exact hfind
  · intro result hresult result' hresult' hp hp'
    obtain ⟨raw, hraw, hn⟩ := List.mem_filterMap.mp hresult
    obtain ⟨raw', hraw', hn'⟩ := List.mem_filterMap.mp hresult'
    rw [Bool.and_eq_true, beq_iff_eq, eligible_normalized (normalized_spec hn)] at hp
    rw [Bool.and_eq_true, beq_iff_eq, eligible_normalized (normalized_spec hn')] at hp'
    have hpolicy : raw.policyID = raw'.policyID := by
      rw [← (normalized_spec hn).policyID, ← (normalized_spec hn').policyID, hp.1, hp'.1]
    have hsame := hagree raw hraw raw' hraw' hpolicy hp.2 hp'.2
    rw [hn, hn', Option.some.injEq] at hsame
    exact hsame

/-- The transaction after the answers are normalized. -/
theorem recordEvaluations_eq (h : ∀ raw ∈ results, raw.status ≠ .pending) :
    recordEvaluations crypto db hostID results =
      if results.filterMap normalized = [] then .ok db
      else if (results.filterMap normalized).all storableResult = false then
        .error (.database "character_not_in_repertoire")
      else (enqueueRemediationBatch crypto (storeResults crypto db hostID (results.filterMap normalized))
        (automaticBatch crypto db hostID (results.filterMap normalized))).map Prod.fst := by
  rw [recordEvaluations, normalize_eq h]
  change (if results.filterMap normalized = [] then _ else _) = _
  split_ifs
  · rfl
  · rfl
  · cases enqueueRemediationBatch crypto (storeResults crypto db hostID (results.filterMap normalized))
      (automaticBatch crypto db hostID (results.filterMap normalized)) <;> rfl

theorem recordEvaluations_perm (hperm : results.Perm results') (h : ∀ raw ∈ results, raw.status ≠ .pending)
    (hagree : ∀ raw ∈ results, ∀ raw' ∈ results, Agree crypto db hostID raw raw') :
    recordEvaluations crypto db hostID results = recordEvaluations crypto db hostID results' := by
  have hn := hperm.filterMap normalized
  have hnil : results.filterMap normalized = [] ↔ results'.filterMap normalized = [] := by
    rw [← List.length_eq_zero_iff, hn.length_eq, List.length_eq_zero_iff]
  have hall : (results.filterMap normalized).all storableResult =
    (results'.filterMap normalized).all storableResult := by
    rw [Bool.eq_iff_iff, List.all_eq_true, List.all_eq_true]
    constructor
    · intro hstorable result hresult
      exact hstorable result (hn.mem_iff.mpr hresult)
    · intro hstorable result hresult
      exact hstorable result (hn.mem_iff.mp hresult)
  have heligible := eligibleResult_perm hperm hagree
  have hstore : storeResults crypto db hostID (results.filterMap normalized) =
      storeResults crypto db hostID (results'.filterMap normalized) := by
    rw [storeResults, storeResults, heligible]
  have hbatch : automaticBatch crypto db hostID (results.filterMap normalized) =
      automaticBatch crypto db hostID (results'.filterMap normalized) := by
    have hcandidate : automaticCandidate crypto db hostID (results.filterMap normalized) =
        automaticCandidate crypto db hostID (results'.filterMap normalized) := by
      funext policyID
      rw [automaticCandidate, automaticCandidate, heligible]
    rw [automaticBatch, automaticBatch, hcandidate]
  rw [recordEvaluations_eq h, recordEvaluations_eq fun raw hraw => h raw (hperm.mem_iff.mpr hraw), hall, hstore, hbatch]
  by_cases hempty : results'.filterMap normalized = []
  · rw [if_pos hempty, if_pos (hnil.mpr hempty)]
  · rw [if_neg hempty, if_neg (fun h => hempty (hnil.mp h))]

/-- The request succeeds exactly when every answer can be stored. -/
theorem recordEvaluations_iff (h : ∀ raw ∈ results, raw.status ≠ .pending) :
    (∃ db', recordEvaluations crypto db hostID results = .ok db') ↔
      ∀ raw ∈ results, ∀ result, normalized raw = some result → storableResult result = true := by
  constructor
  · rintro ⟨db', hok⟩ raw hraw result hn
    obtain ⟨found, _, hfound, hall, -⟩ := recordEvaluations_ok hok
    cases (normalize_eq h).symm.trans hfound
    exact List.all_eq_true.mp hall result (List.mem_filterMap.mpr ⟨raw, hraw, hn⟩)
  · intro hall
    apply recordEvaluations_succeeds crypto db hostID (normalize_eq h)
    rw [List.all_eq_true]
    intro result hresult
    obtain ⟨raw, hraw, hn⟩ := List.mem_filterMap.mp hresult
    exact hall raw hraw result hn

/-- The first of the answers that count is the one that is stored. -/
theorem membership_first (h : ∀ other ∈ raw :: results, other.status ≠ .pending)
    (heligible : eligible crypto db hostID raw = true) (hn : normalized raw = some result)
    (hok : recordEvaluations crypto db hostID (raw :: results) = .ok db') :
    db'.membership ⟨raw.policyID, hostID⟩ =
      (db.membership ⟨raw.policyID, hostID⟩).map (fun membership => completeMembership membership result) := by
  obtain ⟨found, stored, hfound, -, hqueued⟩ := recordEvaluations_ok hok
  cases (normalize_eq h).symm.trans hfound
  obtain ⟨rows, -, rfl⟩ := enqueue_ok hqueued
  have hspec := normalized_spec hn
  have hfirst : eligibleResult crypto db hostID ((raw :: results).filterMap normalized) raw.policyID = some result := by
    rw [eligibleResult, List.filterMap_cons, hn]
    apply List.find?_cons_of_pos
    rw [Bool.and_eq_true, beq_iff_eq, hspec.policyID, eligible_normalized hspec]
    exact ⟨rfl, heligible⟩
  simp only [storeResults, if_true, hfirst]

/-- What is stored tells the answers apart. -/
theorem agree_of_membership {membership : MembershipRow} (hrow : db.membership ⟨raw.policyID, hostID⟩ = some membership)
    (hpolicy : raw.policyID = raw'.policyID) (heligible : eligible crypto db hostID raw = true)
    (heligible' : eligible crypto db hostID raw' = true) (hn : normalized raw = some result)
    (hn' : normalized raw' = some result')
    (h : completeMembership membership result = completeMembership membership result') : result = result' := by
  obtain ⟨policy, found, host, hawaits⟩ := eligible_iff.mp heligible
  obtain ⟨policy', found', host', hawaits'⟩ := eligible_iff.mp heligible'
  have hspec := normalized_spec hn
  have hspec' := normalized_spec hn'
  have hfound : found = membership := Option.some.inj (hawaits.membershipRow.symm.trans hrow)
  have hfound' : found' = membership := Option.some.inj (hawaits'.membershipRow.symm.trans (hpolicy ▸ hrow))
  have hpolicyRow : policy' = policy :=
    Option.some.inj (hawaits'.policyRow.symm.trans (hpolicy ▸ hawaits.policyRow))
  subst hfound hfound' hpolicyRow
  have hawait : MembershipRow.awaits found' result.sequence := hspec.sequence ▸ hawaits.awaited
  have hawait' : MembershipRow.awaits found' result'.sequence := hspec'.sequence ▸ hawaits'.awaited
  rw [completeMembership, dif_pos hawait, completeMembership, dif_pos hawait'] at h
  have hstatus := congrArg MembershipRow.status h
  have herror := congrArg MembershipRow.error h
  have hid : result.policyID = result'.policyID := hspec.policyID.trans (hpolicy.trans hspec'.policyID.symm)
  have hhash : result.queryHash = result'.queryHash :=
    hspec.queryHash.trans (hawaits.queryHash.symm.trans (hawaits'.queryHash.trans hspec'.queryHash.symm))
  have hrevision : result.revision = result'.revision :=
    hspec.revision.trans (hawaits.revision.symm.trans (hawaits'.revision.trans hspec'.revision.symm))
  have hsequence : result.sequence = result'.sequence := hawait.1.symm.trans hawait'.1
  cases result
  cases result'
  cases hid
  cases hhash
  cases hrevision
  cases hsequence
  cases hstatus
  cases herror
  rfl

end EvaluationOrder
