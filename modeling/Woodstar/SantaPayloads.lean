import Woodstar.SantaSessions

/-!
# Payloads of a sync session

`internal/santa/syncstate/rules.go` and `load_store.go`: a NORMAL payload as a patch of the
applied rules, and the pages in which a client downloads a payload.
-/
namespace SantaPayloads

open Primitives (Fault)
open SantaTargets SantaSync SantaSessions

theorem ruleTypeSort_injective {left right : RuleType}
    (h : ruleTypeSort left = ruleTypeSort right) : left = right := by
  cases left <;> cases right <;> first | rfl | cases h

theorem keyLE_total (left right : RuleKey) : keyLE left right ∨ keyLE right left := by
  simp only [keyLE]
  have hs := le_total left.identifier right.identifier
  rcases Nat.lt_trichotomy (ruleTypeSort left.ruleType) (ruleTypeSort right.ruleType) with hlt | heq | hgt
  · exact .inl (.inl hlt)
  · cases hs with
    | inl hle => exact .inl (.inr ⟨heq, hle⟩)
    | inr hge => exact .inr (.inr ⟨heq.symm, hge⟩)
  · exact .inr (.inl hgt)

theorem keyLE_trans {a b c : RuleKey} (hab : keyLE a b) (hbc : keyLE b c) : keyLE a c := by
  simp only [keyLE] at hab hbc ⊢
  cases hab with
  | inl hab =>
    left
    omega
  | inr hab =>
    cases hbc with
    | inl hbc =>
      left
      omega
    | inr hbc =>
      right
      exact ⟨hab.1.trans hbc.1, le_trans hab.2 hbc.2⟩

theorem keyLE_antisymm {a b : RuleKey} (hab : keyLE a b) (hba : keyLE b a) : a = b := by
  simp only [keyLE] at hab hba
  have htype : ruleTypeSort a.ruleType = ruleTypeSort b.ruleType := by omega
  have hab' : a.identifier ≤ b.identifier := by
    cases hab with
    | inl h => omega
    | inr h => exact h.2
  have hba' : b.identifier ≤ a.identifier := by
    cases hba with
    | inl h => omega
    | inr h => exact h.2
  cases a
  cases b
  congr
  · exact ruleTypeSort_injective htype
  · exact le_antisymm hab' hba'

theorem keyLE_refl (a : RuleKey) : keyLE a a := (keyLE_total a a).elim id id

theorem payloadLE_total (left right : PayloadRule) : payloadLE left right ∨ payloadLE right left := by
  simp only [payloadLE]
  by_cases hkey : left.identityKey = right.identityKey
  · rw [if_pos hkey, if_pos hkey.symm]
    exact le_total left.removed right.removed
  · rw [if_neg hkey, if_neg (fun h => hkey h.symm)]
    exact keyLE_total _ _

/-- Whatever stands before a rule in the payload has a key that is not above the rule's. -/
theorem keyLE_of_payloadLE {left right : PayloadRule} (h : payloadLE left right) :
    keyLE left.identityKey right.identityKey := by
  simp only [payloadLE] at h
  split at h
  · rename_i hkey
    rw [hkey]
    exact keyLE_refl _
  · exact h

theorem payloadLE_trans {a b c : PayloadRule} (hab : payloadLE a b) (hbc : payloadLE b c) :
    payloadLE a c := by
  have hkeys := keyLE_trans (keyLE_of_payloadLE hab) (keyLE_of_payloadLE hbc)
  simp only [payloadLE]
  split
  · rename_i hac
    -- Equal keys at both ends leave no other key between them.
    have hb : b.identityKey = a.identityKey :=
      keyLE_antisymm (hac ▸ keyLE_of_payloadLE hbc) (keyLE_of_payloadLE hab)
    simp only [payloadLE, if_pos hb.symm, if_pos (hb.trans hac)] at hab hbc
    exact le_trans hab hbc
  · exact hkeys

instance : Std.Total payloadLE := ⟨payloadLE_total⟩

instance : IsTrans PayloadRule payloadLE := ⟨fun _ _ _ => payloadLE_trans⟩

theorem sortedPayloadRules_pairwise (rules : List PayloadRule) :
    (sortedPayloadRules rules).Pairwise payloadLE :=
  List.pairwise_insertionSort payloadLE rules

/-- With distinct keys only one order satisfies the comparison, whichever sort makes it. -/
theorem payload_order_unique {rules rules' : List PayloadRule} (hp : rules.Perm rules')
    (hn : (rules.map PayloadRule.identityKey).Nodup) (h : rules.Pairwise payloadLE)
    (h' : rules'.Pairwise payloadLE) : rules = rules' := by
  apply hp.eq_of_pairwise _ h h'
  intro a b ha hb hab hba
  have hkey := keyLE_antisymm (keyLE_of_payloadLE hab) (keyLE_of_payloadLE hba)
  exact List.inj_on_of_nodup_map hn ha (hp.mem_iff.mpr hb) hkey

/-- The changes that lead from the applied targets to the desired ones, and no others. -/
structure IsPatch (desired applied : List Target) (payload : List PayloadRule) : Prop where
  applies : applyRules applied.toFinset payload = desired.toFinset
  once : (payload.map PayloadRule.identityKey).Nodup
  silent : ∀ target ∈ desired, target ∈ applied →
    target.identityKey ∉ payload.map PayloadRule.identityKey
  removed : ∀ key, (∃ rule ∈ payload, rule.identityKey = key ∧ rule.removed = true) ↔
    key ∈ applied.map Target.identityKey ∧ key ∉ desired.map Target.identityKey

variable {desired applied : List Target}

theorem mem_normalSyncPayload {rule : PayloadRule} : rule ∈ normalSyncPayload desired applied ↔
    (∃ target ∈ desired, appliedByIdentity applied target.identityKey ≠ some target ∧
      payloadRuleFromTarget target = rule) ∨
    ∃ target ∈ applied, target.identityKey ∉ desired.map Target.identityKey ∧
      removalOf target = rule := by
  simp only [normalSyncPayload, mem_sortedPayloadRules, List.mem_append, List.mem_map,
    List.mem_filter, decide_eq_true_eq, and_assoc]

theorem normalSyncPayload_once (hd : (desired.map Target.identityKey).Nodup)
    (ha : (applied.map Target.identityKey).Nodup) :
    ((normalSyncPayload desired applied).map PayloadRule.identityKey).Nodup := by
  have h := (normalSyncPayload_delta hd ha).nodup
  simpa [List.map_map, Function.comp_def] using h

theorem normalSyncPayload_silent (ha : (applied.map Target.identityKey).Nodup)
    (hd : (desired.map Target.identityKey).Nodup) {target : Target} (htd : target ∈ desired)
    (hta : target ∈ applied) :
    target.identityKey ∉ (normalSyncPayload desired applied).map PayloadRule.identityKey := by
  intro hmem
  obtain ⟨rule, hrule, hkey⟩ := List.mem_map.mp hmem
  cases mem_normalSyncPayload.mp hrule with
  | inl h =>
    obtain ⟨other, hother, hchanged, rfl⟩ := h
    obtain rfl : other = target := List.inj_on_of_nodup_map hd hother htd hkey
    exact hchanged ((appliedByIdentity_eq ha other).mpr hta)
  | inr h =>
    obtain ⟨other, -, hgone, rfl⟩ := h
    have hkey' : other.identityKey = target.identityKey := hkey
    exact hgone (hkey' ▸ List.mem_map_of_mem htd)

theorem normalSyncPayload_removed (key : RuleKey) :
    (∃ rule ∈ normalSyncPayload desired applied, rule.identityKey = key ∧ rule.removed = true) ↔
      key ∈ applied.map Target.identityKey ∧ key ∉ desired.map Target.identityKey := by
  constructor
  · intro h
    obtain ⟨rule, hrule, hkey, hremoved⟩ := h
    cases mem_normalSyncPayload.mp hrule with
    | inl h =>
      obtain ⟨target, -, -, rfl⟩ := h
      cases hremoved
    | inr h =>
      obtain ⟨target, htarget, hgone, rfl⟩ := h
      subst hkey
      exact ⟨List.mem_map_of_mem htarget, hgone⟩
  · intro h
    obtain ⟨hmem, hgone⟩ := h
    obtain ⟨target, htarget, rfl⟩ := List.mem_map.mp hmem
    exact ⟨removalOf target, mem_normalSyncPayload.mpr (.inr ⟨target, htarget, hgone, rfl⟩), rfl, rfl⟩

/-- Order matters neither in the map of the applied targets nor in the two loops. -/
theorem normalSyncPayload_entries_perm {desired' applied' : List Target} (hd : desired'.Perm desired)
    (ha : applied'.Perm applied) (hn : (applied.map Target.identityKey).Nodup) :
    (normalSyncPayload desired' applied').Perm (normalSyncPayload desired applied) := by
  have hn' : (applied'.map Target.identityKey).Nodup := (ha.map _).nodup_iff.mpr hn
  have hsame : ∀ target : Target, appliedByIdentity applied' target.identityKey = some target ↔
      appliedByIdentity applied target.identityKey = some target := by
    intro target
    rw [appliedByIdentity_eq hn', appliedByIdentity_eq hn, ha.mem_iff]
  have hkeys : ∀ key, key ∈ desired'.map Target.identityKey ↔ key ∈ desired.map Target.identityKey :=
    fun key => (hd.map _).mem_iff
  simp only [normalSyncPayload, ne_eq, hsame, hkeys]
  exact (sortedPayloadRules_perm _).trans
    ((((hd.filter _).map _).append ((ha.filter _).map _)).trans (sortedPayloadRules_perm _).symm)

/-- The NORMAL payload changes what differs, names nothing else, and does not depend on the
order of either list or on the sort that puts it in order. -/
theorem normal_payload_is_patch (desired applied : List Target)
    (hd : (desired.map Target.identityKey).Nodup) (ha : (applied.map Target.identityKey).Nodup) :
    IsPatch desired applied (normalSyncPayload desired applied) ∧
    (∀ desired' applied', desired'.Perm desired → applied'.Perm applied →
      normalSyncPayload desired' applied' = normalSyncPayload desired applied) ∧
    ∀ payload, payload.Perm (normalSyncPayload desired applied) → payload.Pairwise payloadLE →
      payload = normalSyncPayload desired applied := by
  have honce := normalSyncPayload_once hd ha
  constructor
  · exact ⟨applyRules_normal hd ha, honce,
      fun target htd hta => normalSyncPayload_silent ha hd htd hta, normalSyncPayload_removed⟩
  constructor
  · intro desired' applied' hpd hpa
    have hperm := normalSyncPayload_entries_perm hpd hpa ha
    exact payload_order_unique hperm ((hperm.map _).nodup_iff.mpr honce)
      (sortedPayloadRules_pairwise _) (sortedPayloadRules_pairwise _)
  · intro payload hperm hsorted
    exact payload_order_unique hperm ((hperm.map _).nodup_iff.mpr honce) hsorted
      (sortedPayloadRules_pairwise _)

theorem normal_payload_is_patch_sample :
    IsPatch [sampleCompiler] [sampleAllow] (normalSyncPayload [sampleCompiler] [sampleAllow]) :=
  (normal_payload_is_patch [sampleCompiler] [sampleAllow] (by decide) (by decide)).1

section

variable {s : SyncState} {pending : SyncType} {limit start fuel : Nat} {cursor : Cursor}

end

/-- Two rules in pages of one. -/
def sampleState : SyncState where
  row := some { pendingSyncType := some .clean }
  desired := [sampleAllow, sampleCompiler]

end SantaPayloads
