import Mathlib.Data.Finset.Basic
import Mathlib.Data.List.Sort
import Mathlib.Data.UInt
import Woodstar.Primitives
import Woodstar.KeyedSets

/-!
# Santa sync targets and payloads

`internal/santa/syncstate/rules.go` and `model.go`: the targets a host should
hold, the payload rules that a sync session downloads, and the counts Santa
reports. Rule types and policies are the PostgreSQL enumerations, so a key that
the source joins with NUL separators is a pair or a constructor here.
-/
namespace SantaTargets

open KeyedSets (Edit IsDelta)

inductive RuleType where
  | binary | certificate | teamid | signingid | cdhash | bundle
  deriving DecidableEq, Repr

inductive Policy where
  | allowlist | allowlistCompiler | blocklist | silentBlocklist | silentGuiBlocklist
  | silentTtyBlocklist | cel
  deriving DecidableEq, Repr

inductive SyncType where
  | normal | clean | cleanAll
  deriving DecidableEq, Repr

def SyncType.text : SyncType → String
  | .normal => "normal"
  | .clean => "clean"
  | .cleanAll => "clean_all"

structure RuleKey where
  ruleType : RuleType
  identifier : String
  deriving DecidableEq, Repr

structure Target where
  ruleType : RuleType
  identifier : String
  policy : Policy
  celExpression : String := ""
  customMessage : String := ""
  customURL : String := ""
  appName : String := ""
  deriving DecidableEq, Repr

/-- A removal carries no policy, which the source writes as the empty string. -/
structure PayloadRule where
  ruleType : RuleType
  identifier : String
  policy : Option Policy := none
  celExpression : String := ""
  customMessage : String := ""
  customURL : String := ""
  appName : String := ""
  removed : Bool := false
  deriving DecidableEq, Repr

def Target.identityKey (target : Target) : RuleKey := ⟨target.ruleType, target.identifier⟩

def PayloadRule.identityKey (rule : PayloadRule) : RuleKey := ⟨rule.ruleType, rule.identifier⟩

def ruleTypeSort : RuleType → Nat
  | .cdhash => 1
  | .binary => 2
  | .signingid => 3
  | .certificate => 4
  | .teamid => 5
  | .bundle => 6

/-- The comparison of `sortedTargets`, as a relation. -/
def keyLE (left right : RuleKey) : Prop :=
  ruleTypeSort left.ruleType < ruleTypeSort right.ruleType ∨
    (ruleTypeSort left.ruleType = ruleTypeSort right.ruleType ∧ left.identifier ≤ right.identifier)

instance (left right : RuleKey) : Decidable (keyLE left right) :=
  inferInstanceAs (Decidable (ruleTypeSort left.ruleType < ruleTypeSort right.ruleType ∨
    (ruleTypeSort left.ruleType = ruleTypeSort right.ruleType ∧ left.identifier ≤ right.identifier)))

def sortedTargets (targets : List Target) : List Target :=
  targets.insertionSort (fun left right => keyLE left.identityKey right.identityKey)

/-- Within one key a removal sorts last. -/
def payloadLE (left right : PayloadRule) : Prop :=
  if left.identityKey = right.identityKey then left.removed ≤ right.removed
  else keyLE left.identityKey right.identityKey

instance (left right : PayloadRule) : Decidable (payloadLE left right) :=
  inferInstanceAs (Decidable (if left.identityKey = right.identityKey then left.removed ≤ right.removed
    else keyLE left.identityKey right.identityKey))

def sortedPayloadRules (rules : List PayloadRule) : List PayloadRule := rules.insertionSort payloadLE

theorem sortedTargets_perm (targets : List Target) : (sortedTargets targets).Perm targets :=
  List.perm_insertionSort _ _

theorem sortedPayloadRules_perm (rules : List PayloadRule) : (sortedPayloadRules rules).Perm rules :=
  List.perm_insertionSort _ _

@[simp] theorem mem_sortedTargets {targets : List Target} {t : Target} :
    t ∈ sortedTargets targets ↔ t ∈ targets := (sortedTargets_perm targets).mem_iff

@[simp] theorem mem_sortedPayloadRules {rules : List PayloadRule} {r : PayloadRule} :
    r ∈ sortedPayloadRules rules ↔ r ∈ rules := (sortedPayloadRules_perm rules).mem_iff

@[simp] theorem length_sortedPayloadRules (rules : List PayloadRule) :
    (sortedPayloadRules rules).length = rules.length := (sortedPayloadRules_perm rules).length_eq

@[simp] theorem sortedTargets_toFinset (targets : List Target) :
    (sortedTargets targets).toFinset = targets.toFinset := by ext; simp

def payloadRuleFromTarget (target : Target) : PayloadRule where
  ruleType := target.ruleType
  identifier := target.identifier
  policy := some target.policy
  celExpression := target.celExpression
  customMessage := target.customMessage
  customURL := target.customURL
  appName := target.appName

/-- `appliedByIdentity[key]`: the last target written to the map wins. -/
def appliedByIdentity (applied : List Target) (key : RuleKey) : Option Target :=
  applied.reverse.find? (fun target => target.identityKey = key)

def removalOf (target : Target) : PayloadRule where
  ruleType := target.ruleType
  identifier := target.identifier
  removed := true

def normalSyncPayload (desired applied : List Target) : List PayloadRule :=
  sortedPayloadRules
    ((desired.filter (fun target =>
        appliedByIdentity applied target.identityKey ≠ some target)).map payloadRuleFromTarget ++
      (applied.filter (fun target =>
        target.identityKey ∉ desired.map Target.identityKey)).map removalOf)

def fullSyncPayload (targets : List Target) : List PayloadRule :=
  sortedPayloadRules (targets.map payloadRuleFromTarget)

def cleanSyncTombstoneIdentifier : String :=
  "babd20c244e498bf4c19374cd3de5c0a63a50c7d5f6cac77d915e5eb8d638e6b"

def cleanSyncPayload (targets : List Target) : List PayloadRule :=
  let payload := fullSyncPayload targets
  if payload.length ≠ 0 then payload
  else [{ ruleType := .binary, identifier := cleanSyncTombstoneIdentifier, removed := true }]

def targetsEqual (a b : List Target) : Bool := decide (sortedTargets a = sortedTargets b)

/-- What lets the client create transitive rules: a compiler rule, or a CEL rule
with this very expression. -/
inductive Authority where
  | allowlistCompiler (key : RuleKey)
  | cel (key : RuleKey) (expression : String)
  deriving DecidableEq, Repr

def Target.authority (target : Target) : Option Authority :=
  match target.policy with
  | .allowlistCompiler => some (.allowlistCompiler target.identityKey)
  | .cel => some (.cel target.identityKey target.celExpression)
  | _ => none

def transitiveAuthorities (targets : List Target) : List Authority :=
  targets.filterMap Target.authority

def transitiveAuthorityRemoved (applied desired : List Target) : Bool :=
  (transitiveAuthorities applied).any (fun authority => authority ∉ transitiveAuthorities desired)

theorem mem_transitiveAuthorities {targets : List Target} {a : Authority} :
    a ∈ transitiveAuthorities targets ↔ ∃ t ∈ targets, t.authority = some a := by
  simp [transitiveAuthorities]

theorem transitiveAuthorityRemoved_eq_false {applied desired : List Target} :
    transitiveAuthorityRemoved applied desired = false ↔
      ∀ a ∈ transitiveAuthorities applied, a ∈ transitiveAuthorities desired := by
  simp [transitiveAuthorityRemoved]

structure RuleCounts where
  binary : UInt32 := 0
  certificate : UInt32 := 0
  teamID : UInt32 := 0
  signingID : UInt32 := 0
  cdHash : UInt32 := 0
  compiler : UInt32 := 0
  transitive : UInt32 := 0
  deriving DecidableEq, Repr

def RuleCounts.binaryWithoutTransitive (counts : RuleCounts) : UInt32 :=
  counts.binary - counts.transitive

def RuleCounts.matchesReported (counts reported : RuleCounts) : Bool :=
  counts.binary == reported.binaryWithoutTransitive &&
    counts.certificate == reported.certificate &&
    counts.teamID == reported.teamID &&
    counts.signingID == reported.signingID &&
    counts.cdHash == reported.cdHash &&
    counts.compiler == reported.compiler

def countTarget (counts : RuleCounts) (target : Target) : RuleCounts :=
  match target.ruleType with
  | .binary =>
    { counts with
      binary := counts.binary + 1
      compiler := if target.policy = .allowlistCompiler then counts.compiler + 1 else counts.compiler }
  | .certificate => { counts with certificate := counts.certificate + 1 }
  | .teamid => { counts with teamID := counts.teamID + 1 }
  | .signingid => { counts with signingID := counts.signingID + 1 }
  | .cdhash => { counts with cdHash := counts.cdHash + 1 }
  | .bundle => counts

def countTargets (targets : List Target) : RuleCounts := targets.foldl countTarget {}

/-- The target that a client stores for a rule of the payload. -/
def PayloadRule.target (rule : PayloadRule) (policy : Policy) : Target where
  ruleType := rule.ruleType
  identifier := rule.identifier
  policy := policy
  celExpression := rule.celExpression
  customMessage := rule.customMessage
  customURL := rule.customURL
  appName := rule.appName

/-- A rule without a policy is sent as a removal, and removes. -/
def PayloadRule.edit (rule : PayloadRule) : Edit Target RuleKey :=
  match rule.removed, rule.policy with
  | false, some policy => .put (rule.target policy)
  | _, _ => .drop rule.identityKey

@[simp] theorem payloadRuleFromTarget_edit (t : Target) :
    (payloadRuleFromTarget t).edit = .put t := rfl

@[simp] theorem removalOf_edit (t : Target) : (removalOf t).edit = .drop t.identityKey := rfl

@[simp] theorem edit_key (rule : PayloadRule) :
    rule.edit.key Target.identityKey = rule.identityKey := by
  unfold PayloadRule.edit
  split <;> rfl

theorem appliedByIdentity_eq {applied : List Target} (hn : (applied.map Target.identityKey).Nodup)
    (t : Target) : appliedByIdentity applied t.identityKey = some t ↔ t ∈ applied := by
  constructor
  · intro h
    exact List.mem_reverse.mp (List.mem_of_find?_eq_some h)
  · intro h
    have hex : ∃ a ∈ applied.reverse, decide (a.identityKey = t.identityKey) = true :=
      ⟨t, List.mem_reverse.mpr h, by simp⟩
    obtain ⟨a, ha⟩ := Option.isSome_iff_exists.mp (List.find?_isSome.mpr hex)
    have hkey : a.identityKey = t.identityKey := by simpa using List.find?_some ha
    have hmem : a ∈ applied := List.mem_reverse.mp (List.mem_of_find?_eq_some ha)
    rw [appliedByIdentity, ha, List.inj_on_of_nodup_map hn hmem h hkey]

theorem identityKey_injOn {ts : List Target} (hn : (ts.map Target.identityKey).Nodup) :
    Set.InjOn Target.identityKey (ts.toFinset : Set Target) := by
  intro a ha b hb h
  exact List.inj_on_of_nodup_map hn (by simpa using ha) (by simpa using hb) h

theorem put_mem_fullSyncPayload {targets : List Target} {t : Target}
    (h : .put t ∈ (fullSyncPayload targets).map PayloadRule.edit) : t ∈ targets := by
  obtain ⟨r, hr, he⟩ := List.mem_map.mp h
  obtain ⟨u, hu, rfl⟩ := List.mem_map.mp (mem_sortedPayloadRules.mp hr)
  rw [payloadRuleFromTarget_edit, Edit.put.injEq] at he
  exact he ▸ hu

/-- A payload puts desired targets only. -/
theorem put_mem_cleanSyncPayload {targets : List Target} {t : Target}
    (h : .put t ∈ (cleanSyncPayload targets).map PayloadRule.edit) : t ∈ targets := by
  simp only [cleanSyncPayload] at h
  split at h
  · exact put_mem_fullSyncPayload h
  · simp [PayloadRule.edit] at h

theorem put_mem_normalSyncPayload {desired applied : List Target} {t : Target}
    (h : .put t ∈ (normalSyncPayload desired applied).map PayloadRule.edit) : t ∈ desired := by
  obtain ⟨r, hr, he⟩ := List.mem_map.mp h
  rcases List.mem_append.mp (mem_sortedPayloadRules.mp hr) with hr | hr
  · obtain ⟨u, hu, rfl⟩ := List.mem_map.mp hr
    rw [payloadRuleFromTarget_edit, Edit.put.injEq] at he
    exact he ▸ (List.mem_filter.mp hu).1
  · obtain ⟨u, -, rfl⟩ := List.mem_map.mp hr
    simp at he

/-- The edits of a NORMAL payload lead from the applied targets to the desired ones. -/
theorem normalSyncPayload_delta {desired applied : List Target}
    (hd : (desired.map Target.identityKey).Nodup) (ha : (applied.map Target.identityKey).Nodup) :
    IsDelta Target.identityKey applied.toFinset desired.toFinset
      ((normalSyncPayload desired applied).map PayloadRule.edit) where
  nodup := by
    have hp := ((sortedPayloadRules_perm
      ((desired.filter (fun target =>
          appliedByIdentity applied target.identityKey ≠ some target)).map payloadRuleFromTarget ++
        (applied.filter (fun target =>
          target.identityKey ∉ desired.map Target.identityKey)).map removalOf)).map
      PayloadRule.edit).map (Edit.key Target.identityKey)
    rw [normalSyncPayload, hp.nodup_iff]
    simp only [List.map_append, List.map_map]
    have hput : Edit.key Target.identityKey ∘ PayloadRule.edit ∘ payloadRuleFromTarget =
        Target.identityKey := rfl
    have hdrop : Edit.key Target.identityKey ∘ PayloadRule.edit ∘ removalOf =
        Target.identityKey := rfl
    rw [hput, hdrop, List.nodup_append]
    refine ⟨hd.sublist (List.filter_sublist.map _), ha.sublist (List.filter_sublist.map _), ?_⟩
    intro k hk l hl
    obtain ⟨t, ht, rfl⟩ := List.mem_map.mp hk
    obtain ⟨u, hu, rfl⟩ := List.mem_map.mp hl
    intro he
    have hu' := (List.mem_filter.mp hu).2
    simp only [decide_eq_true_eq] at hu'
    exact hu' (he ▸ List.mem_map_of_mem (List.mem_filter.mp ht).1)
  put := by
    intro t
    simp only [normalSyncPayload, List.mem_map, mem_sortedPayloadRules, List.mem_append,
      List.mem_toFinset]
    constructor
    · rintro ⟨r, ⟨u, hu, rfl⟩ | ⟨u, hu, rfl⟩, he⟩
      · obtain rfl : u = t := by simpa using he
        have hu' := List.mem_filter.mp hu
        simp only [ne_eq, decide_eq_true_eq, appliedByIdentity_eq ha] at hu'
        exact hu'
      · simp at he
    · rintro ⟨htd, hta⟩
      refine ⟨payloadRuleFromTarget t, .inl ⟨t, List.mem_filter.mpr ⟨htd, ?_⟩, rfl⟩, rfl⟩
      simpa [appliedByIdentity_eq ha] using hta
  drop := by
    intro k hk t ht
    simp only [normalSyncPayload, List.mem_map, mem_sortedPayloadRules, List.mem_append] at hk
    obtain ⟨r, ⟨u, hu, rfl⟩ | ⟨u, hu, rfl⟩, he⟩ := hk
    · simp at he
    · obtain rfl : u.identityKey = k := by simpa using he
      have hu' := (List.mem_filter.mp hu).2
      simp only [decide_eq_true_eq] at hu'
      intro hkey
      exact hu' ⟨t, List.mem_toFinset.mp ht, hkey⟩
  dropped := by
    intro b hb hnone
    simp only [normalSyncPayload, List.mem_map, mem_sortedPayloadRules, List.mem_append]
    refine ⟨removalOf b, .inr ⟨b, List.mem_filter.mpr ⟨List.mem_toFinset.mp hb, ?_⟩, rfl⟩, rfl⟩
    simp only [decide_eq_true_eq, not_exists, not_and]
    intro t ht
    exact hnone t (List.mem_toFinset.mpr ht)

/-- The edits of a CLEAN payload lead from an empty database to the desired
targets; the tombstone of an empty payload drops nothing. -/
theorem cleanSyncPayload_delta {desired : List Target}
    (hd : (desired.map Target.identityKey).Nodup) :
    IsDelta Target.identityKey ∅ desired.toFinset
      ((cleanSyncPayload desired).map PayloadRule.edit) := by
  by_cases hnil : desired = []
  · subst hnil
    refine ⟨?_, ?_, ?_, ?_⟩
    · decide
    · intro t
      simp [cleanSyncPayload, fullSyncPayload, sortedPayloadRules, PayloadRule.edit]
    · simp
    · simp
  · have hlen : (fullSyncPayload desired).length ≠ 0 := by
      simpa [fullSyncPayload] using hnil
    have hc : cleanSyncPayload desired = fullSyncPayload desired := by
      simp only [cleanSyncPayload, if_pos hlen]
    rw [hc]
    refine ⟨?_, ?_, ?_, ?_⟩
    · have hp := ((sortedPayloadRules_perm (desired.map payloadRuleFromTarget)).map
        PayloadRule.edit).map (Edit.key Target.identityKey)
      rw [fullSyncPayload, hp.nodup_iff]
      simp only [List.map_map]
      exact hd
    · intro t
      simp [fullSyncPayload]
    · intro k hk
      simp [fullSyncPayload] at hk
    · simp

end SantaTargets
