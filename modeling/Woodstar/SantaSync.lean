import Woodstar.SantaTargets

/-!
# The Santa sync store

`internal/santa/syncstate`: `PreparePending`, `LoadPendingPayloadPage` and
`PromotePending` over the `santa_sync_state` row and the two phases of
`santa_sync_targets` of one host. Each function is one transaction here; an
error leaves the state as it was.
-/
namespace SantaSync

open Primitives (Fault isText btrimNotEmpty hexDecodes toLower)
open SantaTargets

structure SyncRow where
  pendingSyncType : Option SyncType := none
  pendingPolicyDigest : Option String := none
  preflightRulesHash : Option String := none
  appliedPolicyDigest : Option String := none
  confirmedRulesHash : Option String := none
  deriving DecidableEq, Repr

/-- The rows of one host; targets stand in the order of their `position`. -/
structure SyncState where
  row : Option SyncRow := none
  desired : List Target := []
  applied : List Target := []
  deriving DecidableEq, Repr

def validateHexDigest (name value : String) (length : Nat) : Except Fault Unit :=
  if value.utf8ByteSize ≠ length ∨ toLower value ≠ value ∨ hexDecodes value = false then
    .error (.invalidInput s!"{name} must be {length} lowercase hexadecimal characters")
  else .ok ()

def validateRulesHash (rulesHash : String) : Except Fault Unit :=
  validateHexDigest "rules_hash" rulesHash 32

def validatePolicyDigest (digest : String) : Except Fault Unit :=
  validateHexDigest "policy digest" digest 64

def validateRuleCounts (counts : RuleCounts) : Except Fault Unit :=
  if counts.transitive > counts.binary then .error (.invalidInput "invalid Santa rule counts")
  else .ok ()

def loadTargets (rows : List Target) : List Target := sortedTargets rows

/-- The column constraints of `santa_sync_targets`. -/
def Target.storable (t : Target) : Bool :=
  btrimNotEmpty t.identifier && isText t.identifier && isText t.celExpression &&
    isText t.customMessage && isText t.customURL && isText t.appName

/-- One INSERT, at the next position, after the rows before it. -/
def insertRow (rows : List Target) (target : Target) : Except Fault (List Target) :=
  if 2 ^ 31 ≤ rows.length then .error (.database "santa_sync_targets_position_check")
  else if Target.storable target = false then .error (.database "santa_sync_targets_identifier_check")
  else if target.identityKey ∈ rows.map Target.identityKey then
    .error (.database "santa_sync_targets_host_phase_identity_key")
  else .ok (rows ++ [target])

def insertRows : List Target → List Target → Except Fault (List Target)
  | rows, [] => .ok rows
  | rows, target :: rest =>
    match insertRow rows target with
    | .error e => .error e
    | .ok rows => insertRows rows rest

def insertTargets (targets : List Target) : Except Fault (List Target) :=
  insertRows [] (sortedTargets targets)

/-- The applied sync state loaded at the start of a preflight. -/
structure PriorState where
  policyDigest : Option String := none
  targets : List Target := []
  confirmedRulesHash : Option String := none
  deriving DecidableEq, Repr

def loadPriorState (s : SyncState) : PriorState where
  policyDigest := s.row.bind SyncRow.appliedPolicyDigest
  confirmedRulesHash := s.row.bind SyncRow.confirmedRulesHash
  targets := loadTargets s.applied

def PriorState.requiredSyncType (p : PriorState) (policyDigest : String) (desired : List Target)
    (reported : RuleCounts) (requestCleanSync : Bool) (clientRulesHash : String) : SyncType :=
  if p.policyDigest ≠ some policyDigest then .cleanAll
  else if transitiveAuthorityRemoved p.targets desired then .cleanAll
  else if requestCleanSync ∨
      (p.confirmedRulesHash ≠ none ∧ p.confirmedRulesHash ≠ some clientRulesHash) ∨
      (targetsEqual desired p.targets ∧ (countTargets desired).matchesReported reported = false) then
    .clean
  else .normal

/-- The arguments of one preflight. -/
structure Preflight where
  policyDigest : String
  desired : List Target
  reported : RuleCounts := {}
  requestCleanSync : Bool := false
  clientRulesHash : String
  deriving DecidableEq, Repr

def Preflight.validate (q : Preflight) : Except Fault Unit := do
  validateRuleCounts q.reported
  validateRulesHash q.clientRulesHash
  validatePolicyDigest q.policyDigest

def PriorState.syncType (p : PriorState) (q : Preflight) : SyncType :=
  p.requiredSyncType q.policyDigest (sortedTargets q.desired) q.reported q.requestCleanSync
    q.clientRulesHash

/-- INSERT ... ON CONFLICT DO UPDATE: the applied columns keep their values. -/
def upsertPreflight (row : Option SyncRow) (q : Preflight) (syncType : SyncType) : SyncRow :=
  { row.getD {} with
    pendingSyncType := some syncType
    pendingPolicyDigest := some q.policyDigest
    preflightRulesHash := some q.clientRulesHash }

def preparePending (s : SyncState) (q : Preflight) : Except Fault (SyncType × SyncState) :=
  match q.validate with
  | .error e => .error e
  | .ok () =>
    let pendingSyncType := (loadPriorState s).syncType q
    match insertTargets (sortedTargets q.desired) with
    | .error e => .error e
    | .ok rows =>
      .ok (pendingSyncType,
        { s with row := some (upsertPreflight s.row q pendingSyncType), desired := rows })

/-- The rules that a state with this pending type hands out. -/
def pendingPayload (pending : SyncType) (s : SyncState) : List PayloadRule :=
  if pending = .normal then normalSyncPayload (loadTargets s.desired) (loadTargets s.applied)
  else cleanSyncPayload (loadTargets s.desired)

/-- A wire cursor, as what it decodes to: the empty string, an `int32` offset, or neither. Its text,
base64 of JSON, is left out: that it is read back as it was written is taken from the two encodings. -/
inductive Cursor where
  | empty
  | offset (value : Int)
  | malformed
  deriving DecidableEq, Repr

structure PayloadRulePage where
  rules : List PayloadRule := []
  cursor : Cursor := .empty
  deriving DecidableEq, Repr

def decodeCursor : Cursor → Except Fault Nat
  | .empty => .ok 0
  | .offset value => if value < 0 then .error (.invalidInput "") else .ok value.toNat
  | .malformed => .error (.invalidInput "")

/-- `offset + limit` wraps in `int32`. -/
def encodeCursor (offset limit : Nat) : Cursor := .offset (((offset + limit : Nat) : Int).bmod (2 ^ 32))

/-- One row more than the limit is cut from the payload, to see whether a next page exists. -/
def pageOf (payload : List PayloadRule) (start limit : Nat) : PayloadRulePage :=
  let rules := (payload.drop start).take (limit + 1)
  if limit < rules.length then { rules := rules.take limit, cursor := encodeCursor start limit }
  else { rules := rules }

def loadPendingPayloadPage (s : SyncState) (cursor : Cursor) (limit : Nat) :
    Except Fault PayloadRulePage :=
  if limit = 0 then .error (.invalidInput "")
  else
    match decodeCursor cursor with
    | .error e => .error e
    | .ok start =>
      match s.row.bind SyncRow.pendingSyncType with
      | none => .ok {}
      | some pending =>
        let payload := pendingPayload pending s
        if payload.length ≤ start then .ok {} else .ok (pageOf payload start limit)

/-- The arguments of one postflight. -/
structure Postflight where
  rulesReceived : UInt32
  rulesProcessed : UInt32
  syncType : SyncType
  rulesHash : String
  deriving DecidableEq, Repr

/-- A CLEAN sync may be answered by the stronger CLEAN_ALL. -/
def validSyncType (pending reported : SyncType) : Bool :=
  if pending = .clean then reported == .clean || reported == .cleanAll else reported == pending

def validatePostflight (row : SyncRow) (pendingPayloadRuleCount : Nat) (r : Postflight) :
    Except Fault Unit :=
  match row.pendingSyncType with
  | none => .error (.invalidInput "no pending Santa sync")
  | some pending =>
    if validSyncType pending r.syncType = false then
      .error (.invalidInput s!"sync_type \"{r.syncType.text}\" does not match pending sync")
    else if r.rulesReceived.toNat ≠ pendingPayloadRuleCount ∨
        r.rulesProcessed.toNat ≠ pendingPayloadRuleCount then
      .error (.invalidInput
        s!"rules_received and rules_processed must equal pending rule count {pendingPayloadRuleCount}")
    else
      match validateRulesHash r.rulesHash with
      | .error e => .error e
      | .ok () =>
        if pendingPayloadRuleCount = 0 ∧ r.rulesHash ≠ row.preflightRulesHash.getD "" then
          .error (.invalidInput "rules_hash changed during an empty sync")
        else .ok ()

/-- The payload that a postflight has to account for. -/
def promotedPayload (s : SyncState) (row : SyncRow) : List PayloadRule :=
  if row.pendingSyncType = some .normal then
    normalSyncPayload (loadTargets s.desired) (loadTargets s.applied)
  else cleanSyncPayload (loadTargets s.desired)

def promotedRow (row : SyncRow) (r : Postflight) : SyncRow where
  appliedPolicyDigest := some (row.pendingPolicyDigest.getD "")
  confirmedRulesHash := some r.rulesHash

def promotePending (s : SyncState) (r : Postflight) : Except Fault SyncState :=
  match s.row with
  | none => .error (.invalidInput "no pending Santa sync")
  | some row =>
    match validatePostflight row (promotedPayload s row).length r with
    | .error e => .error e
    | .ok () => .ok { s with row := some (promotedRow row r), applied := s.desired }

/-- The settings changed, or an authority of the applied targets is gone. -/
def PriorState.callsForCleanAll (p : PriorState) (policyDigest : String) (desired : List Target) :
    Prop :=
  p.policyDigest ≠ some policyDigest ∨ transitiveAuthorityRemoved p.targets desired = true

instance (p : PriorState) (policyDigest : String) (desired : List Target) :
    Decidable (p.callsForCleanAll policyDigest desired) :=
  inferInstanceAs (Decidable (p.policyDigest ≠ some policyDigest ∨
    transitiveAuthorityRemoved p.targets desired = true))

/-- The client asks for it, its hash is not the confirmed one, or its counts drifted. -/
def PriorState.callsForClean (p : PriorState) (q : Preflight) : Prop :=
  q.requestCleanSync ∨
    (p.confirmedRulesHash ≠ none ∧ p.confirmedRulesHash ≠ some q.clientRulesHash) ∨
    (targetsEqual (sortedTargets q.desired) p.targets ∧
      (countTargets (sortedTargets q.desired)).matchesReported q.reported = false)

instance (p : PriorState) (q : Preflight) : Decidable (p.callsForClean q) :=
  inferInstanceAs (Decidable (q.requestCleanSync ∨
    (p.confirmedRulesHash ≠ none ∧ p.confirmedRulesHash ≠ some q.clientRulesHash) ∨
    (targetsEqual (sortedTargets q.desired) p.targets ∧
      (countTargets (sortedTargets q.desired)).matchesReported q.reported = false)))

theorem syncType_eq (p : PriorState) (q : Preflight) : p.syncType q =
    if p.callsForCleanAll q.policyDigest (sortedTargets q.desired) then .cleanAll
    else if p.callsForClean q then .clean else .normal := by
  unfold PriorState.syncType PriorState.requiredSyncType PriorState.callsForCleanAll
    PriorState.callsForClean
  by_cases hd : p.policyDigest = some q.policyDigest
  · by_cases ha : transitiveAuthorityRemoved p.targets (sortedTargets q.desired) = true
    · simp [hd, ha]
    · simp only [hd, ha, ne_eq, not_true_eq_false, false_or, if_false, Bool.false_eq_true]
      congr
  · simp [hd]

theorem syncType_cleanAll {p : PriorState} {q : Preflight} :
    p.syncType q = .cleanAll ↔ p.callsForCleanAll q.policyDigest (sortedTargets q.desired) := by
  rw [syncType_eq]
  split_ifs with ha hc <;> simp [ha]

/-- A NORMAL sync is offered only to a client that reports the confirmed hash. -/
theorem syncType_normal {p : PriorState} {q : Preflight} (h : p.syncType q = .normal) :
    p.policyDigest = some q.policyDigest ∧
      (p.confirmedRulesHash = none ∨ p.confirmedRulesHash = some q.clientRulesHash) := by
  rw [syncType_eq] at h
  split_ifs at h with ha hc
  refine ⟨not_not.mp (not_or.mp ha).1, ?_⟩
  by_cases hn : p.confirmedRulesHash = none
  · exact .inl hn
  · right
    by_contra hne
    exact hc (.inr (.inl ⟨hn, hne⟩))

/-- The target lists that the phase tables can hold. -/
structure Storable (targets : List Target) : Prop where
  nodup : (targets.map Target.identityKey).Nodup
  row : ∀ t ∈ targets, Target.storable t = true
  length : targets.length ≤ 2 ^ 31

theorem storable_perm {ts us : List Target} (hp : ts.Perm us) (h : Storable ts) : Storable us where
  nodup := ((hp.map _).nodup_iff).mp h.nodup
  row := fun t ht => h.row t (hp.mem_iff.mpr ht)
  length := hp.length_eq ▸ h.length

theorem insertRow_ok {rows out : List Target} {t : Target} :
    insertRow rows t = .ok out ↔ rows.length < 2 ^ 31 ∧ Target.storable t = true ∧
      t.identityKey ∉ rows.map Target.identityKey ∧ out = rows ++ [t] := by
  unfold insertRow
  split_ifs with hl hs hk
  · simp; omega
  · simp [hs]
  · simp only [false_iff]
    exact fun h => h.2.2.1 hk
  · simp only [Except.ok.injEq]
    constructor
    · rintro rfl
      exact ⟨by omega, by simpa using hs, hk, rfl⟩
    · rintro ⟨-, -, -, rfl⟩
      rfl

theorem storable_snoc {rows : List Target} {t : Target} :
    Storable (rows ++ [t]) ↔ Storable rows ∧ rows.length < 2 ^ 31 ∧ Target.storable t = true ∧
      t.identityKey ∉ rows.map Target.identityKey := by
  constructor
  · rintro ⟨hn, hr, hl⟩
    simp only [List.map_append, List.map_cons, List.map_nil, List.length_append, List.length_cons,
      List.length_nil] at hn hl
    have hn' := List.nodup_append.mp hn
    exact ⟨⟨hn'.1, fun u hu => hr u (by simp [hu]), by omega⟩, by omega, hr t (by simp),
      fun hk => hn'.2.2 _ hk _ (by simp) rfl⟩
  · rintro ⟨⟨hn, hr, -⟩, hl, hs, hk⟩
    refine ⟨?_, ?_, ?_⟩
    · simp only [List.map_append, List.map_cons, List.map_nil]
      refine List.nodup_append.mpr ⟨hn, List.nodup_singleton _, ?_⟩
      intro k hk' l hl' he
      rw [List.mem_singleton] at hl'
      exact hk (hl' ▸ he ▸ hk')
    · intro u hu
      rcases List.mem_append.mp hu with hu | hu
      · exact hr u hu
      · rw [List.mem_singleton.mp hu]
        exact hs
    · simp only [List.length_append, List.length_cons, List.length_nil]
      omega

theorem insertRows_ok {ts rows out : List Target} (hr : Storable rows) :
    insertRows rows ts = .ok out ↔ out = rows ++ ts ∧ Storable out := by
  induction ts generalizing rows with
  | nil =>
    simp only [insertRows, Except.ok.injEq, List.append_nil]
    exact ⟨fun h => ⟨h.symm, h ▸ hr⟩, fun h => h.1.symm⟩
  | cons t ts ih =>
    have happ : rows ++ t :: ts = (rows ++ [t]) ++ ts := by simp
    simp only [insertRows]
    cases hi : insertRow rows t with
    | error e =>
      simp only [reduceCtorEq, false_iff]
      rintro ⟨rfl, hs⟩
      have hp : Storable (rows ++ [t]) := by
        refine ⟨?_, ?_, ?_⟩
        · exact (happ ▸ hs.nodup).sublist ((List.sublist_append_left _ _).map _)
        · exact fun u hu => hs.row u (happ ▸ List.mem_append_left _ hu)
        · have := hs.length
          simp only [happ, List.length_append, List.length_cons, List.length_nil] at this ⊢
          omega
      obtain ⟨-, hl, hst, hk⟩ := storable_snoc.mp hp
      have hok := insertRow_ok.mpr ⟨hl, hst, hk, rfl⟩
      rw [hi] at hok
      cases hok
    | ok rows' =>
      obtain ⟨hl, hst, hk, rfl⟩ := insertRow_ok.mp hi
      rw [happ]
      exact ih (storable_snoc.mpr ⟨hr, hl, hst, hk⟩)

theorem insertTargets_ok {ts out : List Target} :
    insertTargets ts = .ok out ↔ out = sortedTargets ts ∧ Storable ts := by
  have hnil : Storable [] := ⟨List.nodup_nil, by simp, by simp⟩
  rw [insertTargets, insertRows_ok hnil, List.nil_append]
  constructor
  · rintro ⟨rfl, hs⟩
    exact ⟨rfl, storable_perm (sortedTargets_perm ts) hs⟩
  · rintro ⟨rfl, hs⟩
    exact ⟨rfl, storable_perm (sortedTargets_perm ts).symm hs⟩

/-- The preflights that the store can record, whatever it holds. -/
def Preflight.Accepted (q : Preflight) : Prop := q.validate = .ok () ∧ Storable q.desired

/-- The rows that a recorded preflight writes. -/
def prepared (s : SyncState) (q : Preflight) (syncType : SyncType) : SyncState :=
  { s with row := some (upsertPreflight s.row q syncType)
           desired := sortedTargets (sortedTargets q.desired) }

/-- No sync of the host was confirmed yet. -/
def Unsynced (s : SyncState) : Prop := ∀ row, s.row = some row → row.appliedPolicyDigest = none

theorem unsynced_prepared {s : SyncState} (h : Unsynced s) (q : Preflight) (syncType : SyncType) :
    Unsynced (prepared s q syncType) := by
  intro row hr
  obtain rfl := Option.some.inj hr
  cases hs : s.row with
  | none => rfl
  | some old => exact h old hs

theorem preparePending_ok {s s' : SyncState} {q : Preflight} {syncType : SyncType} :
    preparePending s q = .ok (syncType, s') ↔
      q.Accepted ∧ syncType = (loadPriorState s).syncType q ∧ s' = prepared s q syncType := by
  have hs : ∀ rows, insertTargets (sortedTargets q.desired) = .ok rows ↔
      rows = sortedTargets (sortedTargets q.desired) ∧ Storable q.desired := by
    intro rows
    rw [insertTargets_ok]
    exact and_congr_right fun _ =>
      ⟨storable_perm (sortedTargets_perm _), storable_perm (sortedTargets_perm _).symm⟩
  unfold preparePending
  cases hv : q.validate with
  | error e => simp [Preflight.Accepted, hv]
  | ok =>
    cases hi : insertTargets (sortedTargets q.desired) with
    | error e =>
      have hn : ¬Storable q.desired := fun h => by
        have := (hs _).mpr ⟨rfl, h⟩
        rw [hi] at this
        cases this
      simp [Preflight.Accepted, hn]
    | ok rows =>
      obtain ⟨rfl, hst⟩ := (hs rows).mp hi
      simp only [Except.ok.injEq, Prod.mk.injEq, Preflight.Accepted, hv, hst, and_self, true_and]
      constructor
      · rintro ⟨rfl, rfl⟩; exact ⟨rfl, rfl⟩
      · rintro ⟨rfl, rfl⟩; exact ⟨rfl, rfl⟩

/-- The report that the pending row with this payload size takes. -/
structure Acceptable (row : SyncRow) (count : Nat) (r : Postflight) : Prop where
  syncType : ∃ pending, row.pendingSyncType = some pending ∧ validSyncType pending r.syncType = true
  received : r.rulesReceived.toNat = count
  processed : r.rulesProcessed.toNat = count
  hash : validateRulesHash r.rulesHash = .ok ()
  unchanged : count = 0 → r.rulesHash = row.preflightRulesHash.getD ""

theorem validatePostflight_ok {row : SyncRow} {count : Nat} {r : Postflight} :
    validatePostflight row count r = .ok () ↔ Acceptable row count r := by
  unfold validatePostflight
  constructor
  · intro h
    split at h
    · cases h
    · rename_i pending hp
      split at h
      · cases h
      · rename_i hty
        split at h
        · cases h
        · rename_i hc
          split at h
          · cases h
          · rename_i hh
            split at h
            · cases h
            · rename_i hu
              refine ⟨⟨pending, hp, by simpa using hty⟩, ?_, ?_, hh, ?_⟩
              · omega
              · omega
              · intro h0; by_contra hne; exact hu ⟨h0, hne⟩
  · rintro ⟨⟨pending, hp, hty⟩, hr, hpr, hh, hu⟩
    have hu' : ¬(count = 0 ∧ r.rulesHash ≠ row.preflightRulesHash.getD "") :=
      fun h => h.2 (hu h.1)
    simp only [hp, hty, hr, hpr, hh, if_neg hu', ne_eq, not_true_eq_false, or_self, if_false,
      Bool.true_eq_false]

theorem promotePending_ok {s s' : SyncState} {r : Postflight} :
    promotePending s r = .ok s' ↔ ∃ row, s.row = some row ∧
      Acceptable row (promotedPayload s row).length r ∧
      s' = { s with row := some (promotedRow row r), applied := s.desired } := by
  unfold promotePending
  cases hrow : s.row with
  | none => simp
  | some row =>
    simp only [Option.some.injEq, exists_eq_left']
    rw [← validatePostflight_ok]
    cases hv : validatePostflight row (promotedPayload s row).length r with
    | error e => simp
    | ok => simp [eq_comm]

theorem promotedPayload_eq {s : SyncState} {row : SyncRow} {pending : SyncType}
    (h : row.pendingSyncType = some pending) : promotedPayload s row = pendingPayload pending s := by
  simp [promotedPayload, pendingPayload, h]

end SantaSync
