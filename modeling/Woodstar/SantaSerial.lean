import Woodstar.SantaSessions

/-!
# Concurrent preflight and postflight

The two store transactions of one host, statement by statement. Each statement
reads the committed rows and what its own transaction wrote. The lock is that of
the `santa_sync_state` row, taken by FOR UPDATE or by the upsert and held to
commit; a statement that has to wait is not enabled.
-/
namespace SantaSerial

open Primitives (Fault)
open SantaTargets SantaSync
open SantaSessions (sampleDigest sampleHash sampleCompiler)
open Runs (tryExec)

inductive Party where
  | prepare | promote
  deriving DecidableEq, Repr

/-- The next statement of `PreparePending`, with what it has read and written. -/
inductive PrepareAt where
  | readRow
  | readTargets (policyDigest confirmedRulesHash : Option String)
  | upsert (prior : PriorState)
  | deleteDesired (syncType : SyncType) (row : SyncRow)
  | insertDesired (syncType : SyncType) (row : SyncRow) (rows rest : List Target)
  | finished (result : Except Fault SyncType)
  deriving DecidableEq, Repr

/-- The next statement of `PromotePending`. -/
inductive PromoteAt where
  | lockRow
  | readDesired (row : SyncRow)
  | readApplied (row : SyncRow) (desired : List Target)
  | deleteApplied (row : SyncRow)
  | insertApplied (row : SyncRow)
  | updateRow (row : SyncRow) (applied : List Target)
  | commit (row : SyncRow) (applied : List Target)
  | finished (result : Except Fault Unit)
  deriving DecidableEq, Repr

/-- The committed rows, the holder of the row lock, and the two transactions. -/
structure Db where
  state : SyncState
  lock : Option Party := none
  prepare : PrepareAt
  promote : PromoteAt := .lockRow
  deriving DecidableEq, Repr

/-- Arguments are validated before the transaction begins. -/
def start (s : SyncState) (q : Preflight) : Db where
  state := s
  prepare := match q.validate with
    | .error e => .finished (.error e)
    | .ok () => .readRow

def stepPrepare (q : Preflight) (d : Db) : Option Db :=
  match d.prepare with
  | .readRow => some { d with
      prepare := .readTargets (d.state.row.bind SyncRow.appliedPolicyDigest)
        (d.state.row.bind SyncRow.confirmedRulesHash) }
  | .readTargets policyDigest confirmedRulesHash => some { d with
      prepare := .upsert ⟨policyDigest, loadTargets d.state.applied, confirmedRulesHash⟩ }
  | .upsert prior =>
    if d.lock = some .promote then none
    else some { d with
      lock := some .prepare
      prepare := .deleteDesired (prior.syncType q) (upsertPreflight d.state.row q (prior.syncType q)) }
  | .deleteDesired syncType row => some { d with
      prepare := .insertDesired syncType row [] (sortedTargets (sortedTargets q.desired)) }
  | .insertDesired syncType row rows (target :: rest) =>
    match insertRow rows target with
    | .error e => some { d with lock := none, prepare := .finished (.error e) }
    | .ok rows => some { d with prepare := .insertDesired syncType row rows rest }
  | .insertDesired syncType row rows [] => some { d with
      state := { d.state with row := some row, desired := rows }
      lock := none
      prepare := .finished (.ok syncType) }
  | .finished _ => none

/-- The check that follows the last read; a refusal ends the transaction. -/
def checkPostflight (r : Postflight) (d : Db) (row : SyncRow) (payload : List PayloadRule) : Db :=
  match validatePostflight row payload.length r with
  | .error e => { d with lock := none, promote := .finished (.error e) }
  | .ok () => { d with promote := .deleteApplied row }

/-- FOR UPDATE sees committed rows only, so without one it does not wait. -/
def stepPromote (r : Postflight) (d : Db) : Option Db :=
  match d.promote with
  | .lockRow =>
    match d.state.row with
    | none => some { d with promote := .finished (.error (.invalidInput "no pending Santa sync")) }
    | some row =>
      if d.lock = some .prepare then none
      else some { d with lock := some .promote, promote := .readDesired row }
  | .readDesired row =>
    if row.pendingSyncType = some .normal then
      some { d with promote := .readApplied row (loadTargets d.state.desired) }
    else some (checkPostflight r d row (cleanSyncPayload (loadTargets d.state.desired)))
  | .readApplied row desired =>
    some (checkPostflight r d row (normalSyncPayload desired (loadTargets d.state.applied)))
  | .deleteApplied row => some { d with promote := .insertApplied row }
  | .insertApplied row => some { d with promote := .updateRow row d.state.desired }
  | .updateRow row applied => some { d with promote := .commit (promotedRow row r) applied }
  | .commit row applied => some { d with
      state := { d.state with row := some row, applied := applied }
      lock := none
      promote := .finished (.ok ()) }
  | .finished _ => none

def step (q : Preflight) (r : Postflight) (d : Db) : Party → Option Db
  | .prepare => stepPrepare q d
  | .promote => stepPromote r d

/-- The final rows and both results, once both transactions have ended. -/
def Db.outcome (d : Db) : Option (SyncState × Except Fault SyncType × Except Fault Unit) :=
  match d.prepare, d.promote with
  | .finished prepared, .finished promoted => some (d.state, prepared, promoted)
  | _, _ => none

def afterPrepare (s : SyncState) (q : Preflight) : SyncState × Except Fault SyncType :=
  match preparePending s q with
  | .error e => (s, .error e)
  | .ok (syncType, s') => (s', .ok syncType)

def afterPromote (s : SyncState) (r : Postflight) : SyncState × Except Fault Unit :=
  match promotePending s r with
  | .error e => (s, .error e)
  | .ok s' => (s', .ok ())

def prepareFirst (s : SyncState) (q : Preflight) (r : Postflight) :
    SyncState × Except Fault SyncType × Except Fault Unit :=
  ((afterPromote (afterPrepare s q).1 r).1, (afterPrepare s q).2,
    (afterPromote (afterPrepare s q).1 r).2)

def promoteFirst (s : SyncState) (q : Preflight) (r : Postflight) :
    SyncState × Except Fault SyncType × Except Fault Unit :=
  ((afterPrepare (afterPromote s r).1 q).1, (afterPrepare (afterPromote s r).1 q).2,
    (afterPromote s r).2)

/-- The rows and the answer of a preflight that decided from `p`. -/
def recordWith (s : SyncState) (q : Preflight) (p : PriorState) :
    SyncState × Except Fault SyncType :=
  match insertTargets (sortedTargets q.desired) with
  | .error e => (s, .error e)
  | .ok rows => ({ s with row := some (upsertPreflight s.row q (p.syncType q)), desired := rows },
      .ok (p.syncType q))

/-- Runs the rest of one transaction alone. Its own steps keep the result, and only
the commit of the other one can change it. -/
def PrepareAt.finish (q : Preflight) (s : SyncState) : PrepareAt → SyncState × Except Fault SyncType
  | .readRow => recordWith s q (loadPriorState s)
  | .readTargets policyDigest confirmedRulesHash =>
    recordWith s q ⟨policyDigest, loadTargets s.applied, confirmedRulesHash⟩
  | .upsert prior => recordWith s q prior
  | .deleteDesired syncType row =>
    match insertTargets (sortedTargets q.desired) with
    | .error e => (s, .error e)
    | .ok rows => ({ s with row := some row, desired := rows }, .ok syncType)
  | .insertDesired syncType row rows rest =>
    match insertRows rows rest with
    | .error e => (s, .error e)
    | .ok rows => ({ s with row := some row, desired := rows }, .ok syncType)
  | .finished result => (s, result)

/-- The rest of a postflight whose check has this payload. -/
def finishChecked (r : Postflight) (s : SyncState) (row : SyncRow) (payload : List PayloadRule) :
    SyncState × Except Fault Unit :=
  match validatePostflight row payload.length r with
  | .error e => (s, .error e)
  | .ok () => ({ s with row := some (promotedRow row r), applied := s.desired }, .ok ())

def PromoteAt.finish (r : Postflight) (s : SyncState) : PromoteAt → SyncState × Except Fault Unit
  | .lockRow => afterPromote s r
  | .readDesired row => finishChecked r s row (promotedPayload s row)
  | .readApplied row desired =>
    finishChecked r s row (normalSyncPayload desired (loadTargets s.applied))
  | .deleteApplied row => ({ s with row := some (promotedRow row r), applied := s.desired }, .ok ())
  | .insertApplied row => ({ s with row := some (promotedRow row r), applied := s.desired }, .ok ())
  | .updateRow row applied => ({ s with row := some (promotedRow row r), applied := applied }, .ok ())
  | .commit row applied => ({ s with row := some row, applied := applied }, .ok ())
  | .finished result => (s, result)

/-- The number of statements before the lock that are done. -/
def PrepareAt.reads : PrepareAt → Nat
  | .readRow => 0
  | .readTargets _ _ => 1
  | .upsert _ => 2
  | _ => 3

def PrepareAt.holds : PrepareAt → Prop
  | .deleteDesired _ _ => True
  | .insertDesired _ _ _ _ => True
  | _ => False

def PromoteAt.holds : PromoteAt → Prop
  | .lockRow => False
  | .finished _ => False
  | _ => True

/-- What was read so far was read from these rows. -/
def PrepareAt.ReadFrom (s : SyncState) : PrepareAt → Prop
  | .readTargets policyDigest confirmedRulesHash =>
    policyDigest = s.row.bind SyncRow.appliedPolicyDigest ∧
      confirmedRulesHash = s.row.bind SyncRow.confirmedRulesHash
  | .upsert prior => prior = loadPriorState s
  | _ => True

theorem afterPrepare_valid {s : SyncState} {q : Preflight} (h : q.validate = .ok ()) :
    afterPrepare s q = recordWith s q (loadPriorState s) := by
  simp only [afterPrepare, preparePending, h, recordWith]
  cases insertTargets (sortedTargets q.desired) <;> rfl

theorem afterPrepare_invalid {s : SyncState} {q : Preflight} {e : Fault}
    (h : q.validate = .error e) : afterPrepare s q = (s, .error e) := by
  simp only [afterPrepare, preparePending, h]

theorem finish_start (s : SyncState) (q : Preflight) :
    (start s q).prepare.finish q s = afterPrepare s q := by
  unfold start
  cases h : q.validate with
  | error e => exact (afterPrepare_invalid h).symm
  | ok => exact (afterPrepare_valid h).symm

def PrepareAt.ended : PrepareAt → Prop
  | .finished _ => True
  | _ => False

def PromoteAt.ended : PromoteAt → Prop
  | .finished _ => True
  | _ => False

/-- The lock is held by the transaction that is past its locking statement. -/
structure LockOk (d : Db) : Prop where
  prepare : d.prepare.holds ↔ d.lock = some .prepare
  promote : d.promote.holds ↔ d.lock = some .promote

/-- What one statement of a preflight can do. -/
structure PrepareSpec (q : Preflight) (d d' : Db) : Prop where
  unfinished : ¬d.prepare.ended
  promote : d'.promote = d.promote
  finish : d'.prepare.finish q d'.state = d.prepare.finish q d.state
  reads : d'.prepare.reads = min (d.prepare.reads + 1) 3
  readFrom : d.prepare.ReadFrom d.state → d'.prepare.ReadFrom d.state
  state : ¬d'.prepare.ended ∨ ¬d.prepare.holds → d'.state = d.state
  lock : LockOk d → LockOk d'

theorem stepPrepare_spec {q : Preflight} {d d' : Db} (h : stepPrepare q d = some d') :
    PrepareSpec q d d' := by
  obtain ⟨s, l, pc, m⟩ := d
  cases pc with
  | readRow =>
    obtain rfl := Option.some.inj h
    exact ⟨id, rfl, rfl, rfl, fun _ => ⟨rfl, rfl⟩, fun _ => rfl, fun hl => ⟨hl.1, hl.2⟩⟩
  | readTargets policyDigest confirmedRulesHash =>
    obtain rfl := Option.some.inj h
    refine ⟨id, rfl, rfl, rfl, ?_, fun _ => rfl, fun hl => ⟨hl.1, hl.2⟩⟩
    intro hr
    exact congr_arg₂ (fun digest hash => PriorState.mk digest (loadTargets s.applied) hash) hr.1 hr.2
  | upsert prior =>
    simp only [stepPrepare] at h
    split at h
    · cases h
    · rename_i hl
      obtain rfl := Option.some.inj h
      refine ⟨id, rfl, rfl, rfl, fun _ => trivial, fun _ => rfl, fun hlock => ⟨?_, ?_⟩⟩
      · simp [PrepareAt.holds]
      · simpa [hl] using hlock.promote
  | deleteDesired syncType row =>
    obtain rfl := Option.some.inj h
    exact ⟨id, rfl, rfl, rfl, id, fun _ => rfl, fun hl => ⟨hl.1, hl.2⟩⟩
  | insertDesired syncType row rows rest =>
    have hheld : LockOk ⟨s, l, .insertDesired syncType row rows rest, m⟩ → ¬m.holds := by
      intro hl hm
      have hp := hl.prepare.mp trivial
      rw [hl.promote.mp hm] at hp
      cases hp
    cases rest with
    | nil =>
      obtain rfl := Option.some.inj h
      refine ⟨id, rfl, rfl, rfl, id, ?_, fun hl => ⟨?_, ?_⟩⟩
      · rintro (hn | hn)
        · exact absurd trivial hn
        · exact absurd trivial hn
      · simp [PrepareAt.holds]
      · simpa using hheld hl
    | cons target rest =>
      simp only [stepPrepare] at h
      cases hi : insertRow rows target with
      | error e =>
        rw [hi] at h
        obtain rfl := Option.some.inj h
        refine ⟨id, rfl, ?_, rfl, id, fun _ => rfl, fun hl => ⟨?_, ?_⟩⟩
        · simp only [PrepareAt.finish, insertRows, hi]
        · simp [PrepareAt.holds]
        · simpa using hheld hl
      | ok rows' =>
        rw [hi] at h
        obtain rfl := Option.some.inj h
        refine ⟨id, rfl, ?_, rfl, id, fun _ => rfl, fun hl => ⟨hl.1, hl.2⟩⟩
        simp only [PrepareAt.finish, insertRows, hi]
  | finished result => cases h

/-- What one statement of a postflight can do. -/
structure PromoteSpec (r : Postflight) (d d' : Db) : Prop where
  unfinished : ¬d.promote.ended
  prepare : d'.prepare = d.prepare
  finish : d'.promote.finish r d'.state = d.promote.finish r d.state
  state : ¬d'.promote.ended ∨ ¬d.promote.holds → d'.state = d.state
  lock : LockOk d → LockOk d'

theorem lockOk_promoting {s : SyncState} {l : Option Party} {p : PrepareAt} {m : PromoteAt}
    (hl : LockOk ⟨s, l, p, m⟩) (hm : m.holds) : ¬p.holds ∧ l = some .promote := by
  have hp := hl.promote.mp hm
  refine ⟨fun h => ?_, hp⟩
  have hl' := hl.prepare.mp h
  simp only at hp hl'
  rw [hp] at hl'
  cases hl'

theorem checkPostflight_spec {r : Postflight} {s : SyncState} {l : Option Party} {p : PrepareAt}
    {m : PromoteAt} {row : SyncRow} {payload : List PayloadRule} (hm : m.holds)
    (hf : m.finish r s = finishChecked r s row payload) :
    PromoteSpec r ⟨s, l, p, m⟩ (checkPostflight r ⟨s, l, p, m⟩ row payload) := by
  have hun : ¬m.ended := by cases m <;> first | exact id | exact hm.elim
  unfold checkPostflight
  cases hv : validatePostflight row payload.length r with
  | error e =>
    simp only [finishChecked, hv] at hf
    refine ⟨hun, rfl, hf.symm, fun _ => rfl, fun hl => ⟨?_, ?_⟩⟩
    · simpa using (lockOk_promoting hl hm).1
    · simp [PromoteAt.holds]
  | ok =>
    simp only [finishChecked, hv] at hf
    refine ⟨hun, rfl, hf.symm, fun _ => rfl, fun hl => ⟨hl.1, ?_⟩⟩
    simpa [PromoteAt.holds] using (lockOk_promoting hl hm).2

theorem stepPromote_spec {r : Postflight} {d d' : Db} (h : stepPromote r d = some d') :
    PromoteSpec r d d' := by
  obtain ⟨s, l, p, pc⟩ := d
  cases pc with
  | lockRow =>
    simp only [stepPromote] at h
    split at h
    · rename_i hrow
      obtain rfl := Option.some.inj h
      refine ⟨id, rfl, ?_, fun _ => rfl, fun hl => ⟨hl.1, hl.2⟩⟩
      simp only [PromoteAt.finish, afterPromote, promotePending, hrow]
    · rename_i row hrow
      split at h
      · cases h
      · rename_i hl
        obtain rfl := Option.some.inj h
        refine ⟨id, rfl, ?_, fun _ => rfl, fun hlock => ⟨?_, ?_⟩⟩
        · simp only [PromoteAt.finish, afterPromote, promotePending, hrow, finishChecked]
          cases validatePostflight row (promotedPayload s row).length r <;> rfl
        · simpa [hl] using hlock.prepare
        · simp [PromoteAt.holds]
  | readDesired row =>
    simp only [stepPromote] at h
    split at h
    · rename_i hn
      obtain rfl := Option.some.inj h
      refine ⟨id, rfl, ?_, fun _ => rfl, fun hl => ⟨hl.1, hl.2⟩⟩
      simp only [PromoteAt.finish, promotedPayload, if_pos hn]
    · rename_i hn
      obtain rfl := Option.some.inj h
      refine checkPostflight_spec trivial ?_
      simp only [PromoteAt.finish, promotedPayload, if_neg hn]
  | readApplied row desired =>
    obtain rfl := Option.some.inj h
    exact checkPostflight_spec trivial rfl
  | deleteApplied row =>
    obtain rfl := Option.some.inj h
    exact ⟨id, rfl, rfl, fun _ => rfl, fun hl => ⟨hl.1, hl.2⟩⟩
  | insertApplied row =>
    obtain rfl := Option.some.inj h
    exact ⟨id, rfl, rfl, fun _ => rfl, fun hl => ⟨hl.1, hl.2⟩⟩
  | updateRow row applied =>
    obtain rfl := Option.some.inj h
    exact ⟨id, rfl, rfl, fun _ => rfl, fun hl => ⟨hl.1, hl.2⟩⟩
  | commit row applied =>
    obtain rfl := Option.some.inj h
    refine ⟨id, rfl, rfl, ?_, fun hl => ⟨?_, ?_⟩⟩
    · rintro (hn | hn)
      · exact absurd trivial hn
      · exact absurd trivial hn
    · simpa using (lockOk_promoting hl trivial).1
    · simp [PromoteAt.holds]
  | finished result => cases h

/-- The preflight's statements before the last one of the postflight. -/
def movesBeforePromoted (σ : List Party) : Nat :=
  (σ.reverse.dropWhile (· = .prepare)).count .prepare

theorem movesBeforePromoted_prepare (σ : List Party) :
    movesBeforePromoted (σ ++ [.prepare]) = movesBeforePromoted σ := by
  simp [movesBeforePromoted]

theorem movesBeforePromoted_promote (σ : List Party) :
    movesBeforePromoted (σ ++ [.promote]) = σ.count .prepare := by
  simp [movesBeforePromoted]

/-- What a preflight has read when the postflight commits after `k` of its
statements: each read sees the rows of its own time. -/
def staleRead (k : Nat) (s s' : SyncState) : PriorState where
  policyDigest := (if k = 0 then s' else s).row.bind SyncRow.appliedPolicyDigest
  confirmedRulesHash := (if k = 0 then s' else s).row.bind SyncRow.confirmedRulesHash
  targets := loadTargets (if k ≤ 1 then s' else s).applied

theorem staleRead_same (k : Nat) (s : SyncState) : staleRead k s s = loadPriorState s := by
  simp [staleRead, loadPriorState]

/-- The postflight has not ended. -/
structure Before (s : SyncState) (q : Preflight) (r : Postflight) (σ : List Party) (d : Db) :
    Prop where
  promote : ¬d.promote.ended
  prepared : d.prepare.finish q d.state = afterPrepare s q
  promoted : d.promote.finish r d.state = afterPromote d.state r
  fresh : ¬d.prepare.ended → d.state = s ∧ q.validate = .ok () ∧ d.prepare.ReadFrom s
  moves : q.validate = .ok () → d.prepare.reads = min (σ.count .prepare) 3

/-- The postflight ended before the preflight, which decides from what it read. -/
structure After (s : SyncState) (q : Preflight) (r : Postflight) (σ : List Party) (d : Db) :
    Prop where
  promote : d.promote = .finished (afterPromote s r).2
  prepared : d.prepare.finish q d.state = recordWith (afterPromote s r).1 q
    (staleRead (movesBeforePromoted σ) s (afterPromote s r).1)
  valid : q.validate = .ok ()
  fresh : ¬d.prepare.ended → d.state = (afterPromote s r).1
  moves : movesBeforePromoted σ ≤ 2 ∨ (afterPromote s r).1 = s

/-- The preflight ended before the postflight. -/
structure Last (s : SyncState) (q : Preflight) (r : Postflight) (σ : List Party) (d : Db) :
    Prop where
  prepare : d.prepare.ended
  promote : d.promote.ended
  outcome : d.outcome = some (prepareFirst s q r)
  moves : q.validate = .ok () → 3 ≤ movesBeforePromoted σ

inductive Phase (s : SyncState) (q : Preflight) (r : Postflight) (σ : List Party) (d : Db) : Prop where
  | before : Before s q r σ d → Phase s q r σ d
  | after : After s q r σ d → Phase s q r σ d
  | last : Last s q r σ d → Phase s q r σ d

variable {s : SyncState} {q : Preflight} {r : Postflight} {σ : List Party} {d d' : Db}

theorem before_start (s : SyncState) (q : Preflight) (r : Postflight) :
    Before s q r [] (start s q) where
  promote := id
  prepared := finish_start s q
  promoted := rfl
  fresh := by
    intro hn
    unfold start at hn ⊢
    cases hv : q.validate with
    | error e => simp only [hv] at hn; exact absurd trivial hn
    | ok => exact ⟨rfl, rfl, trivial⟩
  moves := by
    intro hv
    simp [start, hv, PrepareAt.reads]

theorem lockOk_start (s : SyncState) (q : Preflight) : LockOk (start s q) := by
  unfold start
  cases q.validate <;> exact ⟨by simp [PrepareAt.holds], by simp [PromoteAt.holds]⟩

theorem LockOk.not_promoting (hl : LockOk d) (h : d.prepare.holds) : ¬d.promote.holds := by
  intro hm
  have hp := hl.prepare.mp h
  rw [hl.promote.mp hm] at hp
  cases hp

theorem reads_le_two {p : PrepareAt} (hn : ¬p.ended) (hh : ¬p.holds) : p.reads ≤ 2 := by
  cases p with
  | readRow => decide
  | readTargets policyDigest confirmedRulesHash => exact Nat.le_succ 1
  | upsert prior => exact Nat.le_refl 2
  | deleteDesired syncType row => exact absurd trivial hh
  | insertDesired syncType row rows rest => exact absurd trivial hh
  | finished result => exact absurd trivial hn

theorem before_prepare (hl : LockOk d) (h : Before s q r σ d) (hs : PrepareSpec q d d') :
    Before s q r (σ ++ [.prepare]) d' where
  promote := hs.promote ▸ h.promote
  prepared := hs.finish.trans h.prepared
  promoted := by
    by_cases hstate : ¬d'.prepare.ended ∨ ¬d.prepare.holds
    · rw [hs.promote, hs.state hstate]
      exact h.promoted
    · -- the preflight commits, so the postflight is still at its lock
      have hheld := not_not.mp (not_or.mp hstate).2
      have hm := hl.not_promoting hheld
      have hat : d.promote = .lockRow := by
        have hn := h.promote
        cases hc : d.promote <;> simp_all [PromoteAt.holds, PromoteAt.ended]
      rw [hs.promote, hat]
      rfl
  fresh := by
    intro hn
    obtain ⟨hst, hv, hr⟩ := h.fresh hs.unfinished
    refine ⟨(hs.state (.inl hn)).trans hst, hv, ?_⟩
    have := hs.readFrom
    rw [hst] at this
    exact this hr
  moves := by
    intro hv
    have := h.moves hv
    rw [hs.reads, this]
    simp only [List.count_append, List.count_singleton_self]
    omega

theorem after_prepare (h : After s q r σ d) (hs : PrepareSpec q d d') :
    After s q r (σ ++ [.prepare]) d' where
  promote := hs.promote.trans h.promote
  prepared := by rw [movesBeforePromoted_prepare, hs.finish, h.prepared]
  valid := h.valid
  fresh := fun hn => (hs.state (.inl hn)).trans (h.fresh hs.unfinished)
  moves := by rw [movesBeforePromoted_prepare]; exact h.moves

theorem before_promote (h : Before s q r σ d) (hs : PromoteSpec r d d')
    (hn : ¬d'.promote.ended) : Before s q r (σ ++ [.promote]) d' where
  promote := hn
  prepared := by rw [hs.prepare, hs.state (.inl hn)]; exact h.prepared
  promoted := by rw [hs.finish, hs.state (.inl hn)]; exact h.promoted
  fresh := by rw [hs.prepare, hs.state (.inl hn)]; exact h.fresh
  moves := by
    intro hv
    rw [hs.prepare, h.moves hv]
    simp

theorem before_last {result : Except Fault Unit} {prepared : Except Fault SyncType}
    (h : Before s q r σ d) (hs : PromoteSpec r d d') (hm : d'.promote = .finished result)
    (hp : d.prepare = .finished prepared) : Last s q r (σ ++ [.promote]) d' := by
  have hf := hs.finish
  rw [hm, h.promoted] at hf
  have hpre := h.prepared
  rw [hp] at hpre
  have hp' : d'.prepare = .finished prepared := hs.prepare.trans hp
  refine ⟨by rw [hp']; trivial, by rw [hm]; trivial, ?_, ?_⟩
  · simp only [Db.outcome, hp', hm, prepareFirst, ← hpre]
    simp only [PrepareAt.finish, ← hf]
    rfl
  · intro hv
    have hmoves := h.moves hv
    rw [hp] at hmoves
    simp only [PrepareAt.reads] at hmoves
    rw [movesBeforePromoted_promote]
    omega

theorem before_after {result : Except Fault Unit} (hl : LockOk d) (h : Before s q r σ d)
    (hs : PromoteSpec r d d') (hm : d'.promote = .finished result) (hn : ¬d.prepare.ended) :
    After s q r (σ ++ [.promote]) d' := by
  obtain ⟨hst, hv, hread⟩ := h.fresh hn
  have hf : (d'.state, result) = afterPromote s r := by
    have := hs.finish
    rw [hm, h.promoted, hst] at this
    exact this
  have hstate : d'.state = (afterPromote s r).1 := congr_arg Prod.fst hf
  have hmoves := h.moves hv
  have hpre := h.prepared
  rw [hst, afterPrepare_valid hv] at hpre
  refine ⟨by rw [hm, ← hf], ?_, hv, fun _ => hstate, ?_⟩
  · rw [movesBeforePromoted_promote, hs.prepare, hstate]
    by_cases hheld : d.prepare.holds
    · -- only a postflight without a row ends while the preflight holds the lock
      have hno := hl.not_promoting hheld
      have hsame : (afterPromote s r).1 = s := by rw [← hstate, hs.state (.inr hno), hst]
      rw [hsame, staleRead_same, hpre]
    · cases hat : d.prepare with
      | readRow =>
        rw [hat] at hmoves
        have hc : σ.count .prepare = 0 := by simp only [PrepareAt.reads] at hmoves; omega
        rw [hc]
        rfl
      | readTargets policyDigest confirmedRulesHash =>
        rw [hat] at hmoves hread
        have hc : σ.count .prepare = 1 := by simp only [PrepareAt.reads] at hmoves; omega
        rw [hc, PrepareAt.finish, hread.1, hread.2]
        rfl
      | upsert prior =>
        rw [hat] at hmoves hread
        have hc : σ.count .prepare = 2 := by simp only [PrepareAt.reads] at hmoves; omega
        rw [hc, PrepareAt.finish, show prior = loadPriorState s from hread]
        rfl
      | deleteDesired syncType row => rw [hat] at hheld; exact absurd trivial hheld
      | insertDesired syncType row rows rest => rw [hat] at hheld; exact absurd trivial hheld
      | finished prepared => rw [hat] at hn; exact absurd trivial hn
  · rw [movesBeforePromoted_promote]
    by_cases hheld : d.prepare.holds
    · right
      have hno := hl.not_promoting hheld
      rw [← hstate, hs.state (.inr hno), hst]
    · left
      have hlt := reads_le_two hn hheld
      omega

theorem phase_step {p : Party} (hl : LockOk d) (h : Phase s q r σ d) (hs : step q r d p = some d') :
    LockOk d' ∧ Phase s q r (σ ++ [p]) d' := by
  cases p with
  | prepare =>
    have spec := stepPrepare_spec hs
    refine ⟨spec.lock hl, ?_⟩
    cases h with
    | before h => exact .before (before_prepare hl h spec)
    | after h => exact .after (after_prepare h spec)
    | last h => exact absurd h.prepare spec.unfinished
  | promote =>
    have spec := stepPromote_spec hs
    refine ⟨spec.lock hl, ?_⟩
    cases h with
    | before h =>
      cases hm : d'.promote with
      | finished result =>
        cases hp : d.prepare with
        | finished prepared => exact .last (before_last h spec hm hp)
        | _ => exact .after (before_after hl h spec hm (by rw [hp]; exact id))
      | _ => exact .before (before_promote h spec (by rw [hm]; exact id))
    | after h => exact absurd (h.promote ▸ trivial) spec.unfinished
    | last h => exact absurd h.promote spec.unfinished

theorem phase_run (h : tryExec (step q r) (start s q) σ = some d) : Phase s q r σ d :=
  (Runs.tryExec_invariant (P := fun σ d => LockOk d ∧ Phase s q r σ d)
    (fun _ _ _ _ hp hs => phase_step hp.1 hp.2 hs)
    ⟨lockOk_start s q, .before (before_start s q r)⟩ h).2

/-- The check that the postflight passes on these rows. -/
def Reportable (s : SyncState) (r : Postflight) : Prop :=
  ∃ row, s.row = some row ∧ Acceptable row (promotedPayload s row).length r

/-- `requiredSyncType` takes the same branch on both. -/
def SameBranch (q : Preflight) (p p' : PriorState) : Prop :=
  (p.callsForCleanAll q.policyDigest (sortedTargets q.desired) ↔
      p'.callsForCleanAll q.policyDigest (sortedTargets q.desired)) ∧
    (p.callsForCleanAll q.policyDigest (sortedTargets q.desired) ∨
      (p.callsForClean q ↔ p'.callsForClean q))

theorem sameBranch_iff {p p' : PriorState} : SameBranch q p p' ↔ p.syncType q = p'.syncType q := by
  rw [syncType_eq, syncType_eq]
  unfold SameBranch
  split_ifs with h h' h' h' <;> simp_all

/-- The postflight does not commit between the preflight's first read and its
upsert, one of the two is refused anyway, or the stale read makes no difference. -/
def Harmless (s : SyncState) (q : Preflight) (r : Postflight) (σ : List Party) : Prop :=
  movesBeforePromoted σ = 0 ∨ 3 ≤ movesBeforePromoted σ ∨ ¬Reportable s r ∨ ¬q.Accepted ∨
    SameBranch q (staleRead (movesBeforePromoted σ) s (afterPromote s r).1)
      (loadPriorState (afterPromote s r).1)

theorem afterPromote_refused (h : ¬Reportable s r) : (afterPromote s r).1 = s := by
  unfold afterPromote
  cases hp : promotePending s r with
  | error e => rfl
  | ok s' =>
    obtain ⟨row, hrow, hacc, -⟩ := promotePending_ok.mp hp
    exact absurd ⟨row, hrow, hacc⟩ h

theorem afterPromote_accepted (h : Reportable s r) : (afterPromote s r).2 = .ok () := by
  obtain ⟨row, hrow, hacc⟩ := h
  simp only [afterPromote, promotePending_ok.mpr ⟨row, hrow, hacc, rfl⟩]

theorem afterPromote_idle (h : (afterPromote s r).2 = .ok ()) :
    (afterPromote s r).1.row.bind SyncRow.pendingSyncType = none := by
  unfold afterPromote at h ⊢
  cases hp : promotePending s r with
  | error e => simp [hp] at h
  | ok s' =>
    obtain ⟨row, -, -, rfl⟩ := promotePending_ok.mp hp
    rfl

theorem recordWith_accepted (h : q.Accepted) (p : PriorState) :
    recordWith s q p = (prepared s q (p.syncType q), .ok (p.syncType q)) := by
  have hs : Storable (sortedTargets q.desired) := storable_perm (sortedTargets_perm _).symm h.2
  simp only [recordWith, insertTargets_ok.mpr ⟨rfl, hs⟩]
  rfl

/-- A refused preflight answers the same, whatever it read. -/
theorem recordWith_refused (hv : q.validate = .ok ()) (h : ¬q.Accepted) (p p' : PriorState) :
    recordWith s q p = recordWith s q p' := by
  cases hi : insertTargets (sortedTargets q.desired) with
  | error e => simp only [recordWith, hi]
  | ok rows =>
    have hs := (insertTargets_ok.mp hi).2
    exact absurd ⟨hv, storable_perm (sortedTargets_perm _) hs⟩ h

theorem outcome_after {out} (h : After s q r σ d) (ho : d.outcome = some out) :
    out = ((recordWith (afterPromote s r).1 q
        (staleRead (movesBeforePromoted σ) s (afterPromote s r).1)).1,
      (recordWith (afterPromote s r).1 q
        (staleRead (movesBeforePromoted σ) s (afterPromote s r).1)).2, (afterPromote s r).2) := by
  cases hp : d.prepare with
  | finished result =>
    have hpre := h.prepared
    rw [hp] at hpre
    rw [← hpre]
    simp only [Db.outcome, hp, h.promote, Option.some.injEq] at ho
    exact ho.symm
  | _ => simp [Db.outcome, hp] at ho

/-- A preflight that ends last is serial only behind the postflight. -/
theorem after_serial {out} (h : After s q r σ d) (ho : d.outcome = some out)
    (hr : Reportable s r) (hacc : q.Accepted)
    (hs : out = prepareFirst s q r ∨ out = promoteFirst s q r) :
    SameBranch q (staleRead (movesBeforePromoted σ) s (afterPromote s r).1)
      (loadPriorState (afterPromote s r).1) := by
  rw [outcome_after h ho, recordWith_accepted hacc] at hs
  rcases hs with hs | hs
  · exfalso
    simp only [prepareFirst, Prod.mk.injEq, afterPromote_accepted hr] at hs
    have hidle := afterPromote_idle hs.2.2.symm
    rw [← hs.1] at hidle
    cases hidle
  · simp only [promoteFirst, afterPrepare_valid h.valid, recordWith_accepted hacc,
      Prod.mk.injEq, Except.ok.injEq] at hs
    exact sameBranch_iff.mpr hs.2.1

theorem after_harmless {out} (h : After s q r σ d) (ho : d.outcome = some out)
    (hh : Harmless s q r σ) : out = promoteFirst s q r := by
  have hsame : recordWith (afterPromote s r).1 q (staleRead (movesBeforePromoted σ) s
      (afterPromote s r).1) = recordWith (afterPromote s r).1 q
      (loadPriorState (afterPromote s r).1) := by
    rcases hh with hk | hk | hr | hacc | hbranch
    · rw [hk]; rfl
    · rw [h.moves.resolve_left (by omega), staleRead_same]
    · rw [afterPromote_refused hr, staleRead_same]
    · exact recordWith_refused h.valid hacc _ _
    · simp only [recordWith, sameBranch_iff.mp hbranch]
  rw [outcome_after h ho, hsame]
  simp only [promoteFirst, afterPrepare_valid h.valid]

/-- An interleaving ends like a serial order exactly when it is harmless. -/
theorem serializable_iff_harmless (s : SyncState) (q : Preflight) (r : Postflight)
    (σ : List Party) (out : SyncState × Except Fault SyncType × Except Fault Unit)
    (h : (tryExec (step q r) (start s q) σ).bind Db.outcome = some out) :
    (out = prepareFirst s q r ∨ out = promoteFirst s q r) ↔ Harmless s q r σ := by
  obtain ⟨d, hrun, ho⟩ := Option.bind_eq_some_iff.mp h
  cases phase_run hrun with
  | before hb =>
    have hn := hb.promote
    cases hm : d.promote with
    | finished result => rw [hm] at hn; exact absurd trivial hn
    | _ => simp [Db.outcome, hm] at ho
  | last hl =>
    rw [hl.outcome, Option.some.injEq] at ho
    refine iff_of_true (.inl ho.symm) ?_
    by_cases hv : q.validate = .ok ()
    · exact .inr (.inl (hl.moves hv))
    · exact .inr (.inr (.inr (.inl fun hacc => hv hacc.1)))
  | after ha =>
    refine ⟨fun hserial => ?_, fun hh => .inr (after_harmless ha ho hh)⟩
    by_cases hr : Reportable s r
    · by_cases hacc : q.Accepted
      · exact .inr (.inr (.inr (.inr (after_serial ha ho hr hacc hserial))))
      · exact .inr (.inr (.inr (.inl hacc)))
    · exact .inr (.inr (.inl hr))

/-- A NORMAL payload with one compiler rule is pending. -/
def sampleState : SyncState where
  row := some {
    pendingSyncType := some .normal
    pendingPolicyDigest := some sampleDigest
    preflightRulesHash := some (sampleHash ∅)
    appliedPolicyDigest := some sampleDigest
    confirmedRulesHash := some (sampleHash ∅) }
  desired := [sampleCompiler]

def samplePreflight : Preflight where
  policyDigest := sampleDigest
  desired := []
  clientRulesHash := sampleHash {sampleCompiler}

def samplePostflight : Postflight := ⟨1, 1, .normal, sampleHash {sampleCompiler}⟩

def promoteMoves : List Party := List.replicate 7 .promote

/-- A preflight of another policy, which is a CLEAN_ALL whatever it reads. -/
def changedPreflight : Preflight := { samplePreflight with policyDigest := String.ofList (List.replicate 64 'b') }

/-- The preflight has read the rows when the promotion commits. -/
def crossing : List Party :=
  [.prepare, .promote, .promote, .prepare] ++ List.replicate 5 .promote ++ List.replicate 3 .prepare

theorem serializable_iff_harmless_sample :
    (promoteFirst sampleState changedPreflight samplePostflight =
        prepareFirst sampleState changedPreflight samplePostflight ∨
      promoteFirst sampleState changedPreflight samplePostflight =
        promoteFirst sampleState changedPreflight samplePostflight) ↔
    Harmless sampleState changedPreflight samplePostflight crossing :=
  serializable_iff_harmless _ _ _ _ _ (by decide)

/-- The rows that two reads before the promotion lead to: a CLEAN sync is
pending although the applied compiler rule is not desired any more. -/
def staleOutcome : SyncState × Except Fault SyncType × Except Fault Unit :=
  ({ row := some {
        pendingSyncType := some .clean
        pendingPolicyDigest := some sampleDigest
        preflightRulesHash := some (sampleHash {sampleCompiler})
        appliedPolicyDigest := some sampleDigest
        confirmedRulesHash := some (sampleHash {sampleCompiler}) }
     applied := [sampleCompiler] }, .ok .clean, .ok ())

theorem stale_preflight_not_serializable :
    (tryExec (step samplePreflight samplePostflight) (start sampleState samplePreflight)
        (List.replicate 2 .prepare ++ promoteMoves ++ List.replicate 3 .prepare)).bind Db.outcome =
      some staleOutcome ∧
    staleOutcome ≠ prepareFirst sampleState samplePreflight samplePostflight ∧
    staleOutcome ≠ promoteFirst sampleState samplePreflight samplePostflight := by
  refine ⟨by decide, by decide, by decide⟩

end SantaSerial
