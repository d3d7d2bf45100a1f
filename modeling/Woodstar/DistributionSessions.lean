import Woodstar.DistributionStore
import Woodstar.Runs

/-!
# Worker sessions of a distribution point

The store's transactions on one point, statement by statement under row locks. A
statement sees the committed rows; one that meets a row locked by another transaction
waits and looks at the row again. What a transaction writes shows at its commit.
-/
namespace DistributionSessions

open DistributionStore KeyedRows
open Runs (exec)

inductive Op where
  | claim (key connectionID : String) (worker : DistributionPointWorker)
  | renew (connectionID : String)
  | release (connectionID : String)
  | observe (key : String) (worker : DistributionPointWorker)
  | record (connectionID : String) (packageID : Int) (status : PackageStatus) (sha256 errMessage : String)
  | rotateKey (key : String)
  | update (m : DistributionPointMutation)
  | delete
  deriving DecidableEq, Repr

/-- What is checked before a transaction begins. -/
def Op.valid : Op → Bool
  | .claim _ connectionID worker => claimable connectionID worker
  | .observe _ worker => !worker.compatible
  | _ => true

/-- The key of the credential that is locked. -/
def Op.key : Op → Option String
  | .claim key _ _ => some key
  | .observe key _ => some key
  | _ => none

/-- The operation removes the session and the rejection. -/
def Op.clears : Op → Bool
  | .rotateKey _ => true
  | .update m => !m.enabled
  | _ => false

/-- `done` counts the statements run, `caught` says that a rejection row was deleted. -/
structure Tx where
  op : Op
  startedAt : Int
  done : Nat := 0
  caught : Bool := false
  deriving DecidableEq, Repr

/-- `FOR SHARE` on the point. -/
def Tx.shares (t : Tx) : Bool :=
  match t.op with
  | .claim .. | .observe .. | .record .. => decide (1 ≤ t.done)
  | _ => false

def Tx.writesPoint (t : Tx) : Bool :=
  match t.op with
  | .rotateKey _ | .update _ => decide (1 ≤ t.done)
  | _ => false

def Tx.ownsSession (t : Tx) : Bool :=
  match t.op with
  | .claim .. | .record .. => decide (2 ≤ t.done)
  | op => op.clears && decide (2 ≤ t.done)

def Tx.ownsRejection (t : Tx) : Bool :=
  match t.op with
  | .observe .. => decide (2 ≤ t.done)
  | .claim .. => decide (3 ≤ t.done) && t.caught
  | op => op.clears && decide (3 ≤ t.done) && t.caught

inductive Entry where
  | claimed (connectionID key : String) (startedAt : Int)
  | renewed (connectionID : String) (startedAt : Int)
  | released (connectionID : String)
  | observed (key : String)
  | recorded (connectionID : String) (packageID : Int) (startedAt : Int)
  | rotated (key : String)
  | updated (enabled : Bool)
  | deleted
  deriving DecidableEq, Repr

/-- `log` has what was committed, the newest first. -/
structure World where
  db : Db := {}
  now : Int := 0
  txs : Table Tx := .empty
  log : List Entry := []

inductive Event where
  | begin (op : Op)
  | advance (i : Int)
  | abort (i : Int)
  | tick (d : Nat)
  deriving DecidableEq, Repr

def World.blocked (w : World) (i : Int) (conflicts : Tx → Bool) : Bool :=
  w.txs.ids.any (fun j => j != i && (w.txs.row j).any conflicts)

def World.next (w : World) (i : Int) (t : Tx) : World :=
  { w with txs := w.txs.modify i (fun _ => { t with done := t.done + 1 }) }

/-- The transaction ends without a write. -/
def World.finish (w : World) (i : Int) : World := { w with txs := w.txs.erase i }

def World.commit (w : World) (i : Int) (db : Db) (entry : Entry) : World :=
  { w with db := db, txs := w.txs.erase i, log := entry :: w.log }

/-- A statement that needs a row: it finds none, waits for it, or locks it. -/
def World.lock (w : World) (i : Int) (t : Tx) (found : Bool) (conflicts : Tx → Bool) : World :=
  if found = false then w.finish i
  else if w.blocked i conflicts = true then w
  else w.next i t

/-- `DELETE` of the session. -/
def World.clearSession (pointID : Int) (w : World) (i : Int) (t : Tx) : World :=
  if (w.db.sessions pointID).isSome = true ∧ w.blocked i Tx.ownsSession = true then w
  else w.next i t

/-- `DELETE` of the rejection. -/
def World.clearRejection (pointID : Int) (w : World) (i : Int) (t : Tx) : World :=
  if (w.db.rejections pointID).isSome = true ∧ w.blocked i Tx.ownsRejection = true then w
  else w.next i { t with caught := (w.db.rejections pointID).isSome }

def dropRejection (db : Db) (pointID : Int) (caught : Bool) : Db :=
  if caught = true then db.setRejection pointID none else db

/-- The statements of RotateKey, and of Update once it has disabled the point. -/
def World.clearing (pointID : Int) (w : World) (i : Int) (t : Tx) (f : PointRow → PointRow)
    (entry : Entry) : World :=
  match t.done with
  | 1 => w.clearSession pointID i t
  | 2 => w.clearRejection pointID i t
  | _ =>
    let written := (w.db.modifyPoint pointID f).setSession pointID none
    w.commit i (dropRejection written pointID t.caught) entry

def World.lockPoint (pointID : Int) (w : World) (i : Int) (t : Tx) : World :=
  w.lock i t (w.db.points.row pointID).isSome (fun t => t.shares || t.writesPoint)

/-- The next statement of a transaction, or its commit. -/
def World.advance (pointID : Int) (w : World) (i : Int) (t : Tx) : World :=
  let point := w.db.points.row pointID
  let session := w.db.sessions pointID
  match t.op with
  | .claim key connectionID worker =>
    match t.done with
    | 0 => w.lock i t (point.any (fun point => point.accepts key)) Tx.writesPoint
    | 1 => w.lock i t true Tx.ownsSession
    | 2 => w.clearRejection pointID i t
    | _ =>
      let claimed := w.db.setSession pointID (some (newSession connectionID worker t.startedAt))
      w.commit i (dropRejection claimed pointID t.caught) (.claimed connectionID key t.startedAt)
  | .observe key worker =>
    match t.done with
    | 0 => w.lock i t (point.any (fun point => point.accepts key)) Tx.writesPoint
    | 1 => w.lock i t true Tx.ownsRejection
    | _ => w.commit i (w.db.setRejection pointID (some (newRejection worker t.startedAt))) (.observed key)
  | .renew connectionID =>
    match t.done with
    | 0 =>
      -- the snapshot of the UPDATE, the only look at the point
      if session.any (fun session => session.current connectionID t.startedAt) = true ∧
          point.any PointRow.enabled = true then w.next i t
      else w.finish i
    | _ =>
      match session with
      | none => w.finish i
      | some row =>
        if w.blocked i Tx.ownsSession = true then w
        else if row.current connectionID t.startedAt = true then
          w.commit i (w.db.setSession pointID (some (row.renew t.startedAt)))
            (.renewed connectionID t.startedAt)
        else w.finish i
  | .release connectionID =>
    if session.any (fun session => session.connectionID == connectionID) = false then w.finish i
    else if w.blocked i Tx.ownsSession = true then w
    else w.commit i (w.db.setSession pointID none) (.released connectionID)
  | .record connectionID packageID status sha256 errMessage =>
    match t.done with
    | 0 =>
      if point.isSome = false then w.finish i
      else if w.blocked i Tx.writesPoint = true then w
      else if point.any PointRow.enabled = true then w.next i t
      else w.finish i
    | 1 => w.lock i t (session.any (fun session => session.current connectionID t.startedAt)) Tx.ownsSession
    | 2 => if (w.db.packages.row packageID).isSome = true then w.next i t else w.finish i
    | _ =>
      w.commit i (w.db.setState pointID packageID ⟨status, reportedSHA256 sha256, errMessage⟩)
        (.recorded connectionID packageID t.startedAt)
  | .rotateKey key =>
    match t.done with
    | 0 => w.lockPoint pointID i t
    | _ => w.clearing pointID i t (PointRow.rotate key) (.rotated key)
  | .update m =>
    match t.done with
    | 0 => w.lockPoint pointID i t
    | _ =>
      if m.enabled = true then
        w.commit i (w.db.modifyPoint pointID (PointRow.write m)) (.updated true)
      else w.clearing pointID i t (PointRow.write m) (.updated false)
  | .delete =>
    if point.isSome = false then w.finish i
    else if w.blocked i (fun t => t.shares || t.writesPoint) = true then w
    else if session.isSome = true ∧ w.blocked i Tx.ownsSession = true then w
    else if (w.db.rejections pointID).isSome = true ∧ w.blocked i Tx.ownsRejection = true then w
    else w.commit i (w.db.deletePoint pointID) .deleted

def step (pointID : Int) (w : World) : Event → World
  | .begin op => if op.valid = true then { w with txs := w.txs.insert ⟨op, w.now, 0, false⟩ } else w
  | .advance i =>
    match w.txs.row i with
    | none => w
    | some t => w.advance pointID i t
  | .abort i => w.finish i
  | .tick d => { w with now := w.now + d }

structure Holder where
  connectionID : String
  key : String
  expiresAt : Int
  deriving DecidableEq, Repr

/-- Whose session it is after a history. -/
def holder : List Entry → Option Holder
  | [] => none
  | .claimed connectionID key startedAt :: _ => some ⟨connectionID, key, startedAt + workerSessionTTL⟩
  | .renewed _ startedAt :: past =>
    (holder past).map (fun h => { h with expiresAt := startedAt + workerSessionTTL })
  | .released _ :: _ | .rotated _ :: _ | .updated false :: _ | .deleted :: _ => none
  | .observed _ :: past | .recorded _ _ _ :: past | .updated true :: past => holder past

/-- After this entry an earlier session is no longer the current one. -/
def Entry.ends : Entry → Bool
  | .claimed .. | .released _ | .rotated _ | .deleted => true
  | .updated enabled => !enabled
  | .renewed .. | .observed _ | .recorded .. => false

/-- The entries that go with a change of the package states. -/
def Entry.reports : Entry → Bool
  | .recorded .. | .deleted => true
  | _ => false

/-- Whether the point is enabled, and its key. -/
structure Standing where
  enabled : Bool
  key : String
  deriving DecidableEq, Repr

def standingOf (point : PointRow) : Standing := ⟨point.enabled, point.key⟩

def standing (first : Standing) : List Entry → Option Standing
  | [] => some first
  | .rotated key :: past => (standing first past).map (fun s => { s with key := key })
  | .updated enabled :: past => (standing first past).map (fun s => { s with enabled := enabled })
  | .deleted :: _ => none
  | .claimed .. :: past | .renewed .. :: past | .released _ :: past | .observed _ :: past
  | .recorded .. :: past => standing first past

/-- The history in which a connection may act: the session is its own, the point enabled
under the key it claimed with, and what it acts on began before the expiry. -/
def Authorized (first : Standing) (past : List Entry) (connectionID : String) (startedAt : Int) : Prop :=
  ∃ h, holder past = some h ∧ h.connectionID = connectionID ∧
    standing first past = some ⟨true, h.key⟩ ∧ startedAt < h.expiresAt

/-- What may be committed after a history. -/
def Allowed (first : Standing) (past : List Entry) : Entry → Prop
  | .claimed _ key _ | .observed key => standing first past = some ⟨true, key⟩
  | .renewed connectionID startedAt | .recorded connectionID _ startedAt =>
    Authorized first past connectionID startedAt
  | .released connectionID => ∃ h, holder past = some h ∧ h.connectionID = connectionID
  | .rotated _ | .updated _ | .deleted => True

def World.Free (w : World) (i : Int) (conflicts : Tx → Bool) : Prop :=
  ∀ j t, j ≠ i → w.txs.row j = some t → conflicts t = false

/-- The point is enabled, under the key that the operation names. -/
def Credential (pointID : Int) (db : Db) (op : Op) : Prop :=
  ∃ point, db.points.row pointID = some point ∧ point.enabled = true ∧
    ∀ key, op.key = some key → point.key = key

/-- The connection whose session row a report has locked. -/
def Tx.reporter (t : Tx) : Option String :=
  match t.op with
  | .record connectionID .. => if 2 ≤ t.done then some connectionID else none
  | _ => none

def Current (pointID : Int) (db : Db) (connectionID : String) (startedAt : Int) : Prop :=
  ∃ session, db.sessions pointID = some session ∧ session.current connectionID startedAt = true

instance (pointID : Int) (db : Db) (connectionID : String) (startedAt : Int) :
    Decidable (Current pointID db connectionID startedAt) :=
  decidable_of_iff ((db.sessions pointID).any (fun s => s.current connectionID startedAt) = true)
    (Option.any_eq_true _ _)

/-- The locks a transaction has after a statement were its own, or nobody's. -/
structure Locks (pointID : Int) (w : World) (i : Int) (t t' : Tx) : Prop where
  op : t'.op = t.op
  startedAt : t'.startedAt = t.startedAt
  writes : t'.writesPoint = true →
    t.writesPoint = true ∨ w.Free i (fun t => t.shares || t.writesPoint)
  shares : t'.shares = true →
    t.shares = true ∨ w.Free i Tx.writesPoint ∧ Credential pointID w.db t.op
  owns : t'.ownsSession = true →
    t.ownsSession = true ∨ t.writesPoint = true ∨ w.Free i Tx.ownsSession
  reports : ∀ c ∈ t'.reporter, c ∈ t.reporter ∨ Current pointID w.db c t.startedAt

inductive Commit (pointID : Int) (w : World) (i : Int) (t : Tx) (db : Db) : Entry → Prop
  | claimed (key connectionID : String) (worker : DistributionPointWorker)
      (hop : t.op = .claim key connectionID worker) (hshares : t.shares = true)
      (howns : t.ownsSession = true) (hpoints : db.points = w.db.points)
      (hsession : db.sessions pointID = some (newSession connectionID worker t.startedAt)) :
      Commit pointID w i t db (.claimed connectionID key t.startedAt)
  | observed (key : String) (worker : DistributionPointWorker) (hop : t.op = .observe key worker)
      (hshares : t.shares = true) (hpoints : db.points = w.db.points)
      (hsession : db.sessions pointID = w.db.sessions pointID) : Commit pointID w i t db (.observed key)
  | renewed (connectionID : String) (session : WorkerSession)
      (hrow : w.db.sessions pointID = some session)
      (hcurrent : session.current connectionID t.startedAt = true) (hfree : w.Free i Tx.ownsSession)
      (hpoints : db.points = w.db.points)
      (hsession : db.sessions pointID = some (session.renew t.startedAt)) :
      Commit pointID w i t db (.renewed connectionID t.startedAt)
  | released (connectionID : String) (session : WorkerSession)
      (hrow : w.db.sessions pointID = some session) (hconnection : session.connectionID = connectionID)
      (hfree : w.Free i Tx.ownsSession) (hpoints : db.points = w.db.points)
      (hsession : db.sessions pointID = none) : Commit pointID w i t db (.released connectionID)
  | recorded (connectionID : String) (packageID : Int) (hreports : t.reporter = some connectionID)
      (hpoints : db.points = w.db.points) (hsession : db.sessions pointID = w.db.sessions pointID) :
      Commit pointID w i t db (.recorded connectionID packageID t.startedAt)
  | rotated (key : String) (hwrites : t.writesPoint = true)
      (hpoint : db.points.row pointID = (w.db.points.row pointID).map (PointRow.rotate key))
      (hsession : db.sessions pointID = none) : Commit pointID w i t db (.rotated key)
  | updated (m : DistributionPointMutation) (hwrites : t.writesPoint = true)
      (hpoint : db.points.row pointID = (w.db.points.row pointID).map (PointRow.write m))
      (hsession : db.sessions pointID = if m.enabled = true then w.db.sessions pointID else none) :
      Commit pointID w i t db (.updated m.enabled)
  | deleted (hfree : w.Free i (fun t => t.shares || t.writesPoint))
      (hpoint : db.points.row pointID = none) (hsession : db.sessions pointID = none) :
      Commit pointID w i t db .deleted

inductive Advance (pointID : Int) (w : World) (i : Int) (t : Tx) : World → Prop
  | wait : Advance pointID w i t w
  | finish : Advance pointID w i t (w.finish i)
  | next (t' : Tx) (hlocks : Locks pointID w i t t') :
      Advance pointID w i t { w with txs := w.txs.modify i (fun _ => t') }
  | commit (db : Db) (entry : Entry) (h : Commit pointID w i t db entry)
      (hstates : entry.reports = false → db.states = w.db.states) :
      Advance pointID w i t (w.commit i db entry)

section

variable {pointID i : Int} {w : World} {t : Tx}

theorem free_of_not_blocked {conflicts : Tx → Bool} (h : ¬w.blocked i conflicts = true) :
    w.Free i conflicts := by
  intro j t hj ht
  rw [World.blocked, List.any_eq_true] at h
  by_contra hc
  refine h ⟨j, KeyedRows.Table.mem_ids.mpr (by simp [ht]), ?_⟩
  simpa [hj, ht] using hc

theorem advance_lock {found : Bool} {conflicts : Tx → Bool}
    (h : found = true → w.Free i conflicts → Locks pointID w i t { t with done := t.done + 1 }) :
    Advance pointID w i t (w.lock i t found conflicts) := by
  unfold World.lock
  by_cases hf : found = false
  · rw [if_pos hf]
    exact .finish
  rw [if_neg hf]
  by_cases hb : w.blocked i conflicts = true
  · rw [if_pos hb]
    exact .wait
  rw [if_neg hb]
  exact .next _ (h (by simpa using hf) (free_of_not_blocked hb))

theorem credential_of_accepts {key : String}
    (h : (w.db.points.row pointID).any (fun point => point.accepts key) = true) (op : Op)
    (hop : op.key = some key ∨ op.key = none) : Credential pointID w.db op := by
  obtain ⟨point, hrow, hp⟩ := (Option.any_eq_true _ _).mp h
  simp only [PointRow.accepts, Bool.and_eq_true, beq_iff_eq] at hp
  refine ⟨point, hrow, hp.1, fun key' hk => ?_⟩
  rcases hop with hop | hop
  · rw [hop] at hk
    exact hp.2.trans (Option.some.inj hk)
  · rw [hop] at hk
    cases hk

theorem advance_clearRejection
    (hlocks : ∀ caught, Locks pointID w i t { t with done := t.done + 1, caught := caught }) :
    Advance pointID w i t (w.clearRejection pointID i t) := by
  unfold World.clearRejection
  split_ifs
  · exact .wait
  · exact .next _ (hlocks _)

theorem points_dropRejection (db : Db) (pointID : Int) (caught : Bool) :
    (dropRejection db pointID caught).points = db.points := by
  cases caught <;> rfl

theorem sessions_dropRejection (db : Db) (pointID : Int) (caught : Bool) :
    (dropRejection db pointID caught).sessions = db.sessions := by
  cases caught <;> rfl

theorem states_dropRejection (db : Db) (pointID : Int) (caught : Bool) :
    (dropRejection db pointID caught).states = db.states := by
  cases caught <;> rfl

theorem advance_claim (key connectionID : String) (worker : DistributionPointWorker) (startedAt : Int)
    (done : Nat) (caught : Bool) :
    Advance pointID w i ⟨.claim key connectionID worker, startedAt, done, caught⟩
      (w.advance pointID i ⟨.claim key connectionID worker, startedAt, done, caught⟩) := by
  match done with
  | 0 =>
    apply advance_lock
    intro hfound hfree
    refine ⟨rfl, rfl, ?_, fun _ => .inr ⟨hfree, ?_⟩, ?_, ?_⟩
    · simp [Tx.writesPoint]
    · exact credential_of_accepts hfound _ (.inl rfl)
    · simp [Tx.ownsSession]
    · simp [Tx.reporter]
  | 1 =>
    apply advance_lock
    intro _ hfree
    refine ⟨rfl, rfl, ?_, fun _ => .inl rfl, fun _ => .inr (.inr hfree), ?_⟩
    · simp [Tx.writesPoint]
    · simp [Tx.reporter]
  | 2 =>
    apply advance_clearRejection
    intro caught
    refine ⟨rfl, rfl, ?_, fun _ => .inl rfl, fun _ => .inl rfl, ?_⟩
    · simp [Tx.writesPoint]
    · simp [Tx.reporter]
  | n + 3 =>
    refine .commit _ _ (.claimed key connectionID worker rfl ?_ ?_ ?_ ?_) (fun _ => ?_)
    · simp [Tx.shares]
    · simp [Tx.ownsSession]
    · exact points_dropRejection ..
    · simp [sessions_dropRejection, Db.setSession]
    · exact states_dropRejection ..

theorem advance_observe (key : String) (worker : DistributionPointWorker) (startedAt : Int)
    (done : Nat) (caught : Bool) :
    Advance pointID w i ⟨.observe key worker, startedAt, done, caught⟩
      (w.advance pointID i ⟨.observe key worker, startedAt, done, caught⟩) := by
  match done with
  | 0 =>
    apply advance_lock
    intro hfound hfree
    refine ⟨rfl, rfl, ?_, fun _ => .inr ⟨hfree, ?_⟩, ?_, ?_⟩
    · simp [Tx.writesPoint]
    · exact credential_of_accepts hfound _ (.inl rfl)
    · simp [Tx.ownsSession, Op.clears]
    · simp [Tx.reporter]
  | 1 =>
    apply advance_lock
    intro _ _
    refine ⟨rfl, rfl, ?_, fun _ => .inl rfl, ?_, ?_⟩
    · simp [Tx.writesPoint]
    · simp [Tx.ownsSession, Op.clears]
    · simp [Tx.reporter]
  | n + 2 =>
    exact .commit _ _ (.observed key worker rfl (by simp [Tx.shares]) rfl rfl) (fun _ => rfl)

theorem advance_renew (connectionID : String) (startedAt : Int) (done : Nat) (caught : Bool) :
    Advance pointID w i ⟨.renew connectionID, startedAt, done, caught⟩
      (w.advance pointID i ⟨.renew connectionID, startedAt, done, caught⟩) := by
  match done with
  | 0 =>
    simp only [World.advance]
    split_ifs
    · refine .next _ ⟨rfl, rfl, ?_, ?_, ?_, ?_⟩
      · simp [Tx.writesPoint]
      · simp [Tx.shares]
      · simp [Tx.ownsSession, Op.clears]
      · simp [Tx.reporter]
    · exact .finish
  | n + 1 =>
    simp only [World.advance]
    cases hrow : w.db.sessions pointID with
    | none => exact .finish
    | some session =>
      by_cases hb : w.blocked i Tx.ownsSession = true
      · simp only [if_pos hb]
        exact .wait
      simp only [if_neg hb]
      by_cases hc : session.current connectionID startedAt = true
      · simp only [if_pos hc]
        refine .commit _ _ (.renewed connectionID session hrow hc (free_of_not_blocked hb) rfl ?_)
          (fun _ => rfl)
        simp [Db.setSession]
      · simp only [if_neg hc]
        exact .finish

theorem advance_release (connectionID : String) (startedAt : Int) (done : Nat) (caught : Bool) :
    Advance pointID w i ⟨.release connectionID, startedAt, done, caught⟩
      (w.advance pointID i ⟨.release connectionID, startedAt, done, caught⟩) := by
  simp only [World.advance]
  by_cases hf : (w.db.sessions pointID).any
      (fun session => session.connectionID == connectionID) = false
  · rw [if_pos hf]
    exact .finish
  rw [if_neg hf]
  by_cases hb : w.blocked i Tx.ownsSession = true
  · rw [if_pos hb]
    exact .wait
  rw [if_neg hb]
  rw [Bool.not_eq_false, Option.any_eq_true] at hf
  obtain ⟨session, hrow, hc⟩ := hf
  refine .commit _ _ (.released connectionID session hrow ?_ (free_of_not_blocked hb) rfl ?_)
    (fun _ => rfl)
  · simpa using hc
  · simp [Db.setSession]

theorem advance_record (connectionID : String) (packageID : Int) (status : PackageStatus)
    (sha256 errMessage : String) (startedAt : Int) (done : Nat) (caught : Bool) :
    Advance pointID w i ⟨.record connectionID packageID status sha256 errMessage, startedAt, done, caught⟩
      (w.advance pointID i
        ⟨.record connectionID packageID status sha256 errMessage, startedAt, done, caught⟩) := by
  match done with
  | 0 =>
    simp only [World.advance]
    by_cases hf : (w.db.points.row pointID).isSome = false
    · rw [if_pos hf]
      exact .finish
    rw [if_neg hf]
    by_cases hb : w.blocked i Tx.writesPoint = true
    · rw [if_pos hb]
      exact .wait
    rw [if_neg hb]
    by_cases he : (w.db.points.row pointID).any PointRow.enabled = true
    · rw [if_pos he]
      obtain ⟨point, hrow, henabled⟩ := (Option.any_eq_true _ _).mp he
      refine .next _ ⟨rfl, rfl, ?_, fun _ => .inr ⟨free_of_not_blocked hb, ?_⟩, ?_, ?_⟩
      · simp [Tx.writesPoint]
      · exact ⟨point, hrow, henabled, nofun⟩
      · simp [Tx.ownsSession]
      · simp [Tx.reporter]
    · rw [if_neg he]
      exact .finish
  | 1 =>
    apply advance_lock
    intro hfound hfree
    refine ⟨rfl, rfl, ?_, fun _ => .inl rfl, fun _ => .inr (.inr hfree), ?_⟩
    · simp [Tx.writesPoint]
    · rintro c hc
      obtain rfl : connectionID = c := by simpa [Tx.reporter] using hc
      obtain ⟨session, hrow, hcurrent⟩ := (Option.any_eq_true _ _).mp hfound
      exact .inr ⟨session, hrow, hcurrent⟩
  | 2 =>
    simp only [World.advance]
    split_ifs
    · refine .next _ ⟨rfl, rfl, ?_, fun _ => .inl rfl, fun _ => .inl rfl, fun c hc => .inl hc⟩
      simp [Tx.writesPoint]
    · exact .finish
  | n + 3 =>
    exact .commit _ _ (.recorded connectionID packageID (by simp [Tx.reporter]) rfl rfl) nofun

theorem advance_lockPoint (hlocks : w.Free i (fun t => t.shares || t.writesPoint) →
    Locks pointID w i t { t with done := t.done + 1 }) :
    Advance pointID w i t (w.lockPoint pointID i t) :=
  advance_lock (fun _ hfree => hlocks hfree)

/-- A transaction that clears the sessions holds the point's row. -/
theorem advance_clearing {f : PointRow → PointRow} {entry : Entry} (hdone : 1 ≤ t.done)
    (hlocks : ∀ caught, Locks pointID w i t { t with done := t.done + 1, caught := caught })
    (hcommit : ∀ db : Db, db.points.row pointID = (w.db.points.row pointID).map f →
      db.sessions pointID = none → Commit pointID w i t db entry) :
    Advance pointID w i t (w.clearing pointID i t f entry) := by
  unfold World.clearing
  match hd : t.done with
  | 0 => omega
  | 1 =>
    simp only [World.clearSession]
    split_ifs
    · exact .wait
    · exact .next _ (hlocks t.caught)
  | 2 => exact advance_clearRejection hlocks
  | n + 3 =>
    refine .commit _ _ (hcommit _ ?_ ?_) (fun _ => ?_)
    · simp [points_dropRejection, Db.setSession, Db.modifyPoint, KeyedRows.Table.row_modify]
    · simp [sessions_dropRejection, Db.setSession]
    · exact states_dropRejection ..

theorem advance_rotateKey (key : String) (startedAt : Int) (done : Nat) (caught : Bool) :
    Advance pointID w i ⟨.rotateKey key, startedAt, done, caught⟩
      (w.advance pointID i ⟨.rotateKey key, startedAt, done, caught⟩) := by
  match done with
  | 0 =>
    apply advance_lockPoint
    intro hfree
    refine ⟨rfl, rfl, fun _ => .inr hfree, ?_, ?_, ?_⟩
    · simp [Tx.shares]
    · simp [Tx.ownsSession]
    · simp [Tx.reporter]
  | n + 1 =>
    apply advance_clearing
    · simp
    · intro caught
      refine ⟨rfl, rfl, fun _ => .inl (by simp [Tx.writesPoint]), ?_,
        fun _ => .inr (.inl (by simp [Tx.writesPoint])), ?_⟩
      · simp [Tx.shares]
      · simp [Tx.reporter]
    · intro db hpoint hsession
      exact .rotated key (by simp [Tx.writesPoint]) hpoint hsession

theorem advance_update (m : DistributionPointMutation) (startedAt : Int) (done : Nat) (caught : Bool) :
    Advance pointID w i ⟨.update m, startedAt, done, caught⟩
      (w.advance pointID i ⟨.update m, startedAt, done, caught⟩) := by
  match done with
  | 0 =>
    apply advance_lockPoint
    intro hfree
    refine ⟨rfl, rfl, fun _ => .inr hfree, ?_, ?_, ?_⟩
    · simp [Tx.shares]
    · simp [Tx.ownsSession]
    · simp [Tx.reporter]
  | n + 1 =>
    simp only [World.advance]
    by_cases he : m.enabled = true
    · rw [if_pos he]
      have hcommit : Commit pointID w i ⟨.update m, startedAt, n + 1, caught⟩
          (w.db.modifyPoint pointID (PointRow.write m)) (.updated m.enabled) := by
        apply Commit.updated m
        · simp [Tx.writesPoint]
        · simp [Db.modifyPoint, KeyedRows.Table.row_modify]
        · simp [he, Db.modifyPoint]
      rw [he] at hcommit
      exact .commit _ _ hcommit (fun _ => rfl)
    · rw [if_neg he]
      rw [Bool.not_eq_true] at he
      apply advance_clearing
      · simp
      · intro caught
        refine ⟨rfl, rfl, fun _ => .inl (by simp [Tx.writesPoint]), ?_,
          fun _ => .inr (.inl (by simp [Tx.writesPoint])), ?_⟩
        · simp [Tx.shares]
        · simp [Tx.reporter]
      · intro db hpoint hsession
        have hcommit : Commit pointID w i ⟨.update m, startedAt, n + 1, caught⟩ db (.updated m.enabled) := by
          apply Commit.updated m
          · simp [Tx.writesPoint]
          · exact hpoint
          · rw [hsession, if_neg (by simp [he])]
        rwa [he] at hcommit

theorem advance_delete (startedAt : Int) (done : Nat) (caught : Bool) :
    Advance pointID w i ⟨.delete, startedAt, done, caught⟩
      (w.advance pointID i ⟨.delete, startedAt, done, caught⟩) := by
  simp only [World.advance]
  split_ifs with hnone hpoint hsession hrejection
  · exact .finish
  · exact .wait
  · exact .wait
  · exact .wait
  · refine .commit _ _ (.deleted (free_of_not_blocked hpoint) ?_ ?_) nofun
    · simp [Db.deletePoint, KeyedRows.Table.row_erase]
    · simp [Db.deletePoint, clearWorkerStates, Db.setSession, Db.setRejection]

theorem advance_spec (pointID : Int) (w : World) (i : Int) (t : Tx) :
    Advance pointID w i t (w.advance pointID i t) := by
  obtain ⟨op, startedAt, done, caught⟩ := t
  cases op with
  | claim key connectionID worker => apply advance_claim
  | renew connectionID => apply advance_renew
  | release connectionID => apply advance_release
  | observe key worker => apply advance_observe
  | record connectionID packageID status sha256 errMessage => apply advance_record
  | rotateKey key => apply advance_rotateKey
  | update m => apply advance_update
  | delete => apply advance_delete

end

structure Inv (pointID : Int) (first : Standing) (w : World) : Prop where
  session : (w.db.sessions pointID).map (fun s => (s.connectionID, s.expiresAt)) =
    (holder w.log).map (fun h => (h.connectionID, h.expiresAt))
  point : (w.db.points.row pointID).map standingOf = standing first w.log
  keyed : ∀ h, holder w.log = some h → standing first w.log = some ⟨true, h.key⟩
  allowed : ∀ e past, (e :: past) <:+ w.log → Allowed first past e
  writes : ∀ i t, w.txs.row i = some t → t.writesPoint = true →
    w.Free i (fun t => t.shares || t.writesPoint)
  owns : ∀ i t, w.txs.row i = some t → t.ownsSession = true → w.Free i Tx.ownsSession
  shares : ∀ i t, w.txs.row i = some t → t.shares = true → Credential pointID w.db t.op
  reports : ∀ i t, w.txs.row i = some t → ∀ c ∈ t.reporter, Current pointID w.db c t.startedAt

section

variable {pointID i : Int} {first : Standing} {w : World} {t : Tx}

theorem locks_of_owns (h : t.ownsSession = true) : t.shares = true ∨ t.writesPoint = true := by
  obtain ⟨op, startedAt, done, caught⟩ := t
  cases op <;> simp [Tx.ownsSession, Tx.shares, Tx.writesPoint, Op.clears] at h ⊢ <;> omega

theorem locks_of_reporter {c : String} (h : c ∈ t.reporter) :
    t.ownsSession = true ∧ t.shares = true := by
  obtain ⟨op, startedAt, done, caught⟩ := t
  cases op with
  | record connectionID packageID status sha256 errMessage =>
    simp only [Tx.reporter] at h
    split_ifs at h with hd
    · simp only [Tx.ownsSession, Tx.shares, decide_eq_true_eq]
      exact ⟨hd, by omega⟩
    · cases h
  | claim | renew | release | observe | rotateKey | update | delete => cases h

/-- Fewer transactions, or new ones without a lock. -/
theorem inv_txs (hw : Inv pointID first w) (txs : Table Tx)
    (htxs : ∀ j t, txs.row j = some t → w.txs.row j = some t ∨
      t.shares = false ∧ t.writesPoint = false ∧ t.ownsSession = false) :
    Inv pointID first { w with txs := txs } := by
  refine ⟨hw.session, hw.point, hw.keyed, hw.allowed, ?_, ?_, ?_, ?_⟩
  · intro i t ht hwrites j t' hj ht'
    rcases htxs j t' ht' with hold' | hnone
    · rcases htxs i t ht with hold | hnone
      · exact hw.writes i t hold hwrites j t' hj hold'
      · simp [hnone.2.1] at hwrites
    · simp [hnone]
  · intro i t ht howns j t' hj ht'
    rcases htxs j t' ht' with hold' | hnone
    · rcases htxs i t ht with hold | hnone
      · exact hw.owns i t hold howns j t' hj hold'
      · simp [hnone.2.2] at howns
    · exact hnone.2.2
  · intro i t ht hshares
    rcases htxs i t ht with hold | hnone
    · exact hw.shares i t hold hshares
    · simp [hnone.1] at hshares
  · intro i t ht c hc
    rcases htxs i t ht with hold | hnone
    · exact hw.reports i t hold c hc
    · simp [(locks_of_reporter hc).2] at hnone

theorem inv_finish (hw : Inv pointID first w) (i : Int) : Inv pointID first (w.finish i) := by
  apply inv_txs hw
  intro j t ht
  rw [KeyedRows.Table.row_erase] at ht
  split_ifs at ht
  exact .inl ht

theorem inv_begin (hw : Inv pointID first w) (op : Op) :
    Inv pointID first { w with txs := w.txs.insert ⟨op, w.now, 0, false⟩ } := by
  apply inv_txs hw
  intro j t ht
  rw [KeyedRows.Table.row_insert] at ht
  split_ifs at ht
  · obtain rfl := Option.some.inj ht
    right
    cases op <;> simp [Tx.shares, Tx.writesPoint, Tx.ownsSession]
  · exact .inl ht

theorem inv_next (hw : Inv pointID first w) (ht : w.txs.row i = some t) {t' : Tx}
    (hlocks : Locks pointID w i t t') :
    Inv pointID first { w with txs := w.txs.modify i (fun _ => t') } := by
  have hrow : ∀ j u, (w.txs.modify i (fun _ => t')).row j = some u →
      (j = i ∧ u = t') ∨ (j ≠ i ∧ w.txs.row j = some u) := by
    intro j u hu
    rw [KeyedRows.Table.row_modify] at hu
    by_cases hj : j = i
    · subst hj
      rw [if_pos rfl, ht] at hu
      exact .inl ⟨rfl, (Option.some.inj hu).symm⟩
    · rw [if_neg hj] at hu
      exact .inr ⟨hj, hu⟩
  -- the locks t' has leave the others with none that conflict
  have hwrites : t'.writesPoint = true → w.Free i (fun t => t.shares || t.writesPoint) := by
    intro h
    rcases hlocks.writes h with h | h
    · exact hw.writes i t ht h
    · exact h
  have hshares : t'.shares = true → w.Free i Tx.writesPoint ∧ Credential pointID w.db t.op := by
    intro h
    rcases hlocks.shares h with h | h
    · refine ⟨fun j u hj hu => ?_, hw.shares i t ht h⟩
      by_contra hwu
      have := hw.writes j u hu (by simpa using hwu) i t (Ne.symm hj) ht
      simp [h] at this
    · exact h
  have howns : t'.ownsSession = true → w.Free i Tx.ownsSession := by
    intro h
    rcases hlocks.owns h with h | h | h
    · exact hw.owns i t ht h
    · intro j u hj hu
      have hfree := hw.writes i t ht h j u hj hu
      by_contra hou
      rcases locks_of_owns (by simpa using hou) with h' | h' <;> simp [h'] at hfree
    · exact h
  refine ⟨hw.session, hw.point, hw.keyed, hw.allowed, ?_, ?_, ?_, ?_⟩
  · intro j u hu hwu k v hk hv
    rcases hrow j u hu with ⟨rfl, rfl⟩ | ⟨hj, hold⟩
    · rcases hrow k v hv with ⟨rfl, -⟩ | ⟨-, hv⟩
      · exact absurd rfl hk
      · exact hwrites hwu k v hk hv
    rcases hrow k v hv with ⟨rfl, rfl⟩ | ⟨-, hv⟩
    · simp only [Bool.or_eq_false_iff]
      constructor
      · by_contra hs
        have := (hshares (by simpa using hs)).1 j u hj hold
        simp [hwu] at this
      · by_contra hs
        have := hwrites (by simpa using hs) j u hj hold
        simp [hwu] at this
    · exact hw.writes j u hold hwu k v hk hv
  · intro j u hu hou k v hk hv
    rcases hrow j u hu with ⟨rfl, rfl⟩ | ⟨hj, hold⟩
    · rcases hrow k v hv with ⟨rfl, -⟩ | ⟨-, hv⟩
      · exact absurd rfl hk
      · exact howns hou k v hk hv
    rcases hrow k v hv with ⟨rfl, rfl⟩ | ⟨-, hv⟩
    · by_contra hs
      have := howns (by simpa using hs) j u hj hold
      simp [hou] at this
    · exact hw.owns j u hold hou k v hk hv
  · intro j u hu hsu
    rcases hrow j u hu with ⟨rfl, rfl⟩ | ⟨hj, hu⟩
    · rw [hlocks.op]
      exact (hshares hsu).2
    · exact hw.shares j u hu hsu
  · intro j u hu c hc
    rcases hrow j u hu with ⟨rfl, rfl⟩ | ⟨hj, hu⟩
    · rw [hlocks.startedAt]
      rcases hlocks.reports c hc with hc | hc
      · exact hw.reports j t ht c hc
      · exact hc
    · exact hw.reports j u hu c hc

/-- A commit is compatible with what the other transactions have locked. -/
theorem inv_commit (hw : Inv pointID first w) {db : Db} {entry : Entry}
    (hpoint : db.points.row pointID = w.db.points.row pointID ∨ w.Free i Tx.shares)
    (hsession : db.sessions pointID = w.db.sessions pointID ∨ w.Free i Tx.ownsSession)
    (hholder : (db.sessions pointID).map (fun s => (s.connectionID, s.expiresAt)) =
      (holder (entry :: w.log)).map (fun h => (h.connectionID, h.expiresAt)))
    (hstanding : (db.points.row pointID).map standingOf = standing first (entry :: w.log))
    (hkeyed : ∀ h, holder (entry :: w.log) = some h →
      standing first (entry :: w.log) = some ⟨true, h.key⟩)
    (hallowed : Allowed first w.log entry) : Inv pointID first (w.commit i db entry) := by
  have hfinish := inv_finish hw i
  have hrow : ∀ j t, (w.txs.erase i).row j = some t → j ≠ i ∧ w.txs.row j = some t := by
    intro j t ht
    rw [KeyedRows.Table.row_erase] at ht
    split_ifs at ht with hj
    exact ⟨hj, ht⟩
  refine ⟨hholder, hstanding, hkeyed, ?_, hfinish.writes, hfinish.owns, ?_, ?_⟩
  · intro e past hsuffix
    rcases List.suffix_cons_iff.mp hsuffix with heq | hsuffix
    · obtain ⟨rfl, rfl⟩ := List.cons.inj heq
      exact hallowed
    · exact hw.allowed e past hsuffix
  · intro j t ht hshares
    obtain ⟨hj, ht⟩ := hrow j t ht
    rcases hpoint with heq | hfree
    · obtain ⟨point, hp, hrest⟩ := hw.shares j t ht hshares
      exact ⟨point, heq.trans hp, hrest⟩
    · have := hfree j t hj ht
      simp [hshares] at this
  · intro j t ht c hc
    obtain ⟨hj, ht⟩ := hrow j t ht
    rcases hsession with heq | hfree
    · obtain ⟨session, hs, hcurrent⟩ := hw.reports j t ht c hc
      exact ⟨session, heq.trans hs, hcurrent⟩
    · have := hfree j t hj ht
      simp [(locks_of_reporter hc).1] at this

theorem free_shares (h : w.Free i (fun t => t.shares || t.writesPoint)) : w.Free i Tx.shares := by
  intro j t hj ht
  have := h j t hj ht
  simp only [Bool.or_eq_false_iff] at this
  exact this.1

theorem free_owns (h : w.Free i (fun t => t.shares || t.writesPoint)) : w.Free i Tx.ownsSession := by
  intro j t hj ht
  have hfree := h j t hj ht
  by_contra ho
  rcases locks_of_owns (by simpa using ho) with h' | h' <;> simp [h'] at hfree

/-- Whose session row it is. -/
theorem holder_of_session (hw : Inv pointID first w) {session : WorkerSession}
    (hrow : w.db.sessions pointID = some session) :
    ∃ h, holder w.log = some h ∧ h.connectionID = session.connectionID ∧
      h.expiresAt = session.expiresAt ∧ standing first w.log = some ⟨true, h.key⟩ := by
  have hmap := hw.session
  rw [hrow, Option.map_some, eq_comm, Option.map_eq_some_iff] at hmap
  obtain ⟨h, hholder, heq⟩ := hmap
  obtain ⟨hconnection, hexpires⟩ := Prod.mk.inj heq
  exact ⟨h, hholder, hconnection, hexpires, hw.keyed h hholder⟩

theorem authorized_of_current (hw : Inv pointID first w) {c : String} {startedAt : Int}
    (h : Current pointID w.db c startedAt) : Authorized first w.log c startedAt := by
  obtain ⟨session, hrow, hcurrent⟩ := h
  obtain ⟨h, hholder, hconnection, hexpires, hstanding⟩ := holder_of_session hw hrow
  simp only [WorkerSession.current, Bool.and_eq_true, beq_iff_eq, decide_eq_true_eq] at hcurrent
  exact ⟨h, hholder, hconnection.trans hcurrent.1, hstanding, hexpires ▸ hcurrent.2⟩

theorem standing_of_credential (hw : Inv pointID first w) {op : Op} {key : String}
    (h : Credential pointID w.db op) (hkey : op.key = some key) :
    standing first w.log = some ⟨true, key⟩ := by
  obtain ⟨point, hrow, henabled, hk⟩ := h
  rw [← hw.point, hrow, Option.map_some, standingOf, henabled, hk key hkey]

theorem inv_committed (hw : Inv pointID first w) (ht : w.txs.row i = some t) {db : Db}
    {entry : Entry} (h : Commit pointID w i t db entry) :
    Inv pointID first (w.commit i db entry) := by
  cases h with
  | claimed key connectionID worker hop hshares howns hpoints hsession =>
    have hstanding := standing_of_credential hw (hw.shares i t ht hshares) (by rw [hop]; rfl)
    apply inv_commit hw (.inl (by rw [hpoints])) (.inr (hw.owns i t ht howns))
    · rw [hsession]
      rfl
    · rw [hpoints]
      exact hw.point
    · intro h hh
      obtain rfl := Option.some.inj hh
      exact hstanding
    · exact hstanding
  | observed key worker hop hshares hpoints hsession =>
    apply inv_commit hw (.inl (by rw [hpoints])) (.inl hsession)
    · rw [hsession]
      exact hw.session
    · rw [hpoints]
      exact hw.point
    · exact hw.keyed
    · exact standing_of_credential hw (hw.shares i t ht hshares) (by rw [hop]; rfl)
  | renewed connectionID session hrow hcurrent hfree hpoints hsession =>
    obtain ⟨h, hholder, hconnection, -, hstanding⟩ := holder_of_session hw hrow
    apply inv_commit hw (.inl (by rw [hpoints])) (.inr hfree)
    · rw [hsession, holder, hholder]
      simp [WorkerSession.renew, hconnection]
    · rw [hpoints]
      exact hw.point
    · intro h' hh'
      rw [holder, hholder] at hh'
      obtain rfl := Option.some.inj hh'
      exact hstanding
    · exact authorized_of_current hw ⟨session, hrow, hcurrent⟩
  | released connectionID session hrow hconnection hfree hpoints hsession =>
    obtain ⟨h, hholder, hsame, -, -⟩ := holder_of_session hw hrow
    apply inv_commit hw (.inl (by rw [hpoints])) (.inr hfree)
    · rw [hsession]
      rfl
    · rw [hpoints]
      exact hw.point
    · exact nofun
    · exact ⟨h, hholder, hsame.trans hconnection⟩
  | recorded connectionID packageID hreports hpoints hsession =>
    apply inv_commit hw (.inl (by rw [hpoints])) (.inl hsession)
    · rw [hsession]
      exact hw.session
    · rw [hpoints]
      exact hw.point
    · exact hw.keyed
    · exact authorized_of_current hw (hw.reports i t ht connectionID hreports)
  | rotated key hwrites hpoint hsession =>
    have hfree := hw.writes i t ht hwrites
    apply inv_commit hw (.inr (free_shares hfree)) (.inr (free_owns hfree))
    · rw [hsession]
      rfl
    · rw [hpoint, standing, ← hw.point, Option.map_map, Option.map_map]
      rfl
    · exact nofun
    · trivial
  | updated m hwrites hpoint hsession =>
    have hfree := hw.writes i t ht hwrites
    have hstanding : (db.points.row pointID).map standingOf =
        standing first (.updated m.enabled :: w.log) := by
      rw [hpoint, standing, ← hw.point, Option.map_map, Option.map_map]
      rfl
    cases he : m.enabled with
    | true =>
      rw [he] at hstanding hsession
      rw [if_pos rfl] at hsession
      apply inv_commit hw (.inr (free_shares hfree)) (.inl hsession)
      · rw [hsession]
        exact hw.session
      · exact hstanding
      · intro h hh
        rw [standing, hw.keyed h hh]
        rfl
      · trivial
    | false =>
      rw [he] at hstanding hsession
      apply inv_commit hw (.inr (free_shares hfree)) (.inr (free_owns hfree))
      · rw [hsession]
        rfl
      · exact hstanding
      · exact nofun
      · trivial
  | deleted hfree hpoint hsession =>
    apply inv_commit hw (.inr (free_shares hfree)) (.inr (free_owns hfree))
    · rw [hsession]
      rfl
    · rw [hpoint]
      rfl
    · exact nofun
    · trivial

theorem inv_step (hw : Inv pointID first w) (e : Event) : Inv pointID first (step pointID w e) := by
  cases e with
  | begin op =>
    simp only [step]
    split_ifs
    · exact inv_begin hw op
    · exact hw
  | advance i =>
    simp only [step]
    cases ht : w.txs.row i with
    | none => exact hw
    | some t =>
      have hspec := advance_spec pointID w i t
      simp only
      generalize w.advance pointID i t = w' at hspec ⊢
      cases hspec with
      | wait => exact hw
      | finish => exact inv_finish hw i
      | next t' hlocks => exact inv_next hw ht hlocks
      | commit db entry h => exact inv_committed hw ht h
  | abort i => exact inv_finish hw i
  | tick d =>
    exact ⟨hw.session, hw.point, hw.keyed, hw.allowed, hw.writes, hw.owns, hw.shares, hw.reports⟩

/-- Only a logged report, or the point's deletion, changes the package states. -/
theorem states_step (pointID : Int) (w : World) (e : Event) :
    (step pointID w e).db.states = w.db.states ∨
      ∃ entry, (step pointID w e).log = entry :: w.log ∧ entry.reports = true := by
  cases e with
  | begin op =>
    simp only [step]
    split_ifs <;> exact .inl rfl
  | advance i =>
    simp only [step]
    cases w.txs.row i with
    | none => exact .inl rfl
    | some t =>
      have hspec := advance_spec pointID w i t
      simp only
      generalize w.advance pointID i t = w' at hspec ⊢
      cases hspec with
      | wait | finish | next => exact .inl rfl
      | commit db entry h hstates =>
        cases hr : entry.reports with
        | true => exact .inr ⟨entry, rfl, hr⟩
        | false => exact .inl (hstates hr)
  | abort i => exact .inl rfl
  | tick d => exact .inl rfl

theorem holder_eq_some {log : List Entry} {h : Holder} (hh : holder log = some h) :
    ∃ later startedAt past, log = later ++ .claimed h.connectionID h.key startedAt :: past ∧
      ∀ e ∈ later, e.ends = false := by
  induction log generalizing h with
  | nil => cases hh
  | cons e past ih =>
    have hcons : ∀ h', holder past = some h' → h'.connectionID = h.connectionID → h'.key = h.key →
        e.ends = false → ∃ later startedAt past', e :: past =
          later ++ .claimed h.connectionID h.key startedAt :: past' ∧ ∀ e ∈ later, e.ends = false := by
      intro h' hh' hconnection hkey he
      obtain ⟨later, startedAt, past', rfl, hlater⟩ := ih hh'
      rw [hconnection, hkey]
      exact ⟨e :: later, startedAt, past', rfl, List.forall_mem_cons.mpr ⟨he, hlater⟩⟩
    cases e with
    | claimed connectionID key startedAt =>
      obtain rfl := Option.some.inj hh
      exact ⟨[], startedAt, past, rfl, nofun⟩
    | renewed connectionID startedAt =>
      obtain ⟨h', hh', rfl⟩ := Option.map_eq_some_iff.mp hh
      exact hcons h' hh' rfl rfl rfl
    | observed key => exact hcons h hh rfl rfl rfl
    | recorded connectionID packageID startedAt => exact hcons h hh rfl rfl rfl
    | released connectionID => cases hh
    | rotated key => cases hh
    | deleted => cases hh
    | updated enabled =>
      cases enabled with
      | true => exact hcons h hh rfl rfl rfl
      | false => cases hh

end

/-- A point nobody is connected to yet. -/
theorem inv_init {db : Db} {pointID : Int} {point : PointRow}
    (hpoint : db.points.row pointID = some point) (hsession : db.sessions pointID = none) :
    Inv pointID (standingOf point) { db := db } where
  session := by
    change (db.sessions pointID).map _ = none
    rw [hsession]
    rfl
  point := by
    change (db.points.row pointID).map standingOf = some (standingOf point)
    rw [hpoint]
    rfl
  keyed := by
    intro _ hheld
    cases hheld
  allowed := fun _ _ h => absurd (List.suffix_nil.mp h) (List.cons_ne_nil _ _)
  writes := by
    intro _ _ hrow
    cases hrow
  owns := by
    intro _ _ hrow
    cases hrow
  shares := by
    intro _ _ hrow
    cases hrow
  reports := by
    intro _ _ hrow
    cases hrow

/-- The connection's session is in force. -/
def World.current (pointID : Int) (w : World) (connectionID : String) : Prop :=
  Current pointID w.db connectionID w.now

/-- In every run from a point nobody is connected to. -/
theorem session_authority {db : Db} {pointID : Int} {point : PointRow}
    (hpoint : db.points.row pointID = some point) (hsession : db.sessions pointID = none)
    (es : List Event) :
    let w := exec (step pointID) { db := db } es
    (∀ c c', w.current pointID c → w.current pointID c' → c = c') ∧
    (∀ c, w.current pointID c → ∃ later key startedAt past point h,
      w.log = later ++ .claimed c key startedAt :: past ∧ (∀ e ∈ later, e.ends = false) ∧
        w.db.points.row pointID = some point ∧ point.enabled = true ∧ point.key = key ∧
        holder w.log = some h ∧ w.now < h.expiresAt) ∧
    (∀ e past, (e :: past) <:+ w.log → Allowed (standingOf point) past e) ∧
    (w.db.sessions pointID).map (fun s => (s.connectionID, s.expiresAt)) =
      (holder w.log).map (fun h => (h.connectionID, h.expiresAt)) ∧
    ∀ e, (step pointID w e).db.states = w.db.states ∨
      ∃ entry, (step pointID w e).log = entry :: w.log ∧ entry.reports = true := by
  intro w
  have hw : Inv pointID (standingOf point) w :=
    Runs.exec_invariant (P := Inv pointID (standingOf point)) (fun _ e h => inv_step h e) es
      (inv_init hpoint hsession)
  refine ⟨?_, ?_, hw.allowed, hw.session, states_step pointID w⟩
  · rintro c c' ⟨session, hrow, hcurrent⟩ ⟨session', hrow', hcurrent'⟩
    obtain rfl := Option.some.inj (hrow.symm.trans hrow')
    simp only [WorkerSession.current, Bool.and_eq_true, beq_iff_eq] at hcurrent hcurrent'
    exact hcurrent.1.symm.trans hcurrent'.1
  · rintro c hc
    obtain ⟨h, hholder, rfl, hstanding, hexpires⟩ := authorized_of_current hw hc
    obtain ⟨later, startedAt, past, hlog, hlater⟩ := holder_eq_some hholder
    rw [← hw.point, Option.map_eq_some_iff] at hstanding
    obtain ⟨row, hrow, heq⟩ := hstanding
    obtain ⟨henabled, hkey⟩ := Standing.mk.inj heq
    exact ⟨later, h.key, startedAt, past, row, h, hlog, hlater, hrow, henabled, hkey, hholder, hexpires⟩

instance (pointID : Int) (w : World) (connectionID : String) :
    Decidable (w.current pointID connectionID) :=
  inferInstanceAs (Decidable (Current pointID w.db connectionID w.now))

def campus : PointRow where
  name := "campus"
  enabled := true
  position := 0
  clientCIDRs := []
  clientBaseURL := ""
  key := "key"

def campusDb : Db where
  points := (Table.empty : Table PointRow).insert campus
  packages := (Table.empty : Table (Option String)).insert (some "hash")

def compatibleWorker : DistributionPointWorker where
  compatible := true
  protocolVersion := some 1

/-- A report begun at ten seconds has locked the session, a renewal begun at fourteen
waits for it; the session was good for fifteen seconds. -/
def lateRun : List Event :=
  [.begin (.claim "key" "a" compatibleWorker), .advance 1, .advance 1, .advance 1, .advance 1,
    .tick 10000000, .begin (.record "a" 1 .current "hash" ""), .advance 2, .advance 2,
    .tick 4000000, .begin (.renew "a"), .advance 3, .advance 3, .tick 2000000]

theorem session_authority_late :
    (∀ c c', (exec (step 1) { db := campusDb } lateRun).current 1 c →
      (exec (step 1) { db := campusDb } lateRun).current 1 c' → c = c') ∧
    ((exec (step 1) { db := campusDb } lateRun).db.sessions 1).map
        (fun s => (s.connectionID, s.expiresAt)) =
      (holder (exec (step 1) { db := campusDb } lateRun).log).map
        (fun h => (h.connectionID, h.expiresAt)) :=
  have h := @session_authority campusDb 1 campus (by decide) rfl lateRun
  ⟨h.1, h.2.2.2.1⟩

/-- An expired connection reports and then renews its session. -/
theorem expired_session_revived :
    let w := exec (step 1) { db := campusDb } lateRun
    let w' := exec (step 1) w [.advance 2, .advance 2, .advance 3]
    ¬w.current 1 "a" ∧ w'.log = .renewed "a" 14000000 :: .recorded "a" 1 10000000 :: w.log ∧
      w'.current 1 "a" := by
  decide +kernel

end DistributionSessions
