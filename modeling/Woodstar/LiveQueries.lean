import Woodstar.KeyedRows
import Woodstar.Primitives
import Woodstar.Runs

/-!
# Live queries

`internal/osquery/livequery`. Stop, RecordResult and Snapshots lock the run row before
they read anything, so each is one step; a step carries the start of its transaction,
which is what `now()` answers in it. Times are microseconds.
-/
namespace LiveQueries

open KeyedRows (Table)
open Primitives (Fault)
open Runs (exec)

def runTimeout : Int := 300000000
def completedRetention : Int := 60000000

inductive Status where
  | pending | collected | error | stopped
  deriving DecidableEq, Repr

/-- What the agent handler reports for a host. -/
inductive ResultStatus where
  | collected | error
  deriving DecidableEq, Repr

def ResultStatus.status : ResultStatus → Status
  | .collected => .collected
  | .error => .error

abbrev Row := List (String × String)

structure Target where
  hostID : Int
  hostName : String
  deriving DecidableEq, Repr

structure Work where
  queryID : Int
  sql : String
  deriving DecidableEq, Repr

structure Handle where
  id : Int
  sql : String
  startedAt : Int
  resolvedHostCount : Nat
  deriving DecidableEq, Repr

structure Result where
  queryID : Int
  hostID : Int
  hostName : String
  status : ResultStatus
  rows : Option (List Row)
  error : String
  deriving DecidableEq, Repr

def Result.normalizeRows (r : Result) : List Row := r.rows.getD []

structure RunRow where
  query : String
  startedAt : Int
  deadlineAt : Int
  completedAt : Option Int
  deadline_check : startedAt < deadlineAt
  completed_check : ∀ t ∈ completedAt, startedAt ≤ t
  deriving Repr

structure TargetRow where
  hostID : Int
  hostName : String
  status : Status := .pending
  rows : List Row := []
  error : String := ""
  updatedAt : Int
  deriving DecidableEq, Repr

/-- `targets` are the target rows of a run. -/
structure Db where
  runs : Table RunRow := .empty
  targets : Int → List TargetRow := fun _ => []

def RunRow.expired (run : RunRow) (now : Int) : Bool := decide (run.deadlineAt ≤ now)

/-- The UPDATE of `completed_at` with its CHECK constraint. -/
def RunRow.complete (run : RunRow) (t : Int) : Except Fault RunRow :=
  if h : run.startedAt ≤ t then
    .ok { run with completedAt := some t, completed_check := by rintro _ ⟨⟩; exact h }
  else .error (.database "osquery_live_query_runs_check1")

/-- The UPDATE to the deadline, which is after the start. -/
def RunRow.expire (run : RunRow) : RunRow :=
  { run with
    completedAt := some run.deadlineAt
    completed_check := by
      rintro _ ⟨⟩
      exact Int.le_of_lt run.deadline_check }

/-- Later targets of a host replace earlier ones. -/
def distinctTargets (targets : List Target) : List Target :=
  targets.foldl (fun byID target => byID.filter (fun t => t.hostID != target.hostID) ++ [target]) []

def Db.purge (db : Db) (now : Int) : Db :=
  let old := fun id => (db.runs.row id).any
    (fun run => decide (run.completedAt.getD run.deadlineAt < now - completedRetention))
  { runs := (db.runs.ids.filter old).foldl Table.erase db.runs
    targets := fun id => if old id = true then [] else db.targets id }

def newRun (sql : String) (now : Int) (targetless : Bool) : RunRow where
  query := sql
  startedAt := now
  deadlineAt := now + runTimeout
  completedAt := if targetless = true then some now else none
  deadline_check := Int.lt_add_of_pos_right _ (by decide)
  completed_check := by
    intro t ht
    split_ifs at ht
    · cases ht
      exact Int.le_refl _
    · cases ht

def start (db : Db) (sql : String) (targets : List Target) (now : Int) : Db × Handle :=
  let targetsByID := distinctTargets targets
  let db := db.purge now
  let id := db.runs.next
  let rows := targetsByID.map (fun target =>
    { hostID := target.hostID, hostName := target.hostName, updatedAt := now })
  ({ runs := db.runs.insert (newRun sql now targetsByID.isEmpty)
     targets := Function.update db.targets id rows },
    ⟨id, sql, now, targetsByID.length⟩)

def pendingForHost (db : Db) (hostID : Int) (now : Int) : List Work :=
  db.runs.ids.filterMap (fun id =>
    (db.runs.row id).bind (fun run =>
      if (db.targets id).any (fun target => target.hostID == hostID && target.status == .pending) = true ∧
          run.completedAt = none ∧ now < run.deadlineAt then some ⟨id, run.query⟩ else none))

def stopTarget (t : Int) (target : TargetRow) : TargetRow :=
  if target.status = .pending then { target with status := .stopped, updatedAt := t } else target

def Db.setRun (db : Db) (id : Int) (run : RunRow) : Db :=
  { db with runs := db.runs.modify id (fun _ => run) }

def Db.stopTargets (db : Db) (id : Int) (t : Int) : Db :=
  { db with targets := Function.update db.targets id ((db.targets id).map (stopTarget t)) }

/-- `ErrLiveQueryNotFound` is `notFound`. -/
def stop (db : Db) (queryID : Int) (now : Int) : Except Fault Db :=
  match db.runs.row queryID with
  | none => .error .notFound
  | some run =>
    if run.completedAt.isSome = true then .ok db
    else do
      let completed ← run.complete now
      return (db.stopTargets queryID now).setRun queryID completed

def expireRun (db : Db) (queryID : Int) (run : RunRow) : Db :=
  (db.stopTargets queryID run.deadlineAt).setRun queryID run.expire

def recordTarget (r : Result) (now : Int) (target : TargetRow) : TargetRow :=
  if target.hostID = r.hostID ∧ target.status = .pending then
    { target with
      hostName := if r.hostName = "" then target.hostName else r.hostName
      status := r.status.status
      rows := r.normalizeRows
      error := r.error
      updatedAt := now }
  else target

def recordResult (db : Db) (r : Result) (now : Int) : Except Fault Db :=
  match db.runs.row r.queryID with
  | none => .ok db
  | some run =>
    if run.completedAt.isSome = true then .ok db
    else if run.expired now = true then .ok (expireRun db r.queryID run)
    else
      let before := db.targets r.queryID
      if before.any (fun target => target.hostID == r.hostID && target.status == .pending) = false then
        .ok db
      else
        let targets := before.map (recordTarget r now)
        let db := { db with targets := Function.update db.targets r.queryID targets }
        if targets.any (fun target => target.status == .pending) = true then .ok db
        else do
          let completed ← run.complete now
          return db.setRun r.queryID completed

/-- The tables after the call, the snapshots in host order, and whether the run is over. -/
def snapshots (db : Db) (queryID : Int) (now : Int) : Except Fault (Db × List TargetRow × Bool) :=
  match db.runs.row queryID with
  | none => .error .notFound
  | some run =>
    let expires := run.completedAt.isNone && run.expired now
    let db := if expires = true then expireRun db queryID run else db
    .ok (db, (db.targets queryID).mergeSort (fun a b => decide (a.hostID ≤ b.hostID)),
      run.completedAt.isSome || expires)

inductive Event where
  | start (sql : String) (targets : List Target)
  | record (result : Result)
  | stop (queryID : Int)
  | snapshots (queryID : Int)
  deriving DecidableEq, Repr

/-- A failed transaction leaves the tables. -/
def apply (db : Db) (now : Int) : Event → Db
  | .start sql targets => (LiveQueries.start db sql targets now).1
  | .record result => ((recordResult db result now).toOption).getD db
  | .stop queryID => ((LiveQueries.stop db queryID now).toOption).getD db
  | .snapshots queryID => (((LiveQueries.snapshots db queryID now).toOption).map Prod.fst).getD db

/-- A transaction that started at `startedAt`, or time passing. -/
inductive Move where
  | transaction (startedAt : Int) (e : Event)
  | tick (d : Nat)
  deriving DecidableEq, Repr

/-- `arrived` are the results for a target that found its run neither completed nor
expired, in order. -/
structure World where
  db : Db := {}
  now : Int := 0
  arrived : Int → Int → List Result := fun _ _ => []

/-- The result reaches a target of a run that still runs. -/
def accepts (db : Db) (now : Int) (r : Result) : Bool :=
  (db.runs.row r.queryID).any (fun run => run.completedAt.isNone && !run.expired now) &&
    (db.targets r.queryID).any (fun target => target.hostID == r.hostID) &&
    (recordResult db r now).toOption.isSome

def arrivals (db : Db) (now : Int) (id hostID : Int) : Event → List Result
  | .record r => if accepts db now r = true ∧ r.queryID = id ∧ r.hostID = hostID then [r] else []
  | _ => []

def step (w : World) : Move → World
  | .transaction startedAt e =>
    if startedAt ≤ w.now then
      { w with
        db := apply w.db startedAt e
        arrived := fun id hostID => w.arrived id hostID ++ arrivals w.db startedAt id hostID e }
    else w
  | .tick d => { w with now := w.now + d }

/-- The run and its targets before and after a transaction. -/
inductive Change (db : Db) (id now : Int) (e : Event) (db' : Db) : Prop
  | same (hrow : db'.runs.row id = db.runs.row id) (htargets : db'.targets id = db.targets id)
      (hquiet : ∀ r, e = .record r → r.queryID = id → accepts db now r = true →
        ∀ target ∈ db.targets id, target.hostID = r.hostID → target.status ≠ .pending)
  | purged (hrow : db'.runs.row id = none) (htargets : db'.targets id = [])
      (hold : ∀ run, db.runs.row id = some run →
        run.completedAt.getD run.deadlineAt < now - completedRetention)
      (hstart : ∀ r, e ≠ .record r)
  | created (sql : String) (rows : List TargetRow) (hnew : id = db.runs.next)
      (hrow : db'.runs.row id = some (newRun sql now rows.isEmpty)) (htargets : db'.targets id = rows)
      (hnodup : (rows.map TargetRow.hostID).Nodup)
      (hrows : ∀ target ∈ rows, target.status = .pending ∧ target.rows = [] ∧ target.error = "")
      (hstart : ∀ r, e ≠ .record r)
  | stopped (run run' : RunRow) (t : Int) (hrun : db.runs.row id = some run)
      (hopen : run.completedAt = none) (hrow : db'.runs.row id = some run')
      (hstarted : run'.startedAt = run.startedAt) (hcompleted : run'.completedAt.isSome = true)
      (htargets : db'.targets id = (db.targets id).map (stopTarget t))
      (hquiet : ∀ r, e = .record r → accepts db now r = false)
  | recorded (r : Result) (run run' : RunRow) (he : e = .record r) (hid : r.queryID = id)
      (haccepts : accepts db now r = true) (hrun : db.runs.row id = some run)
      (hopen : run.completedAt = none) (hrow : db'.runs.row id = some run')
      (hstarted : run'.startedAt = run.startedAt)
      (htargets : db'.targets id = (db.targets id).map (recordTarget r now))
      (hcompleted : run'.completedAt.isSome = true ↔
        ∀ target ∈ db'.targets id, target.status ≠ .pending)

section

variable {db : Db} {id now : Int}

theorem row_eraseAll (t : Table RunRow) (ids : List Int) :
    (ids.foldl Table.erase t).row id = if id ∈ ids then none else t.row id := by
  induction ids generalizing t with
  | nil => simp
  | cons a as ih =>
    rw [List.foldl_cons, ih, Table.row_erase]
    by_cases ha : id = a <;> simp [ha]

theorem used_eraseAll (t : Table RunRow) (ids : List Int) : (ids.foldl Table.erase t).used = t.used := by
  induction ids generalizing t with
  | nil => rfl
  | cons a as ih => rw [List.foldl_cons, ih, Table.used_erase]

/-- The retention removes a run together with its targets. -/
theorem purge_cases (db : Db) (now id : Int) :
    ((db.purge now).runs.row id = db.runs.row id ∧ (db.purge now).targets id = db.targets id) ∨
      ((db.purge now).runs.row id = none ∧ (db.purge now).targets id = [] ∧
        ∀ run, db.runs.row id = some run →
          run.completedAt.getD run.deadlineAt < now - completedRetention) := by
  unfold Db.purge
  simp only [row_eraseAll, List.mem_filter, KeyedRows.Table.mem_ids]
  by_cases hold : (db.runs.row id).any
      (fun run => decide (run.completedAt.getD run.deadlineAt < now - completedRetention)) = true
  · right
    obtain ⟨run, hrun, hlt⟩ := (Option.any_eq_true _ _).mp hold
    have hmem : (db.runs.row id).isSome = true := by simp [hrun]
    refine ⟨by simp [hold, hmem], by simp [hold], fun run' hrun' => ?_⟩
    obtain rfl : run' = run := Option.some.inj (hrun'.symm.trans hrun)
    exact of_decide_eq_true hlt
  · left
    simp [hold]

theorem used_purge (db : Db) (now : Int) : (db.purge now).runs.used = db.runs.used :=
  used_eraseAll _ _

theorem distinctTargets_nodup (targets : List Target) :
    ((distinctTargets targets).map Target.hostID).Nodup := by
  unfold distinctTargets
  suffices h : ∀ acc : List Target, (acc.map Target.hostID).Nodup →
      ((targets.foldl (fun byID target => byID.filter (fun t => t.hostID != target.hostID) ++ [target])
        acc).map Target.hostID).Nodup from h [] List.nodup_nil
  induction targets with
  | nil => exact fun acc h => h
  | cons target targets ih =>
    intro acc h
    apply ih
    rw [List.map_append, List.nodup_append]
    refine ⟨(List.filter_sublist.map _).nodup h, by simp, ?_⟩
    intro a ha b hb
    obtain ⟨t, ht, rfl⟩ := List.mem_map.mp ha
    obtain rfl : b = target.hostID := by simpa using hb
    simpa using (List.mem_filter.mp ht).2

theorem change_start (db : Db) (id now : Int) (sql : String) (targets : List Target) :
    Change db id now (.start sql targets) (start db sql targets now).1 := by
  by_cases hid : id = db.runs.next
  · have hnext : (db.purge now).runs.next = db.runs.next := by
      simp only [KeyedRows.Table.next, used_purge]
    refine .created sql ((distinctTargets targets).map (fun target =>
      { hostID := target.hostID, hostName := target.hostName, updatedAt := now })) hid ?_ ?_ ?_ ?_ nofun
    · simp [start, KeyedRows.Table.row_insert, hid, hnext]
    · simp [start, hid, hnext]
    · simpa [List.map_map, Function.comp_def] using distinctTargets_nodup targets
    · intro target ht
      obtain ⟨t, -, rfl⟩ := List.mem_map.mp ht
      exact ⟨rfl, rfl, rfl⟩
  · have hnext : ¬id = (db.purge now).runs.next := by
      simpa only [KeyedRows.Table.next, used_purge] using hid
    have hrow : (start db sql targets now).1.runs.row id = (db.purge now).runs.row id := by
      simp [start, KeyedRows.Table.row_insert, hnext]
    have htargets : (start db sql targets now).1.targets id = (db.purge now).targets id := by
      simp [start, Function.update_of_ne hnext]
    rcases purge_cases db now id with ⟨hr, ht⟩ | ⟨hr, ht, hold⟩
    · exact .same (hrow.trans hr) (htargets.trans ht) nofun
    · exact .purged (hrow.trans hr) (htargets.trans ht) hold nofun

theorem setRun_stopTargets {t : Int} {queryID : Int} {run run' : RunRow}
    (hrun : db.runs.row queryID = some run) :
    ((db.stopTargets queryID t).setRun queryID run').runs.row id =
        (if id = queryID then some run' else db.runs.row id) ∧
      ((db.stopTargets queryID t).setRun queryID run').targets id =
        (if id = queryID then (db.targets id).map (stopTarget t) else db.targets id) := by
  simp only [Db.setRun, Db.stopTargets, KeyedRows.Table.row_modify]
  by_cases hid : id = queryID
  · subst hid
    simp [hrun]
  · simp [hid]

/-- A completed run is not changed, nor are other runs. -/
theorem change_stopped {t : Int} {queryID : Int} {run run' : RunRow} {e : Event}
    (hrun : db.runs.row queryID = some run) (hopen : run.completedAt = none)
    (hstarted : run'.startedAt = run.startedAt) (hcompleted : run'.completedAt.isSome = true)
    (hquiet : ∀ r, e = .record r → r.queryID = queryID ∧ accepts db now r = false) :
    Change db id now e ((db.stopTargets queryID t).setRun queryID run') := by
  obtain ⟨hrow, htargets⟩ := @setRun_stopTargets db id t queryID run run' hrun
  by_cases hid : id = queryID
  · rw [if_pos hid] at hrow htargets
    exact .stopped run run' t (hid ▸ hrun) hopen hrow hstarted hcompleted htargets
      (fun r he => (hquiet r he).2)
  · rw [if_neg hid] at hrow htargets
    exact .same hrow htargets (fun r he hr => absurd (hr.symm.trans (hquiet r he).1) hid)

theorem change_unchanged {e : Event} (h : ∀ r, e = .record r → accepts db now r = false) :
    Change db id now e db :=
  .same rfl rfl (fun r he _ ha => absurd ha (by simp [h r he]))

theorem complete_ok {run run' : RunRow} {t : Int} (h : run.complete t = .ok run') :
    run'.startedAt = run.startedAt ∧ run'.completedAt = some t := by
  unfold RunRow.complete at h
  split_ifs at h
  cases h
  exact ⟨rfl, rfl⟩

theorem change_stop (db : Db) (id now queryID : Int) :
    Change db id now (.stop queryID) (((stop db queryID now).toOption).getD db) := by
  unfold stop
  cases hrun : db.runs.row queryID with
  | none => exact change_unchanged nofun
  | some run =>
    by_cases hopen : run.completedAt.isSome = true
    · simp only [hopen, if_true]
      exact change_unchanged nofun
    · simp only [if_neg hopen]
      cases hc : run.complete now with
      | error e => exact change_unchanged nofun
      | ok run' =>
        obtain ⟨hs, ht⟩ := complete_ok hc
        exact change_stopped hrun (by simpa using hopen) hs (by simp [ht]) nofun

theorem change_snapshots (db : Db) (id now queryID : Int) : Change db id now (.snapshots queryID)
    ((((snapshots db queryID now).toOption).map Prod.fst).getD db) := by
  unfold snapshots
  cases hrun : db.runs.row queryID with
  | none => exact change_unchanged nofun
  | some run =>
    by_cases he : (run.completedAt.isNone && run.expired now) = true
    · simp only [he, if_true]
      simp only [Bool.and_eq_true, Option.isNone_iff_eq_none] at he
      exact change_stopped hrun he.1 rfl rfl nofun
    · simp only [he]
      exact change_unchanged nofun

/-- The targets after a stored result. -/
def Db.recordTargets (db : Db) (r : Result) (now : Int) : Db :=
  { db with
    targets := Function.update db.targets r.queryID ((db.targets r.queryID).map (recordTarget r now)) }

/-- What RecordResult does for a target of a running run. -/
theorem recordResult_running {r : Result} {run : RunRow} (hrun : db.runs.row r.queryID = some run)
    (hopen : ¬run.completedAt.isSome = true) (hexpired : ¬run.expired now = true)
    (hpending : ¬(db.targets r.queryID).any
      (fun target => target.hostID == r.hostID && target.status == .pending) = false) :
    recordResult db r now =
      if ((db.targets r.queryID).map (recordTarget r now)).any (fun target => target.status == .pending) =
          true then .ok (db.recordTargets r now)
      else (run.complete now).bind
        (fun completed => .ok ((db.recordTargets r now).setRun r.queryID completed)) := by
  unfold recordResult
  simp only [hrun, if_neg hopen, if_neg hexpired, if_neg hpending]
  rfl

theorem change_recorded {r : Result} {run : RunRow} (hrun : db.runs.row r.queryID = some run)
    (hopen : ¬run.completedAt.isSome = true) (hexpired : ¬run.expired now = true)
    (hpending : ¬(db.targets r.queryID).any
      (fun target => target.hostID == r.hostID && target.status == .pending) = false) :
    Change db id now (.record r) (((recordResult db r now).toOption).getD db) := by
  have hnone : run.completedAt = none := by simpa using hopen
  have hrunning : run.expired now = false := by simpa using hexpired
  have hany : (db.targets r.queryID).any (fun target => target.hostID == r.hostID) = true := by
    rw [Bool.not_eq_false, List.any_eq_true] at hpending
    obtain ⟨target, ht, hp⟩ := hpending
    rw [Bool.and_eq_true] at hp
    exact List.any_eq_true.mpr ⟨target, ht, hp.1⟩
  have haccepts : accepts db now r = (recordResult db r now).toOption.isSome := by
    simp [accepts, hrun, hnone, hrunning, hany]
  have heq := recordResult_running hrun hopen hexpired hpending
  by_cases hid : r.queryID = id
  · subst hid
    by_cases hleft : ((db.targets r.queryID).map (recordTarget r now)).any
        (fun target => target.status == .pending) = true
    · rw [if_pos hleft] at heq
      rw [heq] at haccepts ⊢
      refine .recorded r run run rfl rfl haccepts hrun hnone hrun rfl (Function.update_self ..) ?_
      rw [hnone]
      refine iff_of_false nofun (fun hall => ?_)
      obtain ⟨target, ht, hp⟩ := List.any_eq_true.mp hleft
      refine hall target ?_ (by simpa using hp)
      simpa [Except.toOption, Db.recordTargets] using ht
    · rw [if_neg hleft] at heq
      cases hc : run.complete now with
      | error e =>
        rw [hc] at heq
        change recordResult db r now = .error e at heq
        rw [heq] at haccepts ⊢
        apply change_unchanged
        rintro _ ⟨⟩
        exact haccepts
      | ok run' =>
        rw [hc] at heq
        change recordResult db r now = .ok _ at heq
        rw [heq] at haccepts ⊢
        obtain ⟨hs, ht⟩ := complete_ok hc
        refine .recorded r run run' rfl rfl haccepts hrun hnone ?_ hs (Function.update_self ..) ?_
        · simp [Except.toOption, Db.setRun, Db.recordTargets, KeyedRows.Table.row_modify, hrun]
        · apply iff_of_true
          · rw [ht]
            rfl
          · intro target hmem hp
            apply hleft
            refine List.any_eq_true.mpr ⟨target, ?_, by simp [hp]⟩
            simpa [Except.toOption, Db.setRun, Db.recordTargets] using hmem
  · have hne : ¬id = r.queryID := fun h => hid h.symm
    rw [heq]
    split_ifs
    · exact .same rfl (Function.update_of_ne hne _ _) (fun r' he hr => by cases he; exact absurd hr hid)
    · cases run.complete now with
      | error e => exact .same rfl rfl (fun r' he hr => by cases he; exact absurd hr hid)
      | ok run' =>
        refine .same ?_ (Function.update_of_ne hne _ _) (fun r' he hr => by cases he; exact absurd hr hid)
        simp [Except.bind, Except.toOption, Db.setRun, Db.recordTargets, KeyedRows.Table.row_modify, hne]

/-- A result that meets a pending target of a running run is stored, unless the run
would end before it started. -/
theorem change_record (db : Db) (id now : Int) (r : Result) :
    Change db id now (.record r) (((recordResult db r now).toOption).getD db) := by
  cases hrun : db.runs.row r.queryID with
  | none =>
    simp only [recordResult, hrun]
    apply change_unchanged
    rintro _ ⟨⟩
    simp [accepts, hrun]
  | some run =>
    have hno : run.completedAt.isSome = true ∨ run.expired now = true →
        ∀ r', Event.record r = .record r' → r'.queryID = r.queryID ∧ accepts db now r' = false := by
      rintro hover _ ⟨⟩
      refine ⟨rfl, ?_⟩
      rcases hover with hover | hover
      · obtain ⟨t, ht⟩ := Option.isSome_iff_exists.mp hover
        simp [accepts, hrun, ht]
      · simp [accepts, hrun, hover]
    by_cases hdone : run.completedAt.isSome = true
    · simp only [recordResult, hrun, hdone, if_true]
      exact change_unchanged (fun r' he => (hno (.inl hdone) r' he).2)
    by_cases hexpired : run.expired now = true
    · simp only [recordResult, hrun, if_neg hdone, hexpired, if_true]
      exact change_stopped hrun (by simpa using hdone) rfl rfl (hno (.inr hexpired))
    by_cases hnone : (db.targets r.queryID).any
        (fun target => target.hostID == r.hostID && target.status == .pending) = false
    · simp only [recordResult, hrun, if_neg hdone, if_neg hexpired, if_pos hnone]
      apply Change.same rfl rfl
      rintro _ ⟨⟩ hid - target ht hhost hpending
      rw [List.any_eq_false] at hnone
      have := hnone target (hid ▸ ht)
      simp [hhost, hpending] at this
    · exact change_recorded hrun hdone hexpired hnone

/-- What a transaction can do to a run. -/
theorem change_apply (db : Db) (id now : Int) (e : Event) : Change db id now e (apply db now e) := by
  cases e with
  | start sql targets => exact change_start db id now sql targets
  | record r => exact change_record db id now r
  | stop queryID => exact change_stop db id now queryID
  | snapshots queryID => exact change_snapshots db id now queryID

theorem used_stop (db : Db) (queryID now : Int) :
    (((stop db queryID now).toOption).getD db).runs.used = db.runs.used := by
  unfold stop
  cases db.runs.row queryID with
  | none => rfl
  | some run =>
    by_cases hopen : run.completedAt.isSome = true
    · simp only [hopen, if_true]
      rfl
    · simp only [if_neg hopen]
      cases run.complete now <;> rfl

theorem used_recordResult (db : Db) (r : Result) (now : Int) :
    (((recordResult db r now).toOption).getD db).runs.used = db.runs.used := by
  cases hrun : db.runs.row r.queryID with
  | none => simp only [recordResult, hrun]; rfl
  | some run =>
    by_cases hdone : run.completedAt.isSome = true
    · simp only [recordResult, hrun, hdone, if_true]
      rfl
    by_cases hexpired : run.expired now = true
    · simp only [recordResult, hrun, if_neg hdone, hexpired, if_true]
      rfl
    by_cases hnone : (db.targets r.queryID).any
        (fun target => target.hostID == r.hostID && target.status == .pending) = false
    · simp only [recordResult, hrun, if_neg hdone, if_neg hexpired, if_pos hnone]
      rfl
    · rw [recordResult_running hrun hdone hexpired hnone]
      split_ifs
      · rfl
      · cases run.complete now <;> rfl

theorem used_snapshots (db : Db) (queryID now : Int) :
    ((((snapshots db queryID now).toOption).map Prod.fst).getD db).runs.used = db.runs.used := by
  unfold snapshots
  cases db.runs.row queryID with
  | none => rfl
  | some run =>
    by_cases he : (run.completedAt.isNone && run.expired now) = true
    · simp only [he, if_true]
      rfl
    · simp only [he]
      rfl

/-- Only Start draws a number, also where the retention empties the tables. -/
theorem used_apply (db : Db) (now : Int) (e : Event) : db.runs.used ≤ (apply db now e).runs.used := by
  cases e with
  | start sql targets =>
    change db.runs.used ≤ (db.purge now).runs.used + 1
    rw [used_purge]
    omega
  | record r => exact (used_recordResult db r now).ge
  | stop queryID => exact (used_stop db queryID now).ge
  | snapshots queryID => exact (used_snapshots db queryID now).ge

end

/-- A target's columns are those of the first result that arrived, if any did. -/
def Answered (arrived : List Result) (target : TargetRow) : Prop :=
  match target.status with
  | .pending | .stopped => arrived = [] ∧ target.rows = [] ∧ target.error = ""
  | .collected => ∃ r rest, arrived = r :: rest ∧ r.status = .collected ∧
      target.rows = r.normalizeRows ∧ target.error = r.error
  | .error => ∃ r rest, arrived = r :: rest ∧ r.status = .error ∧
      target.rows = r.normalizeRows ∧ target.error = r.error

structure Settled (w : World) : Prop where
  completed_iff : ∀ id run, w.db.runs.row id = some run →
    (run.completedAt.isSome = true ↔ ∀ target ∈ w.db.targets id, target.status ≠ .pending)
  hosts_nodup : ∀ id, ((w.db.targets id).map TargetRow.hostID).Nodup
  answered : ∀ id, ∀ target ∈ w.db.targets id, Answered (w.arrived id target.hostID) target
  stopped : ∀ id run, w.db.runs.row id = some run → ∀ target ∈ w.db.targets id,
    target.status = .stopped → run.completedAt.isSome = true
  numbered : ∀ id hostID, w.arrived id hostID ≠ [] → id ≤ w.db.runs.used

/-- What a later state has of the runs: all of a completed run, and every target that
left pending, until the retention removes the run more than a minute after. -/
structure Later (w w' : World) : Prop where
  now_le : w.now ≤ w'.now
  used_le : w.db.runs.used ≤ w'.db.runs.used
  removed : ∀ id ≤ (w.db.runs.used : Int), w.db.runs.row id = none → w.db.targets id = [] →
    w'.db.runs.row id = none ∧ w'.db.targets id = []
  kept : ∀ id run, w.db.runs.row id = some run →
    (w'.db.runs.row id = none ∧ w'.db.targets id = [] ∧
      run.completedAt.getD run.startedAt + completedRetention < w'.now) ∨
    ∃ run', w'.db.runs.row id = some run' ∧ run'.startedAt = run.startedAt ∧
      (run.completedAt.isSome = true → run' = run ∧ w'.db.targets id = w.db.targets id) ∧
      ∀ target ∈ w.db.targets id, target.status ≠ .pending → target ∈ w'.db.targets id

section

variable {w w' : World}

theorem stopTarget_of_ne {t : Int} {target : TargetRow} (h : target.status ≠ .pending) :
    stopTarget t target = target :=
  if_neg h

theorem recordTarget_of_ne {r : Result} {now : Int} {target : TargetRow}
    (h : target.status ≠ .pending) : recordTarget r now target = target :=
  if_neg (fun hand => h hand.2)

theorem hostID_stopTarget (t : Int) (target : TargetRow) :
    (stopTarget t target).hostID = target.hostID := by
  unfold stopTarget
  split_ifs <;> rfl

theorem hostID_recordTarget (r : Result) (now : Int) (target : TargetRow) :
    (recordTarget r now target).hostID = target.hostID := by
  unfold recordTarget
  split_ifs <;> rfl

theorem status_stopTarget (t : Int) (target : TargetRow) :
    (stopTarget t target).status ≠ .pending := by
  unfold stopTarget
  split_ifs with h
  · exact nofun
  · exact h

theorem answered_append {arrived rs : List Result} {target : TargetRow} (h : Answered arrived target)
    (hpending : target.status ≠ .pending) (hstopped : target.status ≠ .stopped) :
    Answered (arrived ++ rs) target := by
  unfold Answered at h ⊢
  cases hs : target.status with
  | pending => exact absurd hs hpending
  | stopped => exact absurd hs hstopped
  | collected =>
    rw [hs] at h
    obtain ⟨r, rest, rfl, hrest⟩ := h
    exact ⟨r, rest ++ rs, rfl, hrest⟩
  | error =>
    rw [hs] at h
    obtain ⟨r, rest, rfl, hrest⟩ := h
    exact ⟨r, rest ++ rs, rfl, hrest⟩

theorem answered_pending {arrived : List Result} {target : TargetRow} (h : Answered arrived target)
    (hpending : target.status = .pending) : arrived = [] ∧ target.rows = [] ∧ target.error = "" := by
  unfold Answered at h
  rwa [hpending] at h

theorem answered_stopTarget {arrived : List Result} {target : TargetRow} (t : Int)
    (h : Answered arrived target) : Answered arrived (stopTarget t target) := by
  by_cases hp : target.status = .pending
  · rw [stopTarget, if_pos hp]
    have hempty := answered_pending h hp
    exact hempty
  · rwa [stopTarget_of_ne hp]

/-- A pending target of the host takes the result; it is the first that arrived. -/
theorem answered_recordTarget {arrived : List Result} {target : TargetRow} {r : Result} {now : Int}
    (h : Answered arrived target) (hhost : target.hostID = r.hostID)
    (hstopped : target.status ≠ .stopped) : Answered (arrived ++ [r]) (recordTarget r now target) := by
  by_cases hp : target.status = .pending
  · rw [recordTarget, if_pos ⟨hhost, hp⟩, (answered_pending h hp).1]
    unfold Answered
    cases hs : r.status with
    | collected => exact ⟨r, [], rfl, hs, rfl, rfl⟩
    | error => exact ⟨r, [], rfl, hs, rfl, rfl⟩
  · rw [recordTarget_of_ne hp]
    exact answered_append h hp hstopped

theorem arrivals_of_not {db : Db} {now id hostID : Int} {e : Event}
    (h : ∀ r, e = .record r → r.queryID = id → r.hostID = hostID → accepts db now r = false) :
    arrivals db now id hostID e = [] := by
  cases e with
  | record r =>
    apply if_neg
    rintro ⟨ha, hid, hhost⟩
    simp [h r rfl hid hhost] at ha
  | start | stop | snapshots => rfl

theorem running_of_accepts {db : Db} {now : Int} {r : Result} (h : accepts db now r = true) :
    ∃ run, db.runs.row r.queryID = some run ∧ run.completedAt = none := by
  simp only [accepts, Bool.and_eq_true, Option.any_eq_true, Option.isNone_iff_eq_none] at h
  obtain ⟨⟨⟨run, hrun, hopen, -⟩, -⟩, -⟩ := h
  exact ⟨run, hrun, hopen⟩

theorem not_stopped_of_accepts (hw : Settled w) {now : Int} {r : Result}
    (h : accepts w.db now r = true) {target : TargetRow} (ht : target ∈ w.db.targets r.queryID) :
    target.status ≠ .stopped := by
  obtain ⟨run, hrun, hopen⟩ := running_of_accepts h
  intro hs
  have := hw.stopped _ run hrun target ht hs
  simp [hopen] at this

theorem completed_iff_apply (hw : Settled w) (now : Int) (e : Event) (id : Int) (run' : RunRow)
    (hrun' : (apply w.db now e).runs.row id = some run') :
    run'.completedAt.isSome = true ↔
      ∀ target ∈ (apply w.db now e).targets id, target.status ≠ .pending := by
  cases change_apply w.db id now e with
  | same hrow htargets =>
    rw [htargets]
    exact hw.completed_iff id run' (hrow.symm.trans hrun')
  | purged hrow => exact absurd (hrow.symm.trans hrun') nofun
  | created sql rows hnew hrow htargets hnodup hrows =>
    obtain rfl := Option.some.inj (hrun'.symm.trans hrow)
    rw [htargets]
    cases rows with
    | nil => simp [newRun]
    | cons target rows =>
      refine iff_of_false nofun (fun hall => ?_)
      exact hall target List.mem_cons_self (hrows target List.mem_cons_self).1
  | stopped run run'' t hrun hopen hrow hstarted hcompleted htargets =>
    obtain rfl := Option.some.inj (hrun'.symm.trans hrow)
    refine iff_of_true hcompleted (fun target ht => ?_)
    rw [htargets] at ht
    obtain ⟨before, -, rfl⟩ := List.mem_map.mp ht
    exact status_stopTarget t before
  | recorded r run run'' he hid ha hrun hopen hrow hstarted htargets hcompleted =>
    obtain rfl := Option.some.inj (hrun'.symm.trans hrow)
    exact hcompleted

theorem hosts_nodup_apply (hw : Settled w) (now : Int) (e : Event) (id : Int) :
    (((apply w.db now e).targets id).map TargetRow.hostID).Nodup := by
  cases change_apply w.db id now e with
  | same hrow htargets =>
    rw [htargets]
    exact hw.hosts_nodup id
  | purged hrow htargets =>
    rw [htargets]
    exact List.nodup_nil
  | created sql rows hnew hrow htargets hnodup =>
    rw [htargets]
    exact hnodup
  | stopped run run' t hrun hopen hrow hstarted hcompleted htargets =>
    rw [htargets, List.map_map]
    simpa [Function.comp_def, hostID_stopTarget] using hw.hosts_nodup id
  | recorded r run run' he hid ha hrun hopen hrow hstarted htargets =>
    rw [htargets, List.map_map]
    simpa [Function.comp_def, hostID_recordTarget] using hw.hosts_nodup id

theorem answered_apply (hw : Settled w) (now : Int) (e : Event) (id : Int) (target : TargetRow)
    (ht : target ∈ (apply w.db now e).targets id) :
    Answered (w.arrived id target.hostID ++ arrivals w.db now id target.hostID e) target := by
  cases change_apply w.db id now e with
  | same hrow htargets hquiet =>
    rw [htargets] at ht
    have hold := hw.answered id target ht
    by_cases harr : ∃ r, e = .record r ∧ r.queryID = id ∧ r.hostID = target.hostID ∧
        accepts w.db now r = true
    · -- a later result for a host that has answered
      obtain ⟨r, he, rfl, hhost, ha⟩ := harr
      exact answered_append hold (hquiet r he rfl ha target ht hhost.symm)
        (not_stopped_of_accepts hw ha ht)
    · rw [arrivals_of_not, List.append_nil]
      · exact hold
      · intro r he hid hhost
        by_contra ha
        exact harr ⟨r, he, hid, hhost, by simpa using ha⟩
  | purged hrow htargets =>
    rw [htargets] at ht
    cases ht
  | created sql rows hnew hrow htargets hnodup hrows hstart =>
    rw [htargets] at ht
    obtain ⟨hs, hr, he⟩ := hrows target ht
    have harrived : w.arrived id target.hostID = [] := by
      by_contra hne
      have := hw.numbered id target.hostID hne
      rw [hnew, KeyedRows.Table.next] at this
      omega
    rw [harrived, arrivals_of_not (fun r he => absurd he (hstart r))]
    simp [Answered, hs, hr, he]
  | stopped run run' t hrun hopen hrow hstarted hcompleted htargets hquiet =>
    rw [htargets] at ht
    obtain ⟨before, hbefore, rfl⟩ := List.mem_map.mp ht
    rw [arrivals_of_not (fun r he _ _ => hquiet r he), List.append_nil, hostID_stopTarget]
    exact answered_stopTarget t (hw.answered id before hbefore)
  | recorded r run run' he hid ha hrun hopen hrow hstarted htargets =>
    subst he hid
    rw [htargets] at ht
    obtain ⟨before, hbefore, rfl⟩ := List.mem_map.mp ht
    have hold := hw.answered r.queryID before hbefore
    rw [hostID_recordTarget]
    by_cases hhost : before.hostID = r.hostID
    · rw [arrivals, if_pos ⟨ha, rfl, hhost.symm⟩]
      exact answered_recordTarget hold hhost (not_stopped_of_accepts hw ha hbefore)
    · rw [arrivals, if_neg (fun hand => hhost hand.2.2.symm), List.append_nil, recordTarget,
        if_neg (fun hand => hhost hand.1)]
      exact hold

theorem stopped_apply (hw : Settled w) (now : Int) (e : Event) (id : Int) (run' : RunRow)
    (hrun' : (apply w.db now e).runs.row id = some run') (target : TargetRow)
    (ht : target ∈ (apply w.db now e).targets id) (hs : target.status = .stopped) :
    run'.completedAt.isSome = true := by
  cases change_apply w.db id now e with
  | same hrow htargets =>
    rw [htargets] at ht
    exact hw.stopped id run' (hrow.symm.trans hrun') target ht hs
  | purged hrow => exact absurd (hrow.symm.trans hrun') nofun
  | created sql rows hnew hrow htargets hnodup hrows =>
    rw [htargets] at ht
    exact absurd ((hrows target ht).1.symm.trans hs) nofun
  | stopped run run'' t hrun hopen hrow hstarted hcompleted =>
    obtain rfl := Option.some.inj (hrun'.symm.trans hrow)
    exact hcompleted
  | recorded r run run'' he hid ha hrun hopen hrow hstarted htargets =>
    subst he hid
    rw [htargets] at ht
    obtain ⟨before, hbefore, rfl⟩ := List.mem_map.mp ht
    have hne := not_stopped_of_accepts hw ha hbefore
    unfold recordTarget at hs
    by_cases hc : before.hostID = r.hostID ∧ before.status = .pending
    · rw [if_pos hc] at hs
      cases hr : r.status <;> simp [hr, ResultStatus.status] at hs
    · rw [if_neg hc] at hs
      exact absurd hs hne

theorem settled_step (hw : Settled w) (m : Move) : Settled (step w m) := by
  cases m with
  | tick d => exact ⟨hw.completed_iff, hw.hosts_nodup, hw.answered, hw.stopped, hw.numbered⟩
  | transaction startedAt e =>
    by_cases hle : startedAt ≤ w.now
    swap
    · simpa only [step, if_neg hle] using hw
    simp only [step, if_pos hle]
    refine ⟨completed_iff_apply hw _ _, hosts_nodup_apply hw _ _, answered_apply hw _ _,
      stopped_apply hw _ _, fun id hostID hne => ?_⟩
    have hused := used_apply w.db startedAt e
    by_cases hold : w.arrived id hostID = []
    · have hid : id ≤ w.db.runs.used := by
        by_contra hlt
        apply hne
        change w.arrived id hostID ++ arrivals w.db startedAt id hostID e = []
        rw [hold, arrivals_of_not, List.nil_append]
        intro r he hid hhost
        by_contra ha
        obtain ⟨run, hrun, -⟩ := running_of_accepts (by simpa using ha)
        exact hlt (hid ▸ (w.db.runs.numbered r.queryID (by simp [hrun])).2)
      change id ≤ ((apply w.db startedAt e).runs.used : Int)
      omega
    · have hid := hw.numbered id hostID hold
      change id ≤ ((apply w.db startedAt e).runs.used : Int)
      omega

theorem settled_init : Settled {} where
  completed_iff := nofun
  hosts_nodup := fun _ => List.nodup_nil
  answered := nofun
  stopped := nofun
  numbered := fun _ _ h => absurd rfl h

theorem later_refl (w : World) : Later w w where
  now_le := Int.le_refl _
  used_le := Nat.le_refl _
  removed := fun _ _ hr ht => ⟨hr, ht⟩
  kept := fun _ run hrun => .inr ⟨run, hrun, rfl, fun _ => ⟨rfl, rfl⟩, fun _ ht _ => ht⟩

theorem later_trans {w₁ w₂ w₃ : World} (h : Later w₁ w₂) (h' : Later w₂ w₃) : Later w₁ w₃ where
  now_le := h.now_le.trans h'.now_le
  used_le := h.used_le.trans h'.used_le
  removed := by
    intro id hid hr ht
    have hle := h.used_le
    obtain ⟨hr₂, ht₂⟩ := h.removed id hid hr ht
    exact h'.removed id (by omega) hr₂ ht₂
  kept := by
    intro id run hrun
    have hid : id ≤ w₁.db.runs.used := (w₁.db.runs.numbered id (by simp [hrun])).2
    have hle := h.used_le
    have hnow := h'.now_le
    rcases h.kept id run hrun with ⟨hr, ht, hold⟩ | ⟨run₂, hr, hs, hcompleted, hleft⟩
    · obtain ⟨hr₃, ht₃⟩ := h'.removed id (by omega) hr ht
      exact .inl ⟨hr₃, ht₃, by omega⟩
    rcases h'.kept id run₂ hr with ⟨hr₃, ht₃, hold⟩ | ⟨run₃, hr₃, hs₃, hcompleted₃, hleft₃⟩
    · refine .inl ⟨hr₃, ht₃, ?_⟩
      cases hc : run.completedAt with
      | some t =>
        obtain ⟨rfl, -⟩ := hcompleted (by simp [hc])
        simpa [hc] using hold
      | none =>
        cases hc₂ : run₂.completedAt with
        | none => simpa [hc₂, hs] using hold
        | some t =>
          have hcheck := run₂.completed_check t hc₂
          rw [hc₂, Option.getD_some] at hold
          rw [Option.getD_none]
          omega
    · refine .inr ⟨run₃, hr₃, hs₃.trans hs, fun hc => ?_, fun target ht hne => ?_⟩
      · obtain ⟨rfl, ht₂⟩ := hcompleted hc
        obtain ⟨hrun₃, ht₃⟩ := hcompleted₃ hc
        exact ⟨hrun₃, ht₃.trans ht₂⟩
      · exact hleft₃ target (hleft target ht hne) hne

theorem later_step (w : World) (m : Move) : Later w (step w m) := by
  cases m with
  | tick d =>
    refine ⟨?_, Nat.le_refl _, (later_refl w).removed, fun id run hrun => ?_⟩
    · simp only [step]
      omega
    · exact .inr ⟨run, hrun, rfl, fun _ => ⟨rfl, rfl⟩, fun _ ht _ => ht⟩
  | transaction startedAt e =>
    by_cases hle : startedAt ≤ w.now
    swap
    · simp only [step, if_neg hle]
      exact later_refl w
    simp only [step, if_pos hle]
    refine ⟨Int.le_refl _, used_apply .., fun id hid hr ht => ?_, fun id run hrun => ?_⟩
    · cases change_apply w.db id startedAt e with
      | same hrow htargets => exact ⟨hrow.trans hr, htargets.trans ht⟩
      | purged hrow htargets => exact ⟨hrow, htargets⟩
      | created sql rows hnew =>
        rw [hnew, KeyedRows.Table.next] at hid
        omega
      | stopped run run' t hrun => exact absurd (hr.symm.trans hrun) nofun
      | recorded r run run' he hid' ha hrun => exact absurd (hr.symm.trans hrun) nofun
    · cases change_apply w.db id startedAt e with
      | same hrow htargets =>
        refine .inr ⟨run, hrow.trans hrun, rfl, fun _ => ⟨rfl, htargets⟩, fun target ht _ => ?_⟩
        exact htargets ▸ ht
      | purged hrow htargets hold =>
        refine .inl ⟨hrow, htargets, ?_⟩
        have hlt := hold run hrun
        have hdeadline := run.deadline_check
        cases hc : run.completedAt with
        | some t =>
          rw [hc, Option.getD_some] at hlt
          change t + completedRetention < w.now
          omega
        | none =>
          rw [hc, Option.getD_none] at hlt
          change run.startedAt + completedRetention < w.now
          omega
      | created sql rows hnew =>
        have := (w.db.runs.numbered id (by simp [hrun])).2
        rw [hnew, KeyedRows.Table.next] at this
        omega
      | stopped run₁ run' t hrun₁ hopen hrow hstarted hcompleted htargets =>
        obtain rfl : run₁ = run := Option.some.inj (hrun₁.symm.trans hrun)
        refine .inr ⟨run', hrow, hstarted, fun hc => by simp [hopen] at hc, fun target ht hne => ?_⟩
        rw [htargets]
        exact List.mem_map.mpr ⟨target, ht, stopTarget_of_ne hne⟩
      | recorded r run₁ run' he hid ha hrun₁ hopen hrow hstarted htargets =>
        obtain rfl : run₁ = run := Option.some.inj (hrun₁.symm.trans hrun)
        refine .inr ⟨run', hrow, hstarted, fun hc => by simp [hopen] at hc, fun target ht hne => ?_⟩
        rw [htargets]
        exact List.mem_map.mpr ⟨target, ht, recordTarget_of_ne hne⟩

theorem later_exec (w : World) (ms : List Move) : Later w (exec step w ms) := by
  induction ms generalizing w with
  | nil => exact later_refl w
  | cons m ms ih => exact later_trans (later_step w m) (ih _)

theorem mem_pendingForHost {db : Db} {hostID now : Int} {work : Work} :
    work ∈ pendingForHost db hostID now ↔
      ∃ run, db.runs.row work.queryID = some run ∧ run.query = work.sql ∧
        (∃ target ∈ db.targets work.queryID, target.hostID = hostID ∧ target.status = .pending) ∧
        run.completedAt = none ∧ now < run.deadlineAt := by
  unfold pendingForHost
  simp only [List.mem_filterMap, KeyedRows.Table.mem_ids, Option.bind_eq_some_iff]
  constructor
  · rintro ⟨id, -, run, hrun, h⟩
    split_ifs at h with hc
    obtain rfl := Option.some.inj h
    refine ⟨run, hrun, rfl, ?_, hc.2⟩
    simpa using hc.1
  · rintro ⟨run, hrun, hquery, htarget, hc⟩
    refine ⟨work.queryID, by simp [hrun], run, hrun, ?_⟩
    rw [if_pos ⟨by simpa using htarget, hc⟩, hquery]

end

/-- Every run of the store, and what any later state keeps of it. -/
theorem every_run (ms more : List Move) (hostID now : Int) (work : Work) :
    let w := exec step {} ms
    Settled w ∧ Later w (exec step w more) ∧
      (work ∈ pendingForHost w.db hostID now ↔
        ∃ run, w.db.runs.row work.queryID = some run ∧ run.query = work.sql ∧
          (∃ target ∈ w.db.targets work.queryID, target.hostID = hostID ∧ target.status = .pending) ∧
          run.completedAt = none ∧ now < run.deadlineAt) :=
  ⟨Runs.exec_invariant (P := Settled) (fun _ m h => settled_step h m) ms settled_init, later_exec _ more,
    mem_pendingForHost⟩

def hostAnswer : Result where
  queryID := 1
  hostID := 7
  hostName := "mac"
  status := .collected
  rows := some [[("version", "26.1")]]
  error := ""

/-- A minute after its completion the next Start removes a run and what its host reported. -/
theorem completed_run_removed :
    let w := exec step {} [.transaction 0 (.start "SELECT 1" [⟨7, "mac"⟩]), .transaction 0 (.record hostAnswer)]
    let w' := exec step w [.tick 60000001, .transaction 60000001 (.start "SELECT 2" [])]
    (w.db.runs.row 1).bind RunRow.completedAt = some 0 ∧
      (w.db.targets 1).map TargetRow.rows = [[[("version", "26.1")]]] ∧
      (w'.db.runs.row 1).isNone = true ∧ w'.db.targets 1 = [] := by
  decide

end LiveQueries
