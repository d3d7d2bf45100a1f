import Woodstar.LiveQueries
import Woodstar.Reorderings

/-!
# What a live result changes

RecordResult writes one run and its targets. Results of different runs commute, and a second
result for the target of a host changes nothing.
-/
namespace LiveEffects

open KeyedRows (Table)
open LiveQueries
open Reorderings (modify_eq_self modify_modify_ne table_ext)

variable {db : Db} {r r' : Result} {now hostID id : Int} {run : RunRow}

def pendingTarget (hostID : Int) (target : TargetRow) : Bool := target.hostID == hostID && target.status == .pending

def recordedTargets (r : Result) (now : Int) (before : List TargetRow) (run : RunRow) : List TargetRow :=
  if run.completedAt.isSome = true then before
  else if run.expired now = true then before.map (stopTarget run.deadlineAt)
  else before.map (recordTarget r now)

def recordedRun (r : Result) (now : Int) (before : List TargetRow) (run : RunRow) : RunRow :=
  if run.completedAt.isSome = true then run
  else if run.expired now = true then run.expire
  else if before.any (pendingTarget r.hostID) = false then run
  else if (before.map (recordTarget r now)).any (fun target => target.status == .pending) = true then run
  else (run.complete now).toOption.getD run

/-- The tables after the result. -/
def record (now : Int) (r : Result) (db : Db) : Db where
  runs := db.runs.modify r.queryID (recordedRun r now (db.targets r.queryID))
  targets := Function.update db.targets r.queryID
    (((db.runs.row r.queryID).map (recordedTargets r now (db.targets r.queryID))).getD (db.targets r.queryID))

theorem recordTarget_self {target : TargetRow} (h : pendingTarget r.hostID target = false) :
    recordTarget r now target = target := by
  rw [recordTarget]
  apply if_neg
  rintro ⟨hhost, hstatus⟩
  rw [pendingTarget, hhost, hstatus] at h
  simp at h

theorem map_recordTarget_self {before : List TargetRow} (h : before.any (pendingTarget r.hostID) = false) :
    before.map (recordTarget r now) = before := by
  rw [List.any_eq_false] at h
  calc before.map (recordTarget r now)
      = before.map (fun target => target) := List.map_congr_left fun target htarget =>
        recordTarget_self (Bool.not_eq_true _ ▸ h target htarget)
    _ = before := List.map_id' before

theorem record_none (hrow : db.runs.row r.queryID = none) : record now r db = db := by
  have hruns : db.runs.modify r.queryID (recordedRun r now (db.targets r.queryID)) = db.runs :=
    modify_eq_self fun run hrun => absurd (hrow.symm.trans hrun) nofun
  rw [record, hruns, hrow, Option.map_none, Option.getD_none, Function.update_eq_self]

theorem record_some (hrow : db.runs.row r.queryID = some run) : record now r db =
    { runs := db.runs.modify r.queryID (fun _ => recordedRun r now (db.targets r.queryID) run)
      targets := Function.update db.targets r.queryID (recordedTargets r now (db.targets r.queryID) run) } := by
  have hruns : db.runs.modify r.queryID (recordedRun r now (db.targets r.queryID)) =
      db.runs.modify r.queryID (fun _ => recordedRun r now (db.targets r.queryID) run) := by
    apply table_ext
    · funext other
      rw [Table.row_modify, Table.row_modify]
      split_ifs with hother
      · rw [hother, hrow]
        rfl
      · rfl
    · rfl
  rw [record, hruns, hrow]
  rfl

/-- A run that has started is never in the way of the result. -/
theorem recordResult_eq (hstarted : ∀ run, db.runs.row r.queryID = some run → run.startedAt ≤ now) :
    recordResult db r now = .ok (record now r db) := by
  cases hrow : db.runs.row r.queryID with
  | none =>
    rw [record_none hrow, recordResult, hrow]
  | some run =>
    have hself : ∀ run', run' = run → db.runs.modify r.queryID (fun _ => run') = db.runs := by
      rintro run' rfl
      exact modify_eq_self fun other hother => Option.some.inj (hrow.symm.trans hother)
    rw [record_some hrow]
    by_cases hopen : run.completedAt.isSome = true
    · rw [recordResult, hrow]
      dsimp only
      rw [if_pos hopen, recordedRun, if_pos hopen, recordedTargets, if_pos hopen, hself run rfl,
        Function.update_eq_self]
    · by_cases hexpired : run.expired now = true
      · rw [recordResult, hrow]
        dsimp only
        rw [if_neg hopen, if_pos hexpired, recordedRun, if_neg hopen, if_pos hexpired, recordedTargets,
          if_neg hopen, if_pos hexpired]
        rfl
      · by_cases hpending : (db.targets r.queryID).any (pendingTarget r.hostID) = false
        · have hpending' : (db.targets r.queryID).any
              (fun target => target.hostID == r.hostID && target.status == .pending) = false := hpending
          rw [recordResult, hrow]
          dsimp only
          rw [if_neg hopen, if_neg hexpired, if_pos hpending', recordedRun, if_neg hopen, if_neg hexpired,
            if_pos hpending, recordedTargets, if_neg hopen, if_neg hexpired, map_recordTarget_self hpending,
            hself run rfl, Function.update_eq_self]
        · rw [recordResult_running hrow hopen hexpired hpending, recordedRun, if_neg hopen, if_neg hexpired,
            if_neg hpending, recordedTargets, if_neg hopen, if_neg hexpired]
          split_ifs with hleft
          · rw [hself run rfl]
            rfl
          · rw [RunRow.complete, dif_pos (hstarted run hrow)]
            rfl

theorem record_row_ne (h : id ≠ r.queryID) : (record now r db).runs.row id = db.runs.row id := by
  rw [record, Table.row_modify, if_neg h]

theorem record_targets_ne (h : id ≠ r.queryID) : (record now r db).targets id = db.targets id := by
  exact Function.update_of_ne h _ _

theorem record_row_self : (record now r db).runs.row r.queryID =
    (db.runs.row r.queryID).map (recordedRun r now (db.targets r.queryID)) := by
  rw [record, Table.row_modify, if_pos rfl]

theorem record_targets_self (hrow : db.runs.row r.queryID = some run) :
    (record now r db).targets r.queryID = recordedTargets r now (db.targets r.queryID) run := by
  rw [record_some hrow]
  exact Function.update_self _ _ _

theorem record_comm (h : r.queryID ≠ r'.queryID) :
    record now r' (record now r db) = record now r (record now r' db) := by
  have hrow : (record now r db).runs.row r'.queryID = db.runs.row r'.queryID := record_row_ne h.symm
  have hrow' : (record now r' db).runs.row r.queryID = db.runs.row r.queryID := record_row_ne h
  have htargets : (record now r db).targets r'.queryID = db.targets r'.queryID := record_targets_ne h.symm
  have htargets' : (record now r' db).targets r.queryID = db.targets r.queryID := record_targets_ne h
  have hruns : (record now r' (record now r db)).runs = (record now r (record now r' db)).runs := by
    change ((record now r db).runs.modify r'.queryID (recordedRun r' now ((record now r db).targets r'.queryID))) =
      ((record now r' db).runs.modify r.queryID (recordedRun r now ((record now r' db).targets r.queryID)))
    rw [htargets, htargets']
    exact modify_modify_ne h
  have htable : (record now r' (record now r db)).targets = (record now r (record now r' db)).targets := by
    change Function.update (record now r db).targets r'.queryID _ =
      Function.update (record now r' db).targets r.queryID _
    rw [hrow, hrow', htargets, htargets']
    exact Function.update_comm h _ _ _
  calc record now r' (record now r db)
      = ⟨(record now r' (record now r db)).runs, (record now r' (record now r db)).targets⟩ := rfl
    _ = ⟨(record now r (record now r' db)).runs, (record now r (record now r' db)).targets⟩ := by
        rw [hruns, htable]
    _ = record now r (record now r' db) := rfl

/-- No result of the host changes the run. -/
def Settled (now hostID : Int) (db : Db) (id : Int) : Prop :=
  ∀ run, db.runs.row id = some run → run.completedAt.isSome = true ∨
    run.expired now = false ∧ (db.targets id).any (pendingTarget hostID) = false

theorem record_settled (h : Settled now r.hostID db r.queryID) : record now r db = db := by
  cases hrow : db.runs.row r.queryID with
  | none => exact record_none hrow
  | some run =>
    have hself : db.runs.modify r.queryID (fun _ => run) = db.runs :=
      modify_eq_self fun other hother => Option.some.inj (hrow.symm.trans hother)
    have htargets : recordedTargets r now (db.targets r.queryID) run = db.targets r.queryID := by
      rw [recordedTargets]
      cases h run hrow with
      | inl hcompleted => exact if_pos hcompleted
      | inr hopen =>
        rw [map_recordTarget_self hopen.2, hopen.1]
        exact ite_self _
    have hrun : recordedRun r now (db.targets r.queryID) run = run := by
      rw [recordedRun]
      cases h run hrow with
      | inl hcompleted => exact if_pos hcompleted
      | inr hopen =>
        rw [if_pos hopen.2, hopen.1]
        exact ite_self _
    rw [record_some hrow, htargets, hrun, hself, Function.update_eq_self]

theorem startedAt_recordedRun (before : List TargetRow) :
    (recordedRun r now before run).startedAt = run.startedAt := by
  rw [recordedRun]
  split_ifs
  · rfl
  · rfl
  · rfl
  · rfl
  · rw [RunRow.complete]
    split_ifs
    · rfl
    · rfl

theorem pendingTarget_recordTarget (target : TargetRow) :
    pendingTarget r.hostID (recordTarget r now target) = false := by
  cases hpending : pendingTarget r.hostID target with
  | false =>
    rw [recordTarget_self hpending]
    exact hpending
  | true =>
    rw [pendingTarget, Bool.and_eq_true, beq_iff_eq, beq_iff_eq] at hpending
    rw [recordTarget, if_pos hpending, pendingTarget]
    cases r.status <;> simp [ResultStatus.status]

/-- After one result the run is settled for its host. -/
theorem settled_record : Settled now r.hostID (record now r db) r.queryID := by
  intro run' hrun'
  rw [record_row_self] at hrun'
  obtain ⟨run, hrow, rfl⟩ := Option.map_eq_some_iff.mp hrun'
  rw [record_targets_self hrow]
  by_cases hcompleted : run.completedAt.isSome = true
  · left
    rw [recordedRun, if_pos hcompleted]
    exact hcompleted
  · by_cases hexpired : run.expired now = true
    · left
      rw [recordedRun, if_neg hcompleted, if_pos hexpired]
      rfl
    · have hany : (recordedTargets r now (db.targets r.queryID) run).any (pendingTarget r.hostID) = false := by
        rw [recordedTargets, if_neg hcompleted, if_neg hexpired, List.any_map, List.any_eq_false]
        intro target _
        rw [Function.comp_apply, pendingTarget_recordTarget]
        exact Bool.noConfusion
      have hexpired' : (recordedRun r now (db.targets r.queryID) run).expired now = false := by
        rw [Bool.not_eq_true] at hexpired
        rw [← hexpired, recordedRun, if_neg hcompleted, if_neg (by rw [hexpired]; exact Bool.noConfusion)]
        split_ifs
        · rfl
        · rfl
        · rw [RunRow.complete]
          split_ifs
          · rfl
          · rfl
      exact .inr ⟨hexpired', hany⟩

theorem settled_of_eq {db' : Db} (h : Settled now hostID db id) (hrow : db'.runs.row id = db.runs.row id)
    (htargets : db'.targets id = db.targets id) : Settled now hostID db' id := by
  intro run hrun
  rw [hrow] at hrun
  rw [htargets]
  exact h run hrun

/-- The results say the same. -/
structure SameAnswer (r r' : Result) : Prop where
  hostName : r.hostName = r'.hostName
  status : r.status = r'.status
  rows : r.normalizeRows = r'.normalizeRows
  error : r.error = r'.error

/-- The target of the host waits for a result of an open run. -/
def Awaited (now hostID : Int) (db : Db) (id : Int) : Prop :=
  ∃ run, db.runs.row id = some run ∧ run.completedAt.isSome = false ∧ run.expired now = false ∧
    (db.targets id).any (pendingTarget hostID) = true

theorem recordTarget_same (hhost : r.hostID = r'.hostID) (h : SameAnswer r r') :
    recordTarget r now = recordTarget r' now := by
  funext target
  rw [recordTarget, recordTarget, hhost, h.hostName, h.status, h.rows, h.error]

theorem record_same (hid : r.queryID = r'.queryID) (hhost : r.hostID = r'.hostID)
    (h : Awaited now r.hostID db r.queryID → SameAnswer r r') : record now r db = record now r' db := by
  cases hrow : db.runs.row r.queryID with
  | none => rw [record_none hrow, record_none (hid ▸ hrow)]
  | some run =>
    have hrow' : db.runs.row r'.queryID = some run := hid ▸ hrow
    by_cases hwaits : Awaited now r.hostID db r.queryID
    · rw [record_some hrow, record_some hrow', recordedRun, recordedRun, recordedTargets, recordedTargets, hid,
        hhost, recordTarget_same hhost (h hwaits)]
    · by_cases hcompleted : run.completedAt.isSome = true
      · rw [record_some hrow, record_some hrow', recordedRun, recordedRun, recordedTargets, recordedTargets,
          if_pos hcompleted, if_pos hcompleted, if_pos hcompleted, if_pos hcompleted, hid]
      · by_cases hexpired : run.expired now = true
        · rw [record_some hrow, record_some hrow', recordedRun, recordedRun, recordedTargets, recordedTargets,
            if_neg hcompleted, if_pos hexpired, if_neg hcompleted, if_pos hexpired, if_neg hcompleted,
            if_pos hexpired, if_neg hcompleted, if_pos hexpired, hid]
        · have hsettled : Settled now r.hostID db r.queryID := by
            intro other hother
            cases hrow.symm.trans hother
            right
            constructor
            · exact Bool.not_eq_true _ ▸ hexpired
            · by_contra hany
              exact hwaits ⟨run, hrow, Bool.not_eq_true _ ▸ hcompleted, Bool.not_eq_true _ ▸ hexpired,
                Bool.not_eq_false _ ▸ hany⟩
          have hsettled' : Settled now r'.hostID db r'.queryID := hid ▸ hhost ▸ hsettled
          rw [record_settled hsettled, record_settled hsettled']

/-- The first result of an awaited target is the one that is kept. -/
theorem targets_awaited (h : Awaited now r.hostID db r.queryID) :
    (record now r db).targets r.queryID = (db.targets r.queryID).map (recordTarget r now) := by
  obtain ⟨run, hrow, hcompleted, hexpired, -⟩ := h
  rw [record_targets_self hrow, recordedTargets, if_neg (by rw [hcompleted]; exact Bool.noConfusion),
    if_neg (by rw [hexpired]; exact Bool.noConfusion)]

/-- What the target shows tells the results apart. -/
theorem same_of_targets (hwaits : Awaited now hostID db id) (hhost : r.hostID = hostID) (hhost' : r'.hostID = hostID)
    (hname : r.hostName = r'.hostName)
    (h : (db.targets id).map (recordTarget r now) = (db.targets id).map (recordTarget r' now)) : SameAnswer r r' := by
  obtain ⟨_, -, -, -, hany⟩ := hwaits
  obtain ⟨target, htarget, hpending⟩ := List.any_eq_true.mp hany
  rw [pendingTarget, Bool.and_eq_true, beq_iff_eq, beq_iff_eq] at hpending
  have htaken : target.hostID = r.hostID ∧ target.status = .pending := ⟨hpending.1.trans hhost.symm, hpending.2⟩
  have htaken' : target.hostID = r'.hostID ∧ target.status = .pending := ⟨hpending.1.trans hhost'.symm, hpending.2⟩
  have heq := List.map_inj_left.mp h target htarget
  rw [recordTarget, if_pos htaken, recordTarget, if_pos htaken', TargetRow.mk.injEq] at heq
  obtain ⟨-, -, hstatus, hrows, herror, -⟩ := heq
  constructor
  · exact hname
  · cases hr : r.status <;> cases hr' : r'.status <;> simp_all [ResultStatus.status]
  · exact hrows
  · exact herror

end LiveEffects
