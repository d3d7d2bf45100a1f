import Mathlib.Data.List.Dedup
import Woodstar.SantaConfigurations

/-!
# Santa configurations by priority

What the store is for: a list of configurations, the most important first, and every host is
sent the first one that reaches it. Names, settings and labels come back as they were sent,
once normalized. The tables of the store represent this list after every run.
-/
namespace SantaPriorities

open KeyedRows (Table)
open Primitives
open RankedTables
open Runs
open SantaConfigurations
open Targeting (Direction LabelRef LabelSet)

/-- A configuration without its number and its place. -/
structure Setup where
  name : String
  description : String
  settings : SyncSettings
  targets : LabelSet
  deriving DecidableEq, Repr

abbrev Priorities := List (Int × Setup)

inductive Change where
  | created (id : Int) (setup : Setup)
  | updated (id : Int) (setup : Setup)
  | deleted (ids : List Int)
  | reordered (ids : List Int)

def apply (ps : Priorities) : Change → Priorities
  | .created id setup => ps ++ [(id, setup)]
  | .updated id setup => ps.map (fun p => if p.1 = id then (id, setup) else p)
  | .deleted ids => ps.filter (fun p => p.1 ∉ ids)
  | .reordered ids => ids.filterMap (fun id => ps.find? (fun p => p.1 = id))

/-- The first configuration that reaches a host, and its first label that the host holds. -/
def sentTo (ps : Priorities) (holds : Int → Bool) : Option (Int × Setup × Int) :=
  (ps.find? (fun p => p.2.targets.reaches holds)).bind (fun p =>
    (p.2.targets.includes.find? (fun ref => holds ref.labelID)).map (fun ref => (p.1, p.2, ref.labelID)))

/-- A policy always comes back with a slice. -/
def settled (policy : RemovableMediaPolicy) : RemovableMediaPolicy :=
  { policy with remountFlags := some (policy.remountFlags.getD []) }

def shown (settings : SyncSettings) : SyncSettings :=
  { settings with
    removableMediaPolicy := settings.removableMediaPolicy.map settled
    encryptedRemovableMediaPolicy := settings.encryptedRemovableMediaPolicy.map settled }

def setupOf (params : ConfigurationMutation) : Setup :=
  let p := params.normalize
  ⟨p.name, p.description, shown p.settings, p.targets⟩

def accepted (outcome : Except Fault State) (change : Change) : Option Change :=
  match outcome with
  | .ok _ => some change
  | .error _ => none

/-- What a request changes when it is accepted. -/
def change (httpsURL : String → Bool) (s : State) : Event → Option Change
  | .create params => accepted (create httpsURL s params) (.created s.configurations.next (setupOf params))
  | .update id params => accepted (update httpsURL s id params) (.updated id (setupOf params))
  | .delete id => accepted (delete s id) (.deleted [id])
  | .deleteMany ids => some (.deleted ids)
  | .reorder orderedIDs => accepted (reorderConfigurations s orderedIDs) (.reordered orderedIDs)
  | _ => none

def changes (httpsURL : String → Bool) : State → List Event → List Change
  | _, [] => []
  | s, e :: es => (change httpsURL s e).toList ++ changes httpsURL (step httpsURL s e) es

section Rows

variable {s : State} {id : Int} {p : ConfigurationMutation} {row : ConfigurationRow}

theorem text_of_mapM {flags : List String} {cast : List RemountFlag}
    (h : flags.mapM remountFlags.cast = some cast) : cast.map remountFlags.text = flags := by
  induction flags generalizing cast with
  | nil =>
    cases h
    rfl
  | cons flag flags ih =>
    rw [List.mapM_cons] at h
    obtain ⟨first, hfirst, hrest⟩ := Option.bind_eq_some_iff.mp h
    obtain ⟨rest, hcast, heq⟩ := Option.bind_eq_some_iff.mp hrest
    cases heq
    rw [List.map_cons, Enumeration.text_of_cast hfirst, ih hcast]

/-- What validation says of the flags. -/
theorem policy_flags {policy : RemovableMediaPolicy} (h : policy.validate = .ok ()) :
    policy.action ≠ "remount" → policy.remountFlags = none := by
  simp only [RemovableMediaPolicy.validate, bind_unit_ok, check_ok] at h
  obtain ⟨-, -, hexcluded, -⟩ := h
  intro hne
  simpa [hne] using hexcluded

theorem policy_round {policy : Option RemovableMediaPolicy} (hvalid : validatePolicy policy = .ok ())
    {stored : Option RemovableMediaAction × Option (List RemountFlag)}
    (h : castPolicy (removableMediaWriteFields policy) = some stored) :
    removableMediaPolicyFromRow stored.1 stored.2 = policy.map settled := by
  cases policy with
  | none =>
    cases h
    rfl
  | some policy =>
    simp only [removableMediaWriteFields] at h
    split_ifs at h with haction
    · obtain ⟨action, hcast, heq⟩ := Option.bind_eq_some_iff.mp h
      obtain ⟨action, htext, rfl⟩ := Option.map_eq_some_iff.mp hcast
      cases heq
      simp only [removableMediaPolicyFromRow, settled, Option.map_some, Enumeration.text_of_cast htext,
        policy_flags hvalid haction]
      rfl
    · obtain ⟨action, hcast, hrest⟩ := Option.bind_eq_some_iff.mp h
      obtain ⟨action, htext, rfl⟩ := Option.map_eq_some_iff.mp hcast
      obtain ⟨flags, hflags, heq⟩ := Option.bind_eq_some_iff.mp hrest
      obtain ⟨flags, hmap, rfl⟩ := Option.map_eq_some_iff.mp hflags
      cases heq
      simp only [removableMediaPolicyFromRow, settled, Option.map_some, Enumeration.text_of_cast htext,
        Option.getD_some, text_of_mapM hmap]

/-- What is read of a row. -/
def rowSettings (row : ConfigurationRow) : SyncSettings := (configurationFromRow 0 row).settings

structure RowOf (p : ConfigurationMutation) (position : Int) (row : ConfigurationRow) : Prop where
  name : row.name = p.name
  description : row.description = p.description
  settings : rowSettings row = shown p.settings
  position : row.position = position

theorem validate_parts {httpsURL : String → Bool} (h : p.validate httpsURL = .ok ()) :
    validatePolicy p.settings.removableMediaPolicy = .ok () ∧
      validatePolicy p.settings.encryptedRemovableMediaPolicy = .ok () := by
  simp only [ConfigurationMutation.validate, bind_unit_ok] at h
  obtain ⟨-, -, -, -, -, -, -, hremovable, hencrypted, -⟩ := h
  exact ⟨hremovable, hencrypted⟩

theorem rowOf_write {httpsURL : String → Bool} {position : Int} (hvalid : p.validate httpsURL = .ok ())
    (h : newConfigurationWrite p position = some row) : RowOf p position row := by
  obtain ⟨hremovable, hencrypted⟩ := validate_parts hvalid
  obtain ⟨clientMode, hmode, h⟩ := Option.bind_eq_some_iff.mp h
  obtain ⟨action, haction, h⟩ := Option.bind_eq_some_iff.mp h
  obtain ⟨removable, hcast, h⟩ := Option.bind_eq_some_iff.mp h
  obtain ⟨encrypted, hcast', h⟩ := Option.bind_eq_some_iff.mp h
  cases h
  constructor
  · rfl
  · rfl
  · simp only [rowSettings, configurationFromRow, shown, policy_round hremovable hcast,
      policy_round hencrypted hcast', Enumeration.text_of_cast hmode, Enumeration.text_of_cast haction]
  · rfl

/-- The labels that the rows of a configuration name. -/
def storedTargets (s : State) (id : Int) : LabelSet :=
  (s.targets.filter (fun row => row.configurationID = id)).foldl addTarget {}

def writes (id : Int) (direction : Direction) (refs : List LabelRef) (place : Nat → Int) : List TargetRow :=
  refs.mapIdx (fun i ref => ⟨id, ref.labelID, direction, place i⟩)

theorem targetWrites_eq (id : Int) (targets : LabelSet) :
    targetWrites id targets = writes id .included targets.includes (fun i => i) ++
      writes id .excluded targets.excludes (fun i => i) := rfl

theorem writes_cons (id : Int) (direction : Direction) (ref : LabelRef) (refs : List LabelRef) (place : Nat → Int) :
    writes id direction (ref :: refs) place =
      ⟨id, ref.labelID, direction, place 0⟩ :: writes id direction refs (fun i => place (i + 1)) := by
  rw [writes, List.mapIdx_cons]
  rfl

theorem foldl_included (id : Int) (refs : List LabelRef) (place : Nat → Int) (targets : LabelSet) :
    (writes id .included refs place).foldl addTarget targets =
      { targets with includes := targets.includes ++ refs } := by
  induction refs generalizing place targets with
  | nil => simp [writes]
  | cons ref refs ih =>
    rw [writes_cons, List.foldl_cons, ih]
    simp [addTarget]

theorem foldl_excluded (id : Int) (refs : List LabelRef) (place : Nat → Int) (targets : LabelSet) :
    (writes id .excluded refs place).foldl addTarget targets =
      { targets with excludes := targets.excludes ++ refs } := by
  induction refs generalizing place targets with
  | nil => simp [writes]
  | cons ref refs ih =>
    rw [writes_cons, List.foldl_cons, ih]
    simp [addTarget]

theorem foldl_targetWrites (id : Int) (targets : LabelSet) :
    (targetWrites id targets).foldl addTarget {} = targets := by
  rw [targetWrites_eq, List.foldl_append, foldl_included, foldl_excluded]
  rfl

theorem mem_writes {direction : Direction} {refs : List LabelRef} {place : Nat → Int} {target : TargetRow}
    (h : target ∈ writes id direction refs place) :
    target.configurationID = id ∧ target.direction = direction ∧ ∃ i, target.position = place i := by
  obtain ⟨i, hi, rfl⟩ := List.mem_mapIdx.mp h
  exact ⟨rfl, rfl, i, rfl⟩

theorem configurationID_targetWrites {targets : LabelSet} {target : TargetRow} (h : target ∈ targetWrites id targets) :
    target.configurationID = id := by
  rw [targetWrites_eq, List.mem_append] at h
  cases h with
  | inl h => exact (mem_writes h).1
  | inr h => exact (mem_writes h).1

/-- The rows of one configuration in the order of their places. -/
def Precedes (a b : TargetRow) : Prop :=
  a.configurationID = b.configurationID ∧
    (a.direction = .included ∧ b.direction = .excluded ∨ a.direction = b.direction ∧ a.position < b.position)

theorem writes_ascending {direction : Direction} {refs : List LabelRef} {place : Nat → Int}
    (hplace : ∀ i j, i < j → place i < place j) :
    (writes id direction refs place).Pairwise (fun a b => a.position < b.position) := by
  apply List.pairwise_iff_getElem.mpr
  intro i j hi hj hij
  simp only [writes, List.getElem_mapIdx]
  exact hplace i j hij

theorem targetWrites_ascending (id : Int) (targets : LabelSet) : (targetWrites id targets).Pairwise Precedes := by
  have hplace : ∀ i j : Nat, i < j → (i : Int) < (j : Int) := by omega
  rw [targetWrites_eq]
  apply List.pairwise_append.mpr
  refine ⟨?_, ?_, ?_⟩
  · apply (writes_ascending hplace).imp_of_mem
    intro a b ha hb hlt
    exact ⟨(mem_writes ha).1.trans (mem_writes hb).1.symm,
      .inr ⟨(mem_writes ha).2.1.trans (mem_writes hb).2.1.symm, hlt⟩⟩
  · apply (writes_ascending hplace).imp_of_mem
    intro a b ha hb hlt
    exact ⟨(mem_writes ha).1.trans (mem_writes hb).1.symm,
      .inr ⟨(mem_writes ha).2.1.trans (mem_writes hb).2.1.symm, hlt⟩⟩
  · intro a ha b hb
    exact ⟨(mem_writes ha).1.trans (mem_writes hb).1.symm, .inl ⟨(mem_writes ha).2.1, (mem_writes hb).2.1⟩⟩

/-- Every configuration's rows are the ones written for what they say. -/
def Written (s : State) : Prop :=
  ∀ id, s.targets.filter (fun row => row.configurationID = id) = targetWrites id (storedTargets s id)

theorem before_total (a b : TargetRow) : TargetRow.Before a b ∨ TargetRow.Before b a := by
  unfold TargetRow.Before
  cases ha : a.direction <;> cases hb : b.direction <;> simp only [reduceCtorEq, true_and, and_true, false_and,
    and_false, or_false, false_or] <;> omega

theorem before_trans {a b c : TargetRow} (hab : TargetRow.Before a b) (hbc : TargetRow.Before b c) :
    TargetRow.Before a c := by
  unfold TargetRow.Before at *
  cases ha : a.direction <;> cases hb : b.direction <;> cases hc : c.direction <;>
    simp only [ha, hb, hc, reduceCtorEq, true_and, and_true, false_and, and_false, or_false, false_or] at * <;> omega

theorem before_of_precedes (a b : TargetRow) (h : Precedes a b) : TargetRow.Before a b := by
  obtain ⟨hid, h⟩ := h
  refine .inr ⟨hid, ?_⟩
  cases h with
  | inl h => exact .inl h
  | inr h => exact .inr ⟨h.1, Int.le_of_lt h.2⟩

theorem not_before_of_precedes (a b : TargetRow) (h : Precedes a b) : ¬ TargetRow.Before b a := by
  obtain ⟨hid, h⟩ := h
  unfold TargetRow.Before
  cases h with
  | inl h =>
    rw [h.1, h.2]
    simp only [reduceCtorEq, false_and, and_false, or_false]
    omega
  | inr h =>
    rw [h.1]
    cases b.direction <;> simp only [reduceCtorEq, false_and, and_false, true_and, false_or] <;> omega

/-- The query of several configurations gives each its rows in their order. -/
theorem attach_filter (h : Written s) {ids : List Int} (hid : id ∈ ids) :
    ((s.targets.filter (fun row => row.configurationID ∈ ids)).insertionSort TargetRow.Before).filter
      (fun row => row.configurationID = id) = targetWrites id (storedTargets s id) := by
  have htotal : Std.Total TargetRow.Before := ⟨before_total⟩
  have htrans : IsTrans TargetRow TargetRow.Before := ⟨fun _ _ _ => before_trans⟩
  have hfilter : (s.targets.filter (fun row => row.configurationID ∈ ids)).filter
      (fun row => row.configurationID = id) = targetWrites id (storedTargets s id) := by
    rw [← h id, List.filter_filter]
    congr 1
    funext row
    by_cases heq : row.configurationID = id
    · simp [heq, hid]
    · simp [heq]
  apply eq_of_perm_of_strict _ ((List.pairwise_insertionSort TargetRow.Before _).filter _)
    (targetWrites_ascending id (storedTargets s id)) before_of_precedes not_before_of_precedes
  rw [← hfilter]
  exact (List.perm_insertionSort _ _).filter _

end Rows

section Transactions

variable {httpsURL : String → Bool} {s s' : State} {id : Int} {params : ConfigurationMutation}
  {row : ConfigurationRow} {targets : LabelSet}

theorem eq_of_writeRow {row' : ConfigurationRow} (h : writeRow s id row = .ok row') : row' = row := by
  simp only [writeRow, bind_unit_ok] at h
  obtain ⟨-, -, -, -, -, -, -, -, -, -, h⟩ := h
  exact (Except.ok.inj h).symm

theorem replaceConfigurationTargets_ok : replaceConfigurationTargets s id targets = .ok s' ↔
    ((targetWrites id targets).map TargetRow.labelID).Nodup ∧
      (∀ target ∈ targetWrites id targets, (s.labels.row target.labelID).isSome = true) ∧
      s' = { s with targets := s.targets.filter (fun row => row.configurationID ≠ id) ++ targetWrites id targets } := by
  simp only [replaceConfigurationTargets, bind_unit_ok, require_ok, decide_eq_true_eq, List.all_eq_true]
  exact and_congr_right fun _ => and_congr_right fun _ => ⟨fun h => (Except.ok.inj h).symm, fun h => h ▸ rfl⟩

theorem create_ok : create httpsURL s params = .ok s' ↔ ∃ row, params.normalize.validate httpsURL = .ok () ∧
    nextRank ConfigurationRow.position s.configurations ≤ 2147483647 ∧
      newConfigurationWrite params.normalize (nextRank ConfigurationRow.position s.configurations) = some row ∧
        writeRow s s.configurations.next row = .ok row ∧
          replaceConfigurationTargets { s with configurations := s.configurations.insert row }
            s.configurations.next params.normalize.targets = .ok s' := by
  simp only [create, bind_unit_ok, require_ok, decide_eq_true_eq]
  cases newConfigurationWrite params.normalize (nextRank ConfigurationRow.position s.configurations) with
  | none =>
    constructor
    · rintro ⟨-, -, h⟩
      cases h
    · rintro ⟨row, -, -, hwrite, -⟩
      cases hwrite
  | some row =>
    dsimp only
    rw [bind_eq_ok]
    constructor
    · rintro ⟨hvalid, hfits, row', hrow, hrest⟩
      obtain rfl := eq_of_writeRow hrow
      exact ⟨row', hvalid, hfits, rfl, hrow, hrest⟩
    · rintro ⟨row', hvalid, hfits, hwrite, hrow, hrest⟩
      obtain rfl := Option.some.inj hwrite
      exact ⟨hvalid, hfits, row, hrow, hrest⟩

theorem update_ok : update httpsURL s id params = .ok s' ↔ ∃ old row, s.configurations.row id = some old ∧
    params.normalize.validate httpsURL = .ok () ∧
      newConfigurationWrite params.normalize old.position = some row ∧ writeRow s id row = .ok row ∧
        replaceConfigurationTargets { s with configurations := s.configurations.modify id (fun _ => row) }
          id params.normalize.targets = .ok s' := by
  simp only [update, bind_unit_ok]
  cases s.configurations.row id with
  | none =>
    constructor
    · rintro ⟨-, h⟩
      cases h
    · rintro ⟨old, row, hold, -⟩
      cases hold
  | some old =>
    dsimp only
    cases hcast : newConfigurationWrite params.normalize old.position with
    | none =>
      constructor
      · rintro ⟨-, h⟩
        cases h
      · rintro ⟨old', row, hold, -, hwrite, -⟩
        obtain rfl := Option.some.inj hold
        rw [hcast] at hwrite
        cases hwrite
    | some row =>
      dsimp only
      rw [bind_eq_ok]
      constructor
      · rintro ⟨hvalid, row', hrow, hrest⟩
        obtain rfl := eq_of_writeRow hrow
        exact ⟨old, row', rfl, hvalid, hcast, hrow, hrest⟩
      · rintro ⟨old', row', hold, hvalid, hwrite, hrow, hrest⟩
        obtain rfl := Option.some.inj hold
        rw [hcast] at hwrite
        obtain rfl := Option.some.inj hwrite
        exact ⟨hvalid, row, hrow, hrest⟩

/-- The rows of a new order. -/
def moved (s : State) (orderedIDs : List Int) : State :=
  { s with
    configurations :=
      updateAll
        (updateAll s.configurations (fun id row => { row with position := -(orderedIDs.idxOf id + 1 : Int) }))
        (fun _ row => { row with position := -row.position - 1 }) }

/-- The lists of numbers that a new order accepts are those of all configurations, each once, or any
when there is none. -/
theorem reorder_ok {orderedIDs : List Int} (h : reorderConfigurations s orderedIDs = .ok s') :
    (orderedIDs.Nodup ∧ (∀ id, id ∈ orderedIDs ↔ (s.configurations.row id).isSome = true) ∧ s' = moved s orderedIDs) ∨
      ((∀ id, s.configurations.row id = none) ∧ s' = s) := by
  simp only [reorderConfigurations] at h
  by_cases hcounts : s.configurations.ids.length = orderedIDs.length ∧
      orderedIDs.length = orderedIDs.dedup.length ∧
      orderedIDs.length = (orderedIDs.filter (fun id => (s.configurations.row id).isSome)).length
  · simp only [if_pos hcounts] at h
    obtain ⟨htotal, hdistinct, hmatched⟩ := hcounts
    have hnodup : orderedIDs.Nodup := by
      rw [← List.dedup_eq_self]
      exact (List.dedup_sublist orderedIDs).eq_of_length hdistinct.symm
    have hall : ∀ id ∈ orderedIDs, (s.configurations.row id).isSome = true :=
      List.length_filter_eq_length_iff.mp hmatched.symm
    have hperm : orderedIDs.Perm s.configurations.ids := by
      apply (List.subperm_of_subset hnodup _).perm_of_length_le (Nat.le_of_eq htotal)
      intro id hid
      exact Table.mem_ids.mpr (hall id hid)
    rw [if_pos (by omega)] at h
    exact .inl ⟨hnodup, fun id => hperm.mem_iff.trans Table.mem_ids, (Except.ok.inj h).symm⟩
  · simp only [if_neg hcounts] at h
    split_ifs at h with hnone
    have hempty : ∀ id, s.configurations.row id = none := by
      intro id
      rw [← Option.not_isSome_iff_eq_none, ← Table.mem_ids, List.eq_nil_of_length_eq_zero hnone.symm]
      exact List.not_mem_nil
    rw [updateAll_of_empty hempty] at h
    exact .inr ⟨hempty, (Except.ok.inj h).symm⟩

end Transactions

section Represents

variable {httpsURL : String → Bool} {s s' : State} {ps : Priorities}

/-- The configuration of a row, without its place. -/
def entry (s : State) (a : Int × ConfigurationRow) : Int × Setup :=
  (a.1, ⟨a.2.name, a.2.description, rowSettings a.2, storedTargets s a.1⟩)

structure Represents (s : State) (ps : Priorities) : Prop where
  written : Written s
  owned : ∀ target ∈ s.targets, (s.configurations.row target.configurationID).isSome = true
  labels : ∀ target ∈ s.targets, (s.labels.row target.labelID).isSome = true
  listed : ∃ xs, Lists ConfigurationRow.position s.configurations xs ∧ ps = xs.map (entry s)

theorem represents_empty : Represents {} [] where
  written := by
    intro id
    rfl
  owned := by simp
  labels := by simp
  listed := ⟨[], lists_empty, rfl⟩

theorem storedTargets_congr {s s' : State} {id : Int}
    (h : s'.targets.filter (fun row => row.configurationID = id) =
      s.targets.filter (fun row => row.configurationID = id)) : storedTargets s' id = storedTargets s id := by
  rw [storedTargets, storedTargets, h]

theorem filter_replaced (rows : List TargetRow) (id id' : Int) (targets : LabelSet) :
    (rows.filter (fun row => row.configurationID ≠ id) ++ targetWrites id targets).filter
        (fun row => row.configurationID = id') =
      if id' = id then targetWrites id targets else rows.filter (fun row => row.configurationID = id') := by
  rw [List.filter_append, List.filter_filter]
  by_cases hid : id' = id
  · subst hid
    have hnone : (rows.filter (fun row =>
        decide (row.configurationID = id') && decide (row.configurationID ≠ id'))) = [] := by
      apply List.filter_eq_nil_iff.mpr
      intro row _
      simp
    have hall : (targetWrites id' targets).filter (fun row => row.configurationID = id') =
      targetWrites id' targets := by
      apply List.filter_eq_self.mpr
      intro row hrow
      exact decide_eq_true (configurationID_targetWrites hrow)
    rw [hnone, hall, if_pos rfl, List.nil_append]
  · have hsame : (rows.filter (fun row => decide (row.configurationID = id') && decide (row.configurationID ≠ id))) =
        rows.filter (fun row => row.configurationID = id') := by
      congr 1
      funext row
      by_cases heq : row.configurationID = id'
      · simp [heq, hid]
      · simp [heq]
    have hnone : (targetWrites id targets).filter (fun row => row.configurationID = id') = [] := by
      apply List.filter_eq_nil_iff.mpr
      intro row hrow
      rw [configurationID_targetWrites hrow]
      simpa using fun heq : id = id' => hid heq.symm
    rw [hsame, hnone, if_neg hid, List.append_nil]

/-- Rows replaced for one configuration say what they were written for. -/
theorem storedTargets_replaced {id : Int} {targets : LabelSet}
    (h : s'.targets = s.targets.filter (fun row => row.configurationID ≠ id) ++ targetWrites id targets) (id' : Int) :
    storedTargets s' id' = if id' = id then targets else storedTargets s id' := by
  rw [storedTargets, h, filter_replaced]
  split_ifs with hid
  · exact foldl_targetWrites id targets
  · rfl

theorem written_replaced {id : Int} {targets : LabelSet} (hs : Written s)
    (h : s'.targets = s.targets.filter (fun row => row.configurationID ≠ id) ++
      targetWrites id targets) : Written s' := by
  intro id'
  rw [storedTargets_replaced h, h, filter_replaced]
  split_ifs with hid
  · rw [hid]
  · exact hs id'

theorem labels_replaced {id : Int} {targets : LabelSet}
    (hold : ∀ target ∈ s.targets, (s.labels.row target.labelID).isSome = true)
    (hnew : ∀ target ∈ targetWrites id targets, (s.labels.row target.labelID).isSome = true)
    (htargets : s'.targets = s.targets.filter (fun row => row.configurationID ≠ id) ++ targetWrites id targets)
    (hlabels : s'.labels = s.labels) : ∀ target ∈ s'.targets, (s'.labels.row target.labelID).isSome = true := by
  intro target htarget
  rw [htargets] at htarget
  rw [hlabels]
  cases List.mem_append.mp htarget with
  | inl h => exact hold target (List.mem_of_mem_filter h)
  | inr h => exact hnew target h

theorem represents_create (h : Represents s ps) {params : ConfigurationMutation}
    (hok : create httpsURL s params = .ok s') :
    Represents s' (apply ps (.created s.configurations.next (setupOf params))) := by
  obtain ⟨row, hvalid, -, hwrite, -, hreplace⟩ := create_ok.mp hok
  have hrow := rowOf_write hvalid hwrite
  obtain ⟨-, hlabels, hs'⟩ := replaceConfigurationTargets_ok.mp hreplace
  have htargets : s'.targets = s.targets.filter (fun row => row.configurationID ≠ s.configurations.next) ++
      targetWrites s.configurations.next params.normalize.targets := by rw [hs']
  have hconfigurations : s'.configurations = s.configurations.insert row := congrArg State.configurations hs'
  have hkept : s'.labels = s.labels := by rw [hs']
  obtain ⟨xs, hlists, rfl⟩ := h.listed
  constructor
  · exact written_replaced h.written htargets
  · intro target htarget
    rw [hconfigurations, Table.row_insert]
    rw [htargets] at htarget
    split_ifs with hid
    · rfl
    · cases List.mem_append.mp htarget with
      | inl hold => exact h.owned target (List.mem_of_mem_filter hold)
      | inr hnew => exact absurd (configurationID_targetWrites hnew) hid
  · exact labels_replaced h.labels hlabels htargets hkept
  · rw [hconfigurations]
    refine ⟨_, hlists.insert hrow.position, ?_⟩
    rw [apply, List.map_append, List.map_singleton]
    congr 1
    · apply List.map_congr_left
      rintro ⟨id, old⟩ hmem
      have hne : id ≠ s.configurations.next := by
        have hbound := s.configurations.numbered id (by rw [(hlists.exact id old).mp hmem]; rfl)
        simp only [Table.next]
        omega
      rw [entry, entry, storedTargets_replaced htargets, if_neg hne]
    · rw [entry, storedTargets_replaced htargets, if_pos rfl, hrow.name, hrow.description, hrow.settings]
      rfl

theorem represents_update (h : Represents s ps) {id : Int} {params : ConfigurationMutation}
    (hok : update httpsURL s id params = .ok s') : Represents s' (apply ps (.updated id (setupOf params))) := by
  obtain ⟨old, row, hold, hvalid, hwrite, -, hreplace⟩ := update_ok.mp hok
  have hrow := rowOf_write hvalid hwrite
  obtain ⟨-, hlabels, hs'⟩ := replaceConfigurationTargets_ok.mp hreplace
  have htargets : s'.targets = s.targets.filter (fun row => row.configurationID ≠ id) ++
      targetWrites id params.normalize.targets := by rw [hs']
  have hconfigurations : s'.configurations = s.configurations.modify id (fun _ => row) :=
    congrArg State.configurations hs'
  have hkept : s'.labels = s.labels := by rw [hs']
  obtain ⟨xs, hlists, rfl⟩ := h.listed
  constructor
  · exact written_replaced h.written htargets
  · intro target htarget
    rw [hconfigurations, Table.row_modify]
    rw [htargets] at htarget
    split_ifs with hid
    · rw [hid, hold]
      rfl
    · cases List.mem_append.mp htarget with
      | inl hold => exact h.owned target (List.mem_of_mem_filter hold)
      | inr hnew => exact absurd (configurationID_targetWrites hnew) hid
  · exact labels_replaced h.labels hlabels htargets hkept
  · rw [hconfigurations]
    refine ⟨_, hlists.modify ?_, ?_⟩
    · intro row' hrow'
      rw [hold] at hrow'
      rw [hrow.position, Option.some.inj hrow']
    · rw [apply, List.map_map, List.map_map]
      apply List.map_congr_left
      rintro ⟨id', old'⟩ -
      by_cases hid : id' = id
      · simp only [Function.comp_apply, entry, hid, if_true, storedTargets_replaced htargets, hrow.name,
          hrow.description, hrow.settings]
        rfl
      · simp only [Function.comp_apply, entry, hid, if_false, storedTargets_replaced htargets]

theorem represents_deleteMany (h : Represents s ps) (ids : List Int) :
    Represents (deleteMany s ids) (apply ps (.deleted ids)) := by
  obtain ⟨xs, hlists, rfl⟩ := h.listed
  have hfilter : ∀ id, (deleteMany s ids).targets.filter (fun row => row.configurationID = id) =
      if id ∈ ids then [] else s.targets.filter (fun row => row.configurationID = id) := by
    intro id
    simp only [deleteMany, List.filter_filter]
    split_ifs with hid
    · apply List.filter_eq_nil_iff.mpr
      intro row _
      by_cases heq : row.configurationID = id
      · simp [heq, hid]
      · simp [heq]
    · congr 1
      funext row
      by_cases heq : row.configurationID = id
      · simp [heq, hid]
      · simp [heq]
  constructor
  · intro id
    rw [storedTargets, hfilter]
    split_ifs
    · rfl
    · exact h.written id
  · intro target htarget
    obtain ⟨hmem, hkept⟩ := List.mem_filter.mp htarget
    simp only [deleteMany, row_eraseAll, if_neg (of_decide_eq_true hkept)]
    exact h.owned target hmem
  · intro target htarget
    exact h.labels target (List.mem_of_mem_filter htarget)
  · refine ⟨_, hlists.eraseAll ids, ?_⟩
    rw [apply, List.filter_map]
    apply List.map_congr_left
    rintro ⟨id, row⟩ hmem
    have hkept : id ∉ ids := of_decide_eq_true (List.mem_filter.mp hmem).2
    rw [entry, entry, storedTargets_congr (by rw [hfilter, if_neg hkept])]

theorem represents_reorder (h : Represents s ps) {orderedIDs : List Int}
    (hok : reorderConfigurations s orderedIDs = .ok s') : Represents s' (apply ps (.reordered orderedIDs)) := by
  obtain ⟨xs, hlists, rfl⟩ := h.listed
  rcases reorder_ok hok with ⟨hnodup, hall, rfl⟩ | ⟨hempty, rfl⟩
  · constructor
    · exact h.written
    · intro target htarget
      simp only [moved, updateAll, Option.isSome_map]
      exact h.owned target htarget
    · exact h.labels
    · refine ⟨_, lists_updateAll hnodup ?_ ?_, ?_⟩
      · intro id
        simp only [updateAll, Option.isSome_map]
        exact hall id
      · intro id row hrow
        simp only [updateAll] at hrow
        obtain ⟨old, -, rfl⟩ := Option.map_eq_some_iff.mp hrow
        dsimp only
        omega
      · rw [apply, List.map_filterMap]
        congr 1
        funext id
        rw [List.find?_map]
        have hcomp : (fun p : Int × Setup => decide (p.1 = id)) ∘ entry s = fun a => decide (a.1 = id) := rfl
        rw [hcomp, hlists.find]
        simp only [updateAll, Option.map_map]
        rfl
  · have hnil : xs = [] := by
      rw [List.eq_nil_iff_forall_not_mem]
      rintro ⟨id, row⟩ hmem
      rw [hlists.exact, hempty id] at hmem
      cases hmem
    subst hnil
    have hsame : apply ([].map (entry s')) (.reordered orderedIDs) = [].map (entry s') := by
      simp [apply]
    rw [hsame]
    exact h

theorem represents_step (h : Represents s ps) (e : Event) :
    Represents (step httpsURL s e) ((change httpsURL s e).toList.foldl apply ps) := by
  cases e with
  | create params =>
    cases hok : create httpsURL s params with
    | ok s' =>
      simp only [step, attempt, change, hok, accepted]
      exact represents_create h hok
    | error fault =>
      simp only [step, attempt, change, hok, accepted]
      exact h
  | update id params =>
    cases hok : update httpsURL s id params with
    | ok s' =>
      simp only [step, attempt, change, hok, accepted]
      exact represents_update h hok
    | error fault =>
      simp only [step, attempt, change, hok, accepted]
      exact h
  | delete id =>
    simp only [step, attempt, change, delete]
    split_ifs
    · exact represents_deleteMany h [id]
    · exact h
  | deleteMany ids => exact represents_deleteMany h ids
  | reorder orderedIDs =>
    cases hok : reorderConfigurations s orderedIDs with
    | ok s' =>
      simp only [step, attempt, change, hok, accepted]
      exact represents_reorder h hok
    | error fault =>
      simp only [step, attempt, change, hok, accepted]
      exact h
  | createLabel name =>
    refine ⟨h.written, h.owned, ?_, h.listed⟩
    intro target htarget
    simp only [step, attempt, Table.row_insert]
    split_ifs
    · rfl
    · exact h.labels target htarget
  | renameLabel id name =>
    refine ⟨h.written, h.owned, ?_, h.listed⟩
    intro target htarget
    simp only [step, attempt, Table.row_modify]
    split_ifs
    · rw [Option.isSome_map]
      exact h.labels target htarget
    · exact h.labels target htarget
  | deleteLabel id =>
    simp only [step, attempt, deleteLabel]
    split_ifs with hused
    · exact h
    · refine ⟨h.written, h.owned, ?_, h.listed⟩
      intro target htarget
      have hne : target.labelID ≠ id := by
        intro heq
        exact hused (List.any_eq_true.mpr ⟨target, htarget, by simp [heq]⟩)
      simp only [Table.row_erase, if_neg hne]
      exact h.labels target htarget
  | setMembership labelID hostID member => exact ⟨h.written, h.owned, h.labels, h.listed⟩

theorem represents_run (h : Represents s ps) (events : List Event) :
    Represents (exec (step httpsURL) s events) ((changes httpsURL s events).foldl apply ps) := by
  induction events generalizing s ps with
  | nil => exact h
  | cons e events ih =>
    rw [exec_cons, changes, List.foldl_append]
    exact ih (represents_step h e)

end Represents

section Reads

variable {httpsURL : String → Bool} {s : State} {ps : Priorities} {hostID : Int}

def Configuration.setup (configuration : Configuration) : Setup :=
  ⟨configuration.name, configuration.description, configuration.settings, configuration.targets⟩

theorem attach_eq (h : Written s) (configurations : List Configuration) :
    attachConfigurationTargets s configurations = configurations.map (fun configuration =>
      { configuration with targets := storedTargets s configuration.id }) := by
  apply List.map_congr_left
  intro configuration hmem
  rw [attach_filter h (List.mem_map_of_mem hmem), foldl_targetWrites]

theorem list_eq {xs : List (Int × ConfigurationRow)} (hw : Written s)
    (hlists : Lists ConfigurationRow.position s.configurations xs) :
    list s = xs.map (fun a => { configurationFromRow a.1 a.2 with targets := storedTargets s a.1 }) := by
  rw [list, hlists.ordered_eq, attach_eq hw, List.map_map]
  rfl

theorem list_represents (h : Represents s ps) :
    (list s).map (fun c => (c.id, Configuration.setup c)) = ps ∧
      (list s).Pairwise (fun a b => a.position < b.position) := by
  obtain ⟨xs, hlists, rfl⟩ := h.listed
  rw [list_eq h.written hlists]
  constructor
  · rw [List.map_map]
    rfl
  · exact List.pairwise_map.mpr hlists.ascending

theorem getByID_represents (h : Represents s ps) (id : Int) :
    (getByID s id).toOption.map Configuration.setup = (ps.find? (fun p => p.1 = id)).map Prod.snd := by
  obtain ⟨xs, hlists, rfl⟩ := h.listed
  have hfind : ((xs.map (entry s)).find? (fun p => p.1 = id)).map Prod.snd =
      (s.configurations.row id).map (fun row => (entry s (id, row)).2) := by
    rw [List.find?_map]
    have hcomp : (fun p : Int × Setup => decide (p.1 = id)) ∘ entry s = fun a => decide (a.1 = id) := rfl
    rw [hcomp, hlists.find, Option.map_map, Option.map_map]
    rfl
  rw [hfind, getByID]
  split_ifs with hid
  · have hrow : s.configurations.row id = none := by
      cases hrow : s.configurations.row id with
      | none => rfl
      | some row =>
        have := s.configurations.numbered id (by rw [hrow]; rfl)
        omega
    rw [hrow]
    rfl
  · cases hrow : s.configurations.row id with
    | none => rfl
    | some row =>
      dsimp only
      rw [attach_eq h.written]
      rfl

/-- The matching label is the first of the included ones that the host holds. -/
theorem head_writes {id : Int} (holds : Int → Bool) (name : Int → Option String) (refs : List LabelRef)
    (place : Nat → Int) (hname : ∀ ref ∈ refs, (name ref.labelID).isSome = true) :
    (((writes id .included refs place).filter (fun row => holds row.labelID)).filterMap (fun row =>
      (name row.labelID).map (fun text => (row.position, LabelMatch.mk row.labelID text)))).head?.map Prod.snd =
      (refs.find? (fun ref => holds ref.labelID)).bind
        (fun ref => (name ref.labelID).map (LabelMatch.mk ref.labelID)) := by
  induction refs generalizing place with
  | nil => rfl
  | cons ref refs ih =>
    rw [writes_cons]
    cases hholds : holds ref.labelID with
    | true =>
      obtain ⟨text, htext⟩ := Option.isSome_iff_exists.mp (hname ref List.mem_cons_self)
      simp [hholds, htext]
    | false =>
      rw [List.filter_cons_of_neg (by simp [hholds]), List.find?_cons_of_neg (by simp [hholds])]
      exact ih _ (fun ref hmem => hname ref (List.mem_cons_of_mem _ hmem))

theorem included_targetWrites (id : Int) (targets : LabelSet) :
    (targetWrites id targets).filter (fun row => row.direction = .included) =
      writes id .included targets.includes (fun i => i) := by
  rw [targetWrites_eq, List.filter_append]
  have hall : (writes id .included targets.includes (fun i => i)).filter (fun row => row.direction = .included) =
      writes id .included targets.includes (fun i => i) := by
    apply List.filter_eq_self.mpr
    intro row hrow
    exact decide_eq_true (mem_writes hrow).2.1
  have hnone : (writes id .excluded targets.excludes (fun i => i)).filter
      (fun row => row.direction = .included) = [] := by
    apply List.filter_eq_nil_iff.mpr
    intro row hrow
    rw [(mem_writes hrow).2.1]
    decide
  rw [hall, hnone, List.append_nil]

/-- The labels that a configuration names exist. -/
theorem includes_known (h : Represents s ps) (id : Int) :
    ∀ ref ∈ (storedTargets s id).includes, (s.labels.row ref.labelID).isSome = true := by
  intro ref href
  have hlt := List.idxOf_lt_length_of_mem href
  have hmem : (⟨id, ref.labelID, .included, ((storedTargets s id).includes.idxOf ref : Int)⟩ : TargetRow) ∈
      targetWrites id (storedTargets s id) := by
    rw [targetWrites_eq, List.mem_append]
    exact .inl (List.mem_mapIdx.mpr ⟨_, hlt, by rw [List.getElem_idxOf hlt]⟩)
  rw [← h.written id] at hmem
  exact h.labels _ (List.mem_of_mem_filter hmem)

theorem matchedLabel_eq (h : Represents s ps) (hostID id : Int) :
    matchedLabel s hostID id = ((storedTargets s id).includes.find? (fun ref => s.membership ref.labelID hostID)).bind
      (fun ref => (s.labels.row ref.labelID).map (LabelMatch.mk ref.labelID)) := by
  have hrows : s.targets.filter (fun row => decide (row.configurationID = id) &&
      decide (row.direction = .included) && s.membership row.labelID hostID) =
      (writes id .included (storedTargets s id).includes (fun i => i)).filter
        (fun row => s.membership row.labelID hostID) := by
    rw [← included_targetWrites, ← h.written id, List.filter_filter, List.filter_filter]
    congr 1
    funext row
    cases decide (row.configurationID = id) <;> cases decide (row.direction = .included) <;>
      cases s.membership row.labelID hostID <;> rfl
  have hsorted : (((writes id .included (storedTargets s id).includes (fun i => i)).filter
      (fun row => s.membership row.labelID hostID)).filterMap (fun row =>
        (s.labels.row row.labelID).map (fun name => (row.position, LabelMatch.mk row.labelID name)))).Pairwise
          (fun a b => a.1 ≤ b.1) := by
    apply List.pairwise_filterMap.mpr
    have hascending : (writes id .included (storedTargets s id).includes (fun i => i)).Pairwise
        (fun a b => a.position < b.position) := writes_ascending (by omega)
    apply (hascending.filter _).imp
    intro a b hlt a' ha' b' hb'
    obtain ⟨-, -, rfl⟩ := Option.map_eq_some_iff.mp ha'
    obtain ⟨-, -, rfl⟩ := Option.map_eq_some_iff.mp hb'
    exact Int.le_of_lt hlt
  simp only [matchedLabel, hrows]
  rw [hsorted.insertionSort_eq]
  exact head_writes (fun label => s.membership label hostID) s.labels.row _ _ (includes_known h id)

theorem isExcluded_eq (h : Represents s ps) (hostID id : Int) :
    isExcluded s hostID id = (storedTargets s id).excludes.any (fun ref => s.membership ref.labelID hostID) := by
  have hrows : isExcluded s hostID id = ((s.targets.filter (fun row => row.configurationID = id)).any
      (fun row => decide (row.direction = .excluded) && s.membership row.labelID hostID)) := by
    simp only [isExcluded, List.any_filter, Bool.and_assoc]
  rw [hrows, h.written id, targetWrites_eq, List.any_append]
  have hnone : (writes id .included (storedTargets s id).includes (fun i => i)).any
      (fun row => decide (row.direction = .excluded) && s.membership row.labelID hostID) = false := by
    rw [List.any_eq_false]
    intro row hrow
    rw [(mem_writes hrow).2.1]
    simp
  rw [hnone, Bool.false_or, Bool.eq_iff_iff, List.any_eq_true, List.any_eq_true]
  constructor
  · rintro ⟨row, hrow, hholds⟩
    obtain ⟨i, hi, rfl⟩ := List.mem_mapIdx.mp hrow
    exact ⟨_, List.getElem_mem hi, by simpa using hholds⟩
  · rintro ⟨ref, href, hholds⟩
    have hlt := List.idxOf_lt_length_of_mem href
    refine ⟨_, List.mem_mapIdx.mpr ⟨_, hlt, rfl⟩, ?_⟩
    rw [List.getElem_idxOf hlt]
    simpa using hholds

theorem selects_iff (h : Represents s ps) (hostID id : Int) :
    ((matchedLabel s hostID id).isSome && !isExcluded s hostID id) =
      (storedTargets s id).reaches (fun label => s.membership label hostID) := by
  rw [isExcluded_eq h, LabelSet.reaches]
  congr 1
  rw [matchedLabel_eq h, Bool.eq_iff_iff, List.any_eq_true]
  constructor
  · intro hsome
    obtain ⟨label, hlabel⟩ := Option.isSome_iff_exists.mp hsome
    obtain ⟨ref, hfind, -⟩ := Option.bind_eq_some_iff.mp hlabel
    exact ⟨ref, List.mem_of_find?_eq_some hfind, by simpa using List.find?_some hfind⟩
  · intro hany
    obtain ⟨ref, hfind⟩ := Option.isSome_iff_exists.mp (List.find?_isSome.mpr hany)
    obtain ⟨name, hname⟩ := Option.isSome_iff_exists.mp (includes_known h id ref (List.mem_of_find?_eq_some hfind))
    rw [hfind, Option.bind_some, hname]
    rfl

/-- The query for a host finds the first configuration of the list that reaches it. -/
theorem resolve_represents (h : Represents s ps) (hostID : Int) :
    (resolveConfigurationForHostWithTargets s hostID).map (fun found =>
        (found.configuration.id, Configuration.setup found.configuration, found.matchedViaLabel.id)) =
      sentTo ps (fun label => s.membership label hostID) ∧
    ∀ found ∈ resolveConfigurationForHostWithTargets s hostID,
      s.labels.row found.matchedViaLabel.id = some found.matchedViaLabel.name := by
  obtain ⟨xs, hlists, rfl⟩ := h.listed
  have hfirst : (ordered ConfigurationRow.position ((entries s.configurations).filter (fun a =>
      (matchedLabel s hostID a.1).isSome && !isExcluded s hostID a.1))).head? =
      xs.find? (fun a => (storedTargets s a.1).reaches (fun label => s.membership label hostID)) := by
    rw [hlists.ordered_filter, List.head?_filter]
    congr 1
    funext a
    exact selects_iff h hostID a.1
  have hlist : ((xs.map (entry s)).find? (fun p => p.2.targets.reaches (fun label => s.membership label hostID))) =
      (xs.find? (fun a => (storedTargets s a.1).reaches (fun label => s.membership label hostID))).map (entry s) := by
    rw [List.find?_map]
    rfl
  rw [resolveConfigurationForHostWithTargets, resolveConfigurationForHost, hfirst, sentTo, hlist]
  cases hfind : xs.find? (fun a => (storedTargets s a.1).reaches (fun label => s.membership label hostID)) with
  | none =>
    constructor
    · rfl
    · intro found hfound
      cases hfound
  | some a =>
    have hreaches : (storedTargets s a.1).reaches (fun label => s.membership label hostID) = true := by
      simpa using List.find?_some hfind
    rw [← selects_iff h, Bool.and_eq_true] at hreaches
    obtain ⟨label, hlabel⟩ := Option.isSome_iff_exists.mp hreaches.1
    have hmatched := hlabel
    rw [matchedLabel_eq h] at hmatched
    obtain ⟨ref, href, hname⟩ := Option.bind_eq_some_iff.mp hmatched
    obtain ⟨name, hrow, rfl⟩ := Option.map_eq_some_iff.mp hname
    simp only [Option.bind_some, Option.map_some, hlabel, attach_eq h.written, List.map_cons, List.head?_cons,
      entry, href, Option.mem_def, Option.some.injEq, forall_eq']
    exact ⟨rfl, hrow⟩

/-- After any run of requests, accepted or refused, and of changes to labels, the store is the
list that the accepted ones make: it is listed in that order, every configuration reads as it
was last sent, and a host is sent the first configuration that reaches it, by the first of its
labels that the host holds. -/
theorem store_keeps_priorities (httpsURL : String → Bool) (events : List Event) :
    let s := exec (step httpsURL) {} events
    let ps := (changes httpsURL {} events).foldl apply []
    ((list s).map (fun c => (c.id, Configuration.setup c)) = ps ∧
      (list s).Pairwise (fun a b => a.position < b.position)) ∧
    (∀ id, (getByID s id).toOption.map Configuration.setup = (ps.find? (fun p => p.1 = id)).map Prod.snd) ∧
    ∀ hostID,
      (resolveConfigurationForHostWithTargets s hostID).map (fun found =>
          (found.configuration.id, Configuration.setup found.configuration, found.matchedViaLabel.id)) =
        sentTo ps (fun label => s.membership label hostID) ∧
      ∀ found ∈ resolveConfigurationForHostWithTargets s hostID,
        s.labels.row found.matchedViaLabel.id = some found.matchedViaLabel.name := by
  have h : Represents (exec (step httpsURL) {} events) ((changes httpsURL {} events).foldl apply []) :=
    represents_run represents_empty events
  exact ⟨list_represents h, getByID_represents h, resolve_represents h⟩

end Reads

end SantaPriorities
