import Mathlib.Data.List.Dedup
import Mathlib.Data.List.Perm.Subperm
import Woodstar.Primitives
import Woodstar.Runs
import Woodstar.UniqueColumns

/-!
# Priority order of configurations and distribution points

`ReorderConfigurations` and the distribution points' `Reorder` are one call on
two tables: a statement that negates the positions of the requested rows, a
statement that un-negates the whole table, and the commit. Creates append behind
the last committed position, and creates and deletes interleave with the call.
-/
namespace PriorityOrder

open Primitives (Fault)
open UniqueColumns
open Runs (tryExec)

/-- The next statement of a reorder call. -/
inductive ReorderAt where
  | negate
  | unnegate
  | commit
  | finished (result : Except Fault Unit)
  deriving DecidableEq, Repr

/-- `ids` are the identities handed out so far. -/
structure Table where
  ids : List Int := []
  row : Int → Cell Int := fun _ => .absent
  reorder : ReorderAt := .negate

def Table.visible (t : Table) : List Int := t.ids.filter (fun id => (t.row id).isLive)

def Table.positions (t : Table) : List Int :=
  t.visible.filterMap (fun id => (t.row id).base)

/-- `COALESCE(MAX(position) + 1, 0)` over the committed rows. -/
def Table.nextPosition (t : Table) : Int :=
  match t.positions.max? with
  | none => 0
  | some p => p + 1

/-- The identity sequence never returns an id twice. -/
def Table.nextID (t : Table) : Int := t.ids.foldl max 0 + 1

/-- One of the two tables: its name, and what its errors call a row. -/
structure Kind where
  table : String
  noun : String
  deriving DecidableEq, Repr

def santaConfigurations : Kind := ⟨"santa_configurations", "configuration"⟩

def munkiDistributionPoints : Kind := ⟨"munki_distribution_points", "distribution point"⟩

def Kind.mismatch (kind : Kind) : Fault :=
  .invalidInput s!"ordered_ids must exactly match existing {kind.noun} IDs"

def Kind.positionTaken (kind : Kind) : Fault := .database s!"{kind.table}_position_key"

/-- The transaction ends with this error. -/
def Table.fail (t : Table) (e : Fault) : Table :=
  { t with row := fun id => (t.row id).revert, reorder := .finished (.error e) }

/-- `-ordered.position`, counted from one. -/
def negated (orderedIDs : List Int) (id _ : Int) : Int := -(orderedIDs.idxOf id + 1 : Int)

/-- `-position - 1`. -/
def unnegated (_ position : Int) : Int := -position - 1

/-- The rows that the first statement updates: all, for an exact permutation. -/
def updatedRows (orderedIDs : List Int) (scan : List Int) : List Int :=
  let total := scan.length
  let requested := orderedIDs.length
  let distinctRequested := orderedIDs.dedup.length
  let matched := (orderedIDs.filter (· ∈ scan)).length
  if total = requested ∧ requested = distinctRequested ∧ requested = matched then scan else []

/-- A statement visits the visible rows in any order `scan`. -/
def stepReorder (kind : Kind) (orderedIDs scan : List Int) (t : Table) : Option Table :=
  match t.reorder with
  | .negate =>
    if ¬scan.Perm t.visible then none
    else
      let updated := updatedRows orderedIDs scan
      match moveCells t.ids (negated orderedIDs) updated t.row with
      | .waits => none
      | .conflicts => some (t.fail kind.positionTaken)
      | .ok row =>
        if updated.length ≠ scan.length then some (t.fail kind.mismatch)
        else some { t with row := row, reorder := .unnegate }
  | .unnegate =>
    if ¬scan.Perm t.visible then none
    else
      match moveCells t.ids unnegated scan t.row with
      | .waits => none
      | .conflicts => some (t.fail kind.positionTaken)
      | .ok row => some { t with row := row, reorder := .commit }
  | .commit => some { t with
      row := fun id => (t.row id).settle
      reorder := .finished (.ok ()) }
  | .finished _ => none

inductive Event where
  | reorder (scan : List Int)
  | insert
  | commit (id : Int)
  | rollback (id : Int)
  | delete (id : Int)
  deriving DecidableEq, Repr

/-- One statement of any party. It is not enabled while it waits for another. -/
def step (kind : Kind) (orderedIDs : List Int) (t : Table) : Event → Option Table
  | .reorder scan => stepReorder kind orderedIDs scan t
  | .insert =>
    match insertCell t.ids t.row t.nextID t.nextPosition with
    | .waits => none
    | .conflicts => some { t with ids := t.ids ++ [t.nextID] }
    | .ok row => some { t with ids := t.ids ++ [t.nextID], row := row }
  | .commit id =>
    match t.row id with
    | .inserted p => some { t with row := Function.update t.row id (.live p none) }
    | _ => none
  | .rollback id =>
    match t.row id with
    | .inserted _ => some { t with row := Function.update t.row id .absent }
    | _ => none
  | .delete id =>
    match t.row id with
    | .live _ (some _) => none
    | .live _ none => some { t with row := Function.update t.row id .absent }
    | _ => some t

/-- `Store.ReorderConfigurations` of the Santa configurations. -/
def reorderConfigurations : List Int → Table → Event → Option Table := step santaConfigurations

/-- `Store.Reorder` of the Munki distribution points. -/
def reorderDistributionPoints : List Int → Table → Event → Option Table :=
  step munkiDistributionPoints

variable {kind : Kind} {orderedIDs : List Int} {t t' : Table}

theorem mem_visible {id : Int} : id ∈ t.visible ↔ id ∈ t.ids ∧ (t.row id).isLive = true := by
  simp [Table.visible]

theorem mem_visible_of_live {id p : Int} {m : Option Int} (hlist : Listed t.ids t.row)
    (h : t.row id = .live p m) : id ∈ t.visible :=
  mem_visible.mpr ⟨hlist id (by rw [h]; nofun), by rw [h]; rfl⟩

theorem lt_nextPosition {id p : Int} {m : Option Int} (hlist : Listed t.ids t.row)
    (h : t.row id = .live p m) : p < t.nextPosition := by
  have hmem : p ∈ t.positions :=
    List.mem_filterMap.mpr ⟨id, mem_visible_of_live hlist h, by rw [h]; rfl⟩
  unfold Table.nextPosition
  cases hmax : t.positions.max? with
  | none =>
    rw [List.max?_eq_none_iff] at hmax
    rw [hmax] at hmem
    cases hmem
  | some q =>
    have := (List.max?_eq_some_iff.mp hmax).2 p hmem
    exact Int.lt_add_one_of_le this

theorem nextPosition_nonneg (h : ∀ id p, (t.row id).base = some p → 0 ≤ p) :
    0 ≤ t.nextPosition := by
  unfold Table.nextPosition
  cases hmax : t.positions.max? with
  | none => exact Int.le_refl 0
  | some q =>
    obtain ⟨id, -, hid⟩ := List.mem_filterMap.mp (List.max?_eq_some_iff.mp hmax).1
    have := h id q hid
    simp only
    omega

theorem le_foldl_max (ids : List Int) (a : Int) :
    a ≤ ids.foldl max a ∧ ∀ id ∈ ids, id ≤ ids.foldl max a := by
  induction ids generalizing a with
  | nil => simp
  | cons b bs ih =>
    obtain ⟨ha, hbs⟩ := ih (max a b)
    refine ⟨(le_max_left a b).trans ha, ?_⟩
    intro id hid
    rcases List.mem_cons.mp hid with rfl | hid
    · exact (le_max_right a id).trans ha
    · exact hbs id hid

theorem nextID_fresh (t : Table) : t.nextID ∉ t.ids := by
  intro h
  have := (le_foldl_max t.ids 0).2 _ h
  unfold Table.nextID at this
  omega

/-- The first statement updates all visible rows or none; all of a nonempty
table only for an exact permutation. -/
theorem updatedRows_all {scan : List Int}
    (h : (updatedRows orderedIDs scan).length = scan.length) :
    updatedRows orderedIDs scan = scan ∧ (scan = [] ∨ scan.Perm orderedIDs ∧ orderedIDs.Nodup) := by
  unfold updatedRows at h ⊢
  simp only at h ⊢
  split_ifs at h ⊢ with hc
  · obtain ⟨htotal, hdistinct, hmatched⟩ := hc
    have hnodup : orderedIDs.Nodup := by
      have := (List.dedup_sublist orderedIDs).eq_of_length hdistinct.symm
      exact this ▸ List.nodup_dedup orderedIDs
    have hall : ∀ id ∈ orderedIDs, id ∈ scan := by
      simpa using List.length_filter_eq_length_iff.mp hmatched.symm
    refine ⟨rfl, .inr ⟨?_, hnodup⟩⟩
    exact ((List.subperm_of_subset hnodup hall).perm_of_length_le (by omega)).symm
  · have hnil := List.length_eq_zero_iff.mp h.symm
    exact ⟨hnil.symm, .inl hnil⟩

/-- Before a reorder call: positions are distinct and no update is open. Creates
may be open. -/
structure Ready (t : Table) : Prop where
  reorder : t.reorder = .negate
  unmoved : ∀ id, (t.row id).isMoved = false
  unique : Unique t.row
  nonneg : ∀ id p, (t.row id).base = some p → 0 ≤ p
  listed : Listed t.ids t.row
  nodup : t.ids.Nodup

/-- The second statement finds no row that the first one did not update. -/
def Alone (t : Table) : Event → Prop
  | .reorder _ => t.reorder = .unnegate → ∀ id ∈ t.visible, (t.row id).isMoved = true
  | _ => True

instance (t : Table) : ∀ e, Decidable (Alone t e)
  | .reorder _ => inferInstanceAs (Decidable
      (t.reorder = .unnegate → ∀ id ∈ t.visible, (t.row id).isMoved = true))
  | .insert => .isTrue trivial
  | .commit _ => .isTrue trivial
  | .rollback _ => .isTrue trivial
  | .delete _ => .isTrue trivial

/-- The rows of the call carry these new positions, and no other row carries one. -/
structure Moved (orderedIDs : List Int) (position : Int → Int) (seen : List Int)
    (row : Int → Cell Int) : Prop where
  rows : ∀ id ∈ seen, ∃ p, row id = .live p (some (position id))
  others : ∀ id ∉ seen, (row id).isMoved = false
  order : seen = [] ∨ seen.Perm orderedIDs ∧ orderedIDs.Nodup

/-- After the commit the rows of the call stand at their ranks, and every other
row stands behind them. -/
structure Settled (orderedIDs seen : List Int) (row : Int → Cell Int) : Prop where
  unmoved : ∀ id, (row id).isMoved = false
  ranked : ∀ id ∈ seen, row id = .absent ∨ row id = .live (orderedIDs.idxOf id) none
  behind : ∀ id ∉ seen, ∀ p, (row id).base = some p →
    ∀ a ∈ seen, ∀ k m, row a = .live k m → k < p
  order : seen = [] ∨ seen.Perm orderedIDs ∧ orderedIDs.Nodup

def Phase (orderedIDs seen : List Int) (row : Int → Cell Int) : ReorderAt → Prop
  | .negate => ∀ id, (row id).isMoved = false
  | .unnegate => Moved orderedIDs (fun id => -(orderedIDs.idxOf id + 1 : Int)) seen row
  | .commit => Moved orderedIDs (fun id => orderedIDs.idxOf id) seen row
  | .finished (.ok ()) => Settled orderedIDs seen row
  | .finished (.error _) => ∀ id, (row id).isMoved = false

/-- What holds in every state of a run from `t₀`, when the first statement has seen these rows. -/
structure Inv (orderedIDs seen : List Int) (t₀ t : Table) : Prop where
  unique : Unique t.row
  nonneg : ∀ id p, (t.row id).base = some p → 0 ≤ p
  listed : Listed t.ids t.row
  nodup : t.ids.Nodup
  grown : ∀ id ∈ t₀.ids, id ∈ t.ids
  known : ∀ id ∈ seen, id ∈ t.ids
  phase : Phase orderedIDs seen t.row t.reorder
  kept : t.reorder ≠ .finished (.ok ()) → ∀ id p m, t₀.row id = .live p m →
    t.row id = .absent ∨ ∃ m, t.row id = .live p m

theorem inv_ready (h : Ready t) : Inv orderedIDs [] t t where
  unique := h.unique
  nonneg := h.nonneg
  listed := h.listed
  nodup := h.nodup
  grown := fun _ => id
  known := by simp
  phase := by
    rw [h.reorder]
    exact h.unmoved
  kept := fun _ _ _ m hid => .inr ⟨m, hid⟩

section Update

variable {seen : List Int} {row : Int → Cell Int} {id : Int} {c : Cell Int}

theorem isMoved_update (hc : c.isMoved = false) {j : Int} (h : (row j).isMoved = false) :
    (Function.update row id c j).isMoved = false := by
  by_cases hj : j = id
  · rw [hj, Function.update_self]
    exact hc
  · rw [Function.update_of_ne hj]
    exact h

/-- Another party's write to a row that the call has not moved. -/
theorem moved_update {position : Int → Int} (h : Moved orderedIDs position seen row)
    (hid : (row id).isMoved = false) (hc : c.isMoved = false) :
    Moved orderedIDs position seen (Function.update row id c) where
  rows := by
    intro a ha
    obtain ⟨p, hp⟩ := h.rows a ha
    have hne : a ≠ id := by
      rintro rfl
      rw [hp] at hid
      cases hid
    exact ⟨p, by rw [Function.update_of_ne hne, hp]⟩
  others := fun a ha => isMoved_update hc (h.others a ha)
  order := h.order

/-- Another party's write after the commit: a row goes, or one that is not of
the call stands behind. -/
theorem settled_update (h : Settled orderedIDs seen row) (hc : c.isMoved = false)
    (hrow : c = .absent ∨ id ∉ seen ∧ ∀ p, c.base = some p →
      ∀ a ∈ seen, ∀ k m, row a = .live k m → k < p) :
    Settled orderedIDs seen (Function.update row id c) := by
  have hsub : ∀ a ∈ seen, Function.update row id c a = .absent ∨
      Function.update row id c a = row a := by
    intro a ha
    by_cases hai : a = id
    · rcases hrow with rfl | ⟨hn, -⟩
      · exact .inl (by rw [hai, Function.update_self])
      · exact absurd (hai ▸ ha) hn
    · exact .inr (Function.update_of_ne hai _ _)
  refine ⟨fun a => isMoved_update hc (h.unmoved a), ?_, ?_, h.order⟩
  · intro a ha
    rcases hsub a ha with hs | hs
    · exact .inl hs
    · rw [hs]
      exact h.ranked a ha
  · intro b hb p hp a ha k m hk
    have hk' : row a = .live k m := by
      rcases hsub a ha with hs | hs
      · rw [hs] at hk; cases hk
      · rw [← hs]; exact hk
    by_cases hbi : b = id
    · rw [hbi, Function.update_self] at hp
      rcases hrow with rfl | ⟨-, hlt⟩
      · cases hp
      · exact hlt p hp a ha k m hk'
    · rw [Function.update_of_ne hbi] at hp
      exact h.behind b hb p hp a ha k m hk'

/-- Another party writes to one row: it removes it, commits its insert, or
inserts it behind every committed row. -/
theorem phase_update {at_ : ReorderAt} (h : Phase orderedIDs seen row at_)
    (hid : (row id).isMoved = false) (hc : c.isMoved = false)
    (hrow : c = .absent ∨ (∃ p, row id = .inserted p ∧ c.base = some p) ∨
      id ∉ seen ∧ ∀ p, c.base = some p → ∀ a k m, row a = .live k m → k < p) :
    Phase orderedIDs seen (Function.update row id c) at_ := by
  cases at_ with
  | negate => exact fun a => isMoved_update hc (h a)
  | unnegate => exact moved_update h hid hc
  | commit => exact moved_update h hid hc
  | finished result =>
    rcases result with e | ⟨⟩
    · exact fun a => isMoved_update hc (h a)
    · apply settled_update h hc
      rcases hrow with rfl | ⟨p, hp, hbase⟩ | ⟨hnew, hlt⟩
      · exact .inl rfl
      · have hn : id ∉ seen := by
          intro hin
          rcases h.ranked id hin with ha | ha
          · rw [hp] at ha; cases ha
          · rw [hp] at ha; cases ha
        refine .inr ⟨hn, fun q hq => h.behind id hn q ?_⟩
        rw [hp, Cell.base_inserted, ← hbase, hq]
      · exact .inr ⟨hnew, fun p hp a _ k m hk => hlt p hp a k m hk⟩

end Update

variable {t₀ : Table} {seen : List Int}

/-- A write of another party to one row that the call has not moved. -/
theorem inv_update (h : Inv orderedIDs seen t₀ t) (hlist₀ : Listed t₀.ids t₀.row) {id : Int}
    {c : Cell Int} {ids : List Int} (hu : Unique (Function.update t.row id c))
    (hids : ∀ j ∈ t.ids, j ∈ ids) (hnodup : ids.Nodup) (hin : id ∈ ids)
    (hid : (t.row id).isMoved = false) (hc : c.isMoved = false)
    (hrow : c = .absent ∨ (∃ p, t.row id = .inserted p ∧ c.base = some p) ∨
      id ∉ t.ids ∧ ∀ p, c.base = some p → 0 ≤ p ∧ ∀ a k m, t.row a = .live k m → k < p) :
    Inv orderedIDs seen t₀ { t with ids := ids, row := Function.update t.row id c } where
  unique := hu
  nonneg := by
    intro j p hp
    by_cases hj : j = id
    · simp only [hj, Function.update_self] at hp
      rcases hrow with rfl | ⟨q, hq, hbase⟩ | ⟨-, hlt⟩
      · cases hp
      · apply h.nonneg id p
        rw [hq, Cell.base_inserted, ← hbase, hp]
      · exact (hlt p hp).1
    · simp only [Function.update_of_ne hj] at hp
      exact h.nonneg j p hp
  listed := by
    intro j hj
    by_cases hji : j = id
    · exact hji ▸ hin
    · simp only [Function.update_of_ne hji] at hj
      exact hids j (h.listed j hj)
  nodup := hnodup
  grown := fun j hj => hids j (h.grown j hj)
  known := fun j hj => hids j (h.known j hj)
  phase := by
    apply phase_update h.phase hid hc
    rcases hrow with rfl | hcommit | ⟨hnew, hlt⟩
    · exact .inl rfl
    · exact .inr (.inl hcommit)
    · exact .inr (.inr ⟨fun hr => hnew (h.known id hr), fun p hp => (hlt p hp).2⟩)
  kept := by
    intro hr j p m hj
    by_cases hji : j = id
    · subst hji
      simp only [Function.update_self]
      rcases hrow with rfl | ⟨q, hq, -⟩ | ⟨hnew, -⟩
      · exact .inl rfl
      · rcases h.kept hr j p m hj with ha | ⟨m', hm⟩
        · rw [hq] at ha; cases ha
        · rw [hq] at hm; cases hm
      · exact absurd (h.grown j (hlist₀ j (by rw [hj]; nofun))) hnew
    · simp only [Function.update_of_ne hji]
      exact h.kept hr j p m hj

theorem inv_insert (h : Inv orderedIDs seen t₀ t) (hlist₀ : Listed t₀.ids t₀.row)
    (hs : step kind orderedIDs t .insert = some t') : Inv orderedIDs seen t₀ t' := by
  have hfresh := nextID_fresh t
  have habsent : t.row t.nextID = .absent := by
    by_contra hne
    exact hfresh (h.listed _ hne)
  have hids : ∀ j ∈ t.ids, j ∈ t.ids ++ [t.nextID] := fun j hj => List.mem_append_left _ hj
  have hnodup : (t.ids ++ [t.nextID]).Nodup :=
    h.nodup.append (List.nodup_singleton _) (by simpa using hfresh)
  have hin : t.nextID ∈ t.ids ++ [t.nextID] := List.mem_append_right _ (List.mem_singleton.mpr rfl)
  simp only [step] at hs
  cases hw : insertCell t.ids t.row t.nextID t.nextPosition with
  | waits => rw [hw] at hs; cases hs
  | conflicts =>
    rw [hw] at hs
    obtain rfl := Option.some.inj hs
    exact ⟨h.unique, h.nonneg, fun j hj => hids j (h.listed j hj), hnodup,
      fun j hj => hids j (h.grown j hj), fun j hj => hids j (h.known j hj), h.phase, h.kept⟩
  | ok row =>
    rw [hw] at hs
    obtain rfl := Option.some.inj hs
    have hu := unique_insert h.unique h.listed hw
    obtain ⟨rfl, -⟩ := insertCell_ok hw
    refine inv_update h hlist₀ hu hids hnodup hin (by rw [habsent]; rfl) rfl
      (.inr (.inr ⟨hfresh, ?_⟩))
    intro p hp
    obtain rfl := Option.some.inj hp
    exact ⟨nextPosition_nonneg h.nonneg, fun a k m hk => lt_nextPosition h.listed hk⟩

theorem inv_commit (h : Inv orderedIDs seen t₀ t) (hlist₀ : Listed t₀.ids t₀.row) {id : Int}
    (hs : step kind orderedIDs t (.commit id) = some t') : Inv orderedIDs seen t₀ t' := by
  simp only [step] at hs
  split at hs
  · rename_i p hp
    obtain rfl := Option.some.inj hs
    exact inv_update h hlist₀ (unique_commit h.unique hp) (fun _ hj => hj) h.nodup
      (h.listed id (by rw [hp]; nofun)) (by rw [hp]; rfl) rfl (.inr (.inl ⟨p, hp, rfl⟩))
  · cases hs

theorem inv_remove (h : Inv orderedIDs seen t₀ t) (hlist₀ : Listed t₀.ids t₀.row) {id : Int}
    (hid : (t.row id).isMoved = false) (hex : t.row id ≠ .absent) :
    Inv orderedIDs seen t₀ { t with row := Function.update t.row id .absent } :=
  inv_update h hlist₀ (unique_absent h.unique id) (fun _ hj => hj) h.nodup
    (h.listed id hex) hid rfl (.inl rfl)

theorem inv_rollback (h : Inv orderedIDs seen t₀ t) (hlist₀ : Listed t₀.ids t₀.row) {id : Int}
    (hs : step kind orderedIDs t (.rollback id) = some t') : Inv orderedIDs seen t₀ t' := by
  simp only [step] at hs
  split at hs
  · rename_i p hp
    obtain rfl := Option.some.inj hs
    exact inv_remove h hlist₀ (by rw [hp]; rfl) (by rw [hp]; nofun)
  · cases hs

theorem inv_delete (h : Inv orderedIDs seen t₀ t) (hlist₀ : Listed t₀.ids t₀.row) {id : Int}
    (hs : step kind orderedIDs t (.delete id) = some t') : Inv orderedIDs seen t₀ t' := by
  simp only [step] at hs
  split at hs
  · cases hs
  · rename_i p hp
    obtain rfl := Option.some.inj hs
    exact inv_remove h hlist₀ (by rw [hp]; rfl) (by rw [hp]; nofun)
  · obtain rfl := Option.some.inj hs
    exact h

/-- A failed call drops its updates. -/
theorem inv_fail (h : Inv orderedIDs seen t₀ t) (hr : t.reorder ≠ .finished (.ok ())) (e : Fault) :
    Inv orderedIDs seen t₀ (t.fail e) where
  unique := unique_revert h.unique
  nonneg := by
    intro id p hp
    simp only [Table.fail, Cell.base_revert] at hp
    exact h.nonneg id p hp
  listed := listed_map (f := Cell.revert) h.listed rfl
  nodup := h.nodup
  grown := h.grown
  known := h.known
  phase := by
    intro id
    exact Cell.isMoved_revert _
  kept := by
    intro _ id p m hid
    simp only [Table.fail]
    rcases h.kept hr id p m hid with ha | ⟨m', hm⟩
    · exact .inl (by rw [ha]; rfl)
    · refine .inr ⟨none, ?_⟩
      rw [hm]
      cases m' <;> rfl

theorem live_of_visible {id : Int} (h : id ∈ t.visible) : ∃ p m, t.row id = .live p m := by
  have hl := (mem_visible.mp h).2
  rcases hrow : t.row id with _ | p | ⟨p, m⟩
  · rw [hrow] at hl; cases hl
  · rw [hrow] at hl; cases hl
  · exact ⟨p, m, rfl⟩

/-- An update of the call moves open positions only. -/
theorem inv_moves (h : Inv orderedIDs seen t₀ t) {f : Int → Int → Int} {visited : List Int}
    {row : Int → Cell Int} (hn : visited.Nodup) (hr : t.reorder ≠ .finished (.ok ()))
    (hw : moveCells t.ids f visited t.row = .ok row) {at_ : ReorderAt}
    (hphase : Moves f visited t.row row → Phase orderedIDs seen row at_) :
    Inv orderedIDs seen t₀ { t with row := row, reorder := at_ } := by
  obtain ⟨hm, hu, hlist⟩ := moveCells_spec hn h.unique h.listed hw
  refine ⟨hu, ?_, hlist, h.nodup, h.grown, h.known, hphase hm, ?_⟩
  · intro id p hp
    simp only [moves_base hm] at hp
    exact h.nonneg id p hp
  · intro _ id p m hid
    rcases h.kept hr id p m hid with ha | ⟨m', hm'⟩
    · left
      simp only [hm id, ha]
    · right
      by_cases hv : id ∈ visited
      · exact ⟨_, moves_live hm hm' hv⟩
      · exact ⟨m', (moves_other hm hv).trans hm'⟩

/-- The first statement gives every visible row the negated rank. -/
theorem inv_negate (h : Inv orderedIDs t.visible t₀ t) (hr : t.reorder = .negate) {scan : List Int}
    {row : Int → Cell Int} (hscan : scan.Perm t.visible)
    (hlen : (updatedRows orderedIDs scan).length = scan.length)
    (hw : moveCells t.ids (negated orderedIDs) (updatedRows orderedIDs scan) t.row = .ok row) :
    Inv orderedIDs t.visible t₀ { t with row := row, reorder := .unnegate } := by
  have hphase := h.phase
  rw [hr] at hphase
  obtain ⟨hall, horder⟩ := updatedRows_all hlen
  rw [hall] at hw
  refine inv_moves h (hscan.nodup_iff.mpr (h.nodup.filter _)) (by rw [hr]; nofun) hw
    fun hm => ⟨?_, ?_, ?_⟩
  · intro id hid
    obtain ⟨p, m, hp⟩ := live_of_visible hid
    exact ⟨p, moves_live hm hp (hscan.mem_iff.mpr hid)⟩
  · intro id hid
    rw [moves_other hm (fun hs => hid (hscan.mem_iff.mp hs))]
    exact hphase id
  · rcases horder with rfl | ⟨hperm, hnodup⟩
    · exact .inl hscan.symm.eq_nil
    · exact .inr ⟨hscan.symm.trans hperm, hnodup⟩

/-- The second statement gives the rows of the call their ranks, when it finds
no other. -/
theorem inv_unnegate (h : Inv orderedIDs seen t₀ t) (hr : t.reorder = .unnegate) {scan : List Int}
    {row : Int → Cell Int} (hscan : scan.Perm t.visible)
    (halone : ∀ id ∈ t.visible, (t.row id).isMoved = true)
    (hw : moveCells t.ids unnegated scan t.row = .ok row) :
    Inv orderedIDs seen t₀ { t with row := row, reorder := .commit } := by
  have hphase := h.phase
  rw [hr] at hphase
  refine inv_moves h (hscan.nodup_iff.mpr (h.nodup.filter _)) (by rw [hr]; nofun) hw
    fun hm => ⟨?_, ?_, hphase.order⟩
  · intro id hid
    obtain ⟨p, hp⟩ := hphase.rows id hid
    refine ⟨p, ?_⟩
    rw [moves_live hm hp (hscan.mem_iff.mpr (mem_visible_of_live h.listed hp))]
    simp only [unnegated, Option.getD_some, Cell.live.injEq, Option.some.injEq, true_and]
    omega
  · intro id hid
    have hn : id ∉ scan := by
      intro hs
      have := halone id (hscan.mem_iff.mp hs)
      rw [hphase.others id hid] at this
      cases this
    rw [moves_other hm hn]
    exact hphase.others id hid

/-- A row that is not of the call keeps clear of the ranks. -/
theorem rank_lt_target {seen : List Int} {row : Int → Cell Int} (hu : Unique row)
    (h : Moved orderedIDs (fun id => orderedIDs.idxOf id) seen row) {id p : Int}
    (hid : id ∉ seen) (hp : (row id).target = some p) (hnn : 0 ≤ p) {a : Int}
    (ha : a ∈ seen) : (orderedIDs.idxOf a : Int) < p := by
  obtain ⟨hperm, hnodup⟩ := h.order.resolve_left (List.ne_nil_of_mem ha)
  have hlt : orderedIDs.idxOf a < orderedIDs.length :=
    List.idxOf_lt_length_iff.mpr (hperm.mem_iff.mp ha)
  by_contra hle
  have hrank : p.toNat < orderedIDs.length := by omega
  have hb : orderedIDs[p.toNat] ∈ seen := hperm.mem_iff.mpr (List.getElem_mem hrank)
  obtain ⟨v, hv⟩ := h.rows _ hb
  have htarget : (row orderedIDs[p.toNat]).target = some p := by
    simp only [hv, Cell.target_live, Option.getD_some, hnodup.idxOf_getElem, Option.some.injEq]
    omega
  exact hid (hu.target _ _ p hp htarget ▸ hb)

theorem settled_commit (h : Inv orderedIDs seen t₀ t)
    (hmoved : Moved orderedIDs (fun id => orderedIDs.idxOf id) seen t.row) :
    Settled orderedIDs seen (fun id => (t.row id).settle) where
  unmoved := fun _ => Cell.isMoved_settle _
  ranked := by
    intro id hid
    obtain ⟨p, hp⟩ := hmoved.rows id hid
    exact .inr (by rw [hp]; rfl)
  behind := by
    intro id hid p hp a ha k m hk
    obtain ⟨v, hv⟩ := hmoved.rows a ha
    have hbase : (t.row id).base = some p := by
      rw [← Cell.settle_eq (hmoved.others id hid), hp]
    rw [Cell.base_settle] at hp
    simp only [hv, Cell.settle, Cell.live.injEq] at hk
    exact hk.1 ▸ rank_lt_target h.unique hmoved hid hp (h.nonneg id p hbase) ha
  order := hmoved.order

theorem inv_commitReorder (h : Inv orderedIDs seen t₀ t) (hr : t.reorder = .commit) :
    Inv orderedIDs seen t₀ { t with
      row := fun id => (t.row id).settle
      reorder := .finished (.ok ()) } := by
  have hphase := h.phase
  rw [hr] at hphase
  refine ⟨unique_settle h.unique, ?_, listed_map (f := Cell.settle) h.listed rfl, h.nodup, h.grown,
    h.known, settled_commit h hphase, fun hne => absurd rfl hne⟩
  intro id p hp
  by_cases hid : id ∈ seen
  · obtain ⟨v, hv⟩ := hphase.rows id hid
    simp only [hv, Cell.settle, Cell.base_live, Option.some.injEq] at hp
    omega
  · simp only [Cell.settle_eq (hphase.others id hid)] at hp
    exact h.nonneg id p hp

/-- Until its first statement the call has seen nothing; what it will see is in the table. -/
theorem inv_visible (h : Inv orderedIDs seen t₀ t) (hr : t.reorder = .negate) :
    Inv orderedIDs t.visible t₀ t :=
  { h with
    known := fun _ hid => (mem_visible.mp hid).1
    phase := by
      have hphase := h.phase
      rw [hr] at hphase ⊢
      exact hphase }

/-- The first statement is told to have seen the table as it stands. -/
theorem inv_reorder (h : Inv orderedIDs seen t₀ t) {scan : List Int}
    (hseen : t.reorder = .negate → seen = t.visible) (halone : Alone t (.reorder scan))
    (hs : step kind orderedIDs t (.reorder scan) = some t') : Inv orderedIDs seen t₀ t' := by
  simp only [step, stepReorder] at hs
  cases hr : t.reorder with
  | negate =>
    obtain rfl := hseen hr
    have hfail : t.reorder ≠ .finished (.ok ()) := by rw [hr]; nofun
    simp only [hr] at hs
    split at hs
    · cases hs
    · rename_i hscan
      cases hw : moveCells t.ids (negated orderedIDs) (updatedRows orderedIDs scan) t.row with
      | waits => rw [hw] at hs; cases hs
      | conflicts => rw [hw] at hs; exact Option.some.inj hs ▸ inv_fail h hfail _
      | ok row =>
        simp only [hw] at hs
        split at hs
        · exact Option.some.inj hs ▸ inv_fail h hfail _
        · rename_i hlen
          exact Option.some.inj hs ▸ inv_negate h hr (not_not.mp hscan) (not_not.mp hlen) hw
  | unnegate =>
    have hfail : t.reorder ≠ .finished (.ok ()) := by rw [hr]; nofun
    simp only [hr] at hs
    split at hs
    · cases hs
    · rename_i hscan
      cases hw : moveCells t.ids unnegated scan t.row with
      | waits => rw [hw] at hs; cases hs
      | conflicts => rw [hw] at hs; exact Option.some.inj hs ▸ inv_fail h hfail _
      | ok row =>
        rw [hw] at hs
        exact Option.some.inj hs ▸ inv_unnegate h hr (not_not.mp hscan) (halone hr) hw
  | commit =>
    rw [hr] at hs
    exact Option.some.inj hs ▸ inv_commitReorder h hr
  | finished result => rw [hr] at hs; cases hs

theorem inv_step (h : Inv orderedIDs seen t₀ t) (hlist₀ : Listed t₀.ids t₀.row) {e : Event}
    (hseen : t.reorder = .negate → seen = t.visible) (halone : Alone t e)
    (hs : step kind orderedIDs t e = some t') : Inv orderedIDs seen t₀ t' := by
  cases e with
  | reorder scan => exact inv_reorder h hseen halone hs
  | insert => exact inv_insert h hlist₀ hs
  | commit id => exact inv_commit h hlist₀ hs
  | rollback id => exact inv_rollback h hlist₀ hs
  | delete id => exact inv_delete h hlist₀ hs

theorem mem_visible_moves (h : Inv orderedIDs seen t₀ t) {f : Int → Int → Int}
    {visited : List Int} {row : Int → Cell Int} (hn : visited.Nodup)
    (hw : moveCells t.ids f visited t.row = .ok row) {id : Int} (hid : id ∈ t.visible)
    {at_ : ReorderAt} :
    id ∈ ({ t with row := row, reorder := at_ } : Table).visible := by
  obtain ⟨hm, -, hlist⟩ := moveCells_spec hn h.unique h.listed hw
  obtain ⟨p, m, hp⟩ := live_of_visible hid
  by_cases hv : id ∈ visited
  · exact mem_visible_of_live hlist (moves_live hm hp hv)
  · exact mem_visible_of_live hlist ((moves_other hm hv).trans hp)

/-- Each statement of the call keeps the committed rows. -/
theorem mem_visible_reorder (h : Inv orderedIDs seen t₀ t) {scan : List Int}
    (hs : step kind orderedIDs t (.reorder scan) = some t') {id : Int} (hid : id ∈ t.visible) :
    id ∈ t'.visible := by
  have hfail : ∀ e, id ∈ (t.fail e).visible := by
    intro e
    obtain ⟨p, m, hp⟩ := live_of_visible hid
    refine mem_visible.mpr ⟨(mem_visible.mp hid).1, ?_⟩
    simp only [Table.fail, hp]
    cases m <;> rfl
  have hvisited : scan.Perm t.visible → scan.Nodup :=
    fun hscan => hscan.nodup_iff.mpr (h.nodup.filter _)
  simp only [step, stepReorder] at hs
  cases hr : t.reorder with
  | negate =>
    simp only [hr] at hs
    split at hs
    · cases hs
    · rename_i hscan
      have hupdated : (updatedRows orderedIDs scan).Nodup := by
        unfold updatedRows
        simp only
        split
        · exact hvisited (not_not.mp hscan)
        · exact List.nodup_nil
      cases hw : moveCells t.ids (negated orderedIDs) (updatedRows orderedIDs scan) t.row with
      | waits => rw [hw] at hs; cases hs
      | conflicts => rw [hw] at hs; exact Option.some.inj hs ▸ hfail _
      | ok row =>
        simp only [hw] at hs
        split at hs
        · exact Option.some.inj hs ▸ hfail _
        · exact Option.some.inj hs ▸ mem_visible_moves h hupdated hw hid
  | unnegate =>
    simp only [hr] at hs
    split at hs
    · cases hs
    · rename_i hscan
      cases hw : moveCells t.ids unnegated scan t.row with
      | waits => rw [hw] at hs; cases hs
      | conflicts => rw [hw] at hs; exact Option.some.inj hs ▸ hfail _
      | ok row =>
        rw [hw] at hs
        exact Option.some.inj hs ▸ mem_visible_moves h (hvisited (not_not.mp hscan)) hw hid
  | commit =>
    rw [hr] at hs
    obtain rfl := Option.some.inj hs
    obtain ⟨p, m, hp⟩ := live_of_visible hid
    refine mem_visible.mpr ⟨(mem_visible.mp hid).1, ?_⟩
    simp only [hp]
    cases m <;> rfl
  | finished result => rw [hr] at hs; cases hs

theorem mem_visible_update {id j : Int} {c : Cell Int} {ids : List Int} (hid : id ∈ t.visible)
    (hids : ∀ k ∈ t.ids, k ∈ ids) (hj : id ≠ j) :
    id ∈ ({ t with ids := ids, row := Function.update t.row j c } : Table).visible := by
  obtain ⟨hin, hl⟩ := mem_visible.mp hid
  refine mem_visible.mpr ⟨hids id hin, ?_⟩
  simp only [Function.update_of_ne hj]
  exact hl

/-- A committed row leaves the table by its own delete only. -/
theorem mem_visible_step (h : Inv orderedIDs seen t₀ t) {e : Event}
    (hs : step kind orderedIDs t e = some t') {id : Int} (hid : id ∈ t.visible)
    (he : e ≠ .delete id) : id ∈ t'.visible := by
  have hlive := (mem_visible.mp hid).2
  cases e with
  | reorder scan => exact mem_visible_reorder h hs hid
  | insert =>
    simp only [step] at hs
    have hne : id ≠ t.nextID := fun heq => nextID_fresh t (heq ▸ (mem_visible.mp hid).1)
    cases hw : insertCell t.ids t.row t.nextID t.nextPosition with
    | waits => rw [hw] at hs; cases hs
    | conflicts =>
      rw [hw] at hs
      obtain rfl := Option.some.inj hs
      exact mem_visible.mpr ⟨List.mem_append_left _ (mem_visible.mp hid).1, hlive⟩
    | ok row =>
      rw [hw] at hs
      obtain rfl := Option.some.inj hs
      obtain ⟨rfl, -⟩ := insertCell_ok hw
      exact mem_visible_update hid (fun k hk => List.mem_append_left _ hk) hne
  | commit j =>
    simp only [step] at hs
    split at hs
    · rename_i p hp
      obtain rfl := Option.some.inj hs
      exact mem_visible_update hid (fun k hk => hk) (by rintro rfl; rw [hp] at hlive; cases hlive)
    · cases hs
  | rollback j =>
    simp only [step] at hs
    split at hs
    · rename_i p hp
      obtain rfl := Option.some.inj hs
      exact mem_visible_update hid (fun k hk => hk) (by rintro rfl; rw [hp] at hlive; cases hlive)
    · cases hs
  | delete j =>
    have hne : id ≠ j := fun heq => he (by rw [heq])
    simp only [step] at hs
    split at hs
    · cases hs
    · obtain rfl := Option.some.inj hs
      exact mem_visible_update hid (fun k hk => hk) hne
    · obtain rfl := Option.some.inj hs
      exact hid

/-- The other parties do not move the call. -/
theorem reorder_of_other {e : Event} (he : ∀ scan, e ≠ .reorder scan)
    (hs : step kind orderedIDs t e = some t') : t'.reorder = t.reorder := by
  cases e with
  | reorder scan => exact absurd rfl (he scan)
  | insert => simp only [step] at hs; split at hs <;> cases hs <;> rfl
  | commit id => simp only [step] at hs; split at hs <;> cases hs; rfl
  | rollback id => simp only [step] at hs; split at hs <;> cases hs; rfl
  | delete id => simp only [step] at hs; split at hs <;> cases hs <;> rfl

/-- `t₁` is the table that the call's first statement finds in this run. -/
def FirstSees (kind : Kind) (orderedIDs : List Int) (t₀ : Table) (es : List Event) (t₁ : Table) :
    Prop :=
  ∃ before scan after, es = before ++ .reorder scan :: after ∧
    tryExec (step kind orderedIDs) t₀ before = some t₁ ∧ t₁.reorder = .negate

/-- What a successful call owes to the rows of the table that its first statement
found: they are the requested ones, they stay unless someone deletes them, they
stand in the requested order, and every other row stands behind them. -/
structure Honoured (orderedIDs : List Int) (es : List Event) (t₁ t : Table) : Prop where
  exact : t₁.visible = [] ∨ t₁.visible.Perm orderedIDs
  kept : ∀ id ∈ t₁.visible, .delete id ∉ es → id ∈ t.visible
  requested : ∀ a ∈ t₁.visible, ∀ b ∈ t₁.visible, orderedIDs.idxOf a < orderedIDs.idxOf b →
    ∀ p m p' m', t.row a = .live p m → t.row b = .live p' m' → p < p'
  created : ∀ a ∈ t₁.visible, ∀ b ∉ t₁.visible,
    ∀ p m p' m', t.row a = .live p m → t.row b = .live p' m' → p < p'

/-- What the call owes to the table in a run from `t₀` to `t`: distinct positions
from zero on, the requested order after success, and nothing changed by a failure. -/
structure Ordered (kind : Kind) (orderedIDs : List Int) (t₀ : Table) (es : List Event) (t : Table) :
    Prop where
  nonneg : ∀ id p m, t.row id = .live p m → 0 ≤ p
  distinct : ∀ a b p m m', t.row a = .live p m → t.row b = .live p m' → a = b
  succeeded : t.reorder = .finished (.ok ()) →
    ∃ t₁, FirstSees kind orderedIDs t₀ es t₁ ∧ Honoured orderedIDs es t₁ t
  failed : ∀ e, t.reorder = .finished (.error e) → ∀ id p m p' m',
    t₀.row id = .live p m → t.row id = .live p' m' → p' = p

/-- The invariant of a run, with the rows that the first statement saw. -/
structure Called (kind : Kind) (orderedIDs seen : List Int) (t₀ : Table) (past : List Event)
    (t : Table) : Prop where
  inv : Inv orderedIDs seen t₀ t
  first : t.reorder ≠ .negate → ∃ t₁, FirstSees kind orderedIDs t₀ past t₁ ∧ seen = t₁.visible
  kept : ∀ id ∈ seen, .delete id ∉ past → id ∈ t.visible

theorem called_step {past : List Event} {e : Event} (h₀ : Ready t₀)
    (hpast : tryExec (step kind orderedIDs) t₀ past = some t)
    (h : ∃ seen, Called kind orderedIDs seen t₀ past t) (halone : Alone t e)
    (hs : step kind orderedIDs t e = some t') :
    ∃ seen, Called kind orderedIDs seen t₀ (past ++ [e]) t' := by
  obtain ⟨seen, h⟩ := h
  have hdeleted : ∀ {id}, .delete id ∉ past ++ [e] → .delete id ∉ past ∧ e ≠ .delete id := by
    intro id hid
    exact ⟨fun hp => hid (List.mem_append_left _ hp), fun he => hid (by simp [he])⟩
  by_cases hr : t.reorder = .negate
  · have hinv := inv_visible h.inv hr
    refine ⟨t.visible, inv_step hinv h₀.listed (fun _ => rfl) halone hs, ?_, ?_⟩
    · intro hr'
      -- the step that leaves the start of the call is its first statement
      cases e with
      | reorder scan => exact ⟨t, ⟨past, scan, [], rfl, hpast, hr⟩, rfl⟩
      | insert | commit | rollback | delete =>
        exact absurd ((reorder_of_other (by nofun) hs).trans hr) hr'
    · exact fun id hid hd => mem_visible_step hinv hs hid (hdeleted hd).2
  · refine ⟨seen, inv_step h.inv h₀.listed (fun hr' => absurd hr' hr) halone hs, ?_, ?_⟩
    · intro _
      obtain ⟨t₁, ⟨before, scan, after, rfl, hbefore, hr₁⟩, hseen⟩ := h.first hr
      exact ⟨t₁, ⟨before, scan, after ++ [e], by simp, hbefore, hr₁⟩, hseen⟩
    · exact fun id hid hd =>
        mem_visible_step h.inv hs (h.kept id hid (hdeleted hd).1) (hdeleted hd).2

theorem honoured_of_settled {es : List Event} {t₁ : Table}
    (hs : Settled orderedIDs t₁.visible t.row)
    (hkept : ∀ id ∈ t₁.visible, .delete id ∉ es → id ∈ t.visible) :
    Honoured orderedIDs es t₁ t := by
  have hrank : ∀ a ∈ t₁.visible, ∀ p m, t.row a = .live p m → p = orderedIDs.idxOf a := by
    intro a ha p m hp
    rcases hs.ranked a ha with hrow | hrow
    · rw [hrow] at hp; cases hp
    · rw [hrow, Cell.live.injEq] at hp
      exact hp.1.symm
  refine ⟨hs.order.imp_right And.left, hkept, ?_, ?_⟩
  · intro a ha b hb hlt p m p' m' hp hp'
    rw [hrank a ha p m hp, hrank b hb p' m' hp']
    exact_mod_cast hlt
  · intro a ha b hb p m p' m' hp hp'
    exact hs.behind b hb p' (by rw [hp']; rfl) a ha p m hp

theorem ordered_of_called {es : List Event} (h : Called kind orderedIDs seen t₀ es t) :
    Ordered kind orderedIDs t₀ es t := by
  refine ⟨fun id p m hp => h.inv.nonneg id p (by rw [hp]; rfl), ?_, ?_, ?_⟩
  · intro a b p m m' ha hb
    exact h.inv.unique.base a b p (by simp only [ha]; rfl) (by simp only [hb]; rfl)
  · intro hr
    obtain ⟨t₁, hfirst, rfl⟩ := h.first (by rw [hr]; nofun)
    have hsettled := h.inv.phase
    rw [hr] at hsettled
    exact ⟨t₁, hfirst, honoured_of_settled hsettled h.kept⟩
  · intro e hr id p m p' m' hid hid'
    rcases h.inv.kept (by rw [hr]; nofun) id p m hid with ha | ⟨m₁, hm⟩
    · rw [ha] at hid'; cases hid'
    · rw [hm, Cell.live.injEq] at hid'
      exact hid'.1.symm

/-- In every interleaving in which the second statement finds no row that the
first did not update, the priority order survives. -/
theorem reorder_keeps_priority (kind : Kind) (orderedIDs : List Int) (t₀ t : Table)
    (es : List Event) (h₀ : Ready t₀)
    (hc : Runs.TryAlong (step kind orderedIDs) Alone t₀ es)
    (hrun : tryExec (step kind orderedIDs) t₀ es = some t) : Ordered kind orderedIDs t₀ es t := by
  obtain ⟨seen, hcalled⟩ := Runs.tryExec_invariant_along
    (P := fun past t => ∃ seen, Called kind orderedIDs seen t₀ past t)
    (fun _ _ _ _ hpast h halone hs => called_step h₀ hpast h halone hs)
    ⟨[], inv_ready h₀, fun hr => absurd h₀.reorder hr, by simp⟩ hc hrun
  exact ordered_of_called hcalled

/-- Rows 1 and 2, in this order. -/
def sampleTable : Table where
  ids := [1, 2]
  row := Function.update (Function.update (fun _ => .absent) 1 (.live 0 none)) 2 (.live 1 none)

theorem sampleTable_row (id : Int) : sampleTable.row id =
    if id = 2 then .live 1 none else if id = 1 then .live 0 none else .absent := by
  simp only [sampleTable, Function.update_apply]

theorem sampleTable_base {id p : Int} (h : (sampleTable.row id).base = some p) :
    id = p + 1 ∧ 0 ≤ p := by
  rw [sampleTable_row] at h
  split_ifs at h with h₂ h₁
  · simp only [Cell.base_live, Option.some.injEq] at h
    omega
  · simp only [Cell.base_live, Option.some.injEq] at h
    omega
  · cases h

theorem sampleTable_ready : Ready sampleTable := by
  have htarget : ∀ id, (sampleTable.row id).target = (sampleTable.row id).base := by
    intro id
    rw [sampleTable_row]
    split_ifs <;> rfl
  refine ⟨rfl, ?_, ⟨?_, ?_⟩, fun id p hp => (sampleTable_base hp).2, ?_, by decide⟩
  · intro id
    rw [sampleTable_row]
    split_ifs <;> rfl
  · intro i j p hi hj
    have := (sampleTable_base hi).1
    have := (sampleTable_base hj).1
    omega
  · intro i j p hi hj
    simp only [htarget] at hi hj
    have := (sampleTable_base hi).1
    have := (sampleTable_base hj).1
    omega
  · intro id hid
    rw [sampleTable_row] at hid
    split_ifs at hid with h₂ h₁
    · simp [sampleTable, h₂]
    · simp [sampleTable, h₁]
    · exact absurd rfl hid

/-- A create that stays open until the call has committed. -/
def sampleEvents : List Event := [.reorder [1, 2], .insert, .reorder [1, 2], .commit 3, .reorder []]

theorem reorder_keeps_priority_sample :
    ∃ t, tryExec (reorderConfigurations [2, 1]) sampleTable sampleEvents = some t ∧
      Ordered santaConfigurations [2, 1] sampleTable sampleEvents t := by
  obtain ⟨t, ht⟩ : ∃ t, tryExec (reorderConfigurations [2, 1]) sampleTable sampleEvents = some t :=
    Option.isSome_iff_exists.mp (by decide)
  exact ⟨t, ht, reorder_keeps_priority santaConfigurations [2, 1] sampleTable t sampleEvents
    sampleTable_ready (by decide) ht⟩

/-- A create that commits between the two statements. -/
def createdEvents : List Event := [.reorder [1, 2], .insert, .commit 3, .reorder [1, 2, 3], .reorder []]

theorem not_ordered_of_negative {es : List Event} {id p : Int} (hp : p < 0)
    (h : (tryExec (step kind orderedIDs) t₀ es).map (fun t => (t.reorder, t.row id)) =
      some (.finished (.ok ()), .live p none)) :
    ∃ t, tryExec (step kind orderedIDs) t₀ es = some t ∧ t.reorder = .finished (.ok ()) ∧
      ¬Ordered kind orderedIDs t₀ es t := by
  obtain ⟨t, ht, hrow⟩ := Option.map_eq_some_iff.mp h
  rw [Prod.mk.injEq] at hrow
  refine ⟨t, ht, hrow.1, fun ho => ?_⟩
  have := ho.nonneg id p none hrow.2
  omega

/-- On either table the created row ends at -3, before every other row. -/
theorem created_row_negated :
    (∃ t, tryExec (reorderConfigurations [2, 1]) sampleTable createdEvents = some t ∧
      t.reorder = .finished (.ok ()) ∧
      ¬Ordered santaConfigurations [2, 1] sampleTable createdEvents t) ∧
    (∃ t, tryExec (reorderDistributionPoints [2, 1]) sampleTable createdEvents = some t ∧
      t.reorder = .finished (.ok ()) ∧
      ¬Ordered munkiDistributionPoints [2, 1] sampleTable createdEvents t) := by
  have hp : (-3 : Int) < 0 := by decide
  exact ⟨@not_ordered_of_negative _ _ _ _ 3 _ hp (by decide),
    @not_ordered_of_negative _ _ _ _ 3 _ hp (by decide)⟩

end PriorityOrder
