import Mathlib.Data.List.Sort
import Woodstar.KeyedRows

/-!
# Tables with ranks

A numbered table whose rows carry a rank, and the list of its rows by rank. While the ranks are
distinct, every query that orders by them finds this one list. An insertion behind the last
rank, an update, a deletion and a new ranking of the table do the same to the list.
-/
namespace RankedTables

open KeyedRows

variable {ρ : Type} {rank : ρ → Int} {t : Table ρ} {xs : List (Int × ρ)}

/-- Every sorted arrangement of a strictly ascending list is the list. -/
theorem eq_of_perm_of_strict {α : Type} {le lt : α → α → Prop} {sorted strict : List α}
    (hperm : sorted.Perm strict) (hsorted : sorted.Pairwise le) (hstrict : strict.Pairwise lt)
    (hle : ∀ a b, lt a b → le a b) (hlt : ∀ a b, lt a b → ¬ le b a) : sorted = strict := by
  apply List.Perm.eq_of_pairwise _ hsorted (hstrict.imp (hle _ _)) hperm
  intro a b ha hb hab hba
  by_contra hne
  have heither : strict.Pairwise (fun a b => lt a b ∨ lt b a) := hstrict.imp Or.inl
  have hsymm : Std.Symm (fun a b => lt a b ∨ lt b a) := ⟨fun _ _ => Or.symm⟩
  cases heither.forall (hperm.subset ha) hb hne with
  | inl h => exact hlt a b h hba
  | inr h => exact hlt b a h hab

def entries (t : Table ρ) : List (Int × ρ) := t.ids.filterMap (fun id => (t.row id).map (Prod.mk id))

theorem mem_entries {id : Int} {row : ρ} : (id, row) ∈ entries t ↔ t.row id = some row := by
  simp only [entries, List.mem_filterMap, Option.map_eq_some_iff, Prod.mk.injEq]
  constructor
  · rintro ⟨id', -, row', hrow, rfl, rfl⟩
    exact hrow
  · intro hrow
    exact ⟨id, Table.mem_ids.mpr (by rw [hrow]; rfl), row, hrow, rfl, rfl⟩

theorem entries_nodup (t : Table ρ) : (entries t).Nodup := by
  have hids : ((entries t).map Prod.fst).Nodup := by
    apply nodup_keys_filterMap (fun id : Int => id) Function.injective_id t.ids_nodup
    intro id c hc
    obtain ⟨row, -, rfl⟩ := Option.map_eq_some_iff.mp hc
    rfl
  exact List.Nodup.of_map _ hids

/-- The order of `ORDER BY rank, id`. -/
def Before (rank : ρ → Int) (a b : Int × ρ) : Prop :=
  rank a.2 < rank b.2 ∨ rank a.2 = rank b.2 ∧ a.1 ≤ b.1

instance decidableBefore (rank : ρ → Int) : DecidableRel (Before rank) :=
  fun a b => inferInstanceAs (Decidable (rank a.2 < rank b.2 ∨ rank a.2 = rank b.2 ∧ a.1 ≤ b.1))

def ordered (rank : ρ → Int) (entries : List (Int × ρ)) : List (Int × ρ) :=
  entries.insertionSort (Before rank)

/-- The list holds the rows of the table, in strictly ascending order of their ranks. -/
structure Lists (rank : ρ → Int) (t : Table ρ) (xs : List (Int × ρ)) : Prop where
  ascending : xs.Pairwise (fun a b => rank a.2 < rank b.2)
  exact : ∀ id row, (id, row) ∈ xs ↔ t.row id = some row

theorem lists_empty : Lists rank (Table.empty : Table ρ) [] where
  ascending := List.Pairwise.nil
  exact := by simp [Table.empty]

theorem Lists.nodup (h : Lists rank t xs) : xs.Nodup := by
  apply h.ascending.imp
  rintro a b hlt rfl
  omega

theorem Lists.perm (h : Lists rank t xs) : xs.Perm (entries t) := by
  rw [List.perm_ext_iff_of_nodup h.nodup (entries_nodup t)]
  rintro ⟨id, row⟩
  rw [h.exact, mem_entries]

/-- A part of the rows that a query selects comes in the order of the list. -/
theorem Lists.ordered_filter (h : Lists rank t xs) (p : Int × ρ → Bool) :
    ordered rank ((entries t).filter p) = xs.filter p := by
  have htotal : Std.Total (Before rank) := ⟨fun a b => by unfold Before; omega⟩
  have htrans : IsTrans (Int × ρ) (Before rank) := ⟨fun a b c => by unfold Before; omega⟩
  apply eq_of_perm_of_strict ((List.perm_insertionSort _ _).trans (h.perm.symm.filter p))
    (List.pairwise_insertionSort _ _) (h.ascending.filter p)
  · intro a b hlt
    exact .inl hlt
  · intro a b hlt
    unfold Before
    omega

theorem Lists.ordered_eq (h : Lists rank t xs) : ordered rank (entries t) = xs := by
  have hall := h.ordered_filter (fun _ => true)
  rwa [List.filter_true, List.filter_true] at hall

theorem Lists.find (h : Lists rank t xs) (id : Int) :
    xs.find? (fun a => a.1 = id) = (t.row id).map (Prod.mk id) := by
  cases hrow : t.row id with
  | none =>
    apply List.find?_eq_none.mpr
    rintro ⟨id', row⟩ hmem heq
    have hid : id' = id := by simpa using heq
    subst hid
    rw [(h.exact id' row).mp hmem] at hrow
    cases hrow
  | some row =>
    cases hfind : xs.find? (fun a => a.1 = id) with
    | none =>
      have hne := List.find?_eq_none.mp hfind _ ((h.exact id row).mpr hrow)
      simp at hne
    | some a =>
      obtain ⟨id', row'⟩ := a
      have hid : id' = id := by simpa using List.find?_some hfind
      subst hid
      have hrow' := (h.exact id' row').mp (List.mem_of_find?_eq_some hfind)
      rw [hrow] at hrow'
      rw [Option.some.inj hrow']
      rfl

/-- `COALESCE(MAX(rank) + 1, 0)` -/
def nextRank (rank : ρ → Int) (t : Table ρ) : Int :=
  match ((entries t).map (fun a => rank a.2)).max? with
  | none => 0
  | some last => last + 1

theorem lt_nextRank {id : Int} {row : ρ} (h : t.row id = some row) : rank row < nextRank rank t := by
  have hmem : rank row ∈ (entries t).map (fun a => rank a.2) :=
    List.mem_map.mpr ⟨(id, row), mem_entries.mpr h, rfl⟩
  unfold nextRank
  cases hmax : ((entries t).map (fun a => rank a.2)).max? with
  | none =>
    rw [List.max?_eq_none_iff.mp hmax] at hmem
    cases hmem
  | some last =>
    have hle := (List.max?_eq_some_iff.mp hmax).2 _ hmem
    exact Int.lt_add_one_of_le hle

theorem Lists.insert (h : Lists rank t xs) {row : ρ} (hrank : rank row = nextRank rank t) :
    Lists rank (t.insert row) (xs ++ [(t.next, row)]) where
  ascending := by
    apply List.pairwise_append.mpr
    refine ⟨h.ascending, List.pairwise_singleton _ _, ?_⟩
    rintro ⟨id, old⟩ hold b hb
    rw [List.mem_singleton] at hb
    subst hb
    rw [hrank]
    exact lt_nextRank ((h.exact id old).mp hold)
  exact := by
    have hnext : t.row t.next = none := by
      cases hrow : t.row t.next with
      | none => rfl
      | some row =>
        have := t.numbered t.next (by rw [hrow]; rfl)
        simp only [Table.next] at this
        omega
    intro id row'
    rw [Table.row_insert, List.mem_append, h.exact, List.mem_singleton, Prod.mk.injEq]
    by_cases hid : id = t.next
    · subst hid
      rw [hnext]
      simp [eq_comm]
    · simp [hid]

theorem Lists.modify (h : Lists rank t xs) {id : Int} {f : ρ → ρ}
    (hrank : ∀ row, t.row id = some row → rank (f row) = rank row) :
    Lists rank (t.modify id f) (xs.map (fun a => if a.1 = id then (a.1, f a.2) else a)) where
  ascending := by
    have hkeep : ∀ a ∈ xs, rank (if a.1 = id then (a.1, f a.2) else a).2 = rank a.2 := by
      intro a ha
      split_ifs with hid
      · exact hrank a.2 (hid ▸ (h.exact a.1 a.2).mp ha)
      · rfl
    apply List.pairwise_map.mpr
    apply h.ascending.imp_of_mem
    intro a b ha hb hlt
    rwa [hkeep a ha, hkeep b hb]
  exact := by
    intro id' row
    rw [Table.row_modify, List.mem_map]
    constructor
    · rintro ⟨⟨id'', old⟩, hmem, heq⟩
      have hold := (h.exact id'' old).mp hmem
      by_cases hid : id'' = id
      · simp only [hid, if_true, Prod.mk.injEq] at heq
        obtain ⟨rfl, rfl⟩ := heq
        rw [if_pos rfl, ← hid, hold]
        rfl
      · simp only [hid, if_false, Prod.mk.injEq] at heq
        obtain ⟨rfl, rfl⟩ := heq
        rw [if_neg hid, hold]
    · intro hrow
      by_cases hid : id' = id
      · rw [if_pos hid] at hrow
        obtain ⟨old, hold, rfl⟩ := Option.map_eq_some_iff.mp hrow
        exact ⟨(id', old), (h.exact id' old).mpr hold, by simp [hid]⟩
      · rw [if_neg hid] at hrow
        exact ⟨(id', row), (h.exact id' row).mpr hrow, by simp [hid]⟩

theorem Lists.erase (h : Lists rank t xs) (id : Int) :
    Lists rank (t.erase id) (xs.filter (fun a => a.1 ≠ id)) where
  ascending := h.ascending.filter _
  exact := by
    intro id' row
    rw [Table.row_erase, List.mem_filter, h.exact]
    by_cases hid : id' = id
    · simp [hid]
    · simp [hid]

/-- `DELETE ... WHERE id = ANY(ids)` -/
def eraseAll (t : Table ρ) (ids : List Int) : Table ρ := ids.foldl Table.erase t

theorem Lists.eraseAll (h : Lists rank t xs) (ids : List Int) :
    Lists rank (eraseAll t ids) (xs.filter (fun a => a.1 ∉ ids)) := by
  induction ids generalizing t xs with
  | nil => simpa [RankedTables.eraseAll] using h
  | cons id ids ih =>
    have hrest := ih (h.erase id)
    rw [List.filter_filter] at hrest
    have hsame : (fun a : Int × ρ => decide (a.1 ∉ ids) && decide (a.1 ≠ id)) =
        fun a => decide (a.1 ∉ id :: ids) := by
      funext a
      rw [← Bool.decide_and, decide_eq_decide, List.mem_cons, not_or]
      exact and_comm
    rwa [hsame] at hrest

theorem row_eraseAll {ids : List Int} {id : Int} :
    (eraseAll t ids).row id = if id ∈ ids then none else t.row id := by
  induction ids generalizing t with
  | nil => rfl
  | cons first ids ih =>
    have hstep : eraseAll t (first :: ids) = eraseAll (t.erase first) ids := rfl
    rw [hstep, ih, Table.row_erase]
    by_cases hid : id = first
    · simp [hid]
    · simp [hid]

/-- `UPDATE` of every row. -/
def updateAll (t : Table ρ) (f : Int → ρ → ρ) : Table ρ where
  row := fun id => (t.row id).map (f id)
  used := t.used
  numbered := by
    intro id h
    rw [Option.isSome_map] at h
    exact t.numbered id h

theorem updateAll_of_empty (h : ∀ id, t.row id = none) (f : Int → ρ → ρ) : updateAll t f = t := by
  have hrows : (fun id => (t.row id).map (f id)) = t.row := by
    funext id
    rw [h id, Option.map_none]
  obtain ⟨row, used, numbered⟩ := t
  simp only [updateAll, Table.mk.injEq, and_true]
  exact hrows

/-- A new ranking: every row takes the place of its number in a list of all of them. -/
theorem lists_updateAll {f : Int → ρ → ρ} {orderedIDs : List Int} (hnodup : orderedIDs.Nodup)
    (hall : ∀ id, id ∈ orderedIDs ↔ (t.row id).isSome = true)
    (hrank : ∀ id row, t.row id = some row → rank (f id row) = (orderedIDs.idxOf id : Int)) :
    Lists rank (updateAll t f)
      (orderedIDs.filterMap (fun id => (t.row id).map (fun row => (id, f id row)))) where
  ascending := by
    apply List.pairwise_filterMap.mpr
    apply (List.pairwise_iff_getElem.mpr _ : orderedIDs.Pairwise
      (fun id id' => orderedIDs.idxOf id < orderedIDs.idxOf id')).imp
    · intro id id' hlt a ha b hb
      obtain ⟨row, hrow, rfl⟩ := Option.map_eq_some_iff.mp ha
      obtain ⟨row', hrow', rfl⟩ := Option.map_eq_some_iff.mp hb
      simp only [hrank id row hrow, hrank id' row' hrow']
      omega
    · intro i j hi hj hij
      rw [hnodup.idxOf_getElem, hnodup.idxOf_getElem]
      exact hij
  exact := by
    intro id row
    simp only [updateAll, List.mem_filterMap, Option.map_eq_some_iff, Prod.mk.injEq]
    constructor
    · rintro ⟨id', -, row', hrow, rfl, rfl⟩
      exact ⟨row', hrow, rfl⟩
    · rintro ⟨old, hold, rfl⟩
      exact ⟨id, (hall id).mpr (by rw [hold]; rfl), old, hold, rfl, rfl⟩

end RankedTables
