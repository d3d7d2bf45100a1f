import Mathlib.Data.List.Nodup
import Mathlib.Data.List.Range
import Mathlib.Data.List.Perm.Subperm
import Mathlib.Logic.Function.Basic

/-!
# Tables of rows under keys

A numbered table hands out ascending row numbers, never one twice. A batch
upsert merges a list of entries into a table, each into the row under its key;
with distinct keys every row meets at most one entry.
-/
namespace KeyedRows

/-- Rows numbered from one. `used` numbers were handed out so far. -/
structure Table (α : Type*) where
  row : Int → Option α := fun _ => none
  used : Nat := 0
  numbered : ∀ id, (row id).isSome = true → 0 < id ∧ id ≤ used := by simp

namespace Table

variable {α : Type*} {t : Table α} {id id' : Int} {a : α}

def empty : Table α := {}

def next (t : Table α) : Int := t.used + 1

/-- The numbers of the rows, in ascending order. -/
def ids (t : Table α) : List Int :=
  ((List.range t.used).map (fun n : Nat => (n : Int) + 1)).filter (fun id => (t.row id).isSome)

def insert (t : Table α) (a : α) : Table α where
  row := Function.update t.row t.next (some a)
  used := t.used + 1
  numbered := by
    intro id h
    by_cases hid : id = t.next
    · simp only [hid, next]
      omega
    · rw [Function.update_of_ne hid] at h
      have := t.numbered id h
      omega

def modify (t : Table α) (id : Int) (f : α → α) : Table α where
  row := Function.update t.row id ((t.row id).map f)
  used := t.used
  numbered := by
    intro id' h
    by_cases hid : id' = id
    · subst hid
      rw [Function.update_self, Option.isSome_map] at h
      exact t.numbered id' h
    · rw [Function.update_of_ne hid] at h
      exact t.numbered id' h

def erase (t : Table α) (id : Int) : Table α where
  row := Function.update t.row id none
  used := t.used
  numbered := by
    intro id' h
    by_cases hid : id' = id
    · rw [hid, Function.update_self] at h
      cases h
    · rw [Function.update_of_ne hid] at h
      exact t.numbered id' h

/-- The same row numbers with other contents. -/
def map {β : Type*} (t : Table α) (f : α → β) : Table β where
  row := fun id => (t.row id).map f
  used := t.used
  numbered := by
    intro id h
    rw [Option.isSome_map] at h
    exact t.numbered id h

@[simp] theorem used_insert : (t.insert a).used = t.used + 1 := rfl
@[simp] theorem used_modify {f : α → α} : (t.modify id f).used = t.used := rfl
@[simp] theorem used_erase : (t.erase id).used = t.used := rfl

theorem row_insert : (t.insert a).row id = if id = t.next then some a else t.row id := by
  simp [insert, Function.update_apply]

theorem row_modify {f : α → α} :
    (t.modify id f).row id' = if id' = id then (t.row id').map f else t.row id' := by
  by_cases h : id' = id
  · simp [modify, h]
  · simp [modify, h, Function.update_of_ne]

theorem row_erase : (t.erase id).row id' = if id' = id then none else t.row id' := by
  simp [erase, Function.update_apply]

theorem mem_ids : id ∈ t.ids ↔ (t.row id).isSome = true := by
  simp only [ids, List.mem_filter, List.mem_map, List.mem_range]
  constructor
  · exact fun h => h.2
  · intro h
    obtain ⟨hpos, hle⟩ := t.numbered id h
    exact ⟨⟨(id - 1).toNat, by omega, by omega⟩, h⟩

theorem ids_ascending (t : Table α) : t.ids.Pairwise (· < ·) := by
  refine List.Pairwise.filter _ (List.pairwise_map.mpr (List.pairwise_lt_range.imp ?_))
  intro a b h
  omega

theorem ids_nodup (t : Table α) : t.ids.Nodup := t.ids_ascending.imp (fun h => Int.ne_of_lt h)

end Table

/-- Entries computed from distinct rows, each under its row's key. -/
theorem nodup_keys_filterMap {ι κ γ : Type*} {f : ι → Option γ} {key : γ → κ} (rowKey : ι → κ)
    {ids : List ι} (hinj : Function.Injective rowKey) (hids : ids.Nodup)
    (h : ∀ id c, f id = some c → key c = rowKey id) : ((ids.filterMap f).map key).Nodup := by
  have hsub : ((ids.filterMap f).map key).Sublist (ids.map rowKey) := by
    clear hids
    induction ids with
    | nil => exact List.Sublist.refl _
    | cons id ids ih =>
      rw [List.filterMap_cons]
      cases hf : f id with
      | none => exact ih.cons _
      | some c =>
        rw [List.map_cons, List.map_cons, h id c hf]
        exact ih.cons_cons _
  exact hsub.nodup (hids.map hinj)

/-- Among entries computed from distinct rows, the ones of a row are that row's. -/
theorem filter_key_filterMap {ι γ : Type*} [DecidableEq ι] {f : ι → Option γ} {key : γ → ι}
    {ids : List ι} (hids : ids.Nodup) (h : ∀ id c, f id = some c → key c = id) (id : ι) :
    (ids.filterMap f).filter (fun c => key c == id) = if id ∈ ids then (f id).toList else [] := by
  induction ids with
  | nil => rfl
  | cons a as ih =>
    obtain ⟨ha, has⟩ := List.nodup_cons.mp hids
    rw [List.filterMap_cons]
    by_cases hid : a = id
    · subst hid
      cases hf : f a with
      | none => simp [ih has, ha]
      | some c => simp [ih has, ha, h a c hf]
    · have hne : ¬id = a := fun heq => hid heq.symm
      cases hf : f a with
      | none => simp [ih has, hne]
      | some c => simp [ih has, hne, h a c hf, hid]

section Upsert

variable {κ ρ γ : Type*} [DecidableEq κ]

/-- `INSERT ... ON CONFLICT DO UPDATE` for a list of entries, one after another.
`merge` sees the row under the entry's key, if there is one. -/
def upsertAll (key : γ → κ) (merge : γ → Option ρ → ρ) (rows : κ → Option ρ) (batch : List γ) :
    κ → Option ρ :=
  batch.foldl (fun rows c => Function.update rows (key c) (some (merge c (rows (key c))))) rows

theorem upsertAll_of_notMem {key : γ → κ} {merge : γ → Option ρ → ρ} {rows : κ → Option ρ}
    {batch : List γ} {k : κ} (h : k ∉ batch.map key) : upsertAll key merge rows batch k = rows k := by
  induction batch generalizing rows with
  | nil => rfl
  | cons c cs ih =>
    simp only [List.map_cons, List.mem_cons, not_or] at h
    have := @ih (Function.update rows (key c) (some (merge c (rows (key c))))) h.2
    rwa [Function.update_of_ne h.1] at this

theorem upsertAll_of_mem {key : γ → κ} {merge : γ → Option ρ → ρ} {rows : κ → Option ρ}
    {batch : List γ} (hk : (batch.map key).Nodup) {c : γ} (hc : c ∈ batch) :
    upsertAll key merge rows batch (key c) = some (merge c (rows (key c))) := by
  induction batch generalizing rows with
  | nil => cases hc
  | cons d ds ih =>
    rw [List.map_cons, List.nodup_cons] at hk
    change upsertAll key merge (Function.update rows (key d) _) ds (key c) = _
    cases hc with
    | head => rw [upsertAll_of_notMem hk.1, Function.update_self]
    | tail _ hc =>
      have hne : key c ≠ key d := by
        intro h
        exact hk.1 (List.mem_map.mpr ⟨c, hc, h⟩)
      rw [ih hk.2 hc, Function.update_of_ne hne]

end Upsert

end KeyedRows
