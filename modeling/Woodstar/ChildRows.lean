import Woodstar.RankedTables

/-!
# Rows that belong to others

A numbered table whose rows have an owner and a rank among the rows of their owner. The rows of
an owner are replaced by deleting them and inserting a new list; nobody else's rows change.
-/
namespace ChildRows

open KeyedRows RankedTables

variable {ρ κ : Type} [DecidableEq κ] {t : Table ρ}

/-- All numbers that were handed out. -/
def numbers (t : Table ρ) : List Int := (List.range t.used).map (fun n : Nat => (n : Int) + 1)

theorem entries_eq (t : Table ρ) :
    entries t = (numbers t).filterMap (fun id => (t.row id).map (Prod.mk id)) := by
  rw [entries, Table.ids, List.filterMap_filter]
  apply List.filterMap_congr
  intro id _
  cases t.row id <;> rfl

theorem next_notMem_numbers (t : Table ρ) : t.next ∉ numbers t := by
  intro h
  obtain ⟨n, hn, heq⟩ := List.mem_map.mp h
  rw [List.mem_range] at hn
  simp only [Table.next] at heq
  omega

theorem row_next (t : Table ρ) : t.row t.next = none := by
  cases hrow : t.row t.next with
  | none => rfl
  | some row =>
    have := t.numbered t.next (by rw [hrow]; rfl)
    simp only [Table.next] at this
    omega

/-- An insertion leaves the rows that are there. -/
theorem row_insert_of_some {id : Int} {row : ρ} (h : t.row id = some row) (new : ρ) :
    (t.insert new).row id = some row := by
  rw [Table.row_insert, if_neg, h]
  rintro rfl
  rw [row_next] at h
  cases h

theorem entries_insert (t : Table ρ) (row : ρ) : entries (t.insert row) = entries t ++ [(t.next, row)] := by
  have hnumbers : numbers (t.insert row) = numbers t ++ [t.next] := by
    simp only [numbers, Table.used_insert, List.range_succ, List.map_append, List.map_singleton]
    rfl
  rw [entries_eq, entries_eq, hnumbers, List.filterMap_append]
  congr 1
  · apply List.filterMap_congr
    intro id hid
    rw [Table.row_insert, if_neg]
    rintro rfl
    exact next_notMem_numbers t hid
  · simp [Table.row_insert]

/-- `DELETE ... WHERE p` -/
def eraseWhere (t : Table ρ) (p : ρ → Bool) : Table ρ where
  row := fun id => (t.row id).filter (fun row => !p row)
  used := t.used
  numbered := by
    intro id h
    apply t.numbered id
    cases hrow : t.row id with
    | none =>
      rw [hrow] at h
      cases h
    | some row => rfl

theorem row_eraseWhere {p : ρ → Bool} {id : Int} {row : ρ} :
    (eraseWhere t p).row id = some row ↔ t.row id = some row ∧ p row = false := by
  simp only [eraseWhere, Option.filter_eq_some_iff, Bool.not_eq_true']

theorem entries_eraseWhere (t : Table ρ) (p : ρ → Bool) :
    entries (eraseWhere t p) = (entries t).filter (fun e => !p e.2) := by
  rw [entries_eq, entries_eq, List.filter_filterMap]
  apply List.filterMap_congr
  intro id _
  simp only [eraseWhere]
  cases t.row id with
  | none => rfl
  | some row => cases hp : p row <;> simp [Option.filter, hp]

def insertAll (t : Table ρ) (rows : List ρ) : Table ρ := rows.foldl Table.insert t

/-- The rows with the numbers that they are given from `id` on. -/
def numberedFrom (id : Int) : List ρ → List (Int × ρ)
  | [] => []
  | row :: rows => (id, row) :: numberedFrom (id + 1) rows

theorem numberedFrom_snd (id : Int) (rows : List ρ) : (numberedFrom id rows).map Prod.snd = rows := by
  induction rows generalizing id with
  | nil => rfl
  | cons row rows ih => rw [numberedFrom, List.map_cons, ih]

theorem entries_insertAll (t : Table ρ) (rows : List ρ) :
    entries (insertAll t rows) = entries t ++ numberedFrom t.next rows := by
  induction rows generalizing t with
  | nil => exact (List.append_nil _).symm
  | cons row rows ih =>
    have hstep : insertAll t (row :: rows) = insertAll (t.insert row) rows := rfl
    have hnext : (t.insert row).next = t.next + 1 := by
      simp only [Table.next, Table.used_insert]
      omega
    rw [hstep, ih, entries_insert, hnext, numberedFrom, List.append_assoc, List.singleton_append]

variable (owner : ρ → κ) (rank : ρ → Int)

def owned (t : Table ρ) (o : κ) : List (Int × ρ) := (entries t).filter (fun e => owner e.2 = o)

/-- `SELECT ... WHERE owner = o ORDER BY rank, id` -/
def children (t : Table ρ) (o : κ) : List ρ := (ordered rank (owned owner t o)).map Prod.snd

variable {owner rank} {o : κ}

theorem mem_owned {id : Int} {row : ρ} : (id, row) ∈ owned owner t o ↔ t.row id = some row ∧ owner row = o := by
  rw [owned, List.mem_filter, mem_entries, decide_eq_true_eq]

theorem mem_children {row : ρ} : row ∈ children owner rank t o ↔ owner row = o ∧ ∃ id, t.row id = some row := by
  have hmem : ∀ e, e ∈ ordered rank (owned owner t o) ↔ e ∈ owned owner t o :=
    fun e => (List.perm_insertionSort (Before rank) (owned owner t o)).mem_iff
  simp only [children, List.mem_map, hmem]
  constructor
  · rintro ⟨⟨id, row'⟩, hrow', rfl⟩
    obtain ⟨hrow, howner⟩ := mem_owned.mp hrow'
    exact ⟨howner, id, hrow⟩
  · rintro ⟨howner, id, hrow⟩
    exact ⟨(id, row), mem_owned.mpr ⟨hrow, howner⟩, rfl⟩

theorem owned_eraseWhere_of_kept {p : ρ → Bool} (h : ∀ row, owner row = o → p row = false) :
    owned owner (eraseWhere t p) o = owned owner t o := by
  rw [owned, owned, entries_eraseWhere, List.filter_filter]
  apply List.filter_congr
  intro e _
  by_cases ho : owner e.2 = o
  · simp [ho, h e.2 ho]
  · simp [ho]

theorem owned_eraseWhere_of_erased {p : ρ → Bool} (h : ∀ row, owner row = o → p row = true) :
    owned owner (eraseWhere t p) o = [] := by
  rw [owned, entries_eraseWhere, List.filter_filter, List.filter_eq_nil_iff]
  intro e _
  by_cases ho : owner e.2 = o
  · simp [ho, h e.2 ho]
  · simp [ho]

theorem mem_numberedFrom {id : Int} {rows : List ρ} {e : Int × ρ} (h : e ∈ numberedFrom id rows) : e.2 ∈ rows := by
  have hmem := List.mem_map_of_mem (f := Prod.snd) h
  rwa [numberedFrom_snd] at hmem

theorem owned_insertAll_of_others {rows : List ρ} (h : ∀ row ∈ rows, owner row ≠ o) :
    owned owner (insertAll t rows) o = owned owner t o := by
  rw [owned, entries_insertAll, List.filter_append, owned]
  have hnone : (numberedFrom t.next rows).filter (fun e => owner e.2 = o) = [] := by
    rw [List.filter_eq_nil_iff]
    intro e he
    simpa using h e.2 (mem_numberedFrom he)
  rw [hnone, List.append_nil]

theorem numberedFrom_ascending {rows : List ρ} (h : rows.Pairwise (fun a b => rank a < rank b)) (id : Int) :
    (numberedFrom id rows).Pairwise (fun a b => rank a.2 < rank b.2) := by
  rw [← List.pairwise_map (f := Prod.snd) (R := fun a b => rank a < rank b), numberedFrom_snd]
  exact h

/-- What is inserted for an owner without rows is read back. -/
theorem children_insertAll {rows : List ρ} (hnone : owned owner t o = []) (hall : ∀ row ∈ rows, owner row = o)
    (h : rows.Pairwise (fun a b => rank a < rank b)) : children owner rank (insertAll t rows) o = rows := by
  have howned : owned owner (insertAll t rows) o = numberedFrom t.next rows := by
    rw [owned, entries_insertAll, List.filter_append, ← owned, hnone, List.nil_append, List.filter_eq_self]
    intro e he
    simpa using hall e.2 (mem_numberedFrom he)
  have hsorted : (numberedFrom t.next rows).Pairwise (Before rank) :=
    (numberedFrom_ascending h t.next).imp Or.inl
  rw [children, howned, ordered, hsorted.insertionSort_eq, numberedFrom_snd]

theorem row_insertAll {rows : List ρ} {row : ρ} :
    (∃ id, (insertAll t rows).row id = some row) ↔ (∃ id, t.row id = some row) ∨ row ∈ rows := by
  have hback : ∀ t : Table ρ, (∃ id, t.row id = some row) ↔ row ∈ (entries t).map Prod.snd := by
    intro t
    simp only [List.mem_map, Prod.exists, exists_eq_right, mem_entries]
  rw [hback, hback, entries_insertAll, List.map_append, numberedFrom_snd, List.mem_append]

end ChildRows
