import Woodstar.KeyedRows

/-!
# Rows under row locks

A table with a unique index on its values, whose rows transactions lock. An upsert
waits for the lock of the row that it conflicts with, or inserts a row that counts
only once its transaction commits. A rollback takes the rows that were inserted away.
-/
namespace RowLocks

open KeyedRows

/-- A row and the transaction that has locked it. A row that is not committed was
inserted by that transaction. -/
structure Held (α ω : Type*) where
  value : α
  lock : Option ω := none
  committed : Bool := true
  deriving DecidableEq, Repr

/-- No two rows have one value. -/
structure Locked (α ω : Type*) extends Table (Held α ω) where
  unique : ∀ {i j : Int} {a b : Held α ω}, row i = some a → row j = some b → a.value = b.value → i = j

namespace Locked

variable {α ω : Type*} {t t' : Locked α ω} {o o' : ω} {i id : Int} {a b : α} {r : Held α ω}

def empty : Locked α ω where
  toTable := Table.empty
  unique := by
    intro i j a b h
    cases h

/-- Other locks for the same rows. Rows may go. -/
def revise (t : Locked α ω) (f : Int → Held α ω → Option (Held α ω))
    (hf : ∀ i r r', f i r = some r' → r'.value = r.value) : Locked α ω where
  row := fun i => (t.row i).bind (f i)
  used := t.used
  numbered := by
    intro i h
    obtain ⟨r', hr'⟩ := Option.isSome_iff_exists.mp h
    obtain ⟨r, hr, -⟩ := Option.bind_eq_some_iff.mp hr'
    exact t.numbered i (Option.isSome_of_eq_some hr)
  unique := by
    intro i j a b ha hb hvalue
    obtain ⟨ra, hra, hfa⟩ := Option.bind_eq_some_iff.mp ha
    obtain ⟨rb, hrb, hfb⟩ := Option.bind_eq_some_iff.mp hb
    exact t.unique hra hrb (by rw [← hf _ _ _ hfa, ← hf _ _ _ hfb, hvalue])

def lock (t : Locked α ω) (o : ω) (id : Int) : Locked α ω :=
  t.revise (fun i r => some (if i = id then { r with lock := some o } else r)) (by
    intro i r r' h
    rw [← Option.some.inj h]
    split_ifs <;> rfl)

/-- The rows under the numbers `ids` are deleted. -/
def delete (t : Locked α ω) (ids : List Int) : Locked α ω :=
  t.revise (fun i r => if i ∈ ids then none else some r) (by
    intro i r r' h
    split_ifs at h
    rw [← Option.some.inj h])

section

variable [DecidableEq α]

/-- The row with the value, by the unique index. -/
def find (t : Locked α ω) (a : α) : Option Int :=
  t.ids.find? (fun i => (t.row i).any (fun r => r.value = a))

theorem find_eq_some : t.find a = some i ↔ ∃ r, t.row i = some r ∧ r.value = a := by
  constructor
  · intro h
    simpa [Option.any_eq_true] using List.find?_some h
  · intro ⟨r, hr, hvalue⟩
    have hmem : i ∈ t.ids := Table.mem_ids.mpr (Option.isSome_of_eq_some hr)
    have hany : (t.row i).any (fun r => r.value = a) = true := by simp [hr, hvalue]
    cases hfind : t.find a with
    | none => exact absurd hany (List.find?_eq_none.mp hfind i hmem)
    | some j =>
      obtain ⟨s, hs, hsvalue⟩ : ∃ s, t.row j = some s ∧ s.value = a := by
        simpa [Option.any_eq_true] using List.find?_some hfind
      rw [t.unique hr hs (by rw [hvalue, hsvalue])]

theorem value_ne_of_find (h : t.find a = none) (hr : t.row i = some r) : r.value ≠ a := by
  intro hvalue
  rw [find_eq_some.mpr ⟨r, hr, hvalue⟩] at h
  cases h

/-- A row that the open transaction inserts. -/
def insertHeld (t : Locked α ω) (o : ω) (a : α) (h : t.find a = none) : Locked α ω where
  toTable := t.toTable.insert { value := a, lock := some o, committed := false }
  unique := by
    intro i j ra rb ha hb hvalue
    rw [Table.row_insert] at ha hb
    split_ifs at ha hb with hi hj hj
    · rw [hi, hj]
    · rw [← Option.some.inj ha] at hvalue
      exact absurd hvalue.symm (value_ne_of_find h hb)
    · rw [← Option.some.inj hb] at hvalue
      exact absurd hvalue (value_ne_of_find h ha)
    · exact t.unique ha hb hvalue

variable [DecidableEq ω]

/-- The row is there and no other transaction has locked it. -/
def free (t : Locked α ω) (o : ω) (id : Int) : Bool :=
  (t.row id).any (fun r => r.lock = none ∨ r.lock = some o)

/-- `INSERT ... ON CONFLICT DO UPDATE`, with the number of the row. It waits while another
transaction has locked the row. -/
def upsert (t : Locked α ω) (o : ω) (a : α) : Option (Locked α ω × Int) :=
  match h : t.find a with
  | some id => if t.free o id = true then some (t.lock o id, id) else none
  | none => some (t.insertHeld o a h, t.next)

/-- Every lock of the transaction is released and its rows count. -/
def commit (t : Locked α ω) (o : ω) : Locked α ω :=
  t.revise (fun _ r => some (if r.lock = some o then { r with lock := none, committed := true } else r)) (by
    intro i r r' h
    rw [← Option.some.inj h]
    split_ifs <;> rfl)

/-- Every lock of the transaction is released and the rows that it inserted go. -/
def rollback (t : Locked α ω) (o : ω) : Locked α ω :=
  t.revise (fun _ r => if r.lock = some o then
    (if r.committed = true then some { r with lock := none } else none) else some r) (by
    intro i r r' h
    split_ifs at h
    · rw [← Option.some.inj h]
    · rw [← Option.some.inj h])

end

theorem row_revise {f : Int → Held α ω → Option (Held α ω)}
    {hf : ∀ i r r', f i r = some r' → r'.value = r.value} :
    (t.revise f hf).row i = some r ↔ ∃ r₀, t.row i = some r₀ ∧ f i r₀ = some r :=
  Option.bind_eq_some_iff

theorem row_lock : (t.lock o id).row i = some r ↔
    ∃ r₀, t.row i = some r₀ ∧ r = if i = id then { r₀ with lock := some o } else r₀ := by
  rw [lock, row_revise]
  simp only [Option.some.injEq, eq_comm]

theorem row_delete {ids : List Int} : (t.delete ids).row i = some r ↔ t.row i = some r ∧ i ∉ ids := by
  rw [delete, row_revise]
  constructor
  · intro ⟨r₀, hr₀, h⟩
    split_ifs at h with hi
    exact ⟨Option.some.inj h ▸ hr₀, hi⟩
  · intro ⟨hr, hi⟩
    exact ⟨r, hr, if_neg hi⟩

theorem row_next : t.row t.next = none := by
  cases h : t.row t.next with
  | none => rfl
  | some r =>
    have := (t.numbered t.next (Option.isSome_of_eq_some h)).2
    simp only [Table.next] at this
    omega

theorem row_insertHeld [DecidableEq α] {h : t.find a = none} : (t.insertHeld o a h).row i =
    if i = t.next then some { value := a, lock := some o, committed := false } else t.row i :=
  Table.row_insert

section

variable [DecidableEq ω]

theorem row_commit : (t.commit o).row i = some r ↔
    ∃ r₀, t.row i = some r₀ ∧
      r = if r₀.lock = some o then { r₀ with lock := none, committed := true } else r₀ := by
  rw [commit, row_revise]
  simp only [Option.some.injEq, eq_comm]

theorem row_rollback : (t.rollback o).row i = some r ↔
    ∃ r₀, t.row i = some r₀ ∧ (if r₀.lock = some o then
      (if r₀.committed = true then some { r₀ with lock := none } else none) else some r₀) = some r :=
  row_revise

theorem exists_row_of_rollback (h : (t.rollback o).row i = some r) :
    ∃ r₀, t.row i = some r₀ ∧ r₀.value = r.value := by
  obtain ⟨r₀, hr₀, hr⟩ := row_rollback.mp h
  split_ifs at hr
  · exact ⟨r₀, hr₀, by rw [← Option.some.inj hr]⟩
  · exact ⟨r₀, hr₀, by rw [← Option.some.inj hr]⟩

theorem lock_of_free (h : t.free o id = true) (r : Held α ω) (hr : t.row id = some r) :
    r.lock = none ∨ r.lock = some o := by
  simpa [free, hr] using h

theorem exists_row_of_free (h : t.free o id = true) : ∃ r, t.row id = some r := by
  cases hr : t.row id with
  | none => simp [free, hr] at h
  | some r => exact ⟨r, rfl⟩

variable [DecidableEq α]

/-- The upsert has locked a row that was free, or has inserted one. -/
theorem upsert_cases (h : t.upsert o a = some (t', id)) :
    (∃ r, t.row id = some r ∧ r.value = a ∧ (r.lock = none ∨ r.lock = some o) ∧ t' = t.lock o id) ∨
    (∃ hnew : t.find a = none, id = t.next ∧ t' = t.insertHeld o a hnew) := by
  simp only [upsert] at h
  split at h
  case h_1 j hfind =>
    left
    split_ifs at h with hfree
    obtain ⟨rfl, rfl⟩ := Prod.mk.inj (Option.some.inj h)
    obtain ⟨r, hr, hvalue⟩ := find_eq_some.mp hfind
    simp only [free, hr, Option.any_some, decide_eq_true_eq] at hfree
    exact ⟨r, hr, hvalue, hfree, rfl⟩
  case h_2 hfind =>
    right
    obtain ⟨rfl, rfl⟩ := Prod.mk.inj (Option.some.inj h)
    exact ⟨hfind, rfl, rfl⟩

/-- A row after the upsert is a row from before, perhaps locked now, or the new one. -/
theorem row_upsert (h : t.upsert o a = some (t', id)) (hr : t'.row i = some r) :
    (∃ r₀, t.row i = some r₀ ∧ r = if i = id then { r₀ with lock := some o } else r₀) ∨
      (i = id ∧ r = { value := a, lock := some o, committed := false }) := by
  obtain ⟨r₁, -, -, -, rfl⟩ | ⟨hnew, rfl, rfl⟩ := upsert_cases h
  · exact Or.inl (row_lock.mp hr)
  · rw [row_insertHeld] at hr
    split_ifs at hr with hi
    · exact Or.inr ⟨hi, (Option.some.inj hr).symm⟩
    · exact Or.inl ⟨r, hr, by rw [if_neg hi]⟩

end

/-- The transaction has locked the row with the value. -/
def HeldBy (t : Locked α ω) (o : ω) (i : Int) (a : α) : Prop :=
  ∃ r, t.row i = some r ∧ r.value = a ∧ r.lock = some o

/-- The row with the value is committed. -/
def Stands (t : Locked α ω) (i : Int) (a : α) : Prop :=
  ∃ r, t.row i = some r ∧ r.value = a ∧ r.committed = true

theorem HeldBy.owner_eq (h : t.HeldBy o i a) (h' : t.HeldBy o' i b) : o = o' := by
  obtain ⟨r, hr, -, hlock⟩ := h
  obtain ⟨r', hr', -, hlock'⟩ := h'
  rw [hr] at hr'
  rw [← Option.some.inj hr', hlock] at hlock'
  exact Option.some.inj hlock'

theorem HeldBy.lock (h : t.HeldBy o i a) (hfree : ∀ r, t.row id = some r → r.lock = none ∨ r.lock = some o') :
    (t.lock o' id).HeldBy o i a := by
  obtain ⟨r, hr, hvalue, hlock⟩ := h
  by_cases hi : i = id
  · subst hi
    have howner : o = o' := by
      rcases hfree r hr with hnone | hsome
      · rw [hnone] at hlock
        cases hlock
      · rw [hsome] at hlock
        exact (Option.some.inj hlock).symm
    exact ⟨_, row_lock.mpr ⟨r, hr, rfl⟩, by rw [if_pos rfl, hvalue], by rw [if_pos rfl, howner]⟩
  · exact ⟨_, row_lock.mpr ⟨r, hr, rfl⟩, by rw [if_neg hi, hvalue], by rw [if_neg hi, hlock]⟩

theorem heldBy_lock (hr : t.row id = some r) : (t.lock o id).HeldBy o id r.value :=
  ⟨_, row_lock.mpr ⟨r, hr, rfl⟩, by rw [if_pos rfl], by rw [if_pos rfl]⟩

theorem Stands.lock (h : t.Stands i a) : (t.lock o id).Stands i a := by
  obtain ⟨r, hr, hvalue, hcommitted⟩ := h
  exact ⟨_, row_lock.mpr ⟨r, hr, rfl⟩, by split_ifs <;> exact hvalue, by split_ifs <;> exact hcommitted⟩

theorem HeldBy.delete {ids : List Int} (h : t.HeldBy o i a) (hi : i ∉ ids) : (t.delete ids).HeldBy o i a := by
  obtain ⟨r, hr, hvalue, hlock⟩ := h
  exact ⟨r, row_delete.mpr ⟨hr, hi⟩, hvalue, hlock⟩

theorem Stands.delete {ids : List Int} (h : t.Stands i a) (hi : i ∉ ids) : (t.delete ids).Stands i a := by
  obtain ⟨r, hr, hvalue, hcommitted⟩ := h
  exact ⟨r, row_delete.mpr ⟨hr, hi⟩, hvalue, hcommitted⟩

section

variable [DecidableEq ω]

theorem HeldBy.commit (h : t.HeldBy o i a) (hne : o ≠ o') : (t.commit o').HeldBy o i a := by
  obtain ⟨r, hr, hvalue, hlock⟩ := h
  have hother : ¬r.lock = some o' := by
    rw [hlock]
    exact fun heq => hne (Option.some.inj heq)
  exact ⟨_, row_commit.mpr ⟨r, hr, rfl⟩, by rw [if_neg hother, hvalue], by rw [if_neg hother, hlock]⟩

theorem Stands.commit (h : t.Stands i a) : (t.commit o).Stands i a := by
  obtain ⟨r, hr, hvalue, hcommitted⟩ := h
  exact ⟨_, row_commit.mpr ⟨r, hr, rfl⟩, by split_ifs <;> exact hvalue, by
    split_ifs
    · rfl
    · exact hcommitted⟩

/-- What the transaction has locked is committed with it. -/
theorem HeldBy.stands (h : t.HeldBy o i a) : (t.commit o).Stands i a := by
  obtain ⟨r, hr, hvalue, hlock⟩ := h
  exact ⟨_, row_commit.mpr ⟨r, hr, rfl⟩, by rw [if_pos hlock, hvalue], by rw [if_pos hlock]⟩

theorem HeldBy.rollback (h : t.HeldBy o i a) (hne : o ≠ o') : (t.rollback o').HeldBy o i a := by
  obtain ⟨r, hr, hvalue, hlock⟩ := h
  have hother : ¬r.lock = some o' := by
    rw [hlock]
    exact fun heq => hne (Option.some.inj heq)
  exact ⟨r, row_rollback.mpr ⟨r, hr, if_neg hother⟩, hvalue, hlock⟩

theorem Stands.rollback (h : t.Stands i a) : (t.rollback o).Stands i a := by
  obtain ⟨r, hr, hvalue, hcommitted⟩ := h
  by_cases hlock : r.lock = some o
  · exact ⟨{ r with lock := none }, row_rollback.mpr ⟨r, hr, by rw [if_pos hlock, if_pos hcommitted]⟩,
      hvalue, hcommitted⟩
  · exact ⟨r, row_rollback.mpr ⟨r, hr, if_neg hlock⟩, hvalue, hcommitted⟩

variable [DecidableEq α]

theorem HeldBy.upsert (h : t.HeldBy o i b) (hupsert : t.upsert o' a = some (t', id)) : t'.HeldBy o i b := by
  obtain ⟨r, hr, -, hfree, rfl⟩ | ⟨hnew, rfl, rfl⟩ := upsert_cases hupsert
  · apply h.lock
    intro r' hr'
    rw [hr] at hr'
    exact Option.some.inj hr' ▸ hfree
  · obtain ⟨r, hr, hvalue, hlock⟩ := h
    have hi : ¬i = t.next := by
      rintro rfl
      rw [row_next] at hr
      cases hr
    exact ⟨r, by rw [row_insertHeld, if_neg hi, hr], hvalue, hlock⟩

theorem Stands.upsert (h : t.Stands i b) (hupsert : t.upsert o a = some (t', id)) : t'.Stands i b := by
  obtain ⟨r, -, -, -, rfl⟩ | ⟨hnew, rfl, rfl⟩ := upsert_cases hupsert
  · exact h.lock
  · obtain ⟨r, hr, hvalue, hcommitted⟩ := h
    have hi : ¬i = t.next := by
      rintro rfl
      rw [row_next] at hr
      cases hr
    exact ⟨r, by rw [row_insertHeld, if_neg hi, hr], hvalue, hcommitted⟩

theorem heldBy_of_upsert (h : t.upsert o a = some (t', id)) : t'.HeldBy o id a := by
  obtain ⟨r, hr, hvalue, -, rfl⟩ | ⟨hnew, rfl, rfl⟩ := upsert_cases h
  · exact ⟨_, row_lock.mpr ⟨r, hr, rfl⟩, by rw [if_pos rfl, hvalue], by rw [if_pos rfl]⟩
  · exact ⟨_, by rw [row_insertHeld, if_pos rfl], rfl, rfl⟩

end

end Locked

end RowLocks
