import Mathlib.Data.List.Basic
import Mathlib.Data.List.Nodup
import Mathlib.Logic.Function.Basic

/-!
# A unique column under READ COMMITTED

One column of a table with an immediate UNIQUE constraint. A cell is absent, was
inserted by an open transaction, or is committed; a committed cell may carry the
new value that one open transaction gave it. A write onto a value that another
transaction has not decided on waits, and one onto a settled value fails.
-/
namespace UniqueColumns

variable {ι ν : Type*}

inductive Cell (ν : Type*) where
  | absent
  | inserted (value : ν)
  | live (value : ν) (moved : Option ν)
  deriving DecidableEq, Repr

namespace Cell

/-- The value if every open update is rolled back. -/
def base : Cell ν → Option ν
  | absent => none
  | inserted v => some v
  | live v _ => some v

/-- The value if every open update commits. -/
def target : Cell ν → Option ν
  | absent => none
  | inserted v => some v
  | live v m => some (m.getD v)

def isLive : Cell ν → Bool
  | live _ _ => true
  | _ => false

def isMoved : Cell ν → Bool
  | live _ (some _) => true
  | _ => false

/-- Another transaction may still keep or drop this value. -/
def inDoubt [DecidableEq ν] (c : Cell ν) (v : ν) : Bool :=
  match c with
  | absent => false
  | inserted w => w = v
  | live w (some m) => w = v || m = v
  | live _ none => false

/-- The open update commits. -/
def settle : Cell ν → Cell ν
  | live _ (some m) => live m none
  | c => c

/-- The open update is rolled back. -/
def revert : Cell ν → Cell ν
  | live v (some _) => live v none
  | c => c

@[simp] theorem base_absent : (absent : Cell ν).base = none := rfl
@[simp] theorem base_inserted (v : ν) : (inserted v).base = some v := rfl
@[simp] theorem base_live (v : ν) (m : Option ν) : (live v m).base = some v := rfl
@[simp] theorem target_absent : (absent : Cell ν).target = none := rfl
@[simp] theorem target_inserted (v : ν) : (inserted v).target = some v := rfl
@[simp] theorem target_live (v : ν) (m : Option ν) : (live v m).target = some (m.getD v) := rfl

@[simp] theorem base_settle (c : Cell ν) : c.settle.base = c.target := by
  rcases c with _ | v | ⟨v, _ | m⟩ <;> rfl

@[simp] theorem target_settle (c : Cell ν) : c.settle.target = c.target := by
  rcases c with _ | v | ⟨v, _ | m⟩ <;> rfl

@[simp] theorem base_revert (c : Cell ν) : c.revert.base = c.base := by
  rcases c with _ | v | ⟨v, _ | m⟩ <;> rfl

@[simp] theorem target_revert (c : Cell ν) : c.revert.target = c.base := by
  rcases c with _ | v | ⟨v, _ | m⟩ <;> rfl

@[simp] theorem isMoved_settle (c : Cell ν) : c.settle.isMoved = false := by
  rcases c with _ | v | ⟨v, _ | m⟩ <;> rfl

@[simp] theorem isMoved_revert (c : Cell ν) : c.revert.isMoved = false := by
  rcases c with _ | v | ⟨v, _ | m⟩ <;> rfl

theorem settle_eq {c : Cell ν} (h : c.isMoved = false) : c.settle = c := by
  rcases c with _ | v | ⟨v, _ | m⟩
  · rfl
  · rfl
  · rfl
  · cases h

end Cell

/-- No value stands at two indices. -/
def Distinct (f : ι → Option ν) : Prop := ∀ i j v, f i = some v → f j = some v → i = j

/-- Distinct rows hold distinct values, however the open transactions end. -/
structure Unique (row : ι → Cell ν) : Prop where
  base : Distinct (fun i => (row i).base)
  target : Distinct (fun i => (row i).target)

/-- Every row that exists is among `ids`. -/
def Listed (ids : List ι) (row : ι → Cell ν) : Prop := ∀ i, row i ≠ .absent → i ∈ ids

theorem distinct_of_le {f g : ι → Option ν} (h : Distinct f)
    (hle : ∀ i v, g i = some v → f i = some v) : Distinct g :=
  fun i j v hi hj => h i j v (hle i v hi) (hle j v hj)

theorem listed_map {ids : List ι} {row : ι → Cell ν} (h : Listed ids row) {f : Cell ν → Cell ν}
    (hf : f .absent = .absent) : Listed ids (fun i => f (row i)) := by
  intro i hi
  refine h i fun ha => hi ?_
  simp only [ha, hf]

variable [DecidableEq ι]

theorem distinct_update {f : ι → Option ν} {i : ι} {v : ν} (h : Distinct f)
    (hv : ∀ j, j ≠ i → f j ≠ some v) : Distinct (Function.update f i (some v)) := by
  intro a b w ha hb
  by_cases hai : a = i
  · by_cases hbi : b = i
    · rw [hai, hbi]
    · rw [hai, Function.update_self] at ha
      rw [Function.update_of_ne hbi, ← ha] at hb
      exact absurd hb (hv b hbi)
  · by_cases hbi : b = i
    · rw [hbi, Function.update_self] at hb
      rw [Function.update_of_ne hai, ← hb] at ha
      exact absurd ha (hv a hai)
    · rw [Function.update_of_ne hai] at ha
      rw [Function.update_of_ne hbi] at hb
      exact h a b w ha hb

theorem distinct_update_none {f : ι → Option ν} (h : Distinct f) (i : ι) :
    Distinct (Function.update f i none) := by
  refine distinct_of_le h fun j v hj => ?_
  by_cases hji : j = i
  · rw [hji, Function.update_self] at hj
    cases hj
  · rwa [Function.update_of_ne hji] at hj

theorem base_update (row : ι → Cell ν) (i : ι) (c : Cell ν) :
    (fun j => (Function.update row i c j).base) = Function.update (fun j => (row j).base) i c.base := by
  funext j
  exact Function.apply_update (fun _ => Cell.base) row i c j

theorem target_update (row : ι → Cell ν) (i : ι) (c : Cell ν) :
    (fun j => (Function.update row i c j).target) =
      Function.update (fun j => (row j).target) i c.target := by
  funext j
  exact Function.apply_update (fun _ => Cell.target) row i c j

theorem unique_absent {row : ι → Cell ν} (h : Unique row) (i : ι) :
    Unique (Function.update row i .absent) where
  base := by rw [base_update]; exact distinct_update_none h.base i
  target := by rw [target_update]; exact distinct_update_none h.target i

/-- A row that keeps its value stays unique: its insert commits. -/
theorem unique_commit {row : ι → Cell ν} {i : ι} {v : ν} (h : Unique row)
    (hi : row i = .inserted v) : Unique (Function.update row i (.live v none)) where
  base := by
    rw [base_update, Cell.base_live, ← Cell.base_inserted v, ← hi, Function.update_eq_self]
    exact h.base
  target := by
    rw [target_update, Cell.target_live, Option.getD_none, ← Cell.target_inserted v, ← hi,
      Function.update_eq_self]
    exact h.target

omit [DecidableEq ι] in
theorem unique_settle {row : ι → Cell ν} (h : Unique row) : Unique (fun i => (row i).settle) where
  base := by simpa using h.target
  target := by simpa using h.target

omit [DecidableEq ι] in
theorem unique_revert {row : ι → Cell ν} (h : Unique row) : Unique (fun i => (row i).revert) where
  base := by simpa using h.base
  target := by simpa using h.base

inductive Written (ι ν : Type*) where
  | waits
  | conflicts
  | ok (row : ι → Cell ν)

variable {row row' : ι → Cell ν}

/-- What an UPDATE does to each row: a visited live row moves from its newest
value, and every other row stands. -/
def Moves (f : ι → ν → ν) (visited : List ι) (row row' : ι → Cell ν) : Prop :=
  ∀ i, row' i = match row i with
    | .live v m => if i ∈ visited then .live v (some (f i (m.getD v))) else .live v m
    | c => c

theorem moves_base {f : ι → ν → ν} {visited : List ι} (h : Moves f visited row row') (i : ι) :
    (row' i).base = (row i).base := by
  rw [h i]
  rcases row i with _ | v | ⟨v, m⟩
  · rfl
  · rfl
  · by_cases hi : i ∈ visited <;> simp [hi]

theorem moves_live {f : ι → ν → ν} {visited : List ι} (h : Moves f visited row row') {i : ι}
    {v : ν} {m : Option ν} (hrow : row i = .live v m) (hi : i ∈ visited) :
    row' i = .live v (some (f i (m.getD v))) := by
  rw [h i, hrow]
  simp only [if_pos hi]

theorem moves_other {f : ι → ν → ν} {visited : List ι} (h : Moves f visited row row') {i : ι}
    (hi : i ∉ visited) : row' i = row i := by
  rw [h i]
  rcases row i with _ | v | ⟨v, m⟩ <;> simp [hi]

variable [DecidableEq ν]

/-- INSERT of a new row. -/
def insertCell (ids : List ι) (row : ι → Cell ν) (i : ι) (v : ν) : Written ι ν :=
  if ∃ j ∈ ids, (row j).inDoubt v then .waits
  else if ∃ j ∈ ids, row j = .live v none then .conflicts
  else .ok (Function.update row i (.inserted v))

/-- One row of an UPDATE, by the transaction that holds every open update. -/
def moveCell (ids : List ι) (row : ι → Cell ν) (i : ι) (v w : ν) : Written ι ν :=
  if ∃ j ∈ ids, j ≠ i ∧ row j = .inserted w then .waits
  else if ∃ j ∈ ids, j ≠ i ∧ (row j).target = some w then .conflicts
  else .ok (Function.update row i (.live v (some w)))

/-- An UPDATE over rows in the order in which it visits them; a row that is gone
is skipped. -/
def moveCells (ids : List ι) (f : ι → ν → ν) : List ι → (ι → Cell ν) → Written ι ν
  | [], row => .ok row
  | i :: is, row =>
    match row i with
    | .live v m =>
      match moveCell ids row i v (f i (m.getD v)) with
      | .waits => .waits
      | .conflicts => .conflicts
      | .ok row => moveCells ids f is row
    | _ => moveCells ids f is row

variable {ids : List ι}

theorem insertCell_ok {i : ι} {v : ν} (h : insertCell ids row i v = .ok row') :
    row' = Function.update row i (.inserted v) ∧
      ∀ j ∈ ids, (row j).base ≠ some v ∧ (row j).target ≠ some v := by
  unfold insertCell at h
  split_ifs at h with hd hl
  refine ⟨(Written.ok.inj h).symm, ?_⟩
  intro j hj
  have hd' : (row j).inDoubt v = false := by
    by_contra hne
    exact hd ⟨j, hj, by simpa using hne⟩
  have hl' : row j ≠ .live v none := fun he => hl ⟨j, hj, he⟩
  rcases hc : row j with _ | w | ⟨w, _ | m⟩ <;> simp_all [Cell.inDoubt]

theorem unique_insert {i : ι} {v : ν} (hu : Unique row) (hlist : Listed ids row)
    (h : insertCell ids row i v = .ok row') : Unique row' := by
  obtain ⟨rfl, hfree⟩ := insertCell_ok h
  have hother : ∀ j, (row j).base ≠ some v ∧ (row j).target ≠ some v := by
    intro j
    by_cases hj : row j = .absent
    · simp [hj]
    · exact hfree j (hlist j hj)
  constructor
  · rw [base_update]
    exact distinct_update hu.base fun j _ => (hother j).1
  · rw [target_update]
    exact distinct_update hu.target fun j _ => (hother j).2

theorem moveCell_ok {i : ι} {v w : ν} (h : moveCell ids row i v w = .ok row') :
    row' = Function.update row i (.live v (some w)) ∧
      ∀ j ∈ ids, j ≠ i → (row j).target ≠ some w := by
  unfold moveCell at h
  split_ifs at h with hd hl
  exact ⟨(Written.ok.inj h).symm, fun j hj hne ht => hl ⟨j, hj, hne, ht⟩⟩

/-- A move keeps the committed values, and gives no value twice. -/
theorem unique_moveCell {i : ι} {v w : ν} {m : Option ν} (hu : Unique row)
    (hlist : Listed ids row) (hi : row i = .live v m) (h : moveCell ids row i v w = .ok row') :
    Unique row' ∧ Listed ids row' := by
  obtain ⟨rfl, hfree⟩ := moveCell_ok h
  refine ⟨⟨?_, ?_⟩, ?_⟩
  · have hb : (Cell.live v (some w)).base = (row i).base := by rw [hi]; rfl
    rw [base_update, hb, Function.update_eq_self]
    exact hu.base
  · rw [target_update]
    refine distinct_update hu.target fun j hj => ?_
    by_cases hjn : row j = .absent
    · simp [hjn]
    · exact hfree j (hlist j hjn) hj
  · intro j hj
    by_cases hji : j = i
    · exact hji ▸ hlist i (by rw [hi]; nofun)
    · rw [Function.update_of_ne hji] at hj
      exact hlist j hj

theorem moveCells_spec {f : ι → ν → ν} {visited : List ι} (hn : visited.Nodup) (hu : Unique row)
    (hlist : Listed ids row) (h : moveCells ids f visited row = .ok row') :
    Moves f visited row row' ∧ Unique row' ∧ Listed ids row' := by
  induction visited generalizing row with
  | nil =>
    obtain rfl := Written.ok.inj h
    refine ⟨fun i => ?_, hu, hlist⟩
    rcases row i with _ | v | ⟨v, m⟩ <;> simp
  | cons a as ih =>
    obtain ⟨ha, hn⟩ := List.nodup_cons.mp hn
    have hskip : ∀ {row₁ : ι → Cell ν}, Moves f as row₁ row' →
        (∀ i, i ≠ a → row₁ i = row i) → ∀ i, i ≠ a → row' i = match row i with
          | .live v m => if i ∈ a :: as then .live v (some (f i (m.getD v))) else .live v m
          | c => c := by
      intro row₁ hm hsame i hi
      rw [hm i, hsame i hi]
      rcases row i with _ | v | ⟨v, m⟩ <;> simp [hi]
    rw [moveCells] at h
    rcases hrow : row a with _ | v | ⟨v, m⟩
    · rw [hrow] at h
      obtain ⟨hm, hrest⟩ := ih hn hu hlist h
      refine ⟨fun i => ?_, hrest⟩
      by_cases hi : i = a
      · rw [hi, hm a, hrow]
      · exact hskip hm (fun _ _ => rfl) i hi
    · rw [hrow] at h
      obtain ⟨hm, hrest⟩ := ih hn hu hlist h
      refine ⟨fun i => ?_, hrest⟩
      by_cases hi : i = a
      · rw [hi, hm a, hrow]
      · exact hskip hm (fun _ _ => rfl) i hi
    · rw [hrow] at h
      simp only at h
      cases hmove : moveCell ids row a v (f a (m.getD v)) with
      | waits => rw [hmove] at h; cases h
      | conflicts => rw [hmove] at h; cases h
      | ok row₁ =>
        rw [hmove] at h
        obtain ⟨hu₁, hlist₁⟩ := unique_moveCell hu hlist hrow hmove
        obtain ⟨rfl, -⟩ := moveCell_ok hmove
        obtain ⟨hm, hrest⟩ := ih hn hu₁ hlist₁ h
        refine ⟨fun i => ?_, hrest⟩
        by_cases hi : i = a
        · rw [hi, hm a, Function.update_self, hrow]
          simp [ha]
        · exact hskip hm (fun j hj => Function.update_of_ne hj _ _) i hi

end UniqueColumns
