import Mathlib.Data.List.Perm.Basic
import Mathlib.Order.Defs.LinearOrder
import Mathlib.Order.Lattice
import Woodstar.FirstWins

/-!
# The latest row of each key

`SELECT DISTINCT ON (key) ... ORDER BY key, position DESC` over rows with their positions:
of each key the row that comes last, in the order of the keys.
-/
namespace LatestRows

variable {α κ : Type*} [LinearOrder κ] {key : α → κ} {rows rows' : List α} {row : α} {k : κ}

/-- `ORDER BY key, position DESC`. -/
def before (key : α → κ) (a b : α × Nat) : Bool :=
  decide (key a.1 < key b.1) || (decide (key a.1 = key b.1) && decide (b.2 ≤ a.2))

def distinctOn (key : α → κ) (rows : List (α × Nat)) : List α :=
  (FirstWins.firstBy (fun row => key row.1) [] (rows.mergeSort (before key))).map Prod.fst

/-- The last row with the key. -/
def lastOf (key : α → κ) : List α → κ → Option α
  | [], _ => none
  | row :: rows, k => (lastOf key rows k).or (if key row = k then some row else none)

theorem before_trans (a b c : α × Nat) (hab : before key a b = true) (hbc : before key b c = true) :
    before key a c = true := by
  simp only [before, Bool.or_eq_true, Bool.and_eq_true, decide_eq_true_eq] at *
  rcases hab with hab | ⟨hab, hle⟩
  · rcases hbc with hbc | ⟨hbc, -⟩
    · exact Or.inl (lt_trans hab hbc)
    · exact Or.inl (hbc ▸ hab)
  · rcases hbc with hbc | ⟨hbc, hle'⟩
    · exact Or.inl (hab ▸ hbc)
    · exact Or.inr ⟨hab.trans hbc, Nat.le_trans hle' hle⟩

theorem before_total (a b : α × Nat) : (before key a b || before key b a) = true := by
  simp only [before, Bool.or_eq_true, Bool.and_eq_true, decide_eq_true_eq]
  rcases lt_trichotomy (key a.1) (key b.1) with hlt | heq | hgt
  · exact Or.inl (Or.inl hlt)
  · rcases Nat.le_total b.2 a.2 with hle | hle
    · exact Or.inl (Or.inr ⟨heq, hle⟩)
    · exact Or.inr (Or.inr ⟨heq.symm, hle⟩)
  · exact Or.inr (Or.inl hgt)

theorem sorted_mergeSort (key : α → κ) (rows : List (α × Nat)) :
    (rows.mergeSort (before key)).Pairwise (fun a b => before key a b = true) :=
  List.pairwise_mergeSort before_trans before_total rows

/-- No key comes twice, and the keys ascend. -/
theorem distinctOn_ascending (key : α → κ) (rows : List (α × Nat)) :
    (distinctOn key rows).Pairwise (fun a b => key a < key b) := by
  rw [distinctOn, List.pairwise_map]
  have hsorted := (sorted_mergeSort key rows).sublist
    (FirstWins.firstBy_sublist (fun row => key row.1) [] (rows.mergeSort (before key)))
  have hnodup := FirstWins.nodup_firstBy (fun row : α × Nat => key row.1) [] (rows.mergeSort (before key))
  rw [List.Nodup, List.pairwise_map] at hnodup
  refine (hsorted.and hnodup).imp ?_
  intro a b ⟨hbefore, hne⟩
  simp only [before, Bool.or_eq_true, Bool.and_eq_true, decide_eq_true_eq] at hbefore
  rcases hbefore with hlt | ⟨heq, -⟩
  · exact hlt
  · exact absurd heq hne

theorem isSome_lastOf : (lastOf key rows k).isSome = true ↔ ∃ row ∈ rows, key row = k := by
  induction rows with
  | nil => simp [lastOf]
  | cons row rows ih =>
    rw [lastOf, Option.isSome_or, Bool.or_eq_true, ih]
    by_cases hkey : key row = k
    · simp [hkey]
    · simp [hkey]

/-- Every other row with the key comes earlier. -/
theorem lastOf_spec (h : lastOf key rows k = some row) :
    key row = k ∧ ∃ n : Nat, rows[n]? = some row ∧
      ∀ (m : Nat) other, rows[m]? = some other → key other = k → m ≤ n := by
  induction rows with
  | nil => cases h
  | cons first rows ih =>
    rw [lastOf, Option.or_eq_some_iff] at h
    rcases h with hlater | ⟨hnone, hfirst⟩
    · obtain ⟨hkey, n, hn, hlast⟩ := ih hlater
      refine ⟨hkey, n + 1, hn, ?_⟩
      intro m other hother hk
      cases m with
      | zero => exact Nat.zero_le _
      | succ m => exact Nat.succ_le_succ (hlast m other hother hk)
    · split_ifs at hfirst with hkey
      obtain rfl := Option.some.inj hfirst
      refine ⟨hkey, 0, rfl, ?_⟩
      intro m other hother hk
      cases m with
      | zero => exact Nat.le_refl 0
      | succ m =>
        have hsome : (lastOf key rows k).isSome = true :=
          isSome_lastOf.mpr ⟨other, List.mem_of_getElem? (by simpa using hother), hk⟩
        rw [hnone] at hsome
        cases hsome

theorem key_lastOf (h : lastOf key rows k = some row) : key row = k := (lastOf_spec h).1

theorem mem_of_lastOf (h : lastOf key rows k = some row) : row ∈ rows := by
  obtain ⟨-, n, hn, -⟩ := lastOf_spec h
  exact List.mem_of_getElem? hn

theorem lastOf_of_mem_distinctOn (h : row ∈ distinctOn key rows.zipIdx) :
    lastOf key rows (key row) = some row := by
  obtain ⟨⟨row, i⟩, hmem, rfl⟩ := List.mem_map.mp h
  have hi := FirstWins.mem_of_mem_firstBy hmem
  rw [List.mem_mergeSort, List.mem_zipIdx_iff_getElem?] at hi
  obtain ⟨last, hlast⟩ := Option.isSome_iff_exists.mp
    (isSome_lastOf.mpr ⟨row, List.mem_of_getElem? hi, (rfl : key row = key row)⟩)
  obtain ⟨hkey, n, hn, hlater⟩ := lastOf_spec hlast
  have hmem' : (last, n) ∈ rows.zipIdx.mergeSort (before key) := by
    rw [List.mem_mergeSort, List.mem_zipIdx_iff_getElem?]
    exact hn
  rw [hlast]
  rcases FirstWins.le_of_mem_firstBy (sorted_mergeSort key _) hmem hmem' hkey with heq | hbefore
  · rw [(Prod.mk.inj heq).1]
  · simp only [before, Bool.or_eq_true, Bool.and_eq_true, decide_eq_true_eq] at hbefore
    rcases hbefore with hlt | ⟨-, hle⟩
    · exact absurd hkey (ne_of_gt hlt)
    · obtain rfl := Nat.le_antisymm hle (hlater i row hi rfl)
      exact hn.symm.trans hi

/-- The rows that are selected are the last ones of their keys. -/
theorem mem_distinctOn : row ∈ distinctOn key rows.zipIdx ↔ lastOf key rows (key row) = some row := by
  constructor
  · exact lastOf_of_mem_distinctOn
  · intro h
    obtain ⟨-, n, hn, -⟩ := lastOf_spec h
    have hmem : (row, n) ∈ rows.zipIdx.mergeSort (before key) := by
      rw [List.mem_mergeSort, List.mem_zipIdx_iff_getElem?]
      exact hn
    have hexists : ∃ pair ∈ rows.zipIdx.mergeSort (before key), key pair.1 = key row := ⟨_, hmem, rfl⟩
    obtain ⟨kept, hkept, hkey⟩ :=
      FirstWins.exists_key_firstBy.mpr hexists
    have hselected : kept.1 ∈ distinctOn key rows.zipIdx := List.mem_map.mpr ⟨kept, hkept, rfl⟩
    have hlast := lastOf_of_mem_distinctOn hselected
    rw [hkey, h] at hlast
    rw [Option.some.inj hlast]
    exact hselected

/-- Looking a key up among the selected rows finds the last row of the key. -/
theorem find_distinctOn (key : α → κ) (rows : List α) (k : κ) :
    (distinctOn key rows.zipIdx).find? (fun row => decide (key row = k)) = lastOf key rows k := by
  cases hfind : (distinctOn key rows.zipIdx).find? (fun row => decide (key row = k)) with
  | some row =>
    have hkey : key row = k := by simpa using List.find?_some hfind
    have hlast := lastOf_of_mem_distinctOn (List.mem_of_find?_eq_some hfind)
    rw [← hkey, hlast]
  | none =>
    cases hlast : lastOf key rows k with
    | none => rfl
    | some row =>
      have hkey := key_lastOf hlast
      have hmem : row ∈ distinctOn key rows.zipIdx := mem_distinctOn.mpr (hkey.symm ▸ hlast)
      have hne := List.find?_eq_none.mp hfind row hmem
      exact absurd (decide_eq_true hkey) hne

theorem lastOf_map {β : Type*} (key : β → κ) (f : α → β) (rows : List α) (k : κ) :
    lastOf key (rows.map f) k = (lastOf (fun row => key (f row)) rows k).map f := by
  induction rows with
  | nil => rfl
  | cons row rows ih =>
    rw [List.map_cons, lastOf, lastOf, ih]
    cases lastOf (fun row => key (f row)) rows k with
    | some last => rfl
    | none => by_cases hkey : key (f row) = k <;> simp [hkey]

/-- Ascending lists with the same members are the same. -/
theorem eq_of_ascending (h : rows.Pairwise (fun a b => key a < key b))
    (h' : rows'.Pairwise (fun a b => key a < key b)) (hmem : ∀ row, row ∈ rows ↔ row ∈ rows') :
    rows = rows' := by
  have hnodup : rows.Nodup := h.imp (fun hlt heq => ne_of_lt hlt (congrArg key heq))
  have hnodup' : rows'.Nodup := h'.imp (fun hlt heq => ne_of_lt hlt (congrArg key heq))
  apply ((List.perm_ext_iff_of_nodup hnodup hnodup').mpr hmem).eq_of_pairwise _ h h'
  intro a b _ _ hab hba
  exact absurd hba (lt_asymm hab)

end LatestRows
