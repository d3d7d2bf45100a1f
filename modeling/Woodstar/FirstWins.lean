import Mathlib.Data.List.Nodup
import Mathlib.Tactic.Common

/-!
# The first of each key

A loop over a list with a set of the keys that it has seen, which keeps an element
when its key is new. On a sorted list the element kept is the least of its key.
-/
namespace FirstWins

variable {α κ : Type*} [DecidableEq κ] {key : α → κ} {seen : List κ} {xs : List α} {x : α}

/-- The elements whose key is new when the loop comes to them. -/
def firstBy (key : α → κ) (seen : List κ) : List α → List α
  | [] => []
  | x :: xs => if key x ∈ seen then firstBy key seen xs else x :: firstBy key (key x :: seen) xs

theorem mem_firstBy : x ∈ firstBy key seen xs ↔
    key x ∉ seen ∧ xs.find? (fun y => key y = key x) = some x := by
  induction xs generalizing seen with
  | nil => simp [firstBy]
  | cons y ys ih =>
    rw [firstBy, List.find?_cons]
    by_cases hseen : key y ∈ seen
    · rw [if_pos hseen, ih]
      by_cases hkey : key y = key x
      · rw [hkey] at hseen
        simp [hseen]
      · simp [hkey]
    · rw [if_neg hseen, List.mem_cons, ih, List.mem_cons, not_or]
      by_cases hkey : key y = key x
      · have hnew : key x ∉ seen := hkey ▸ hseen
        simp [hkey, hnew, eq_comm]
      · have hne : x ≠ y := fun heq => hkey (congrArg key heq).symm
        simp [hkey, hne, Ne.symm hkey]

theorem mem_of_mem_firstBy (h : x ∈ firstBy key seen xs) : x ∈ xs :=
  List.mem_of_find?_eq_some (mem_firstBy.mp h).2

/-- No key is kept twice. -/
theorem nodup_firstBy (key : α → κ) (seen : List κ) (xs : List α) :
    ((firstBy key seen xs).map key).Nodup := by
  induction xs generalizing seen with
  | nil => exact List.nodup_nil
  | cons y ys ih =>
    rw [firstBy]
    split_ifs
    · exact ih seen
    · rw [List.map_cons, List.nodup_cons]
      constructor
      · intro hmem
        obtain ⟨x, hx, hkey⟩ := List.mem_map.mp hmem
        exact (mem_firstBy.mp hx).1 (hkey ▸ List.mem_cons_self)
      · exact ih _

/-- Every key of the list is kept once. -/
theorem exists_key_firstBy {k : κ} :
    (∃ x ∈ firstBy key [] xs, key x = k) ↔ ∃ x ∈ xs, key x = k := by
  constructor
  · intro ⟨x, hx, hkey⟩
    exact ⟨x, mem_of_mem_firstBy hx, hkey⟩
  · intro ⟨x, hx, hkey⟩
    have hsome : (xs.find? (fun y => key y = k)).isSome = true :=
      List.find?_isSome.mpr ⟨x, hx, by simpa using hkey⟩
    obtain ⟨y, hy⟩ := Option.isSome_iff_exists.mp hsome
    have hyk : key y = k := by simpa using List.find?_some hy
    subst hyk
    exact ⟨y, mem_firstBy.mpr ⟨List.not_mem_nil, hy⟩, rfl⟩

theorem firstBy_of_nodup (hnodup : (xs.map key).Nodup) (hseen : ∀ x ∈ xs, key x ∉ seen) :
    firstBy key seen xs = xs := by
  induction xs generalizing seen with
  | nil => rfl
  | cons y ys ih =>
    rw [List.map_cons, List.nodup_cons] at hnodup
    rw [firstBy, if_neg (hseen y List.mem_cons_self), ih hnodup.2]
    intro x hx hmem
    rcases List.mem_cons.mp hmem with heq | hold
    · exact hnodup.1 (heq ▸ List.mem_map_of_mem hx)
    · exact hseen x (List.mem_cons_of_mem y hx) hold

theorem firstBy_sublist (key : α → κ) (seen : List κ) (xs : List α) :
    (firstBy key seen xs).Sublist xs := by
  induction xs generalizing seen with
  | nil => exact List.Sublist.refl _
  | cons y ys ih =>
    rw [firstBy]
    split_ifs
    · exact (ih seen).cons y
    · exact (ih _).cons_cons y

/-- Nothing is dropped exactly when no key comes twice. -/
theorem length_firstBy_eq_iff : (firstBy key [] xs).length = xs.length ↔ (xs.map key).Nodup := by
  constructor
  · intro h
    rw [← (firstBy_sublist key [] xs).eq_of_length h]
    exact nodup_firstBy key [] xs
  · intro h
    rw [firstBy_of_nodup h (fun _ _ => List.not_mem_nil)]

/-- On a sorted list the element kept comes before all others of its key. -/
theorem le_of_mem_firstBy {r : α → α → Prop} (hsorted : xs.Pairwise r) (hx : x ∈ firstBy key seen xs)
    {y : α} (hy : y ∈ xs) (hkey : key y = key x) : y = x ∨ r x y := by
  obtain ⟨-, before, after, hxs, hbefore⟩ := List.find?_eq_some_iff_append.mp (mem_firstBy.mp hx).2
  rw [hxs] at hy hsorted
  rcases List.mem_append.mp hy with hmem | hmem
  · exact absurd hkey (by simpa using hbefore y hmem)
  · rcases List.mem_cons.mp hmem with heq | hafter
    · exact Or.inl heq
    · exact Or.inr ((List.pairwise_cons.mp (List.pairwise_append.mp hsorted).2.1).1 y hafter)

end FirstWins
