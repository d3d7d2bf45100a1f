import Mathlib.Data.List.Sort
import Mathlib.Data.List.Basic

/-!
# Pages of an ordered list

Every request for a page orders the rows anew. When the order is total on them
all requests see one list, and its pages put together are the rows.
-/
namespace Paging

variable {ρ O : Type} [LinearOrder O]

/-- How a query orders rows: the `n`-th request may break ties as it likes. -/
structure Arrangement (ρ : Type) (key : ρ → O) where
  rows : ℕ → List ρ → List ρ
  perm : ∀ n xs, (rows n xs).Perm xs
  sorted : ∀ n xs, (rows n xs).Pairwise (fun a b => key a ≤ key b)

/-- Requests that find the same rows with distinct keys order them alike. -/
theorem Arrangement.rows_eq {key : ρ → O} (A : Arrangement ρ key) {xs : List ρ}
    (hkey : ∀ a ∈ xs, ∀ b ∈ xs, key a = key b → a = b) (m n : ℕ) : A.rows m xs = A.rows n xs := by
  apply List.Perm.eq_of_pairwise _ (A.sorted m xs) (A.sorted n xs)
    ((A.perm m xs).trans (A.perm n xs).symm)
  intro a b ha hb hab hba
  exact hkey a ((A.perm m xs).subset ha) b ((A.perm n xs).subset hb) (le_antisymm hab hba)

/-- The rows of a page, counted from zero. -/
def page (index size : ℕ) (xs : List ρ) : List ρ := (xs.drop (index * size)).take size

theorem take_append_page (index size : ℕ) (xs : List ρ) :
    xs.take (index * size) ++ page index size xs = xs.take ((index + 1) * size) := by
  rw [page, Nat.succ_mul, List.take_add]

/-- A page that does not reach the end is not empty. -/
theorem page_ne_nil {index size : ℕ} {xs : List ρ} (hsize : 0 < size)
    (h : index * size < xs.length) : page index size xs ≠ [] := by
  intro hnil
  have hlen := congrArg List.length hnil
  rw [page, List.length_take, List.length_drop, List.length_nil] at hlen
  omega

/-- The insertion sort is one such arrangement. -/
def Arrangement.insertionSort (key : ρ → O) : Arrangement ρ key where
  rows _ xs := xs.insertionSort (fun a b => key a ≤ key b)
  perm _ xs := List.perm_insertionSort _ xs
  sorted _ xs := by
    have htotal : Std.Total (fun a b : ρ => key a ≤ key b) := ⟨fun a b => le_total _ _⟩
    have htrans : IsTrans ρ (fun a b => key a ≤ key b) := ⟨fun _ _ _ => le_trans⟩
    exact List.pairwise_insertionSort _ xs

end Paging
