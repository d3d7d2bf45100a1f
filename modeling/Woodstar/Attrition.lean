import Mathlib.Data.List.Basic
import Mathlib.Logic.Function.Iterate
import Mathlib.Tactic.Common

/-!
# Removing what nothing holds

A pass over a list keeps the elements that the list holds. What it removes may have been
what held others, so passes are repeated. They end at the largest part of the list that
holds itself.
-/
namespace Attrition

variable {α : Type} {holds : List α → α → Bool} {xs ys : List α}

def pass (holds : List α → α → Bool) (xs : List α) : List α := xs.filter (holds xs)

/-- A longer list holds what a shorter one does. -/
def Grows (holds : List α → α → Bool) : Prop :=
  ∀ xs ys a, xs ⊆ ys → holds xs a = true → holds ys a = true

/-- The list holds each of its elements. -/
def Stands (holds : List α → α → Bool) (xs : List α) : Prop := ∀ a ∈ xs, holds xs a = true

theorem pass_eq_self_iff : pass holds xs = xs ↔ Stands holds xs := List.filter_eq_self

theorem length_pass_lt (h : ¬ Stands holds xs) : (pass holds xs).length < xs.length := by
  have hle := List.length_filter_le (holds xs) xs
  have hne : (pass holds xs).length ≠ xs.length := by
    intro heq
    exact h (pass_eq_self_iff.mp (List.filter_sublist.eq_of_length heq))
  unfold pass at hne ⊢
  omega

theorem subset_pass (hgrows : Grows holds) (hstands : Stands holds ys) (hsub : ys ⊆ xs) :
    ys ⊆ pass holds xs := by
  intro a ha
  exact List.mem_filter.mpr ⟨hsub ha, hgrows ys xs a hsub (hstands a ha)⟩

/-- A part that holds itself outlives every pass. -/
theorem subset_iterate (hgrows : Grows holds) (hstands : Stands holds ys) (hsub : ys ⊆ xs) (n : Nat) :
    ys ⊆ (pass holds)^[n] xs := by
  induction n generalizing xs with
  | zero => exact hsub
  | succ n ih => exact ih (subset_pass hgrows hstands hsub)

/-- The passes end, for each before the last removes something. -/
theorem iterate_stands (holds : List α → α → Bool) (xs : List α) :
    ∃ n ≤ xs.length, Stands holds ((pass holds)^[n] xs) := by
  induction hlen : xs.length using Nat.strongRecOn generalizing xs with
  | ind len ih =>
    by_cases hstands : Stands holds xs
    · exact ⟨0, Nat.zero_le _, hstands⟩
    · have hlt : (pass holds xs).length < len := hlen ▸ length_pass_lt hstands
      obtain ⟨n, hn, hend⟩ := ih _ hlt (pass holds xs) rfl
      exact ⟨n + 1, by omega, hend⟩

end Attrition
