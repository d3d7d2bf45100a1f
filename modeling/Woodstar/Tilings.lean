import Mathlib.Algebra.Order.Ring.Int
import Mathlib.Data.Int.ConditionallyCompleteOrder
import Mathlib.Order.ConditionallyCompleteLattice.Basic
import Mathlib.Order.CompletePartialOrder
import Mathlib.Order.Interval.Set.Disjoint
import Mathlib.Data.Set.Lattice
import Mathlib.Algebra.Order.Group.Int

/-!
# Tilings of an interval by consecutive blocks

A list of blocks tiles an interval when each block starts where the one before
it ends. Disjointness, the union and the sum of the lengths follow from that.
-/
namespace Tilings

structure Block where
  offset : ℤ
  length : ℤ
  deriving DecidableEq, Repr

/-- The positions that a block holds. -/
def Block.span (b : Block) : Set ℤ := Set.Ico b.offset (b.offset + b.length)

inductive Tiled : ℤ → List Block → ℤ → Prop
  | nil (a : ℤ) : Tiled a [] a
  | cons {a z : ℤ} {b : Block} {bs : List Block} : b.offset = a → 0 < b.length →
      Tiled (a + b.length) bs z → Tiled a (b :: bs) z

theorem Tiled.le {a z : ℤ} {bs : List Block} (h : Tiled a bs z) : a ≤ z := by
  induction h with
  | nil a => exact le_refl a
  | cons _ hpos _ ih => omega

theorem Tiled.bounds {a z : ℤ} {bs : List Block} (h : Tiled a bs z) {b : Block} (hb : b ∈ bs) :
    a ≤ b.offset ∧ 0 < b.length ∧ b.offset + b.length ≤ z := by
  induction h with
  | nil a => cases hb
  | @cons a z c bs hoff hpos htail ih =>
    have hle := htail.le
    cases hb with
    | head => omega
    | tail _ hb =>
      obtain ⟨h₁, h₂, h₃⟩ := ih hb
      omega

theorem Tiled.sum_length {a z : ℤ} {bs : List Block} (h : Tiled a bs z) :
    (bs.map Block.length).sum = z - a := by
  induction h with
  | nil a => simp
  | cons _ _ _ ih =>
    rw [List.map_cons, List.sum_cons, ih]
    omega

theorem Tiled.pairwise_disjoint {a z : ℤ} {bs : List Block} (h : Tiled a bs z) :
    bs.Pairwise (fun b c => Disjoint b.span c.span) := by
  induction h with
  | nil a => exact List.Pairwise.nil
  | @cons a z b bs hoff hpos htail ih =>
    apply List.Pairwise.cons _ ih
    intro c hc
    have hb := htail.bounds hc
    apply Set.disjoint_left.mpr
    intro x hx hy
    have h₁ := hx.2
    have h₂ := hy.1
    omega

/-- Consecutive blocks hold exactly the positions of the interval. -/
theorem Tiled.iUnion_span {a z : ℤ} {bs : List Block} (h : Tiled a bs z) :
    (⋃ b ∈ bs, b.span) = Set.Ico a z := by
  induction h with
  | nil a => simp
  | @cons a z b bs hoff hpos htail ih =>
    have hsplit : (⋃ c ∈ b :: bs, c.span) = b.span ∪ ⋃ c ∈ bs, c.span := by
      simp [Set.iUnion_or, Set.iUnion_union_distrib]
    have hle := htail.le
    rw [hsplit, ih, Block.span, hoff]
    exact Set.Ico_union_Ico_eq_Ico (by omega) hle

end Tilings
