import Mathlib.Data.List.Nodup
import Mathlib.Logic.Unique
import Mathlib.Tactic.Common
import Woodstar.Primitives

/-!
# Label targeting

`internal/targeting`: include and exclude label sets, the rules that reject a
set, and which hosts a set reaches.
-/
namespace Targeting

open Primitives (bind_eq_ok)

inductive Direction where
  | included
  | excluded
  deriving DecidableEq, Repr

def Direction.text : Direction → String
  | .included => "include"
  | .excluded => "exclude"

structure LabelRef where
  labelID : Int
  deriving DecidableEq, Repr

structure LabelSet where
  includes : List LabelRef := []
  excludes : List LabelRef := []
  deriving DecidableEq, Repr

section Validate

variable {T : Type} (direction : Direction) (labelID : T → Int)

/-- `seen` holds the label ids of the rows before. -/
def validateUniqueLabels (seen : List Int) : List T → Except String Unit
  | [] => .ok ()
  | row :: rows =>
    if labelID row ≤ 0 then .error s!"targeting: {direction.text} label_id must be positive"
    else if labelID row ∈ seen then
      .error s!"targeting: duplicate {direction.text} label_id {labelID row}"
    else validateUniqueLabels (labelID row :: seen) rows

def validateNoLabelOverlap (excludes : List LabelRef) : List T → Except String Unit
  | [] => .ok ()
  | row :: rows =>
    if labelID row ∈ excludes.map LabelRef.labelID then
      .error s!"targeting: label_id {labelID row} is both included and excluded"
    else validateNoLabelOverlap excludes rows

def validateTargets (includes : List T) (excludes : List LabelRef) : Except String Unit := do
  validateUniqueLabels .included labelID [] includes
  validateUniqueLabels .excluded LabelRef.labelID [] excludes
  validateNoLabelOverlap labelID excludes includes

variable {direction labelID}

theorem validateUniqueLabels_ok {seen : List Int} {rows : List T} :
    validateUniqueLabels direction labelID seen rows = .ok () ↔
      (∀ row ∈ rows, 0 < labelID row) ∧ (rows.map labelID).Nodup ∧
        ∀ row ∈ rows, labelID row ∉ seen := by
  induction rows generalizing seen with
  | nil => simp [validateUniqueLabels]
  | cons row rows ih =>
    unfold validateUniqueLabels
    split_ifs with hpos hseen
    · refine iff_of_false nofun (fun h => ?_)
      have := h.1 row (List.mem_cons_self ..)
      omega
    · exact iff_of_false nofun (fun h => h.2.2 row (List.mem_cons_self ..) hseen)
    · rw [ih]
      simp only [List.mem_cons, forall_eq_or_imp, not_or, List.map_cons, List.nodup_cons, List.mem_map,
        not_exists, not_and]
      constructor
      · rintro ⟨hp, hn, hs⟩
        exact ⟨⟨by omega, hp⟩, ⟨fun r hr h => (hs r hr).1 h, hn⟩, hseen, fun r hr => (hs r hr).2⟩
      · rintro ⟨⟨-, hp⟩, ⟨hne, hn⟩, -, hs⟩
        exact ⟨hp, hn, fun r hr => ⟨hne r hr, hs r hr⟩⟩

theorem validateNoLabelOverlap_ok {excludes : List LabelRef} {rows : List T} :
    validateNoLabelOverlap labelID excludes rows = .ok () ↔
      ∀ row ∈ rows, labelID row ∉ excludes.map LabelRef.labelID := by
  induction rows with
  | nil => simp [validateNoLabelOverlap]
  | cons row rows ih =>
    unfold validateNoLabelOverlap
    split_ifs with h
    · exact iff_of_false nofun (fun hr => hr row (List.mem_cons_self ..) h)
    · rw [ih]
      simp only [List.mem_cons, forall_eq_or_imp, h, not_false_eq_true, true_and]

end Validate

def LabelSet.labelIDs (targets : LabelSet) : List Int :=
  targets.includes.map LabelRef.labelID ++ targets.excludes.map LabelRef.labelID

def validateLabelSets (targets : LabelSet) : Except String Unit :=
  validateTargets LabelRef.labelID targets.includes targets.excludes

/-- A valid set names positive labels, none of them twice. -/
theorem validateLabelSets_ok {targets : LabelSet} :
    validateLabelSets targets = .ok () ↔
      (∀ id ∈ targets.labelIDs, 0 < id) ∧ targets.labelIDs.Nodup := by
  unfold validateLabelSets validateTargets
  simp only [bind_eq_ok, Unique.exists_iff, PUnit.default_eq_unit, validateUniqueLabels_ok,
    validateNoLabelOverlap_ok]
  simp only [LabelSet.labelIDs, List.mem_append, List.nodup_append, List.mem_map]
  constructor
  · rintro ⟨⟨hi, hin, -⟩, ⟨he, hen, -⟩, ho⟩
    refine ⟨?_, hin, hen, ?_⟩
    · rintro id (⟨row, hrow, rfl⟩ | ⟨row, hrow, rfl⟩)
      · exact hi row hrow
      · exact he row hrow
    · rintro a ⟨row, hrow, rfl⟩ b ⟨row', hrow', rfl⟩ hab
      exact ho row hrow ⟨row', hrow', hab.symm⟩
  · rintro ⟨hp, hin, hen, hd⟩
    refine ⟨⟨?_, hin, nofun⟩, ⟨?_, hen, nofun⟩, ?_⟩
    · exact fun row hrow => hp _ (.inl ⟨row, hrow, rfl⟩)
    · exact fun row hrow => hp _ (.inr ⟨row, hrow, rfl⟩)
    · rintro row hrow ⟨row', hrow', h⟩
      exact hd _ ⟨row, hrow, rfl⟩ _ ⟨row', hrow', rfl⟩ h.symm

/-- Some included label holds and no excluded one. -/
def LabelSet.reaches (targets : LabelSet) (holds : Int → Bool) : Bool :=
  targets.includes.any (fun ref => holds ref.labelID) &&
    !targets.excludes.any (fun ref => holds ref.labelID)

end Targeting
