import Mathlib.Data.List.Basic
import Mathlib.Data.List.Perm.Basic
import Woodstar.KeyedRows

/-!
# Steps in another order

When does a list of steps come to the same state in every order, and what does a search
find in a permuted list.
-/
namespace Reorderings

open KeyedRows (Table)

variable {σ α β : Type}

/-- Steps that commute in every state of an invariant come to one state in every order. -/
theorem foldl_perm {f : σ → α → σ} {Inv : σ → Prop} {l l' : List α} (hperm : l.Perm l') {s : σ} (hs : Inv s)
    (hkeep : ∀ a ∈ l, ∀ s, Inv s → Inv (f s a))
    (hcomm : ∀ a ∈ l, ∀ b ∈ l, ∀ s, Inv s → f (f s a) b = f (f s b) a) : l.foldl f s = l'.foldl f s := by
  induction hperm generalizing s with
  | nil => rfl
  | cons a _ ih =>
    apply ih (hkeep a List.mem_cons_self s hs)
    · intro b hb
      exact hkeep b (List.mem_cons_of_mem _ hb)
    · intro b hb c hc
      exact hcomm b (List.mem_cons_of_mem _ hb) c (List.mem_cons_of_mem _ hc)
  | swap a b l =>
    rw [List.foldl_cons, List.foldl_cons, List.foldl_cons, List.foldl_cons,
      hcomm b List.mem_cons_self a (List.mem_cons_of_mem _ List.mem_cons_self) s hs]
  | trans hperm₁ _ ih₁ ih₂ =>
    rw [ih₁ hs hkeep hcomm]
    apply ih₂ hs
    · intro a ha
      exact hkeep a (hperm₁.mem_iff.mpr ha)
    · intro a ha b hb
      exact hcomm a (hperm₁.mem_iff.mpr ha) b (hperm₁.mem_iff.mpr hb)

/-- When all that a search may find looks the same, the order is not seen. -/
theorem find?_perm {p : α → Bool} {g : α → β} {l l' : List α} (hperm : l.Perm l')
    (h : ∀ a ∈ l, ∀ b ∈ l, p a = true → p b = true → g a = g b) : (l.find? p).map g = (l'.find? p).map g := by
  cases hfind : l.find? p with
  | none =>
    have hnone : l'.find? p = none := by
      rw [List.find?_eq_none] at hfind ⊢
      intro a ha
      exact hfind a (hperm.mem_iff.mpr ha)
    rw [hnone]
  | some a =>
    have ha := List.mem_of_find?_eq_some hfind
    have hpa := List.find?_some hfind
    cases hfind' : l'.find? p with
    | none =>
      rw [List.find?_eq_none] at hfind'
      exact absurd hpa (hfind' a (hperm.mem_iff.mp ha))
    | some b =>
      have hb := hperm.mem_iff.mpr (List.mem_of_find?_eq_some hfind')
      rw [Option.map_some, Option.map_some, h a ha b hb hpa (List.find?_some hfind')]

/-- Any element can be first. -/
theorem exists_first {l : List α} {a : α} (h : a ∈ l) : ∃ rest, (a :: rest).Perm l := by
  obtain ⟨before, rest, rfl⟩ := List.append_of_mem h
  exact ⟨before ++ rest, List.perm_middle.symm⟩

section Rows

variable {α : Type} {t t' : Table α} {id id' : Int} {f g : α → α}

theorem table_ext (hrow : t.row = t'.row) (hused : t.used = t'.used) : t = t' := by
  cases t
  cases t'
  cases hrow
  cases hused
  rfl

/-- A row of other columns does not see the change. -/
theorem modify_comm (h : ∀ a, t.row id = some a → f (g a) = g (f a)) :
    (t.modify id g).modify id f = (t.modify id f).modify id g := by
  apply table_ext
  · funext other
    simp only [Table.row_modify]
    split_ifs with hother
    · rw [hother]
      cases hrow : t.row id with
      | none => rfl
      | some a => rw [Option.map_some, Option.map_some, Option.map_some, Option.map_some, h a hrow]
    · rfl
  · rfl

theorem modify_modify_ne (h : id ≠ id') : (t.modify id f).modify id' g = (t.modify id' g).modify id f := by
  apply table_ext
  · funext other
    simp only [Table.row_modify]
    split_ifs with h₁ h₂ h₂
    · exact absurd (h₂.symm.trans h₁) h
    · rfl
    · rfl
    · rfl
  · rfl

theorem modify_eq_self (h : ∀ a, t.row id = some a → f a = a) : t.modify id f = t := by
  apply table_ext
  · funext other
    rw [Table.row_modify]
    split_ifs with hother
    · rw [hother]
      cases hrow : t.row id with
      | none => rfl
      | some a => rw [Option.map_some, h a hrow]
    · rfl
  · rfl

end Rows

end Reorderings
