import Woodstar.Runs

/-!
# The last write of a cell

A cell of a system's state that some steps write and the others leave alone. After
a run it holds a value if the last step that wrote it wrote that value.
-/
namespace LastWrites

open Runs

variable {σ ε ν : Type*} {f : σ → ε → σ} {cell : σ → Option ν} {writes : σ → ε → Option (Option ν)}
variable {s : σ} {es : List ε} {v : ν}

/-- No step of the run writes the cell. -/
def Untouched (f : σ → ε → σ) (writes : σ → ε → Option (Option ν)) (s : σ) (es : List ε) : Prop :=
  Along f (fun s e => writes s e = none) s es

/-- Some step wrote the value, and no later one wrote. -/
def LastWrite (f : σ → ε → σ) (writes : σ → ε → Option (Option ν)) (v : ν) (s : σ) (es : List ε) : Prop :=
  ∃ before e after, es = before ++ e :: after ∧ writes (exec f s before) e = some (some v) ∧
    Untouched f writes (f (exec f s before) e) after

theorem lastWrite_nil : ¬ LastWrite f writes v s [] := by
  rintro ⟨before, e, after, hsplit, -⟩
  exact List.append_ne_nil_of_right_ne_nil before (List.cons_ne_nil e after) hsplit.symm

/-- The last write of a run is its first step's or a later one. -/
theorem lastWrite_cons {e : ε} : LastWrite f writes v s (e :: es) ↔
    (writes s e = some (some v) ∧ Untouched f writes (f s e) es) ∨ LastWrite f writes v (f s e) es := by
  constructor
  · rintro ⟨before, e', after, hsplit, hwrite, hrest⟩
    cases before with
    | nil =>
      obtain ⟨rfl, rfl⟩ := List.cons.inj hsplit
      exact Or.inl ⟨hwrite, hrest⟩
    | cons first before =>
      obtain ⟨rfl, rfl⟩ := List.cons.inj hsplit
      exact Or.inr ⟨before, e', after, rfl, hwrite, hrest⟩
  · intro h
    cases h with
    | inl hfirst => exact ⟨[], e, es, rfl, hfirst.1, hfirst.2⟩
    | inr hlater =>
      obtain ⟨before, e', after, rfl, hwrite, hrest⟩ := hlater
      exact ⟨e :: before, e', after, rfl, hwrite, hrest⟩

theorem exec_cell (hstep : ∀ s e, cell (f s e) = (writes s e).getD (cell s)) :
    cell (exec f s es) = some v ↔
      (cell s = some v ∧ Untouched f writes s es) ∨ LastWrite f writes v s es := by
  induction es generalizing s with
  | nil =>
    rw [exec_nil, or_iff_left lastWrite_nil]
    exact (and_iff_left trivial).symm
  | cons e es ih =>
    rw [exec_cons, ih, lastWrite_cons, hstep]
    cases hwrite : writes s e with
    | none =>
      have hcons : Untouched f writes s (e :: es) ↔ Untouched f writes (f s e) es := and_iff_right hwrite
      rw [hcons, Option.getD_none]
      simp only [reduceCtorEq, false_and, false_or]
    | some w =>
      have hcons : ¬ Untouched f writes s (e :: es) := by
        rintro ⟨hnone, -⟩
        rw [hwrite] at hnone
        cases hnone
      rw [Option.getD_some]
      simp only [hcons, and_false, false_or, Option.some.injEq]

/-- From an empty cell, the value is the last one written. -/
theorem exec_cell_of_none (hstep : ∀ s e, cell (f s e) = (writes s e).getD (cell s)) (hnone : cell s = none) :
    cell (exec f s es) = some v ↔ LastWrite f writes v s es := by
  rw [exec_cell hstep, hnone]
  simp only [reduceCtorEq, false_and, false_or]

/-- What is so exactly after the steps that meet a condition is so all along the runs that do. -/
theorem prefixes_iff_along {P : σ → Prop} {C : σ → ε → Prop} (hstep : ∀ s e, P s → (P (f s e) ↔ C s e))
    (h : P s) : (∀ before, before <+: es → P (exec f s before)) ↔ Along f C s es := by
  induction es generalizing s with
  | nil =>
    constructor
    · intro
      trivial
    · intro _ before hbefore
      rw [List.prefix_nil.mp hbefore]
      exact h
  | cons e es ih =>
    rw [along_cons]
    constructor
    · intro hall
      have hnext : P (f s e) := hall [e] (List.cons_prefix_cons.mpr ⟨rfl, List.nil_prefix⟩)
      constructor
      · exact (hstep s e h).mp hnext
      · apply (ih hnext).mp
        intro before hbefore
        exact hall (e :: before) (List.cons_prefix_cons.mpr ⟨rfl, hbefore⟩)
    · rintro ⟨hfirst, hrest⟩ before hbefore
      cases before with
      | nil => exact h
      | cons e' before =>
        obtain ⟨rfl, htail⟩ := List.cons_prefix_cons.mp hbefore
        exact (ih ((hstep s e' h).mpr hfirst)).mpr hrest before htail

end LastWrites
