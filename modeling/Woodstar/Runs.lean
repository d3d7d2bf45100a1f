import Mathlib.Data.List.Basic
import Mathlib.Data.Option.Basic

/-!
# Runs of a labelled system

A system is a step function. A total step answers every event; a partial step
answers `none` for an event that is not enabled, such as a statement that waits
for a row lock. Every induction over runs is packaged here once.
-/
namespace Runs

variable {σ ε : Type*}

/-- A run of a total system: the events applied in order. -/
def exec (f : σ → ε → σ) (s : σ) (es : List ε) : σ := es.foldl f s

@[simp] theorem exec_nil (f : σ → ε → σ) (s : σ) : exec f s [] = s := rfl
@[simp] theorem exec_cons (f : σ → ε → σ) (s : σ) (e : ε) (es : List ε) :
    exec f s (e :: es) = exec f (f s e) es := rfl

theorem exec_append (f : σ → ε → σ) (s : σ) (as bs : List ε) :
    exec f s (as ++ bs) = exec f (exec f s as) bs := List.foldl_append

/-- Every event of the run meets the condition in the state it finds. -/
def Along (f : σ → ε → σ) (C : σ → ε → Prop) : σ → List ε → Prop
  | _, [] => True
  | s, e :: es => C s e ∧ Along f C (f s e) es

@[simp] theorem along_cons (f : σ → ε → σ) (C : σ → ε → Prop) (s : σ) (e : ε) (es : List ε) :
    Along f C s (e :: es) ↔ C s e ∧ Along f C (f s e) es := Iff.rfl

instance decidableAlong (f : σ → ε → σ) (C : σ → ε → Prop) [∀ s e, Decidable (C s e)] :
    ∀ s es, Decidable (Along f C s es)
  | _, [] => isTrue trivial
  | s, e :: es =>
    have := decidableAlong f C (f s e) es
    inferInstanceAs (Decidable (C s e ∧ Along f C (f s e) es))

theorem Along.and {f : σ → ε → σ} {C D : σ → ε → Prop} {s : σ} {es : List ε}
    (hc : Along f C s es) (hd : Along f D s es) : Along f (fun s e => C s e ∧ D s e) s es := by
  induction es generalizing s with
  | nil => trivial
  | cons e es ih => exact ⟨⟨hc.1, hd.1⟩, ih hc.2 hd.2⟩

/-- What each guarded step preserves, the whole run preserves. -/
theorem exec_invariant_along {f : σ → ε → σ} {C : σ → ε → Prop} {P : σ → Prop}
    (hstep : ∀ s e, P s → C s e → P (f s e)) {s : σ} {es : List ε}
    (h : P s) (hc : Along f C s es) : P (exec f s es) := by
  induction es generalizing s with
  | nil => exact h
  | cons e es ih => exact ih (hstep s e h hc.1) hc.2

theorem exec_invariant {f : σ → ε → σ} {P : σ → Prop} (hstep : ∀ s e, P s → P (f s e))
    {s : σ} (es : List ε) (h : P s) : P (exec f s es) := by
  induction es generalizing s with
  | nil => exact h
  | cons e es ih => exact ih (hstep s e h)

/-- The condition may be one on events alone. -/
theorem along_of_forall {f : σ → ε → σ} {C : σ → ε → Prop} {es : List ε}
    (h : ∀ e ∈ es, ∀ s, C s e) (s : σ) : Along f C s es := by
  induction es generalizing s with
  | nil => trivial
  | cons e es ih =>
    exact ⟨h e (by simp) s, ih (fun e' he => h e' (by simp [he])) (f s e)⟩

/-- Ghost state does not change what the system does. -/
theorem exec_project {τ : Type*} {f : σ → ε → σ} {g : τ → ε → τ} {π : τ → σ}
    (hπ : ∀ t e, π (g t e) = f (π t) e) (t : τ) (es : List ε) :
    π (exec g t es) = exec f (π t) es := by
  induction es generalizing t with
  | nil => rfl
  | cons e es ih => rw [exec_cons, exec_cons, ih, hπ]

/-- Ghost state does not change which conditions hold along a run. -/
theorem along_project {τ : Type*} {f : σ → ε → σ} {g : τ → ε → τ} {π : τ → σ}
    (hπ : ∀ t e, π (g t e) = f (π t) e) {C : σ → ε → Prop} {t : τ} {es : List ε} :
    Along g (fun t e => C (π t) e) t es ↔ Along f C (π t) es := by
  induction es generalizing t with
  | nil => exact Iff.rfl
  | cons e es ih => rw [along_cons, along_cons, ih, hπ]

/-- A condition that the invariant implies at every step holds along the run. -/
theorem along_invariant {f : σ → ε → σ} {C D : σ → ε → Prop} {P : σ → Prop}
    (hstep : ∀ s e, P s → C s e → P (f s e)) (hD : ∀ s e, P s → C s e → D s e)
    {s : σ} {es : List ε} (h : P s) (hc : Along f C s es) : Along f D s es := by
  induction es generalizing s with
  | nil => trivial
  | cons e es ih => exact ⟨hD s e h hc.1, ih (hstep s e h hc.1) hc.2⟩

theorem le_exec {f : σ → ε → σ} {m : σ → ℕ} (hgrow : ∀ s e, m s ≤ m (f s e)) (s : σ)
    (es : List ε) : m s ≤ m (exec f s es) := by
  induction es generalizing s with
  | nil => exact Nat.le_refl _
  | cons e es ih => exact Nat.le_trans (hgrow s e) (ih (f s e))

/-- A bound that a growing measure keeps at the end of the run holds at every step. -/
theorem along_le_of_exec_le {f : σ → ε → σ} {m : σ → ℕ} (hgrow : ∀ s e, m s ≤ m (f s e)) {n : ℕ}
    {s : σ} {es : List ε} (h : m (exec f s es) ≤ n) : Along f (fun s e => m (f s e) ≤ n) s es := by
  induction es generalizing s with
  | nil => trivial
  | cons e es ih => exact ⟨Nat.le_trans (le_exec hgrow (f s e) es) h, ih h⟩

/-- A run of a partial system: every event must be enabled. -/
def tryExec (f : σ → ε → Option σ) : σ → List ε → Option σ
  | s, [] => some s
  | s, e :: es => (f s e).bind (fun s' => tryExec f s' es)

@[simp] theorem tryExec_nil (f : σ → ε → Option σ) (s : σ) : tryExec f s [] = some s := rfl
@[simp] theorem tryExec_cons (f : σ → ε → Option σ) (s : σ) (e : ε) (es : List ε) :
    tryExec f s (e :: es) = (f s e).bind (fun s' => tryExec f s' es) := rfl

theorem tryExec_append (f : σ → ε → Option σ) (s : σ) (as bs : List ε) :
    tryExec f s (as ++ bs) = (tryExec f s as).bind (fun s' => tryExec f s' bs) := by
  induction as generalizing s with
  | nil => rfl
  | cons a as ih =>
    rw [List.cons_append, tryExec_cons, tryExec_cons, Option.bind_assoc]
    congr 1
    funext s'
    exact ih s'

/-- What each enabled step preserves holds after the run. The property may speak
of the events so far. -/
theorem tryExec_invariant {f : σ → ε → Option σ} {P : List ε → σ → Prop}
    (hstep : ∀ past s e s', P past s → f s e = some s' → P (past ++ [e]) s')
    {s s' : σ} {es : List ε} (h : P [] s) (hrun : tryExec f s es = some s') : P es s' := by
  suffices hgen : ∀ past s, P past s → tryExec f s es = some s' → P (past ++ es) s' from
    hgen [] s h hrun
  clear h hrun
  induction es with
  | nil =>
    intro past s h hrun
    simp only [tryExec_nil, Option.some.injEq] at hrun
    simpa [hrun] using h
  | cons e es ih =>
    intro past s h hrun
    obtain ⟨s₁, hs₁, hrest⟩ := Option.bind_eq_some_iff.mp hrun
    have := ih (past ++ [e]) s₁ (hstep past s e s₁ h hs₁) hrest
    rwa [List.append_assoc, List.singleton_append] at this

/-- Every event of the run meets the condition in the state it finds. -/
def TryAlong (f : σ → ε → Option σ) (C : σ → ε → Prop) : σ → List ε → Prop
  | _, [] => True
  | s, e :: es => C s e ∧ ∀ s' ∈ f s e, TryAlong f C s' es

instance decidableTryAlong (f : σ → ε → Option σ) (C : σ → ε → Prop) [∀ s e, Decidable (C s e)] :
    ∀ s es, Decidable (TryAlong f C s es)
  | _, [] => isTrue trivial
  | s, e :: es =>
    have := fun s' => decidableTryAlong f C s' es
    inferInstanceAs (Decidable (C s e ∧ ∀ s' ∈ f s e, TryAlong f C s' es))

/-- What each enabled step under the condition preserves, the run preserves. The
property may speak of the events so far. -/
theorem tryExec_invariant_along {f : σ → ε → Option σ} {C : σ → ε → Prop} {P : List ε → σ → Prop}
    {s₀ s' : σ} {es : List ε}
    (hstep : ∀ past s e s', tryExec f s₀ past = some s → P past s → C s e → f s e = some s' →
      P (past ++ [e]) s')
    (h : P [] s₀) (hc : TryAlong f C s₀ es) (hrun : tryExec f s₀ es = some s') : P es s' := by
  suffices hgen : ∀ past s, tryExec f s₀ past = some s → P past s → TryAlong f C s es →
      tryExec f s es = some s' → P (past ++ es) s' from hgen [] s₀ rfl h hc hrun
  clear hc hrun
  induction es with
  | nil =>
    intro past s _ h _ hrun
    simp only [tryExec_nil, Option.some.injEq] at hrun
    simpa [hrun] using h
  | cons e es ih =>
    intro past s hpast h hc hrun
    obtain ⟨s₁, hs₁, hrest⟩ := Option.bind_eq_some_iff.mp hrun
    have hpast₁ : tryExec f s₀ (past ++ [e]) = some s₁ := by
      rw [tryExec_append, hpast, Option.bind_some, tryExec_cons, hs₁, Option.bind_some, tryExec_nil]
    have := ih (past ++ [e]) s₁ hpast₁ (hstep past s e s₁ hpast h hc.1 hs₁) (hc.2 s₁ hs₁) hrest
    rwa [List.append_assoc, List.singleton_append] at this

end Runs
