import Mathlib.Data.Finset.Basic

/-!
# Edits of a keyed set

A replica holds a finite set of items, each under a key. An edit puts an item in
place of whatever its key held, or drops a key. A list of edits with distinct
keys can be read in any order, and a delta turns its base into the desired set.
-/
namespace KeyedSets

variable {α κ : Type*}

inductive Edit (α κ : Type*) where
  | put : α → Edit α κ
  | drop : κ → Edit α κ
  deriving DecidableEq, Repr

def Edit.key (key : α → κ) : Edit α κ → κ
  | .put a => key a
  | .drop k => k

@[simp] theorem Edit.key_put (key : α → κ) (a : α) : (Edit.put a).key key = key a := rfl
@[simp] theorem Edit.key_drop (key : α → κ) (k : κ) : (Edit.drop k : Edit α κ).key key = k := rfl

variable [DecidableEq α] [DecidableEq κ]

def applyEdit (key : α → κ) (held : Finset α) : Edit α κ → Finset α
  | .put a => insert a (held.filter (fun b => key b ≠ key a))
  | .drop k => held.filter (fun b => key b ≠ k)

def applyEdits (key : α → κ) (held : Finset α) (es : List (Edit α κ)) : Finset α :=
  es.foldl (applyEdit key) held

@[simp] theorem applyEdits_nil (key : α → κ) (held : Finset α) : applyEdits key held [] = held := rfl
@[simp] theorem applyEdits_cons (key : α → κ) (held : Finset α) (e : Edit α κ)
    (es : List (Edit α κ)) :
    applyEdits key held (e :: es) = applyEdits key (applyEdit key held e) es := rfl

theorem mem_applyEdit (key : α → κ) (held : Finset α) (e : Edit α κ) (a : α) :
    a ∈ applyEdit key held e ↔ e = .put a ∨ (a ∈ held ∧ e.key key ≠ key a) := by
  cases e with
  | put b =>
    simp only [applyEdit, Finset.mem_insert, Finset.mem_filter, Edit.put.injEq, Edit.key_put]
    constructor
    · rintro (rfl | ⟨ha, hk⟩)
      · exact .inl rfl
      · exact .inr ⟨ha, Ne.symm hk⟩
    · rintro (rfl | ⟨ha, hk⟩)
      · exact .inl rfl
      · exact .inr ⟨ha, Ne.symm hk⟩
  | drop k => simp [applyEdit, eq_comm]

/-- Edits bring in no item that was neither held nor put. -/
theorem mem_applyEdits_of {key : α → κ} {es : List (Edit α κ)} {held : Finset α} {a : α}
    (h : a ∈ applyEdits key held es) : .put a ∈ es ∨ a ∈ held := by
  induction es generalizing held with
  | nil => exact .inr h
  | cons e es ih =>
    rcases ih h with h | h
    · exact .inl (List.mem_cons_of_mem _ h)
    · rcases (mem_applyEdit key held e a).mp h with rfl | ⟨h, -⟩
      · exact .inl (List.mem_cons_self ..)
      · exact .inr h

/-- With distinct keys an item is held afterwards when an edit puts it, or when it
was held and no edit touches its key. -/
theorem mem_applyEdits {key : α → κ} {es : List (Edit α κ)}
    (hk : (es.map (Edit.key key)).Nodup) (held : Finset α) (a : α) :
    a ∈ applyEdits key held es ↔
      .put a ∈ es ∨ (a ∈ held ∧ ∀ e ∈ es, e.key key ≠ key a) := by
  induction es generalizing held with
  | nil => simp
  | cons e es ih =>
    have hn := List.nodup_cons.mp hk
    rw [applyEdits_cons, ih hn.2, mem_applyEdit]
    have hfresh : e = .put a → ∀ e' ∈ es, e'.key key ≠ key a := by
      rintro rfl e' he' hkey
      exact hn.1 (List.mem_map.mpr ⟨e', he', hkey⟩)
    simp only [List.mem_cons, forall_eq_or_imp]
    constructor
    · rintro (h | ⟨rfl | ⟨ha, hne⟩, hes⟩)
      · exact .inl (.inr h)
      · exact .inl (.inl rfl)
      · exact .inr ⟨ha, hne, hes⟩
    · rintro ((h | h) | ⟨ha, hne, hes⟩)
      · exact .inr ⟨.inl h.symm, hfresh h.symm⟩
      · exact .inl h
      · exact .inr ⟨.inr ⟨ha, hne⟩, hes⟩

/-- The edits that lead a replica from `base` to `desired`. Dropping a key that
neither set uses is allowed: a tombstone is such an edit. -/
structure IsDelta (key : α → κ) (base desired : Finset α) (es : List (Edit α κ)) : Prop where
  nodup : (es.map (Edit.key key)).Nodup
  put : ∀ a, .put a ∈ es ↔ a ∈ desired ∧ a ∉ base
  drop : ∀ k, .drop k ∈ es → ∀ a ∈ desired, key a ≠ k
  dropped : ∀ b ∈ base, (∀ a ∈ desired, key a ≠ key b) → .drop (key b) ∈ es

/-- A delta applied to exactly its base yields exactly the desired set. -/
theorem applyEdits_delta {key : α → κ} {base desired : Finset α} {es : List (Edit α κ)}
    (hb : Set.InjOn key base) (hd : Set.InjOn key desired) (h : IsDelta key base desired es) :
    applyEdits key base es = desired := by
  ext a
  rw [mem_applyEdits h.nodup, h.put]
  constructor
  · rintro (⟨ha, -⟩ | ⟨ha, hes⟩)
    · exact ha
    · by_contra hnd
      by_cases hex : ∃ b ∈ desired, key b = key a
      · obtain ⟨b, hbd, hbk⟩ := hex
        have hbb : b ∉ base := by
          intro hbb
          exact hnd (hb hbb ha hbk ▸ hbd)
        exact hes (.put b) ((h.put b).mpr ⟨hbd, hbb⟩) hbk
      · exact hes _ (h.dropped a ha (fun b hbd hbk => hex ⟨b, hbd, hbk⟩)) rfl
  · intro ha
    by_cases hab : a ∈ base
    · refine .inr ⟨hab, ?_⟩
      intro e he hk
      cases e with
      | put b =>
        obtain ⟨hbd, hbb⟩ := (h.put b).mp he
        exact hbb (hd hbd ha hk ▸ hab)
      | drop k => exact h.drop k he a ha hk.symm
    · exact .inl ⟨ha, hab⟩

end KeyedSets
