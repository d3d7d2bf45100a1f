import Mathlib.Data.List.Basic
import Mathlib.Data.List.Infix

/-!
# Replacing all occurrences, and placeholders

`strings.ReplaceAll` on lists. A character that must not be split at is often
replaced by a placeholder and put back later: what comes back is the text
unless the text itself spells the placeholder.
-/
namespace Placeholders

section Replace

variable {α : Type} [DecidableEq α] {old new s t : List α}

/-- The replaced text after the next `skip` characters. -/
def replaceFrom (old new : List α) : Nat → List α → List α
  | _, [] => []
  | skip + 1, _ :: cs => replaceFrom old new skip cs
  | 0, c :: cs =>
    if old.isPrefixOf (c :: cs) = true then new ++ replaceFrom old new (old.length - 1) cs
    else c :: replaceFrom old new 0 cs

/-- Go's `strings.ReplaceAll`, for a text to replace that is not empty. -/
def replaceAll (old new s : List α) : List α := replaceFrom old new 0 s

@[simp] theorem replaceAll_nil : replaceAll old new [] = [] := rfl

theorem replaceFrom_drop (old new : List α) (skip : Nat) (s : List α) :
    replaceFrom old new skip s = replaceAll old new (s.drop skip) := by
  induction s generalizing skip with
  | nil => cases skip <;> rfl
  | cons c cs ih =>
    cases skip with
    | zero => rfl
    | succ skip => exact ih skip

theorem replaceAll_prefix (hold : old ≠ []) (t : List α) :
    replaceAll old new (old ++ t) = new ++ replaceAll old new t := by
  cases old with
  | nil => exact absurd rfl hold
  | cons c cs =>
    have hfirst : (c :: cs).isPrefixOf (c :: (cs ++ t)) = true :=
      List.isPrefixOf_iff_prefix.mpr (List.prefix_append (c :: cs) t)
    rw [List.cons_append, replaceAll, replaceFrom, if_pos hfirst, replaceFrom_drop,
      List.length_cons, Nat.add_sub_cancel, List.drop_left]

theorem replaceAll_cons {c : α} (h : ¬ old <+: c :: s) :
    replaceAll old new (c :: s) = c :: replaceAll old new s := by
  have hfirst : ¬ old.isPrefixOf (c :: s) = true := fun h' => h (List.isPrefixOf_iff_prefix.mp h')
  rw [replaceAll, replaceFrom, if_neg hfirst]
  rfl

omit [DecidableEq α] in
theorem prefix_of_append_cons {c : α} (hc : c ∉ old) (h : old <+: s ++ c :: t) : old <+: s := by
  induction old generalizing s with
  | nil => exact List.nil_prefix
  | cons d ds ih =>
    obtain ⟨hne, hds⟩ := not_or.mp (fun h => hc (List.mem_cons.mpr h))
    cases s with
    | nil =>
      obtain ⟨heq, -⟩ := List.cons_prefix_cons.mp h
      exact absurd heq.symm hne
    | cons e es =>
      obtain ⟨rfl, hrest⟩ := List.cons_prefix_cons.mp h
      exact List.cons_prefix_cons.mpr ⟨rfl, ih hds hrest⟩

/-- A character that does not occur in the replaced text ends every match. -/
theorem replaceAll_append_cons {c : α} (hold : old ≠ []) (hc : c ∉ old) (s t : List α) :
    replaceAll old new (s ++ c :: t) = replaceAll old new s ++ c :: replaceAll old new t := by
  induction hlen : s.length using Nat.strongRecOn generalizing s with
  | ind n ih =>
    cases s with
    | nil =>
      have hfirst : ¬ old <+: c :: t := by
        intro h
        obtain ⟨d, ds, rfl⟩ := List.exists_cons_of_ne_nil hold
        obtain ⟨rfl, -⟩ := List.cons_prefix_cons.mp h
        exact hc List.mem_cons_self
      exact replaceAll_cons hfirst
    | cons d ds =>
      by_cases hfirst : old <+: d :: ds
      · obtain ⟨rest, hrest⟩ := hfirst
        have hshort : rest.length < n := by
          have hpos := List.length_pos_of_ne_nil hold
          rw [← hlen, ← hrest, List.length_append]
          omega
        rw [← hrest, List.append_assoc, replaceAll_prefix hold, replaceAll_prefix hold,
          ih _ hshort rest rfl, List.append_assoc]
      · have hwhole : ¬ old <+: d :: (ds ++ c :: t) := fun h => hfirst (prefix_of_append_cons hc h)
        rw [List.cons_append, replaceAll_cons hwhole, replaceAll_cons hfirst,
          ih ds.length (by rw [← hlen]; exact Nat.lt_succ_self _) ds rfl, List.cons_append]

end Replace

section Mark

variable {α : Type} [DecidableEq α] {sep : α} {ph s t : List α}

/-- Every separator is replaced by the placeholder. -/
def mark (sep : α) (ph s : List α) : List α := s.flatMap (fun c => if c = sep then ph else [c])

/-- The placeholders are replaced by the separator. -/
def unmark (sep : α) (ph s : List α) : List α := replaceAll ph [sep] s

@[simp] theorem mark_nil (sep : α) (ph : List α) : mark sep ph [] = [] := rfl

@[simp] theorem mark_cons_self (sep : α) (ph s : List α) :
    mark sep ph (sep :: s) = ph ++ mark sep ph s := by
  simp [mark]

theorem mark_cons {c : α} (hc : c ≠ sep) (ph s : List α) :
    mark sep ph (c :: s) = c :: mark sep ph s := by
  simp [mark, hc]

theorem mark_append (sep : α) (ph s t : List α) :
    mark sep ph (s ++ t) = mark sep ph s ++ mark sep ph t := List.flatMap_append

theorem mark_eq_self (h : sep ∉ s) (ph : List α) : mark sep ph s = s := by
  induction s with
  | nil => rfl
  | cons c cs ih =>
    obtain ⟨hne, hcs⟩ := not_or.mp (fun h' => h (List.mem_cons.mpr h'))
    rw [mark_cons (Ne.symm hne), ih hcs]

theorem mem_mark {c : α} (h : c ∈ mark sep ph s) : c ∈ ph ∨ (c ∈ s ∧ c ≠ sep) := by
  obtain ⟨d, hd, hc⟩ := List.mem_flatMap.mp h
  split at hc
  · exact Or.inl hc
  · rename_i hne
    obtain rfl := List.mem_singleton.mp hc
    exact Or.inr ⟨hd, hne⟩

/-- What comes back when the separators of a text were replaced by placeholders. -/
def reread (sep : α) (ph s : List α) : List α := unmark sep ph (mark sep ph s)

/-- No place of the marked text but a separator's reads as the placeholder. -/
def Plain (sep : α) (ph s : List α) : Prop :=
  ∀ c t, c :: t <:+ s → c ≠ sep → ¬ ph <+: c :: mark sep ph t

theorem Plain.tail {c : α} (h : Plain sep ph (c :: s)) : Plain sep ph s := by
  intro d t hsuffix
  exact h d t (hsuffix.trans (List.suffix_cons c s))

/-- A text comes back exactly when it does not spell the placeholder. -/
theorem reread_eq_self_iff (hph : ph ≠ []) (s : List α) :
    reread sep ph s = s ↔ Plain sep ph s := by
  induction s with
  | nil =>
    constructor
    · intro _ c t hsuffix
      cases List.suffix_nil.mp hsuffix
    · intro _
      rfl
  | cons c cs ih =>
    by_cases hc : c = sep
    · rw [hc, reread, mark_cons_self, unmark, replaceAll_prefix hph, List.singleton_append]
      change sep :: reread sep ph cs = sep :: cs ↔ Plain sep ph (sep :: cs)
      rw [List.cons.injEq, ih]
      constructor
      · intro h d t hsuffix hd
        cases List.suffix_cons_iff.mp hsuffix with
        | inl heq => exact absurd (List.cons.inj heq).1 hd
        | inr hin => exact h.2 d t hin hd
      · intro h
        exact ⟨rfl, h.tail⟩
    · rw [reread, mark_cons hc]
      by_cases hfirst : ph <+: c :: mark sep ph cs
      · constructor
        · intro h
          obtain ⟨rest, hrest⟩ := hfirst
          rw [← hrest, unmark, replaceAll_prefix hph, List.singleton_append] at h
          exact absurd (List.cons.inj h).1.symm hc
        · intro h
          exact absurd hfirst (h c cs (List.suffix_refl _) hc)
      · rw [unmark, replaceAll_cons hfirst]
        change c :: reread sep ph cs = c :: cs ↔ Plain sep ph (c :: cs)
        rw [List.cons.injEq, ih]
        constructor
        · intro h d t hsuffix hd
          cases List.suffix_cons_iff.mp hsuffix with
          | inl heq =>
            obtain ⟨rfl, rfl⟩ := List.cons.inj heq
            exact hfirst
          | inr hin => exact h.2 d t hin hd
        · intro h
          exact ⟨rfl, h.tail⟩

/-- A character that is neither the separator nor in the placeholder stays where it is. -/
theorem reread_append_cons {c : α} (hph : ph ≠ []) (hc : c ∉ ph) (hsep : c ≠ sep) (s t : List α) :
    reread sep ph (s ++ c :: t) = reread sep ph s ++ c :: reread sep ph t := by
  rw [reread, mark_append, mark_cons hsep, unmark, replaceAll_append_cons hph hc]
  rfl

/-- The marked text behind a start of it that is shorter than the placeholder. -/
theorem drop_mark (sep : α) {n : ℕ} (hn : n < ph.length) (s : List α) :
    ∃ x t, (mark sep ph s).drop n = x ++ mark sep ph t ∧
      x.length + t.length + 1 ≤ (ph.length - n) + s.length := by
  induction s generalizing n with
  | nil =>
    exists [], []
    constructor
    · simp
    · simp only [List.length_nil]
      omega
  | cons c cs ih =>
    cases n with
    | zero =>
      exists [], c :: cs
      constructor
      · rfl
      · simp only [List.length_nil]
        omega
    | succ n =>
      by_cases hc : c = sep
      · exists ph.drop (n + 1), cs
        constructor
        · rw [hc, mark_cons_self, List.drop_append_of_le_length (by omega)]
        · simp only [List.length_drop, List.length_cons]
          omega
      · obtain ⟨x, t, hdrop, hlen⟩ := ih (Nat.lt_of_succ_lt hn)
        exists x, t
        constructor
        · rw [mark_cons hc, List.drop_succ_cons, hdrop]
        · simp only [List.length_cons]
          omega

/-- The rest of a marked text behind a placeholder that begins in front of its marks. -/
theorem drop_append_mark {x : List α} (hx : x ≠ []) (hph : ph ≠ []) (s : List α) :
    ∃ y t, (x ++ mark sep ph s).drop ph.length = y ++ mark sep ph t ∧
      y.length + t.length + 1 ≤ x.length + s.length := by
  have hpos := List.length_pos_of_ne_nil hx
  have hpos' := List.length_pos_of_ne_nil hph
  rcases Nat.lt_or_ge x.length ph.length with hlt | hge
  · obtain ⟨y, t, hdrop, hlen⟩ := drop_mark sep (Nat.sub_lt hpos' hpos) s
    exists y, t
    constructor
    · rw [List.drop_append, List.drop_of_length_le hlt.le, List.nil_append, hdrop]
    · omega
  · exists x.drop ph.length, s
    constructor
    · exact List.drop_append_of_le_length hge
    · rw [List.length_drop]
      omega

/-- Putting separators back makes no text longer than it was. -/
theorem length_unmark_le (sep : α) (hph : ph ≠ []) (x s : List α) :
    (unmark sep ph (x ++ mark sep ph s)).length ≤ x.length + s.length := by
  induction hlen : x.length + s.length using Nat.strongRecOn generalizing x s with
  | ind n ih =>
    have step : ∀ c x' s', c :: x' ++ mark sep ph s' = x ++ mark sep ph s →
        (c :: x').length + s'.length = n →
        (unmark sep ph (x ++ mark sep ph s)).length ≤ n := by
      intro c x' s' heq hn
      rw [← heq]
      by_cases hfirst : ph <+: c :: (x' ++ mark sep ph s')
      · obtain ⟨y, t, hdrop, hle⟩ := drop_append_mark (List.cons_ne_nil c x') hph s'
        obtain ⟨rest, hrest⟩ := hfirst
        have hrest' : rest = y ++ mark sep ph t := by
          rw [← hdrop, List.cons_append, ← hrest, List.drop_left]
        rw [List.cons_append, ← hrest, unmark, replaceAll_prefix hph, hrest']
        have hshort := ih (y.length + t.length) (by omega) y t rfl
        rw [unmark] at hshort
        rw [List.singleton_append, List.length_cons]
        omega
      · rw [List.cons_append, unmark, replaceAll_cons hfirst, List.length_cons]
        rw [List.length_cons] at hn
        have hshort := ih (x'.length + s'.length) (by omega) x' s' rfl
        rw [unmark] at hshort
        omega
    cases x with
    | cons c x' => exact step c x' s rfl hlen
    | nil =>
      cases s with
      | nil => exact Nat.zero_le _
      | cons c s' =>
        rw [List.length_nil, List.length_cons, Nat.zero_add] at hlen
        by_cases hc : c = sep
        · rw [hc, List.nil_append, mark_cons_self, unmark, replaceAll_prefix hph,
            List.singleton_append, List.length_cons]
          have hshort := ih s'.length (by omega) [] s' (Nat.zero_add _)
          rw [unmark, List.nil_append] at hshort
          omega
        · apply step c [] s'
          · rw [List.nil_append, mark_cons hc]
            rfl
          · rw [List.length_singleton]
            omega

theorem length_reread_le (hph : ph ≠ []) (s : List α) : (reread sep ph s).length ≤ s.length := by
  have h := length_unmark_le sep hph [] s
  rw [List.length_nil, Nat.zero_add, List.nil_append] at h
  exact h

end Mark

end Placeholders
