import Mathlib.Data.Finset.Card
import Mathlib.Data.Finset.SDiff
import Mathlib.Data.Set.Basic
import Mathlib.Tactic.Common

/-!
# Passes over a set until one adds nothing

A pass goes over a finite set, adds elements to it, and says whether it added any.
Passes are repeated until one of them adds nothing.
-/
namespace Saturation

variable {α β : Type}

def add [DecidableEq α] (a : α) (s : Finset α) : Finset α × Bool := if a ∈ s then (s, false) else (insert a s, true)

/-- One more pass, over the set the passes before it left. -/
def andThen (r : Finset α × Bool) (pass : Finset α → Finset α × Bool) : Finset α × Bool :=
  ((pass r.1).1, (pass r.1).2 || r.2)

/-- One pass for each element of the list. -/
def overAll (pass : β → Finset α → Finset α × Bool) (bs : List β) (s : Finset α) : Finset α × Bool :=
  bs.foldl (fun r b => andThen r (pass b)) (s, false)

/-- No pass is left out and the last one adds nothing; `none` when the fuel is short. -/
def saturate (pass : Finset α → Finset α × Bool) : Nat → Finset α → Option (Finset α)
  | 0, _ => none
  | fuel + 1, s => if (pass s).2 = true then saturate pass fuel (pass s).1 else some (pass s).1

/-- What a pass leaves: a set that holds the old one, and is the old one unless the
pass says that it changed. -/
structure Grows (s : Finset α) (r : Finset α × Bool) : Prop where
  subset : s ⊆ r.1
  changed : r.2 = true ↔ r.1 ≠ s

/-- A pass adds nothing outside a set that it starts in. -/
def Confines (pass : Finset α → Finset α × Bool) (c : Set α) : Prop :=
  ∀ s : Finset α, (s : Set α) ⊆ c → ((pass s).1 : Set α) ⊆ c

variable {s : Finset α} {r : Finset α × Bool} {pass : Finset α → Finset α × Bool} {c : Set α}

theorem Grows.unchanged (h : Grows s r) (hr : r.2 = false) : r.1 = s := by
  by_contra hne
  have := h.changed.mpr hne
  rw [hr] at this
  cases this

theorem grows_same (s : Finset α) : Grows s (s, false) :=
  ⟨Finset.Subset.refl s, iff_of_false nofun (fun h => h rfl)⟩

theorem grows_add [DecidableEq α] (a : α) (s : Finset α) : Grows s (add a s) := by
  unfold add
  by_cases ha : a ∈ s
  · rw [if_pos ha]
    exact grows_same s
  · rw [if_neg ha]
    refine ⟨Finset.subset_insert a s, iff_of_true rfl (fun h => ha ?_)⟩
    rw [← h]
    exact Finset.mem_insert_self a s

theorem mem_add [DecidableEq α] (a : α) (s : Finset α) : a ∈ (add a s).1 := by
  unfold add
  by_cases ha : a ∈ s
  · rwa [if_pos ha]
  · rw [if_neg ha]
    exact Finset.mem_insert_self a s

theorem Grows.andThen (h : Grows s r) (hpass : ∀ t, Grows t (pass t)) : Grows s (andThen r pass) := by
  have hnext := hpass r.1
  refine ⟨h.subset.trans hnext.subset, ?_⟩
  simp only [Saturation.andThen, Bool.or_eq_true, hnext.changed, h.changed]
  constructor
  · rintro (hne | hne) heq
    · exact hne (Finset.Subset.antisymm (heq ▸ h.subset) hnext.subset)
    · exact hne (Finset.Subset.antisymm (heq ▸ hnext.subset) h.subset)
  · intro hne
    by_cases hr : r.1 = s
    · exact .inl (fun heq => hne (heq.trans hr))
    · exact .inr hr

/-- When the second pass changes nothing either, both left the set as it was. -/
theorem andThen_unchanged (h : Grows s r) (hr : (andThen r pass).2 = false) :
    r = (s, false) ∧ (pass s).2 = false := by
  simp only [andThen, Bool.or_eq_false_iff] at hr
  have hsame : r = (s, false) := Prod.ext (h.unchanged hr.2) hr.2
  refine ⟨hsame, ?_⟩
  have hlast := hr.1
  rwa [hsame] at hlast

section OverAll

variable {passes : β → Finset α → Finset α × Bool} {bs : List β}

theorem grows_foldl (hpass : ∀ b t, Grows t (passes b t)) (h : Grows s r) :
    Grows s (bs.foldl (fun r b => andThen r (passes b)) r) := by
  induction bs generalizing r with
  | nil => exact h
  | cons b bs ih => exact ih (h.andThen (hpass b))

theorem grows_overAll (hpass : ∀ b t, Grows t (passes b t)) (bs : List β) (s : Finset α) :
    Grows s (overAll passes bs s) :=
  grows_foldl hpass (grows_same s)

theorem foldl_unchanged (hpass : ∀ b t, Grows t (passes b t)) (h : Grows s r)
    (hr : (bs.foldl (fun r b => andThen r (passes b)) r).2 = false) :
    r = (s, false) ∧ ∀ b ∈ bs, (passes b s).2 = false := by
  induction bs generalizing r with
  | nil => exact ⟨Prod.ext (h.unchanged hr) hr, nofun⟩
  | cons b bs ih =>
    obtain ⟨hsame, hrest⟩ := ih (h.andThen (hpass b)) hr
    obtain ⟨hstart, hb⟩ := andThen_unchanged h (congrArg Prod.snd hsame)
    exact ⟨hstart, List.forall_mem_cons.mpr ⟨hb, hrest⟩⟩

/-- A round that changed nothing has none of its passes changing anything. -/
theorem overAll_unchanged (hpass : ∀ b t, Grows t (passes b t)) (hr : (overAll passes bs s).2 = false) :
    ∀ b ∈ bs, (passes b s).2 = false :=
  (foldl_unchanged hpass (grows_same s) hr).2

theorem confines_overAll (hpass : ∀ b ∈ bs, Confines (passes b) c) : Confines (overAll passes bs) c := by
  intro s hs
  suffices h : ∀ r : Finset α × Bool, (r.1 : Set α) ⊆ c →
      ((bs.foldl (fun r b => andThen r (passes b)) r).1 : Set α) ⊆ c from h (s, false) hs
  induction bs with
  | nil => exact fun r hr => hr
  | cons b bs ih =>
    intro r hr
    refine ih (fun b' hb' => hpass b' (List.mem_cons_of_mem b hb')) _ ?_
    exact hpass b List.mem_cons_self r.1 hr

end OverAll

theorem confines_add [DecidableEq α] {a : α} (ha : a ∈ c) : Confines (add a) c := by
  intro s hs
  unfold add
  by_cases hmem : a ∈ s
  · rwa [if_pos hmem]
  · rw [if_neg hmem, Finset.coe_insert]
    exact Set.insert_subset ha hs

variable {fuel : Nat} {t : Finset α}

/-- The result holds the start, and a pass over it adds nothing. -/
theorem saturate_spec (hpass : ∀ t, Grows t (pass t)) (h : saturate pass fuel s = some t) :
    s ⊆ t ∧ (pass t).2 = false := by
  induction fuel generalizing s with
  | zero => cases h
  | succ fuel ih =>
    rw [saturate] at h
    by_cases hr : (pass s).2 = true
    · rw [if_pos hr] at h
      exact (ih h).imp_left (hpass s).subset.trans
    · rw [if_neg hr] at h
      have hfalse : (pass s).2 = false := Bool.eq_false_iff.mpr hr
      obtain rfl := Option.some.inj h
      rw [(hpass s).unchanged hfalse]
      exact ⟨Finset.Subset.refl s, hfalse⟩

theorem saturate_confined (hpass : Confines pass c) (hs : (s : Set α) ⊆ c)
    (h : saturate pass fuel s = some t) : (t : Set α) ⊆ c := by
  induction fuel generalizing s with
  | zero => cases h
  | succ fuel ih =>
    rw [saturate] at h
    by_cases hr : (pass s).2 = true
    · rw [if_pos hr] at h
      exact ih (hpass s hs) h
    · rw [if_neg hr] at h
      obtain rfl := Option.some.inj h
      exact hpass s hs

/-- Each pass but the last adds an element of a finite set, so their number is bounded. -/
theorem saturate_terminates [DecidableEq α] {bound : Finset α} (hpass : ∀ t, Grows t (pass t))
    (hconfines : Confines pass bound) (hs : s ⊆ bound) (hfuel : (bound \ s).card < fuel) :
    ∃ t, saturate pass fuel s = some t := by
  induction fuel generalizing s with
  | zero => omega
  | succ fuel ih =>
    rw [saturate]
    by_cases hr : (pass s).2 = true
    · rw [if_pos hr]
      have hgrew : s ⊂ (pass s).1 :=
        (hpass s).subset.ssubset_of_ne (fun h => (hpass s).changed.mp hr h.symm)
      have hwithin : (pass s).1 ⊆ bound :=
        Finset.coe_subset.mp (hconfines s (Finset.coe_subset.mpr hs))
      have hfewer : bound \ (pass s).1 ⊂ bound \ s := by
        obtain ⟨a, ha, hnew⟩ := Finset.exists_of_ssubset hgrew
        refine Finset.ssubset_iff_of_subset (Finset.sdiff_subset_sdiff subset_rfl hgrew.subset) |>.mpr ?_
        exact ⟨a, Finset.mem_sdiff.mpr ⟨hwithin ha, hnew⟩, fun h => (Finset.mem_sdiff.mp h).2 ha⟩
      have := Finset.card_lt_card hfewer
      exact ih hwithin (by omega)
    · rw [if_neg hr]
      exact ⟨_, rfl⟩

end Saturation
