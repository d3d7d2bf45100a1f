import Woodstar.GoText
import Mathlib.Data.List.DropRight

/-!
# Slash-separated paths

Paths are texts; `clean` finds the shortest name of a path by its text alone.
-/
namespace LexicalPaths

/-- One element of a path, on the elements so far, the last one first. -/
def cleanStep (rooted : Bool) (stack : List (List Char)) (element : List Char) : List (List Char) :=
  if element = [] ∨ element = ['.'] then stack
  else if element = ['.', '.'] then
    match stack with
    | [] => if rooted = true then [] else [element]
    | top :: rest => if top = ['.', '.'] then element :: stack else rest
  else element :: stack

def isAbs (path : List Char) : Bool := path.head? == some '/'

def clean (path : List Char) : List Char :=
  let elements := ((path.splitOn '/').foldl (cleanStep (isAbs path)) []).reverse
  if isAbs path = true then '/' :: List.intercalate ['/'] elements
  else if elements = [] then ['.']
  else List.intercalate ['/'] elements

/-- The last element of a path. -/
def base (path : List Char) : List Char :=
  if path = [] then ['.']
  else
    let trimmed := path.rdropWhile (· = '/')
    if trimmed = [] then ['/'] else trimmed.rtakeWhile (· ≠ '/')

def dir (path : List Char) : List Char := clean (path.rdropWhile (· ≠ '/'))

/-- The elements that are not empty, with slashes between them. -/
def join (elements : List (List Char)) : List Char :=
  let joined := elements.filter (· ≠ [])
  if joined = [] then [] else clean (List.intercalate ['/'] joined)

theorem cleanStep_ne_nil {rooted : Bool} {stack : List (List Char)} {element : List Char}
    (h : [] ∉ stack) : [] ∉ cleanStep rooted stack element := by
  simp only [cleanStep]
  by_cases hempty : element = [] ∨ element = ['.']
  · rwa [if_pos hempty]
  · have hcons : [] ∉ element :: stack := by
      simp only [List.mem_cons, not_or]
      exact ⟨fun heq => hempty (Or.inl heq.symm), h⟩
    rw [if_neg hempty]
    by_cases hparent : element = ['.', '.']
    · rw [if_pos hparent]
      cases stack with
      | nil =>
        simp only
        split_ifs
        · exact h
        · exact hcons
      | cons top rest =>
        simp only
        split_ifs
        · exact hcons
        · exact fun hmem => h (List.mem_cons_of_mem top hmem)
    · rwa [if_neg hparent]

theorem clean_ne_nil (path : List Char) : clean path ≠ [] := by
  have helements : ∀ (elements stack : List (List Char)), [] ∉ stack →
      [] ∉ elements.foldl (cleanStep (isAbs path)) stack := by
    intro elements
    induction elements with
    | nil => exact fun stack h => h
    | cons element elements ih => exact fun stack h => ih _ (cleanStep_ne_nil h)
  simp only [clean]
  split_ifs with habs hnil
  · exact List.cons_ne_nil _ _
  · exact List.cons_ne_nil _ _
  · have hmem := helements (path.splitOn '/') [] List.not_mem_nil
    generalize (path.splitOn '/').foldl (cleanStep (isAbs path)) [] = stack at hnil hmem
    intro hjoined
    cases hreverse : stack.reverse with
    | nil => exact hnil hreverse
    | cons element rest =>
      have hne : element ≠ [] := by
        rintro rfl
        exact hmem (List.mem_reverse.mp (hreverse ▸ List.mem_cons_self))
      rw [hreverse] at hjoined
      cases rest with
      | nil => exact hne (by simpa using hjoined)
      | cons second rest => simp [List.intercalate] at hjoined

theorem base_ne_nil (path : List Char) : base path ≠ [] := by
  simp only [base]
  split_ifs with hpath htrimmed
  · exact List.cons_ne_nil _ _
  · exact List.cons_ne_nil _ _
  · intro hnil
    rw [List.rtakeWhile_eq_nil_iff] at hnil
    have hlast := hnil htrimmed
    have := List.rdropWhile_last_not (· = '/') path htrimmed
    simp_all

theorem join_ne_nil {elements : List (List Char)} {element : List Char} (hmem : element ∈ elements)
    (hne : element ≠ []) : join elements ≠ [] := by
  have hjoined : elements.filter (· ≠ []) ≠ [] :=
    List.ne_nil_of_mem (List.mem_filter.mpr ⟨hmem, decide_eq_true hne⟩)
  simp only [join, if_neg hjoined]
  exact clean_ne_nil _

variable {c : Char} {sep part path : List Char} {parts : List (List Char)}

theorem mem_intercalate (h : c ∈ sep.intercalate parts) : c ∈ sep ∨ ∃ part ∈ parts, c ∈ part := by
  induction parts with
  | nil => cases h
  | cons part parts ih =>
    cases parts with
    | nil =>
      rw [List.intercalate_singleton] at h
      exact .inr ⟨part, List.mem_cons_self, h⟩
    | cons next parts =>
      rw [List.intercalate_cons_cons, List.append_assoc, List.mem_append, List.mem_append] at h
      obtain hpart | hsep | hrest := h
      · exact .inr ⟨part, List.mem_cons_self, hpart⟩
      · exact .inl hsep
      · cases ih hrest with
        | inl hsep => exact .inl hsep
        | inr hmem =>
          obtain ⟨other, hother, hc⟩ := hmem
          exact .inr ⟨other, List.mem_cons_of_mem _ hother, hc⟩

theorem mem_intercalate_of_mem (hpart : part ∈ parts) (hc : c ∈ part) : c ∈ sep.intercalate parts := by
  induction parts with
  | nil => cases hpart
  | cons first parts ih =>
    cases parts with
    | nil =>
      rw [List.intercalate_singleton, ← List.mem_singleton.mp hpart]
      exact hc
    | cons next parts =>
      rw [List.intercalate_cons_cons, List.append_assoc, List.mem_append, List.mem_append]
      cases List.mem_cons.mp hpart with
      | inl heq => exact .inl (heq ▸ hc)
      | inr hrest => exact .inr (.inr (ih hrest))

theorem mem_of_mem_splitOn {sep : Char} (hpart : part ∈ path.splitOn sep) (hc : c ∈ part) : c ∈ path := by
  have hjoin : [sep].intercalate (path.splitOn sep) = path := List.intercalate_splitOn sep
  rw [← hjoin]
  exact mem_intercalate_of_mem hpart hc

/-- An element that stays on the stack is one of the path. -/
theorem mem_cleanStep {rooted : Bool} {stack : List (List Char)} {element : List Char}
    (h : part ∈ cleanStep rooted stack element) : part ∈ stack ∨ part = element := by
  simp only [cleanStep] at h
  by_cases hempty : element = [] ∨ element = ['.']
  · rw [if_pos hempty] at h
    exact .inl h
  · rw [if_neg hempty] at h
    by_cases hparent : element = ['.', '.']
    · rw [if_pos hparent] at h
      cases stack with
      | nil =>
        simp only at h
        split_ifs at h
        · exact .inl h
        · exact .inr (List.mem_singleton.mp h)
      | cons top rest =>
        simp only at h
        split_ifs at h
        · exact (List.mem_cons.mp h).symm
        · exact .inl (List.mem_cons_of_mem _ h)
    · rw [if_neg hparent] at h
      exact (List.mem_cons.mp h).symm

theorem mem_cleanSteps {rooted : Bool} {elements stack : List (List Char)}
    (h : part ∈ elements.foldl (cleanStep rooted) stack) : part ∈ stack ∨ part ∈ elements := by
  induction elements generalizing stack with
  | nil => exact .inl h
  | cons element elements ih =>
    cases ih h with
    | inl hstep =>
      cases mem_cleanStep hstep with
      | inl hstack => exact .inl hstack
      | inr heq => exact .inr (heq ▸ List.mem_cons_self)
    | inr hrest => exact .inr (List.mem_cons_of_mem _ hrest)

theorem mem_clean (h : c ∈ clean path) : c ∈ path ∨ c = '/' ∨ c = '.' := by
  have helements : c ∈ List.intercalate ['/']
      ((path.splitOn '/').foldl (cleanStep (isAbs path)) []).reverse → c ∈ path ∨ c = '/' ∨ c = '.' := by
    intro hc
    cases mem_intercalate hc with
    | inl hsep => exact .inr (.inl (List.mem_singleton.mp hsep))
    | inr hmem =>
      obtain ⟨part, hpart, hc⟩ := hmem
      cases mem_cleanSteps (List.mem_reverse.mp hpart) with
      | inl hnil => cases hnil
      | inr hpart => exact .inl (mem_of_mem_splitOn hpart hc)
  simp only [clean] at h
  split_ifs at h
  · cases List.mem_cons.mp h with
    | inl heq => exact .inr (.inl heq)
    | inr hrest => exact helements hrest
  · exact .inr (.inr (List.mem_singleton.mp h))
  · exact helements h

end LexicalPaths
