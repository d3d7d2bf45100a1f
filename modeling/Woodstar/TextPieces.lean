import Mathlib.Data.List.DropRight
import Woodstar.GoText
import Woodstar.Primitives

/-!
# Text in pieces

`strings.Split` beside `strings.Cut`, and what `strings.TrimSpace` leaves of a text that
has more in front.
-/
namespace TextPieces

open GoText
open Primitives

variable {sep s t before after : List Char}

/-- The pieces after the next `skip` characters. -/
def splitFrom (sep : List Char) : Nat → List Char → List (List Char)
  | _, [] => [[]]
  | skip + 1, _ :: cs => splitFrom sep skip cs
  | 0, c :: cs =>
    if sep.isPrefixOf (c :: cs) = true then [] :: splitFrom sep (sep.length - 1) cs
    else (splitFrom sep 0 cs).modifyHead (c :: ·)

/-- Go's `strings.Split`, for a separator that is not empty. -/
def split (sep s : List Char) : List (List Char) := splitFrom sep 0 s

theorem splitFrom_drop (sep : List Char) (skip : Nat) (s : List Char) :
    splitFrom sep skip s = split sep (s.drop skip) := by
  induction s generalizing skip with
  | nil => cases skip <;> rfl
  | cons c cs ih =>
    cases skip with
    | zero => rfl
    | succ skip => exact ih skip

theorem split_none (h : cut sep s = none) : split sep s = [s] := by
  induction s with
  | nil => rfl
  | cons c cs ih =>
    by_cases hfirst : sep.isPrefixOf (c :: cs) = true
    · rw [cut, if_pos hfirst] at h
      cases h
    · rw [cut, if_neg hfirst, Option.map_eq_none_iff] at h
      have hrest : splitFrom sep 0 cs = [cs] := ih h
      rw [split, splitFrom, if_neg hfirst, hrest]
      rfl

theorem split_some (hsep : sep ≠ []) (h : cut sep s = some (before, after)) :
    split sep s = before :: split sep after := by
  induction s generalizing before with
  | nil =>
    rw [cut, if_neg hsep] at h
    cases h
  | cons c cs ih =>
    by_cases hfirst : sep.isPrefixOf (c :: cs) = true
    · rw [cut, if_pos hfirst] at h
      obtain ⟨rfl, rfl⟩ := Prod.mk.inj (Option.some.inj h)
      obtain ⟨d, ds, rfl⟩ := List.exists_cons_of_ne_nil hsep
      rw [split, splitFrom, if_pos hfirst, splitFrom_drop]
      rfl
    · rw [cut, if_neg hfirst] at h
      obtain ⟨parts, hparts, heq⟩ := Option.map_eq_some_iff.mp h
      obtain ⟨rfl, rfl⟩ := Prod.mk.inj heq
      have hrest : splitFrom sep 0 cs = parts.1 :: split sep parts.2 := ih hparts
      rw [split, splitFrom, if_neg hfirst, hrest]
      rfl

theorem cut_spec (h : cut sep s = some (before, after)) : s = before ++ sep ++ after := by
  induction s generalizing before with
  | nil =>
    rw [cut] at h
    by_cases hsep : sep = []
    · rw [if_pos hsep] at h
      obtain ⟨rfl, rfl⟩ := Prod.mk.inj (Option.some.inj h)
      simp [hsep]
    · rw [if_neg hsep] at h
      cases h
  | cons c cs ih =>
    by_cases hfirst : sep.isPrefixOf (c :: cs) = true
    · rw [cut, if_pos hfirst] at h
      obtain ⟨rfl, rfl⟩ := Prod.mk.inj (Option.some.inj h)
      obtain ⟨rest, hrest⟩ := List.isPrefixOf_iff_prefix.mp hfirst
      rw [← hrest, List.drop_left, List.nil_append]
    · rw [cut, if_neg hfirst] at h
      obtain ⟨parts, hparts, heq⟩ := Option.map_eq_some_iff.mp h
      obtain ⟨rfl, rfl⟩ := Prod.mk.inj heq
      rw [ih hparts, List.cons_append, List.cons_append]

theorem split_ne_nil (sep s : List Char) : split sep s ≠ [] := by
  induction s with
  | nil => nofun
  | cons c cs ih =>
    rw [split, splitFrom]
    by_cases hfirst : sep.isPrefixOf (c :: cs) = true
    · rw [if_pos hfirst]
      nofun
    · rw [if_neg hfirst]
      cases hpieces : splitFrom sep 0 cs with
      | nil => exact absurd hpieces ih
      | cons piece pieces => nofun

theorem getLastD_cons {α : Type} {a d : α} {l : List α} (h : l ≠ []) : (a :: l).getLastD d = l.getLastD d := by
  cases l with
  | nil => exact absurd rfl h
  | cons b bs => rfl

/-- The last piece is the end of the text behind its last separator. -/
theorem getLast_split (hsep : sep ≠ []) (s : List Char) :
    (split sep s).getLastD [] <:+ s ∧ cut sep ((split sep s).getLastD []) = none := by
  induction hlen : s.length using Nat.strongRecOn generalizing s with
  | ind len ih =>
    cases hcut : cut sep s with
    | none =>
      rw [split_none hcut]
      exact ⟨List.suffix_refl s, hcut⟩
    | some parts =>
      have hspec : s = parts.1 ++ sep ++ parts.2 := cut_spec hcut
      have hshort : parts.2.length < len := by
        have hpos := List.length_pos_of_ne_nil hsep
        rw [← hlen, hspec]
        simp only [List.length_append]
        omega
      obtain ⟨hsuffix, hnone⟩ := ih _ hshort parts.2 rfl
      have hsplit : split sep s = parts.1 :: split sep parts.2 := split_some hsep hcut
      rw [hsplit, getLastD_cons (split_ne_nil sep parts.2)]
      exact ⟨hsuffix.trans ⟨parts.1 ++ sep, hspec.symm⟩, hnone⟩

theorem cut_none_iff (hsep : sep ≠ []) : cut sep s = none ↔ ¬ sep <:+: s := by
  induction s with
  | nil => simp [cut, hsep]
  | cons c cs ih =>
    rw [List.infix_cons_iff, ← List.isPrefixOf_iff_prefix]
    by_cases hfirst : sep.isPrefixOf (c :: cs) = true
    · simp [cut, hfirst]
    · simp [cut, hfirst, ih]

section Trim

/-- The characters that `strings.TrimSpace` leaves. -/
def trim (s : List Char) : List Char := ((s.dropWhile isSpace).reverse.dropWhile isSpace).reverse

theorem trimSpace_eq_iff {text : String} : trimSpace text = text ↔ trim text.toList = text.toList := by
  rw [trimSpace, ← trim, ← String.toList_inj, String.toList_ofList]

theorem trim_eq_iff :
    trim s = s ↔ s.dropWhile isSpace = s ∧ s.reverse.dropWhile isSpace = s.reverse := by
  constructor
  · intro h
    have hfront : (s.dropWhile isSpace).length = s.length := by
      have hle := (List.dropWhile_suffix isSpace (l := s)).length_le
      have hle' := (List.dropWhile_suffix isSpace (l := (s.dropWhile isSpace).reverse)).length_le
      have hlen := congrArg List.length h
      simp only [trim, List.length_reverse] at hlen hle'
      omega
    have hsame := (List.dropWhile_suffix isSpace (l := s)).eq_of_length hfront
    rw [trim, hsame] at h
    exact ⟨hsame, List.reverse_eq_iff.mp h⟩
  · intro h
    rw [trim, h.1, h.2, List.reverse_reverse]

theorem trim_trim (s : List Char) : trim (trim s) = trim s := by
  apply trim_eq_iff.mpr
  constructor
  · cases hrest : trim s with
    | nil => rfl
    | cons c cs =>
      have hsub : trim s <+: s.dropWhile isSpace := by
        have hsuffix := List.dropWhile_suffix isSpace (l := (s.dropWhile isSpace).reverse)
        rw [← List.reverse_prefix] at hsuffix
        rwa [List.reverse_reverse] at hsuffix
      obtain ⟨rest, heq⟩ := hsub
      rw [hrest, List.cons_append] at heq
      have hhead := List.head?_dropWhile_not isSpace s
      rw [← heq] at hhead
      exact List.dropWhile_cons_of_neg (by simpa using hhead)
  · rw [trim, List.reverse_reverse, List.dropWhile_idempotent]

theorem trim_isInfix (s : List Char) : trim s <:+: s := by
  have hfront := List.dropWhile_suffix isSpace (l := s)
  have hback := List.dropWhile_suffix isSpace (l := (s.dropWhile isSpace).reverse)
  rw [← List.reverse_prefix, List.reverse_reverse] at hback
  exact hback.isInfix.trans hfront.isInfix

theorem mem_trim {c : Char} {s : List Char} (hc : isSpace c = false) (h : c ∈ s) : c ∈ trim s := by
  have hdrop : ∀ t : List Char, c ∈ t → c ∈ t.dropWhile isSpace := by
    intro t ht
    rw [← List.takeWhile_append_dropWhile (p := isSpace) (l := t)] at ht
    cases List.mem_append.mp ht with
    | inl htake =>
      have hspace := List.mem_takeWhile_imp htake
      rw [hc] at hspace
      cases hspace
    | inr hrest => exact hrest
  exact List.mem_reverse.mpr (hdrop _ (List.mem_reverse.mpr (hdrop s h)))

theorem trimSpace_trimSpace (text : String) : trimSpace (trimSpace text) = trimSpace text := by
  apply trimSpace_eq_iff.mpr
  rw [trimSpace, String.toList_ofList]
  exact trim_trim text.toList

/-- A text that begins before a trimmed one is longer after it is trimmed too. -/
theorem trim_append_ne {c : Char} (hc : isSpace c = false) (hmem : c ∈ before) (ht : trim t = t) (hne : t ≠ []) :
    trim (before ++ t) ≠ t := by
  obtain ⟨_, hback⟩ := trim_eq_iff.mp ht
  have hfront : before.dropWhile isSpace ≠ [] := by
    intro hnil
    have hall := List.dropWhile_eq_nil_iff.mp hnil c hmem
    rw [hc] at hall
    cases hall
  have hdrop : (before ++ t).dropWhile isSpace = before.dropWhile isSpace ++ t := by
    rw [List.dropWhile_append, if_neg (by simpa using hfront)]
  have hrest : (t.reverse ++ (before.dropWhile isSpace).reverse).dropWhile isSpace =
      t.reverse ++ (before.dropWhile isSpace).reverse := by
    rw [List.dropWhile_append, hback, if_neg (by simpa using hne)]
  intro h
  rw [trim, hdrop, List.reverse_append, hrest, List.reverse_append, List.reverse_reverse,
    List.reverse_reverse] at h
  exact hfront (List.append_left_eq_self.mp h)

end Trim

end TextPieces
