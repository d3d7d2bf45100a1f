import Mathlib.Data.List.Infix
import Mathlib.Data.List.Basic

/-!
# Patterns of SQL's LIKE

A percent sign stands for any text, an underscore for any character, and a
backslash takes the next character as it is. `ILIKE` compares lower case.
-/
namespace LikePatterns

inductive Token where
  | any
  | one
  | char (c : Char)
  deriving DecidableEq, Repr

/-- A pattern must not end inside an escape; none that ends with a percent sign does. -/
def tokens : List Char → List Token
  | [] => []
  | '\\' :: c :: p => .char c :: tokens p
  | c :: p => (if c = '%' then .any else if c = '_' then .one else .char c) :: tokens p

def matchTokens : List Token → List Char → Bool
  | [], t => t.isEmpty
  | .any :: p, t => t.tails.any (matchTokens p)
  | .one :: p, t => t.tail?.any (matchTokens p)
  | .char c :: p, t => (t.head? == some c) && matchTokens p t.tail

/-- `strings` of a column and of a pattern are compared in lower case. Lower case
leaves the percent sign alone and makes no backslash. -/
structure Folding where
  lower : Char → Char
  percent : lower '%' = '%'
  backslash : ∀ c, lower c = '\\' → c = '\\'

def Folding.ilike (F : Folding) (text pattern : List Char) : Bool :=
  matchTokens (tokens (pattern.map F.lower)) (text.map F.lower)

/-- The pattern for a text that is to occur anywhere. -/
def containing (q : List Char) : List Char := '%' :: (q ++ ['%'])

theorem matchTokens_any (p : List Token) (t : List Char) :
    matchTokens (.any :: p) t = true ↔ ∃ s, s <:+ t ∧ matchTokens p s = true := by
  simp [matchTokens]

theorem tokens_cons {c : Char} (hc : c ≠ '\\') (p : List Char) :
    tokens (c :: p) =
      (if c = '%' then .any else if c = '_' then .one else .char c) :: tokens p := by
  rw [tokens]
  intro d ds heq
  exact absurd heq hc

theorem tokens_concat {q : List Char} (hq : '\\' ∉ q) :
    tokens (q ++ ['%']) = tokens q ++ [.any] := by
  induction q with
  | nil => rfl
  | cons c cs ih =>
    obtain ⟨hc, hcs⟩ := not_or.mp (fun h => hq (List.mem_cons.mpr h))
    rw [List.cons_append, tokens_cons (Ne.symm hc), tokens_cons (Ne.symm hc), ih hcs]
    rfl

/-- Read as a pattern, a text without a backslash matches itself. -/
theorem matchTokens_self {q : List Char} (hq : '\\' ∉ q) (t : List Char) :
    matchTokens (tokens q ++ [.any]) (q ++ t) = true := by
  induction q with
  | nil =>
    apply (matchTokens_any [] t).mpr
    exists []
    exact ⟨List.nil_suffix, rfl⟩
  | cons c cs ih =>
    obtain ⟨hc, hcs⟩ := not_or.mp (fun h => hq (List.mem_cons.mpr h))
    have hrest := ih hcs
    rw [tokens_cons (Ne.symm hc), List.cons_append, List.cons_append]
    by_cases hany : c = '%'
    · rw [if_pos hany]
      apply (matchTokens_any _ _).mpr
      exists cs ++ t
      exact ⟨List.suffix_cons c _, hrest⟩
    · rw [if_neg hany]
      by_cases hone : c = '_'
      · rw [if_pos hone]
        exact hrest
      · rw [if_neg hone]
        simp [matchTokens, hrest]

variable (F : Folding)

theorem Folding.lower_backslash {q : List Char} (hq : '\\' ∉ q) : '\\' ∉ q.map F.lower := by
  intro h
  obtain ⟨c, hc, heq⟩ := List.mem_map.mp h
  rw [F.backslash c heq] at hc
  exact hq hc

/-- A text is found by every part of it that has no backslash. -/
theorem Folding.ilike_containing {q text : List Char} (hq : '\\' ∉ q) (hin : q <:+: text) :
    F.ilike text (containing q) = true := by
  obtain ⟨a, b, rfl⟩ := hin
  have hlow := F.lower_backslash hq
  have hpattern : (containing q).map F.lower = '%' :: (q.map F.lower ++ ['%']) := by
    simp [containing, F.percent]
  rw [Folding.ilike, hpattern, tokens_cons (by decide), tokens_concat hlow]
  apply (matchTokens_any _ _).mpr
  exists q.map F.lower ++ b.map F.lower
  constructor
  · exists a.map F.lower
    simp
  · exact matchTokens_self hlow _

end LikePatterns
