import Mathlib.Order.Defs.LinearOrder
import Mathlib.Order.Lattice
import Mathlib.Tactic.Common

/-!
# A register that keeps the latest

A write replaces what is stored unless that is of a later time. Whatever the order of the
writes, and however often they are repeated, the one of the greatest time is left.
-/
namespace LatestWins

variable {α τ : Type} [LinearOrder τ] {time : α → τ} {stored : Option α} {a : α} {as : List α}

def write (time : α → τ) (stored : Option α) (a : α) : Option α :=
  match stored with
  | none => some a
  | some b => if time b ≤ time a then some a else some b

def writeAll (time : α → τ) (stored : Option α) (as : List α) : Option α := as.foldl (write time) stored

/-- No time is lost: what is stored after a write is the one or the other. -/
theorem write_le {bound : τ} (ha : time a ≤ bound) (hstored : ∀ b, stored = some b → time b ≤ bound) {b : α}
    (h : write time stored a = some b) : time b ≤ bound := by
  cases stored with
  | none =>
    obtain rfl := Option.some.inj h
    exact ha
  | some c =>
    simp only [write] at h
    by_cases hle : time c ≤ time a
    · rw [if_pos hle] at h
      exact Option.some.inj h ▸ ha
    · rw [if_neg hle] at h
      exact hstored b h

theorem write_latest (hstored : ∀ b, stored = some b → time b ≤ time a) : write time stored a = some a := by
  cases stored with
  | none => rfl
  | some b => exact if_pos (hstored b rfl)

theorem writeAll_stays (h : ∀ b ∈ as, time b < time a) : writeAll time (some a) as = some a := by
  induction as with
  | nil => rfl
  | cons b bs ih =>
    have hkept : write time (some a) b = some a := if_neg (not_le.mpr (h b List.mem_cons_self))
    rw [writeAll, List.foldl_cons, hkept]
    exact ih (fun c hc => h c (List.mem_cons_of_mem b hc))

/-- The latest of all writes is left. -/
theorem writeAll_latest (ha : a ∈ as) (hle : ∀ b ∈ as, time b ≤ time a) (hone : ∀ b ∈ as, time b = time a → b = a)
    (hstored : ∀ b, stored = some b → time b ≤ time a) : writeAll time stored as = some a := by
  induction as generalizing stored with
  | nil => cases ha
  | cons b bs ih =>
    rw [writeAll, List.foldl_cons]
    by_cases hin : a ∈ bs
    · apply ih hin (fun c hc => hle c (List.mem_cons_of_mem b hc))
        (fun c hc => hone c (List.mem_cons_of_mem b hc))
      intro c hc
      exact write_le (hle b List.mem_cons_self) hstored hc
    · obtain rfl : a = b := (List.mem_cons.mp ha).resolve_right hin
      rw [write_latest hstored]
      apply writeAll_stays
      intro c hc
      apply lt_of_le_of_ne (hle c (List.mem_cons_of_mem a hc))
      intro heq
      exact hin (hone c (List.mem_cons_of_mem a hc) heq ▸ hc)

end LatestWins
