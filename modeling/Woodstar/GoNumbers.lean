import Woodstar.GoText

/-!
# Bounded integers in Go

`strconv.ParseInt` of a width with the value that stands beside an error, and the
wrap-around of `int64`.
-/
namespace GoNumbers

open GoText (IsInt64)

inductive Scan where
  | syntaxError
  | outOfRange
  | value (n : Nat)
  deriving DecidableEq, Repr

/-- The digits behind `n`. What follows the first value above `max` is not read. -/
def scanDigits (max : Nat) : List Char → Nat → Scan
  | [], n => .value n
  | c :: cs, n =>
    if c.isDigit = true then
      if max < 10 * n + (c.toNat - '0'.toNat) then .outOfRange
      else scanDigits max cs (10 * n + (c.toNat - '0'.toNat))
    else .syntaxError

def parseUint (bits : Nat) (digits : List Char) : Scan :=
  if digits = [] then .syntaxError else scanDigits (2 ^ bits - 1) digits 0

/-- The value, and whether there is no error. -/
def signed (bits : Nat) (negative : Bool) : Scan → Int × Bool
  | .syntaxError => (0, false)
  | .outOfRange => (if negative = true then -2 ^ (bits - 1) else 2 ^ (bits - 1) - 1, false)
  | .value n =>
    if negative = true then if 2 ^ (bits - 1) < n then (-2 ^ (bits - 1), false) else (-(n : Int), true)
    else if 2 ^ (bits - 1) ≤ n then (2 ^ (bits - 1) - 1, false) else ((n : Int), true)

def parseInt (bits : Nat) : List Char → Int × Bool
  | '-' :: digits => signed bits true (parseUint bits digits)
  | '+' :: digits => signed bits false (parseUint bits digits)
  | digits => signed bits false (parseUint bits digits)

/-- The value is returned beside a range error too. -/
def clamped (bits : Nat) (s : String) : Int := (parseInt bits s.toList).1

def checked (bits : Nat) (s : String) : Option Int :=
  if (parseInt bits s.toList).2 = true then some (parseInt bits s.toList).1 else none

/-- A value of a signed integer of the width. -/
def Fits (bits : Nat) (i : Int) : Prop := -2 ^ (bits - 1) ≤ i ∧ i < 2 ^ (bits - 1)

instance decidableFits (bits : Nat) (i : Int) : Decidable (Fits bits i) :=
  inferInstanceAs (Decidable (-2 ^ (bits - 1) ≤ i ∧ i < 2 ^ (bits - 1)))

theorem fits_signed (bits : Nat) (negative : Bool) (scan : Scan) : Fits bits (signed bits negative scan).1 := by
  have hpos : (0 : Int) < 2 ^ (bits - 1) := Int.pow_pos (by decide)
  have hcast : ((2 ^ (bits - 1) : Nat) : Int) = 2 ^ (bits - 1) := Int.natCast_pow 2 _
  cases scan with
  | syntaxError =>
    constructor
    · exact Int.neg_nonpos_of_nonneg hpos.le
    · exact hpos
  | outOfRange =>
    cases negative with
    | true =>
      simp only [signed, Fits, if_true]
      omega
    | false =>
      simp only [signed, Fits, Bool.false_eq_true, if_false]
      omega
  | value n =>
    cases negative with
    | true =>
      simp only [signed, if_true]
      split
      · simp only [Fits]
        omega
      · simp only [Fits]
        omega
    | false =>
      simp only [signed, Bool.false_eq_true, if_false]
      split
      · simp only [Fits]
        omega
      · simp only [Fits]
        omega

theorem fits_parseInt (bits : Nat) (s : List Char) : Fits bits (parseInt bits s).1 := by
  unfold parseInt
  split
  · exact fits_signed _ _ _
  · exact fits_signed _ _ _
  · exact fits_signed _ _ _

theorem fits_clamped (bits : Nat) (s : String) : Fits bits (clamped bits s) := fits_parseInt bits s.toList

theorem fits_checked {bits : Nat} {s : String} {i : Int} (h : checked bits s = some i) : Fits bits i := by
  rw [checked] at h
  split_ifs at h
  cases h
  exact fits_parseInt bits s.toList

theorem ofDigitChars_lt {digits : List Char} (h : digits.all Char.isDigit = true) (n : Nat) :
    Nat.ofDigitChars 10 digits n < 10 ^ digits.length * (n + 1) := by
  induction digits generalizing n with
  | nil =>
    rw [Nat.ofDigitChars_nil, List.length_nil]
    omega
  | cons c cs ih =>
    rw [List.all_cons, Bool.and_eq_true] at h
    have hdigit : c.toNat - '0'.toNat ≤ 9 := by
      have hle := h.1
      simp only [Char.isDigit, Bool.and_eq_true, decide_eq_true_eq, UInt32.le_iff_toNat_le] at hle
      have hnine : c.toNat ≤ 57 := hle.2
      have hzero : '0'.toNat = 48 := rfl
      omega
    rw [Nat.ofDigitChars_cons, List.length_cons, Nat.pow_succ, Nat.mul_assoc]
    calc Nat.ofDigitChars 10 cs (10 * n + (c.toNat - '0'.toNat))
        < 10 ^ cs.length * (10 * n + (c.toNat - '0'.toNat) + 1) := ih h.2 _
      _ ≤ 10 ^ cs.length * (10 * (n + 1)) := Nat.mul_le_mul_left _ (by omega)

theorem digitsValue_lt {digits : List Char} {n : Nat} (h : GoText.digitsValue digits = some n) :
    n < 10 ^ digits.length := by
  rw [GoText.digitsValue] at h
  split_ifs at h with hall
  cases h
  have hlt := ofDigitChars_lt hall.2 0
  omega

/-- A text has too few digits for a number outside these bounds. -/
theorem parseInt_lt {s : List Char} {i : Int} (h : GoText.parseInt s = some i) :
    -10 ^ s.length < i ∧ i < 10 ^ s.length := by
  have hcast (k : Nat) : ((10 ^ k : Nat) : Int) = 10 ^ k := Int.natCast_pow 10 k
  have hbound {digits : List Char} {n : Nat} (hn : GoText.digitsValue digits = some n)
      (hle : digits.length ≤ s.length) : (n : Int) < 10 ^ s.length := by
    have hlt := digitsValue_lt hn
    have hpow := Nat.pow_le_pow_right (by decide : 0 < 10) hle
    rw [← hcast]
    omega
  have hpos : (0 : Int) < 10 ^ s.length := Int.pow_pos (by decide)
  unfold GoText.parseInt at h
  split at h
  · obtain ⟨n, hn, hi⟩ := Option.bind_eq_some_iff.mp h
    have hlt := hbound hn (by rw [List.length_cons]; omega)
    split_ifs at hi
    cases hi
    omega
  · obtain ⟨n, hn, hi⟩ := Option.bind_eq_some_iff.mp h
    have hlt := hbound hn (by rw [List.length_cons]; omega)
    split_ifs at hi
    cases hi
    omega
  · obtain ⟨n, hn, hi⟩ := Option.bind_eq_some_iff.mp h
    have hlt := hbound hn (Nat.le_refl _)
    split_ifs at hi
    cases hi
    omega

theorem isInt64_parseInt {s : List Char} {i : Int} (h : GoText.parseInt s = some i) : IsInt64 i := by
  unfold GoText.parseInt at h
  rw [IsInt64]
  split at h
  · obtain ⟨n, -, hi⟩ := Option.bind_eq_some_iff.mp h
    split_ifs at hi
    cases hi
    omega
  · obtain ⟨n, -, hi⟩ := Option.bind_eq_some_iff.mp h
    split_ifs at hi
    cases hi
    omega
  · obtain ⟨n, -, hi⟩ := Option.bind_eq_some_iff.mp h
    split_ifs at hi
    cases hi
    omega

def wrap64 (i : Int) : Int := (i + 2 ^ 63) % 2 ^ 64 - 2 ^ 63

theorem wrap64_eq_iff {i : Int} : wrap64 i = i ↔ IsInt64 i := by
  simp only [wrap64, IsInt64]
  omega

theorem wrap64_bounds (i : Int) : IsInt64 (wrap64 i) := by
  simp only [wrap64, IsInt64]
  omega

/-- An offset that is added with wrap-around is taken away again. -/
theorem wrap64_sub_wrap64 {i : Int} (h : IsInt64 i) (k : Int) : wrap64 (wrap64 (i + k) - k) = i := by
  simp only [wrap64, IsInt64] at *
  omega

end GoNumbers
