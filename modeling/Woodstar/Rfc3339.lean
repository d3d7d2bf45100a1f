import Mathlib.Data.List.DropRight
import Woodstar.CivilTimes

/-!
# RFC 3339 texts

How `time.Time` is written to JSON in UTC and read back: `2006-01-02T15:04:05.999999999Z07:00` with
the fraction as short as it goes. Instants are nanoseconds from the Unix epoch.
-/
namespace Rfc3339

open CivilTimes

/-- A number in digits of a fixed width. -/
def digits : Nat → Nat → List Char
  | 0, _ => []
  | width + 1, n => digits width (n / 10) ++ [Nat.digitChar (n % 10)]

def fraction (nanosecond : Nat) : List Char :=
  if nanosecond = 0 then [] else '.' :: (digits 9 nanosecond).rdropWhile (· == '0')

/-- `AppendFormat` of a UTC time. -/
def format (instant : Int) : List Char :=
  let date := civilDay (instant / 1000000000 / 86400)
  let second := instant / 1000000000 % 86400
  digits 4 date.year.toNat ++ '-' :: (digits 2 date.month.toNat ++ '-' :: (digits 2 date.day.toNat ++
    'T' :: (digits 2 (second / 3600).toNat ++ ':' :: (digits 2 (second / 60 % 60).toNat ++
    ':' :: (digits 2 (second % 60).toNat ++ (fraction (instant % 1000000000).toNat ++ ['Z']))))))

def number (width : Nat) (text : List Char) : Option (Int × List Char) :=
  if (text.take width).length = width ∧ (text.take width).all Char.isDigit = true then
    some ((Nat.ofDigitChars 10 (text.take width) 0 : Nat), text.drop width)
  else none

def skip (c : Char) : List Char → Option (List Char)
  | [] => none
  | d :: text => if d = c then some text else none

/-- `parseNanoseconds` of the digits behind a point, or nothing. -/
def readFraction : List Char → Int × List Char
  | [] => (0, [])
  | c :: text =>
    let read := text.takeWhile Char.isDigit
    if c = '.' ∧ read ≠ [] then
      ((Nat.ofDigitChars 10 ((read ++ List.replicate 9 '0').take 9) 0 : Nat), text.drop read.length)
    else (0, c :: text)

/-- The seconds east of UTC that end a text. -/
def readZone : List Char → Option Int
  | ['Z'] => some 0
  | sign :: text => do
    let (hour, text) ← number 2 text
    let text ← skip ':' text
    let (minute, text) ← number 2 text
    if text = [] ∧ hour ≤ 23 ∧ minute ≤ 59 then
      if sign = '+' then some ((hour * 60 + minute) * 60)
      else if sign = '-' then some (-((hour * 60 + minute) * 60))
      else none
    else none
  | [] => none

/-- `parseRFC3339` -/
def parse (text : List Char) : Option Int := do
  let (year, text) ← number 4 text
  let text ← skip '-' text
  let (month, text) ← number 2 text
  let text ← skip '-' text
  let (day, text) ← number 2 text
  let text ← skip 'T' text
  let (hour, text) ← number 2 text
  let text ← skip ':' text
  let (minute, text) ← number 2 text
  let text ← skip ':' text
  let (second, text) ← number 2 text
  let (nanosecond, text) := readFraction text
  let zone ← readZone text
  if (1 ≤ month ∧ month ≤ 12) ∧ (1 ≤ day ∧ day ≤ daysIn month year) ∧ hour ≤ 23 ∧ minute ≤ 59 ∧ second ≤ 59 then
    some ((unixDay year month day * 86400 + hour * 3600 + minute * 60 + second - zone) * 1000000000 + nanosecond)
  else none

example : parse "2026-02-28T23:59:60Z".toList = none := by decide +kernel

theorem length_digits (width n : Nat) : (digits width n).length = width := by
  induction width generalizing n with
  | zero => rfl
  | succ width ih => rw [digits, List.length_append, ih, List.length_singleton]

theorem isDigit_digitChar : ∀ d < 10, (Nat.digitChar d).isDigit = true := by decide

theorem isDigit_of_mem_digits {width n : Nat} {c : Char} (h : c ∈ digits width n) : c.isDigit = true := by
  induction width generalizing n with
  | zero => cases h
  | succ width ih =>
    cases List.mem_append.mp h with
    | inl hrest => exact ih hrest
    | inr hlast =>
      rw [List.mem_singleton.mp hlast]
      exact isDigit_digitChar (n % 10) (Nat.mod_lt n (by decide))

theorem ofDigitChars_digits {width n : Nat} (h : n < 10 ^ width) : Nat.ofDigitChars 10 (digits width n) 0 = n := by
  induction width generalizing n with
  | zero =>
    rw [Nat.pow_zero, Nat.lt_one_iff] at h
    rw [h]
    rfl
  | succ width ih =>
    rw [digits, Nat.ofDigitChars_append, ih (by rw [Nat.pow_succ] at h; omega),
      Nat.ofDigitChars_cons_digitChar_of_lt_ten (Nat.mod_lt n (by decide)), Nat.ofDigitChars_nil]
    omega

/-- A number that fits its width is read back. -/
theorem number_digits {width n : Nat} (h : n < 10 ^ width) (text : List Char) :
    number width (digits width n ++ text) = some ((n : Int), text) := by
  have htake : (digits width n ++ text).take width = digits width n := List.take_left' (length_digits width n)
  have hdrop : (digits width n ++ text).drop width = text := List.drop_left' (length_digits width n)
  have hall : (digits width n).all Char.isDigit = true :=
    List.all_eq_true.mpr fun c hc => isDigit_of_mem_digits hc
  rw [number, htake, hdrop, if_pos ⟨length_digits width n, hall⟩, ofDigitChars_digits h]

theorem number_toNat {width : Nat} {i : Int} (hlow : 0 ≤ i) (hhigh : i < 10 ^ width) (text : List Char) :
    number width (digits width i.toNat ++ text) = some (i, text) := by
  have hlt : i.toNat < 10 ^ width := by
    rw [Int.toNat_lt hlow]
    exact_mod_cast hhigh
  rw [number_digits hlt, Int.toNat_of_nonneg hlow]

@[simp] theorem skip_cons (c : Char) (text : List Char) : skip c (c :: text) = some text := if_pos rfl

/-- The zeros that are dropped are put back. -/
theorem take_rdropWhile (text : List Char) {n : Nat} (h : text.length ≤ n) :
    (text.rdropWhile (· == '0') ++ List.replicate n '0').take text.length = text := by
  have hzeros : text.rtakeWhile (· == '0') = List.replicate (text.rtakeWhile (· == '0')).length '0' := by
    apply List.eq_replicate_of_mem
    intro c hc
    simpa using List.mem_rtakeWhile_imp hc
  have hparts := List.rdropWhile_append_rtakeWhile (p := (· == '0')) (l := text)
  have hlength := congrArg List.length hparts
  rw [List.length_append] at hlength
  rw [List.take_append, List.take_of_length_le (by omega), List.take_replicate,
    show min (text.length - (text.rdropWhile (· == '0')).length) n = (text.rtakeWhile (· == '0')).length by omega,
    ← hzeros, hparts]

theorem readFraction_fraction {nanosecond : Nat} (h : nanosecond < 10 ^ 9) (text : List Char) :
    readFraction (fraction nanosecond ++ 'Z' :: text) = ((nanosecond : Int), 'Z' :: text) := by
  rw [fraction]
  split_ifs with hzero
  · rw [hzero]
    rfl
  · have hdigit : ∀ c ∈ (digits 9 nanosecond).rdropWhile (· == '0'), c.isDigit = true :=
      fun c hc => isDigit_of_mem_digits (List.IsPrefix.subset (List.rdropWhile_prefix _ _) hc)
    have hread : ((digits 9 nanosecond).rdropWhile (· == '0') ++ 'Z' :: text).takeWhile Char.isDigit =
        (digits 9 nanosecond).rdropWhile (· == '0') := by
      rw [List.takeWhile_append_of_pos hdigit, List.takeWhile_cons_of_neg (by decide), List.append_nil]
    have hsome : (digits 9 nanosecond).rdropWhile (· == '0') ≠ [] := by
      intro hnil
      have hdigits := take_rdropWhile (digits 9 nanosecond) (n := 9) (by rw [length_digits])
      rw [hnil, List.nil_append, length_digits] at hdigits
      have hvalue := ofDigitChars_digits h
      rw [← hdigits] at hvalue
      exact hzero hvalue.symm
    have hback := take_rdropWhile (digits 9 nanosecond) (n := 9) (by rw [length_digits])
    rw [length_digits] at hback
    rw [List.cons_append, readFraction, hread, if_pos ⟨rfl, hsome⟩, hback, ofDigitChars_digits h, List.drop_left]

/-- A year of four digits is read back. -/
theorem parse_format {instant : Int} (hlow : -62167219200000000000 ≤ instant)
    (hhigh : instant < 253402300800000000000) : parse (format instant) = some instant := by
  obtain ⟨hmonth, hday, hunix⟩ := civilDay_spec (instant / 1000000000 / 86400)
  have hyear := @civilDay_year (instant / 1000000000 / 86400) (by omega) (by omega)
  have hdays := daysIn_le (civilDay (instant / 1000000000 / 86400)).month (civilDay (instant / 1000000000 / 86400)).year
  have hfraction := @readFraction_fraction (instant % 1000000000).toNat (by omega) []
  simp only [parse, format]
  generalize civilDay (instant / 1000000000 / 86400) = date at *
  rw [number_toNat hyear.1 (by omega)]
  simp only [Option.bind_eq_bind, Option.bind_some, skip_cons]
  rw [number_toNat (by omega) (by omega)]
  simp only [Option.bind_some, skip_cons]
  rw [number_toNat (by omega) (by omega)]
  simp only [Option.bind_some, skip_cons]
  rw [number_toNat (by omega) (by omega)]
  simp only [Option.bind_some, skip_cons]
  rw [number_toNat (by omega) (by omega)]
  simp only [Option.bind_some, skip_cons]
  rw [number_toNat (by omega) (by omega)]
  simp only [Option.bind_some, hfraction, readZone, hunix]
  rw [if_pos (by omega), Option.some.injEq]
  omega

end Rfc3339
