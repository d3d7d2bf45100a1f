import Mathlib.Data.Rat.Floor
import Mathlib.Tactic.Common

/-!
# Decimal numbers through binary64

A decimal number is parsed to the nearest binary64 number, ties to even, and a binary64
number is printed with the fewest digits that are parsed to it, of those the nearest.
-/
namespace DecimalFloats

def power (base : Nat) : Int → ℚ
  | .ofNat n => (base ^ n : Nat)
  | .negSucc n => mkRat 1 (base ^ (n + 1))

/-- The exponent of the highest bit of a positive number. -/
def floorLog2 (a : ℚ) : Int :=
  let e : Int := a.num.natAbs.log2 - a.den.log2
  if a < power 2 e then e - 1 else e

def roundToEven (a : ℚ) : Int :=
  let rest := 2 * (a - a.floor)
  if rest < 1 ∨ (rest = 1 ∧ a.floor % 2 = 0) then a.floor else a.floor + 1

/-- The binary64 number nearest to a positive number, with no bound on its exponent. -/
def nearest (a : ℚ) : ℚ :=
  let unit := power 2 (max (-1074) (floorLog2 a - 52))
  roundToEven (a / unit) * unit

/-- `strconv.ParseFloat`, an error when the number is out of range. -/
def parse (q : ℚ) : Option ℚ :=
  if q = 0 then some 0
  else
    let a := nearest |q|
    if power 2 1024 ≤ a then none else some (if q < 0 then -a else a)

/-- How many digits a positive number has before the point. -/
def decimalLength (a : ℚ) : Int :=
  let e : Int := (a.num.natAbs.log2 - a.den.log2) * 30103 / 100000
  ([e, e + 1].find? (fun k => a < power 10 k)).getD (e + 2)

/-- The number with so many digits that is parsed to `a`, the nearer one of two. -/
def candidate (a : ℚ) (digits : Nat) : Option ℚ :=
  let unit := power 10 (decimalLength a - digits)
  let down := (a / unit).floor * unit
  let up := ((a / unit).floor + 1) * unit
  if nearest down = a then some (if nearest up = a ∧ up - a < a - down then up else down)
  else if nearest up = a then some up
  else none

/-- `strconv.FormatFloat` of a positive number with the fewest digits. -/
def shortest (a : ℚ) : ℚ :=
  ((List.range 17).findSome? (fun n => candidate a (n + 1))).getD a

/-- A decimal number parsed and printed again. -/
def viaFloat64 (q : ℚ) : Option ℚ :=
  (parse q).map (fun f => if f = 0 then 0 else if f < 0 then -shortest (-f) else shortest f)

/-- From 2^53 on not every integer comes back. -/
example : viaFloat64 9007199254740992 = some 9007199254740992 ∧
    viaFloat64 9007199254740993 = some 9007199254740992 := by
  decide +kernel

end DecimalFloats
