import Woodstar.UrlEscape

/-!
# Base64 for URLs

`base64.RawURLEncoding`: sextets of groups of three bytes, no padding. The decoder passes
over line ends and over the bits that a short group leaves.
-/
namespace Base64Url

open UrlEscape (Bytes)

def digit (n : Nat) : UInt8 :=
  UInt8.ofNat
    (if n < 26 then 65 + n else if n < 52 then 71 + n else if n < 62 then n - 4 else if n = 62 then 45 else 95)

def value (c : UInt8) : Option Nat :=
  let n := c.toNat
  if 65 ≤ n ∧ n ≤ 90 then some (n - 65)
  else if 97 ≤ n ∧ n ≤ 122 then some (n - 71)
  else if 48 ≤ n ∧ n ≤ 57 then some (n + 4)
  else if n = 45 then some 62
  else if n = 95 then some 63
  else none

def encode : Bytes → Bytes
  | a :: b :: c :: rest =>
    digit (a.toNat / 4) :: digit (a.toNat % 4 * 16 + b.toNat / 16) :: digit (b.toNat % 16 * 4 + c.toNat / 64) ::
      digit (c.toNat % 64) :: encode rest
  | [a, b] => [digit (a.toNat / 4), digit (a.toNat % 4 * 16 + b.toNat / 16), digit (b.toNat % 16 * 4)]
  | [a] => [digit (a.toNat / 4), digit (a.toNat % 4 * 16)]
  | [] => []

/-- The bytes of sextets. -/
def group : List Nat → Option Bytes
  | w :: x :: y :: z :: rest => (group rest).map (fun bytes =>
      UInt8.ofNat (w * 4 + x / 16) :: UInt8.ofNat (x % 16 * 16 + y / 4) :: UInt8.ofNat (y % 4 * 64 + z) :: bytes)
  | [w, x, y] => some [UInt8.ofNat (w * 4 + x / 16), UInt8.ofNat (x % 16 * 16 + y / 4)]
  | [w, x] => some [UInt8.ofNat (w * 4 + x / 16)]
  | [_] => none
  | [] => some []

def decode (s : Bytes) : Option Bytes := ((s.filter (fun c => c != 10 && c != 13)).mapM value).bind group

theorem value_digit {n : Nat} (h : n < 64) : value (digit n) = some n := by
  have hall : ∀ k : Fin 64, value (digit k.val) = some k.val := by decide
  exact hall ⟨n, h⟩

/-- What holds of the 64 digits holds of every byte of an encoding. -/
theorem forall_mem_encode {P : UInt8 → Prop} (h : ∀ n : Fin 64, P (digit n.val)) (s : Bytes) :
    ∀ c ∈ encode s, P c := by
  have hdigit : ∀ n < 64, P (digit n) := fun n hn => h ⟨n, hn⟩
  induction s using encode.induct with
  | case1 a b c rest ih =>
    have ha := a.toNat_lt
    have hb := b.toNat_lt
    have hc := c.toNat_lt
    intro d hd
    simp only [encode, List.mem_cons] at hd
    obtain rfl | rfl | rfl | rfl | hd := hd
    · exact hdigit _ (by omega)
    · exact hdigit _ (by omega)
    · exact hdigit _ (by omega)
    · exact hdigit _ (by omega)
    · exact ih d hd
  | case2 a b =>
    have ha := a.toNat_lt
    have hb := b.toNat_lt
    intro d hd
    simp only [encode, List.mem_cons, List.not_mem_nil, or_false] at hd
    obtain rfl | rfl | rfl := hd <;> exact hdigit _ (by omega)
  | case3 a =>
    have ha := a.toNat_lt
    intro d hd
    simp only [encode, List.mem_cons, List.not_mem_nil, or_false] at hd
    obtain rfl | rfl := hd <;> exact hdigit _ (by omega)
  | case4 => nofun

/-- The sextets of an encoding. -/
def sextets : Bytes → List Nat
  | a :: b :: c :: rest =>
    a.toNat / 4 :: (a.toNat % 4 * 16 + b.toNat / 16) :: (b.toNat % 16 * 4 + c.toNat / 64) ::
      c.toNat % 64 :: sextets rest
  | [a, b] => [a.toNat / 4, a.toNat % 4 * 16 + b.toNat / 16, b.toNat % 16 * 4]
  | [a] => [a.toNat / 4, a.toNat % 4 * 16]
  | [] => []

theorem mapM_value_encode (s : Bytes) : (encode s).mapM value = some (sextets s) := by
  induction s using encode.induct with
  | case1 a b c rest ih =>
    have ha := a.toNat_lt
    have hb := b.toNat_lt
    have hc := c.toNat_lt
    simp only [encode, sextets, List.mapM_cons, ih]
    rw [value_digit (by omega), value_digit (by omega), value_digit (by omega), value_digit (by omega)]
    rfl
  | case2 a b =>
    have ha := a.toNat_lt
    have hb := b.toNat_lt
    simp only [encode, sextets, List.mapM_cons, List.mapM_nil]
    rw [value_digit (by omega), value_digit (by omega), value_digit (by omega)]
    rfl
  | case3 a =>
    have ha := a.toNat_lt
    simp only [encode, sextets, List.mapM_cons, List.mapM_nil]
    rw [value_digit (by omega), value_digit (by omega)]
    rfl
  | case4 => rfl

theorem ofNat_eq {n : Nat} {a : UInt8} (h : n = a.toNat) : UInt8.ofNat n = a := by
  rw [h, UInt8.ofNat_toNat]

theorem group_sextets (s : Bytes) : group (sextets s) = some s := by
  induction s using sextets.induct with
  | case1 a b c rest ih =>
    have ha := a.toNat_lt
    have hb := b.toNat_lt
    have hc := c.toNat_lt
    simp only [sextets, group, ih, Option.map_some]
    rw [ofNat_eq (a := a) (by omega), ofNat_eq (a := b) (by omega), ofNat_eq (a := c) (by omega)]
  | case2 a b =>
    have ha := a.toNat_lt
    have hb := b.toNat_lt
    simp only [sextets, group]
    rw [ofNat_eq (a := a) (by omega), ofNat_eq (a := b) (by omega)]
  | case3 a =>
    have ha := a.toNat_lt
    simp only [sextets, group]
    rw [ofNat_eq (a := a) (by omega)]
  | case4 => rfl

theorem decode_encode (s : Bytes) : decode (encode s) = some s := by
  have hplain : ∀ c ∈ encode s, (c != 10 && c != 13) = true := forall_mem_encode (by decide) s
  rw [decode, List.filter_eq_self.mpr hplain, mapM_value_encode]
  exact group_sextets s

theorem encode_ne_nil {s : Bytes} (h : s ≠ []) : encode s ≠ [] := by
  intro hnil
  have hback := decode_encode s
  rw [hnil] at hback
  exact h (Option.some.inj hback).symm

end Base64Url
