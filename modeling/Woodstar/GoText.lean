import Mathlib.Data.List.Basic
import Mathlib.Data.List.Infix
import Mathlib.Tactic.Common
import Mathlib.Tactic.Ring

/-!
# Numbers and separators in Go strings

`strconv.FormatInt` and `strconv.ParseInt` in base ten with 64 bits,
`strings.Cut` and `strings.CutPrefix`, on lists of characters.
-/
namespace GoText

def digitsValue (digits : List Char) : Option Nat :=
  if digits ≠ [] ∧ digits.all Char.isDigit = true then some (Nat.ofDigitChars 10 digits 0) else none

def parseInt : List Char → Option Int
  | '-' :: digits =>
    (digitsValue digits).bind (fun n => if n ≤ 2 ^ 63 then some (-(n : Int)) else none)
  | '+' :: digits => (digitsValue digits).bind (fun n => if n < 2 ^ 63 then some (n : Int) else none)
  | digits => (digitsValue digits).bind (fun n => if n < 2 ^ 63 then some (n : Int) else none)

def formatInt : Int → List Char
  | .ofNat n => Nat.toDigits 10 n
  | .negSucc n => '-' :: Nat.toDigits 10 (n + 1)

/-- A value of Go's `int64` and of PostgreSQL's `bigint`. -/
def IsInt64 (i : Int) : Prop := -2 ^ 63 ≤ i ∧ i < 2 ^ 63

theorem digitsValue_toDigits (n : Nat) : digitsValue (Nat.toDigits 10 n) = some n := by
  have hdigits : ∀ c ∈ Nat.toDigits 10 n, c.isDigit = true :=
    fun c hc => Nat.isDigit_of_mem_toDigits (by decide) (by decide) hc
  rw [digitsValue, if_pos ⟨Nat.toDigits_ne_nil, List.all_eq_true.mpr hdigits⟩,
    Nat.ofDigitChars_ten_toDigits]

theorem parseInt_digit {c : Char} (h : c.isDigit = true) (cs : List Char) :
    parseInt (c :: cs) =
      (digitsValue (c :: cs)).bind (fun n => if n < 2 ^ 63 then some (n : Int) else none) := by
  unfold parseInt
  split
  · rename_i heq
    cases heq
    cases h
  · rename_i heq
    cases heq
    cases h
  · rfl

theorem parseInt_toDigits (n : Nat) :
    parseInt (Nat.toDigits 10 n) = if n < 2 ^ 63 then some (n : Int) else none := by
  obtain ⟨c, cs, hcs⟩ := List.exists_cons_of_ne_nil (@Nat.toDigits_ne_nil n 10)
  have hc : c.isDigit = true := by
    apply Nat.isDigit_of_mem_toDigits (b := 10) (n := n) (by decide) (by decide)
    rw [hcs]
    exact List.mem_cons_self
  rw [hcs, parseInt_digit hc, ← hcs, digitsValue_toDigits, Option.bind_some]

/-- What is printed is read back. -/
theorem parseInt_formatInt {i : Int} (h : IsInt64 i) : parseInt (formatInt i) = some i := by
  obtain ⟨hlo, hhi⟩ := h
  cases i with
  | ofNat n =>
    rw [Int.ofNat_eq_natCast] at hhi
    change parseInt (Nat.toDigits 10 n) = some (n : Int)
    rw [parseInt_toDigits, if_pos (by omega)]
  | negSucc n =>
    change (digitsValue (Nat.toDigits 10 (n + 1))).bind _ = _
    rw [digitsValue_toDigits, Option.bind_some, if_pos (by omega)]
    rfl

/-- Text that was printed is read as nothing else. -/
theorem eq_of_parseInt_formatInt {i j : Int} (h : parseInt (formatInt i) = some j) : j = i := by
  cases i with
  | ofNat n =>
    change parseInt (Nat.toDigits 10 n) = some j at h
    rw [parseInt_toDigits] at h
    split_ifs at h
    exact (Option.some.inj h).symm
  | negSucc n =>
    change (digitsValue (Nat.toDigits 10 (n + 1))).bind _ = _ at h
    rw [digitsValue_toDigits, Option.bind_some] at h
    split_ifs at h
    exact (Option.some.inj h).symm

theorem isDigit_of_mem_formatInt {i : Int} (h : 0 ≤ i) {c : Char} (hc : c ∈ formatInt i) :
    c.isDigit = true := by
  cases i with
  | ofNat n => exact Nat.isDigit_of_mem_toDigits (by decide) (by decide) hc
  | negSucc n => omega

/-- The text after the prefix. -/
def cutPrefix (p s : List Char) : Option (List Char) :=
  if p.isPrefixOf s = true then some (s.drop p.length) else none

/-- The text before and after the first separator. -/
def cut (sep : List Char) : List Char → Option (List Char × List Char)
  | [] => if sep = [] then some ([], []) else none
  | c :: cs =>
    if sep.isPrefixOf (c :: cs) = true then some ([], (c :: cs).drop sep.length)
    else (cut sep cs).map (fun parts => (c :: parts.1, parts.2))

theorem cutPrefix_append (p s : List Char) : cutPrefix p (p ++ s) = some s := by
  rw [cutPrefix, if_pos (List.isPrefixOf_iff_prefix.mpr (List.prefix_append p s)), List.drop_left]

/-- Text is cut at the first separator only. -/
theorem cut_append_cons {c : Char} {s : List Char} (h : c ∉ s) (sep t : List Char) :
    cut (c :: sep) (s ++ (c :: sep) ++ t) = some (s, t) := by
  induction s with
  | nil =>
    have hfirst : (c :: sep).isPrefixOf (c :: (sep ++ t)) = true :=
      List.isPrefixOf_iff_prefix.mpr (List.prefix_append (c :: sep) t)
    have hdrop : (c :: (sep ++ t)).drop (c :: sep).length = t := List.drop_left
    rw [List.nil_append, List.cons_append, cut, if_pos hfirst, hdrop]
  | cons d ds ih =>
    have hd : c ≠ d := fun heq => h (heq ▸ List.mem_cons_self)
    have hds : c ∉ ds := fun hmem => h (List.mem_cons_of_mem d hmem)
    have hfirst : (c :: sep).isPrefixOf (d :: (ds ++ (c :: sep) ++ t)) = false := by
      simp [List.isPrefixOf, hd]
    rw [List.cons_append, List.cons_append, cut, if_neg (by rw [hfirst]; exact Bool.false_ne_true),
      ih hds]
    rfl

theorem cut_append {sep : Char} {s : List Char} (h : sep ∉ s) (t : List Char) :
    cut [sep] (s ++ sep :: t) = some (s, t) := by
  have hcut := cut_append_cons h [] t
  rwa [List.append_assoc, List.singleton_append] at hcut

/-- The text before and after the last separator, found by `strings.LastIndexByte`. -/
def cutLast (sep : Char) (s : List Char) : Option (List Char × List Char) :=
  (cut [sep] s.reverse).map (fun parts => (parts.2.reverse, parts.1.reverse))

theorem cutLast_append {sep : Char} {t : List Char} (h : sep ∉ t) (s : List Char) :
    cutLast sep (s ++ sep :: t) = some (s, t) := by
  have hreverse : (s ++ sep :: t).reverse = t.reverse ++ sep :: s.reverse := by simp
  rw [cutLast, hreverse, cut_append (by rwa [List.mem_reverse])]
  simp

/-- A printed number ends where a text without digits begins. -/
theorem eq_of_formatInt_append {i j : Int} {s t : List Char}
    (h : formatInt i ++ '-' :: s = formatInt j ++ '-' :: t) : i = j := by
  have hdash : ∀ n : Nat, '-' ∉ Nat.toDigits 10 n := by
    intro n hmem
    have hdigit := Nat.isDigit_of_mem_toDigits (by decide) (by decide) hmem
    cases hdigit
  have hsame : ∀ {m n : Nat}, Nat.toDigits 10 m ++ '-' :: s = Nat.toDigits 10 n ++ '-' :: t → m = n := by
    intro m n heq
    have hcut := congrArg (cut ['-']) heq
    rw [cut_append (hdash m), cut_append (hdash n)] at hcut
    have hdigits := (Prod.mk.inj (Option.some.inj hcut)).1
    have hvalue := congrArg digitsValue hdigits
    rw [digitsValue_toDigits, digitsValue_toDigits] at hvalue
    exact Option.some.inj hvalue
  have hmixed : ∀ {m n : Nat} {u v : List Char}, Nat.toDigits 10 m ++ u ≠ '-' :: Nat.toDigits 10 n ++ v := by
    intro m n u v heq
    obtain ⟨c, cs, hcs⟩ := List.exists_cons_of_ne_nil (@Nat.toDigits_ne_nil m 10)
    rw [hcs] at heq
    obtain ⟨rfl, -⟩ := List.cons.inj heq
    exact hdash m (hcs ▸ List.mem_cons_self)
  cases i with
  | ofNat m =>
    cases j with
    | ofNat n => rw [hsame h]
    | negSucc n => exact absurd h hmixed
  | negSucc m =>
    cases j with
    | ofNat n => exact absurd h.symm hmixed
    | negSucc n =>
      have hsucc := hsame (List.cons.inj h).2
      rw [Nat.succ.inj hsucc]

/-- The length of the text in bytes. -/
def byteLength (s : List Char) : Nat := (s.map Char.utf8Size).sum

def encodeHex (bytes : List UInt8) : List Char :=
  bytes.flatMap (fun byte => [Nat.digitChar (byte.toNat / 16), Nat.digitChar (byte.toNat % 16)])

def hexValue (c : Char) : Option Nat :=
  if '0' ≤ c ∧ c ≤ '9' then some (c.toNat - 48)
  else if 'a' ≤ c ∧ c ≤ 'f' then some (c.toNat - 87)
  else if 'A' ≤ c ∧ c ≤ 'F' then some (c.toNat - 55)
  else none

def decodeHex : List Char → Option (List UInt8)
  | [] => some []
  | [_] => none
  | hi :: lo :: rest =>
    (hexValue hi).bind (fun h => (hexValue lo).bind (fun l =>
      (decodeHex rest).map (UInt8.ofNat (16 * h + l) :: ·)))

theorem hexValue_digitChar : ∀ n : Fin 16, hexValue (Nat.digitChar n) = some n.val := by decide

theorem utf8Size_digitChar : ∀ n : Fin 16, (Nat.digitChar n).utf8Size = 1 := by decide

theorem digitChar_ne_colon : ∀ n : Fin 16, Nat.digitChar n ≠ ':' := by decide

/-- The characters of printed bytes. -/
theorem mem_encodeHex {bytes : List UInt8} {c : Char} (h : c ∈ encodeHex bytes) :
    ∃ n : Fin 16, c = Nat.digitChar n := by
  obtain ⟨byte, -, hc⟩ := List.mem_flatMap.mp h
  have hbyte := byte.toNat_lt
  rcases List.mem_cons.mp hc with rfl | hc
  · exact ⟨⟨byte.toNat / 16, by omega⟩, rfl⟩
  · exact ⟨⟨byte.toNat % 16, by omega⟩, List.mem_singleton.mp hc⟩

theorem byteLength_encodeHex (bytes : List UInt8) :
    byteLength (encodeHex bytes) = 2 * bytes.length := by
  induction bytes with
  | nil => rfl
  | cons byte rest ih =>
    have hbyte := byte.toNat_lt
    have hhi : (Nat.digitChar (byte.toNat / 16)).utf8Size = 1 :=
      utf8Size_digitChar ⟨byte.toNat / 16, by omega⟩
    have hlo : (Nat.digitChar (byte.toNat % 16)).utf8Size = 1 :=
      utf8Size_digitChar ⟨byte.toNat % 16, by omega⟩
    simp only [byteLength, encodeHex] at ih
    simp only [byteLength, encodeHex, List.flatMap_cons, List.map_append, List.sum_append,
      List.map_cons, List.map_nil, List.sum_cons, List.sum_nil, hhi, hlo, ih, List.length_cons]
    omega

/-- Printed bytes are read back. -/
theorem decodeHex_encodeHex (bytes : List UInt8) : decodeHex (encodeHex bytes) = some bytes := by
  induction bytes with
  | nil => rfl
  | cons byte rest ih =>
    have hbyte := byte.toNat_lt
    have hhi : hexValue (Nat.digitChar (byte.toNat / 16)) = some (byte.toNat / 16) :=
      hexValue_digitChar ⟨byte.toNat / 16, by omega⟩
    have hlo : hexValue (Nat.digitChar (byte.toNat % 16)) = some (byte.toNat % 16) :=
      hexValue_digitChar ⟨byte.toNat % 16, by omega⟩
    have hcons : encodeHex (byte :: rest) =
        Nat.digitChar (byte.toNat / 16) :: Nat.digitChar (byte.toNat % 16) :: encodeHex rest := rfl
    have hvalue : UInt8.ofNat (16 * (byte.toNat / 16) + byte.toNat % 16) = byte := by
      rw [Nat.div_add_mod, UInt8.ofNat_toNat]
    rw [hcons, decodeHex, hhi, hlo, ih, Option.bind_some, Option.bind_some, Option.map_some, hvalue]

end GoText
