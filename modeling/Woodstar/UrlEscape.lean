import Mathlib.Data.List.Basic
import Mathlib.Tactic.Common

/-!
# Escapes in URLs

The percent escapes of `net/url`, byte by byte, and what comes back when they are undone.
-/
namespace UrlEscape

/-- A Go string. -/
abbrev Bytes := List UInt8

/-- The bytes of a text of ASCII characters. -/
def ascii (text : String) : Bytes := text.toList.map Char.toUInt8

inductive Encoding where
  | path | pathSegment | host | userPassword | queryComponent | fragment
  deriving DecidableEq, Repr

def isLetter (c : UInt8) : Bool :=
  decide (97 ≤ c.toNat ∧ c.toNat ≤ 122) || decide (65 ≤ c.toNat ∧ c.toNat ≤ 90)

def isDigit (c : UInt8) : Bool := decide (48 ≤ c.toNat ∧ c.toNat ≤ 57)

/-- The marks that stand in a host as they are: `!$&'()*+,;=:[]<>"`. -/
def hostMarks : List Nat := [33, 36, 38, 39, 40, 41, 42, 43, 44, 59, 61, 58, 91, 93, 60, 62, 34]

/-- `-_.~` -/
def unreserved : List Nat := [45, 95, 46, 126]

/-- `$&+,/:;=?@` -/
def reserved : List Nat := [36, 38, 43, 44, 47, 58, 59, 61, 63, 64]

def shouldEscape (c : UInt8) (mode : Encoding) : Bool :=
  if isLetter c || isDigit c then false
  else if mode = .host ∧ c.toNat ∈ hostMarks then false
  else if c.toNat ∈ unreserved then false
  else if c.toNat ∈ reserved then
    match mode with
    | .path => decide (c.toNat = 63)
    | .pathSegment => decide (c.toNat ∈ [47, 59, 44, 63])
    | .userPassword => decide (c.toNat ∈ [64, 47, 63, 58])
    | .queryComponent => true
    | .fragment => false
    | .host => true
  else if mode = .fragment ∧ c.toNat ∈ [33, 40, 41, 42] then false
  else true

example : hostMarks = (ascii "!$&'()*+,;=:[]<>\"").map UInt8.toNat ∧ unreserved = (ascii "-_.~").map UInt8.toNat ∧
    reserved = (ascii "$&+,/:;=?@").map UInt8.toNat := by
  decide

def upperhex (n : UInt8) : UInt8 := if n < 10 then 48 + n else 55 + n

def unhex (c : UInt8) : Option UInt8 :=
  if isDigit c then some (c - 48)
  else if 97 ≤ c.toNat ∧ c.toNat ≤ 102 then some (c - 87)
  else if 65 ≤ c.toNat ∧ c.toNat ≤ 70 then some (c - 55)
  else none

def escapeByte (mode : Encoding) (c : UInt8) : Bytes :=
  if shouldEscape c mode = true then
    if c = 32 ∧ mode = .queryComponent then [43] else [37, upperhex (c >>> 4), upperhex (c &&& 15)]
  else [c]

def escape (mode : Encoding) (s : Bytes) : Bytes := s.flatMap (escapeByte mode)

def unescape (mode : Encoding) : Bytes → Option Bytes
  | [] => some []
  | c :: rest =>
    if c = 37 then
      match rest with
      | a :: b :: rest =>
        match unhex a, unhex b with
        | some x, some y => (unescape mode rest).map ((x <<< 4 ||| y) :: ·)
        | _, _ => none
      | _ => none
    else if c = 43 ∧ mode = .queryComponent then (unescape mode rest).map (32 :: ·)
    else (unescape mode rest).map (c :: ·)

/-- What holds of the 256 bytes one by one holds of every byte. -/
theorem forall_byte {P : UInt8 → Prop} (h : ∀ n : Fin 256, P (UInt8.ofNat n.val)) (c : UInt8) : P c := by
  have hc := h ⟨c.toNat, c.toNat_lt⟩
  rwa [UInt8.ofNat_toNat] at hc

theorem forall_byte_mem {f : UInt8 → Bytes} {P : UInt8 → Prop} [DecidablePred P]
    (h : ∀ n : Fin 256, (f (UInt8.ofNat n.val)).all (fun b => decide (P b)) = true) : ∀ c, ∀ b ∈ f c, P b :=
  forall_byte (fun n b hb => of_decide_eq_true (List.all_eq_true.mp (h n) b hb))

theorem forall_mem_of_all {s : Bytes} {P : UInt8 → Prop} [DecidablePred P]
    (h : s.all (fun b => decide (P b)) = true) : ∀ b ∈ s, P b :=
  fun b hb => of_decide_eq_true (List.all_eq_true.mp h b hb)

theorem halves : ∀ c : UInt8, unhex (upperhex (c >>> 4)) = some (c >>> 4) ∧
    unhex (upperhex (c &&& 15)) = some (c &&& 15) ∧ (c >>> 4) <<< 4 ||| (c &&& 15) = c :=
  forall_byte (by decide +kernel)

theorem unhex_high (c : UInt8) : unhex (upperhex (c >>> 4)) = some (c >>> 4) := (halves c).1

theorem unhex_low (c : UInt8) : unhex (upperhex (c &&& 15)) = some (c &&& 15) := (halves c).2.1

theorem high_or_low (c : UInt8) : (c >>> 4) <<< 4 ||| (c &&& 15) = c := (halves c).2.2

theorem shouldEscape_percent (mode : Encoding) : shouldEscape 37 mode = true := by
  cases mode <;> decide

theorem shouldEscape_plus : shouldEscape 43 .queryComponent = true := by decide

theorem unescape_cons {mode : Encoding} {c : UInt8} (hpercent : c ≠ 37) (hplus : ¬ (c = 43 ∧ mode = .queryComponent))
    (rest : Bytes) : unescape mode (c :: rest) = (unescape mode rest).map (c :: ·) := by
  rw [unescape.eq_def]
  simp only [if_neg hpercent, if_neg hplus]

theorem unescape_plus (rest : Bytes) :
    unescape .queryComponent (43 :: rest) = (unescape .queryComponent rest).map (32 :: ·) := by
  rw [unescape.eq_def]
  rfl

/-- An escaped byte comes back in front of whatever follows, unless only one of the two
ways is that of a query. -/
theorem unescape_escapeByte {mode mode' : Encoding} (hmode : mode = .queryComponent ↔ mode' = .queryComponent)
    (c : UInt8) (rest : Bytes) :
    unescape mode' (escapeByte mode c ++ rest) = (unescape mode' rest).map (c :: ·) := by
  unfold escapeByte
  by_cases hescape : shouldEscape c mode = true
  · rw [if_pos hescape]
    by_cases hspace : c = 32 ∧ mode = .queryComponent
    · rw [if_pos hspace, hspace.1, hmode.mp hspace.2]
      exact unescape_plus rest
    · rw [if_neg hspace]
      simp [unescape, unhex_high, unhex_low, high_or_low]
  · rw [if_neg hescape]
    have hpercent : c ≠ 37 := fun heq => hescape (heq ▸ shouldEscape_percent mode)
    have hplus : ¬ (c = 43 ∧ mode' = .queryComponent) := by
      intro heq
      apply hescape
      rw [heq.1, hmode.mpr heq.2]
      exact shouldEscape_plus
    exact unescape_cons hpercent hplus rest

theorem unescape_escape_append {mode mode' : Encoding} (hmode : mode = .queryComponent ↔ mode' = .queryComponent)
    (s rest : Bytes) : unescape mode' (escape mode s ++ rest) = (unescape mode' rest).map (s ++ ·) := by
  induction s with
  | nil => simp [escape]
  | cons c cs ih =>
    have hsplit : escape mode (c :: cs) ++ rest = escapeByte mode c ++ (escape mode cs ++ rest) := by
      simp [escape]
    rw [hsplit, unescape_escapeByte hmode, ih]
    cases unescape mode' rest <;> rfl

theorem unescape_escape (mode : Encoding) (s : Bytes) : unescape mode (escape mode s) = some s := by
  have h := unescape_escape_append (Iff.refl (mode = .queryComponent)) s []
  simpa [unescape] using h

/-- Only the empty text is escaped as no text. -/
theorem unescape_nil {mode : Encoding} {s : Bytes} (h : unescape mode s = some []) : s = [] := by
  cases s with
  | nil => rfl
  | cons c rest =>
    unfold unescape at h
    split at h
    · split at h
      · split at h
        · simp at h
        · cases h
      · cases h
    · split at h <;> simp at h

theorem escape_ne_nil {mode : Encoding} {s : Bytes} (h : s ≠ []) : escape mode s ≠ [] := by
  intro hnil
  have hback := unescape_escape mode s
  rw [hnil] at hback
  exact h (Option.some.inj hback).symm

/-- Each segment of a path escaped. -/
def escapePath (value : Bytes) : Bytes :=
  ([47] : Bytes).intercalate ((value.splitOn 47).map (escape .pathSegment))

def escapePathByte (c : UInt8) : Bytes := if c = 47 then [47] else escapeByte .pathSegment c

theorem intercalate_modifyHead {sep : Bytes} {f : Bytes → Bytes} {pre : Bytes}
    (hf : ∀ s, f s = pre ++ s) {parts : List Bytes} (hne : parts ≠ []) :
    sep.intercalate (parts.modifyHead f) = pre ++ sep.intercalate parts := by
  cases parts with
  | nil => exact absurd rfl hne
  | cons p ps =>
    cases ps with
    | nil => simp [hf]
    | cons q qs => simp [List.intercalate, List.intersperse, hf]

/-- Byte by byte, the separators stay. -/
theorem escapePath_eq (value : Bytes) : escapePath value = value.flatMap escapePathByte := by
  induction value with
  | nil => rfl
  | cons c cs ih =>
    have hne : (cs.splitOn 47).map (escape .pathSegment) ≠ [] := by
      simp
    rw [List.flatMap_cons, ← ih, escapePath, List.splitOn, List.splitOnP_cons_eq_if_modifyHead, ← List.splitOn]
    by_cases hc : c = 47
    · obtain ⟨p, ps, hps⟩ := List.exists_cons_of_ne_nil hne
      subst hc
      simp only [beq_self_eq_true, if_true, List.map_cons, escapePath, hps, escapePathByte]
      simp [escape, List.intercalate, List.intersperse]
    · have hbeq : (c == 47) = false := by simpa using hc
      rw [hbeq, if_neg (by simp), escapePathByte, if_neg hc, escapePath]
      have hmap : ((cs.splitOn 47).modifyHead (List.cons c)).map (escape .pathSegment) =
          ((cs.splitOn 47).map (escape .pathSegment)).modifyHead (escapeByte .pathSegment c ++ ·) := by
        cases cs.splitOn 47 with
        | nil => rfl
        | cons p ps => simp [escape]
      rw [hmap, intercalate_modifyHead (fun _ => rfl) hne]

theorem unescape_escapePathByte {mode : Encoding} (hmode : mode ≠ .queryComponent) (c : UInt8) (rest : Bytes) :
    unescape mode (escapePathByte c ++ rest) = (unescape mode rest).map (c :: ·) := by
  unfold escapePathByte
  by_cases hc : c = 47
  · rw [if_pos hc, hc]
    exact unescape_cons (by decide) (by simp) rest
  · rw [if_neg hc]
    exact unescape_escapeByte (iff_of_false (by decide) hmode) c rest

/-- A path comes back whole. -/
theorem unescape_escapePath {mode : Encoding} (hmode : mode ≠ .queryComponent) (value : Bytes) :
    unescape mode (escapePath value) = some value := by
  rw [escapePath_eq]
  induction value with
  | nil => rfl
  | cons c cs ih => rw [List.flatMap_cons, unescape_escapePathByte hmode, ih, Option.map_some]

theorem mem_escapePath {P : UInt8 → Prop} (h : ∀ c, ∀ b ∈ escapePathByte c, P b) {value : Bytes} {b : UInt8}
    (hb : b ∈ escapePath value) : P b := by
  rw [escapePath_eq] at hb
  obtain ⟨c, -, hc⟩ := List.mem_flatMap.mp hb
  exact h c b hc

theorem mem_escape {P : UInt8 → Prop} {mode : Encoding} (h : ∀ c, ∀ b ∈ escapeByte mode c, P b) {s : Bytes}
    {b : UInt8} (hb : b ∈ escape mode s) : P b := by
  obtain ⟨c, -, hc⟩ := List.mem_flatMap.mp hb
  exact h c b hc

end UrlEscape
