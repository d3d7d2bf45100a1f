import Mathlib.Data.List.TakeWhile
import Mathlib.Data.String.Basic
import Mathlib.Tactic.ByContra

/-!
# Errors and text helpers

The application errors of `internal/fault`, and the text functions of Go and of
PostgreSQL that several stores call.
-/
namespace Primitives

/-- The sentinel errors with the text that follows them. A `database` error is
what PostgreSQL raised, named by the constraint it violates. -/
inductive Fault where
  | notFound
  | alreadyExists
  | conflict (message : String)
  | invalidInput (message : String)
  | database (constraint : String)
  deriving DecidableEq, Repr

/-- A sequence of fallible steps succeeds when each of them does. -/
theorem bind_eq_ok {ε α β : Type} {x : Except ε α} {f : α → Except ε β} {b : β} :
    x >>= f = .ok b ↔ ∃ a, x = .ok a ∧ f a = .ok b := by
  cases x with
  | error e => exact iff_of_false nofun (by rintro ⟨a, h, -⟩; cases h)
  | ok a =>
    constructor
    · exact fun h => ⟨a, rfl, h⟩
    · rintro ⟨a', h, hf⟩
      cases h
      exact hf

/-- A check, with the error of one that fails. -/
def require {ε : Type} (ok : Bool) (e : ε) : Except ε Unit := if ok = true then .ok () else .error e

def check (ok : Bool) (message : String) : Except Fault Unit := require ok (.invalidInput message)

theorem require_ok {ε : Type} {ok : Bool} {e : ε} : require ok e = .ok () ↔ ok = true := by
  unfold require
  split_ifs with h
  · exact iff_of_true rfl h
  · exact iff_of_false nofun h

theorem check_ok {ok : Bool} {message : String} : check ok message = .ok () ↔ ok = true := require_ok

/-- A check with what comes after it. -/
theorem bind_unit_ok {ε α : Type} {x : Except ε Unit} {rest : Unit → Except ε α} {a : α} :
    x >>= rest = .ok a ↔ x = .ok () ∧ rest () = .ok a := by
  rw [bind_eq_ok]
  constructor
  · rintro ⟨⟨⟩, h⟩
    exact h
  · intro h
    exact ⟨(), h⟩

/-- Go's `unicode.IsSpace`. -/
def isSpace (c : Char) : Bool :=
  (9 ≤ c.toNat && c.toNat ≤ 13) || c.toNat == 0x20 || c.toNat == 0x85 || c.toNat == 0xA0 ||
    c.toNat == 0x1680 || (0x2000 ≤ c.toNat && c.toNat ≤ 0x200A) || c.toNat == 0x2028 ||
    c.toNat == 0x2029 || c.toNat == 0x202F || c.toNat == 0x205F || c.toNat == 0x3000

/-- Go's `strings.TrimSpace`. -/
def trimSpace (s : String) : String :=
  String.ofList (((s.toList.dropWhile isSpace).reverse.dropWhile isSpace).reverse)

/-- The `notblank` validation. -/
def notBlank (s : String) : Bool := trimSpace s != ""

/-- PostgreSQL's `NULLIF(btrim(s), '') IS NOT NULL`: btrim strips blanks only. -/
def btrimNotEmpty (s : String) : Bool := s.toList.any (fun c => c != ' ')

/-- A PostgreSQL text value holds no NUL character. -/
def isText (s : String) : Bool := s.toList.all (fun c => c.toNat != 0)

/-- Go's `strings.ToLower` on the ASCII letters, the only ones a digest can hold. -/
def toLower (s : String) : String := String.ofList (s.toList.map Char.toLower)

def isHexDigit (c : Char) : Bool :=
  ('0' ≤ c && c ≤ '9') || ('a' ≤ c && c ≤ 'f') || ('A' ≤ c && c ≤ 'F')

/-- `hex.DecodeString` succeeds. -/
def hexDecodes (s : String) : Bool := s.toList.length % 2 == 0 && s.toList.all isHexDigit

/-- The last `limit` runes of the text. -/
def truncateRunes (s : String) (limit : Nat) : String :=
  if s.toList.length ≤ limit then s else String.ofList (s.toList.drop (s.toList.length - limit))

/-- What Go calls not blank, PostgreSQL finds not empty after btrim. -/
theorem btrimNotEmpty_of_notBlank {s : String} (h : notBlank s = true) :
    btrimNotEmpty s = true := by
  by_contra hb
  have hall : ∀ c ∈ s.toList, isSpace c = true := by
    intro c hc
    have hblank : c = ' ' := by
      by_contra hne
      exact hb (List.any_eq_true.mpr ⟨c, hc, by simpa using hne⟩)
    subst hblank
    decide
  have hd : s.toList.dropWhile isSpace = [] := List.dropWhile_eq_nil_iff.mpr hall
  simp [notBlank, trimSpace, hd] at h

end Primitives
