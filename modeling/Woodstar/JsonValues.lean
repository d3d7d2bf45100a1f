import Woodstar.DecimalFloats

/-!
# JSON values

A value decoded without a type holds its numbers as binary64, so a value that is decoded
and encoded again is the same exactly when each of its numbers is.
-/
namespace JsonValues

inductive Json where
  | null
  | bool (value : Bool)
  | number (value : ℚ)
  | string (value : String)
  | array (items : List Json)
  | object (fields : List (String × Json))
  deriving Repr

/-- Fields by key, as a map. -/
abbrev Fields := String → Option Json

namespace Json

mutual

/-- `json.Unmarshal` into `any` and `json.Marshal` again, an error when a number is out of
range. -/
def viaAny : Json → Option Json
  | .null => some .null
  | .bool value => some (.bool value)
  | .number value => (DecimalFloats.viaFloat64 value).map .number
  | .string value => some (.string value)
  | .array items => (itemsViaAny items).map .array
  | .object fields => (fieldsViaAny fields).map .object

def itemsViaAny : List Json → Option (List Json)
  | [] => some []
  | item :: items => (viaAny item).bind (fun i => (itemsViaAny items).map (fun is => i :: is))

def fieldsViaAny : List (String × Json) → Option (List (String × Json))
  | [] => some []
  | (key, value) :: fields =>
    (viaAny value).bind (fun v => (fieldsViaAny fields).map (fun fs => (key, v) :: fs))

end

mutual

def numbers : Json → List ℚ
  | .null | .bool _ | .string _ => []
  | .number value => [value]
  | .array items => itemsNumbers items
  | .object fields => fieldsNumbers fields

def itemsNumbers : List Json → List ℚ
  | [] => []
  | item :: items => numbers item ++ itemsNumbers items

def fieldsNumbers : List (String × Json) → List ℚ
  | [] => []
  | (_, value) :: fields => numbers value ++ fieldsNumbers fields

end

/-- The number is printed as it was written. -/
def Survives (value : ℚ) : Prop := DecimalFloats.viaFloat64 value = some value

instance (value : ℚ) : Decidable (Survives value) :=
  inferInstanceAs (Decidable (DecimalFloats.viaFloat64 value = some value))

theorem cons_bind_eq_some {α : Type*} {x : Option α} {xs : Option (List α)} {a : α} {as : List α} :
    x.bind (fun b => xs.map (fun bs => b :: bs)) = some (a :: as) ↔ x = some a ∧ xs = some as := by
  cases x with
  | none => simp
  | some b =>
    cases xs with
    | none => simp
    | some bs => simp

mutual

theorem viaAny_eq_self_iff : ∀ {value : Json},
    value.viaAny = some value ↔ ∀ number ∈ value.numbers, Survives number
  | .null => by simp [viaAny, numbers]
  | .bool _ => by simp [viaAny, numbers]
  | .string _ => by simp [viaAny, numbers]
  | .number value => by simp [viaAny, numbers, Survives]
  | .array items => by
    rw [viaAny, numbers, ← @itemsViaAny_eq_self_iff items]
    simp
  | .object fields => by
    rw [viaAny, numbers, ← @fieldsViaAny_eq_self_iff fields]
    simp

theorem itemsViaAny_eq_self_iff : ∀ {items : List Json},
    itemsViaAny items = some items ↔ ∀ number ∈ itemsNumbers items, Survives number
  | [] => by simp [itemsViaAny, itemsNumbers]
  | item :: items => by
    rw [itemsViaAny, itemsNumbers, cons_bind_eq_some, viaAny_eq_self_iff, itemsViaAny_eq_self_iff,
      List.forall_mem_append]

theorem fieldsViaAny_eq_self_iff : ∀ {fields : List (String × Json)},
    fieldsViaAny fields = some fields ↔ ∀ number ∈ fieldsNumbers fields, Survives number
  | [] => by simp [fieldsViaAny, fieldsNumbers]
  | (key, value) :: fields => by
    rw [fieldsViaAny, fieldsNumbers, List.forall_mem_append, ← viaAny_eq_self_iff,
      ← fieldsViaAny_eq_self_iff]
    constructor
    · intro h
      obtain ⟨v, hv, hrest⟩ := Option.bind_eq_some_iff.mp h
      obtain ⟨fs, hfs, heq⟩ := Option.map_eq_some_iff.mp hrest
      obtain ⟨hpair, rfl⟩ := List.cons.inj heq
      obtain ⟨-, rfl⟩ := Prod.mk.inj hpair
      exact ⟨hv, hfs⟩
    · intro ⟨hv, hfs⟩
      simp [hv, hfs]

end

theorem itemsViaAny_forall₂ {items decoded : List Json} (h : itemsViaAny items = some decoded) :
    List.Forall₂ (fun item d => viaAny item = some d) items decoded := by
  induction items generalizing decoded with
  | nil =>
    rw [itemsViaAny, Option.some.injEq] at h
    exact h ▸ List.Forall₂.nil
  | cons item items ih =>
    obtain ⟨d, hd, hrest⟩ := Option.bind_eq_some_iff.mp h
    obtain ⟨ds, hds, rfl⟩ := Option.map_eq_some_iff.mp hrest
    exact List.Forall₂.cons hd (ih hds)

end Json

/-- Field names are matched without regard to case. -/
def foldChar (c : Char) : Char :=
  if c = '\u017f' then 's' else if c = '\u212a' then 'k' else c.toLower

def sameName (key name : String) : Bool := key.toList.map foldChar == name.toList.map foldChar

/-- Fields in the order in which `json.Marshal` writes a map. -/
def sortedFields (fields : List (String × Json)) : List (String × Json) :=
  fields.mergeSort (fun a b => a.1 ≤ b.1)

/-- The text that a structure has under the name after decoding, and whether every value
for it was a text or null. Decoding goes on after a value of another type. -/
def textField (fields : List (String × Json)) (name : String) : String × Bool :=
  (sortedFields fields).foldl (fun (text, ok) (key, value) =>
    if sameName key name = true then
      match value with
      | .string s => (s, ok)
      | .null => (text, ok)
      | _ => (text, false)
    else (text, ok)) ("", true)

end JsonValues
