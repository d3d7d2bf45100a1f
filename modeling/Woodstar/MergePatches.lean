import Mathlib.Data.List.Nodup
import Mathlib.Tactic.Common

/-!
# JSON merge patches

A value over any type of scalars, and a patch of it: objects merge field by field, a null
removes a field, and anything else takes the place of what was there.
-/
namespace MergePatches

inductive Value (L : Type) where
  | null
  | scalar (value : L)
  | array (items : List (Value L))
  | object (fields : List (String × Value L))

abbrev Fields (L : Type) := List (String × Value L)

variable {L : Type}

/-- The value of a field. -/
def valueAt (fields : Fields L) (key : String) : Option (Value L) :=
  (fields.find? (fun field => field.1 = key)).map Prod.snd

namespace Fields

def erase (fields : Fields L) (key : String) : Fields L := fields.filter (fun field => field.1 ≠ key)

def put (fields : Fields L) (key : String) (value : Value L) : Fields L := (key, value) :: fields.erase key

variable {fields : Fields L} {key k : String} {value : Value L}

@[simp] theorem valueAt_nil : valueAt ([] : Fields L) k = none := rfl

@[simp] theorem valueAt_cons : valueAt ((key, value) :: fields) k =
    if key = k then some value else valueAt fields k := by
  simp only [valueAt, List.find?_cons]
  by_cases h : key = k <;> simp [h]

theorem valueAt_erase : valueAt (fields.erase key) k = if key = k then none else valueAt fields k := by
  induction fields with
  | nil => simp [erase]
  | cons field fields ih =>
    obtain ⟨name, value⟩ := field
    by_cases hname : name = key
    · have hskip : erase ((name, value) :: fields) key = erase fields key := by simp [erase, hname]
      rw [hskip, ih, valueAt_cons, hname]
      split_ifs <;> rfl
    · have hkeep : erase ((name, value) :: fields) key = (name, value) :: erase fields key := by
        simp [erase, hname]
      rw [hkeep, valueAt_cons, valueAt_cons, ih]
      by_cases hk : name = k
      · rw [if_pos hk, if_pos hk, if_neg]
        rw [← hk]
        exact fun h => hname h.symm
      · rw [if_neg hk, if_neg hk]

theorem valueAt_put : valueAt (fields.put key value) k = if key = k then some value else valueAt fields k := by
  rw [put, valueAt_cons, valueAt_erase]
  split_ifs <;> rfl

def Distinct (fields : Fields L) : Prop := (fields.map Prod.fst).Nodup

instance decidableDistinct (fields : Fields L) : Decidable fields.Distinct :=
  inferInstanceAs (Decidable (fields.map Prod.fst).Nodup)

theorem valueAt_eq_none (h : k ∉ fields.map Prod.fst) : valueAt fields k = none := by
  induction fields with
  | nil => rfl
  | cons field fields ih =>
    rw [List.map_cons, List.mem_cons, not_or] at h
    rw [valueAt_cons, if_neg (fun heq => h.1 heq.symm), ih h.2]

end Fields

/-- The fields of an object; nothing else has any. -/
def Value.fields : Value L → Fields L
  | .object fields => fields
  | _ => []

mutual

/-- The patch `document` of what is there, if anything is. -/
def merge (current : Option (Value L)) : Value L → Value L
  | .object document => .object (mergeFields ((current.map Value.fields).getD []) document)
  | .null => .null
  | .scalar value => .scalar value
  | .array items => .array items

def mergeFields (target : Fields L) : List (String × Value L) → Fields L
  | [] => target
  | (key, .null) :: document => mergeFields (Fields.erase target key) document
  | (key, value) :: document =>
    mergeFields (Fields.put target key (merge (valueAt target key) value)) document

end

/-- What a patch leaves of one field: itself when it is not named, nothing when null is there. -/
def patchedField (current patch : Option (Value L)) : Option (Value L) :=
  match patch with
  | none => current
  | some .null => none
  | some value => some (merge current value)

/-- A patch goes field by field. -/
theorem valueAt_mergeFields {document target : Fields L} (h : document.Distinct) (k : String) :
    valueAt (mergeFields target document) k = patchedField (valueAt target k) (valueAt document k) := by
  induction document generalizing target with
  | nil => rfl
  | cons field document ih =>
    obtain ⟨key, value⟩ := field
    obtain ⟨hnot, hrest⟩ := List.nodup_cons.mp h
    have hskip : key = k → valueAt document k = none := fun heq => Fields.valueAt_eq_none (heq ▸ hnot)
    rw [Fields.valueAt_cons]
    cases value with
    | null =>
      rw [mergeFields, ih hrest, Fields.valueAt_erase]
      split_ifs with hk
      · rw [hskip hk]
        rfl
      · rfl
    | scalar value =>
      rw [mergeFields, ih hrest, Fields.valueAt_put]
      split_ifs with hk
      · rw [hskip hk, hk]
        rfl
      · rfl
      · nofun
    | array items =>
      rw [mergeFields, ih hrest, Fields.valueAt_put]
      split_ifs with hk
      · rw [hskip hk, hk]
        rfl
      · rfl
      · nofun
    | object fields =>
      rw [mergeFields, ih hrest, Fields.valueAt_put]
      split_ifs with hk
      · rw [hskip hk, hk]
        rfl
      · rfl
      · nofun

@[simp] theorem valueAt_append (fields others : Fields L) (k : String) :
    valueAt (fields ++ others) k = (valueAt fields k).or (valueAt others k) := by
  induction fields with
  | nil => rfl
  | cons field fields ih =>
    obtain ⟨key, value⟩ := field
    rw [List.cons_append, Fields.valueAt_cons, Fields.valueAt_cons, ih]
    split_ifs <;> rfl

mutual

/-- No object inside repeats a key. -/
def Value.isDistinct : Value L → Bool
  | .null => true
  | .scalar _ => true
  | .array items => areDistinct items
  | .object fields => decide (Fields.Distinct fields) && valuesDistinct fields

def areDistinct : List (Value L) → Bool
  | [] => true
  | value :: values => value.isDistinct && areDistinct values

def valuesDistinct : List (String × Value L) → Bool
  | [] => true
  | (_, value) :: fields => value.isDistinct && valuesDistinct fields

end

theorem fields_distinct {fields : Fields L} (h : (Value.object fields).isDistinct = true) :
    fields.Distinct := by
  simp only [Value.isDistinct, Bool.and_eq_true, decide_eq_true_eq] at h
  exact h.1

theorem valueAt_distinct {fields : Fields L} (h : valuesDistinct fields = true) {k : String} {value : Value L}
    (hvalue : valueAt fields k = some value) : value.isDistinct = true := by
  induction fields with
  | nil => cases hvalue
  | cons field fields ih =>
    obtain ⟨key, first⟩ := field
    simp only [valuesDistinct, Bool.and_eq_true] at h
    rw [Fields.valueAt_cons] at hvalue
    split_ifs at hvalue
    · obtain rfl := Option.some.inj hvalue
      exact h.1
    · exact ih h.2 hvalue

theorem value_distinct {fields : Fields L} (h : (Value.object fields).isDistinct = true) {k : String}
    {value : Value L} (hvalue : valueAt fields k = some value) : value.isDistinct = true := by
  simp only [Value.isDistinct, Bool.and_eq_true] at h
  exact valueAt_distinct h.2 hvalue

end MergePatches
