import Woodstar.MergePatches

/-!
# Records and their merge patches

A codec writes a value to a field of a JSON object, or leaves the field out, and reads it
back; it says which patches of the field are taken and what they make of the value. A record
is one codec for each of its keys. A patch of a record is one patch for each key it names.
-/
namespace RecordCodecs

open MergePatches

/-- `decode` is given what the field holds, if it is there; `named` is what a patch that is
taken makes of a value. -/
structure Codec (L α : Type) where
  encode : α → Option (Value L)
  decode : Option (Value L) → Option α
  takes : Value L → Bool
  named : Value L → α → α
  decode_encode : ∀ a, decode (encode a) = some a
  decode_named : ∀ c a v, decode c = some a → takes v = true → v.isDistinct = true →
    (decode (some v)).isSome = true → decode (patchedField c (some v)) = some (named v a)
  takes_encode : ∀ a v, encode a = some v → takes v = true
  distinct_encode : ∀ a v, encode a = some v → v.isDistinct = true
  named_decode : ∀ a v, decode (some v) = some a → named v a = a
  named_named : ∀ a v, (decode (some v)).isSome = true → named v (named v a) = named v a

variable {L α M : Type}

/-- A value that is no object. -/
def IsWhole : Value L → Prop
  | .object _ => False
  | _ => True

theorem patchedField_whole {v : Value L} (h : IsWhole v) (hnull : v ≠ .null) (c : Option (Value L)) :
    patchedField c (some v) = some v := by
  cases v with
  | null => exact absurd rfl hnull
  | scalar value => rfl
  | array items => rfl
  | object fields => exact h.elim

/-- A codec of values that are no objects. A null is the absent value, where it is taken. -/
def Codec.whole (encode : α → Option (Value L)) (decode : Option (Value L) → Option α) (takes : Value L → Bool)
    (hdecode : ∀ a, decode (encode a) = some a)
    (hwhole : ∀ v, (decode (some v)).isSome = true → IsWhole v)
    (hnull : takes .null = true → decode none = decode (some .null))
    (htakes : ∀ a v, encode a = some v → takes v = true)
    (hdistinct : ∀ a v, encode a = some v → v.isDistinct = true) : Codec L α where
  encode := encode
  decode := decode
  takes := takes
  named := fun v a => (decode (some v)).getD a
  decode_encode := hdecode
  decode_named := by
    intro c a v _ htaken _ hsome
    obtain ⟨b, hb⟩ := Option.isSome_iff_exists.mp hsome
    rw [hb, Option.getD_some]
    by_cases hv : v = .null
    · subst hv
      exact (hnull htaken).trans hb
    · rw [patchedField_whole (hwhole v hsome) hv]
      exact hb
  takes_encode := htakes
  distinct_encode := hdistinct
  named_decode := by
    intro a v hback
    rw [hback, Option.getD_some]
  named_named := by
    intro a v hsome
    obtain ⟨b, hb⟩ := Option.isSome_iff_exists.mp hsome
    rw [hb, Option.getD_some, Option.getD_some]

/-- A patch of the value takes its place, whatever it was. -/
def Codec.Replaces (c : Codec L α) : Prop :=
  ∀ v a b, (c.decode (some v)).isSome = true → c.named v a = c.named v b

theorem Codec.whole_replaces {encode : α → Option (Value L)} {decode : Option (Value L) → Option α}
    {takes : Value L → Bool} {hdecode : ∀ a, decode (encode a) = some a}
    {hwhole : ∀ v, (decode (some v)).isSome = true → IsWhole v}
    {hnull : takes .null = true → decode none = decode (some .null)}
    {htakes : ∀ a v, encode a = some v → takes v = true}
    {hdistinct : ∀ a v, encode a = some v → v.isDistinct = true} :
    (Codec.whole encode decode takes hdecode hwhole hnull htakes hdistinct).Replaces := by
  intro v a b h
  obtain ⟨c, hc⟩ := Option.isSome_iff_exists.mp h
  change (decode (some v)).getD a = (decode (some v)).getD b
  change decode (some v) = some c at hc
  rw [hc, Option.getD_some, Option.getD_some]

def decodeScalar (zero : α) (decode : L → Option α) : Option L → Option α
  | none => some zero
  | some value => decode value

/-- A codec of scalars: `zero` stands for nothing and for null, which a patch may give where it
is `clearable`. -/
def Codec.scalars (encode : α → Option L) (zero : α) (decode : L → Option α) (clearable : Bool)
    (hdecode : ∀ a, decodeScalar zero decode (encode a) = some a) : Codec L α :=
  Codec.whole (fun a => (encode a).map .scalar)
    (fun
      | none => some zero
      | some .null => some zero
      | some (.scalar value) => decode value
      | some _ => none)
    (fun
      | .null => clearable
      | .scalar _ => true
      | _ => false)
    (by
      intro a
      have h := hdecode a
      cases hencode : encode a with
      | none => rwa [hencode] at h
      | some value => rwa [hencode] at h)
    (by
      intro v h
      cases v with
      | object fields => cases h
      | _ => trivial)
    (fun _ => rfl)
    (by
      intro a v h
      obtain ⟨value, -, rfl⟩ := Option.map_eq_some_iff.mp h
      rfl)
    (by
      intro a v h
      obtain ⟨value, -, rfl⟩ := Option.map_eq_some_iff.mp h
      rfl)

theorem Codec.scalars_replaces {encode : α → Option L} {zero : α} {decode : L → Option α} {clearable : Bool}
    {hdecode : ∀ a, decodeScalar zero decode (encode a) = some a} :
    (Codec.scalars encode zero decode clearable hdecode).Replaces :=
  Codec.whole_replaces

/-- A record is what it holds under each of its keys. -/
structure Record (L M : Type) where
  Key : Type
  keys : List Key
  mem_keys : ∀ k, k ∈ keys
  name : Key → String
  nodup_names : (keys.map name).Nodup
  Kind : Key → Type
  codec : ∀ k, Codec L (Kind k)
  get : M → ∀ k, Kind k
  make : (∀ k, Kind k) → M
  get_make : ∀ f, get (make f) = f
  make_get : ∀ m, make (get m) = m

namespace Record

variable (R : Record L M)

def encodeKeys (m : M) (keys : List R.Key) : Fields L :=
  keys.filterMap (fun k => ((R.codec k).encode (R.get m k)).map (fun v => (R.name k, v)))

def encode (m : M) : Fields L := R.encodeKeys m R.keys

/-- What the fields hold under a key. -/
def decodeAt (fields : Fields L) (k : R.Key) : Option (R.Kind k) :=
  (R.codec k).decode (valueAt fields (R.name k))

def decode (fields : Fields L) : Option M :=
  if h : ∀ k ∈ R.keys, (R.decodeAt fields k).isSome = true then
    some (R.make (fun k => (R.decodeAt fields k).get (h k (R.mem_keys k))))
  else none

/-- The fields are known and take what is there. -/
def takes (fields : Fields L) : Bool :=
  fields.all (fun field => R.keys.any (fun k => decide (R.name k = field.1) && (R.codec k).takes field.2))

def namedAt (fields : Fields L) (m : M) (k : R.Key) : R.Kind k :=
  match valueAt fields (R.name k) with
  | none => R.get m k
  | some v => (R.codec k).named v (R.get m k)

/-- The fields that a patch names, and the others as they are. -/
def named (fields : Fields L) (m : M) : M := R.make (R.namedAt fields m)

variable {R} {m : M} {fields : Fields L}

theorem nodup_keys (R : Record L M) : R.keys.Nodup := R.nodup_names.of_map

theorem name_injective {k k' : R.Key} (h : R.name k = R.name k') : k = k' :=
  List.inj_on_of_nodup_map R.nodup_names (R.mem_keys k) (R.mem_keys k') h

theorem ext {m m' : M} (h : ∀ k, R.get m k = R.get m' k) : m = m' := by
  rw [← R.make_get m, ← R.make_get m', funext h]

theorem get_named (fields : Fields L) (m : M) (k : R.Key) : R.get (R.named fields m) k = R.namedAt fields m k := by
  rw [named, R.get_make]

theorem namedAt_none {k : R.Key} (h : valueAt fields (R.name k) = none) (m : M) :
    R.namedAt fields m k = R.get m k := by
  rw [namedAt, h]

theorem namedAt_some {k : R.Key} {v : Value L} (h : valueAt fields (R.name k) = some v) (m : M) :
    R.namedAt fields m k = (R.codec k).named v (R.get m k) := by
  rw [namedAt, h]

theorem decode_eq_some : R.decode fields = some m ↔ ∀ k, R.decodeAt fields k = some (R.get m k) := by
  unfold decode
  constructor
  · intro h k
    split_ifs at h with hall
    obtain rfl := Option.some.inj h
    rw [R.get_make, Option.some_get]
  · intro h
    have hall : ∀ k ∈ R.keys, (R.decodeAt fields k).isSome = true := fun k _ => Option.isSome_of_eq_some (h k)
    rw [dif_pos hall]
    refine congrArg some (ext (R := R) fun k => ?_)
    rw [R.get_make]
    exact Option.get_of_eq_some _ (h k)

theorem decode_isSome : (R.decode fields).isSome = true ↔ ∀ k, (R.decodeAt fields k).isSome = true := by
  unfold decode
  constructor
  · intro h k
    split_ifs at h with hall
    · exact hall k (R.mem_keys k)
    · cases h
  · intro h
    rw [dif_pos (fun k _ => h k)]
    rfl

theorem encodeKeys_cons (m : M) (key : R.Key) (keys : List R.Key) : R.encodeKeys m (key :: keys) =
    (((R.codec key).encode (R.get m key)).map (fun v => (R.name key, v))).toList ++ R.encodeKeys m keys := by
  cases h : (R.codec key).encode (R.get m key) <;> simp [encodeKeys, h]

theorem valueAt_encodeKeys_of_notMem {keys : List R.Key} {k : R.Key} (h : k ∉ keys) (m : M) :
    valueAt (R.encodeKeys m keys) (R.name k) = none := by
  apply Fields.valueAt_eq_none
  rw [encodeKeys, List.mem_map]
  rintro ⟨field, hfield, hname⟩
  obtain ⟨key, hkey, hvalue⟩ := List.mem_filterMap.mp hfield
  obtain ⟨v, -, rfl⟩ := Option.map_eq_some_iff.mp hvalue
  exact h (name_injective hname ▸ hkey)

theorem valueAt_encodeKeys {keys : List R.Key} (hnodup : keys.Nodup) {k : R.Key} (h : k ∈ keys) (m : M) :
    valueAt (R.encodeKeys m keys) (R.name k) = (R.codec k).encode (R.get m k) := by
  induction keys with
  | nil => exact absurd h List.not_mem_nil
  | cons key keys ih =>
    obtain ⟨hkey, hkeys⟩ := List.nodup_cons.mp hnodup
    rw [encodeKeys_cons, valueAt_append]
    rcases List.mem_cons.mp h with rfl | h
    · rw [valueAt_encodeKeys_of_notMem hkey, Option.or_none]
      cases (R.codec k).encode (R.get m k) <;> simp
    · have hne : R.name key ≠ R.name k := by
        intro heq
        exact hkey (name_injective heq ▸ h)
      rw [ih hkeys h]
      cases (R.codec key).encode (R.get m key) <;> simp [hne]

theorem valueAt_encode (m : M) (k : R.Key) : valueAt (R.encode m) (R.name k) = (R.codec k).encode (R.get m k) :=
  valueAt_encodeKeys R.nodup_keys (R.mem_keys k) m

theorem decode_encode (m : M) : R.decode (R.encode m) = some m := by
  rw [decode_eq_some]
  intro k
  rw [decodeAt, valueAt_encode]
  exact (R.codec k).decode_encode (R.get m k)

theorem mem_encode {field : String × Value L} : field ∈ R.encode m ↔
    ∃ k v, (R.codec k).encode (R.get m k) = some v ∧ (R.name k, v) = field := by
  rw [encode, encodeKeys, List.mem_filterMap]
  constructor
  · intro ⟨k, _, h⟩
    obtain ⟨v, hv, hfield⟩ := Option.map_eq_some_iff.mp h
    exact ⟨k, v, hv, hfield⟩
  · intro ⟨k, v, hv, hfield⟩
    exact ⟨k, R.mem_keys k, by rw [hv, Option.map_some, hfield]⟩

theorem takes_encode (m : M) : R.takes (R.encode m) = true := by
  rw [takes, List.all_eq_true]
  intro field hfield
  obtain ⟨k, v, hv, rfl⟩ := mem_encode.mp hfield
  rw [List.any_eq_true]
  refine ⟨k, R.mem_keys k, ?_⟩
  rw [Bool.and_eq_true, decide_eq_true_eq]
  exact ⟨rfl, (R.codec k).takes_encode _ v hv⟩

theorem valuesDistinct_of_forall {fields : Fields L} (h : ∀ field ∈ fields, field.2.isDistinct = true) :
    valuesDistinct fields = true := by
  induction fields with
  | nil => rfl
  | cons field fields ih =>
    obtain ⟨key, value⟩ := field
    rw [List.forall_mem_cons] at h
    rw [valuesDistinct, h.1, ih h.2]
    rfl

theorem distinct_encode (m : M) : (Value.object (R.encode m)).isDistinct = true := by
  have hkeys : Fields.Distinct (R.encode m) := by
    refine R.nodup_names.sublist ?_
    rw [encode]
    induction R.keys with
    | nil => exact List.Sublist.slnil
    | cons key keys ih =>
      rw [encodeKeys_cons]
      cases (R.codec key).encode (R.get m key) with
      | none => exact ih.cons (R.name key)
      | some v => exact ih.cons_cons (R.name key)
  have hvalues : valuesDistinct (R.encode m) = true := by
    apply valuesDistinct_of_forall
    intro field hfield
    obtain ⟨k, v, hv, rfl⟩ := mem_encode.mp hfield
    exact (R.codec k).distinct_encode _ v hv
  simp only [Value.isDistinct, Bool.and_eq_true, decide_eq_true_eq]
  exact ⟨hkeys, hvalues⟩

/-- A patch that holds what is there already, where it names anything, changes nothing. -/
theorem named_restated {m' : M} (hdecode : R.decode fields = some m')
    (hsame : ∀ k, (valueAt fields (R.name k)).isSome = true → R.get m' k = R.get m k) : R.named fields m = m := by
  apply ext
  intro k
  rw [get_named]
  cases hv : valueAt fields (R.name k) with
  | none => rw [namedAt_none hv]
  | some v =>
    have hfield : (R.codec k).decode (some v) = some (R.get m' k) := by
      rw [← hv]
      exact decode_eq_some.mp hdecode k
    rw [hsame k (by rw [hv]; rfl)] at hfield
    rw [namedAt_some hv]
    exact (R.codec k).named_decode _ v hfield

theorem named_nil (m : M) : R.named [] m = m := by
  apply ext
  intro k
  rw [get_named, namedAt, Fields.valueAt_nil]

/-- A patch that was applied changes nothing more. -/
theorem named_named (m : M) (htyped : (R.decode fields).isSome = true) :
    R.named fields (R.named fields m) = R.named fields m := by
  apply ext
  intro k
  have hsome := decode_isSome.mp htyped k
  simp only [decodeAt] at hsome
  simp only [get_named, namedAt]
  cases hv : valueAt fields (R.name k) with
  | none => rfl
  | some v =>
    rw [hv] at hsome
    exact (R.codec k).named_named (R.get m k) v hsome

theorem takes_at (h : R.takes fields = true) {k : R.Key} {v : Value L} (hv : valueAt fields (R.name k) = some v) :
    (R.codec k).takes v = true := by
  obtain ⟨field, hfind, rfl⟩ := Option.map_eq_some_iff.mp hv
  have hname : field.1 = R.name k := by simpa using List.find?_some hfind
  have hfield := List.all_eq_true.mp h field (List.mem_of_find?_eq_some hfind)
  obtain ⟨k', -, hk'⟩ := List.any_eq_true.mp hfield
  rw [Bool.and_eq_true, decide_eq_true_eq] at hk'
  obtain rfl := name_injective (hk'.1.trans hname)
  exact hk'.2

/-- A patch that is taken goes key by key, into whatever stands for the record. -/
theorem decode_merge {target : Fields L} (htarget : R.decode target = some m) (htakes : R.takes fields = true)
    (hdistinct : (Value.object fields).isDistinct = true) (htyped : (R.decode fields).isSome = true) :
    R.decode (mergeFields target fields) = some (R.named fields m) := by
  rw [decode_eq_some]
  intro k
  rw [decodeAt, valueAt_mergeFields (fields_distinct hdistinct), get_named, namedAt]
  have hcurrent : (R.codec k).decode (valueAt target (R.name k)) = some (R.get m k) := decode_eq_some.mp htarget k
  have hsome := decode_isSome.mp htyped k
  rw [decodeAt] at hsome
  cases hv : valueAt fields (R.name k) with
  | none => exact hcurrent
  | some v =>
    rw [hv] at hsome
    exact (R.codec k).decode_named _ _ v hcurrent (takes_at htakes hv) (value_distinct hdistinct hv) hsome

end Record

/-- A nested record, left out where it is `zero`, which a null or nothing stands for. -/
def Record.nested [DecidableEq M] (R : Record L M) (zero : M) (hzero : R.decode [] = some zero) : Codec L M where
  encode := fun m => if m = zero then none else some (.object (R.encode m))
  decode := fun
    | none => some zero
    | some .null => some zero
    | some (.object fields) => R.decode fields
    | some _ => none
  takes := fun
    | .object fields => R.takes fields
    | _ => false
  named := fun v m => R.named v.fields m
  decode_encode := by
    intro m
    split_ifs with h
    · rw [h]
    · exact R.decode_encode m
  decode_named := by
    intro c m v hc htakes hdistinct htyped
    cases v with
    | null => cases htakes
    | scalar value => cases htakes
    | array items => cases htakes
    | object fields =>
      have htarget : R.decode ((c.map Value.fields).getD []) = some m := by
        cases c with
        | none => exact hzero.trans hc
        | some current =>
          cases current with
          | null => exact hzero.trans hc
          | scalar value => cases hc
          | array items => cases hc
          | object target => exact hc
      change R.decode (mergeFields ((c.map Value.fields).getD []) fields) = _
      exact Record.decode_merge htarget htakes hdistinct htyped
  takes_encode := by
    intro m v hv
    split_ifs at hv
    obtain rfl := Option.some.inj hv
    exact R.takes_encode m
  distinct_encode := by
    intro m v hv
    split_ifs at hv
    obtain rfl := Option.some.inj hv
    exact R.distinct_encode m
  named_decode := by
    intro m v hdecode
    cases v with
    | null => exact R.named_nil m
    | scalar value => cases hdecode
    | array items => cases hdecode
    | object fields => exact Record.named_restated hdecode fun _ _ => rfl
  named_named := by
    intro m v htyped
    cases v with
    | null =>
      change R.named [] (R.named [] m) = R.named [] m
      rw [named_nil, named_nil]
    | scalar value => cases htyped
    | array items => cases htyped
    | object fields => exact R.named_named m htyped

theorem mapM_decode {enc : α → Value L} {dec : Value L → Option α} (h : ∀ a, dec (enc a) = some a) (as : List α) :
    (as.map enc).mapM dec = some as := by
  induction as with
  | nil => rfl
  | cons a as ih =>
    simp only [List.map_cons, List.mapM_cons, h, ih, Option.bind_eq_bind, Option.bind_some, Option.pure_def]

theorem areDistinct_of_forall {items : List (Value L)} (h : ∀ v ∈ items, v.isDistinct = true) :
    areDistinct items = true := by
  induction items with
  | nil => rfl
  | cons item items ih =>
    rw [List.forall_mem_cons] at h
    rw [areDistinct, h.1, ih h.2]
    rfl

/-- How the items of an array are written and read. -/
structure Item (L α : Type) where
  encode : α → Value L
  decode : Value L → Option α
  takes : Value L → Bool
  decode_encode : ∀ a, decode (encode a) = some a
  takes_encode : ∀ a, takes (encode a) = true
  distinct_encode : ∀ a, (encode a).isDistinct = true

/-- A list, which may be left out where it is empty. -/
def Item.list (I : Item L α) (omitted : Bool) : Codec L (List α) :=
  Codec.whole
    (fun as => if (omitted && as.isEmpty) = true then none else some (.array (as.map I.encode)))
    (fun
      | none => some []
      | some .null => some []
      | some (.array items) => items.mapM I.decode
      | some _ => none)
    (fun
      | .array items => items.all I.takes
      | _ => false)
    (by
      intro as
      split_ifs with hempty
      · rw [Bool.and_eq_true, List.isEmpty_iff] at hempty
        rw [hempty.2]
      · exact mapM_decode I.decode_encode as)
    (by
      intro v h
      cases v with
      | null => trivial
      | scalar value => trivial
      | array items => trivial
      | object fields => cases h)
    nofun
    (by
      intro as v hv
      split_ifs at hv
      obtain rfl := Option.some.inj hv
      rw [List.all_eq_true]
      intro item hitem
      obtain ⟨a, -, rfl⟩ := List.mem_map.mp hitem
      exact I.takes_encode a)
    (by
      intro as v hv
      split_ifs at hv
      obtain rfl := Option.some.inj hv
      rw [Value.isDistinct]
      apply areDistinct_of_forall
      intro item hitem
      obtain ⟨a, -, rfl⟩ := List.mem_map.mp hitem
      exact I.distinct_encode a)

theorem Item.list_replaces (I : Item L α) (omitted : Bool) : (I.list omitted).Replaces := Codec.whole_replaces

/-- The items of an array of records are complete. -/
def Record.item (R : Record L M) : Item L M where
  encode := fun m => .object (R.encode m)
  decode := fun
    | .object fields => R.decode fields
    | .null => R.decode []
    | _ => none
  takes := fun
    | .object fields => R.takes fields
    | _ => false
  decode_encode := R.decode_encode
  takes_encode := R.takes_encode
  distinct_encode := R.distinct_encode

end RecordCodecs
