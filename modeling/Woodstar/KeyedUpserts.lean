import Woodstar.KeyedRows
import Woodstar.Primitives

/-!
# Upserts by a key

`INSERT ... ON CONFLICT (key) DO UPDATE` into a numbered table, row after row. A row that
finds its key updates the row there and draws a number all the same, as the default of the
number is computed first. With distinct keys every row of the table meets at most one entry.
-/
namespace KeyedUpserts

open KeyedRows (Table)
open Primitives (bind_eq_ok)

variable {α β κ ι ε : Type} [DecidableEq κ]

/-- A number is drawn and no row takes it. -/
def draw (t : Table α) : Table α where
  row := t.row
  used := t.used + 1
  numbered := by
    intro id h
    have := t.numbered id h
    omega

/-- `DELETE` of the rows that are not kept. -/
def keep (kept : α → Bool) (t : Table α) : Table α where
  row id := (t.row id).filter kept
  used := t.used
  numbered := by
    intro id h
    obtain ⟨a, ha⟩ := Option.isSome_iff_exists.mp h
    exact t.numbered id (by rw [(Option.filter_eq_some_iff.mp ha).1]; rfl)

/-- The key of a row, if it has one, that of an entry, and what an entry makes of no row and
of the row under its key. -/
structure Upsert (α β κ : Type) where
  key : α → Option κ
  slot : β → κ
  make : β → α
  merge : β → α → α
  key_make : ∀ b, key (make b) = some (slot b)
  key_merge : ∀ b a, key a = some (slot b) → key (merge b a) = some (slot b)

/-- The row under the key. -/
def find (key : α → Option κ) (t : Table α) (k : κ) : Option Int :=
  t.ids.find? (fun id => decide ((t.row id).bind key = some k))

/-- The key is unique. -/
def Distinct (key : α → Option κ) (t : Table α) : Prop :=
  ∀ id id' a a' k, t.row id = some a → t.row id' = some a' → key a = some k → key a' = some k → id = id'

/-- The key is unique, by looking at all rows. -/
def isDistinct (key : α → Option κ) (t : Table α) : Bool :=
  decide (t.ids.filterMap (fun id => (t.row id).bind key)).Nodup

variable (u : Upsert α β κ)

def put (t : Table α) (b : β) : Table α :=
  match find u.key t (u.slot b) with
  | some id => draw (t.modify id (u.merge b))
  | none => t.insert (u.make b)

def putAll (t : Table α) (bs : List β) : Table α := bs.foldl (put u) t

/-- With further constraints, which the table is checked for after every entry. -/
def putAllChecked (check : Table α → Except ε Unit) (t : Table α) (bs : List β) : Except ε (Table α) :=
  bs.foldlM (fun t b => (check (put u t b)).map (fun _ => put u t b)) t

variable {u} {key : α → Option κ} {t t' : Table α} {id id' : Int} {a a' : α} {b : β} {bs : List β} {k : κ}

theorem find_spec (h : find key t k = some id) : ∃ a, t.row id = some a ∧ key a = some k := by
  have hbind := List.find?_some h
  exact Option.bind_eq_some_iff.mp (of_decide_eq_true hbind)

theorem find_eq_none : find key t k = none ↔ ∀ id a, t.row id = some a → key a ≠ some k := by
  rw [find, List.find?_eq_none]
  constructor
  · intro h id a ha hkey
    refine h id (KeyedRows.Table.mem_ids.mpr (by rw [ha]; rfl)) ?_
    simp [ha, hkey]
  · intro h id _ hbind
    obtain ⟨a, ha, hkey⟩ := Option.bind_eq_some_iff.mp (of_decide_eq_true hbind)
    exact h id a ha hkey

theorem find_of_key (hdistinct : Distinct key t) (ha : t.row id = some a) (hkey : key a = some k) :
    find key t k = some id := by
  cases hfind : find key t k with
  | none => exact absurd hkey (find_eq_none.mp hfind id a ha)
  | some found =>
    obtain ⟨a', ha', hkey'⟩ := find_spec hfind
    rw [hdistinct found id a' a k ha' ha hkey' hkey]

theorem isDistinct_iff : isDistinct key t = true ↔ Distinct key t := by
  rw [isDistinct, decide_eq_true_eq, List.Nodup, List.pairwise_filterMap]
  constructor
  · intro h id id' a a' k ha ha' hkey hkey'
    by_contra hne
    have : Std.Symm (fun id id' : Int => ∀ b, (t.row id).bind key = some b →
        ∀ b', (t.row id').bind key = some b' → b ≠ b') := by
      constructor
      intro i i' hi b hb b' hb'
      exact (hi b' hb' b hb).symm
    have hid : id ∈ t.ids := KeyedRows.Table.mem_ids.mpr (by rw [ha]; rfl)
    have hid' : id' ∈ t.ids := KeyedRows.Table.mem_ids.mpr (by rw [ha']; rfl)
    exact h.forall hid hid' hne k (by rw [ha]; exact hkey) k (by rw [ha']; exact hkey') rfl
  · intro h
    refine t.ids_nodup.imp ?_
    intro id id' hne k hk k' hk' heq
    obtain ⟨a, ha, hkey⟩ := Option.bind_eq_some_iff.mp hk
    obtain ⟨a', ha', hkey'⟩ := Option.bind_eq_some_iff.mp hk'
    exact hne (h id id' a a' k ha ha' hkey (heq ▸ hkey'))

/-- A row stays, merged with the entry if the key is its own. -/
theorem put_old (hdistinct : Distinct u.key t) (ha : t.row id = some a) :
    (put u t b).row id = some (if u.key a = some (u.slot b) then u.merge b a else a) := by
  rw [put]
  cases hfind : find u.key t (u.slot b) with
  | none =>
    have hne : id ≠ t.next := by
      have := t.numbered id (by rw [ha]; rfl)
      simp only [KeyedRows.Table.next]
      omega
    rw [if_neg (find_eq_none.mp hfind id a ha)]
    simp only [KeyedRows.Table.row_insert, if_neg hne, ha]
  | some found =>
    obtain ⟨a', ha', hkey'⟩ := find_spec hfind
    change (t.modify found (u.merge b)).row id = _
    rw [KeyedRows.Table.row_modify]
    by_cases hid : id = found
    · subst hid
      obtain rfl := Option.some.inj (ha.symm.trans ha')
      rw [if_pos rfl, if_pos hkey', ha]
      rfl
    · have hother : u.key a ≠ some (u.slot b) := fun hkey =>
        hid (hdistinct id found a a' _ ha ha' hkey hkey')
      rw [if_neg hid, if_neg hother, ha]

/-- A new row is made of the entry, whose key no row had. -/
theorem put_new (h : (put u t b).row id = some a') (hnone : t.row id = none) :
    a' = u.make b ∧ find u.key t (u.slot b) = none := by
  rw [put] at h
  cases hfind : find u.key t (u.slot b) with
  | none =>
    simp only [hfind, KeyedRows.Table.row_insert] at h
    split_ifs at h with hid
    · exact ⟨(Option.some.inj h).symm, rfl⟩
    · rw [hnone] at h
      cases h
  | some found =>
    rw [hfind] at h
    change (t.modify found (u.merge b)).row id = _ at h
    rw [KeyedRows.Table.row_modify, hnone] at h
    simp at h

theorem put_has (hdistinct : Distinct u.key t) :
    ∃ id a, (put u t b).row id = some a ∧ u.key a = some (u.slot b) := by
  cases hfind : find u.key t (u.slot b) with
  | none =>
    refine ⟨t.next, u.make b, ?_, u.key_make b⟩
    simp only [put, hfind, KeyedRows.Table.row_insert, if_pos]
  | some found =>
    obtain ⟨a, ha, hkey⟩ := find_spec hfind
    refine ⟨found, u.merge b a, ?_, u.key_merge b a hkey⟩
    rw [put_old hdistinct ha, if_pos hkey]

/-- The key of a row stays. -/
theorem put_key (hdistinct : Distinct u.key t) (ha : t.row id = some a) (ha' : (put u t b).row id = some a') :
    u.key a' = u.key a := by
  rw [put_old hdistinct ha, Option.some.injEq] at ha'
  rw [← ha']
  split_ifs with hkey
  · rw [u.key_merge b a hkey, hkey]
  · rfl

theorem distinct_put (hdistinct : Distinct u.key t) : Distinct u.key (put u t b) := by
  intro id id' a a' k ha ha' hkey hkey'
  cases hrow : t.row id with
  | some c =>
    rw [put_key hdistinct hrow ha] at hkey
    cases hrow' : t.row id' with
    | some c' =>
      rw [put_key hdistinct hrow' ha'] at hkey'
      exact hdistinct id id' c c' k hrow hrow' hkey hkey'
    | none =>
      obtain ⟨rfl, hfind⟩ := put_new ha' hrow'
      rw [u.key_make, Option.some.injEq] at hkey'
      exact absurd (hkey'.symm ▸ hkey) (find_eq_none.mp hfind id c hrow)
  | none =>
    obtain ⟨rfl, hfind⟩ := put_new ha hrow
    rw [u.key_make, Option.some.injEq] at hkey
    cases hrow' : t.row id' with
    | some c' =>
      rw [put_key hdistinct hrow' ha'] at hkey'
      exact absurd (hkey.symm ▸ hkey') (find_eq_none.mp hfind id' c' hrow')
    | none =>
      have hnext (i : Int) (c : α) (hc : (put u t b).row i = some c) (hn : t.row i = none) : i = t.next := by
        rw [put, hfind] at hc
        simp only [KeyedRows.Table.row_insert] at hc
        split_ifs at hc with hi
        · exact hi
        · rw [hn] at hc
          cases hc
      rw [hnext id _ ha hrow, hnext id' _ ha' hrow']

theorem distinct_putAll (hdistinct : Distinct u.key t) (bs : List β) : Distinct u.key (putAll u t bs) := by
  induction bs generalizing t with
  | nil => exact hdistinct
  | cons b bs ih => exact ih (distinct_put hdistinct)

/-- A row stays, merged with the entry of its key if there is one. -/
theorem putAll_old (hdistinct : Distinct u.key t) (hslots : (bs.map u.slot).Nodup) (ha : t.row id = some a) :
    (putAll u t bs).row id =
      some (((bs.find? (fun b => decide (u.key a = some (u.slot b)))).map (fun b => u.merge b a)).getD a) := by
  induction bs generalizing t a with
  | nil => exact ha
  | cons b bs ih =>
    rw [List.map_cons, List.nodup_cons] at hslots
    have hput := put_old (b := b) hdistinct ha
    change (putAll u (put u t b) bs).row id = _
    rw [ih (distinct_put hdistinct) hslots.2 hput, List.find?_cons]
    by_cases hkey : u.key a = some (u.slot b)
    · -- the entries that follow have other keys
      have hnone : bs.find? (fun b' => decide (u.key (u.merge b a) = some (u.slot b'))) = none := by
        rw [List.find?_eq_none]
        intro b' hb' heq
        have hslot := of_decide_eq_true heq
        rw [u.key_merge b a hkey, Option.some.injEq] at hslot
        exact hslots.1 (hslot ▸ List.mem_map_of_mem hb')
      simp [hkey, hnone]
    · simp [hkey]

theorem putAll_key (bs : List β) (hdistinct : Distinct u.key t) (ha : t.row id = some a) :
    ∃ a', (putAll u t bs).row id = some a' ∧ u.key a' = u.key a := by
  induction bs generalizing t a with
  | nil => exact ⟨a, ha, rfl⟩
  | cons b bs ih =>
    have hput := put_old (b := b) hdistinct ha
    obtain ⟨a', ha', hkey⟩ := ih (distinct_put hdistinct) hput
    exact ⟨a', ha', hkey.trans (put_key hdistinct ha hput)⟩

theorem find_put_none (hdistinct : Distinct u.key t) (h : find u.key (put u t b) k = none) :
    find u.key t k = none := by
  rw [find_eq_none] at h ⊢
  intro id a ha hkey
  have hput := put_old (b := b) hdistinct ha
  exact h id _ hput ((put_key hdistinct ha hput).trans hkey)

/-- A new row is made of an entry whose key no row had. -/
theorem putAll_new (hdistinct : Distinct u.key t) (hslots : (bs.map u.slot).Nodup)
    (ha' : (putAll u t bs).row id = some a') (hnone : t.row id = none) :
    ∃ b ∈ bs, a' = u.make b ∧ find u.key t (u.slot b) = none := by
  induction bs generalizing t with
  | nil =>
    change t.row id = some a' at ha'
    rw [hnone] at ha'
    cases ha'
  | cons b bs ih =>
    rw [List.map_cons, List.nodup_cons] at hslots
    change (putAll u (put u t b) bs).row id = some a' at ha'
    cases hrow : (put u t b).row id with
    | none =>
      obtain ⟨b', hb', heq, hfind⟩ := ih (distinct_put hdistinct) hslots.2 ha' hrow
      exact ⟨b', List.mem_cons_of_mem b hb', heq, find_put_none hdistinct hfind⟩
    | some c =>
      obtain ⟨rfl, hfind⟩ := put_new hrow hnone
      have hother : bs.find? (fun b' => decide (u.key (u.make b) = some (u.slot b'))) = none := by
        rw [List.find?_eq_none]
        intro b' hb' heq
        have hslot := of_decide_eq_true heq
        rw [u.key_make, Option.some.injEq] at hslot
        exact hslots.1 (hslot ▸ List.mem_map_of_mem hb')
      rw [putAll_old (distinct_put hdistinct) hslots.2 hrow, hother] at ha'
      exact ⟨b, List.mem_cons_self, (Option.some.inj ha').symm, hfind⟩

theorem putAll_has (hdistinct : Distinct u.key t) (hb : b ∈ bs) :
    ∃ id a, (putAll u t bs).row id = some a ∧ u.key a = some (u.slot b) := by
  induction bs generalizing t with
  | nil => cases hb
  | cons c bs ih =>
    change ∃ id a, (putAll u (put u t c) bs).row id = some a ∧ _
    rcases List.mem_cons.mp hb with rfl | hmem
    · obtain ⟨id, a, ha, hkey⟩ := put_has (b := b) hdistinct
      obtain ⟨a', ha', hkey'⟩ := putAll_key bs (distinct_put hdistinct) ha
      exact ⟨id, a', ha', hkey'.trans hkey⟩
    · exact ih (distinct_put hdistinct) hmem

/-- A row under the key of an entry was written by that entry. -/
theorem putAll_written (hdistinct : Distinct u.key t) (hslots : (bs.map u.slot).Nodup)
    (ha : (putAll u t bs).row id = some a) (hb : b ∈ bs) (hslot : u.key a = some (u.slot b)) :
    (∃ c, t.row id = some c ∧ a = u.merge b c) ∨ (t.row id = none ∧ a = u.make b) := by
  cases hrow : t.row id with
  | some c =>
    obtain ⟨a₁, ha₁, hkey₁⟩ := putAll_key bs hdistinct hrow
    obtain rfl := Option.some.inj (ha.symm.trans ha₁)
    have hsome : (bs.find? (fun b => decide (u.key c = some (u.slot b)))).isSome = true := by
      rw [List.find?_isSome]
      exact ⟨b, hb, decide_eq_true (hkey₁.symm.trans hslot)⟩
    obtain ⟨d, hd⟩ := Option.isSome_iff_exists.mp hsome
    have hd' : u.key c = some (u.slot d) := by simpa using List.find?_some hd
    have heq : u.slot d = u.slot b := Option.some.inj (hd'.symm.trans (hkey₁.symm.trans hslot))
    rw [putAll_old hdistinct hslots hrow, hd] at ha
    rw [List.inj_on_of_nodup_map hslots (List.mem_of_find?_eq_some hd) hb heq] at ha
    exact Or.inl ⟨c, rfl, (Option.some.inj ha).symm⟩
  | none =>
    obtain ⟨d, hd, rfl, -⟩ := putAll_new hdistinct hslots ha hrow
    rw [u.key_make, Option.some.injEq] at hslot
    rw [List.inj_on_of_nodup_map hslots hd hb hslot]
    exact Or.inr ⟨rfl, rfl⟩

/-- The run goes through exactly when every table on the way passes. -/
theorem putAllChecked_eq_ok {check : Table α → Except ε Unit} :
    putAllChecked u check t bs = .ok t' ↔
      t' = putAll u t bs ∧ ∀ n < bs.length, check (putAll u t (bs.take (n + 1))) = .ok () := by
  induction bs generalizing t with
  | nil =>
    constructor
    · exact fun h => ⟨(Except.ok.inj h).symm, fun _ hn => absurd hn (Nat.not_lt_zero _)⟩
    · exact fun h => congrArg Except.ok h.1.symm
  | cons b bs ih =>
    change (check (put u t b)).map (fun _ => put u t b) >>=
      (fun t => putAllChecked u check t bs) = .ok t' ↔ _
    cases hcheck : check (put u t b) with
    | error e =>
      constructor
      · intro h
        cases h
      · intro ⟨_, hall⟩
        have hfirst := hall 0 (by simp)
        change check (put u t b) = .ok () at hfirst
        rw [hcheck] at hfirst
        cases hfirst
    | ok passed =>
      change putAllChecked u check (put u t b) bs = .ok t' ↔ _
      rw [ih]
      constructor
      · intro ⟨heq, hall⟩
        refine ⟨heq, ?_⟩
        intro n hn
        cases n with
        | zero => exact hcheck
        | succ n => exact hall n (by simpa using hn)
      · intro ⟨heq, hall⟩
        refine ⟨heq, ?_⟩
        intro n hn
        exact hall (n + 1) (by simpa using hn)

def under (key : α → Option κ) (t : Table α) (k : κ) : Option α := (find key t k).bind t.row

/-- What an entry writes over the row under its key, if there is one. -/
def written (u : Upsert α β κ) (row : Option α) (b : β) : α := (row.map (u.merge b)).getD (u.make b)

theorem under_eq_some (hdistinct : Distinct key t) :
    under key t k = some a ↔ ∃ id, t.row id = some a ∧ key a = some k := by
  constructor
  · intro h
    obtain ⟨id, hfind, hrow⟩ := Option.bind_eq_some_iff.mp h
    obtain ⟨a', ha', hkey⟩ := find_spec hfind
    obtain rfl := Option.some.inj (hrow.symm.trans ha')
    exact ⟨id, hrow, hkey⟩
  · rintro ⟨id, hrow, hkey⟩
    rw [under, find_of_key hdistinct hrow hkey]
    exact hrow

theorem under_eq_none : under key t k = none ↔ find key t k = none := by
  rw [under, Option.bind_eq_none_iff]
  constructor
  · intro h
    by_contra hne
    obtain ⟨id, hfind⟩ := Option.ne_none_iff_exists'.mp hne
    obtain ⟨a, ha, -⟩ := find_spec hfind
    exact Option.some_ne_none a (ha.symm.trans (h id hfind))
  · intro h id hfind
    exact absurd (hfind.symm.trans h) (Option.some_ne_none id)

theorem under_put (hdistinct : Distinct u.key t) (b : β) (k : κ) : under u.key (put u t b) k =
    if k = u.slot b then some (written u (under u.key t k) b) else under u.key t k := by
  have hafter := distinct_put (b := b) hdistinct
  cases hunder : under u.key t k with
  | some a =>
    obtain ⟨id, hrow, hkey⟩ := (under_eq_some hdistinct).mp hunder
    have hput := put_old (b := b) hdistinct hrow
    apply Eq.trans ((under_eq_some hafter).mpr ⟨id, hput, (put_key hdistinct hrow hput).trans hkey⟩)
    by_cases hk : k = u.slot b
    · subst hk
      rw [if_pos hkey, if_pos rfl]
      rfl
    · have hother : u.key a ≠ some (u.slot b) := fun heq => hk (Option.some.inj (hkey.symm.trans heq))
      rw [if_neg hother, if_neg hk]
  | none =>
    have hnone := find_eq_none.mp (under_eq_none.mp hunder)
    by_cases hk : k = u.slot b
    · subst hk
      obtain ⟨id, a, hrow, hkey⟩ := put_has (b := b) hdistinct
      rw [if_pos rfl, (under_eq_some hafter).mpr ⟨id, hrow, hkey⟩]
      cases hold : t.row id with
      | some c => exact absurd ((put_key hdistinct hold hrow).symm.trans hkey) (hnone id c hold)
      | none => rw [(put_new hrow hold).1]; rfl
    · rw [if_neg hk, under_eq_none, find_eq_none]
      intro id a hrow hkey
      cases hold : t.row id with
      | some c => exact hnone id c hold ((put_key hdistinct hold hrow).symm.trans hkey)
      | none =>
        rw [(put_new hrow hold).1, u.key_make, Option.some.injEq] at hkey
        exact hk hkey.symm

/-- A row is written by the entry of its key, if there is one. -/
theorem under_putAll (hdistinct : Distinct u.key t) (hslots : (bs.map u.slot).Nodup) (k : κ) :
    under u.key (putAll u t bs) k =
      ((bs.find? (fun b => decide (u.slot b = k))).map (written u (under u.key t k))).or (under u.key t k) := by
  induction bs generalizing t with
  | nil => rfl
  | cons b bs ih =>
    rw [List.map_cons, List.nodup_cons] at hslots
    change under u.key (putAll u (put u t b) bs) k = _
    rw [ih (distinct_put hdistinct) hslots.2, under_put hdistinct, List.find?_cons]
    by_cases hk : u.slot b = k
    · subst hk
      have hnone : bs.find? (fun b' => decide (u.slot b' = u.slot b)) = none := by
        rw [List.find?_eq_none]
        intro b' hb' heq
        exact hslots.1 (of_decide_eq_true heq ▸ List.mem_map_of_mem hb')
      simp [hnone]
    · simp [hk, Ne.symm hk]

/-- A row keeps its number. -/
theorem find_putAll (hdistinct : Distinct u.key t) (bs : List β) (h : find u.key t k = some id) :
    find u.key (putAll u t bs) k = some id := by
  obtain ⟨a, ha, hkey⟩ := find_spec h
  obtain ⟨a', ha', hkey'⟩ := putAll_key bs hdistinct ha
  exact find_of_key (distinct_putAll hdistinct bs) ha' (hkey'.trans hkey)

/-- The rows have the same identities under the same numbers. -/
structure Alike (identity : α → ι) (t t' : Table α) : Prop where
  used : t.used = t'.used
  rows : ∀ id, (t.row id).map identity = (t'.row id).map identity

section

variable {identity : α → ι}

theorem Alike.isSome (h : Alike identity t t') (id : Int) : (t.row id).isSome = (t'.row id).isSome := by
  have hmap := congrArg Option.isSome (h.rows id)
  rwa [Option.isSome_map, Option.isSome_map] at hmap

theorem Alike.row (h : Alike identity t t') (ha : t.row id = some a) :
    ∃ a', t'.row id = some a' ∧ identity a' = identity a := by
  have hmap := h.rows id
  rw [ha, Option.map_some, eq_comm, Option.map_eq_some_iff] at hmap
  exact hmap

theorem Alike.row_none (h : Alike identity t t') (hnone : t.row id = none) : t'.row id = none := by
  rw [← Option.not_isSome_iff_eq_none, ← h.isSome, hnone]
  exact Bool.false_ne_true

theorem Alike.ids_eq (h : Alike identity t t') : t.ids = t'.ids := by
  simp only [KeyedRows.Table.ids, h.used, h.isSome]

theorem find_alike (hkey : ∀ a a', identity a = identity a' → key a = key a') (h : Alike identity t t') :
    find key t k = find key t' k := by
  have hbind (id : Int) : (t.row id).bind key = (t'.row id).bind key := by
    cases ha : t.row id with
    | none => rw [h.row_none ha]
    | some a =>
      obtain ⟨a', ha', heq⟩ := h.row ha
      rw [ha', Option.bind_some, Option.bind_some, hkey a' a heq]
  simp only [find, h.ids_eq, hbind]

theorem put_alike (hkey : ∀ a a', identity a = identity a' → u.key a = u.key a')
    (hmerge : ∀ b a a', identity a = identity a' → u.merge b a = u.merge b a') (h : Alike identity t t') :
    Alike identity (put u t b) (put u t' b) := by
  simp only [put, find_alike hkey h]
  cases find u.key t' (u.slot b) with
  | none =>
    refine ⟨congrArg (· + 1) h.used, ?_⟩
    intro id
    have hnext : t.next = t'.next := by rw [KeyedRows.Table.next, KeyedRows.Table.next, h.used]
    simp only [KeyedRows.Table.row_insert, hnext]
    split_ifs
    · rfl
    · exact h.rows id
  | some found =>
    refine ⟨congrArg (· + 1) h.used, ?_⟩
    intro id
    change ((t.modify found (u.merge b)).row id).map identity = ((t'.modify found (u.merge b)).row id).map identity
    simp only [KeyedRows.Table.row_modify]
    split_ifs
    · cases ha : t.row id with
      | none => rw [h.row_none ha]
      | some a =>
        obtain ⟨a', ha', heq⟩ := h.row ha
        rw [ha', Option.map_some, Option.map_some, Option.map_some, Option.map_some, hmerge b a' a heq]
    · exact h.rows id

theorem putAll_alike (bs : List β) (hkey : ∀ a a', identity a = identity a' → u.key a = u.key a')
    (hmerge : ∀ b a a', identity a = identity a' → u.merge b a = u.merge b a') (h : Alike identity t t') :
    Alike identity (putAll u t bs) (putAll u t' bs) := by
  induction bs generalizing t t' with
  | nil => exact h
  | cons b bs ih => exact ih (put_alike hkey hmerge h)

/-- What an upsert writes depends on the identities alone. -/
theorem putAll_eq_of_alike (hkey : ∀ a a', identity a = identity a' → u.key a = u.key a')
    (hmerge : ∀ b a a', identity a = identity a' → u.merge b a = u.merge b a') (h : Alike identity t t')
    (hdistinct : Distinct u.key t) (hdistinct' : Distinct u.key t') (hslots : (bs.map u.slot).Nodup)
    (ha : (putAll u t bs).row id = some a) (ha' : (putAll u t' bs).row id = some a') (hb : b ∈ bs)
    (hslot : u.key a = some (u.slot b)) : a = a' := by
  obtain ⟨a₁, ha₁, heq⟩ := (putAll_alike bs hkey hmerge h).row ha
  obtain rfl := Option.some.inj (ha'.symm.trans ha₁)
  have hslot' : u.key a' = some (u.slot b) := (hkey a' a heq).trans hslot
  rcases putAll_written hdistinct hslots ha hb hslot with ⟨c, hc, rfl⟩ | ⟨hnone, rfl⟩
  · rcases putAll_written hdistinct' hslots ha' hb hslot' with ⟨c', hc', rfl⟩ | ⟨hnone', -⟩
    · obtain ⟨c₁, hc₁, hident⟩ := h.row hc
      obtain rfl := Option.some.inj (hc'.symm.trans hc₁)
      exact (hmerge b c' c hident).symm
    · obtain ⟨c₁, hc₁, -⟩ := h.row hc
      rw [hnone'] at hc₁
      cases hc₁
  · rcases putAll_written hdistinct' hslots ha' hb hslot' with ⟨c', hc', rfl⟩ | ⟨-, rfl⟩
    · rw [h.row_none hnone] at hc'
      cases hc'
    · rfl

end

end KeyedUpserts
