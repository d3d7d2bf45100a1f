import Woodstar.KeyedUpserts
import Mathlib.Data.Finset.Card
import Mathlib.Data.Finset.Image

/-!
# Relations between keyed tables

Rows are named by their keys in place of their numbers: what a relation between numbered
rows says of the keys, and how updates and upserts of the tables leave the names.
-/
namespace KeyedRelations

open KeyedRows (Table)
open KeyedUpserts

variable {α β κ ι : Type}

/-- The number of the row under a key. -/
def idOf [DecidableEq κ] (key : α → Option κ) (t : Table α) (k : κ) : Int := (find key t k).getD 0

/-- The key of the row under a number. -/
def keyOf [Inhabited κ] (key : α → Option κ) (t : Table α) (id : Int) : κ := ((t.row id).bind key).getD default

section

variable {key : α → Option κ} {t t' : Table α}

theorem bind_alike (h : Alike key t t') (id : Int) : (t.row id).bind key = (t'.row id).bind key := by
  cases ha : t.row id with
  | none => rw [h.row_none ha]
  | some a =>
    obtain ⟨a', ha', heq⟩ := h.row ha
    rw [ha', Option.bind_some, Option.bind_some, heq]

theorem distinct_alike (h : Alike key t t') (hdistinct : Distinct key t') : Distinct key t := by
  intro id id' a a' k ha ha' hkey hkey'
  obtain ⟨c, hc, hcsame⟩ := h.row ha
  obtain ⟨c', hc', hcsame'⟩ := h.row ha'
  exact hdistinct id id' c c' k hc hc' (hcsame.trans hkey) (hcsame'.trans hkey')

theorem keyOf_alike [Inhabited κ] (h : Alike key t t') : keyOf key t = keyOf key t' := by
  funext id
  rw [keyOf, keyOf, bind_alike h]

end

section

variable [DecidableEq κ] {u : Upsert α β κ} {key : α → Option κ} {t : Table α} {k : κ} {id : Int}

theorem idOf_of_find (h : find key t k = some id) : idOf key t k = id := by
  rw [idOf, h, Option.getD_some]

theorem find_idOf (h : (find key t k).isSome = true) : find key t k = some (idOf key t k) := by
  obtain ⟨id, hid⟩ := Option.isSome_iff_exists.mp h
  rw [idOf_of_find hid, hid]

theorem row_idOf (h : (find key t k).isSome = true) : (t.row (idOf key t k)).isSome = true := by
  obtain ⟨a, ha, -⟩ := find_spec (find_idOf h)
  rw [ha]
  rfl

theorem isSome_find : (find key t k).isSome = (under key t k).isSome := by
  cases hunder : under key t k with
  | none => rw [under_eq_none.mp hunder, Option.isSome_none, Option.isSome_none]
  | some a =>
    cases hfind : find key t k with
    | none => rw [under_eq_none.mpr hfind] at hunder; cases hunder
    | some id => rfl

theorem row_putAll (hdistinct : Distinct u.key t) (bs : List β) (hrow : (t.row id).isSome = true) :
    ((putAll u t bs).row id).isSome = true := by
  obtain ⟨a, ha⟩ := Option.isSome_iff_exists.mp hrow
  obtain ⟨a', ha', -⟩ := putAll_key bs hdistinct ha
  rw [ha']
  rfl

end

section

variable [DecidableEq κ] [Inhabited κ] {u : Upsert α β κ} {key : α → Option κ} {t t' : Table α} {k k' : κ} {id : Int}

theorem keyOf_idOf (h : (find key t k).isSome = true) : keyOf key t (idOf key t k) = k := by
  obtain ⟨a, ha, hkey⟩ := find_spec (find_idOf h)
  rw [keyOf, ha, Option.bind_some, hkey, Option.getD_some]

/-- A row is found under its key. -/
theorem find_keyOf (hdistinct : Distinct key t) (htotal : ∀ a, (key a).isSome = true)
    (hrow : (t.row id).isSome = true) : find key t (keyOf key t id) = some id := by
  obtain ⟨a, ha⟩ := Option.isSome_iff_exists.mp hrow
  obtain ⟨k, hk⟩ := Option.isSome_iff_exists.mp (htotal a)
  have hown : keyOf key t id = k := by rw [keyOf, ha, Option.bind_some, hk, Option.getD_some]
  rw [hown]
  exact find_of_key hdistinct ha hk

theorem eq_of_idOf (hk : (find key t k).isSome = true) (hk' : (find key t k').isSome = true)
    (h : idOf key t k = idOf key t k') : k = k' := by
  rw [← keyOf_idOf hk, h, keyOf_idOf hk']

theorem keyOf_putAll (hdistinct : Distinct u.key t) (bs : List β) (hrow : (t.row id).isSome = true) :
    keyOf u.key (putAll u t bs) id = keyOf u.key t id := by
  obtain ⟨a, ha⟩ := Option.isSome_iff_exists.mp hrow
  obtain ⟨a', ha', hkey⟩ := putAll_key bs hdistinct ha
  rw [keyOf, keyOf, ha, ha', Option.bind_some, Option.bind_some, hkey]

end

section

variable {f : Int → α → α} {t : Table α}

theorem row_modifyAll (hidem : ∀ id a, f id (f id a) = f id a) (ids : List Int) (id : Int) :
    (ids.foldl (fun t id => t.modify id (f id)) t).row id =
      if id ∈ ids then (t.row id).map (f id) else t.row id := by
  induction ids generalizing t with
  | nil => simp
  | cons i ids ih =>
    rw [List.foldl_cons, ih, KeyedRows.Table.row_modify]
    by_cases hid : id = i
    · subst hid
      have htwice : f id ∘ f id = f id := funext (hidem id)
      by_cases hmem : id ∈ ids <;> simp [hmem, htwice]
    · by_cases hmem : id ∈ ids <;> simp [hmem, hid]

theorem alike_modifyAll {identity : α → ι} (h : ∀ id a, identity (f id a) = identity a) (ids : List Int) :
    Alike identity (ids.foldl (fun t id => t.modify id (f id)) t) t := by
  induction ids generalizing t with
  | nil => exact ⟨rfl, fun _ => rfl⟩
  | cons i ids ih =>
    rw [List.foldl_cons]
    obtain ⟨hused, hrows⟩ := ih (t := t.modify i (f i))
    refine ⟨hused, ?_⟩
    intro id
    rw [hrows, KeyedRows.Table.row_modify]
    split_ifs with hid
    · have hsame : identity ∘ f i = identity := funext (h i)
      rw [Option.map_map, hid, hsame]
    · rfl

theorem under_modifyAll [DecidableEq κ] {key : α → Option κ} (hidem : ∀ id a, f id (f id a) = f id a)
    (hkey : ∀ id a, key (f id a) = key a) (ids : List Int) (k : κ) :
    under key (ids.foldl (fun t id => t.modify id (f id)) t) k =
      (find key t k).bind (fun id => if id ∈ ids then (t.row id).map (f id) else t.row id) := by
  have halike : Alike key (ids.foldl (fun t id => t.modify id (f id)) t) t := alike_modifyAll hkey ids
  rw [under, find_alike (fun _ _ h => h) halike]
  simp only [row_modifyAll hidem]

end

section

variable {μ : Type} [DecidableEq ι] [DecidableEq κ] [DecidableEq μ]

theorem image_links {old : Finset (Int × Int)} {links : List ι} {left' : Int → κ} {right' : Int → μ}
    {leftID rightID : ι → Int} (left : Int → κ) (right : Int → μ) (leftKey : ι → κ) (rightKey : ι → μ)
    (hold : ∀ link ∈ old, left' link.1 = left link.1 ∧ right' link.2 = right link.2)
    (hnew : ∀ link ∈ links, left' (leftID link) = leftKey link ∧ right' (rightID link) = rightKey link) :
    (old ∪ (links.map (fun link => (leftID link, rightID link))).toFinset).image
        (fun link => (left' link.1, right' link.2)) =
      old.image (fun link => (left link.1, right link.2)) ∪
        links.toFinset.image (fun link => (leftKey link, rightKey link)) := by
  rw [Finset.image_union]
  congr 1
  · apply Finset.image_congr
    intro link hlink
    simp only [(hold link hlink).1, (hold link hlink).2]
  · ext pair
    simp only [Finset.mem_image, List.mem_toFinset, List.mem_map]
    constructor
    · rintro ⟨-, ⟨link, hlink, rfl⟩, rfl⟩
      exact ⟨link, hlink, by rw [(hnew link hlink).1, (hnew link hlink).2]⟩
    · rintro ⟨link, hlink, rfl⟩
      exact ⟨_, ⟨link, hlink, rfl⟩, by rw [(hnew link hlink).1, (hnew link hlink).2]⟩

end

section

variable {μ : Type} [DecidableEq κ] [DecidableEq μ] [Inhabited κ] [Inhabited μ] {keyA : α → Option κ}
  {keyB : β → Option μ} {tA : Table α} {tB : Table β} {k : κ} {id : Int}

/-- As many links by key as by number. -/
theorem card_links {links : Finset (Int × Int)} (hdistinctA : Distinct keyA tA) (hdistinctB : Distinct keyB tB)
    (htotalA : ∀ a, (keyA a).isSome = true) (htotalB : ∀ b, (keyB b).isSome = true)
    (hrows : ∀ link ∈ links, (tA.row link.1).isSome = true ∧ (tB.row link.2).isSome = true)
    (hfind : find keyA tA k = some id) :
    ((links.image (fun link => (keyOf keyA tA link.1, keyOf keyB tB link.2))).filter
        (fun link => link.1 = k)).card =
      (links.filter (fun link => link.1 = id)).card := by
  have hfilter : (links.image (fun link => (keyOf keyA tA link.1, keyOf keyB tB link.2))).filter
      (fun link => link.1 = k) =
        (links.filter (fun link => link.1 = id)).image
          (fun link => (keyOf keyA tA link.1, keyOf keyB tB link.2)) := by
    rw [Finset.filter_image]
    congr 1
    apply Finset.filter_congr
    intro link hlink
    have hown := find_keyOf hdistinctA htotalA (hrows link hlink).1
    constructor
    · intro hkey
      change keyOf keyA tA link.1 = k at hkey
      rw [hkey, hfind] at hown
      exact (Option.some.inj hown).symm
    · intro hid
      subst hid
      have hsome : (find keyA tA k).isSome = true := by
        rw [hfind]
        rfl
      rw [← idOf_of_find hfind]
      exact keyOf_idOf hsome
  rw [hfilter]
  apply Finset.card_image_of_injOn
  intro link hlink link' hlink' heq
  obtain ⟨hleft, hright⟩ := Prod.mk.inj heq
  have hmem := (Finset.mem_filter.mp hlink).1
  have hmem' := (Finset.mem_filter.mp hlink').1
  have hA := find_keyOf hdistinctA htotalA (hrows link hmem).1
  have hB := find_keyOf hdistinctB htotalB (hrows link hmem).2
  rw [hleft, find_keyOf hdistinctA htotalA (hrows link' hmem').1] at hA
  rw [hright, find_keyOf hdistinctB htotalB (hrows link' hmem').2] at hB
  exact Prod.ext (Option.some.inj hA).symm (Option.some.inj hB).symm

end

end KeyedRelations
