import Mathlib.Tactic.Common
import Woodstar.PackageStore

/-!
# Packages after any requests

What every request keeps: the columns of a row are those of one normalized, valid mutation, the
relation rows are its references, and everything a package depends on is there. From it, which
requests are accepted, and what is read afterwards.
-/
namespace PackageHistories

open ChildRows
open KeyedRows
open PackageMutations
open PackageStore
open Primitives
open RankedTables
open RecordCodecs
open Runs

variable {times : DateTexts} {s s' : Store} {id softwareID : Int} {m : PackageMutation} {row : PackageRow}

def referencesOf (m : PackageMutation) : RelationKind → List PackageReferenceMutation
  | .requires => m.requires
  | .updateFor => m.updateFor

theorem checkAll_ok {checks : List (String × Bool)} :
    Store.checkAll checks = .ok () ↔ ∀ c ∈ checks, c.2 = true := by
  induction checks with
  | nil => simp [Store.checkAll]
  | cons c checks ih =>
    obtain ⟨name, ok⟩ := c
    rw [Store.checkAll, bind_unit_ok, require_ok, ih, List.forall_mem_cons]

theorem insertRelations_ok {rows : List RelationRow} : s.insertRelations rows = .ok s' ↔
    (∀ r ∈ rows, s.checkRelation r = .ok ()) ∧ s' = { s with relations := insertAll s.relations rows } := by
  induction rows generalizing s with
  | nil =>
    constructor
    · intro h
      cases h
      exact ⟨nofun, rfl⟩
    · rintro ⟨-, rfl⟩
      rfl
  | cons r rows ih =>
    rw [Store.insertRelations, bind_unit_ok, ih, List.forall_mem_cons, and_assoc]
    rfl

/-- The references of one kind replaced. -/
def replaced (t : Table RelationRow) (id : Int) (kind : RelationKind) (refs : List PackageReferenceMutation) :
    Table RelationRow :=
  insertAll (eraseWhere t (isOf id kind)) (relationRows id kind refs)

def rewritten (t : Table RelationRow) (id : Int) (m : PackageMutation) : Table RelationRow :=
  replaced (replaced t id .requires m.requires) id .updateFor m.updateFor

theorem replacePackageRelations_ok {kind : RelationKind} {refs : List PackageReferenceMutation} :
    s.replacePackageRelations id kind refs = .ok s' ↔
      (∀ r ∈ relationRows id kind refs, s.checkRelation r = .ok ()) ∧
        s' = { s with relations := replaced s.relations id kind refs } := by
  rw [Store.replacePackageRelations, insertRelations_ok]
  rfl

theorem writePackageRelations_ok : s.writePackageRelations id m = .ok s' ↔
    (∀ kind, ∀ r ∈ relationRows id kind (referencesOf m kind), s.checkRelation r = .ok ()) ∧
      s' = { s with relations := rewritten s.relations id m } := by
  rw [Store.writePackageRelations, bind_eq_ok]
  constructor
  · rintro ⟨mid, hfirst, hsecond⟩
    obtain ⟨hrequires, rfl⟩ := replacePackageRelations_ok.mp hfirst
    obtain ⟨hupdate, rfl⟩ := replacePackageRelations_ok.mp hsecond
    constructor
    · intro kind
      cases kind with
      | requires => exact hrequires
      | updateFor => exact hupdate
    · rfl
  · rintro ⟨hrows, rfl⟩
    exact ⟨_, replacePackageRelations_ok.mpr ⟨hrows .requires, rfl⟩,
      replacePackageRelations_ok.mpr ⟨hrows .updateFor, rfl⟩⟩

section Relations

variable {t : Table RelationRow} {kind : RelationKind} {refs : List PackageReferenceMutation} {r : RelationRow}

theorem mem_relationRows : r ∈ relationRows id kind refs ↔ ∃ i ref, refs[i]? = some ref ∧
    r = ⟨id, kind, ref.softwareID, optionalPositiveInt64 ref.packageID, (Int32.ofNat i).toInt⟩ := by
  simp only [relationRows, List.mem_map, Prod.exists, List.mem_zipIdx_iff_getElem?]
  constructor
  · rintro ⟨ref, i, hi, rfl⟩
    exact ⟨i, ref, hi, rfl⟩
  · rintro ⟨i, ref, hi, rfl⟩
    exact ⟨ref, i, hi, rfl⟩

theorem getElem_relationRows (id : Int) (kind : RelationKind) {i : Nat} {ref : PackageReferenceMutation}
    (h : refs[i]? = some ref) :
    ⟨id, kind, ref.softwareID, optionalPositiveInt64 ref.packageID, (Int32.ofNat i).toInt⟩ ∈
      relationRows id kind refs :=
  mem_relationRows.mpr ⟨i, ref, h, rfl⟩

theorem owner_relationRows (h : r ∈ relationRows id kind refs) : r.owner = (id, kind) := by
  obtain ⟨i, ref, -, rfl⟩ := mem_relationRows.mp h
  rfl

theorem isOf_iff : isOf id kind r = true ↔ r.owner = (id, kind) := by
  simp [isOf, RelationRow.owner]

/-- A list whose positions are not negative is no longer than the positions go. -/
theorem length_le (h : ∀ r ∈ relationRows id kind refs, 0 ≤ r.position) : refs.length ≤ 2147483648 := by
  by_contra hlong
  have hlt : 2147483648 < refs.length := by omega
  have hmem := getElem_relationRows id kind (List.getElem?_eq_getElem hlt)
  have hpos : 0 ≤ (Int32.ofNat 2147483648).toInt := h _ hmem
  exact absurd hpos (by decide)

theorem position_eq {i : Nat} (h : i < 2147483648) : (Int32.ofNat i).toInt = i := by
  rw [Int32.toInt_ofNat_of_lt]
  simpa using h

theorem relationRows_ascending (h : refs.length ≤ 2147483648) :
    (relationRows id kind refs).Pairwise (fun a b => a.position < b.position) := by
  rw [List.pairwise_iff_getElem]
  intro i j hi hj hij
  simp only [relationRows, List.length_map, List.length_zipIdx] at hi hj
  simp only [relationRows, List.getElem_map, List.getElem_zipIdx, Nat.zero_add]
  rw [position_eq (by omega), position_eq (by omega)]
  omega

theorem children_replaced (h : refs.length ≤ 2147483648) :
    children RelationRow.owner RelationRow.position (replaced t id kind refs) (id, kind) =
      relationRows id kind refs := by
  apply children_insertAll
  · exact owned_eraseWhere_of_erased (fun r hr => isOf_iff.mpr hr)
  · exact fun r hr => owner_relationRows hr
  · exact relationRows_ascending h

theorem children_replaced_of_ne {o : Int × RelationKind} (h : o ≠ (id, kind)) :
    children RelationRow.owner RelationRow.position (replaced t id kind refs) o =
      children RelationRow.owner RelationRow.position t o := by
  rw [children, children, replaced, owned_insertAll_of_others, owned_eraseWhere_of_kept]
  · intro r hr
    rw [Bool.eq_false_iff]
    intro hof
    exact h (hr.symm.trans (isOf_iff.mp hof))
  · intro r hr heq
    exact h (heq.symm.trans (owner_relationRows hr))

theorem children_rewritten (h : ∀ kind, (referencesOf m kind).length ≤ 2147483648) (kind : RelationKind) :
    children RelationRow.owner RelationRow.position (rewritten t id m) (id, kind) =
      relationRows id kind (referencesOf m kind) := by
  cases kind with
  | requires =>
    rw [rewritten, children_replaced_of_ne (by simp)]
    exact children_replaced (h .requires)
  | updateFor => exact children_replaced (h .updateFor)

theorem children_rewritten_of_ne {id' : Int} (h : id' ≠ id) (kind : RelationKind) :
    children RelationRow.owner RelationRow.position (rewritten t id m) (id', kind) =
      children RelationRow.owner RelationRow.position t (id', kind) := by
  rw [rewritten, children_replaced_of_ne (by simp [h]), children_replaced_of_ne (by simp [h])]

theorem row_replaced (h : ∃ n, (replaced t id kind refs).row n = some r) :
    (∃ n, t.row n = some r) ∨ r ∈ relationRows id kind refs := by
  cases row_insertAll.mp h with
  | inl hold =>
    obtain ⟨n, hn⟩ := hold
    exact .inl ⟨n, (row_eraseWhere.mp hn).1⟩
  | inr hnew => exact .inr hnew

theorem row_rewritten (h : ∃ n, (rewritten t id m).row n = some r) :
    (∃ n, t.row n = some r) ∨ ∃ kind, r ∈ relationRows id kind (referencesOf m kind) := by
  cases row_replaced h with
  | inl hold =>
    cases row_replaced hold with
    | inl hold => exact .inl hold
    | inr hnew => exact .inr ⟨.requires, hnew⟩
  | inr hnew => exact .inr ⟨.updateFor, hnew⟩

theorem optional_getD {value : Int} (h : 0 ≤ value) : (optionalPositiveInt64 value).getD 0 = value := by
  unfold optionalPositiveInt64
  split_ifs with hzero
  · exact Int.le_antisymm h hzero
  · rfl

theorem reference_relationRows (h : ∀ ref ∈ refs, 0 ≤ ref.packageID) :
    (relationRows id kind refs).map RelationRow.reference = refs := by
  rw [relationRows, List.map_map]
  apply List.ext_getElem
  · simp
  · intro i hi hi'
    have hnonneg := optional_getD (h refs[i] (List.getElem_mem hi'))
    simp only [List.getElem_map, List.getElem_zipIdx, Function.comp_apply, RelationRow.reference, hnonneg]

end Relations

section Statements

variable {kind : RelationKind} {refs : List PackageReferenceMutation} {r : RelationRow}

/-- A finalized package installer. -/
def Usable (s : Store) (objectID : Int) : Prop :=
  ∃ object, s.objects.row objectID = some object ∧ object.folder = ObjectPrefix ∧ object.available = true

/-- No other package has it. -/
def Free (s : Store) (id objectID : Int) : Prop :=
  ∀ id' row', s.packages.row id' = some row' → id' ≠ id → row'.installerObjectID ≠ some objectID

theorem owner_eq_none {objectID : Int} : s.owner objectID id = none ↔ Free s id objectID := by
  simp only [Store.owner, Option.map_eq_none_iff, List.find?_eq_none, Prod.forall, mem_entries, Bool.and_eq_true,
    beq_iff_eq, bne_iff_ne, not_and, Free]
  constructor
  · intro h id' row' hrow hne hobject
    exact h id' row' hrow hobject hne
  · intro h id' row' hrow hobject hne
    exact h id' row' hrow hne hobject

theorem validateAndLock_ok {object : Option Int} : s.validateAndLockInstallerObject object id = .ok () ↔
    ∀ objectID, object = some objectID → Usable s objectID ∧ Free s id objectID := by
  cases object with
  | none => simp [Store.validateAndLockInstallerObject]
  | some objectID =>
    simp only [Store.validateAndLockInstallerObject, Option.some.injEq, forall_eq', ← owner_eq_none]
    cases hrow : s.objects.row objectID with
    | none => simp [Usable, hrow]
    | some object =>
      simp only [Usable, hrow, Option.some.injEq, exists_eq_left', bind_unit_ok, require_ok, beq_iff_eq, and_assoc]
      cases s.owner objectID id <;> simp

theorem checkRow_ok : s.checkRow id row = .ok () ↔
    row.isStorable = true ∧ (∀ c ∈ row.checks, c.2 = true) ∧
      (∀ id' row', s.packages.row id' = some row' → id' ≠ id → row'.softwareID = row.softwareID →
        row'.version ≠ row.version) ∧
      (∀ objectID, row.installerObjectID = some objectID → Free s id objectID) ∧
      (s.software.row row.softwareID).isSome = true ∧
      (∀ objectID, row.installerObjectID = some objectID → (s.objects.row objectID).isSome = true) := by
  simp only [Store.checkRow, bind_unit_ok, require_ok, checkAll_ok, Bool.not_eq_true', List.any_eq_false,
    Prod.forall, mem_entries, Bool.and_eq_true, beq_iff_eq, bne_iff_ne, not_and, Option.all_eq_true]
  refine and_congr_right fun _ => and_congr_right fun _ =>
    and_congr (by simp only [ne_eq, and_imp]) (and_congr ?_ Iff.rfl)
  constructor
  · intro h objectID hobject id' row' hrow hne
    have hfree := h id' row' hrow ⟨hne, by rw [hobject]; rfl⟩
    rwa [hobject] at hfree
  · intro h id' row' hrow hboth
    obtain ⟨objectID, hobject⟩ := Option.isSome_iff_exists.mp hboth.2
    rw [hobject]
    exact h objectID hobject id' row' hrow hboth.1

theorem checkRelation_ok : s.checkRelation r = .ok () ↔
    0 ≤ r.position ∧ (s.packages.row r.packageID).isSome = true ∧
      (s.software.row r.targetSoftwareID).isSome = true ∧
      ∀ target, r.targetPackageID = some target →
        ∃ row, s.packages.row target = some row ∧ row.softwareID = r.targetSoftwareID := by
  simp only [Store.checkRelation, bind_unit_ok, require_ok, decide_eq_true_eq, Option.all_eq_true,
    Option.any_eq_true, beq_iff_eq]
  constructor
  · rintro ⟨hpos, hpackage, -, hsoftware, htarget⟩
    exact ⟨hpos, hpackage, hsoftware, htarget⟩
  · rintro ⟨hpos, hpackage, hsoftware, htarget⟩
    refine ⟨hpos, hpackage, fun target ht => ?_, hsoftware, htarget⟩
    obtain ⟨row, hrow, -⟩ := htarget target ht
    exact Option.isSome_of_eq_some hrow

/-- The title of a reference is there, and so is the package that it pins, which may be the one that
is being written. -/
def Resolves (s : Store) (softwareID id : Int) (ref : PackageReferenceMutation) : Prop :=
  (s.software.row ref.softwareID).isSome = true ∧
    (0 < ref.packageID → (ref.packageID = id ∧ ref.softwareID = softwareID) ∨
      ∃ target, s.packages.row ref.packageID = some target ∧ target.softwareID = ref.softwareID)

end Statements

/-- The columns of a row are those of a mutation, and its relation rows the references. -/
structure Written (s : Store) (id : Int) (row : PackageRow) (m : PackageMutation) : Prop where
  columns : row = newPackageWrite row.softwareID m
  normal : m.normalize = m
  valid : m.validate = .ok ()
  storable : row.isStorable = true
  relations : ∀ kind, children RelationRow.owner RelationRow.position s.relations (id, kind) =
    relationRows id kind (referencesOf m kind)

structure Sound (s : Store) : Prop where
  written : ∀ id row, s.packages.row id = some row → ∃ m, Written s id row m
  titled : ∀ id row, s.packages.row id = some row → (s.software.row row.softwareID).isSome = true
  usable : ∀ id row objectID, s.packages.row id = some row → row.installerObjectID = some objectID →
    Usable s objectID
  owned : ∀ id row objectID, s.packages.row id = some row → row.installerObjectID = some objectID →
    Free s id objectID
  versions : ∀ id id' row row', s.packages.row id = some row → s.packages.row id' = some row' →
    row.softwareID = row'.softwareID → row.version = row'.version → id = id'
  relations : ∀ n r, s.relations.row n = some r → s.checkRelation r = .ok ()
  pinned : ∀ pin ∈ s.pins, ∃ row, s.packages.row pin.2 = some row ∧ row.softwareID = pin.1

theorem sound_empty : Sound {} := by
  constructor
  · intro id row h
    cases h
  · intro id row h
    cases h
  · intro id row objectID h
    cases h
  · intro id row objectID h
    cases h
  · intro id id' row row' h
    cases h
  · intro n r h
    cases h
  · intro pin h
    cases h

/-- A store whose packages and titles only grew still takes the relations. -/
theorem checkRelation_mono {r : RelationRow} (h : s.checkRelation r = .ok ())
    (hpackages : ∀ id row, s.packages.row id = some row →
      ∃ row', s'.packages.row id = some row' ∧ row'.softwareID = row.softwareID)
    (hsoftware : ∀ id, (s.software.row id).isSome = true → (s'.software.row id).isSome = true) :
    s'.checkRelation r = .ok () := by
  obtain ⟨hpos, hpackage, htitle, htarget⟩ := checkRelation_ok.mp h
  rw [checkRelation_ok]
  constructor
  · exact hpos
  constructor
  · obtain ⟨row, hrow⟩ := Option.isSome_iff_exists.mp hpackage
    obtain ⟨row', hrow', -⟩ := hpackages _ row hrow
    exact Option.isSome_of_eq_some hrow'
  constructor
  · exact hsoftware _ htitle
  · intro target ht
    obtain ⟨row, hrow, hsame⟩ := htarget target ht
    obtain ⟨row', hrow', hsame'⟩ := hpackages target row hrow
    exact ⟨row', hrow', hsame'.trans hsame⟩

section Reading

theorem references_nonneg (h : m.validate = .ok ()) (kind : RelationKind) :
    ∀ ref ∈ referencesOf m kind, 0 < ref.softwareID ∧ 0 ≤ ref.packageID := by
  cases kind with
  | requires => exact (valid_of_validate h).requires
  | updateFor => exact (valid_of_validate h).updateFor

theorem references_written (h : Sound s) (hw : Written s id row m) (kind : RelationKind) :
    s.references id kind = referencesOf m kind := by
  have hall : ∀ r ∈ children RelationRow.owner RelationRow.position s.relations (id, kind),
      (s.software.row r.targetSoftwareID).isSome = true := by
    intro r hr
    obtain ⟨-, n, hn⟩ := mem_children.mp hr
    exact (checkRelation_ok.mp (h.relations n r hn)).2.2.1
  rw [Store.references, List.filter_eq_self.mpr hall, hw.relations kind]
  exact reference_relationRows (fun ref href => (references_nonneg hw.valid kind ref href).2)

theorem getPackageByID_written (h : Sound s) (hrow : s.packages.row id = some row) (hw : Written s id row m) :
    s.getPackageByID id = .ok (row.softwareID, m) := by
  have hback : packageMutation row (s.references id .requires) (s.references id .updateFor) = some m := by
    rw [hw.columns, references_written h hw, references_written h hw]
    exact packageMutation_newPackageWrite _ m
  rw [Store.getPackageByID, hrow]
  dsimp only
  rw [if_pos (h.titled id row hrow), hback]

/-- A package that is read is there, and what is read is what is written. -/
theorem getPackageByID_ok (h : Sound s) : s.getPackageByID id = .ok (softwareID, m) ↔
    ∃ row, s.packages.row id = some row ∧ row.softwareID = softwareID ∧ Written s id row m := by
  constructor
  · intro hread
    cases hrow : s.packages.row id with
    | none =>
      rw [Store.getPackageByID, hrow] at hread
      cases hread
    | some row =>
      obtain ⟨m', hw⟩ := h.written id row hrow
      rw [getPackageByID_written h hrow hw] at hread
      obtain ⟨rfl, rfl⟩ := Prod.mk.inj (Except.ok.inj hread)
      exact ⟨row, rfl, rfl, hw⟩
  · rintro ⟨row, hrow, rfl, hw⟩
    exact getPackageByID_written h hrow hw

end Reading

/-- What the rows of the store ask of a package that is to be written under `id`. -/
structure Admissible (s : Store) (softwareID id : Int) (m : PackageMutation) : Prop where
  storable : (newPackageWrite softwareID m).isStorable = true
  version : ∀ id' row, s.packages.row id' = some row → id' ≠ id → row.softwareID = softwareID →
    row.version ≠ m.version
  object : ∀ objectID, m.installerObjectID = some objectID → Usable s objectID ∧ Free s id objectID
  titled : (s.software.row softwareID).isSome = true
  resolved : ∀ kind, ∀ ref ∈ referencesOf m kind, Resolves s softwareID id ref
  fits : ∀ kind, (referencesOf m kind).length ≤ 2147483648

section Accepting

variable {P : Table PackageRow}

theorem checkRow_newPackageWrite (hnormal : m.normalize = m) (hvalid : m.validate = .ok ()) :
    (s.validateAndLockInstallerObject m.installerObjectID id = .ok () ∧
      s.checkRow id (newPackageWrite softwareID m) = .ok ()) ↔
      (newPackageWrite softwareID m).isStorable = true ∧
      (∀ id' row, s.packages.row id' = some row → id' ≠ id → row.softwareID = softwareID →
        row.version ≠ m.version) ∧
      (∀ objectID, m.installerObjectID = some objectID → Usable s objectID ∧ Free s id objectID) ∧
      (s.software.row softwareID).isSome = true := by
  have hchecks := checks_newPackageWrite hnormal (valid_of_validate hvalid) softwareID
  rw [validateAndLock_ok, checkRow_ok]
  constructor
  · rintro ⟨hobject, hstorable, -, hversion, -, htitled, -⟩
    exact ⟨hstorable, hversion, hobject, htitled⟩
  · rintro ⟨hstorable, hversion, hobject, htitled⟩
    refine ⟨hobject, hstorable, hchecks, hversion, fun o ho => (hobject o ho).2, htitled, fun o ho => ?_⟩
    obtain ⟨object, hrow, -⟩ := (hobject o ho).1
    exact Option.isSome_of_eq_some hrow

/-- The packages once one is written under `id`. -/
structure Puts (s : Store) (id : Int) (row : PackageRow) (P : Table PackageRow) : Prop where
  here : P.row id = some row
  others : ∀ id', id' ≠ id → P.row id' = s.packages.row id'
  same : ∀ old, s.packages.row id = some old → old.softwareID = row.softwareID

theorem checkRelations_ok (hputs : Puts s id (newPackageWrite softwareID m) P) (kind : RelationKind) :
    (∀ r ∈ relationRows id kind (referencesOf m kind), { s with packages := P }.checkRelation r = .ok ()) ↔
      (∀ ref ∈ referencesOf m kind, Resolves s softwareID id ref) ∧
        (referencesOf m kind).length ≤ 2147483648 := by
  have htarget : ∀ target software, (∃ row, P.row target = some row ∧ row.softwareID = software) ↔
      (target = id ∧ software = softwareID) ∨
        ∃ row, s.packages.row target = some row ∧ row.softwareID = software := by
    intro target software
    by_cases ht : target = id
    · subst ht
      rw [hputs.here]
      constructor
      · rintro ⟨row, hrow, rfl⟩
        obtain rfl := Option.some.inj hrow
        exact .inl ⟨rfl, rfl⟩
      · rintro (⟨-, rfl⟩ | ⟨row, hrow, rfl⟩)
        · exact ⟨_, rfl, rfl⟩
        · exact ⟨_, rfl, (hputs.same row hrow).symm⟩
    · rw [hputs.others target ht]
      simp [ht]
  constructor
  · intro h
    constructor
    · intro ref href
      obtain ⟨i, hi⟩ := List.mem_iff_getElem?.mp href
      have hrow := checkRelation_ok.mp (h _ (getElem_relationRows id kind hi))
      refine ⟨hrow.2.2.1, fun hpos => ?_⟩
      rw [← htarget]
      exact hrow.2.2.2 ref.packageID (by rw [optionalPositiveInt64, if_neg (by omega)])
    · exact length_le (fun r hr => (checkRelation_ok.mp (h r hr)).1)
  · rintro ⟨hresolved, hlength⟩ r hr
    obtain ⟨i, ref, hi, rfl⟩ := mem_relationRows.mp hr
    have href := List.mem_of_getElem? hi
    have hlt : i < (referencesOf m kind).length := (List.getElem?_eq_some_iff.mp hi).1
    obtain ⟨htitle, hpackage⟩ := hresolved ref href
    rw [checkRelation_ok]
    refine ⟨?_, Option.isSome_of_eq_some hputs.here, htitle, fun target ht => ?_⟩
    · show 0 ≤ (Int32.ofNat i).toInt
      rw [position_eq (by omega)]
      omega
    · simp only [optionalPositiveInt64] at ht
      split_ifs at ht with hzero
      obtain rfl := Option.some.inj ht
      exact (htarget _ _).mpr (hpackage (by omega))

/-- The store once a package is written under `id`. -/
def saved (s : Store) (P : Table PackageRow) (id : Int) (m : PackageMutation) : Store :=
  { s with packages := P, relations := rewritten s.relations id m }

/-- The statements of one write go through exactly when the rows admit it. -/
theorem writes_ok (hnormal : m.normalize = m) (hvalid : m.validate = .ok ())
    (hputs : Puts s id (newPackageWrite softwareID m) P) :
    (s.validateAndLockInstallerObject m.installerObjectID id = .ok () ∧
      s.checkRow id (newPackageWrite softwareID m) = .ok () ∧
      { s with packages := P }.writePackageRelations id m = .ok s') ↔
      Admissible s softwareID id m ∧ s' = saved s P id m := by
  rw [← and_assoc, checkRow_newPackageWrite hnormal hvalid, writePackageRelations_ok]
  constructor
  · rintro ⟨⟨hstorable, hversion, hobject, htitled⟩, hrelations, rfl⟩
    constructor
    · constructor
      · exact hstorable
      · exact hversion
      · exact hobject
      · exact htitled
      · exact fun kind => ((checkRelations_ok hputs kind).mp (hrelations kind)).1
      · exact fun kind => ((checkRelations_ok hputs kind).mp (hrelations kind)).2
    · rfl
  · rintro ⟨hadm, rfl⟩
    refine ⟨⟨hadm.storable, hadm.version, hadm.object, hadm.titled⟩, fun kind => ?_, rfl⟩
    exact (checkRelations_ok hputs kind).mpr ⟨hadm.resolved kind, hadm.fits kind⟩

theorem sound_saved (h : Sound s) (hnormal : m.normalize = m) (hvalid : m.validate = .ok ())
    (hputs : Puts s id (newPackageWrite softwareID m) P) (hadm : Admissible s softwareID id m) :
    Sound (saved s P id m) := by
  have hrows : ∀ id' row', P.row id' = some row' →
      (id' = id ∧ row' = newPackageWrite softwareID m) ∨ (id' ≠ id ∧ s.packages.row id' = some row') := by
    intro id' row' hrow
    by_cases hid : id' = id
    · rw [hid, hputs.here] at hrow
      exact .inl ⟨hid, (Option.some.inj hrow).symm⟩
    · rw [hputs.others id' hid] at hrow
      exact .inr ⟨hid, hrow⟩
  have hgrows : ∀ id' row', s.packages.row id' = some row' →
      ∃ row'', P.row id' = some row'' ∧ row''.softwareID = row'.softwareID := by
    intro id' row' hrow
    by_cases hid : id' = id
    · subst hid
      exact ⟨_, hputs.here, (hputs.same row' hrow).symm⟩
    · exact ⟨row', (hputs.others id' hid).trans hrow, rfl⟩
  constructor
  · intro id' row' hrow
    rcases hrows id' row' hrow with ⟨rfl, rfl⟩ | ⟨hne, hold⟩
    · exact ⟨m, rfl, hnormal, hvalid, hadm.storable, children_rewritten hadm.fits⟩
    · obtain ⟨m', hw⟩ := h.written id' row' hold
      refine ⟨m', hw.columns, hw.normal, hw.valid, hw.storable, fun kind => ?_⟩
      exact (children_rewritten_of_ne hne kind).trans (hw.relations kind)
  · intro id' row' hrow
    rcases hrows id' row' hrow with ⟨rfl, rfl⟩ | ⟨-, hold⟩
    · exact hadm.titled
    · exact h.titled id' row' hold
  · intro id' row' objectID hrow hobject
    rcases hrows id' row' hrow with ⟨rfl, rfl⟩ | ⟨-, hold⟩
    · exact (hadm.object objectID hobject).1
    · exact h.usable id' row' objectID hold hobject
  · intro id' row' objectID hrow hobject a b ha hne hb
    rcases hrows id' row' hrow with ⟨rfl, rfl⟩ | ⟨hid, hold⟩
    · rcases hrows a b ha with ⟨rfl, -⟩ | ⟨-, hother⟩
      · exact hne rfl
      · exact (hadm.object objectID hobject).2 a b hother hne hb
    · rcases hrows a b ha with ⟨rfl, rfl⟩ | ⟨-, hother⟩
      · exact (hadm.object objectID hb).2 id' row' hold hid hobject
      · exact h.owned id' row' objectID hold hobject a b hother hne hb
  · intro a b ra rb ha hb hsoftware hversion
    rcases hrows a ra ha with ⟨rfl, rfl⟩ | ⟨hna, hra⟩
    · rcases hrows b rb hb with ⟨rfl, rfl⟩ | ⟨hnb, hrb⟩
      · rfl
      · exact absurd hversion.symm (hadm.version b rb hrb hnb hsoftware.symm)
    · rcases hrows b rb hb with ⟨rfl, rfl⟩ | ⟨hnb, hrb⟩
      · exact absurd hversion (hadm.version a ra hra hna hsoftware)
      · exact h.versions a b ra rb hra hrb hsoftware hversion
  · intro n r hr
    rcases row_rewritten ⟨n, hr⟩ with ⟨n', hold⟩ | ⟨kind, hnew⟩
    · exact checkRelation_mono (h.relations n' r hold) hgrows (fun _ hs => hs)
    · exact (checkRelations_ok hputs kind).mpr ⟨hadm.resolved kind, hadm.fits kind⟩ r hnew
  · intro pin hpin
    obtain ⟨row', hrow, hsame⟩ := h.pinned pin hpin
    obtain ⟨row'', hrow'', hsame'⟩ := hgrows pin.2 row' hrow
    exact ⟨row'', hrow'', hsame'.trans hsame⟩

end Accepting

section Requests

theorem mapError_ok {ε ε' : Type} {x : Except ε Unit} {f : ε → ε'} : x.mapError f = .ok () ↔ x = .ok () := by
  cases x with
  | error e => exact iff_of_false nofun nofun
  | ok a => exact iff_of_true rfl rfl

theorem prepareMutation_ok {params : PackageMutation} :
    prepareMutation m = .ok params ↔ m.normalize.validate = .ok () ∧ params = m.normalize := by
  rw [prepareMutation, bind_unit_ok, mapError_ok, Except.ok.injEq, eq_comm (a := m.normalize)]

theorem prepareCreateMutation_ok {params : PackageMutation} :
    prepareCreateMutation softwareID m = .ok params ↔
      0 < softwareID ∧ m.normalize.validate = .ok () ∧ params = m.normalize := by
  simp only [prepareCreateMutation, bind_unit_ok, mapError_ok, require_ok, decide_eq_true_eq, Except.ok.injEq,
    eq_comm (a := m.normalize)]
  constructor
  · rintro ⟨-, hpos, hvalid, hparams⟩
    exact ⟨hpos, hvalid, hparams⟩
  · rintro ⟨hpos, hvalid, hparams⟩
    refine ⟨?_, hpos, hvalid, hparams⟩
    simp only [PackageMutation.validate, PackageMutation.validateMetadata, bind_unit_ok] at hvalid
    exact hvalid.1.1

theorem puts_insert (s : Store) (row : PackageRow) :
    Puts s s.packages.next row (s.packages.insert row) where
  here := by rw [Table.row_insert, if_pos rfl]
  others := by
    intro id' hne
    rw [Table.row_insert, if_neg hne]
  same := by
    intro old hold
    rw [row_next] at hold
    cases hold

theorem free_zero {objectID : Int} : Free s 0 objectID ↔ Free s s.packages.next objectID := by
  have hne : ∀ id row, s.packages.row id = some row → id ≠ 0 ∧ id ≠ s.packages.next := by
    intro id row hrow
    have := s.packages.numbered id (Option.isSome_of_eq_some hrow)
    simp only [Table.next]
    omega
  constructor
  · intro h id row hrow _
    exact h id row hrow (hne id row hrow).1
  · intro h id row hrow _
    exact h id row hrow (hne id row hrow).2

/-- A package is created exactly when it is valid and the rows admit it. -/
theorem create_ok : s.create softwareID m = .ok s' ↔
    m.normalize.validate = .ok () ∧ Admissible s softwareID s.packages.next m.normalize ∧
      s' = saved s (s.packages.insert (newPackageWrite softwareID m.normalize)) s.packages.next m.normalize := by
  have hlock : s.validateAndLockInstallerObject m.normalize.installerObjectID 0 = .ok () ↔
      s.validateAndLockInstallerObject m.normalize.installerObjectID s.packages.next = .ok () := by
    simp only [validateAndLock_ok, free_zero]
  simp only [Store.create, bind_eq_ok (x := prepareCreateMutation softwareID m), prepareCreateMutation_ok]
  constructor
  · rintro ⟨params, ⟨-, hvalid, rfl⟩, h⟩
    simp only [bind_unit_ok, hlock] at h
    exact ⟨hvalid, (writes_ok (normalize_normalize m) hvalid (puts_insert s _)).mp h⟩
  · rintro ⟨hvalid, hadm, hs'⟩
    have hpos := (s.software.numbered softwareID hadm.titled).1
    refine ⟨m.normalize, ⟨hpos, hvalid, rfl⟩, ?_⟩
    simp only [bind_unit_ok, hlock]
    exact (writes_ok (normalize_normalize m) hvalid (puts_insert s _)).mpr ⟨hadm, hs'⟩

theorem puts_modify (hrow : s.packages.row id = some row) :
    Puts s id (newPackageWrite row.softwareID m)
      (s.packages.modify id (fun _ => newPackageWrite row.softwareID m)) where
  here := by rw [Table.row_modify, if_pos rfl, hrow, Option.map_some]
  others := by
    intro id' hne
    rw [Table.row_modify, if_neg hne]
  same := by
    intro old hold
    rw [hrow] at hold
    rw [← Option.some.inj hold]
    rfl

def updated (s : Store) (softwareID id : Int) (m : PackageMutation) : Store :=
  saved s (s.packages.modify id (fun _ => newPackageWrite softwareID m)) id m

/-- A package is changed exactly when what becomes of it is valid and the rows admit it. -/
theorem update_ok (h : Sound s) {mutate : PackageMutation → Option PackageMutation} :
    s.update id mutate = .ok s' ↔ ∃ (softwareID : Int) (current m : PackageMutation),
      s.getPackageByID id = .ok (softwareID, current) ∧
      mutate current = some m ∧ m.normalize.validate = .ok () ∧ Admissible s softwareID id m.normalize ∧
      s' = updated s softwareID id m.normalize := by
  have hread : ∀ (softwareID : Int) (current m : PackageMutation), s.getPackageByID id = .ok (softwareID, current) →
      m.normalize.validate = .ok () → Admissible s softwareID id m.normalize →
      (updated s softwareID id m.normalize).getPackageByID id = .ok (softwareID, m.normalize) := by
    intro softwareID current m hcurrent hvalid hadm
    obtain ⟨row, hrow, rfl, -⟩ := (getPackageByID_ok h).mp hcurrent
    have hputs := puts_modify (m := m.normalize) hrow
    have hsound := sound_saved h (normalize_normalize m) hvalid hputs hadm
    rw [getPackageByID_ok (s := updated s row.softwareID id m.normalize) hsound]
    exact ⟨_, hputs.here, rfl, rfl, normalize_normalize m, hvalid, hadm.storable, children_rewritten hadm.fits⟩
  simp only [Store.update, bind_eq_ok, Prod.exists, prepareMutation_ok]
  constructor
  · rintro ⟨softwareID, current, hcurrent, m, hm, params, ⟨hvalid, rfl⟩, ⟨⟩, hlock, ⟨⟩, hrow,
    written, hwrite, -, -, -, hs'⟩
    obtain ⟨row, hpresent, rfl, -⟩ := (getPackageByID_ok h).mp hcurrent
    obtain ⟨hadm, rfl⟩ := (writes_ok (normalize_normalize m) hvalid (puts_modify hpresent)).mp ⟨hlock, hrow, hwrite⟩
    refine ⟨row.softwareID, current, m, hcurrent, ?_, hvalid, hadm, (Except.ok.inj hs').symm⟩
    cases hmutate : mutate current with
    | none =>
      rw [hmutate] at hm
      cases hm
    | some m' =>
      rw [hmutate] at hm
      rw [Except.ok.inj hm]
  · rintro ⟨softwareID, current, m, hcurrent, hm, hvalid, hadm, rfl⟩
    have hback := hread softwareID current m hcurrent hvalid hadm
    obtain ⟨row, hpresent, rfl, -⟩ := (getPackageByID_ok h).mp hcurrent
    obtain ⟨hlock, hrow, hwrite⟩ :=
      (writes_ok (normalize_normalize m) hvalid (puts_modify hpresent)).mpr ⟨hadm, rfl⟩
    refine ⟨row.softwareID, current, hcurrent, m, by rw [hm]; rfl, m.normalize, ⟨hvalid, rfl⟩, (), hlock, (), hrow,
      _, hwrite, row.softwareID, m.normalize, hback, rfl⟩

end Requests

section Others

/-- Some packages are gone with their relations, and nothing that stays needs one of them. -/
structure Removed (gone : Int → Bool) (s s' : Store) : Prop where
  packages : ∀ id, s'.packages.row id = if gone id = true then none else s.packages.row id
  relations : s'.relations = eraseWhere s.relations (fun row => gone row.packageID)
  titles : ∀ id row, s'.packages.row id = some row → s'.software.row row.softwareID = s.software.row row.softwareID
  named : ∀ n r, s'.relations.row n = some r →
    s'.software.row r.targetSoftwareID = s.software.row r.targetSoftwareID
  needed : ∀ n r target row, s'.relations.row n = some r → r.targetPackageID = some target →
    s.packages.row target = some row → row.softwareID = r.targetSoftwareID → gone target = false
  pins : ∀ pin ∈ s'.pins, pin ∈ s.pins ∧
    ∀ row, s.packages.row pin.2 = some row → row.softwareID = pin.1 → gone pin.2 = false
  objects : s'.objects = s.objects

theorem Removed.present {gone : Int → Bool} (hr : Removed gone s s') :
    s'.packages.row id = some row ↔ s.packages.row id = some row ∧ gone id = false := by
  rw [hr.packages]
  cases gone id <;> simp

theorem Removed.children {gone : Int → Bool} (hr : Removed gone s s') (hstays : gone id = false) (kind : RelationKind) :
    children RelationRow.owner RelationRow.position s'.relations (id, kind) =
      children RelationRow.owner RelationRow.position s.relations (id, kind) := by
  rw [hr.relations]
  refine congrArg (fun rows => (ordered RelationRow.position rows).map Prod.snd) (owned_eraseWhere_of_kept ?_)
  intro r howner
  have hpackage : r.packageID = id := congrArg Prod.fst howner
  rw [hpackage, hstays]

theorem sound_removed {gone : Int → Bool} (h : Sound s) (hr : Removed gone s s') : Sound s' := by
  constructor
  · intro id row hrow
    obtain ⟨hold, hstays⟩ := hr.present.mp hrow
    obtain ⟨m, hw⟩ := h.written id row hold
    exact ⟨m, hw.columns, hw.normal, hw.valid, hw.storable,
      fun kind => (hr.children hstays kind).trans (hw.relations kind)⟩
  · intro id row hrow
    rw [hr.titles id row hrow]
    exact h.titled id row (hr.present.mp hrow).1
  · intro id row objectID hrow hobject
    rw [Usable, hr.objects]
    exact h.usable id row objectID (hr.present.mp hrow).1 hobject
  · intro id row objectID hrow hobject id' row' hrow' hne
    exact h.owned id row objectID (hr.present.mp hrow).1 hobject id' row' (hr.present.mp hrow').1 hne
  · intro a b ra rb ha hb
    exact h.versions a b ra rb (hr.present.mp ha).1 (hr.present.mp hb).1
  · intro n r hrow
    obtain ⟨hold, hkept⟩ := row_eraseWhere.mp (hr.relations ▸ hrow)
    obtain ⟨hpos, hpackage, htitle, htarget⟩ := checkRelation_ok.mp (h.relations n r hold)
    obtain ⟨owner, howner⟩ := Option.isSome_iff_exists.mp hpackage
    refine checkRelation_ok.mpr ⟨hpos, Option.isSome_of_eq_some (hr.present.mpr ⟨howner, hkept⟩), ?_, ?_⟩
    · rw [hr.named n r hrow]
      exact htitle
    · intro target ht
      obtain ⟨row, hthere, hsame⟩ := htarget target ht
      exact ⟨row, hr.present.mpr ⟨hthere, hr.needed n r target row hrow ht hthere hsame⟩, hsame⟩
  · intro pin hpin
    obtain ⟨hold, hstays⟩ := hr.pins pin hpin
    obtain ⟨row, hrow, hsame⟩ := h.pinned pin hold
    exact ⟨row, hr.present.mpr ⟨hrow, hstays row hrow hsame⟩, hsame⟩

theorem isTargeted_eq_false : s.isTargeted softwareID = false ↔
    ∀ n r, s.relations.row n = some r → r.targetSoftwareID ≠ softwareID := by
  simp only [Store.isTargeted, List.any_eq_false, Prod.forall, mem_entries, beq_iff_eq, ne_eq]

/-- Titles are deleted exactly when no reference names them, not even one of their own packages. -/
theorem deleteManySoftware_ok (h : Sound s) {ids : List Int} (hne : ids ≠ []) :
    s.deleteManySoftware ids = .ok s' ↔
      (∀ n r, s.relations.row n = some r → r.targetSoftwareID ∉ ids) ∧ s' = s.withoutSoftware ids := by
  have hempty : ids.isEmpty = false := by simpa using hne
  have htitle : ∀ n r, s.relations.row n = some r → (s.software.row r.targetSoftwareID).isSome = true :=
    fun n r hr => (checkRelation_ok.mp (h.relations n r hr)).2.2.1
  rw [Store.deleteManySoftware, hempty, if_neg Bool.false_ne_true]
  split_ifs with hany
  · apply iff_of_false nofun
    rintro ⟨hnone, -⟩
    obtain ⟨id, hid, hboth⟩ := List.any_eq_true.mp hany
    rw [Bool.and_eq_true] at hboth
    have hfree : s.isTargeted id = false := isTargeted_eq_false.mpr fun n r hr heq => hnone n r hr (heq ▸ hid)
    rw [hfree] at hboth
    cases hboth.2
  · rw [Except.ok.injEq, eq_comm]
    constructor
    · intro hs'
      refine ⟨fun n r hr hid => hany (List.any_eq_true.mpr ⟨r.targetSoftwareID, hid, ?_⟩), hs'⟩
      rw [htitle n r hr, Bool.true_and, ← Bool.not_eq_false, isTargeted_eq_false]
      exact fun hnone => hnone n r hr rfl
    · exact fun hs' => hs'.2

theorem deleteSoftware_ok : s.deleteSoftware id = .ok s' ↔
    (s.software.row id).isSome = true ∧ s.deleteManySoftware [id] = .ok s' := by
  simp only [Store.deleteSoftware, bind_eq_ok (x := s.deleteManySoftware [id]), bind_unit_ok, require_ok,
    Except.ok.injEq]
  constructor
  · rintro ⟨deleted, hdeleted, hthere, rfl⟩
    exact ⟨hthere, hdeleted⟩
  · rintro ⟨hthere, hdeleted⟩
    exact ⟨s', hdeleted, hthere, rfl⟩

theorem isUnder_of_row {ids : List Int} (hrow : s.packages.row id = some row) :
    s.isUnder ids id = true ↔ row.softwareID ∈ ids := by
  rw [Store.isUnder, hrow, Option.any_some, List.contains_iff_mem]

theorem removed_withoutSoftware {ids : List Int}
    (hfree : ∀ n r, s.relations.row n = some r → r.targetSoftwareID ∉ ids) :
    Removed (s.isUnder ids) s (s.withoutSoftware ids) where
  packages id := by
    cases hrow : s.packages.row id with
    | none => simp [Store.withoutSoftware, eraseWhere, Store.isUnder, hrow]
    | some row =>
      by_cases hid : row.softwareID ∈ ids <;> simp [Store.withoutSoftware, eraseWhere, Store.isUnder, hrow, hid]
  relations := rfl
  titles id row hrow := by
    obtain ⟨-, hkept⟩ := row_eraseWhere.mp hrow
    rw [Store.withoutSoftware, row_eraseAll, if_neg (by simpa using hkept)]
  named n r hr := by
    rw [Store.withoutSoftware, row_eraseAll, if_neg (hfree n r (row_eraseWhere.mp hr).1)]
  needed n r target row hr _ hrow hsame := by
    rw [Bool.eq_false_iff, ne_eq, isUnder_of_row hrow, hsame]
    exact hfree n r (row_eraseWhere.mp hr).1
  pins pin hpin := by
    obtain ⟨hold, hkept⟩ := List.mem_filter.mp hpin
    refine ⟨hold, fun row hrow hsame => ?_⟩
    rw [Bool.eq_false_iff, ne_eq, isUnder_of_row hrow, hsame]
    simpa using hkept
  objects := rfl

theorem sound_deleteManySoftware (h : Sound s) {ids : List Int}
    (hok : s.deleteManySoftware ids = .ok s') : Sound s' := by
  by_cases hempty : ids = []
  · subst hempty
    cases hok
    exact h
  · obtain ⟨hfree, rfl⟩ := (deleteManySoftware_ok h hempty).mp hok
    exact sound_removed h (removed_withoutSoftware hfree)

theorem isReferenced_eq_false : s.isReferenced id = false ↔
    (∀ n r, s.relations.row n = some r → r.targetPackageID ≠ some id) ∧ ∀ pin ∈ s.pins, pin.2 ≠ id := by
  simp only [Store.isReferenced, Bool.or_eq_false_iff, List.any_eq_false, Prod.forall, mem_entries, beq_iff_eq, ne_eq]

/-- Packages are deleted exactly when nothing that stays needs them. -/
theorem deleteMany_ok {ids : List Int} (hne : ids ≠ []) : s.deleteMany ids = .ok s' ↔
    (∀ id ∈ ids, (s.packages.row id).isSome = true → (s.withoutRelations ids).isReferenced id = false) ∧
      s' = { s.withoutRelations ids with packages := eraseAll s.packages ids } := by
  have hempty : ids.isEmpty = false := by simpa using hne
  rw [Store.deleteMany, hempty, if_neg Bool.false_ne_true]
  split_ifs with hany
  · obtain ⟨id, hid, hboth⟩ := List.any_eq_true.mp hany
    rw [Bool.and_eq_true] at hboth
    apply iff_of_false nofun
    rintro ⟨hnone, -⟩
    rw [hnone id hid hboth.1] at hboth
    cases hboth.2
  · rw [Except.ok.injEq, eq_comm]
    constructor
    · intro h
      refine ⟨fun id hid hpresent => ?_, h⟩
      rw [Bool.eq_false_iff]
      intro href
      exact hany (List.any_eq_true.mpr ⟨id, hid, by rw [hpresent, href]; rfl⟩)
    · exact fun h => h.2

theorem removed_deleteMany {ids : List Int}
    (hfree : ∀ id ∈ ids, (s.packages.row id).isSome = true → (s.withoutRelations ids).isReferenced id = false) :
    Removed ids.contains s { s.withoutRelations ids with packages := eraseAll s.packages ids } where
  packages id := by
    rw [row_eraseAll]
    exact if_congr List.contains_iff_mem.symm rfl rfl
  relations := rfl
  titles _ _ _ := rfl
  named _ _ _ := rfl
  needed n r target row hr ht hrow _ := by
    rw [Bool.eq_false_iff, ne_eq, List.contains_iff_mem]
    intro hid
    exact (isReferenced_eq_false.mp (hfree target hid (Option.isSome_of_eq_some hrow))).1 n r hr ht
  pins pin hpin := by
    refine ⟨hpin, fun row hrow _ => ?_⟩
    rw [Bool.eq_false_iff, ne_eq, List.contains_iff_mem]
    intro hid
    exact (isReferenced_eq_false.mp (hfree pin.2 hid (Option.isSome_of_eq_some hrow))).2 pin hpin rfl
  objects := rfl

theorem sound_deleteMany (h : Sound s) {ids : List Int} (hok : s.deleteMany ids = .ok s') : Sound s' := by
  by_cases hempty : ids = []
  · subst hempty
    cases hok
    exact h
  · obtain ⟨hfree, rfl⟩ := (deleteMany_ok hempty).mp hok
    exact sound_removed h (removed_deleteMany hfree)

/-- The packages and the relations are what they were, and titles and installers at least. -/
structure Surrounds (s s' : Store) : Prop where
  packages : s'.packages = s.packages
  relations : s'.relations = s.relations
  software : ∀ id, (s.software.row id).isSome = true → (s'.software.row id).isSome = true
  usable : ∀ id row objectID, s.packages.row id = some row → row.installerObjectID = some objectID →
    Usable s objectID → Usable s' objectID
  pinned : ∀ pin ∈ s'.pins, pin ∈ s.pins ∨ ∃ row, s.packages.row pin.2 = some row ∧ row.softwareID = pin.1

theorem sound_surrounds (h : Sound s) (hs : Surrounds s s') : Sound s' := by
  constructor
  · intro id row hrow
    rw [hs.packages] at hrow
    obtain ⟨m, hw⟩ := h.written id row hrow
    refine ⟨m, hw.columns, hw.normal, hw.valid, hw.storable, fun kind => ?_⟩
    rw [hs.relations]
    exact hw.relations kind
  · intro id row hrow
    rw [hs.packages] at hrow
    exact hs.software _ (h.titled id row hrow)
  · intro id row objectID hrow hobject
    rw [hs.packages] at hrow
    exact hs.usable id row objectID hrow hobject (h.usable id row objectID hrow hobject)
  · intro id row objectID hrow hobject
    rw [hs.packages] at hrow
    rw [Free, hs.packages]
    exact h.owned id row objectID hrow hobject
  · intro a b ra rb ha hb
    rw [hs.packages] at ha hb
    exact h.versions a b ra rb ha hb
  · intro n r hr
    rw [hs.relations] at hr
    apply checkRelation_mono (h.relations n r hr) _ hs.software
    intro id row hrow
    rw [hs.packages]
    exact ⟨row, hrow, rfl⟩
  · intro pin hpin
    rw [hs.packages]
    cases hs.pinned pin hpin with
    | inl hold => exact h.pinned pin hold
    | inr hnew => exact hnew

theorem surrounds_addSoftware (s : Store) : Surrounds s { s with software := s.software.insert () } where
  packages := rfl
  relations := rfl
  software := by
    intro id hs
    obtain ⟨row, hrow⟩ := Option.isSome_iff_exists.mp hs
    exact Option.isSome_of_eq_some (row_insert_of_some hrow ())
  usable := fun _ _ _ _ _ hu => hu
  pinned := fun _ hpin => .inl hpin

theorem surrounds_addObject (s : Store) (folder : String) :
    Surrounds s { s with objects := s.objects.insert { folder := folder } } where
  packages := rfl
  relations := rfl
  software := fun _ hs => hs
  usable := by
    intro _ _ objectID _ _ ⟨object, hrow, husable⟩
    exact ⟨object, row_insert_of_some hrow _, husable⟩
  pinned := fun _ hpin => .inl hpin

theorem surrounds_finalizeObject (s : Store) (id : Int) :
    Surrounds s { s with objects := s.objects.modify id (fun object => { object with available := true }) } where
  packages := rfl
  relations := rfl
  software := fun _ hs => hs
  usable := by
    intro _ _ objectID _ _ ⟨object, hrow, hfolder, havailable⟩
    unfold Usable
    rw [Table.row_modify, hrow, Option.map_some]
    split_ifs
    · exact ⟨_, rfl, hfolder, rfl⟩
    · exact ⟨object, rfl, hfolder, havailable⟩
  pinned := fun _ hpin => .inl hpin

theorem surrounds_deleteObject (h : (entries s.packages).any (fun e => e.2.installerObjectID == some id) = false) :
    Surrounds s { s with objects := s.objects.erase id } where
  packages := rfl
  relations := rfl
  software := fun _ hs => hs
  usable := by
    intro k row objectID hpackage hobject ⟨object, hrow, husable⟩
    refine ⟨object, ?_, husable⟩
    rw [Table.row_erase, if_neg, hrow]
    rintro rfl
    have hnone := List.any_eq_false.mp h (k, row) (mem_entries.mpr hpackage)
    simp [hobject] at hnone
  pinned := fun _ hpin => .inl hpin

theorem surrounds_pin {ids : List Int}
    (h : ids.all (fun id => (s.packages.row id).any (fun row => row.softwareID == softwareID)) = true) :
    Surrounds s
      { s with pins := s.pins.filter (fun pin => pin.1 != softwareID) ++ ids.map (Prod.mk softwareID) } where
  packages := rfl
  relations := rfl
  software := fun _ hs => hs
  usable := fun _ _ _ _ _ hu => hu
  pinned := by
    intro pin hpin
    cases List.mem_append.mp hpin with
    | inl hold => exact .inl (List.mem_filter.mp hold).1
    | inr hnew =>
      obtain ⟨id, hid, rfl⟩ := List.mem_map.mp hnew
      obtain ⟨row, hrow, hsame⟩ := (Option.any_eq_true _ _).mp (List.all_eq_true.mp h id hid)
      exact .inr ⟨row, hrow, beq_iff_eq.mp hsame⟩

theorem sound_update (h : Sound s) {mutate : PackageMutation → Option PackageMutation}
    (hok : s.update id mutate = .ok s') : Sound s' := by
  obtain ⟨softwareID, current, m, hcurrent, -, hvalid, hadm, rfl⟩ := (update_ok h).mp hok
  obtain ⟨row, hrow, rfl, -⟩ := (getPackageByID_ok h).mp hcurrent
  exact sound_saved h (normalize_normalize m) hvalid (puts_modify hrow) hadm

theorem sound_serve {r : Request times} (h : Sound s) (hok : serve s r = .ok s') : Sound s' := by
  cases r with
  | create softwareID m =>
    obtain ⟨hvalid, hadm, rfl⟩ := create_ok.mp hok
    exact sound_saved h (normalize_normalize m) hvalid (puts_insert s _) hadm
  | update id m =>
    rw [serve] at hok
    exact sound_update h hok
  | patch id document =>
    rw [serve] at hok
    exact sound_update h hok
  | deleteMany ids => exact sound_deleteMany h hok
  | addSoftware =>
    cases hok
    exact sound_surrounds h (surrounds_addSoftware s)
  | deleteSoftware id => exact sound_deleteManySoftware h (deleteSoftware_ok.mp hok).2
  | deleteManySoftware ids => exact sound_deleteManySoftware h hok
  | addObject folder =>
    cases hok
    exact sound_surrounds h (surrounds_addObject s folder)
  | finalizeObject id =>
    cases hok
    exact sound_surrounds h (surrounds_finalizeObject s id)
  | deleteObject id =>
    simp only [serve] at hok
    split_ifs at hok with hused
    cases hok
    exact sound_surrounds h (surrounds_deleteObject (Bool.eq_false_iff.mpr hused))
  | pin softwareID ids =>
    simp only [serve, bind_unit_ok, require_ok] at hok
    obtain ⟨hall, hs'⟩ := hok
    cases hs'
    exact sound_surrounds h (surrounds_pin hall)

theorem sound_step (s : Store) (r : Request times) (h : Sound s) : Sound (step s r) := by
  rw [step]
  cases hok : serve s r with
  | ok s' => exact sound_serve h hok
  | error e => exact h

theorem sound_run (requests : List (Request times)) : Sound (exec step {} requests) :=
  exec_invariant sound_step requests sound_empty

end Others

/-- What is read of a package. -/
def packageAt (s : Store) (id : Int) : Option (Int × PackageMutation) := (s.getPackageByID id).toOption

theorem read_eq_some (h : Sound s) : packageAt s id = some (softwareID, m) ↔
    ∃ row, s.packages.row id = some row ∧ row.softwareID = softwareID ∧ Written s id row m := by
  rw [← getPackageByID_ok h, packageAt]
  cases s.getPackageByID id with
  | error e => exact iff_of_false nofun nofun
  | ok p => simp [Except.toOption]

theorem read_of_none (h : s.packages.row id = none) : packageAt s id = none := by
  rw [packageAt, Store.getPackageByID, h]
  rfl

/-- What is read depends on the rows of the package alone. -/
theorem read_congr (h : Sound s) (h' : Sound s') (hrow : s'.packages.row id = s.packages.row id)
    (hchildren : ∀ kind, children RelationRow.owner RelationRow.position s'.relations (id, kind) =
      children RelationRow.owner RelationRow.position s.relations (id, kind)) : packageAt s' id = packageAt s id := by
  cases hold : s.packages.row id with
  | none => rw [read_of_none hold, read_of_none (hrow.trans hold)]
  | some row =>
    obtain ⟨m, hw⟩ := h.written id row hold
    have hw' : Written s' id row m :=
      ⟨hw.columns, hw.normal, hw.valid, hw.storable, fun kind => (hchildren kind).trans (hw.relations kind)⟩
    rw [(read_eq_some h).mpr ⟨row, hold, rfl, hw⟩, (read_eq_some h').mpr ⟨row, hrow.trans hold, rfl, hw'⟩]

theorem read_saved (h : Sound s) {P : Table PackageRow} (hnormal : m.normalize = m) (hvalid : m.validate = .ok ())
    (hputs : Puts s id (newPackageWrite softwareID m) P) (hadm : Admissible s softwareID id m) :
    packageAt (saved s P id m) = Function.update (packageAt s) id (some (softwareID, m)) := by
  have hsaved := sound_saved h hnormal hvalid hputs hadm
  funext id'
  by_cases hid : id' = id
  · subst hid
    rw [Function.update_self, read_eq_some hsaved]
    exact ⟨_, hputs.here, rfl, rfl, hnormal, hvalid, hadm.storable, children_rewritten hadm.fits⟩
  · rw [Function.update_of_ne hid]
    exact read_congr h hsaved (hputs.others id' hid) (children_rewritten_of_ne hid)

theorem read_update (h : Sound s) {mutate : PackageMutation → Option PackageMutation}
    (hok : s.update id mutate = .ok s') : ∃ softwareID current m, packageAt s id = some (softwareID, current) ∧
      mutate current = some m ∧ m.normalize.validate = .ok () ∧
        packageAt s' = Function.update (packageAt s) id (some (softwareID, m.normalize)) := by
  obtain ⟨softwareID, current, m, hcurrent, hm, hvalid, hadm, rfl⟩ := (update_ok h).mp hok
  obtain ⟨row, hrow, rfl, -⟩ := (getPackageByID_ok h).mp hcurrent
  refine ⟨row.softwareID, current, m, by rw [packageAt, hcurrent]; rfl, hm, hvalid, ?_⟩
  exact read_saved h (normalize_normalize m) hvalid (puts_modify hrow) hadm

theorem read_removed {gone : Int → Bool} (h : Sound s) (hr : Removed gone s s') :
    packageAt s' = fun id => if gone id = true then none else packageAt s id := by
  funext id
  split_ifs with hgone
  · exact read_of_none (by rw [hr.packages, if_pos hgone])
  · apply read_congr h (sound_removed h hr)
    · rw [hr.packages, if_neg hgone]
    · exact hr.children (Bool.eq_false_iff.mpr hgone)

theorem read_deleteMany (h : Sound s) {ids : List Int} (hok : s.deleteMany ids = .ok s') :
    packageAt s' = fun id => if id ∈ ids then none else packageAt s id := by
  by_cases hempty : ids = []
  · subst hempty
    cases hok
    rfl
  · obtain ⟨hfree, rfl⟩ := (deleteMany_ok hempty).mp hok
    simpa only [List.contains_iff_mem] using read_removed h (removed_deleteMany hfree)

/-- A package is read with the title that its row has. -/
theorem read_isUnder (h : Sound s) (ids : List Int) (id : Int) :
    (if s.isUnder ids id = true then none else packageAt s id) = (packageAt s id).filter (fun p => p.1 ∉ ids) := by
  cases hrow : s.packages.row id with
  | none => simp [read_of_none hrow]
  | some row =>
    obtain ⟨m, hw⟩ := h.written id row hrow
    rw [(read_eq_some h).mpr ⟨row, hrow, rfl, hw⟩, if_congr (isUnder_of_row hrow) rfl rfl, Option.filter_some]
    by_cases hid : row.softwareID ∈ ids <;> simp [hid]

theorem read_deleteManySoftware (h : Sound s) {ids : List Int} (hok : s.deleteManySoftware ids = .ok s') :
    packageAt s' = fun id => (packageAt s id).filter (fun p => p.1 ∉ ids) := by
  funext id
  by_cases hempty : ids = []
  · subst hempty
    cases hok
    cases packageAt s id <;> rfl
  · obtain ⟨hfree, rfl⟩ := (deleteManySoftware_ok h hempty).mp hok
    rw [read_removed h (removed_withoutSoftware hfree)]
    exact read_isUnder h ids id

theorem read_surrounds (h : Sound s) (hs : Surrounds s s') : packageAt s' = packageAt s := by
  funext id
  apply read_congr h (sound_surrounds h hs)
  · rw [hs.packages]
  · intro kind
    rw [hs.relations]

/-- What an accepted request makes of the packages. -/
def written (next : Int) (before : Int → Option (Int × PackageMutation)) :
    Request times → Int → Option (Int × PackageMutation)
  | .create softwareID m => Function.update before next (some (softwareID, m.normalize))
  | .update id m => Function.update before id ((before id).map (fun p => (p.1, m.normalize)))
  | .patch id document =>
    Function.update before id
      ((before id).map (fun p => (p.1, ((mutation times).named document.fields p.2).normalize)))
  | .deleteMany ids => fun id => if id ∈ ids then none else before id
  | .deleteSoftware softwareID => fun id => (before id).filter (fun p => p.1 ≠ softwareID)
  | .deleteManySoftware softwareIDs => fun id => (before id).filter (fun p => p.1 ∉ softwareIDs)
  | _ => before

/-- After any requests, one that is accepted is read back: the package it writes as it was given, up
to normalization, and every other package as it was. -/
theorem packages_read_back (requests : List (Request times)) (r : Request times) (s' : Store)
    (hok : serve (exec step {} requests) r = .ok s') :
    packageAt s' = written (exec step {} requests).packages.next (packageAt (exec step {} requests)) r := by
  have h := sound_run requests
  generalize exec step {} requests = s at h hok
  cases r with
  | create softwareID m =>
    obtain ⟨hvalid, hadm, rfl⟩ := create_ok.mp hok
    exact read_saved h (normalize_normalize m) hvalid (puts_insert s _) hadm
  | update id m =>
    rw [serve] at hok
    obtain ⟨softwareID, current, m', hcurrent, hm, -, hread⟩ := read_update h hok
    obtain rfl := Option.some.inj hm
    rw [hread, written, hcurrent, Option.map_some]
  | patch id document =>
    rw [serve] at hok
    obtain ⟨softwareID, current, m', hcurrent, hm, -, hread⟩ := read_update h hok
    rw [Patch.apply_eq] at hm
    obtain rfl := Option.some.inj hm
    rw [hread, written, hcurrent, Option.map_some]
  | deleteMany ids => exact read_deleteMany h hok
  | addSoftware =>
    cases hok
    exact read_surrounds h (surrounds_addSoftware s)
  | deleteSoftware softwareID =>
    have hread := read_deleteManySoftware h (deleteSoftware_ok.mp hok).2
    simpa only [written, List.mem_singleton] using hread
  | deleteManySoftware softwareIDs => exact read_deleteManySoftware h hok
  | addObject folder =>
    cases hok
    exact read_surrounds h (surrounds_addObject s folder)
  | finalizeObject id =>
    cases hok
    exact read_surrounds h (surrounds_finalizeObject s id)
  | deleteObject id =>
    simp only [serve] at hok
    split_ifs at hok with hused
    cases hok
    exact read_surrounds h (surrounds_deleteObject (Bool.eq_false_iff.mpr hused))
  | pin softwareID ids =>
    simp only [serve, bind_unit_ok, require_ok] at hok
    obtain ⟨hall, hs'⟩ := hok
    cases hs'
    exact read_surrounds h (surrounds_pin hall)

def sampleRequests : List (Request rfc3339) :=
  [.addSoftware, .addObject ObjectPrefix, .finalizeObject 1,
    .create 1 { version := " 1.0 ", installerObjectID := some 1 },
    .create 1 { version := "2.0", installerType := "nopkg", requires := [⟨1, 1⟩] }, .deleteMany [1],
    .addSoftware, .create 2 { version := "1.0", installerType := "nopkg" }, .deleteSoftware 2, .deleteSoftware 1]

def samplePatch : Patch rfc3339 where
  fields :=
    [("notes", .scalar (.text "Second")),
      ("force_install_after_date", .scalar (.text "2026-09-01T08:00:00.1234567+02:00")),
      ("update_for", .array [.object [("software_id", .scalar (.integer 1)), ("package_id", .scalar (.integer 2))]])]
  distinct := by decide +kernel
  known := by decide +kernel
  typed := by decide +kernel

theorem packages_read_back_sample : ∃ s', serve (exec step {} sampleRequests) (.patch 1 samplePatch) = .ok s' ∧
    (packageAt s' 1).map (fun p => (p.2.version, p.2.notes, p.2.updateFor)) = some ("1.0", "Second", [⟨1, 2⟩]) ∧
    (packageAt s' 1).bind (fun p => p.2.forceInstallAfterDate.map rfc3339.format) =
      some "2026-09-01T06:00:00.123456Z" ∧
    (packageAt s' 2).map (fun p => (p.2.version, p.2.requires)) = some ("2.0", [⟨1, 1⟩]) ∧
    packageAt s' 3 = none := by
  have hsome : (serve (exec step {} sampleRequests) (.patch 1 samplePatch)).toOption.isSome = true := by
    decide +kernel
  cases hok : serve (exec step {} sampleRequests) (.patch 1 samplePatch) with
  | error e =>
    rw [hok] at hsome
    cases hsome
  | ok s' =>
    have hread := packages_read_back sampleRequests (.patch 1 samplePatch) s' hok
    exists s'
    rw [hread]
    refine ⟨rfl, ?_⟩
    decide +kernel

def Accepted (s : Store) (r : Request times) : Prop := ∃ s', serve s r = .ok s'

/-- A package that stays, or a pinned target, needs this one. -/
def Needed (s : Store) (ids : List Int) (id : Int) : Prop :=
  (∃ id' softwareID m kind ref, id' ∉ ids ∧ packageAt s id' = some (softwareID, m) ∧ ref ∈ referencesOf m kind ∧
    ref.packageID = id) ∨ ∃ pin ∈ s.pins, pin.2 = id

/-- A reference that is read is a row, -/
theorem relation_of_reference (h : Sound s) {kind : RelationKind} {ref : PackageReferenceMutation}
    (hread : packageAt s id = some (softwareID, m)) (href : ref ∈ referencesOf m kind) :
    ∃ n r, s.relations.row n = some r ∧ r.packageID = id ∧ r.targetSoftwareID = ref.softwareID ∧
      r.targetPackageID = optionalPositiveInt64 ref.packageID := by
  obtain ⟨row, -, -, hw⟩ := (read_eq_some h).mp hread
  obtain ⟨i, hi⟩ := List.mem_iff_getElem?.mp href
  have hmem := getElem_relationRows id kind hi
  rw [← hw.relations kind] at hmem
  obtain ⟨-, n, hn⟩ := mem_children.mp hmem
  exact ⟨n, _, hn, rfl, rfl, rfl⟩

/-- and a row is a reference that is read. -/
theorem reference_of_relation (h : Sound s) {n : Int} {r : RelationRow} (hr : s.relations.row n = some r) :
    ∃ softwareID m kind ref, packageAt s r.packageID = some (softwareID, m) ∧ ref ∈ referencesOf m kind ∧
      r.targetSoftwareID = ref.softwareID ∧ r.targetPackageID = optionalPositiveInt64 ref.packageID := by
  obtain ⟨row, hrow⟩ := Option.isSome_iff_exists.mp (checkRelation_ok.mp (h.relations n r hr)).2.1
  obtain ⟨m, hw⟩ := h.written r.packageID row hrow
  have hmem : r ∈ children RelationRow.owner RelationRow.position s.relations (r.packageID, r.relationKind) :=
    mem_children.mpr ⟨rfl, n, hr⟩
  rw [hw.relations] at hmem
  obtain ⟨i, ref, hi, heq⟩ := mem_relationRows.mp hmem
  exact ⟨row.softwareID, m, r.relationKind, ref, (read_eq_some h).mpr ⟨row, hrow, rfl, hw⟩,
    List.mem_of_getElem? hi, by rw [heq], by rw [heq]⟩

theorem isReferenced_iff (h : Sound s) {ids : List Int} (hrow : s.packages.row id = some row) :
    (s.withoutRelations ids).isReferenced id = true ↔ Needed s ids id := by
  have hpos := (s.packages.numbered id (Option.isSome_of_eq_some hrow)).1
  rw [← not_iff_not, Bool.not_eq_true, isReferenced_eq_false, Needed, not_or]
  apply and_congr
  · constructor
    · rintro hnone ⟨id', softwareID, m, kind, ref, hid, hread, href, hpackage⟩
      obtain ⟨n, r, hr, howner, -, htarget⟩ := relation_of_reference h hread href
      apply hnone n r (row_eraseWhere.mpr ⟨hr, by simpa [howner] using hid⟩)
      rw [htarget, hpackage, optionalPositiveInt64, if_neg (by omega)]
    · intro hnone n r hr htarget
      obtain ⟨hold, hkept⟩ := row_eraseWhere.mp hr
      obtain ⟨softwareID, m, kind, ref, hread, href, -, heq⟩ := reference_of_relation h hold
      rw [htarget, optionalPositiveInt64] at heq
      split_ifs at heq
      exact hnone ⟨r.packageID, softwareID, m, kind, ref, by simpa using hkept, hread, href,
        (Option.some.inj heq).symm⟩
  · constructor
    · rintro hnone ⟨pin, hpin, heq⟩
      exact hnone pin hpin heq
    · intro hnone pin hpin heq
      exact hnone ⟨pin, hpin, heq⟩

theorem accepted_update (h : Sound s) {mutate : PackageMutation → Option PackageMutation} :
    (∃ s', s.update id mutate = .ok s') ↔ ∃ softwareID current m, packageAt s id = some (softwareID, current) ∧
      mutate current = some m ∧ m.normalize.validate = .ok () ∧ Admissible s softwareID id m.normalize := by
  have hread : ∀ softwareID current, packageAt s id = some (softwareID, current) ↔
      s.getPackageByID id = .ok (softwareID, current) := by
    intro softwareID current
    rw [read_eq_some h, getPackageByID_ok h]
  simp only [update_ok h, hread]
  constructor
  · rintro ⟨s', softwareID, current, m, hcurrent, hm, hvalid, hadm, -⟩
    exact ⟨softwareID, current, m, hcurrent, hm, hvalid, hadm⟩
  · rintro ⟨softwareID, current, m, hcurrent, hm, hvalid, hadm⟩
    exact ⟨_, softwareID, current, m, hcurrent, hm, hvalid, hadm, rfl⟩

theorem accepted_deleteMany (h : Sound s) {ids : List Int} : (∃ s', s.deleteMany ids = .ok s') ↔
    ∀ id ∈ ids, (packageAt s id).isSome = true → ¬ Needed s ids id := by
  have hpresent : ∀ id, (packageAt s id).isSome = true ↔ (s.packages.row id).isSome = true := by
    intro id
    cases hrow : s.packages.row id with
    | none => simp [read_of_none hrow]
    | some row =>
      obtain ⟨m, hw⟩ := h.written id row hrow
      rw [(read_eq_some h).mpr ⟨row, hrow, rfl, hw⟩]
      rfl
  by_cases hempty : ids = []
  · subst hempty
    exact iff_of_true ⟨s, rfl⟩ nofun
  · simp only [deleteMany_ok hempty, exists_and_left, exists_eq, and_true, hpresent]
    refine forall_congr' fun id => forall_congr' fun _ => forall_congr' fun hsome => ?_
    obtain ⟨row, hrow⟩ := Option.isSome_iff_exists.mp hsome
    rw [← isReferenced_iff h hrow, Bool.not_eq_true]

/-- A package refers to one of the titles. -/
def Named (s : Store) (softwareIDs : List Int) : Prop :=
  ∃ id softwareID m kind ref, packageAt s id = some (softwareID, m) ∧ ref ∈ referencesOf m kind ∧
    ref.softwareID ∈ softwareIDs

theorem named_iff (h : Sound s) {softwareIDs : List Int} :
    Named s softwareIDs ↔ ∃ n r, s.relations.row n = some r ∧ r.targetSoftwareID ∈ softwareIDs := by
  constructor
  · rintro ⟨id, softwareID, m, kind, ref, hread, href, hid⟩
    obtain ⟨n, r, hr, -, htitle, -⟩ := relation_of_reference h hread href
    exact ⟨n, r, hr, htitle ▸ hid⟩
  · rintro ⟨n, r, hr, hid⟩
    obtain ⟨softwareID, m, kind, ref, hread, href, htitle, -⟩ := reference_of_relation h hr
    exact ⟨r.packageID, softwareID, m, kind, ref, hread, href, htitle ▸ hid⟩

theorem accepted_deleteManySoftware (h : Sound s) {softwareIDs : List Int} :
    (∃ s', s.deleteManySoftware softwareIDs = .ok s') ↔ ¬ Named s softwareIDs := by
  rw [named_iff h]
  by_cases hempty : softwareIDs = []
  · subst hempty
    apply iff_of_true ⟨s, rfl⟩
    rintro ⟨n, r, -, hid⟩
    cases hid
  · simp only [deleteManySoftware_ok h hempty, exists_and_left, exists_eq, and_true, not_exists, not_and]

/-- After any requests: a package is created, put or patched exactly when what is to be stored is
valid and the rows around it admit it, packages are deleted exactly when nothing that stays needs
one of them, and titles exactly when no package refers to one of them. No CHECK of the database
turns a valid package away. -/
theorem packages_accepted (requests : List (Request times)) :
    let s := exec step {} requests
    (∀ softwareID m, Accepted s (.create softwareID m : Request times) ↔
      m.normalize.validate = .ok () ∧ Admissible s softwareID s.packages.next m.normalize) ∧
    (∀ id m, Accepted s (.update id m : Request times) ↔ ∃ softwareID current,
      packageAt s id = some (softwareID, current) ∧ m.normalize.validate = .ok () ∧
        Admissible s softwareID id m.normalize) ∧
    (∀ id (document : Patch times), Accepted s (.patch id document) ↔ ∃ softwareID current,
      packageAt s id = some (softwareID, current) ∧
        ((mutation times).named document.fields current).normalize.validate = .ok () ∧
        Admissible s softwareID id ((mutation times).named document.fields current).normalize) ∧
    (∀ ids, Accepted s (.deleteMany ids : Request times) ↔
      ∀ id ∈ ids, (packageAt s id).isSome = true → ¬ Needed s ids id) ∧
    (∀ softwareID, Accepted s (.deleteSoftware softwareID : Request times) ↔
      (s.software.row softwareID).isSome = true ∧ ¬ Named s [softwareID]) ∧
    ∀ softwareIDs, Accepted s (.deleteManySoftware softwareIDs : Request times) ↔ ¬ Named s softwareIDs := by
  have h := sound_run requests
  generalize exec step {} requests = s at h
  refine ⟨fun softwareID m => ?_, fun id m => ?_, fun id document => ?_, fun ids => ?_, fun softwareID => ?_,
    fun softwareIDs => ?_⟩
  · simp only [Accepted, serve, create_ok, exists_and_left, exists_eq, and_true]
  · simp only [Accepted, serve, accepted_update h, Option.some.injEq, exists_and_left, exists_eq_left']
  · simp only [Accepted, serve, accepted_update h, Patch.apply_eq, Option.some.injEq, exists_and_left, exists_eq_left']
  · exact accepted_deleteMany h
  · simp only [Accepted, serve, deleteSoftware_ok, exists_and_left, accepted_deleteManySoftware h]
  · exact accepted_deleteManySoftware h

/-- The packages as their readers see them. -/
structure Consistent (s : Store) : Prop where
  readable : ∀ id, (s.packages.row id).isSome = true → (packageAt s id).isSome = true
  valid : ∀ id softwareID m, packageAt s id = some (softwareID, m) →
    m.normalize = m ∧ m.validate = .ok () ∧ (s.software.row softwareID).isSome = true
  resolved : ∀ id softwareID m, packageAt s id = some (softwareID, m) → ∀ kind, ∀ ref ∈ referencesOf m kind,
    (s.software.row ref.softwareID).isSome = true ∧
      (ref.packageID ≠ 0 → ∃ target, packageAt s ref.packageID = some (ref.softwareID, target))
  installers : ∀ id softwareID m objectID, packageAt s id = some (softwareID, m) → m.installerObjectID = some objectID →
    Usable s objectID ∧ ∀ id' softwareID' m', packageAt s id' = some (softwareID', m') →
      m'.installerObjectID = some objectID → id' = id
  versions : ∀ id id' softwareID m m', packageAt s id = some (softwareID, m) → packageAt s id' = some (softwareID, m') →
    m.version = m'.version → id = id'
  pinned : ∀ pin ∈ s.pins, ∃ m, packageAt s pin.2 = some (pin.1, m)

theorem consistent_of_sound (h : Sound s) : Consistent s := by
  have hcolumn : ∀ {id softwareID m}, packageAt s id = some (softwareID, m) →
      s.packages.row id = some (newPackageWrite softwareID m) := by
    intro id softwareID m hread
    obtain ⟨row, hrow, rfl, hw⟩ := (read_eq_some h).mp hread
    rw [hrow]
    exact congrArg some hw.columns
  have hreads : ∀ {id row}, s.packages.row id = some row → ∃ m, packageAt s id = some (row.softwareID, m) := by
    intro id row hrow
    obtain ⟨m, hw⟩ := h.written id row hrow
    exact ⟨m, (read_eq_some h).mpr ⟨row, hrow, rfl, hw⟩⟩
  constructor
  · intro id hpresent
    obtain ⟨row, hrow⟩ := Option.isSome_iff_exists.mp hpresent
    obtain ⟨m, hread⟩ := hreads hrow
    exact Option.isSome_of_eq_some hread
  · intro id softwareID m hread
    obtain ⟨row, hrow, rfl, hw⟩ := (read_eq_some h).mp hread
    exact ⟨hw.normal, hw.valid, h.titled id row hrow⟩
  · intro id softwareID m hread kind ref href
    obtain ⟨row, -, -, hw⟩ := (read_eq_some h).mp hread
    obtain ⟨n, r, hr, -, hsoftware, hpackage⟩ := relation_of_reference h hread href
    obtain ⟨-, -, htitle, htarget⟩ := checkRelation_ok.mp (h.relations n r hr)
    rw [hsoftware] at htitle htarget
    refine ⟨htitle, fun hne => ?_⟩
    have hnonneg := (references_nonneg hw.valid kind ref href).2
    obtain ⟨target, htrow, hsame⟩ := htarget ref.packageID (by rw [hpackage, optionalPositiveInt64, if_neg (by omega)])
    obtain ⟨m', hread'⟩ := hreads htrow
    rw [hsame] at hread'
    exact ⟨m', hread'⟩
  · intro id softwareID m objectID hread hobject
    have hrow := hcolumn hread
    refine ⟨h.usable id _ objectID hrow hobject, fun id' softwareID' m' hread' hobject' => ?_⟩
    by_contra hne
    exact h.owned id _ objectID hrow hobject id' _ (hcolumn hread') hne hobject'
  · intro id id' softwareID m m' hread hread' hversion
    exact h.versions id id' _ _ (hcolumn hread) (hcolumn hread') rfl hversion
  · intro pin hpin
    obtain ⟨row, hrow, hsame⟩ := h.pinned pin hpin
    rw [← hsame]
    exact hreads hrow

/-- After any requests, what the packages, their titles, their references, their installers and the
pins of the targets say of each other is true. -/
theorem packages_consistent (requests : List (Request times)) : Consistent (exec step {} requests) :=
  consistent_of_sound (sound_run requests)

end PackageHistories
