import Mathlib.Data.List.Sort
import Woodstar.ReferenceNames
import Woodstar.SerialRows
import Woodstar.SoftwareTitles

/-!
# Edits of software titles at the same time

The transactions of `internal/munki/software/store.go` on a title and its target rows. Each
one locks the row of the title before it reads it. What the tables of labels, packages and
objects refuse is a rollback, like any other end without a commit.
-/
namespace TitlePatches

open MergePatches
open Primitives (Fault isText trimSpace)
open Targeting (Direction LabelRef)
open SoftwareTitles
open SerialRows
open Runs

structure Title where
  name : String
  displayName : Option String := none
  description : String := ""
  category : String := ""
  developer : String := ""
  iconObjectID : Option Int := none
  deriving DecidableEq, Repr

structure TargetRow where
  direction : Direction
  position : Nat
  labelID : Int
  actions : Option (List Action) := none
  packageSelection : Option PackageStrategy := none
  pinnedPackageID : Option Int := none
  deriving DecidableEq, Repr

/-- The row of a title with its target rows, in any order. -/
structure Stored where
  title : Title
  targets : List TargetRow := []
  deriving DecidableEq, Repr

/-- `postgres.NullString`. -/
def nullString (value : String) : Option String := if value = "" then none else some value

/-- The NULLIF of the insertion. -/
def nullActions (actions : List Action) : Option (List Action) := if actions = [] then none else some actions

def includeRow (position : Nat) (row : Include) : TargetRow where
  direction := .included
  position := position
  labelID := row.labelID
  actions := nullActions row.actions
  packageSelection := some row.package.strategy
  pinnedPackageID := row.package.packageID

def excludeRow (position : Nat) (ref : LabelRef) : TargetRow where
  direction := .excluded
  position := position
  labelID := ref.labelID

def targetRows (targets : Targets) : List TargetRow :=
  targets.includes.mapIdx includeRow ++ targets.excludes.mapIdx excludeRow

/-- `ORDER BY direction, position`. -/
def TargetRow.before (a b : TargetRow) : Bool :=
  match a.direction, b.direction with
  | .included, .excluded => true
  | .excluded, .included => false
  | _, _ => decide (a.position ≤ b.position)

/-- A row of `targetsForSoftware`. -/
def readRow (targets : Targets) (row : TargetRow) : Targets :=
  match row.direction, row.packageSelection with
  | .included, some strategy =>
    { targets with includes := targets.includes ++
        [⟨row.labelID, ⟨strategy, row.pinnedPackageID⟩, row.actions.getD []⟩] }
  | .included, none => targets
  | .excluded, _ => { targets with excludes := targets.excludes ++ [⟨row.labelID⟩] }

def targetsForSoftware (rows : List TargetRow) : Targets :=
  (rows.insertionSort (fun a b => TargetRow.before a b = true)).foldl readRow {}

/-- `Software.Mutation` of what is stored. -/
def Stored.mutation (s : Stored) : UpdateMutation where
  displayName := s.title.displayName.getD ""
  description := s.title.description
  category := s.title.category
  developer := s.title.developer
  iconObjectID := s.title.iconObjectID
  targets := targetsForSoftware s.targets

/-- The texts that PostgreSQL stores. -/
def storable (m : UpdateMutation) : Bool :=
  isText m.displayName && isText m.description && isText m.category && isText m.developer

def Stored.write (name : String) (m : UpdateMutation) : Stored where
  title :=
    { name := name
      displayName := nullString m.displayName
      description := m.description
      category := m.category
      developer := m.developer
      iconObjectID := m.iconObjectID }
  targets := targetRows m.targets

/-- `update` from the normalization on. -/
def save (name : String) (m : UpdateMutation) : Option Stored :=
  match (m.normalize name).validate with
  | .ok () => if storable (m.normalize name) = true then some (Stored.write name (m.normalize name)) else none
  | .error _ => none

structure CreateMutation extends UpdateMutation where
  name : String

/-- `Create`, which normalizes the name first. -/
def create (nfc : String → String) (m : CreateMutation) : Option Stored :=
  let name := ReferenceNames.normalize nfc m.name
  if ReferenceNames.validate name = none ∧ isText name = true then save name m.toUpdateMutation else none

inductive Op where
  | update (m : UpdateMutation)
  | patch (document : Document)
  | setIcon (objectID : Int)
  | delete

def effect : Op → Stored → Option (Option Stored)
  | .update m, s => (save s.title.name m).map some
  | .patch document, s => (document.apply s.mutation).bind (fun m => (save s.title.name m).map some)
  -- No object has a number below one.
  | .setIcon objectID, s =>
    if 0 < objectID then some (some { s with title := { s.title with iconObjectID := some objectID } }) else none
  | .delete, _ => some none

section Read

variable {targets : Targets}

theorem readRow_includeRow (i : Nat) (row : Include) :
    readRow targets (includeRow i row) = { targets with includes := targets.includes ++ [row] } := by
  obtain ⟨labelID, ⟨strategy, packageID⟩, actions⟩ := row
  have hactions : (nullActions actions).getD [] = actions := by
    simp only [nullActions]
    split_ifs with h
    · exact h.symm
    · rfl
  simp only [readRow, includeRow, hactions]

theorem read_includes (targets : Targets) (rows : List Include) (f : Nat → Nat) :
    (rows.mapIdx (fun i row => includeRow (f i) row)).foldl readRow targets =
      { targets with includes := targets.includes ++ rows } := by
  induction rows generalizing targets f with
  | nil => simp
  | cons row rows ih =>
    rw [List.mapIdx_cons, List.foldl_cons, readRow_includeRow, ih]
    simp

theorem read_excludes (targets : Targets) (refs : List LabelRef) (f : Nat → Nat) :
    (refs.mapIdx (fun i ref => excludeRow (f i) ref)).foldl readRow targets =
      { targets with excludes := targets.excludes ++ refs } := by
  induction refs generalizing targets f with
  | nil => simp
  | cons ref refs ih =>
    rw [List.mapIdx_cons, List.foldl_cons, ih]
    simp [readRow, excludeRow]

theorem sorted_mapIdx {α : Type} (make : Nat → α → TargetRow) (d : Direction)
    (hdirection : ∀ i a, (make i a).direction = d) (hposition : ∀ i a, (make i a).position = i)
    (as : List α) (f : Nat → Nat) (hf : ∀ i j, i < j → f i ≤ f j) :
    (as.mapIdx (fun i a => make (f i) a)).Pairwise (fun a b => TargetRow.before a b = true) := by
  induction as generalizing f with
  | nil => exact List.Pairwise.nil
  | cons a as ih =>
    rw [List.mapIdx_cons, List.pairwise_cons]
    constructor
    · intro row hrow
      obtain ⟨i, hi, rfl⟩ := List.mem_mapIdx.mp hrow
      simp only [TargetRow.before, hdirection, hposition]
      have := hf 0 (i + 1) (by omega)
      cases d <;> simp [this]
    · apply ih (fun i => f (i + 1))
      intro i j hij
      exact hf _ _ (by omega)

/-- Targets are read as they were written, in their order. -/
theorem targets_read (targets : Targets) : targetsForSoftware (targetRows targets) = targets := by
  have hincludes := sorted_mapIdx includeRow .included (fun _ _ => rfl) (fun _ _ => rfl) targets.includes id
    (fun _ _ h => Nat.le_of_lt h)
  have hexcludes := sorted_mapIdx excludeRow .excluded (fun _ _ => rfl) (fun _ _ => rfl) targets.excludes id
    (fun _ _ h => Nat.le_of_lt h)
  have hsorted : (targetRows targets).Pairwise (fun a b => TargetRow.before a b = true) := by
    rw [targetRows, List.pairwise_append]
    refine ⟨hincludes, hexcludes, fun a ha b hb => ?_⟩
    obtain ⟨i, hi, rfl⟩ := List.mem_mapIdx.mp ha
    obtain ⟨j, hj, rfl⟩ := List.mem_mapIdx.mp hb
    rfl
  have hfirst := read_includes {} targets.includes id
  have hsecond := read_excludes { includes := [] ++ targets.includes } targets.excludes id
  simp only [id_eq] at hfirst hsecond
  rw [targetsForSoftware, hsorted.insertionSort_eq, targetRows, List.foldl_append, hfirst, hsecond]
  rfl

theorem mutation_write (name : String) (m : UpdateMutation) : (Stored.write name m).mutation = m := by
  have hdisplay : (nullString m.displayName).getD "" = m.displayName := by
    simp only [nullString]
    split_ifs with h
    · exact h.symm
    · rfl
  simp only [Stored.mutation, Stored.write, targets_read, hdisplay]

end Read

inductive Field where
  | displayName
  | description
  | category
  | developer
  | icon
  | includes
  | excludes
  deriving DecidableEq, Repr

inductive Cell where
  | text (value : String)
  | object (id : Option Int)
  | includes (rows : List Include)
  | excludes (refs : List LabelRef)
  deriving DecidableEq, Repr

def cellOf (m : UpdateMutation) : Field → Cell
  | .displayName => .text m.displayName
  | .description => .text m.description
  | .category => .text m.category
  | .developer => .text m.developer
  | .icon => .object m.iconObjectID
  | .includes => .includes m.targets.includes
  | .excludes => .excludes m.targets.excludes

/-- The value that a document has for a field. -/
def named (document : Document) : Field → Option Json
  | .displayName => valueAt document.value.fields "display_name"
  | .description => valueAt document.value.fields "description"
  | .category => valueAt document.value.fields "category"
  | .developer => valueAt document.value.fields "developer"
  | .icon => valueAt document.value.fields "icon_object_id"
  | .includes => (valueAt document.value.fields "targets").bind (fun value => valueAt value.fields "include")
  | .excludes => (valueAt document.value.fields "targets").bind (fun value => valueAt value.fields "exclude")

/-- What an operation sets a field of the title `name` to, whatever is stored: a patch what the
document has for it, as it is after the normalization. -/
def sets (name : String) (field : Field) : Op → Option Cell
  | .update m => some (cellOf (m.normalize name) field)
  | .patch document =>
    if (named document field).isSome = true then
      some (cellOf ((document.patched {}).normalize name) field)
    else none
  | .setIcon objectID => if field = .icon then some (.object (some objectID)) else none
  | .delete => none

section Fields

variable {name : String} {m : UpdateMutation} {s : Stored}

/-- A title as the operations leave it. -/
structure Canonical (name : String) (s : Stored) : Prop where
  called : s.title.name = name
  normal : s.mutation.normalize name = s.mutation

theorem normalize_normalize (m : UpdateMutation) (name : String) :
    (m.normalize name).normalize name = m.normalize name := by
  have hempty : trimSpace "" = "" := by decide
  simp only [UpdateMutation.normalize, TextPieces.trimSpace_trimSpace]
  by_cases h : trimSpace m.displayName = name
  · simp [h, hempty]
  · simp [h, TextPieces.trimSpace_trimSpace]

theorem save_eq_some : save name m = some s ↔ (m.normalize name).validate = .ok () ∧
    storable (m.normalize name) = true ∧ s = Stored.write name (m.normalize name) := by
  simp only [save]
  cases (m.normalize name).validate with
  | error fault => simp
  | ok u =>
    simp only [true_and]
    split_ifs with hstorable
    · simp only [hstorable, true_and, Option.some.injEq]
      exact eq_comm
    · simp [hstorable]

theorem save_some (h : save name m = some s) : s = Stored.write name (m.normalize name) :=
  (save_eq_some.mp h).2.2

theorem canonical_save (h : save name m = some s) : Canonical name s ∧ s.mutation = m.normalize name := by
  rw [save_some h, mutation_write]
  constructor
  · constructor
    · rfl
    · rw [mutation_write, normalize_normalize]
  · rfl

theorem canonical_create {nfc : String → String} {c : CreateMutation} (h : create nfc c = some s) :
    Canonical (ReferenceNames.normalize nfc c.name) s := by
  simp only [create] at h
  split_ifs at h
  exact (canonical_save h).1

/-- Icons are not normalized. -/
theorem canonical_setIcon (h : Canonical name s) (objectID : Int) :
    Canonical name { s with title := { s.title with iconObjectID := some objectID } } := by
  have hnormal := h.normal
  constructor
  · exact h.called
  · simp only [UpdateMutation.normalize, Stored.mutation, UpdateMutation.mk.injEq] at hnormal ⊢
    exact ⟨hnormal.1, hnormal.2.1, hnormal.2.2.1, hnormal.2.2.2.1, trivial, trivial⟩

theorem cell_setIcon (s : Stored) (objectID : Int) (field : Field) :
    cellOf (Stored.mutation { s with title := { s.title with iconObjectID := some objectID } }) field =
      (sets name field (.setIcon objectID)).getD (cellOf s.mutation field) := by
  cases field <;> rfl

/-- The normalization goes field by field. -/
theorem cell_normalize {m m' : UpdateMutation} {field : Field} (h : cellOf m field = cellOf m' field) :
    cellOf (m.normalize name) field = cellOf (m'.normalize name) field := by
  cases field with
  | displayName =>
    have hsame : m.displayName = m'.displayName := Cell.text.inj h
    simp only [cellOf, UpdateMutation.normalize, hsame]
  | description =>
    have hsame : m.description = m'.description := Cell.text.inj h
    simp only [cellOf, UpdateMutation.normalize, hsame]
  | category =>
    have hsame : m.category = m'.category := Cell.text.inj h
    simp only [cellOf, UpdateMutation.normalize, hsame]
  | developer =>
    have hsame : m.developer = m'.developer := Cell.text.inj h
    simp only [cellOf, UpdateMutation.normalize, hsame]
  | icon =>
    have hsame : m.iconObjectID = m'.iconObjectID := Cell.object.inj h
    simp only [cellOf, UpdateMutation.normalize, hsame]
  | includes =>
    have hsame : m.targets.includes = m'.targets.includes := Cell.includes.inj h
    simp only [cellOf, UpdateMutation.normalize, hsame]
  | excludes =>
    have hsame : m.targets.excludes = m'.targets.excludes := Cell.excludes.inj h
    simp only [cellOf, UpdateMutation.normalize, hsame]

theorem namedText_if (value : Option Json) (current : String) :
    namedText value current = if value.isSome = true then namedText value "" else current := by
  cases value <;> rfl

theorem namedPointer_if (value : Option Json) (current : Option Int) :
    namedPointer value current = if value.isSome = true then namedPointer value none else current := by
  cases value <;> rfl

/-- The arrays of the targets that a document names. -/
theorem namedTargets_if (value : Option Json) (current : Targets) :
    (namedTargets value current).includes =
        (if (value.bind (fun value => valueAt value.fields "include")).isSome = true then
          (namedTargets value {}).includes
        else current.includes) ∧
      (namedTargets value current).excludes =
        (if (value.bind (fun value => valueAt value.fields "exclude")).isSome = true then
          (namedTargets value {}).excludes
        else current.excludes) := by
  have harray : ∀ {α : Type} (decode : Json → Option α) (value : Option Json) (current : List α),
      namedArray decode value current = if value.isSome = true then namedArray decode value [] else current := by
    intro α decode value current
    cases value <;> rfl
  cases value with
  | none => exact ⟨rfl, rfl⟩
  | some value =>
    cases value with
    | object fields => exact ⟨harray decodeInclude _ _, harray decodeLabelRef _ _⟩
    | null => exact ⟨rfl, rfl⟩
    | scalar scalar => exact ⟨rfl, rfl⟩
    | array items => exact ⟨rfl, rfl⟩

/-- A field that a document names does not depend on what is stored, and another one is that. -/
theorem cell_patched (document : Document) (m : UpdateMutation) (field : Field) :
    cellOf (document.patched m) field =
      if (named document field).isSome = true then cellOf (document.patched {}) field else cellOf m field := by
  cases field with
  | displayName =>
    have h := namedText_if (valueAt document.value.fields "display_name") m.displayName
    exact (congrArg Cell.text h).trans (apply_ite Cell.text _ _ _)
  | description =>
    have h := namedText_if (valueAt document.value.fields "description") m.description
    exact (congrArg Cell.text h).trans (apply_ite Cell.text _ _ _)
  | category =>
    have h := namedText_if (valueAt document.value.fields "category") m.category
    exact (congrArg Cell.text h).trans (apply_ite Cell.text _ _ _)
  | developer =>
    have h := namedText_if (valueAt document.value.fields "developer") m.developer
    exact (congrArg Cell.text h).trans (apply_ite Cell.text _ _ _)
  | icon =>
    have h := namedPointer_if (valueAt document.value.fields "icon_object_id") m.iconObjectID
    exact (congrArg Cell.object h).trans (apply_ite Cell.object _ _ _)
  | includes =>
    have h := (namedTargets_if (valueAt document.value.fields "targets") m.targets).1
    exact (congrArg Cell.includes h).trans (apply_ite Cell.includes _ _ _)
  | excludes =>
    have h := (namedTargets_if (valueAt document.value.fields "targets") m.targets).2
    exact (congrArg Cell.excludes h).trans (apply_ite Cell.excludes _ _ _)

/-- What a committed operation leaves of a canonical title. -/
theorem effect_cells {op : Op} {written : Stored} (h : Canonical name s)
    (heffect : effect op s = some (some written)) :
    Canonical name written ∧ ∀ field,
      cellOf written.mutation field = (sets name field op).getD (cellOf s.mutation field) := by
  cases op with
  | update m =>
    obtain ⟨saved, hsaved, heq⟩ := Option.map_eq_some_iff.mp heffect
    obtain rfl := Option.some.inj heq
    rw [h.called] at hsaved
    obtain ⟨hcanonical, hmutation⟩ := canonical_save hsaved
    constructor
    · exact hcanonical
    · intro field
      rw [hmutation]
      rfl
  | patch document =>
    rw [effect, apply_eq, Option.bind_some] at heffect
    obtain ⟨saved, hsaved, heq⟩ := Option.map_eq_some_iff.mp heffect
    obtain rfl := Option.some.inj heq
    rw [h.called] at hsaved
    obtain ⟨hcanonical, hmutation⟩ := canonical_save hsaved
    constructor
    · exact hcanonical
    · intro field
      have hcell := cell_patched document s.mutation field
      rw [hmutation]
      simp only [sets]
      split_ifs with hnamed
      · rw [if_pos hnamed] at hcell
        exact cell_normalize hcell
      · rw [if_neg hnamed] at hcell
        rw [cell_normalize hcell, h.normal]
        rfl
  | setIcon objectID =>
    simp only [effect] at heffect
    split_ifs at heffect
    obtain rfl := Option.some.inj (Option.some.inj heffect)
    exact ⟨canonical_setIcon h objectID, cell_setIcon s objectID⟩
  | delete => cases heffect

end Fields

/-- Titles that `Create` made, each under a number of its own. -/
def Created (nfc : String → String) (titles : Int → Option Stored) : Prop :=
  ∀ id s, titles id = some s → ∃ m, create nfc m = some s

/-- A title keeps its name. -/
theorem names_of (titles : Int → Option Stored) :
    ∃ name : Int → String, ∀ id s, titles id = some s → name id = s.title.name := by
  exists fun id => ((titles id).map (fun s => s.title.name)).getD ""
  intro id s h
  simp only [h, Option.map_some, Option.getD_some]

/-- Whatever updates, patches, new icons and deletions of titles run at the same time, and however
many of them are rolled back: what is stored for a title that is still there is, field by field,
what the last committed operation that named the field gave it, or what it was created with. -/
theorem patches_survive (nfc : String → String) (titles : Int → Option Stored) (hcreated : Created nfc titles)
    (events : List (Event Int Op)) :
    let w := exec (step effect) { rows := titles } events
    ∀ id s, w.rows id = some s → ∃ first, titles id = some first ∧ s.title.name = first.title.name ∧
      s.mutation.normalize s.title.name = s.mutation ∧
      ∀ field, cellOf s.mutation field =
        (ofKey id w.committed).foldl (fun cell op => (sets first.title.name field op).getD cell)
          (cellOf first.mutation field) := by
  intro w id s hrow
  obtain ⟨name, hname⟩ := names_of titles
  have hstart : ∀ id s, titles id = some s → Canonical (name id) s := by
    intro id s h
    obtain ⟨m, hm⟩ := hcreated id s h
    have hcanonical := canonical_create hm
    have hcalled := hcanonical.called
    rw [hname id s h, hcalled]
    exact hcanonical
  have hkeeps : ∀ field k op row written, Canonical (name k) row → effect op row = some (some written) →
      Canonical (name k) written ∧
        cellOf written.mutation field = (sets (name k) field op).getD (cellOf row.mutation field) := by
    intro field k op row written hcanonical heffect
    obtain ⟨hwritten, hcells⟩ := effect_cells hcanonical heffect
    exact ⟨hwritten, hcells field⟩
  have hcell := fun field => replay_cell (fun s => cellOf s.mutation field) (fun id => sets (name id) field)
    (hkeeps field) w.committed hstart (rows_replayed effect titles events) hrow
  obtain ⟨hcanonical, first, hfirst, -⟩ := hcell .icon
  have hcalled := hname id first hfirst
  refine ⟨first, hfirst, ?_, ?_, fun field => ?_⟩
  · rw [hcanonical.called, hcalled]
  · rw [hcanonical.called]
    exact hcanonical.normal
  · obtain ⟨-, first', hfirst', hfold⟩ := hcell field
    have hsame : some first = some first' := hfirst.symm.trans hfirst'
    obtain rfl := Option.some.inj hsame
    rw [hfold, hcalled]

/-- `\x7b"category": "Tools", "targets": \x7b"exclude": []\x7d\x7d`. -/
def samplePatch : Document where
  value := .object [("category", .scalar (.text " Tools ")), ("targets", .object [("exclude", .array [])])]
  distinct := by decide
  known := by decide
  typed := by decide

def sampleCreate : CreateMutation where
  name := "Editor"
  description := "Edits"
  targets := ⟨[⟨1, ⟨.latest, none⟩, [.managedInstalls]⟩], [⟨2⟩]⟩

def sampleTitles : Int → Option Stored := fun k => if k = 1 then create id sampleCreate else none

theorem sampleTitles_created : Created id sampleTitles := by
  intro k s h
  simp only [sampleTitles] at h
  split_ifs at h
  exact ⟨sampleCreate, h⟩

/-- The second transaction waits for the lock of the first. -/
def sampleRun : List (Event Int Op) :=
  [.begin 1 (.patch samplePatch), .begin 1 (.setIcon 7), .lock 1, .lock 2, .read 1, .commit 1, .lock 2,
    .read 2, .commit 2]

theorem patches_survive_sample :
    ∃ s, (exec (step effect) { rows := sampleTitles } sampleRun).rows 1 = some s ∧
      cellOf s.mutation .category = .text "Tools" ∧ cellOf s.mutation .description = .text "Edits" := by
  obtain ⟨s, hrow⟩ : ∃ s, (exec (step effect) { rows := sampleTitles } sampleRun).rows 1 = some s :=
    Option.isSome_iff_exists.mp (by decide +kernel)
  obtain ⟨first, hfirst, -, -, hcells⟩ := patches_survive id sampleTitles sampleTitles_created sampleRun 1 s hrow
  have hsample : sampleTitles 1 = some (Stored.write "Editor" sampleCreate.toUpdateMutation) := by
    decide +kernel
  obtain rfl := Option.some.inj (hfirst.symm.trans hsample)
  exists s
  rw [hcells .category, hcells .description]
  constructor
  · exact hrow
  · decide +kernel

section SentBack

variable {name : String} {m : UpdateMutation} {s : Stored}

theorem valuesDistinct_append (fields others : Fields Scalar) :
    valuesDistinct (fields ++ others) = (valuesDistinct fields && valuesDistinct others) := by
  induction fields with
  | nil => rfl
  | cons field fields ih => rw [List.cons_append, valuesDistinct, valuesDistinct, ih, Bool.and_assoc]

theorem checkProperties_append (c : Contract) (fields others : Fields Scalar) :
    checkProperties c (fields ++ others) = (checkProperties c fields && checkProperties c others) := by
  induction fields with
  | nil => rfl
  | cons field fields ih => rw [List.cons_append, checkProperties, checkProperties, ih, Bool.and_assoc]

theorem areDistinct_map {α : Type} {f : α → Json} (as : List α) (h : ∀ a, (f a).isDistinct = true) :
    areDistinct (as.map f) = true := by
  induction as with
  | nil => rfl
  | cons a as ih => rw [List.map_cons, areDistinct, h, ih, Bool.and_self]

theorem checkItems_map {α : Type} {c : Contract} {f : α → Json} (as : List α)
    (h : ∀ a, checkFields c (f a) = true) : checkItems c (as.map f) = true := by
  induction as with
  | nil => rfl
  | cons a as ih => rw [List.map_cons, checkItems, h, ih, Bool.and_self]

theorem include_distinct (row : Include) : (encodeInclude row).isDistinct = true := by
  have hactions := areDistinct_map (f := fun action : Action => .scalar (.text action.text)) row.actions (fun _ => rfl)
  obtain ⟨labelID, ⟨strategy, packageID⟩, actions⟩ := row
  cases packageID <;>
    simp [encodeInclude, encodeSelector, encodeInteger, Value.isDistinct, Fields.Distinct, valuesDistinct, hactions]

theorem targets_distinct (targets : Targets) : (encodeTargets targets).isDistinct = true := by
  have hincludes := areDistinct_map targets.includes include_distinct
  have hexcludes := areDistinct_map (f := encodeLabelRef) targets.excludes (fun _ => rfl)
  simp [encodeTargets, Value.isDistinct, Fields.Distinct, valuesDistinct, hincludes, hexcludes]

theorem text_distinct (key value : String) : valuesDistinct (encodeText key value) = true := by
  simp only [encodeText]
  split_ifs <;> rfl

theorem integer_distinct (key : String) (value : Option Int) :
    valuesDistinct (encodeInteger key value) = true := by
  cases value <;> rfl

theorem text_keys (key value : String) : ((encodeText key value).map Prod.fst).Sublist [key] := by
  simp only [encodeText]
  split_ifs
  · exact List.nil_sublist _
  · exact List.Sublist.refl _

theorem integer_keys (key : String) (value : Option Int) :
    ((encodeInteger key value).map Prod.fst).Sublist [key] := by
  cases value
  · exact List.nil_sublist _
  · exact List.Sublist.refl _

theorem encode_distinct (m : UpdateMutation) : (Value.object (encode m)).isDistinct = true := by
  have hkeys : ((encode m).map Prod.fst).Sublist
      (["display_name"] ++ ["description"] ++ ["category"] ++ ["developer"] ++ ["icon_object_id"] ++
        ["targets"]) := by
    simp only [encode, List.map_append]
    exact (((((text_keys _ _).append (text_keys _ _)).append (text_keys _ _)).append (text_keys _ _)).append
      (integer_keys _ _)).append (List.Sublist.refl _)
  have hdistinct : Fields.Distinct (encode m) := hkeys.nodup (by decide)
  rw [Value.isDistinct, Bool.and_eq_true]
  constructor
  · exact decide_eq_true hdistinct
  · simp [encode, valuesDistinct_append, text_distinct, integer_distinct, valuesDistinct, targets_distinct]

theorem text_known {key : String} (value : String) (h : contract.property key = some (.scalar true)) :
    checkProperties contract (encodeText key value) = true := by
  simp only [encodeText]
  split_ifs
  · rfl
  · simp [checkProperties, h, checkFields]

theorem integer_known {key : String} (value : Option Int) (h : contract.property key = some (.scalar true)) :
    checkProperties contract (encodeInteger key value) = true := by
  cases value
  · rfl
  · simp [encodeInteger, checkProperties, h, checkFields]

theorem include_known (row : Include) : checkFields includeContract (encodeInclude row) = true := by
  have hactions := checkItems_map (c := .scalar false) (f := fun action : Action => .scalar (.text action.text))
    row.actions (fun _ => by rw [checkFields])
  obtain ⟨labelID, ⟨strategy, packageID⟩, actions⟩ := row
  cases packageID <;>
    simp [encodeInclude, encodeSelector, encodeInteger, includeContract, checkFields, checkProperties,
      Contract.property, Contract.items, hactions]

theorem labelRef_known (ref : LabelRef) : checkFields labelRefContract (encodeLabelRef ref) = true := by
  simp [encodeLabelRef, labelRefContract, checkFields, checkProperties, Contract.property]

theorem targets_known (targets : Targets) : checkFields targetsContract (encodeTargets targets) = true := by
  have hincludes := checkItems_map targets.includes include_known
  have hexcludes := checkItems_map targets.excludes labelRef_known
  simp [encodeTargets, targetsContract, checkFields, checkProperties, Contract.property, Contract.items,
    hincludes, hexcludes]

theorem encode_known (m : UpdateMutation) : checkFields contract (.object (encode m)) = true := by
  have htargets : contract.property "targets" = some targetsContract := rfl
  have hpiece : checkProperties contract [("targets", encodeTargets m.targets)] = true := by
    simp [checkProperties, htargets, targets_known]
  rw [checkFields]
  simp only [encode, checkProperties_append, hpiece]
  rw [text_known m.displayName rfl, text_known m.description rfl, text_known m.category rfl,
    text_known m.developer rfl, integer_known m.iconObjectID rfl]
  rfl

/-- A mutation is decoded from what it is encoded as. -/
theorem decode_encode (m : UpdateMutation) : decode (.object (encode m)) = some m := by
  obtain ⟨edisplay, edescription, ecategory, edeveloper, eicon, etargets⟩ := encoded_fields m
  have htext : ∀ text : String, decodeText (if text = "" then none else some (.scalar (.text text))) = some text := by
    intro text
    exact decodeText_patched text (rfl : (decodeText none).isSome = true)
  have hicon : decodePointer (m.iconObjectID.map (fun id => .scalar (.integer id))) = some m.iconObjectID :=
    decodePointer_patched m.iconObjectID (rfl : (decodePointer none).isSome = true)
  have htargets : decodeTargets (some (encodeTargets m.targets)) = some m.targets :=
    decodeTargets_patched m.targets (rfl : (decodeTargets none).isSome = true) nofun nofun
  simp only [decode, edisplay, edescription, ecategory, edeveloper, eicon, etargets, htext, hicon, htargets]
  rfl

/-- The document of a whole mutation. -/
def documentOf (m : UpdateMutation) : Document where
  value := .object (encode m)
  distinct := encode_distinct m
  known := encode_known m
  typed := by rw [decode_encode]; rfl

/-- `{}`, the patch that names nothing. -/
def emptyDocument : Document where
  value := .object []
  distinct := by decide
  known := by decide
  typed := by decide

theorem namedArray_of_decode {α : Type} {decode : Json → Option α} {value : Option Json} {items : List α}
    (h : decodeArray decode value = some items) : namedArray decode value [] = items := by
  cases value with
  | none => exact Option.some.inj h
  | some value => rw [namedArray, h, Option.getD_some]

theorem namedTargets_of_decode {value : Option Json} {targets : Targets} (h : decodeTargets value = some targets) :
    namedTargets value {} = targets := by
  cases value with
  | none => exact Option.some.inj h
  | some value =>
    cases value with
    | null => exact Option.some.inj h
    | scalar scalar => cases h
    | array items => cases h
    | object fields =>
      simp only [decodeTargets, Option.bind_eq_bind, Option.bind_eq_some_iff] at h
      obtain ⟨includes, hincludes, excludes, hexcludes, htargets⟩ := h
      rw [← Option.some.inj htargets, namedTargets, namedArray_of_decode hincludes, namedArray_of_decode hexcludes]

/-- What is decoded of a document is what it makes of an empty mutation. -/
theorem decode_document (document : Document) : decode document.value = some (document.patched {}) := by
  have htyped := document.typed
  cases hvalue : document.value with
  | object fields =>
    rw [hvalue] at htyped
    obtain ⟨m, hm⟩ := Option.isSome_iff_exists.mp htyped
    rw [hm]
    simp only [decode, Option.bind_eq_bind, Option.bind_eq_some_iff] at hm
    obtain ⟨displayName, hdisplay, description, hdescription, category, hcategory, developer, hdeveloper, icon, hicon,
      targets, htargets, hm⟩ := hm
    have htext : ∀ {value : Option Json} {text}, decodeText value = some text → namedText value "" = text := by
      intro value text h
      cases value with
      | none => exact Option.some.inj h
      | some value => rw [namedText, h, Option.getD_some]
    have hpointer : namedPointer (valueAt fields "icon_object_id") none = icon := by
      cases hv : valueAt fields "icon_object_id" with
      | none =>
        rw [hv] at hicon
        exact Option.some.inj hicon
      | some value =>
        rw [hv] at hicon
        rw [namedPointer, hicon, Option.getD_some]
    simp only [Document.patched, hvalue, Value.fields, htext hdisplay, htext hdescription, htext hcategory,
      htext hdeveloper, hpointer, namedTargets_of_decode htargets, ← Option.some.inj hm]
  | null =>
    rw [hvalue] at htyped
    cases htyped
  | scalar value =>
    rw [hvalue] at htyped
    cases htyped
  | array items =>
    rw [hvalue] at htyped
    cases htyped

theorem ext_cells {m m' : UpdateMutation} (h : ∀ field, cellOf m field = cellOf m' field) : m = m' := by
  obtain ⟨displayName, description, category, developer, icon, ⟨includes, excludes⟩⟩ := m
  obtain ⟨displayName', description', category', developer', icon', ⟨includes', excludes'⟩⟩ := m'
  obtain rfl := Cell.text.inj (h .displayName)
  obtain rfl := Cell.text.inj (h .description)
  obtain rfl := Cell.text.inj (h .category)
  obtain rfl := Cell.text.inj (h .developer)
  obtain rfl := Cell.object.inj (h .icon)
  obtain rfl := Cell.includes.inj (h .includes)
  obtain rfl := Cell.excludes.inj (h .excludes)
  rfl

/-- Decoded, the document has what the mutation has in every field that it names. -/
def Restates (document : Document) (m : UpdateMutation) : Prop :=
  ∃ m', decode document.value = some m' ∧
    ∀ field, (named document field).isSome = true → cellOf m' field = cellOf m field

theorem documentOf_restates (m : UpdateMutation) : Restates (documentOf m) m :=
  ⟨m, decode_encode m, fun _ _ => rfl⟩

theorem patched_of_restates {document : Document} (h : Restates document m) : document.patched m = m := by
  obtain ⟨m', hdecode, hsame⟩ := h
  rw [decode_document] at hdecode
  obtain rfl := Option.some.inj hdecode
  apply ext_cells
  intro field
  rw [cell_patched]
  split_ifs with hnamed
  · exact hsame field hnamed
  · rfl

/-- A title whose rows are saved again as they are. -/
structure Kept (name : String) (s : Stored) : Prop where
  called : s.title.name = name
  saved : save name s.mutation = some s

theorem kept_save (h : save name m = some s) : Kept name s := by
  have hs := save_some h
  have hmutation := (canonical_save h).2
  constructor
  · rw [hs]
    rfl
  · rw [hmutation]
    simp only [save, normalize_normalize]
    exact h

theorem kept_setIcon (h : Kept name s) {objectID : Int} (hpos : 0 < objectID) :
    Kept name { s with title := { s.title with iconObjectID := some objectID } } := by
  have hsaved := h.saved
  obtain ⟨hvalid, hstorable, hwrite⟩ := save_eq_some.mp hsaved
  obtain ⟨_, _, htargets⟩ := Primitives.bind_eq_ok.mp hvalid
  have hmutation : Stored.mutation { s with title := { s.title with iconObjectID := some objectID } } =
      { s.mutation with iconObjectID := some objectID } := rfl
  have hnormal : ({ s.mutation with iconObjectID := some objectID } : UpdateMutation).normalize name =
      { s.mutation.normalize name with iconObjectID := some objectID } := by
    simp only [UpdateMutation.normalize]
  constructor
  · exact h.called
  · rw [hmutation, save_eq_some, hnormal]
    generalize s.mutation.normalize name = m at hstorable hwrite htargets
    constructor
    · apply Primitives.bind_eq_ok.mpr
      exact ⟨(), if_pos hpos, htargets⟩
    · constructor
      · exact hstorable
      · rw [hwrite]
        rfl

/-- An operation keeps what `save` keeps. -/
theorem effect_kept {op : Op} {written : Stored} (h : Kept name s)
    (heffect : effect op s = some (some written)) : Kept name written := by
  cases op with
  | update m =>
    obtain ⟨saved, hsaved, heq⟩ := Option.map_eq_some_iff.mp heffect
    obtain rfl := Option.some.inj heq
    rw [h.called] at hsaved
    exact kept_save hsaved
  | patch document =>
    rw [effect, apply_eq, Option.bind_some] at heffect
    obtain ⟨saved, hsaved, heq⟩ := Option.map_eq_some_iff.mp heffect
    obtain rfl := Option.some.inj heq
    rw [h.called] at hsaved
    exact kept_save hsaved
  | setIcon objectID =>
    simp only [effect] at heffect
    split_ifs at heffect with hpos
    obtain rfl := Option.some.inj (Option.some.inj heffect)
    exact kept_setIcon h hpos
  | delete => cases heffect

/-- After any transactions at the same time, a title that is sent back as it was read is stored as
it was, whether all of it is put, or a patch restates any of it, all of it or nothing. -/
theorem sent_back_unchanged (nfc : String → String) (titles : Int → Option Stored)
    (hcreated : Created nfc titles) (events : List (Event Int Op)) (id : Int) (s : Stored)
    (hrow : (exec (step effect) { rows := titles } events).rows id = some s) :
    effect (.update s.mutation) s = some (some s) ∧
      effect (.patch (documentOf s.mutation)) s = some (some s) ∧
      (∀ document, Restates document s.mutation → effect (.patch document) s = some (some s)) ∧
      effect (.patch emptyDocument) s = some (some s) := by
  obtain ⟨name, hname⟩ := names_of titles
  have hstart : ∀ id s, titles id = some s → Kept (name id) s := by
    intro id s h
    obtain ⟨m, hm⟩ := hcreated id s h
    have hcalled := (canonical_create hm).called
    rw [hname id s h, hcalled]
    simp only [create] at hm
    split_ifs at hm
    exact kept_save hm
  have hkept := (replay_cell (fun _ => ()) (fun _ _ => none)
    (fun k op row written (hP : Kept (name k) row) heffect => ⟨effect_kept hP heffect, rfl⟩)
    _ hstart (rows_replayed effect titles events) hrow).1
  have hsaved := hkept.saved
  rw [← hkept.called] at hsaved
  have hrestated : ∀ document, Restates document s.mutation → effect (.patch document) s = some (some s) := by
    intro document hdocument
    simp only [effect, apply_eq, Option.bind_some, patched_of_restates hdocument, hsaved, Option.map_some]
  refine ⟨?_, hrestated _ (documentOf_restates s.mutation), hrestated, ?_⟩
  · simp only [effect, hsaved, Option.map_some]
  · have hempty : emptyDocument.patched s.mutation = s.mutation := rfl
    simp only [effect, apply_eq, Option.bind_some, hempty, hsaved, Option.map_some]

end SentBack

theorem sent_back_unchanged_sample :
    ∃ s, (exec (step effect) { rows := sampleTitles } sampleRun).rows 1 = some s ∧
      effect (.patch (documentOf s.mutation)) s = some (some s) := by
  obtain ⟨s, hrow⟩ : ∃ s, (exec (step effect) { rows := sampleTitles } sampleRun).rows 1 = some s :=
    Option.isSome_iff_exists.mp (by decide +kernel)
  exact ⟨s, hrow, (sent_back_unchanged id sampleTitles sampleTitles_created sampleRun 1 s hrow).2.1⟩

end TitlePatches
