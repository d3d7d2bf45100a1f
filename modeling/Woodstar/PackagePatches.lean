import Woodstar.PackageHistories
import Woodstar.SerialRows

/-!
# Packages changed at the same time

`Store.update` and `Store.Patch` lock the row of a package before they read it. Whatever the
transactions do in between, every field is what the committed ones that name it make of it. What
the rows of other packages, titles and objects refuse is a rollback here.
-/
namespace PackagePatches

open KeyedRows
open MergePatches
open PackageHistories
open PackageMutations
open PackageStore
open Primitives
open RecordCodecs
open Runs
open SerialRows

variable {times : DateTexts}

/-- A package with its references. -/
structure Stored where
  softwareID : Int
  mutation : PackageMutation
  deriving DecidableEq

inductive Op (times : DateTexts) where
  | update (m : PackageMutation)
  | patch (document : Patch times)
  | delete

/-- What is stored of a mutation. -/
def save (softwareID : Int) (m : PackageMutation) : Option Stored :=
  match prepareMutation m with
  | .ok params => some ⟨softwareID, params⟩
  | .error _ => none

def effect : Op times → Stored → Option (Option Stored)
  | .update m, s => (save s.softwareID m).map some
  | .patch document, s => (document.apply s.mutation).bind (fun m => (save s.softwareID m).map some)
  | .delete, _ => some none

theorem save_eq_some {softwareID : Int} {m : PackageMutation} {s : Stored} : save softwareID m = some s ↔
    m.normalize.validate = .ok () ∧ s = ⟨softwareID, m.normalize⟩ := by
  unfold save
  cases h : prepareMutation m with
  | ok params =>
    obtain ⟨hvalid, rfl⟩ := prepareMutation_ok.mp h
    simp [hvalid, eq_comm]
  | error e =>
    apply iff_of_false nofun
    rintro ⟨hvalid, -⟩
    rw [prepareMutation_ok.mpr ⟨hvalid, rfl⟩] at h
    cases h

def request (id : Int) : Op times → Request times
  | .update m => .update id m
  | .patch document => .patch id document
  | .delete => .deleteMany [id]

def stored (s : Store) (id : Int) : Option Stored := (packageAt s id).map (fun p => ⟨p.1, p.2⟩)

theorem stored_eq_some {s : Store} {id : Int} {row : Stored} :
    stored s id = some row ↔ packageAt s id = some (row.softwareID, row.mutation) := by
  unfold stored
  cases packageAt s id with
  | none => exact iff_of_false nofun nofun
  | some p =>
    obtain ⟨softwareID, m⟩ := p
    obtain ⟨softwareID', m'⟩ := row
    simp

theorem effect_update {s s' : Store} (h : Sound s) {id : Int} {mutate : PackageMutation → Option PackageMutation}
    {row : Stored} (hrow : stored s id = some row) (hok : s.update id mutate = .ok s') :
    ∃ m, mutate row.mutation = some m ∧ (save row.softwareID m).map some = some (stored s' id) := by
  obtain ⟨softwareID, current, m, hread, hm, hvalid, hread'⟩ := read_update h hok
  rw [stored_eq_some.mp hrow] at hread
  obtain ⟨rfl, rfl⟩ := Prod.mk.inj (Option.some.inj hread)
  refine ⟨m, hm, ?_⟩
  rw [save_eq_some.mpr ⟨hvalid, rfl⟩, Option.map_some, stored, hread', Function.update_self]
  rfl

/-- An accepted request of the store has the effect of its operation on the row that it finds. -/
theorem effect_of_serve (requests : List (Request times)) (id : Int) (op : Op times) (row : Stored) (s' : Store)
    (hrow : stored (exec step {} requests) id = some row)
    (hok : serve (exec step {} requests) (request id op) = .ok s') : effect op row = some (stored s' id) := by
  have h := sound_run requests
  generalize exec step {} requests = s at h hrow hok
  cases op with
  | update m =>
    rw [request, serve] at hok
    obtain ⟨m', hm', hsave⟩ := effect_update h hrow hok
    obtain rfl := Option.some.inj hm'
    exact hsave
  | patch document =>
    rw [request, serve] at hok
    obtain ⟨m', hm', hsave⟩ := effect_update h hrow hok
    rw [effect, hm', Option.bind_some, hsave]
  | delete =>
    rw [request, serve] at hok
    rw [effect, stored, read_deleteMany h hok]
    simp

section Fields

variable {op : Op times} {row written : Stored} {m : PackageMutation}

/-- What is stored of a package is what would be stored of it again. -/
structure Kept (s : Stored) : Prop where
  normal : s.mutation.normalize = s.mutation
  valid : s.mutation.validate = .ok ()

/-- What an operation makes of a field. -/
def fieldAfter (k : Key) (op : Op times) (current : k.Kind) : k.Kind :=
  match op with
  | .update m => k.normalize (m.at k)
  | .patch document =>
    match valueAt document.fields k.name with
    | none => current
    | some v => k.normalize ((k.codec times).named v current)
  | .delete => current

theorem kept_save {softwareID : Int} (h : save softwareID m = some row) : Kept row := by
  obtain ⟨hvalid, rfl⟩ := save_eq_some.mp h
  exact ⟨normalize_normalize m, hvalid⟩

/-- What an operation that changes a package stores. -/
theorem effect_eq_some (h : effect op row = some (some written)) :
    ∃ m, save row.softwareID m = some written ∧
      ((op = .update m) ∨ ∃ document, op = .patch document ∧
        m = (mutation times).named document.fields row.mutation) := by
  cases op with
  | update m =>
    obtain ⟨saved, hsaved, heq⟩ := Option.map_eq_some_iff.mp h
    obtain rfl := Option.some.inj heq
    exact ⟨m, hsaved, .inl rfl⟩
  | patch document =>
    rw [effect, Patch.apply_eq, Option.bind_some] at h
    obtain ⟨saved, hsaved, heq⟩ := Option.map_eq_some_iff.mp h
    obtain rfl := Option.some.inj heq
    exact ⟨_, hsaved, .inr ⟨document, rfl, rfl⟩⟩
  | delete => cases h

theorem at_named (fields : Fields SoftwareTitles.Scalar) (m : PackageMutation) (k : Key) :
    ((mutation times).named fields m).at k = (mutation times).namedAt fields m k :=
  Record.get_named (R := mutation times) fields m k

theorem effect_fields (hrow : Kept row) (h : effect op row = some (some written)) :
    Kept written ∧ written.softwareID = row.softwareID ∧
      ∀ k, written.mutation.at k = fieldAfter k op (row.mutation.at k) := by
  obtain ⟨m, hsave, hop⟩ := effect_eq_some h
  have hkept := kept_save hsave
  obtain ⟨-, rfl⟩ := save_eq_some.mp hsave
  refine ⟨hkept, rfl, fun k => ?_⟩
  rw [at_normalize]
  rcases hop with rfl | ⟨document, rfl, rfl⟩
  · rfl
  · rw [at_named, fieldAfter]
    cases hv : valueAt document.fields k.name with
    | none =>
      rw [Record.namedAt_none (R := mutation times) hv]
      exact (at_normalize row.mutation k).symm.trans (congrArg (fun m => m.at k) hrow.normal)
    | some v => exact congrArg k.normalize (Record.namedAt_some (R := mutation times) hv row.mutation)

theorem kept_stored {requests : List (Request times)} {id : Int}
    (h : stored (exec step {} requests) id = some row) : Kept row := by
  have hvalid := (packages_consistent requests).valid id row.softwareID row.mutation (stored_eq_some.mp h)
  exact ⟨hvalid.1, hvalid.2.1⟩

/-- However the transactions interleave, a package stays with its title, what is stored of it is
normalized and valid, and each field is what the committed operations that name it make of it, one
after another: no operation undoes what another one did to a field that it does not name. -/
theorem package_fields_survive (requests : List (Request times)) (events : List (Event Int (Op times))) (id : Int)
    (s : Stored) :
    let start := stored (exec step {} requests)
    let w := exec (SerialRows.step effect) { rows := start } events
    w.rows id = some s →
      ∃ first, start id = some first ∧ s.softwareID = first.softwareID ∧
        s.mutation.normalize = s.mutation ∧ s.mutation.validate = .ok () ∧
        ∀ k, s.mutation.at k =
          (ofKey id w.committed).foldl (fun current op => fieldAfter k op current) (first.mutation.at k) := by
  intro start w hrow
  have hstart : ∀ id row, start id = some row → Kept row := fun id row h => kept_stored h
  have hreplayed := rows_replayed effect start events
  have hfield := fun k => replay_fold (fun s : Stored => s.mutation.at k) (fun _ op current => fieldAfter k op current)
    (fun _ op row written (hP : Kept row) (heffect : effect op row = some (some written)) =>
      ⟨(effect_fields hP heffect).1, (effect_fields hP heffect).2.2 k⟩)
    w.committed hstart hreplayed hrow
  obtain ⟨hkept, first, hfirst, htitle⟩ := replay_fold (P := fun _ row => Kept row) Stored.softwareID
    (fun _ _ c => c)
    (fun _ op row written (hP : Kept row) (heffect : effect op row = some (some written)) =>
      ⟨(effect_fields hP heffect).1, (effect_fields hP heffect).2.1⟩)
    w.committed hstart hreplayed hrow
  refine ⟨first, hfirst, ?_, hkept.normal, hkept.valid, fun k => ?_⟩
  · rw [htitle]
    induction ofKey id w.committed with
    | nil => rfl
    | cons op ops ih => exact ih
  · obtain ⟨-, first', hfirst', hfold⟩ := hfield k
    obtain rfl := Option.some.inj (hfirst.symm.trans hfirst')
    exact hfold

end Fields

def labelPatch : Patch rfc3339 where
  fields := [("custom_action_labels", .object [("install", .scalar (.text "Get"))])]
  distinct := by decide +kernel
  known := by decide +kernel
  typed := by decide +kernel

/-- The second transaction waits for the lock of the first. -/
def sampleEvents : List (Event Int (Op rfc3339)) :=
  [.begin 1 (.patch samplePatch), .begin 1 (.patch labelPatch), .lock 1, .lock 2, .read 1, .commit 1, .lock 2,
    .read 2, .commit 2]

def sampleFirst : Stored where
  softwareID := 1
  mutation :=
    { version := "1.0", installerType := "pkg", downloadOnLowData := "auto", installerObjectID := some 1 }

theorem sample_start : stored (exec step {} sampleRequests) 1 = some sampleFirst := by decide +kernel

theorem text_eq {a b : String} (h : (a == b) = true) : a = b := eq_of_beq h

theorem package_fields_survive_sample :
    ∃ s, (exec (SerialRows.step effect) { rows := stored (exec step {} sampleRequests) } sampleEvents).rows 1 = some s ∧
      s.mutation.notes = "Second" ∧ s.mutation.customActionLabels.install = "Get" := by
  obtain ⟨s, hrow⟩ : ∃ s, (exec (SerialRows.step effect) { rows := stored (exec step {} sampleRequests) }
      sampleEvents).rows 1 = some s := Option.isSome_iff_exists.mp (by decide +kernel)
  obtain ⟨first, hfirst, -, -, -, hfields⟩ := package_fields_survive sampleRequests sampleEvents 1 s hrow
  obtain rfl := Option.some.inj (hfirst.symm.trans sample_start)
  exists s
  constructor
  · exact hrow
  constructor
  · apply text_eq
    rw [show s.mutation.notes = _ from hfields .notes]
    decide +kernel
  · apply text_eq
    rw [show s.mutation.customActionLabels = _ from hfields .customActionLabels]
    decide +kernel

section Again

variable {op : Op times} {row written : Stored} {m : PackageMutation}

/-- The document of a whole mutation. -/
def documentOf (times : DateTexts) (m : PackageMutation) : Patch times where
  fields := (mutation times).encode m
  distinct := Record.distinct_encode m
  known := Record.takes_encode m
  typed := by rw [Record.decode_encode]; rfl

theorem save_self (h : Kept row) : save row.softwareID row.mutation = some row := by
  rw [save_eq_some, h.normal]
  exact ⟨h.valid, rfl⟩

theorem codec_replaces (times : DateTexts) (k : Key) :
    (k.codec times).Replaces ∨ ∀ current, k.normalize current = current := by
  cases k <;>
    first
    | exact .inl (Codec.scalars_replaces : (text _ _).Replaces)
    | exact .inl (Codec.scalars_replaces : (flag _).Replaces)
    | exact .inl (Item.list_replaces _ _)
    | exact .inl (Codec.scalars_replaces : (integer _).Replaces)
    | exact .inl (Codec.scalars_replaces : pointer.Replaces)
    | exact .inl (Codec.scalars_replaces : times.pointer.Replaces)
    | exact .inr (fun _ => rfl)

theorem field_settles (k : Key) {v : Value SoftwareTitles.Scalar}
    (h : ((k.codec times).decode (some v)).isSome = true) (current : k.Kind) :
    k.normalize ((k.codec times).named v (k.normalize ((k.codec times).named v current))) =
      k.normalize ((k.codec times).named v current) := by
  cases codec_replaces times k with
  | inl hreplaces => exact congrArg k.normalize (hreplaces v _ _ h)
  | inr hsame =>
    rw [hsame, hsame]
    exact (k.codec times).named_named current v h

theorem normalize_again (m : PackageMutation) (k : Key) :
    k.normalize (k.normalize (m.at k)) = k.normalize (m.at k) := by
  rw [← at_normalize, ← at_normalize, normalize_normalize]

theorem ext_at (times : DateTexts) {m m' : PackageMutation} (h : ∀ k, m.at k = m'.at k) : m = m' :=
  Record.ext (R := mutation times) h

/-- A patch that was applied and is sent again stores the same. -/
theorem named_normalize_named (document : Patch times) (m : PackageMutation) :
    ((mutation times).named document.fields ((mutation times).named document.fields m).normalize).normalize =
      ((mutation times).named document.fields m).normalize := by
  apply ext_at times
  intro k
  have hsome : (((k.codec times).decode (valueAt document.fields k.name))).isSome = true :=
    Record.decode_isSome.mp document.typed k
  rw [at_normalize, at_named, at_normalize, at_named]
  cases hv : valueAt document.fields k.name with
  | none =>
    rw [Record.namedAt_none (R := mutation times) hv, Record.namedAt_none (R := mutation times) hv]
    change k.normalize (PackageMutation.at _ k) = k.normalize (m.at k)
    rw [at_normalize, at_named, Record.namedAt_none (R := mutation times) hv]
    exact normalize_again m k
  | some v =>
    rw [hv] at hsome
    rw [Record.namedAt_some (R := mutation times) hv, Record.namedAt_some (R := mutation times) hv]
    change k.normalize ((k.codec times).named v (PackageMutation.at _ k)) =
      k.normalize ((k.codec times).named v (m.at k))
    rw [at_normalize, at_named, Record.namedAt_some (R := mutation times) hv]
    exact field_settles k hsome (m.at k)

/-- Decoded, the patch has what the mutation has in every field that it names. -/
def Restates (document : Patch times) (m : PackageMutation) : Prop :=
  ∃ m', (mutation times).decode document.fields = some m' ∧
    ∀ k : Key, (valueAt document.fields k.name).isSome = true → m'.at k = m.at k

theorem documentOf_restates (times : DateTexts) (m : PackageMutation) : Restates (documentOf times m) m :=
  ⟨m, Record.decode_encode m, fun _ _ => rfl⟩

theorem named_of_restates {document : Patch times} (h : Restates document m) :
    (mutation times).named document.fields m = m := by
  obtain ⟨m', hdecode, hsame⟩ := h
  exact Record.named_restated hdecode hsame

/-- However the transactions interleave: a package that is sent back as it was read is stored as it
was, whether all of it is put, or a patch restates any of it, all of it or nothing; and a request that
was accepted stores the same when it is sent again. -/
theorem package_sent_back_unchanged (requests : List (Request times)) (events : List (Event Int (Op times)))
    (id : Int) (s : Stored)
    (hrow : (exec (SerialRows.step effect) { rows := stored (exec step {} requests) } events).rows id = some s) :
    effect (.update s.mutation : Op times) s = some (some s) ∧
      effect (.patch (documentOf times s.mutation)) s = some (some s) ∧
      (∀ document : Patch times, Restates document s.mutation → effect (.patch document) s = some (some s)) ∧
      (∀ document : Patch times, document.fields = [] → effect (.patch document) s = some (some s)) ∧
      ∀ (op : Op times) written, effect op s = some (some written) → effect op written = some (some written) := by
  obtain ⟨first, -, -, hnormal, hvalid, -⟩ := package_fields_survive requests events id s hrow
  have hself := save_self ⟨hnormal, hvalid⟩
  have hrestated : ∀ document : Patch times, Restates document s.mutation →
      effect (.patch document) s = some (some s) := by
    intro document hdocument
    rw [effect, Patch.apply_eq, Option.bind_some, named_of_restates hdocument, hself, Option.map_some]
  refine ⟨?_, hrestated _ (documentOf_restates times s.mutation), hrestated, fun document hempty => ?_,
    fun op written heffect => ?_⟩
  · rw [effect, hself, Option.map_some]
  · rw [effect, Patch.apply_eq, Option.bind_some, hempty, Record.named_nil, hself, Option.map_some]
  · obtain ⟨m, hsave, hop⟩ := effect_eq_some heffect
    obtain ⟨hvalid', rfl⟩ := save_eq_some.mp hsave
    rcases hop with rfl | ⟨document, rfl, rfl⟩
    · rw [effect, hsave, Option.map_some]
    · rw [effect, Patch.apply_eq, Option.bind_some, Option.map_eq_some_iff]
      refine ⟨_, save_eq_some.mpr ⟨?_, rfl⟩, ?_⟩
      · rw [named_normalize_named]
        exact hvalid'
      · rw [named_normalize_named]

end Again

theorem package_sent_back_unchanged_sample :
    ∃ s, (exec (SerialRows.step effect) { rows := stored (exec step {} sampleRequests) } sampleEvents).rows 1 = some s ∧
      effect (.patch (documentOf rfc3339 s.mutation)) s = some (some s) := by
  obtain ⟨s, hrow⟩ : ∃ s, (exec (SerialRows.step effect) { rows := stored (exec step {} sampleRequests) }
      sampleEvents).rows 1 = some s := Option.isSome_iff_exists.mp (by decide +kernel)
  exact ⟨s, hrow, (package_sent_back_unchanged sampleRequests sampleEvents 1 s hrow).2.1⟩

end PackagePatches
