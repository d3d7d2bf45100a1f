import Mathlib.Data.List.Nodup
import Mathlib.Data.List.Sort
import Woodstar.Attrition
import Woodstar.MunkiProjection

/-!
# What retention deletes

`stemma/internal/destination/retention.go`: beyond the newest of the family, every package
goes that no target pins and no package of the family refers to.
-/
namespace Retention

open MunkiPackages (PackageReference)
open MunkiProjection (PackageSelector PackageStrategy)

/-- What retention reads of a package. -/
structure Package where
  id : Int
  version : String
  createdAt : Int
  requires : List PackageReference := []
  updateFor : List PackageReference := []
  deriving DecidableEq, Repr

structure Change where
  kind : String
  field : String
  action : String
  before : String
  deriving DecidableEq, Repr

/-- What the repository answers to a delete. -/
inductive Answer where
  | deleted | conflict | failed
  deriving DecidableEq, Repr

/-- The deletes that were carried out, the others that were sent, and what is reported. -/
structure Run where
  deleted : List Int := []
  refused : List Int := []
  changes : List Change := []
  failed : Bool := false
  deriving DecidableEq, Repr

/-- The selectors of the targets, when the software is there, and the packages. -/
structure Observation where
  targets : Option (List PackageSelector)
  packages : List Package

def protectedPackages (targets : List PackageSelector) (items : List Package) : List Int :=
  targets.filterMap (fun selector => if selector.strategy = .specific then selector.packageID else none) ++
    items.flatMap (fun item => (item.requires ++ item.updateFor).filterMap (fun ref =>
      if 0 < ref.packageID then some ref.packageID else none))

/-- The order of the sort: by creation, then by id, the greater one first. -/
def NewestFirst (a b : Package) : Prop :=
  b.createdAt < a.createdAt ∨ b.createdAt = a.createdAt ∧ b.id ≤ a.id

instance : DecidableRel NewestFirst := fun _ _ => inferInstanceAs (Decidable (_ ∨ _))

def others (version : String) (items : List Package) : List Package :=
  (items.filter (fun item => decide (item.version ≠ version))).insertionSort NewestFirst

def deletion (old : Package) : Change :=
  { kind := "retention", field := "package", action := "delete", before := old.version }

/-- The loop. The repository answers to the package and to what was sent before it. -/
def expire (answer : List Int → Int → Answer) (apply : Bool) (pinned : List Int) :
    List Package → Run → Run
  | [], run => run
  | old :: rest, run =>
    if old.id ∈ pinned then expire answer apply pinned rest run
    else if apply = true then
      match answer (run.deleted ++ run.refused) old.id with
      | .deleted =>
        expire answer apply pinned rest
          { run with deleted := run.deleted ++ [old.id], changes := run.changes ++ [deletion old] }
      | .conflict => expire answer apply pinned rest { run with refused := run.refused ++ [old.id] }
      | .failed => { run with refused := run.refused ++ [old.id], failed := true }
    else expire answer apply pinned rest { run with changes := run.changes ++ [deletion old] }

/-- `none` when the slice bound is negative. -/
def prune (answer : List Int → Int → Answer) (keep : Option Int) (version : String) (observed : Observation)
    (apply : Bool) : Option Run :=
  match keep, observed.targets with
  | some keep, some targets =>
    let pinned := protectedPackages targets observed.packages
    let others := others version observed.packages
    let start := min (keep - 1) others.length
    if start < 0 then none else some (expire answer apply pinned (others.drop start.toNat) {})
  | _, _ => some {}

/-- The family after a run. -/
def remaining (run : Run) (family : List Package) : List Package :=
  family.filter (fun pkg => decide (pkg.id ∉ run.deleted))

/-- One run after which every delete was carried out. -/
def settle (keep : Int) (version : String) (targets : List PackageSelector) (family : List Package) :
    List Package :=
  match prune (fun _ _ => .deleted) (some keep) version ⟨some targets, family⟩ true with
  | some run => remaining run family
  | none => family

/-- A target asks for this very package. -/
def Pinned (targets : List PackageSelector) (id : Int) : Prop :=
  ∃ selector ∈ targets, selector.strategy = .specific ∧ selector.packageID = some id

def References (other : Package) (id : Int) : Prop :=
  ∃ ref ∈ other.requires ++ other.updateFor, 0 < ref.packageID ∧ ref.packageID = id

def Newer (other pkg : Package) : Prop :=
  pkg.createdAt < other.createdAt ∨ pkg.createdAt = other.createdAt ∧ pkg.id < other.id

instance (other pkg : Package) : Decidable (Newer other pkg) := inferInstanceAs (Decidable (_ ∨ _))

/-- The others that are newer than the package. -/
def newer (version : String) (family : List Package) (pkg : Package) : List Package :=
  family.filter (fun other => decide (other.version ≠ version ∧ Newer other pkg))

/-- The package is neither current nor among the newest others, and no target pins it. -/
structure Expired (keep : Int) (version : String) (targets : List PackageSelector) (family : List Package)
    (pkg : Package) : Prop where
  mem : pkg ∈ family
  old : pkg.version ≠ version
  outside : keep - 1 ≤ (newer version family pkg).length
  unpinned : ¬ Pinned targets pkg.id

instance (targets : List PackageSelector) (id : Int) : Decidable (Pinned targets id) :=
  inferInstanceAs (Decidable (∃ selector ∈ targets, _))

instance (other : Package) (id : Int) : Decidable (References other id) :=
  inferInstanceAs (Decidable (∃ ref ∈ other.requires ++ other.updateFor, _))

/-- The packages that the window of the newest leaves. -/
def old (keep : Int) (version : String) (family : List Package) : List Package :=
  (others version family).drop (keep - 1).toNat

/-- The packages that the loop sends deletes for. -/
def expired (keep : Int) (version : String) (targets : List PackageSelector) (family : List Package) :
    List Package :=
  (old keep version family).filter (fun pkg => decide (pkg.id ∉ protectedPackages targets family))

variable {answer : List Int → Int → Answer} {keep : Int} {version : String} {targets : List PackageSelector}
  {family kept : List Package} {pkg : Package} {pinned : List Int} {id : Int}

theorem mem_protectedPackages :
    id ∈ protectedPackages targets family ↔ Pinned targets id ∨ ∃ other ∈ family, References other id := by
  simp only [protectedPackages, Pinned, References, List.mem_append, List.mem_filterMap, List.mem_flatMap,
    Option.ite_none_right_eq_some, Option.some.injEq]

section Ranked

variable {α : Type} {ranks : α → α → Prop} [DecidableRel ranks] {l : List α} {a : α}

/-- Beyond the first `n` of a ranked list are those that `n` others rank before. -/
theorem mem_drop_ranked (hirrefl : ∀ a, ¬ ranks a a) (hasymm : ∀ a b, ranks a b → ¬ ranks b a)
    (hl : l.Pairwise ranks) (n : Nat) :
    a ∈ l.drop n ↔ a ∈ l ∧ n ≤ (l.filter (fun b => decide (ranks b a))).length := by
  induction l generalizing n with
  | nil => simp
  | cons b l ih =>
    obtain ⟨hfirst, hrest⟩ := List.pairwise_cons.mp hl
    cases n with
    | zero => simp
    | succ n =>
      rw [List.drop_succ_cons, ih hrest n]
      by_cases hab : a = b
      · subst hab
        have hnone : (a :: l).filter (fun b => decide (ranks b a)) = [] := by
          apply List.filter_eq_nil_iff.mpr
          intro c hc
          cases List.mem_cons.mp hc with
          | inl heq => simp [heq, hirrefl]
          | inr hmem => simp [hasymm a c (hfirst c hmem)]
        have hout : a ∉ l := fun hmem => hirrefl a (hfirst a hmem)
        simp [hnone, hout]
      · have hmem : a ∈ b :: l ↔ a ∈ l := by simp [hab]
        rw [hmem]
        apply and_congr_right
        intro ha
        rw [List.filter_cons_of_pos (by simp [hfirst a ha]), List.length_cons]
        exact (Nat.succ_le_succ_iff).symm

/-- A part that holds the first `n` of the list leaves the same first `n`. -/
theorem drop_filter {p : α → Bool} {n : Nat} (h : ∀ a ∈ l.take n, p a = true) :
    (l.filter p).drop n = (l.drop n).filter p := by
  induction l generalizing n with
  | nil => simp
  | cons a l ih =>
    cases n with
    | zero => rfl
    | succ n =>
      rw [List.filter_cons_of_pos (h a (by simp)), List.drop_succ_cons, List.drop_succ_cons]
      exact ih (fun b hb => h b (by simp [hb]))

end Ranked

section Order

instance : IsTrans Package NewestFirst where
  trans a b c hab hbc := by
    simp only [NewestFirst] at hab hbc ⊢
    omega

instance : Std.Total NewestFirst where
  total a b := by
    simp only [NewestFirst]
    omega

theorem newer_irrefl (a : Package) : ¬ Newer a a := by
  simp [Newer]

theorem newer_asymm (a b : Package) (h : Newer a b) : ¬ Newer b a := by
  simp only [Newer] at h ⊢
  omega

theorem mem_others : pkg ∈ others version family ↔ pkg ∈ family ∧ pkg.version ≠ version := by
  simp [others]

theorem nodup_others (hids : (family.map Package.id).Nodup) : (others version family).Nodup :=
  (List.perm_insertionSort _ _).nodup_iff.mpr ((List.Nodup.of_map _ hids).filter _)

/-- With ids that differ the order is strict. -/
theorem ranked_others (hids : (family.map Package.id).Nodup) : (others version family).Pairwise Newer := by
  have hsorted := List.pairwise_insertionSort NewestFirst
    (family.filter (fun item => decide (item.version ≠ version)))
  have hdistinct : (others version family).Nodup := nodup_others hids
  have hstrict := hsorted.and hdistinct
  apply hstrict.imp_of_mem
  intro a b ha hb hab
  obtain ⟨hle, hne⟩ := hab
  have hid : a.id ≠ b.id := by
    intro heq
    exact hne (List.inj_on_of_nodup_map hids (mem_others.mp ha).1 (mem_others.mp hb).1 heq)
  simp only [NewestFirst, Newer] at hle ⊢
  omega

theorem length_newer : ((others version family).filter (fun other => decide (Newer other pkg))).length =
    (newer version family pkg).length := by
  have hperm := (List.perm_insertionSort NewestFirst
    (family.filter (fun item => decide (item.version ≠ version)))).filter
    (fun other => decide (Newer other pkg))
  rw [others, hperm.length_eq, List.filter_filter, newer]
  congr 2
  funext other
  simp [Bool.and_comm]

theorem mem_old (hids : (family.map Package.id).Nodup) :
    pkg ∈ old keep version family ↔
      pkg ∈ family ∧ pkg.version ≠ version ∧ keep - 1 ≤ (newer version family pkg).length := by
  rw [old, mem_drop_ranked newer_irrefl newer_asymm (ranked_others hids), mem_others, length_newer,
    Int.toNat_le, and_assoc]

theorem expired_iff (hids : (family.map Package.id).Nodup) :
    Expired keep version targets family pkg ↔ pkg ∈ old keep version family ∧ ¬ Pinned targets pkg.id := by
  rw [mem_old hids]
  constructor
  · intro h
    exact ⟨⟨h.mem, h.old, h.outside⟩, h.unpinned⟩
  · intro h
    exact ⟨h.1.1, h.1.2.1, h.1.2.2, h.2⟩

theorem mem_expired (hids : (family.map Package.id).Nodup) :
    pkg ∈ expired keep version targets family ↔
      Expired keep version targets family pkg ∧ ∀ other ∈ family, ¬ References other pkg.id := by
  rw [expired, List.mem_filter, decide_eq_true_iff, mem_protectedPackages, expired_iff hids]
  push Not
  tauto

end Order

section Loop

/-- What a run would report if it sent nothing. -/
theorem expire_plan (olds : List Package) (run : Run) :
    expire answer false pinned olds run = { run with
      changes := run.changes ++ (olds.filter (fun pkg => decide (pkg.id ∉ pinned))).map deletion } := by
  induction olds generalizing run with
  | nil => simp [expire]
  | cons old rest ih =>
    by_cases hpinned : old.id ∈ pinned
    · simp [expire, hpinned, ih]
    · simp [expire, hpinned, ih]

/-- Deletes are sent for packages that nothing pins, whatever the repository answers. -/
theorem expire_sends (olds : List Package) (run : Run)
    (h : id ∈ (expire answer true pinned olds run).deleted ∨ id ∈ (expire answer true pinned olds run).refused) :
    (id ∈ run.deleted ∨ id ∈ run.refused) ∨
      ∃ pkg ∈ olds.filter (fun pkg => decide (pkg.id ∉ pinned)), pkg.id = id := by
  induction olds generalizing run with
  | nil => exact .inl h
  | cons old rest ih =>
    by_cases hpinned : old.id ∈ pinned
    · rw [expire, if_pos hpinned] at h
      rw [List.filter_cons_of_neg (by simpa using hpinned)]
      exact ih run h
    · rw [List.filter_cons_of_pos (by simpa using hpinned)]
      rw [expire, if_neg hpinned, if_pos rfl] at h
      cases hanswer : answer (run.deleted ++ run.refused) old.id with
      | deleted =>
        rw [hanswer] at h
        have := ih _ h
        simp only [List.mem_append, List.mem_singleton, List.exists_mem_cons_iff] at this ⊢
        tauto
      | conflict =>
        rw [hanswer] at h
        have := ih _ h
        simp only [List.mem_append, List.mem_singleton, List.exists_mem_cons_iff] at this ⊢
        tauto
      | failed =>
        rw [hanswer] at h
        simp only [List.mem_append, List.mem_singleton, List.exists_mem_cons_iff] at h ⊢
        tauto

/-- A run whose deletes were all carried out deleted, and reports, every package it was to. -/
theorem expire_complete (olds : List Package) (run : Run)
    (h : (expire answer true pinned olds run).refused = []) :
    run.refused = [] ∧ expire answer true pinned olds run = { run with
      deleted := run.deleted ++ (olds.filter (fun pkg => decide (pkg.id ∉ pinned))).map Package.id
      changes := run.changes ++ (olds.filter (fun pkg => decide (pkg.id ∉ pinned))).map deletion } := by
  induction olds generalizing run with
  | nil => exact ⟨h, by simp [expire]⟩
  | cons old rest ih =>
    by_cases hpinned : old.id ∈ pinned
    · rw [expire, if_pos hpinned] at h ⊢
      rw [List.filter_cons_of_neg (by simpa using hpinned)]
      exact ih run h
    · rw [List.filter_cons_of_pos (by simpa using hpinned)]
      rw [expire, if_neg hpinned, if_pos rfl] at h ⊢
      cases hanswer : answer (run.deleted ++ run.refused) old.id with
      | deleted =>
        rw [hanswer] at h
        obtain ⟨hnone, hrest⟩ := ih _ h
        refine ⟨hnone, ?_⟩
        simp only [hrest, List.map_cons, List.append_assoc, List.singleton_append]
      | conflict =>
        rw [hanswer] at h
        exact absurd (ih _ h).1 (by simp)
      | failed =>
        rw [hanswer] at h
        exact absurd h (by simp)

theorem expire_accepted (olds : List Package) (run : Run) :
    (expire (fun _ _ => .deleted) true pinned olds run).refused = run.refused := by
  induction olds generalizing run with
  | nil => rfl
  | cons old rest ih =>
    by_cases hpinned : old.id ∈ pinned
    · rw [expire, if_pos hpinned]
      exact ih run
    · rw [expire, if_neg hpinned, if_pos rfl]
      exact ih _

end Loop

theorem prune_eq (hkeep : 1 ≤ keep) (apply : Bool) :
    prune answer (some keep) version ⟨some targets, family⟩ apply =
      some (expire answer apply (protectedPackages targets family) (old keep version family) {}) := by
  have hstart : ¬ min (keep - 1) ((others version family).length : Int) < 0 := by omega
  have hdrop : (others version family).drop (min (keep - 1) ((others version family).length : Int)).toNat =
      (others version family).drop (keep - 1).toNat := by
    by_cases hle : keep - 1 ≤ (others version family).length
    · rw [min_eq_left hle]
    · rw [List.drop_eq_nil_of_le (by omega), List.drop_eq_nil_of_le (by omega)]
  simp only [prune, if_neg hstart, hdrop, old]

theorem prune_plan (hkeep : 1 ≤ keep) : prune answer (some keep) version ⟨some targets, family⟩ false =
    some { changes := (expired keep version targets family).map deletion } := by
  rw [prune_eq hkeep, expire_plan]
  rfl

section Parts

instance (keep : Int) (version : String) (targets : List PackageSelector) (family : List Package) (pkg : Package) :
    Decidable (Expired keep version targets family pkg) :=
  decidable_of_iff (pkg ∈ family ∧ pkg.version ≠ version ∧ keep - 1 ≤ (newer version family pkg).length ∧
    ¬ Pinned targets pkg.id) ⟨fun h => ⟨h.1, h.2.1, h.2.2.1, h.2.2.2⟩, fun h => ⟨h.mem, h.old, h.outside, h.unpinned⟩⟩

/-- A part of the family that lacks expired packages only. -/
structure Part (keep : Int) (version : String) (targets : List PackageSelector) (family kept : List Package) :
    Prop where
  sub : kept ⊆ family
  ids : (kept.map Package.id).Nodup
  rest : ∀ pkg ∈ family, ¬ Expired keep version targets family pkg → pkg ∈ kept

theorem Part.others (hids : (family.map Package.id).Nodup) (h : Part keep version targets family kept) :
    others version kept = (others version family).filter (fun pkg => decide (pkg ∈ kept)) := by
  have hsorted : ((Retention.others version family).filter (fun pkg => decide (pkg ∈ kept))).Pairwise Newer :=
    (ranked_others hids).filter _
  have hperm : (Retention.others version kept).Perm
      ((Retention.others version family).filter (fun pkg => decide (pkg ∈ kept))) := by
    apply (List.perm_ext_iff_of_nodup (nodup_others h.ids) ((nodup_others hids).filter _)).mpr
    intro pkg
    rw [List.mem_filter, decide_eq_true_iff, mem_others, mem_others]
    exact ⟨fun hpkg => ⟨⟨h.sub hpkg.1, hpkg.2⟩, hpkg.1⟩, fun hpkg => ⟨hpkg.2, hpkg.1.2⟩⟩
  apply hperm.eq_of_pairwise _ (ranked_others h.ids) hsorted
  intro a b _ _ hab hba
  exact absurd hba (newer_asymm a b hab)

/-- The newest of the family are the newest of the part. -/
theorem Part.old (hids : (family.map Package.id).Nodup) (h : Part keep version targets family kept) :
    old keep version kept = (old keep version family).filter (fun pkg => decide (pkg ∈ kept)) := by
  rw [Retention.old, h.others hids, Retention.old]
  apply drop_filter
  intro pkg hpkg
  have hmem := mem_others.mp (List.mem_of_mem_take hpkg)
  apply decide_eq_true
  apply h.rest pkg hmem.1
  intro hexpired
  have hold := ((expired_iff hids).mp hexpired).1
  exact List.disjoint_take_drop (nodup_others hids) (Nat.le_refl _) hpkg hold

theorem Part.expired_iff (hids : (family.map Package.id).Nodup) (h : Part keep version targets family kept)
    (hpkg : pkg ∈ kept) :
    Expired keep version targets kept pkg ↔ Expired keep version targets family pkg := by
  rw [Retention.expired_iff h.ids, Retention.expired_iff hids, h.old hids, List.mem_filter, decide_eq_true_iff]
  exact ⟨fun hold => ⟨hold.1.1, hold.2⟩, fun hold => ⟨⟨hold.1, hpkg⟩, hold.2⟩⟩

theorem part_self (hids : (family.map Package.id).Nodup) : Part keep version targets family family :=
  ⟨List.Subset.refl family, hids, fun _ hpkg _ => hpkg⟩

/-- A package stays in a part when it is not expired or the part refers to it. -/
def stays (keep : Int) (version : String) (targets : List PackageSelector) (family kept : List Package)
    (pkg : Package) : Bool :=
  decide (¬ Expired keep version targets family pkg ∨ ∃ other ∈ kept, References other pkg.id)

theorem grows_stays : Attrition.Grows (stays keep version targets family) := by
  intro xs ys pkg hsub h
  rw [stays, decide_eq_true_iff] at h ⊢
  cases h with
  | inl hkept => exact .inl hkept
  | inr href =>
    obtain ⟨other, hother, href⟩ := href
    exact .inr ⟨other, hsub hother, href⟩

theorem deleted_iff {run : Run} (hids : (family.map Package.id).Nodup)
    (hrun : run.deleted = (expired keep version targets family).map Package.id) (hpkg : pkg ∈ family) :
    pkg.id ∈ run.deleted ↔ pkg ∈ expired keep version targets family := by
  rw [hrun, List.mem_map]
  constructor
  · intro hmem
    obtain ⟨other, hother, hid⟩ := hmem
    have hin := ((mem_expired hids).mp hother).1.mem
    exact List.inj_on_of_nodup_map hids hin hpkg hid ▸ hother
  · intro hmem
    exact ⟨pkg, hmem, rfl⟩

/-- What a run whose deletes are all carried out leaves of a part. -/
theorem Part.remaining {run : Run} (hids : (family.map Package.id).Nodup)
    (h : Part keep version targets family kept)
    (hrun : run.deleted = (expired keep version targets kept).map Package.id) :
    remaining run kept = Attrition.pass (stays keep version targets family) kept := by
  rw [Retention.remaining, Attrition.pass]
  apply List.filter_congr
  intro pkg hpkg
  apply decide_eq_decide.mpr
  rw [deleted_iff h.ids hrun hpkg, mem_expired h.ids, h.expired_iff hids hpkg]
  push Not
  tauto

theorem Part.pass (h : Part keep version targets family kept) :
    Part keep version targets family (Attrition.pass (stays keep version targets family) kept) := by
  constructor
  · exact fun pkg hpkg => h.sub (List.mem_of_mem_filter hpkg)
  · exact h.ids.sublist (List.filter_sublist.map Package.id)
  · intro pkg hpkg hkept
    exact List.mem_filter.mpr ⟨h.rest pkg hpkg hkept, decide_eq_true (.inl hkept)⟩

theorem Part.settle (hids : (family.map Package.id).Nodup) (hkeep : 1 ≤ keep)
    (h : Part keep version targets family kept) :
    settle keep version targets kept = Attrition.pass (stays keep version targets family) kept := by
  have haccepted : (expire (fun _ _ => .deleted) true (protectedPackages targets kept)
      (Retention.old keep version kept) {}).refused = [] := expire_accepted _ _
  have hdeleted := (expire_complete _ _ haccepted).2
  rw [Retention.settle, prune_eq hkeep]
  apply h.remaining hids
  rw [hdeleted]
  rfl

theorem iterate_settle (hids : (family.map Package.id).Nodup) (hkeep : 1 ≤ keep)
    (h : Part keep version targets family kept) (n : Nat) :
    (settle keep version targets)^[n] kept = (Attrition.pass (stays keep version targets family))^[n] kept := by
  induction n generalizing kept with
  | zero => rfl
  | succ n ih => rw [Function.iterate_succ_apply, Function.iterate_succ_apply, h.settle hids hkeep, ih h.pass]

end Parts

/-- What a run that deleted all it was to leaves to the next one: the expired packages that
only deleted ones refer to. -/
theorem mem_expired_again (hids : (family.map Package.id).Nodup) {run : Run}
    (hrun : run.deleted = (expired keep version targets family).map Package.id) :
    pkg ∈ expired keep version targets (remaining run family) ↔
      Expired keep version targets family pkg ∧ (∃ other ∈ family, References other pkg.id) ∧
        ∀ other ∈ family, References other pkg.id → other.id ∈ run.deleted := by
  have hself : Part keep version targets family family := part_self hids
  have hpart : Part keep version targets family (remaining run family) := by
    rw [hself.remaining hids hrun]
    exact hself.pass
  have hmem : ∀ other, other ∈ remaining run family ↔ other ∈ family ∧ other.id ∉ run.deleted := by
    intro other
    rw [remaining, List.mem_filter, decide_eq_true_iff]
  rw [mem_expired hpart.ids]
  constructor
  · intro h
    obtain ⟨hexpired, hfree⟩ := h
    have hin := (hmem pkg).mp hexpired.mem
    have hold := (hpart.expired_iff hids hexpired.mem).mp hexpired
    have hgone : ∀ other ∈ family, References other pkg.id → other.id ∈ run.deleted := by
      intro other hother href
      by_contra hout
      exact hfree other ((hmem other).mpr ⟨hother, hout⟩) href
    constructor
    · exact hold
    constructor
    · by_contra hnone
      push Not at hnone
      exact hin.2 ((deleted_iff hids hrun hin.1).mpr ((mem_expired hids).mpr ⟨hold, hnone⟩))
    · exact hgone
  · intro h
    obtain ⟨hold, hexists, hgone⟩ := h
    obtain ⟨other, hother, href⟩ := hexists
    have hin : pkg ∈ remaining run family := by
      apply (hmem pkg).mpr
      constructor
      · exact hold.mem
      · intro hdeleted
        exact ((mem_expired hids).mp ((deleted_iff hids hrun hold.mem).mp hdeleted)).2 other hother href
    constructor
    · exact (hpart.expired_iff hids hin).mpr hold
    · intro other' hother' href'
      have hrest := (hmem other').mp hother'
      exact hrest.2 (hgone other' hrest.1 href')

/-- Runs end after as many as there are packages at most, at the largest part of the family
in which every expired package is referred to. -/
theorem settle_settles (hids : (family.map Package.id).Nodup) (hkeep : 1 ≤ keep) :
    ∃ n ≤ family.length,
      settle keep version targets ((settle keep version targets)^[n] family) =
        (settle keep version targets)^[n] family ∧
      (∀ pkg ∈ (settle keep version targets)^[n] family, Expired keep version targets family pkg →
        ∃ other ∈ (settle keep version targets)^[n] family, References other pkg.id) ∧
      ∀ kept ⊆ family, (∀ pkg ∈ kept, Expired keep version targets family pkg →
        ∃ other ∈ kept, References other pkg.id) → kept ⊆ (settle keep version targets)^[n] family := by
  have hself : Part keep version targets family family := part_self hids
  obtain ⟨n, hn, hstands⟩ := Attrition.iterate_stands (stays keep version targets family) family
  have hnext := iterate_settle hids hkeep hself (n + 1)
  rw [Function.iterate_succ_apply', Function.iterate_succ_apply', Attrition.pass_eq_self_iff.mpr hstands] at hnext
  have hlast := iterate_settle hids hkeep hself n
  rw [← hlast] at hstands hnext
  refine ⟨n, hn, hnext, ?_, ?_⟩
  · intro pkg hpkg hexpired
    exact (of_decide_eq_true (hstands pkg hpkg)).resolve_left (not_not.mpr hexpired)
  · intro kept hsub hkept
    rw [hlast]
    apply Attrition.subset_iterate grows_stays _ hsub
    intro pkg hpkg
    apply decide_eq_true
    by_cases hexpired : Expired keep version targets family pkg
    · exact .inr (hkept pkg hpkg hexpired)
    · exact .inl hexpired

/-- A run sends deletes for expired packages only that no package of the family refers to.
When they are all carried out they are those the plan reports, and a further run deletes
the expired packages that only deleted ones referred to. Runs end at the largest part of
the family in which every expired package is referred to. -/
theorem retention_settles (answer : List Int → Int → Answer) (keep : Int) (version : String)
    (targets : List PackageSelector) (family : List Package) (hids : (family.map Package.id).Nodup)
    (hkeep : 1 ≤ keep) :
    ∃ planned applied,
      prune answer (some keep) version ⟨some targets, family⟩ false = some planned ∧
      prune answer (some keep) version ⟨some targets, family⟩ true = some applied ∧
      planned.deleted = [] ∧ planned.refused = [] ∧
      (∀ id, id ∈ applied.deleted ∨ id ∈ applied.refused →
        ∃ pkg, Expired keep version targets family pkg ∧ pkg.id = id ∧ ∀ other ∈ family, ¬ References other id) ∧
      (applied.refused = [] →
        (∃ gone ⊆ family, applied.deleted = gone.map Package.id ∧ planned.changes = gone.map deletion ∧
          applied.changes = gone.map deletion) ∧
        ∀ answer', ∃ again,
          prune answer' (some keep) version ⟨some targets, remaining applied family⟩ true = some again ∧
          (again.refused = [] → ∀ id, id ∈ again.deleted ↔
            ∃ pkg, Expired keep version targets family pkg ∧ pkg.id = id ∧
              (∃ other ∈ family, References other id) ∧
              ∀ other ∈ family, References other id → other.id ∈ applied.deleted)) ∧
      ∃ n ≤ family.length,
        settle keep version targets ((settle keep version targets)^[n] family) =
          (settle keep version targets)^[n] family ∧
        (∀ pkg ∈ (settle keep version targets)^[n] family, Expired keep version targets family pkg →
          ∃ other ∈ (settle keep version targets)^[n] family, References other pkg.id) ∧
        ∀ kept ⊆ family, (∀ pkg ∈ kept, Expired keep version targets family pkg →
          ∃ other ∈ kept, References other pkg.id) → kept ⊆ (settle keep version targets)^[n] family := by
  refine ⟨_, _, prune_plan hkeep, prune_eq hkeep true, rfl, rfl, ?_, ?_, settle_settles hids hkeep⟩
  · intro id hsent
    cases expire_sends _ _ hsent with
    | inl hnone => simp at hnone
    | inr hexpired =>
      obtain ⟨pkg, hpkg, rfl⟩ := hexpired
      have hat := (mem_expired hids).mp hpkg
      exact ⟨pkg, hat.1, rfl, hat.2⟩
  · intro hcomplete
    have hrun := (expire_complete _ _ hcomplete).2
    have hdeleted := congrArg Run.deleted hrun
    constructor
    · refine ⟨expired keep version targets family, ?_, hdeleted, rfl, congrArg Run.changes hrun⟩
      exact fun pkg hpkg => ((mem_expired hids).mp hpkg).1.mem
    · intro answer'
      refine ⟨_, prune_eq hkeep true, ?_⟩
      intro hagain id
      have hmore := congrArg Run.deleted (expire_complete _ _ hagain).2
      rw [hmore]
      constructor
      · intro hid
        obtain ⟨pkg, hpkg, rfl⟩ := List.mem_map.mp hid
        have hat := (mem_expired_again hids hdeleted).mp hpkg
        exact ⟨pkg, hat.1, rfl, hat.2⟩
      · intro hid
        obtain ⟨pkg, hexpired, rfl, hrefs⟩ := hid
        exact List.mem_map_of_mem ((mem_expired_again hids hdeleted).mpr ⟨hexpired, hrefs⟩)

section Sample

/-- The second version requires the first, and the third is current. -/
def chain : List Package :=
  [{ id := 1, version := "1", createdAt := 10 },
    { id := 2, version := "2", createdAt := 20
      requires := [{ softwareID := 1, softwareName := "App", packageID := 1, packageVersion := "1" }] },
    { id := 3, version := "3", createdAt := 30 }]

def accepts : List Int → Int → Answer := fun _ _ => .deleted

theorem retention_settles_chain : ∃ n ≤ 3,
    settle 1 "3" [] ((settle 1 "3" [])^[n] chain) = (settle 1 "3" [])^[n] chain := by
  obtain ⟨_, _, _, _, _, _, _, _, n, hn, hend, _⟩ := retention_settles accepts 1 "3" [] chain (by decide) (by decide)
  exact ⟨n, hn, hend⟩

/-- One run deletes the second version only, and the next one the first. -/
theorem chain_takes_two_runs : ∃ applied again,
    (chain.map Package.id).Nodup ∧ (chain.map Package.version).Nodup ∧
    prune accepts (some 1) "3" ⟨some [], chain⟩ true = some applied ∧ applied.refused = [] ∧
    applied.deleted = [2] ∧
    prune accepts (some 1) "3" ⟨some [], remaining applied chain⟩ true = some again ∧ again.deleted = [1] := by
  refine ⟨{ deleted := [2], changes := [deletion { id := 2, version := "2", createdAt := 20 }] },
    { deleted := [1], changes := [deletion { id := 1, version := "1", createdAt := 10 }] }, ?_⟩
  decide

end Sample

end Retention
