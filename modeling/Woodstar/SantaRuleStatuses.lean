import Woodstar.SantaResolution

/-!
# Rule statuses of a host

`ListRuleStatusesForHost`: a page of the resolved rules, each with whether its sync target
is applied. The page and the targets made of it are two lists that the loop reads at one
index.
-/
namespace SantaRuleStatuses

open LabelModel (invalid)
open Primitives (Fault)
open SantaResolution
open SantaTargets (Target RuleKey)

/-- The fields of `listing.Params` that this list reads. -/
structure ListParams where
  pageIndex : Int32 := 0
  pageSize : Int32 := 0
  deriving DecidableEq, Repr

def defaultPageSize : Int32 := 50

def ListParams.normalize (params : ListParams) : ListParams :=
  { params with pageSize := if params.pageSize = 0 then defaultPageSize else params.pageSize }

def ListParams.validate (params : ListParams) : Except Fault Unit :=
  if params.pageIndex < 0 then invalid "PageIndex must be at least 0"
  else if params.pageSize < 1 then invalid "PageSize must be at least 1"
  else if 1000 < params.pageSize then invalid "PageSize must be at most 1000"
  else .ok ()

structure RuleStatus where
  rule : HostRule
  applied : Bool
  deriving DecidableEq, Repr

/-- An error that is returned, or a run-time panic. -/
inductive Failure where
  | fault (fault : Fault)
  | indexOutOfRange (index length : Nat)
  deriving DecidableEq, Repr

/-- The loop over the page from index `i` on. -/
def statusesFrom (targets applied : List Target) (i : Nat) : List HostRule → Except Failure (List RuleStatus)
  | [] => .ok []
  | rule :: rules =>
    match targets[i]? with
    | none => .error (.indexOutOfRange i targets.length)
    | some target =>
      (statusesFrom targets applied (i + 1) rules).map
        (fun statuses => { rule, applied := decide (target ∈ applied) } :: statuses)

/-- `resolved` is what the SQL function returns for the host in the order of the query,
`applied` what the host has applied. The offset is a product of two `int32`. -/
def listRuleStatusesForHost (hostExists : Bool) (resolved : List HostRule) (applied : List Target)
    (params : ListParams) : Except Failure (List RuleStatus × Nat) :=
  let params := params.normalize
  match params.validate with
  | .error fault => .error (.fault fault)
  | .ok () =>
    if 2 ^ 31 ≤ resolved.length then .error (.fault (.database "integer out of range"))
    else if hostExists = false then .error (.fault .notFound)
    else
      let offset := (params.pageIndex * params.pageSize).toInt
      if offset < 0 then .error (.fault (.database "OFFSET must not be negative"))
      else
        let hostRules := (resolved.drop offset.toNat).take params.pageSize.toInt.toNat
        (statusesFrom (syncTargetsFromRules hostRules) applied 0 hostRules).map
          (fun statuses => (statuses, resolved.length))

theorem map_eq_ok {ε α β : Type} {x : Except ε α} {f : α → β} {b : β} :
    x.map f = .ok b ↔ ∃ a, x = .ok a ∧ f a = b := by
  cases x with
  | error e => exact iff_of_false nofun nofun
  | ok a => simp [Except.map]

section

variable {targets applied : List Target}

theorem statusesFrom_ok {rules : List HostRule} {i : Nat} (h : targets.drop i = rules.map HostRule.target) :
    statusesFrom targets applied i rules =
      .ok (rules.map (fun rule => { rule, applied := decide (rule.target ∈ applied) })) := by
  induction rules generalizing i with
  | nil => rfl
  | cons rule rules ih =>
    have hget : targets[i]? = some rule.target := by
      rw [← List.head?_drop, h]
      rfl
    have hrest : targets.drop (i + 1) = rules.map HostRule.target := by
      rw [← List.tail_drop, h]
      rfl
    rw [statusesFrom, hget]
    simp only [ih hrest]
    rfl

/-- The loop ends when there is a target for every row. -/
theorem length_le_of_statusesFrom {rules : List HostRule} {i : Nat} {statuses : List RuleStatus}
    (h : statusesFrom targets applied i rules = .ok statuses) :
    statuses.length = rules.length ∧ (rules ≠ [] → i + rules.length ≤ targets.length) := by
  induction rules generalizing i statuses with
  | nil =>
    cases h
    exact ⟨rfl, fun hne => absurd rfl hne⟩
  | cons rule rules ih =>
    rw [statusesFrom] at h
    cases htarget : targets[i]? with
    | none => simp [htarget] at h
    | some target =>
      rw [htarget] at h
      obtain ⟨rest, hrest, rfl⟩ := map_eq_ok.mp h
      obtain ⟨hlength, hle⟩ := ih hrest
      obtain ⟨hlt, -⟩ := List.getElem?_eq_some_iff.mp htarget
      constructor
      · rw [List.length_cons, List.length_cons, hlength]
      · intro _
        rw [List.length_cons]
        by_cases hempty : rules = []
        · rw [hempty, List.length_nil]
          omega
        · have := hle hempty
          omega

end

/-- The statuses of a page, each row with its own target. -/
def ownStatuses (page : List HostRule) (applied : List Target) : List RuleStatus :=
  page.map (fun rule => { rule, applied := decide (rule.target ∈ applied) })

/-- On a page without a repeated identity the two lists are aligned. -/
theorem statuses_of_nodup {page : List HostRule} (h : (page.map HostRule.identityKey).Nodup)
    (applied : List Target) :
    statusesFrom (syncTargetsFromRules page) applied 0 page = .ok (ownStatuses page applied) := by
  apply statusesFrom_ok
  rw [List.drop_zero, syncTargetsFromRules, FirstWins.firstBy_of_nodup h (fun _ _ => List.not_mem_nil)]

/-- A repeated identity leaves fewer targets than rows. -/
theorem nodup_of_statuses {page : List HostRule} {applied : List Target} {statuses : List RuleStatus}
    (h : statusesFrom (syncTargetsFromRules page) applied 0 page = .ok statuses) :
    (page.map HostRule.identityKey).Nodup := by
  rw [← FirstWins.length_firstBy_eq_iff]
  have hle := (FirstWins.firstBy_sublist HostRule.identityKey [] page).length_le
  have hge := (length_le_of_statusesFrom h).2
  rw [syncTargetsFromRules, List.length_map] at hge
  by_cases hempty : page = []
  · rw [hempty]
    rfl
  · have := hge hempty
    omega

/-- The rows of the page that the parameters ask for. -/
def page (resolved : List HostRule) (params : ListParams) : List HostRule :=
  (resolved.drop (params.pageIndex.toInt * params.pageSize.toInt).toNat).take params.pageSize.toInt.toNat

/-- The product of page index and page size is an `int32`, or it wraps to an offset that
is past the end like the true one. -/
def OffsetKept (resolved : List HostRule) (params : ListParams) : Prop :=
  params.pageIndex.toInt * params.pageSize.toInt < 2 ^ 31 ∨
    (resolved.length : Int) ≤ (params.pageIndex * params.pageSize).toInt

instance (resolved : List HostRule) (params : ListParams) : Decidable (OffsetKept resolved params) :=
  inferInstanceAs (Decidable (_ ∨ _))

section

variable {params : ListParams} {resolved : List HostRule}

theorem validate_ok (h : params.validate = .ok ()) :
    0 ≤ params.pageIndex.toInt ∧ 1 ≤ params.pageSize.toInt := by
  rw [ListParams.validate] at h
  by_cases hindex : params.pageIndex < 0
  · rw [if_pos hindex] at h
    cases h
  rw [if_neg hindex] at h
  by_cases hsize : params.pageSize < 1
  · rw [if_pos hsize] at h
    cases h
  rw [Int32.lt_iff_toInt_lt] at hindex hsize
  have hzero : (0 : Int32).toInt = 0 := rfl
  have hone : (1 : Int32).toInt = 1 := rfl
  omega

/-- A product that is an `int32` does not wrap. -/
theorem offset_of_lt (h : params.validate = .ok ())
    (hlt : params.pageIndex.toInt * params.pageSize.toInt < 2 ^ 31) :
    (params.pageIndex * params.pageSize).toInt = params.pageIndex.toInt * params.pageSize.toInt := by
  obtain ⟨hindex, hsize⟩ := validate_ok h
  have hpos : 0 ≤ params.pageIndex.toInt * params.pageSize.toInt := Int.mul_nonneg hindex (by omega)
  rw [Int32.toInt_mul, Int.bmod_eq_of_le]
  · omega
  · omega

theorem page_of_past_end (h : (resolved.length : Int) ≤ params.pageIndex.toInt * params.pageSize.toInt) :
    page resolved params = [] := by
  rw [page, List.drop_of_length_le (by omega), List.take_nil]

end

/-- For valid parameters and an existing host the statuses are those of the page, row by
row, if and only if the count and the offset fit their types and no identity comes twice
on the page. -/
theorem statuses_aligned_iff {params : ListParams} (hvalid : params.normalize.validate = .ok ())
    (resolved : List HostRule) (applied : List Target) :
    listRuleStatusesForHost true resolved applied params =
        .ok (ownStatuses (page resolved params.normalize) applied, resolved.length) ↔
      resolved.length < 2 ^ 31 ∧ OffsetKept resolved params.normalize ∧
        ((page resolved params.normalize).map HostRule.identityKey).Nodup := by
  generalize hnormal : params.normalize = normal at hvalid
  obtain ⟨hindex, hsize⟩ := validate_ok hvalid
  simp only [listRuleStatusesForHost, hnormal, hvalid, Bool.true_eq_false, if_false]
  by_cases hcount : 2 ^ 31 ≤ resolved.length
  · rw [if_pos hcount]
    exact iff_of_false nofun (fun h => by omega)
  rw [if_neg hcount]
  by_cases hproduct : normal.pageIndex.toInt * normal.pageSize.toInt < 2 ^ 31
  · have hpos : 0 ≤ normal.pageIndex.toInt * normal.pageSize.toInt := Int.mul_nonneg hindex (by omega)
    rw [offset_of_lt hvalid hproduct, if_neg (by omega)]
    have hpage : (resolved.drop (normal.pageIndex.toInt * normal.pageSize.toInt).toNat).take
        normal.pageSize.toInt.toNat = page resolved normal := rfl
    rw [hpage]
    constructor
    · intro h
      obtain ⟨statuses, hstatuses, -⟩ := map_eq_ok.mp h
      exact ⟨by omega, Or.inl hproduct, nodup_of_statuses hstatuses⟩
    · intro ⟨_, _, hnodup⟩
      rw [statuses_of_nodup hnodup]
      rfl
  · have hempty : page resolved normal = [] := page_of_past_end (by omega)
    rw [hempty]
    by_cases hnegative : (normal.pageIndex * normal.pageSize).toInt < 0
    · rw [if_pos hnegative]
      refine iff_of_false nofun (fun ⟨_, hkept, _⟩ => ?_)
      rcases hkept with hkept | hkept
      · exact hproduct hkept
      · omega
    rw [if_neg hnegative]
    constructor
    · intro h
      obtain ⟨statuses, hstatuses, heq⟩ := map_eq_ok.mp h
      have hlength := (length_le_of_statusesFrom hstatuses).1
      rw [(Prod.mk.inj heq).1, ownStatuses, List.map_nil, List.length_nil, List.length_take,
        List.length_drop] at hlength
      exact ⟨by omega, Or.inr (by omega), List.nodup_nil⟩
    · intro ⟨_, hkept, _⟩
      have hpast : (resolved.length : Int) ≤ (normal.pageIndex * normal.pageSize).toInt :=
        hkept.resolve_left hproduct
      rw [List.drop_of_length_le (by omega), List.take_nil]
      rfl

/-- The rows of a host to which a bundle rule and a rule for its only executable apply. -/
def overlapRows : List HostRule :=
  resolveRulesForHost byCodePoint (Runs.exec (SantaRules.step sampleEnv) {} overlapOps) 1

/-- The row of the bundle comes first, under the hash of its executable. -/
theorem overlapRows_eq : overlapRows =
    [hostRule 1 (sampleRule .bundle (sampleDigest 'b') .blocklist) { policy := .blocklist, labelID := 1 }
        ⟨.binary, sampleDigest 'e'⟩ "App",
      hostRule 2 (sampleRule .binary (sampleDigest 'e') .allowlist) { policy := .allowlist, labelID := 1 }
        ⟨.binary, sampleDigest 'e'⟩ ""] := by
  rw [overlapRows, exec_overlapOps]
  decide +kernel

theorem statuses_aligned_sample :
    listRuleStatusesForHost true overlapRows [] { pageIndex := 1, pageSize := 1 } =
      .ok (ownStatuses (page overlapRows { pageIndex := 1, pageSize := 1 }) [], overlapRows.length) :=
  (@statuses_aligned_iff { pageIndex := 1, pageSize := 1 } (by decide) overlapRows []).mpr
    (by rw [overlapRows_eq]; decide +kernel)

/-- The first page of these rows has two rows and one target. -/
theorem overlap_out_of_range :
    listRuleStatusesForHost true overlapRows [] { pageIndex := 0, pageSize := 50 } =
      .error (.indexOutOfRange 1 1) := by
  rw [overlapRows_eq]
  decide +kernel

end SantaRuleStatuses
