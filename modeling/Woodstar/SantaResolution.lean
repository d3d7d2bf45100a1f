import Mathlib.Data.List.Sort
import Woodstar.FirstWins
import Woodstar.SantaRules

/-!
# Resolution of Santa rules for a host

The SQL function `santa_resolved_rules_for_host`, its ORDER BY under a collation, and
`SyncTargetsFromRules`. The query is read as a bag: a sort is any order of its rows that
satisfies the comparison.
-/
namespace SantaResolution

open FirstWins (firstBy mem_firstBy)
open KeyedRows (Table)
open PolicyModel (requireText)
open Primitives (Fault btrimNotEmpty isHexDigit isSpace isText notBlank toLower trimSpace)
open SantaRules
open SantaTargets (Policy RuleKey RuleType Target ruleTypeSort)
open SantaUploads (BundleWrite ExecutableWrite IngestPlan Upload newIngestPlan validateEventInputs)

structure HostRule where
  ruleID : Int
  ruleType : RuleType
  identifier : String
  name : String
  description : String
  policy : Policy
  celExpression : String
  customMessage : String
  customURL : String
  appName : String
  deriving DecidableEq, Repr

def HostRule.identityKey (row : HostRule) : RuleKey := ⟨row.ruleType, row.identifier⟩

/-- A row of `matching_includes`. -/
structure MatchingInclude where
  ruleID : Int
  rule : RuleMutation
  target : RuleInclude
  position : Nat
  deriving DecidableEq, Repr

/-- Some excluded label holds for the host. -/
def excluded (db : Db) (hostID : Int) (rule : RuleMutation) : Bool :=
  rule.targets.excludes.any (fun ref => db.holds hostID ref.labelID)

/-- The rows of `matching_includes` for one rule. -/
def matchingRows (db : Db) (hostID id : Int) : List MatchingInclude :=
  match db.rules.row id with
  | none => []
  | some rule =>
    if excluded db hostID rule = true then []
    else (rule.targets.includes.zipIdx.filter (fun entry => db.holds hostID entry.1.labelID)).map
      (fun entry => { ruleID := id, rule, target := entry.1, position := entry.2 })

def matchingIncludes (db : Db) (hostID : Int) : List MatchingInclude :=
  db.rules.ids.flatMap (matchingRows db hostID)

/-- `row_number() OVER (PARTITION BY r.id ORDER BY i.position)`. -/
def includeRank (rows : List MatchingInclude) (row : MatchingInclude) : Nat :=
  rows.countP (fun other => other.ruleID = row.ruleID ∧ other.position < row.position) + 1

def selectedIncludes (db : Db) (hostID : Int) : List MatchingInclude :=
  (matchingIncludes db hostID).filter (fun row => includeRank (matchingIncludes db hostID) row = 1)

def hostRule (id : Int) (rule : RuleMutation) (target : RuleInclude) (key : RuleKey) (appName : String) :
    HostRule where
  ruleID := id
  ruleType := key.ruleType
  identifier := key.identifier
  name := rule.name
  description := rule.description
  policy := target.policy
  celExpression := target.celExpression
  customMessage := rule.customMessage
  customURL := rule.customURL
  appName := appName

/-- The rows of `expanded_rules` for one selected include. -/
def expand (db : Db) (row : MatchingInclude) : List HostRule :=
  if row.rule.ruleType ≠ .bundle then
    [hostRule row.ruleID row.rule row.target ⟨row.rule.ruleType, row.rule.identifier⟩ ""]
  else match db.bundles.lookup row.rule.identifier with
    | none => []
    | some bundle =>
      if bundle.uploadedAt.isNone = true then []
      else (db.links.filter (fun link => link.bundleSHA256 = row.rule.identifier)).flatMap (fun link =>
        match db.executables.lookup link.executableSHA256 with
        | none => []
        | some write =>
          if write.sha256 = "" then []
          else [hostRule row.ruleID row.rule row.target ⟨.binary, write.sha256⟩ bundle.write.name])

def resolvedRulesForHost (db : Db) (hostID : Int) : List HostRule :=
  (selectedIncludes db hostID).flatMap (expand db)

/-- A comparison of text that PostgreSQL may sort by: total, and without ties. -/
structure Collation where
  le : String → String → Bool
  total : ∀ a b, le a b = true ∨ le b a = true
  trans : ∀ a b c, le a b = true → le b c = true → le a c = true
  antisymm : ∀ a b, le a b = true → le b a = true → a = b

/-- `ORDER BY rule_type_sort, identifier, rule_id`. -/
def hostRuleLE (c : Collation) (left right : HostRule) : Prop :=
  ruleTypeSort left.ruleType < ruleTypeSort right.ruleType ∨
    (ruleTypeSort left.ruleType = ruleTypeSort right.ruleType ∧
      if left.identifier = right.identifier then left.ruleID ≤ right.ruleID
      else c.le left.identifier right.identifier = true)

instance (c : Collation) (left right : HostRule) : Decidable (hostRuleLE c left right) :=
  inferInstanceAs (Decidable (ruleTypeSort left.ruleType < ruleTypeSort right.ruleType ∨
    (ruleTypeSort left.ruleType = ruleTypeSort right.ruleType ∧
      if left.identifier = right.identifier then left.ruleID ≤ right.ruleID
      else c.le left.identifier right.identifier = true)))

def resolveRulesForHost (c : Collation) (db : Db) (hostID : Int) : List HostRule :=
  (resolvedRulesForHost db hostID).insertionSort (hostRuleLE c)

def HostRule.target (row : HostRule) : Target where
  ruleType := row.ruleType
  identifier := row.identifier
  policy := row.policy
  celExpression := row.celExpression
  customMessage := row.customMessage
  customURL := row.customURL
  appName := row.appName

/-- The first row of each identity. -/
def syncTargetsFromRules (rules : List HostRule) : List Target :=
  (firstBy HostRule.identityKey [] rules).map HostRule.target

/-- A matching include label and no matching exclude label. -/
def applies (db : Db) (hostID : Int) (rule : RuleMutation) : Bool :=
  rule.targets.includes.any (fun row => db.holds hostID row.labelID) && !excluded db hostID rule

/-- The first include by position whose label holds. -/
def firstInclude (db : Db) (hostID : Int) (rule : RuleMutation) : Option RuleInclude :=
  rule.targets.includes.find? (fun row => db.holds hostID row.labelID)

/-- The identities of a rule: its own, or those of the executables of a complete bundle. -/
def Gives (db : Db) (rule : RuleMutation) (key : RuleKey) : Prop :=
  (rule.ruleType ≠ .bundle ∧ key = ⟨rule.ruleType, rule.identifier⟩) ∨
  (rule.ruleType = .bundle ∧ key.ruleType = .binary ∧
    (∃ bundle ∈ db.bundles.lookup rule.identifier, bundle.uploadedAt.isSome = true) ∧
    (⟨rule.identifier, key.identifier⟩ : SantaUploads.BundleExecutableLink) ∈ db.links)

/-- The name that a bundle rule shows. -/
def appName (db : Db) (rule : RuleMutation) : String :=
  if rule.ruleType = .bundle then
    ((db.bundles.lookup rule.identifier).map (fun bundle => bundle.write.name)).getD ""
  else ""

section

variable {db : Db} {hostID : Int} {rule : RuleMutation}

theorem applies_iff : applies db hostID rule = true ↔
    excluded db hostID rule = false ∧ ∃ target, firstInclude db hostID rule = some target := by
  rw [applies, Bool.and_eq_true, Bool.not_eq_true', and_comm, firstInclude, ← Option.isSome_iff_exists,
    List.find?_isSome, List.any_eq_true]

theorem mem_matchingIncludes {row : MatchingInclude} : row ∈ matchingIncludes db hostID ↔
    db.rules.row row.ruleID = some row.rule ∧ excluded db hostID row.rule = false ∧
      db.holds hostID row.target.labelID = true ∧
      row.rule.targets.includes[row.position]? = some row.target := by
  obtain ⟨id, rule, target, position⟩ := row
  simp only [matchingIncludes, List.mem_flatMap, Table.mem_ids]
  constructor
  · intro ⟨id', _, hrow⟩
    rw [matchingRows] at hrow
    cases hrule : db.rules.row id' with
    | none => simp [hrule] at hrow
    | some rule' =>
      rw [hrule] at hrow
      simp only at hrow
      split_ifs at hrow with hexcluded
      · cases hrow
      · obtain ⟨⟨target', position'⟩, hentry, heq⟩ := List.mem_map.mp hrow
        obtain ⟨hzip, hholds⟩ := List.mem_filter.mp hentry
        cases heq
        exact ⟨hrule, by simpa using hexcluded, hholds, List.mem_zipIdx_iff_getElem?.mp hzip⟩
  · intro ⟨hrule, hexcluded, hholds, hget⟩
    refine ⟨id, by rw [hrule]; rfl, ?_⟩
    simp only [matchingRows, hrule, hexcluded, Bool.false_eq_true, if_false]
    exact List.mem_map.mpr ⟨(target, position),
      List.mem_filter.mpr ⟨List.mem_zipIdx_iff_getElem?.mpr hget, hholds⟩, rfl⟩

theorem includeRank_eq_one {rows : List MatchingInclude} {row : MatchingInclude} :
    includeRank rows row = 1 ↔ ∀ other ∈ rows, other.ruleID = row.ruleID → row.position ≤ other.position := by
  simp only [includeRank, Nat.add_eq_right, List.countP_eq_zero, decide_eq_true_eq, not_and, Nat.not_lt]

/-- The row of rank one is the first include that matches. -/
theorem mem_selectedIncludes {id : Int} {target : RuleInclude} :
    (∃ position, (⟨id, rule, target, position⟩ : MatchingInclude) ∈ selectedIncludes db hostID) ↔
      db.rules.row id = some rule ∧ excluded db hostID rule = false ∧
        firstInclude db hostID rule = some target := by
  simp only [selectedIncludes, List.mem_filter, decide_eq_true_eq, includeRank_eq_one,
    mem_matchingIncludes, firstInclude]
  constructor
  · intro ⟨position, ⟨hrule, hexcluded, hholds, hget⟩, hrank⟩
    refine ⟨hrule, hexcluded, List.find?_eq_some_iff_getElem.mpr ⟨hholds, ?_⟩⟩
    obtain ⟨hlt, hval⟩ := List.getElem?_eq_some_iff.mp hget
    refine ⟨position, hlt, hval, ?_⟩
    intro earlier hearlier
    by_contra hmatch
    have hrow := hrank ⟨id, rule, rule.targets.includes[earlier], earlier⟩
      ⟨hrule, hexcluded, by simpa using hmatch, List.getElem?_eq_getElem _⟩ rfl
    simp only at hrow
    omega
  · intro ⟨hrule, hexcluded, hfirst⟩
    obtain ⟨hholds, position, hlt, hval, hbefore⟩ := List.find?_eq_some_iff_getElem.mp hfirst
    refine ⟨position, ⟨hrule, hexcluded, hholds, List.getElem?_eq_some_iff.mpr ⟨hlt, hval⟩⟩, ?_⟩
    rintro ⟨id', rule', target', earlier⟩ ⟨hrule', -, hholds', hget'⟩ hid
    simp only at hid hget' hholds' hrule' ⊢
    subst hid
    obtain rfl := Option.some.inj (hrule.symm.trans hrule')
    by_contra hlater
    obtain ⟨hlt', rfl⟩ := List.getElem?_eq_some_iff.mp hget'
    have hno := hbefore earlier (by omega)
    rw [hholds'] at hno
    cases hno

/-- The rows that one selected include expands to. -/
theorem mem_expand (hwf : db.Wf) {row : MatchingInclude} {out : HostRule} : out ∈ expand db row ↔
    Gives db row.rule out.identityKey ∧
      out = hostRule row.ruleID row.rule row.target out.identityKey (appName db row.rule) := by
  by_cases htype : row.rule.ruleType = .bundle
  · simp only [expand, htype, ne_eq, not_true_eq_false, if_false, Gives, false_and, false_or, true_and,
      appName, if_true]
    cases hbundle : db.bundles.lookup row.rule.identifier with
    | none => simp
    | some bundle =>
      simp only [Option.mem_def, Option.some.injEq, exists_eq_left', Option.map_some, Option.getD_some]
      by_cases hcomplete : bundle.uploadedAt.isSome = true
      · rw [if_neg (by simpa [Option.isSome_iff_ne_none] using hcomplete)]
        simp only [hcomplete, true_and, List.mem_flatMap, List.mem_filter, decide_eq_true_eq]
        constructor
        · intro ⟨⟨bundleSHA256, executableSHA256⟩, ⟨hlink, hsame⟩, hout⟩
          simp only at hsame hout
          subst hsame
          cases hwrite : db.executables.lookup executableSHA256 with
          | none => simp [hwrite] at hout
          | some write =>
            have hkey := hwf.uploads.executable_key executableSHA256 write hwrite
            rw [hwrite] at hout
            simp only at hout
            split_ifs at hout
            · cases hout
            · rw [List.mem_singleton.mp hout]
              exact ⟨⟨rfl, hkey ▸ hlink⟩, rfl⟩
        · intro ⟨⟨hbinary, hlink⟩, hout⟩
          have hmem := hwf.uploads.link_rows _ hlink
          obtain ⟨write, hwrite⟩ := Option.isSome_iff_exists.mp (AList.lookup_isSome.mpr hmem)
          have hkey := hwf.uploads.executable_key _ write hwrite
          have hne : write.sha256 ≠ "" := hkey ▸ hwf.uploads.executable_check _ hmem
          have hidentity : out.identityKey = ⟨.binary, write.sha256⟩ := by rw [← hbinary, hkey]
          refine ⟨_, ⟨hlink, rfl⟩, ?_⟩
          simp only [hwrite, hne, if_false, List.mem_singleton]
          rw [hidentity] at hout
          exact hout
      · rw [if_pos (by simpa [Option.isSome_iff_ne_none] using hcomplete)]
        simp [hcomplete]
  · simp only [expand, htype, ne_eq, not_false_eq_true, if_true, Gives, true_and, false_and, or_false,
      appName, if_false, List.mem_singleton]
    constructor
    · intro hout
      rw [hout]
      exact ⟨rfl, rfl⟩
    · intro ⟨hkey, hout⟩
      rwa [hkey] at hout

/-- The rows of the query: one for every rule that applies and every identity it gives. -/
theorem mem_resolvedRulesForHost (hwf : db.Wf) {out : HostRule} : out ∈ resolvedRulesForHost db hostID ↔
    ∃ rule target, db.rules.row out.ruleID = some rule ∧ excluded db hostID rule = false ∧
      firstInclude db hostID rule = some target ∧ Gives db rule out.identityKey ∧
      out = hostRule out.ruleID rule target out.identityKey (appName db rule) := by
  rw [resolvedRulesForHost, List.mem_flatMap]
  constructor
  · intro ⟨⟨id, rule, target, position⟩, hselected, hout⟩
    obtain ⟨hgives, heq⟩ := (mem_expand hwf).mp hout
    obtain ⟨hrow, hexcluded, hfirst⟩ := mem_selectedIncludes.mp ⟨position, hselected⟩
    have hid : out.ruleID = id := by rw [heq]; rfl
    subst hid
    exact ⟨rule, target, hrow, hexcluded, hfirst, hgives, heq⟩
  · intro ⟨rule, target, hrow, hexcluded, hfirst, hgives, heq⟩
    obtain ⟨position, hselected⟩ := mem_selectedIncludes.mpr ⟨hrow, hexcluded, hfirst⟩
    exact ⟨_, hselected, (mem_expand hwf).mpr ⟨hgives, heq⟩⟩

/-- A rule has one row for each of its identities. -/
theorem row_unique (hwf : db.Wf) {a b : HostRule} (ha : a ∈ resolvedRulesForHost db hostID)
    (hb : b ∈ resolvedRulesForHost db hostID) (hid : a.ruleID = b.ruleID)
    (hkey : a.identityKey = b.identityKey) : a = b := by
  obtain ⟨rule, target, hrow, -, hfirst, -, heq⟩ := (mem_resolvedRulesForHost hwf).mp ha
  obtain ⟨rule', target', hrow', -, hfirst', -, heq'⟩ := (mem_resolvedRulesForHost hwf).mp hb
  rw [hid, hrow'] at hrow
  obtain rfl := Option.some.inj hrow
  obtain rfl := Option.some.inj (hfirst.symm.trans hfirst')
  rw [heq, heq', hid, hkey]

end

section

variable {c : Collation} {a b d : HostRule}

theorem hostRuleLE_total (c : Collation) (a b : HostRule) : hostRuleLE c a b ∨ hostRuleLE c b a := by
  rcases Nat.lt_trichotomy (ruleTypeSort a.ruleType) (ruleTypeSort b.ruleType) with hlt | heq | hgt
  · exact Or.inl (Or.inl hlt)
  · by_cases hident : a.identifier = b.identifier
    · rcases Int.le_total a.ruleID b.ruleID with hle | hle
      · exact Or.inl (Or.inr ⟨heq, by rwa [if_pos hident]⟩)
      · exact Or.inr (Or.inr ⟨heq.symm, by rwa [if_pos hident.symm]⟩)
    · rcases c.total a.identifier b.identifier with hle | hle
      · exact Or.inl (Or.inr ⟨heq, by rwa [if_neg hident]⟩)
      · exact Or.inr (Or.inr ⟨heq.symm, by rwa [if_neg (Ne.symm hident)]⟩)
  · exact Or.inr (Or.inl hgt)

theorem hostRuleLE_trans (hab : hostRuleLE c a b) (hbd : hostRuleLE c b d) : hostRuleLE c a d := by
  rcases hab with hab | ⟨hab, hle⟩
  · rcases hbd with hbd | ⟨hbd, -⟩
    · exact Or.inl (Nat.lt_trans hab hbd)
    · exact Or.inl (hbd ▸ hab)
  · rcases hbd with hbd | ⟨hbd, hle'⟩
    · exact Or.inl (hab ▸ hbd)
    · refine Or.inr ⟨hab.trans hbd, ?_⟩
      by_cases h₁ : a.identifier = b.identifier
      · rw [if_pos h₁] at hle
        rw [h₁]
        split_ifs at hle' ⊢ with h₂
        · exact Int.le_trans hle hle'
        · exact hle'
      · rw [if_neg h₁] at hle
        by_cases h₂ : b.identifier = d.identifier
        · rw [h₂] at h₁ hle
          rwa [if_neg h₁]
        · rw [if_neg h₂] at hle'
          have h₃ : a.identifier ≠ d.identifier := fun heq => h₁ (c.antisymm _ _ hle (heq ▸ hle'))
          rw [if_neg h₃]
          exact c.trans _ _ _ hle hle'

theorem hostRuleLE_antisymm (hab : hostRuleLE c a b) (hba : hostRuleLE c b a) :
    a.identityKey = b.identityKey ∧ a.ruleID = b.ruleID := by
  rcases hab with hab | ⟨hab, hle⟩
  · rcases hba with hba | ⟨hba, -⟩
    · omega
    · omega
  · rcases hba with hba | ⟨hba, hle'⟩
    · omega
    · have htype : a.ruleType = b.ruleType := by
        revert hab
        cases a.ruleType <;> cases b.ruleType <;> simp [ruleTypeSort]
      by_cases hident : a.identifier = b.identifier
      · rw [if_pos hident] at hle
        rw [if_pos hident.symm] at hle'
        exact ⟨by rw [HostRule.identityKey, HostRule.identityKey, htype, hident], by omega⟩
      · rw [if_neg hident] at hle
        rw [if_neg (Ne.symm hident)] at hle'
        exact absurd (c.antisymm _ _ hle hle') hident

instance (c : Collation) : Std.Total (hostRuleLE c) := ⟨hostRuleLE_total c⟩

instance (c : Collation) : IsTrans HostRule (hostRuleLE c) := ⟨fun _ _ _ => hostRuleLE_trans⟩

end

section

variable {db : Db} {hostID : Int} {c : Collation}

theorem resolveRulesForHost_perm (c : Collation) (db : Db) (hostID : Int) :
    (resolveRulesForHost c db hostID).Perm (resolvedRulesForHost db hostID) := List.perm_insertionSort _ _

theorem resolveRulesForHost_sorted (c : Collation) (db : Db) (hostID : Int) :
    (resolveRulesForHost c db hostID).Pairwise (hostRuleLE c) := List.pairwise_insertionSort _ _

/-- Whatever sort orders the rows, and whatever order they came in, the list is the same. -/
theorem order_unique (hwf : db.Wf) {rows : List HostRule} (hperm : rows.Perm (resolvedRulesForHost db hostID))
    (hsorted : rows.Pairwise (hostRuleLE c)) : rows = resolveRulesForHost c db hostID := by
  apply (hperm.trans (resolveRulesForHost_perm c db hostID).symm).eq_of_pairwise _ hsorted
    (resolveRulesForHost_sorted c db hostID)
  intro a b ha hb hab hba
  obtain ⟨hkey, hid⟩ := hostRuleLE_antisymm hab hba
  have hb' := (resolveRulesForHost_perm c db hostID).mem_iff.mp hb
  exact row_unique hwf (hperm.mem_iff.mp ha) hb' hid hkey

end

/-- The rule types whose identifiers are digests in hexadecimal. -/
def isDigest : RuleType → Bool
  | .binary | .certificate | .cdhash => true
  | .teamid | .signingid | .bundle => false

/-- One text for all spellings of a digest. -/
def spelling (ruleType : RuleType) (identifier : String) : String :=
  if isDigest ruleType = true then toLower identifier else identifier

/-- The identifiers that a host is sent: executables are known by what clients reported,
all others were validated. -/
def Sent (ruleType : RuleType) (identifier : String) : Prop :=
  ruleType = .binary ∨ validateRuleIdentifier ruleType identifier = .ok ()

/-- The key under which the client holds a rule does not see the case of a digest. -/
structure ClientIdentity {K : Type} (clientKey : RuleType → String → K) : Prop where
  same : ∀ ruleType identifier ruleType' identifier', Sent ruleType identifier → Sent ruleType' identifier' →
    (clientKey ruleType identifier = clientKey ruleType' identifier' ↔
      ruleType = ruleType' ∧ spelling ruleType identifier = spelling ruleType' identifier')

/-- What SyncTargetsFromRules(ResolveRulesForHost(host)) returns. -/
def hostTargets (c : Collation) (db : Db) (hostID : Int) : List Target :=
  syncTargetsFromRules (resolveRulesForHost c db hostID)

/-- A rule that applies to the host and gives it the identity. -/
structure Source (db : Db) (hostID : Int) (key : RuleKey) (id : Int) (rule : RuleMutation) : Prop where
  row : db.rules.row id = some rule
  applies : applies db hostID rule = true
  gives : Gives db rule key

/-- The target that a rule makes of an identity with one of its includes. -/
def targetOf (rule : RuleMutation) (row : RuleInclude) (key : RuleKey) (name : String) : Target where
  ruleType := key.ruleType
  identifier := key.identifier
  policy := row.policy
  celExpression := row.celExpression
  customMessage := rule.customMessage
  customURL := rule.customURL
  appName := name

structure ResolutionLaw {K : Type} (clientKey : RuleType → String → K) (c : Collation) (db : Db)
    (hostID : Int) : Prop where
  membership : ∀ key, (∃ target ∈ hostTargets c db hostID, target.identityKey = key) ↔
    ∃ id rule, Source db hostID key id rule
  content : ∀ target ∈ hostTargets c db hostID, ∃ id rule row,
    Source db hostID target.identityKey id rule ∧
    (∀ id' rule', Source db hostID target.identityKey id' rule' → id ≤ id') ∧
    firstInclude db hostID rule = some row ∧
    target = targetOf rule row target.identityKey (appName db rule)
  order_free : ∀ rows : List HostRule, rows.Perm (resolvedRulesForHost db hostID) →
    rows.Pairwise (hostRuleLE c) → syncTargetsFromRules rows = hostTargets c db hostID
  unique : ((hostTargets c db hostID).map Target.identityKey).Nodup
  distinct_on_client : ((hostTargets c db hostID).map (fun target =>
    clientKey target.ruleType target.identifier)).Nodup

/-- No digest reaches the host in two spellings. -/
def SpelledOnce (db : Db) (hostID : Int) : Prop :=
  ∀ key id rule key' id' rule', Source db hostID key id rule → Source db hostID key' id' rule' →
    isDigest key.ruleType = true → key.ruleType = key'.ruleType →
    toLower key.identifier = toLower key'.identifier → key.identifier = key'.identifier

section

variable {db : Db} {hostID : Int} {c : Collation}

theorem exists_row_iff (hwf : db.Wf) (key : RuleKey) (id : Int) :
    (∃ row ∈ resolveRulesForHost c db hostID, row.identityKey = key ∧ row.ruleID = id) ↔
      ∃ rule, Source db hostID key id rule := by
  simp only [(resolveRulesForHost_perm c db hostID).mem_iff, mem_resolvedRulesForHost hwf]
  constructor
  · rintro ⟨row, ⟨rule, target, hrow, hexcluded, hfirst, hgives, -⟩, rfl, rfl⟩
    exact ⟨rule, hrow, applies_iff.mpr ⟨hexcluded, target, hfirst⟩, hgives⟩
  · intro ⟨rule, hrow, happlies, hgives⟩
    obtain ⟨hexcluded, target, hfirst⟩ := applies_iff.mp happlies
    exact ⟨hostRule id rule target key (appName db rule),
      ⟨rule, target, hrow, hexcluded, hfirst, hgives, rfl⟩, rfl, rfl⟩

theorem mem_hostTargets {target : Target} : target ∈ hostTargets c db hostID ↔
    ∃ row ∈ firstBy HostRule.identityKey [] (resolveRulesForHost c db hostID), row.target = target :=
  List.mem_map

theorem hostTargets_membership (hwf : db.Wf) (key : RuleKey) :
    (∃ target ∈ hostTargets c db hostID, target.identityKey = key) ↔
      ∃ id rule, Source db hostID key id rule := by
  have hkeys : (∃ target ∈ hostTargets c db hostID, target.identityKey = key) ↔
      ∃ row ∈ resolveRulesForHost c db hostID, row.identityKey = key := by
    constructor
    · intro ⟨target, htarget, hkey⟩
      obtain ⟨row, hrow, rfl⟩ := mem_hostTargets.mp htarget
      exact ⟨row, FirstWins.mem_of_mem_firstBy hrow, hkey⟩
    · intro ⟨row, hrow, hkey⟩
      obtain ⟨kept, hkept, hkey'⟩ := FirstWins.exists_key_firstBy.mpr ⟨row, hrow, hkey⟩
      exact ⟨kept.target, mem_hostTargets.mpr ⟨kept, hkept, rfl⟩, hkey'⟩
  rw [hkeys]
  constructor
  · intro ⟨row, hrow, hkey⟩
    exact ⟨row.ruleID, (exists_row_iff hwf key row.ruleID).mp ⟨row, hrow, hkey, rfl⟩⟩
  · intro ⟨id, hsource⟩
    obtain ⟨row, hrow, hkey, -⟩ := (exists_row_iff hwf key id).mpr hsource
    exact ⟨row, hrow, hkey⟩

/-- The rule with the lowest id decides, with its first include that matches. -/
theorem hostTargets_content (hwf : db.Wf) {target : Target} (h : target ∈ hostTargets c db hostID) :
    ∃ id rule row, Source db hostID target.identityKey id rule ∧
      (∀ id' rule', Source db hostID target.identityKey id' rule' → id ≤ id') ∧
      firstInclude db hostID rule = some row ∧
      target = targetOf rule row target.identityKey (appName db rule) := by
  obtain ⟨row, hkept, rfl⟩ := mem_hostTargets.mp h
  have hresolved := (resolveRulesForHost_perm c db hostID).mem_iff.mp (FirstWins.mem_of_mem_firstBy hkept)
  obtain ⟨rule, selected, hrow, hexcluded, hfirst, hgives, heq⟩ := (mem_resolvedRulesForHost hwf).mp hresolved
  refine ⟨row.ruleID, rule, selected, ⟨hrow, applies_iff.mpr ⟨hexcluded, _, hfirst⟩, hgives⟩, ?_, hfirst, ?_⟩
  · intro id' rule' hsource
    obtain ⟨row', hrow', hkey, rfl⟩ := (exists_row_iff (c := c) hwf _ id').mpr ⟨rule', hsource⟩
    have hsorted := resolveRulesForHost_sorted c db hostID
    rcases FirstWins.le_of_mem_firstBy hsorted hkept hrow' hkey with rfl | hle
    · exact Int.le_refl _
    · have hkey' : row'.identityKey = row.identityKey := hkey
      obtain ⟨htype, hident⟩ := RuleKey.mk.inj hkey'
      rcases hle with hlt | ⟨-, hle⟩
      · rw [htype] at hlt
        omega
      · rwa [if_pos hident.symm] at hle
  · rw [heq]
    rfl

theorem hostTargets_unique (c : Collation) (db : Db) (hostID : Int) :
    ((hostTargets c db hostID).map Target.identityKey).Nodup := by
  have hmap : (hostTargets c db hostID).map Target.identityKey =
      (firstBy HostRule.identityKey [] (resolveRulesForHost c db hostID)).map HostRule.identityKey := by
    rw [hostTargets, syncTargetsFromRules, List.map_map]
    rfl
  rw [hmap]
  exact FirstWins.nodup_firstBy _ _ _

theorem Source.sent (hwf : db.Wf) {key : RuleKey} {id : Int} {rule : RuleMutation}
    (h : Source db hostID key id rule) : Sent key.ruleType key.identifier := by
  rcases h.gives with ⟨-, rfl⟩ | ⟨-, hbinary, -⟩
  · exact Or.inr (hwf.rules.identifiers id rule h.row)
  · exact Or.inl hbinary

/-- Two targets are one rule on the client exactly when they spell one digest in two ways. -/
theorem distinct_on_client_iff {K : Type} {clientKey : RuleType → String → K}
    (hclient : ClientIdentity clientKey) (hwf : db.Wf) :
    ((hostTargets c db hostID).map (fun target => clientKey target.ruleType target.identifier)).Nodup ↔
      SpelledOnce db hostID := by
  have hunique := hostTargets_unique c db hostID
  rw [List.nodup_map_iff_inj_on (List.Nodup.of_map _ hunique)]
  constructor
  · intro hinj key id rule key' id' rule' hsource hsource' hdigest htype hlower
    obtain ⟨target, htarget, rfl⟩ := (hostTargets_membership (c := c) hwf key).mpr ⟨id, rule, hsource⟩
    obtain ⟨target', htarget', rfl⟩ := (hostTargets_membership (c := c) hwf key').mpr ⟨id', rule', hsource'⟩
    have hspelling : spelling target.ruleType target.identifier =
        spelling target'.ruleType target'.identifier := by
      have htype' : target.ruleType = target'.ruleType := htype
      have hdigest' : isDigest target.ruleType = true := hdigest
      rw [spelling, spelling, ← htype', if_pos hdigest', if_pos hdigest']
      exact hlower
    have heq := hinj target htarget target' htarget'
      ((hclient.same _ _ _ _ (hsource.sent hwf) (hsource'.sent hwf)).mpr ⟨htype, hspelling⟩)
    rw [heq]
  · intro hspelled target htarget target' htarget' hsame
    obtain ⟨id, rule, hsource⟩ := (hostTargets_membership hwf _).mp ⟨target, htarget, rfl⟩
    obtain ⟨id', rule', hsource'⟩ := (hostTargets_membership hwf _).mp ⟨target', htarget', rfl⟩
    have hboth : target.ruleType = target'.ruleType ∧
        spelling target.ruleType target.identifier = spelling target'.ruleType target'.identifier :=
      (hclient.same _ _ _ _ (hsource.sent hwf) (hsource'.sent hwf)).mp hsame
    obtain ⟨htype, hspelling⟩ := hboth
    apply List.inj_on_of_nodup_map hunique htarget htarget'
    have hident : target.identifier = target'.identifier := by
      rw [spelling, spelling, ← htype] at hspelling
      split_ifs at hspelling with hdigest
      · exact hspelled _ _ _ _ _ _ hsource hsource' hdigest htype hspelling
      · exact hspelling
    rw [Target.identityKey, Target.identityKey, htype, hident]

end

/-- After any rule, label and event operations and for every host, resolution follows
the law if and only if no digest reaches the host in two spellings. -/
theorem resolution_law_iff {K : Type} {clientKey : RuleType → String → K}
    (hclient : ClientIdentity clientKey) (env : Env) (ops : List Op) (c : Collation) (hostID : Int) :
    ResolutionLaw clientKey c (Runs.exec (step env) {} ops) hostID ↔
      SpelledOnce (Runs.exec (step env) {} ops) hostID := by
  have hwf := wf_exec env ops
  constructor
  · intro hlaw
    exact (distinct_on_client_iff hclient hwf).mp hlaw.distinct_on_client
  · intro hspelled
    constructor
    · exact hostTargets_membership hwf
    · intro target htarget
      exact hostTargets_content hwf htarget
    · intro rows hperm hsorted
      rw [order_unique hwf hperm hsorted]
      rfl
    · exact hostTargets_unique c _ hostID
    · exact (distinct_on_client_iff hclient hwf).mpr hspelled

/-- Digests in lower case are spelled once. -/
theorem spelledOnce_of_lower {db : Db} {hostID : Int}
    (hrules : ∀ id ∈ db.rules.ids, ∀ rule ∈ db.rules.row id,
      isDigest rule.ruleType = true → toLower rule.identifier = rule.identifier)
    (hlinks : ∀ link ∈ db.links, toLower link.executableSHA256 = link.executableSHA256) :
    SpelledOnce db hostID := by
  have hlower : ∀ {key id rule}, Source db hostID key id rule → isDigest key.ruleType = true →
      toLower key.identifier = key.identifier := by
    intro key id rule hsource hdigest
    rcases hsource.gives with ⟨-, rfl⟩ | ⟨-, -, -, hlink⟩
    · exact hrules id (Table.mem_ids.mpr (by rw [hsource.row]; rfl)) rule hsource.row hdigest
    · have hexecutable := hlinks _ hlink
      exact hexecutable
  intro key id rule key' id' rule' hsource hsource' hdigest htype heq
  rwa [hlower hsource hdigest, hlower hsource' (htype ▸ hdigest)] at heq

/-- The order of code points. -/
def byCodePoint : Collation where
  le a b := decide (a ≤ b)
  total a b := by simpa using le_total a b
  trans a b c := by simpa using le_trans
  antisymm a b := by simpa using le_antisymm

def sampleEnv : Env where
  httpsURL _ := false
  celIssues _ := none
  hash := String.join

def sampleClientKey (ruleType : RuleType) (identifier : String) : RuleType × String :=
  (ruleType, spelling ruleType identifier)

theorem sampleClientKey_identity : ClientIdentity sampleClientKey where
  same _ _ _ _ _ _ := by rw [sampleClientKey, sampleClientKey, Prod.mk.injEq]

def sampleDigest (c : Char) : String := String.ofList (List.replicate 64 c)

def sampleRule (ruleType : RuleType) (identifier : String) (policy : Policy) : RuleMutation where
  ruleType := ruleType
  identifier := identifier
  name := "rule"
  targets := { includes := [{ policy, labelID := 1 }] }

theorem toList_sampleDigest (c : Char) : (sampleDigest c).toList = List.replicate 64 c := String.toList_ofList

theorem toLower_sampleDigest (c : Char) : toLower (sampleDigest c) = sampleDigest c.toLower := by
  rw [toLower, toList_sampleDigest, List.map_replicate, sampleDigest]

theorem trimSpace_sampleDigest {c : Char} (hspace : isSpace c = false) :
    trimSpace (sampleDigest c) = sampleDigest c := by
  have hkept : (List.replicate 64 c).dropWhile isSpace = List.replicate 64 c := by
    simp [hspace]
  rw [trimSpace, toList_sampleDigest, hkept, List.reverse_replicate, hkept, List.reverse_replicate, sampleDigest]

theorem isHash_sampleDigest {c : Char} (hhex : isHexDigit c = true) : isHash 64 (sampleDigest c) = true := by
  simp [isHash, toList_sampleDigest, hhex]

theorem isText_sampleDigest {c : Char} (htext : c.toNat ≠ 0) : isText (sampleDigest c) = true := by
  simp [isText, toList_sampleDigest, htext]

theorem normalize_sampleRule {c : Char} (hspace : isSpace c = false) (ruleType : RuleType) (policy : Policy) :
    (sampleRule ruleType (sampleDigest c) policy).normalize = sampleRule ruleType (sampleDigest c) policy := by
  simp only [RuleMutation.normalize, sampleRule, trimSpace_sampleDigest hspace]
  rfl

theorem sampleDigest_ne_empty (c : Char) : sampleDigest c ≠ "" := by
  intro hempty
  have hlist := congrArg String.toList hempty
  rw [toList_sampleDigest] at hlist
  cases hlist

/-- A rule of the sample passes the checks that do not read the tables. -/
theorem validate_sampleRule {c : Char} (hspace : isSpace c = false) (hhex : isHexDigit c = true)
    {ruleType : RuleType} (htype : ruleType = .binary ∨ ruleType = .bundle) {policy : Policy}
    (hpolicy : policy ≠ .cel) :
    (sampleRule ruleType (sampleDigest c) policy).validate sampleEnv = .ok () := by
  have htext : requireText "Identifier" (sampleDigest c) = .ok () := by
    simp [requireText, notBlank, trimSpace_sampleDigest hspace, sampleDigest_ne_empty]
  have hname : requireText "Name" "rule" = .ok () := by decide
  have hident : validateRuleIdentifier ruleType (sampleDigest c) = .ok () := by
    obtain rfl | rfl := htype <;> simp [validateRuleIdentifier, isHash_sampleDigest hhex]
  have hinclude : validateInclude { policy, labelID := 1 } = .ok () := by
    simp [validateInclude, hpolicy]
  have hincludes : [({ policy, labelID := 1 } : RuleInclude)].forM validateInclude = .ok () := by
    rw [List.forM_eq_forM, List.forM_cons, hinclude]
    rfl
  have hlabels : Targeting.validateTargets RuleInclude.labelID [{ policy, labelID := 1 }] [] = .ok () := rfl
  have hcel : [({ policy, labelID := 1 } : RuleInclude)].forM (validateCELSyntax sampleEnv) = .ok () := by
    simp only [List.forM_eq_forM, List.forM_cons, List.forM_nil, validateCELSyntax, ne_eq, hpolicy,
      not_false_eq_true, if_true]
    rfl
  have htargets : (sampleRule ruleType (sampleDigest c) policy).targets.validate sampleEnv = .ok () := by
    simp only [RuleTargets.validate, sampleRule, hincludes, hcel, hlabels]
    rfl
  have hurl : validateURL sampleEnv "" = .ok () := if_pos (.inl rfl)
  simp only [RuleMutation.validate, htargets]
  simp only [sampleRule, htext, hname, hident, hincludes, hurl]
  rfl

theorem storable_sampleRule {c : Char} (htext : c.toNat ≠ 0) (ruleType : RuleType) (policy : Policy) :
    (sampleRule ruleType (sampleDigest c) policy).storable = true := by
  have hname : isText "rule" = true := by decide
  have hempty : isText "" = true := by decide
  simp [RuleMutation.storable, sampleRule, isText_sampleDigest htext, hname, hempty]

/-- A rule of the sample is inserted when the tables admit it. -/
theorem step_create_sampleRule {c : Char} (hspace : isSpace c = false) (hhex : isHexDigit c = true)
    (htext : c.toNat ≠ 0) {ruleType : RuleType} (htype : ruleType = .binary ∨ ruleType = .bundle)
    {policy : Policy} (hpolicy : policy ≠ .cel) {db : Db}
    (hbundle : validateBundleRuleTarget db (sampleRule ruleType (sampleDigest c) policy) = .ok ())
    (hfree : db.taken none (sampleRule ruleType (sampleDigest c) policy) = false)
    (hlabels : db.labelsExist (sampleRule ruleType (sampleDigest c) policy).targets = true) :
    step sampleEnv db (.create (sampleRule ruleType (sampleDigest c) policy)) =
      { db with rules := db.rules.insert (sampleRule ruleType (sampleDigest c) policy) } := by
  have hcheck : checkMutation sampleEnv db (sampleRule ruleType (sampleDigest c) policy) = .ok () := by
    have hexcludes : validateRuleTargetingLabels db (sampleRule ruleType (sampleDigest c) policy) = .ok () := rfl
    simp only [checkMutation, validate_sampleRule hspace hhex htype hpolicy, hexcludes, hbundle,
      storable_sampleRule htext, if_true]
    rfl
  have hcreate : create sampleEnv db (sampleRule ruleType (sampleDigest c) policy) =
      .ok { db with rules := db.rules.insert (sampleRule ruleType (sampleDigest c) policy) } := by
    simp only [create, normalize_sampleRule hspace, hcheck, hfree, hlabels, Bool.false_eq_true,
      Bool.true_eq_false, if_false]
    rfl
  simp only [step, answer, hcreate]

/-- A host in a label. -/
def labelledDb : Db := Runs.exec (step sampleEnv) {} [.createLabel .regular, .setMembership 1 1 true]

/-- A bundle of one executable, a rule for the bundle and a rule for the executable. -/
def overlapOps : List Op :=
  [.createLabel .regular, .setMembership 1 1 true,
    .ingestEvents { executionEvents := [{
      fileSHA256 := sampleDigest 'e'
      decision := .bundleBinary
      bundleHash := sampleDigest 'b'
      bundleName := "App"
      bundleBinaryCount := 1 }] } 7,
    .create (sampleRule .bundle (sampleDigest 'b') .blocklist),
    .create (sampleRule .binary (sampleDigest 'e') .allowlist)]

/-- The upload of a bundle with its one executable. -/
def bundleUpload : Upload where
  executionEvents := [{
    fileSHA256 := sampleDigest 'e'
    decision := .bundleBinary
    bundleHash := sampleDigest 'b'
    bundleName := "App"
    bundleBinaryCount := 1 }]

def bundlePlan : IngestPlan := newIngestPlan sampleEnv.hash bundleUpload

/-- A host in a label and the rows of the upload. -/
def bundledDb : Db :=
  { labelledDb with
    executables := bundlePlan.executables.foldl upsertExecutable labelledDb.executables
    links := bundlePlan.bundleExecutableLinks.foldl linkBundleExecutable labelledDb.links
    bundles := (bundlePlan.bundles.map BundleWrite.sha256).foldl
      (reconcileBundleCompletion (bundlePlan.bundleExecutableLinks.foldl linkBundleExecutable labelledDb.links) 7)
      (bundlePlan.bundles.foldl upsertBundle labelledDb.bundles) }

theorem step_bundleUpload : step sampleEnv labelledDb (.ingestEvents bundleUpload 7) = bundledDb := by
  have hhashes : bundlePlan.executables.map ExecutableWrite.sha256 = [sampleDigest 'e'] ∧
      bundlePlan.bundles.map BundleWrite.sha256 = [sampleDigest 'b'] := by
    decide +kernel
  have htext : ∀ c ≠ ' ', [sampleDigest c].all btrimNotEmpty = true := by
    intro c hc
    simp [btrimNotEmpty, toList_sampleDigest, hc]
  have hstored : IngestPlan.storable bundlePlan = true := by
    rw [IngestPlan.storable, Bool.and_eq_true]
    constructor
    · have hall := htext 'e' (by decide)
      rwa [← hhashes.1, List.all_map] at hall
    · have hall := htext 'b' (by decide)
      rwa [← hhashes.2, List.all_map] at hall
  have hevents : ¬(bundleUpload.executionEvents = [] ∧ bundleUpload.fileAccessEvents = [] ∧
      bundleUpload.standaloneEvents = []) := by decide +kernel
  have hvalid : validateEventInputs bundleUpload = true := by decide
  simp only [step, answer, ingestEvents, hevents, hvalid, Bool.true_eq_false, if_false]
  rw [← bundlePlan, ingestEventsTx, hstored]
  rfl

theorem bundle_bundledDb :
    validateBundleRuleTarget bundledDb (sampleRule .bundle (sampleDigest 'b') .blocklist) = .ok () ∧
      bundledDb.links = [⟨sampleDigest 'b', sampleDigest 'e'⟩] := by
  decide +kernel

theorem exec_overlapOps : Runs.exec (step sampleEnv) {} overlapOps =
    { bundledDb with
      rules := (Table.empty.insert (sampleRule .bundle (sampleDigest 'b') .blocklist)).insert
        (sampleRule .binary (sampleDigest 'e') .allowlist) } := by
  have hfirst : step sampleEnv bundledDb (.create (sampleRule .bundle (sampleDigest 'b') .blocklist)) =
      { bundledDb with
        rules := Table.empty.insert (sampleRule .bundle (sampleDigest 'b') .blocklist) } :=
    @step_create_sampleRule 'b' (by decide) (by decide) (by decide) .bundle (.inr rfl) .blocklist (by decide) bundledDb
      bundle_bundledDb.1 rfl (by decide)
  have hops : overlapOps = [.createLabel .regular, .setMembership 1 1 true] ++
      [.ingestEvents bundleUpload 7, .create (sampleRule .bundle (sampleDigest 'b') .blocklist),
        .create (sampleRule .binary (sampleDigest 'e') .allowlist)] := rfl
  rw [hops, Runs.exec_append, Runs.exec_cons, Runs.exec_cons, Runs.exec_cons, Runs.exec_nil, ← labelledDb,
    step_bundleUpload, hfirst]
  exact step_create_sampleRule (by decide) (by decide) (by decide) (.inl rfl) (by decide) rfl
    (by decide +kernel) (by decide +kernel)

/-- The digests of the sample are in lower case, and the bundle rule comes first. -/
theorem overlap_runs :
    (∀ id ∈ (Runs.exec (step sampleEnv) {} overlapOps).rules.ids,
      ∀ rule ∈ (Runs.exec (step sampleEnv) {} overlapOps).rules.row id,
        isDigest rule.ruleType = true → toLower rule.identifier = rule.identifier) ∧
    (∀ link ∈ (Runs.exec (step sampleEnv) {} overlapOps).links,
      toLower link.executableSHA256 = link.executableSHA256) ∧
    (hostTargets byCodePoint (Runs.exec (step sampleEnv) {} overlapOps) 1).map Target.policy =
      [.blocklist] := by
  rw [exec_overlapOps]
  refine ⟨?_, ?_, ?_⟩
  · intro id _ rule hrule _
    rw [Table.row_insert, Table.row_insert] at hrule
    split at hrule
    · obtain rfl := Option.mem_some_iff.mp hrule
      exact toLower_sampleDigest 'e'
    · split at hrule
      · obtain rfl := Option.mem_some_iff.mp hrule
        exact toLower_sampleDigest 'b'
      · cases hrule
  · simp [bundle_bundledDb.2, toLower_sampleDigest]
  · decide +kernel

theorem resolution_law_overlap :
    ResolutionLaw sampleClientKey byCodePoint (Runs.exec (step sampleEnv) {} overlapOps) 1 ∧
    (hostTargets byCodePoint (Runs.exec (step sampleEnv) {} overlapOps) 1).map Target.policy = [.blocklist] :=
  ⟨(resolution_law_iff sampleClientKey_identity sampleEnv overlapOps byCodePoint 1).mpr
    (spelledOnce_of_lower overlap_runs.1 overlap_runs.2.1), overlap_runs.2.2⟩

/-- Two rules for one binary, its hash in lower and in upper case. -/
def mixedCaseOps : List Op :=
  [.createLabel .regular, .setMembership 1 1 true,
    .create (sampleRule .binary (sampleDigest 'a') .allowlist),
    .create (sampleRule .binary (sampleDigest 'A') .blocklist)]

theorem exec_mixedCaseOps : Runs.exec (step sampleEnv) {} mixedCaseOps =
    { labelledDb with
      rules := (Table.empty.insert (sampleRule .binary (sampleDigest 'a') .allowlist)).insert
        (sampleRule .binary (sampleDigest 'A') .blocklist) } := by
  have hfirst : step sampleEnv labelledDb (.create (sampleRule .binary (sampleDigest 'a') .allowlist)) =
      { labelledDb with
        rules := Table.empty.insert (sampleRule .binary (sampleDigest 'a') .allowlist) } :=
    step_create_sampleRule (by decide) (by decide) (by decide) (.inl rfl) (by decide) rfl rfl (by decide)
  have hops : mixedCaseOps = [.createLabel .regular, .setMembership 1 1 true] ++
      [.create (sampleRule .binary (sampleDigest 'a') .allowlist),
        .create (sampleRule .binary (sampleDigest 'A') .blocklist)] := rfl
  rw [hops, Runs.exec_append, Runs.exec_cons, Runs.exec_cons, Runs.exec_nil, ← labelledDb, hfirst]
  exact step_create_sampleRule (by decide) (by decide) (by decide) (.inl rfl) (by decide) rfl
    (by decide +kernel) (by decide +kernel)

/-- Both are accepted, and both reach the host as one rule of the client. -/
theorem mixed_case_rules_collide :
    (hostTargets byCodePoint (Runs.exec (step sampleEnv) {} mixedCaseOps) 1).map Target.policy =
      [.blocklist, .allowlist] ∧
    ¬((hostTargets byCodePoint (Runs.exec (step sampleEnv) {} mixedCaseOps) 1).map (fun target =>
      sampleClientKey target.ruleType target.identifier)).Nodup := by
  have hsent : (hostTargets byCodePoint (Runs.exec (step sampleEnv) {} mixedCaseOps) 1).map
      (fun target => (target.ruleType, target.identifier, target.policy)) =
        [(.binary, sampleDigest 'A', .blocklist), (.binary, sampleDigest 'a', .allowlist)] := by
    rw [exec_mixedCaseOps]
    decide +kernel
  have hkeys := congrArg (List.map fun entry => sampleClientKey entry.1 entry.2.1) hsent
  have hpolicies := congrArg (List.map fun entry => entry.2.2) hsent
  simp only [List.map_map, Function.comp_def, List.map_cons, List.map_nil] at hkeys hpolicies
  refine ⟨hpolicies, ?_⟩
  rw [hkeys]
  simp [sampleClientKey, spelling, isDigest, toLower_sampleDigest]

end SantaResolution
