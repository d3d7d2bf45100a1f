import Woodstar.GoText
import Woodstar.LabelModel
import Woodstar.Runs
import Woodstar.SantaTargets
import Woodstar.SantaUploads

/-!
# Santa rules and the tables that resolve them

`internal/santa/rules`: the validation of rules, and the operations on the tables that
`santa_resolved_rules_for_host` reads. Of labels only the type and the members are kept.
Executables and bundles are known by their unique SHA-256, which stands for the serial
id in links. An upload that fails in a table left out here changes nothing.
-/
namespace SantaRules

open GoText (cut)
open KeyedRows (Table)
open LabelModel (LabelType invalid)
open PolicyModel (requireText)
open Primitives (Fault bind_eq_ok btrimNotEmpty isHexDigit isText notBlank trimSpace)
open SantaTargets (Policy RuleType RuleKey)
open SantaUploads (BundleExecutableLink BundleWrite ByHash ExecutableWrite IngestPlan Upload
  newIngestPlan validateEventInputs)
open Targeting (LabelRef)

structure RuleInclude where
  policy : Policy
  celExpression : String := ""
  labelID : Int
  deriving DecidableEq, Repr

structure RuleTargets where
  includes : List RuleInclude := []
  excludes : List LabelRef := []
  deriving DecidableEq, Repr

structure RuleMutation where
  ruleType : RuleType
  identifier : String
  name : String
  description : String := ""
  customMessage : String := ""
  customURL : String := ""
  targets : RuleTargets := {}
  deriving DecidableEq, Repr

/-- What the source asks of its libraries: `url.Parse` in the `https_url` validation, and
the issues that the CEL parser finds. `hash` stands for `payloadhash.Hash`. -/
structure Env where
  httpsURL : String → Bool
  celIssues : String → Option String
  hash : List String → String

def normalizeRuleTargets (targets : RuleTargets) : RuleTargets :=
  { targets with
    includes := targets.includes.map (fun row => { row with celExpression := trimSpace row.celExpression }) }

def RuleMutation.normalize (p : RuleMutation) : RuleMutation where
  ruleType := p.ruleType
  identifier := trimSpace p.identifier
  name := trimSpace p.name
  description := trimSpace p.description
  customMessage := trimSpace p.customMessage
  customURL := trimSpace p.customURL
  targets := normalizeRuleTargets p.targets

def isHash (length : Nat) (identifier : String) : Bool :=
  identifier.toList.length == length && identifier.toList.all isHexDigit

def isUpperOrDigit (c : Char) : Bool := ('A' ≤ c && c ≤ 'Z') || ('0' ≤ c && c ≤ '9')

def isTeamID (identifier : List Char) : Bool :=
  identifier.length == 10 && identifier.all isUpperOrDigit

def isSigningIDChar (c : Char) : Bool :=
  ('a' ≤ c && c ≤ 'z') || isUpperOrDigit c || c == '.' || c == '-'

def isSigningID (identifier : String) : Bool :=
  match cut [':'] identifier.toList with
  | none => false
  | some (team, signing) =>
    (isTeamID team || team == "platform".toList) && !signing.isEmpty && signing.all isSigningIDChar

def validateRuleIdentifier (ruleType : RuleType) (identifier : String) : Except Fault Unit :=
  match ruleType with
  | .binary =>
    if isHash 64 identifier = true then .ok ()
    else invalid "identifier must be a 64 character SHA-256 hex hash"
  | .certificate =>
    if isHash 64 identifier = true then .ok ()
    else invalid "identifier must be a 64 character certificate SHA-256 hex fingerprint"
  | .bundle =>
    if isHash 64 identifier = true then .ok ()
    else invalid "identifier must be a 64 character bundle SHA-256 hex hash"
  | .cdhash =>
    if isHash 40 identifier = true then .ok ()
    else invalid "identifier must be a 40 character CDHash hex value"
  | .signingid =>
    if isSigningID identifier = true then .ok ()
    else invalid "identifier must be TEAMID:signing.identifier or platform:signing.identifier"
  | .teamid =>
    if isTeamID identifier.toList = true then .ok ()
    else invalid "identifier must be a 10 character uppercase Team ID"

def validateURL (env : Env) (customURL : String) : Except Fault Unit :=
  if customURL = "" ∨ env.httpsURL customURL = true then .ok ()
  else invalid "CustomURL must be an HTTPS URL"

/-- The field validations of one include. -/
def validateInclude (row : RuleInclude) : Except Fault Unit :=
  if row.policy ≠ .cel ∧ row.celExpression ≠ "" then invalid "CELExpression is not allowed"
  else if row.policy = .cel ∧ row.celExpression = "" then invalid "CELExpression is required"
  else if row.labelID ≤ 0 then invalid "LabelID must be greater than 0"
  else .ok ()

def validateCELSyntax (env : Env) (row : RuleInclude) : Except Fault Unit :=
  if row.policy ≠ .cel then .ok ()
  else match env.celIssues row.celExpression with
    | none => .ok ()
    | some issues => invalid s!"cel_expression is invalid: {issues}"

def RuleTargets.validate (env : Env) (targets : RuleTargets) : Except Fault Unit := do
  targets.includes.forM validateInclude
  targets.includes.forM (validateCELSyntax env)
  match Targeting.validateTargets RuleInclude.labelID targets.includes targets.excludes with
  | .ok () => .ok ()
  | .error message => .error (.invalidInput message)

def RuleMutation.validate (env : Env) (p : RuleMutation) : Except Fault Unit := do
  requireText "Identifier" p.identifier
  requireText "Name" p.name
  validateURL env p.customURL
  p.targets.includes.forM validateInclude
  validateRuleIdentifier p.ruleType p.identifier
  p.targets.validate env

/-- A PostgreSQL text value holds no NUL character. -/
def RuleMutation.storable (p : RuleMutation) : Bool :=
  isText p.identifier && isText p.name && isText p.description && isText p.customMessage &&
    isText p.customURL && p.targets.includes.all (fun row => isText row.celExpression)

structure BundleRow where
  write : BundleWrite
  uploadedAt : Option Int := none
  deriving DecidableEq, Repr

/-- A rule row with its target rows; the position of a target is its place in the list. -/
structure Db where
  rules : Table RuleMutation := .empty
  labels : Table LabelType := .empty
  membership : List (Int × Int) := []
  executables : ByHash ExecutableWrite := ∅
  bundles : ByHash BundleRow := ∅
  links : List BundleExecutableLink := []

local instance lawfulPair : LawfulBEq (Int × Int) := inferInstance

/-- `label_membership` of a host. -/
def Db.holds (db : Db) (hostID labelID : Int) : Bool := (hostID, labelID) ∈ db.membership

/-- Another row has the rule type and identifier. -/
def Db.taken (db : Db) (self : Option Int) (p : RuleMutation) : Bool :=
  db.rules.ids.any (fun id => some id ≠ self && (db.rules.row id).any (fun rule =>
    rule.ruleType == p.ruleType && rule.identifier == p.identifier))

def validateRuleTargetingLabels (db : Db) (p : RuleMutation) : Except Fault Unit :=
  if p.targets.excludes.any (fun ref => db.labels.row ref.labelID == some .builtin) = true then
    invalid "builtin labels cannot be excluded from Santa rules"
  else .ok ()

def validateBundleRuleTarget (db : Db) (p : RuleMutation) : Except Fault Unit :=
  if p.ruleType ≠ .bundle then .ok ()
  else match db.bundles.lookup p.identifier with
    | none => invalid "bundle reference is not collected"
    | some bundle => if bundle.uploadedAt.isSome then .ok () else invalid "bundle reference is incomplete"

/-- The foreign keys of the target rows. -/
def Db.labelsExist (db : Db) (targets : RuleTargets) : Bool :=
  targets.includes.all (fun row => (db.labels.row row.labelID).isSome) &&
    targets.excludes.all (fun ref => (db.labels.row ref.labelID).isSome)

/-- What Create and Update check before they write. -/
def checkMutation (env : Env) (db : Db) (p : RuleMutation) : Except Fault Unit := do
  p.validate env
  validateRuleTargetingLabels db p
  validateBundleRuleTarget db p
  if p.storable = true then .ok () else .error (.database "character_not_in_repertoire")

def create (env : Env) (db : Db) (params : RuleMutation) : Except Fault Db := do
  let p := params.normalize
  checkMutation env db p
  if db.taken none p = true then .error .alreadyExists
  else if db.labelsExist p.targets = false then .error .notFound
  else .ok { db with rules := db.rules.insert p }

def update (env : Env) (db : Db) (id : Int) (params : RuleMutation) : Except Fault Db := do
  let p := params.normalize
  checkMutation env db p
  if (db.rules.row id).isNone = true then .error .notFound
  else if db.taken (some id) p = true then .error .alreadyExists
  else if db.labelsExist p.targets = false then .error .notFound
  else .ok { db with rules := db.rules.modify id (fun _ => p) }

def delete (db : Db) (id : Int) : Except Fault Db :=
  if (db.rules.row id).isNone = true then .error .notFound
  else .ok { db with rules := db.rules.erase id }

def deleteMany (db : Db) (ids : List Int) : Db := { db with rules := ids.foldl Table.erase db.rules }

def createLabel (db : Db) (labelType : LabelType) : Db := { db with labels := db.labels.insert labelType }

/-- A rule has a target row for the label. -/
def Db.references (db : Db) (labelID : Int) : Bool :=
  db.rules.ids.any (fun id => (db.rules.row id).any (fun rule =>
    rule.targets.includes.any (fun row => row.labelID == labelID) ||
      rule.targets.excludes.any (fun ref => ref.labelID == labelID)))

def deleteLabel (db : Db) (labelID : Int) : Except Fault Db :=
  if (db.labels.row labelID).isNone = true then .error .notFound
  else if db.references labelID = true then .error (.conflict "label is still referenced")
  else .ok { db with
    labels := db.labels.erase labelID
    membership := db.membership.filter (fun member => member.2 != labelID) }

/-- A change of the members of a label, by whatever operation. -/
def setMembership (db : Db) (hostID labelID : Int) (member : Bool) : Except Fault Db :=
  if (db.labels.row labelID).isNone = true then .error .notFound
  else
    let others := db.membership.filter (fun pair => pair != (hostID, labelID))
    .ok { db with membership := if member = true then (hostID, labelID) :: others else others }

def upsertExecutable (executables : ByHash ExecutableWrite) (write : ExecutableWrite) :
    ByHash ExecutableWrite :=
  executables.insert write.sha256 write

/-- `COALESCE(NULLIF(new, ''), old)`. -/
def coalesce (new old : String) : String := if new ≠ "" then new else old

def mergeBundle (old new : BundleWrite) : BundleWrite where
  sha256 := old.sha256
  bundleID := coalesce new.bundleID old.bundleID
  name := coalesce new.name old.name
  path := coalesce new.path old.path
  executableRelPath := coalesce new.executableRelPath old.executableRelPath
  version := coalesce new.version old.version
  versionString := coalesce new.versionString old.versionString
  binaryCount := if 0 < new.binaryCount then new.binaryCount else old.binaryCount
  hashMillis := if 0 < new.hashMillis then new.hashMillis else old.hashMillis

def upsertBundle (bundles : ByHash BundleRow) (write : BundleWrite) : ByHash BundleRow :=
  bundles.insert write.sha256 (match bundles.lookup write.sha256 with
    | none => { write }
    | some row => { row with write := mergeBundle row.write write })

def linkBundleExecutable (links : List BundleExecutableLink) (link : BundleExecutableLink) :
    List BundleExecutableLink :=
  if link ∈ links then links else links ++ [link]

def reconcileBundleCompletion (links : List BundleExecutableLink) (now : Int) (bundles : ByHash BundleRow)
    (sha256 : String) : ByHash BundleRow :=
  match bundles.lookup sha256 with
  | none => bundles
  | some row =>
    let complete := 0 < row.write.binaryCount ∧
      row.write.binaryCount ≤ links.countP (fun link => link.bundleSHA256 = sha256)
    bundles.insert sha256
      { row with uploadedAt := if complete then some (row.uploadedAt.getD now) else none }

/-- The CHECK constraints on the hashes. -/
def IngestPlan.storable (plan : IngestPlan) : Bool :=
  plan.executables.all (fun write => btrimNotEmpty write.sha256) &&
    plan.bundles.all (fun write => btrimNotEmpty write.sha256)

def ingestEventsTx (db : Db) (plan : IngestPlan) (now : Int) : Except Fault Db :=
  if IngestPlan.storable plan = false then .error (.database "santa_sha256_check")
  else
    let links := plan.bundleExecutableLinks.foldl linkBundleExecutable db.links
    .ok { db with
      executables := plan.executables.foldl upsertExecutable db.executables
      links := links
      bundles := (plan.bundles.map BundleWrite.sha256).foldl (reconcileBundleCompletion links now)
        (plan.bundles.foldl upsertBundle db.bundles) }

def ingestEvents (env : Env) (db : Db) (upload : Upload) (now : Int) : Except Fault Db :=
  if upload.executionEvents = [] ∧ upload.fileAccessEvents = [] ∧ upload.standaloneEvents = [] then .ok db
  else if validateEventInputs upload = false then invalid "event input is invalid"
  else ingestEventsTx db (newIngestPlan env.hash upload) now

inductive Op where
  | create (params : RuleMutation)
  | update (id : Int) (params : RuleMutation)
  | delete (id : Int)
  | deleteMany (ids : List Int)
  | createLabel (labelType : LabelType)
  | deleteLabel (labelID : Int)
  | setMembership (hostID labelID : Int) (member : Bool)
  | ingestEvents (upload : Upload) (now : Int)

def answer (env : Env) (db : Db) : Op → Except Fault Db
  | .create params => create env db params
  | .update id params => update env db id params
  | .delete id => delete db id
  | .deleteMany ids => .ok (deleteMany db ids)
  | .createLabel labelType => .ok (createLabel db labelType)
  | .deleteLabel labelID => deleteLabel db labelID
  | .setMembership hostID labelID member => setMembership db hostID labelID member
  | .ingestEvents upload now => ingestEvents env db upload now

/-- An operation that fails changes nothing. -/
def step (env : Env) (db : Db) (op : Op) : Db :=
  match answer env db op with
  | .ok db' => db'
  | .error _ => db

/-- The rule table: UNIQUE (rule_type, identifier), and identifiers that were validated. -/
structure RulesWf (rules : Table RuleMutation) : Prop where
  unique : ∀ id id' rule rule', rules.row id = some rule → rules.row id' = some rule' →
    rule.ruleType = rule'.ruleType → rule.identifier = rule'.identifier → id = id'
  identifiers : ∀ id rule, rules.row id = some rule →
    validateRuleIdentifier rule.ruleType rule.identifier = .ok ()

/-- The tables of event uploads: keys, foreign keys and CHECK constraints. -/
structure UploadsWf (executables : ByHash ExecutableWrite) (links : List BundleExecutableLink) : Prop where
  executable_key : ∀ k, ∀ w ∈ executables.lookup k, w.sha256 = k
  executable_check : ∀ k ∈ executables, k ≠ ""
  link_rows : ∀ link ∈ links, link.executableSHA256 ∈ executables
  links_nodup : links.Nodup

structure Db.Wf (db : Db) : Prop where
  rules : RulesWf db.rules
  uploads : UploadsWf db.executables db.links

section

variable {env : Env} {db db' : Db} {p : RuleMutation}

theorem taken_eq_false {self : Option Int} : db.taken self p = false ↔
    ∀ id rule, db.rules.row id = some rule → some id ≠ self →
      ¬(rule.ruleType = p.ruleType ∧ rule.identifier = p.identifier) := by
  simp only [Db.taken, List.any_eq_false, Table.mem_ids, Bool.and_eq_true, decide_eq_true_eq, not_and,
    Option.any_eq_true, beq_iff_eq]
  constructor
  · intro h id rule hrow hself htype hident
    exact h id (by rw [hrow]; rfl) hself ⟨rule, hrow, by simp [htype, hident]⟩
  · intro h id hid hself ⟨rule, hrow, hsame⟩
    exact h id rule hrow hself hsame.1 hsame.2

theorem identifier_of_checkMutation (h : checkMutation env db p = .ok ()) :
    validateRuleIdentifier p.ruleType p.identifier = .ok () := by
  obtain ⟨⟨⟩, hvalidate, -⟩ := bind_eq_ok.mp h
  simp only [RuleMutation.validate, bind_eq_ok] at hvalidate
  obtain ⟨-, -, -, -, -, -, -, -, ⟨⟩, hidentifier, -⟩ := hvalidate
  exact hidentifier

theorem rulesWf_insert {rules : Table RuleMutation} (h : RulesWf rules)
    (hvalid : validateRuleIdentifier p.ruleType p.identifier = .ok ())
    (hfree : ∀ id rule, rules.row id = some rule →
      ¬(rule.ruleType = p.ruleType ∧ rule.identifier = p.identifier)) : RulesWf (rules.insert p) where
  unique := by
    intro id id' rule rule' hrow hrow' htype hident
    rw [Table.row_insert] at hrow hrow'
    split_ifs at hrow hrow' with hid hid' hid'
    · rw [hid, hid']
    · cases hrow
      exact absurd ⟨htype.symm, hident.symm⟩ (hfree id' rule' hrow')
    · cases hrow'
      exact absurd ⟨htype, hident⟩ (hfree id rule hrow)
    · exact h.unique id id' rule rule' hrow hrow' htype hident
  identifiers := by
    intro id rule hrow
    rw [Table.row_insert] at hrow
    split_ifs at hrow
    · cases hrow
      exact hvalid
    · exact h.identifiers id rule hrow

theorem rulesWf_modify {rules : Table RuleMutation} {id : Int} (h : RulesWf rules)
    (hvalid : validateRuleIdentifier p.ruleType p.identifier = .ok ())
    (hfree : ∀ id' rule, rules.row id' = some rule → some id' ≠ some id →
      ¬(rule.ruleType = p.ruleType ∧ rule.identifier = p.identifier)) :
    RulesWf (rules.modify id (fun _ => p)) := by
  have hrows : ∀ {i rule}, (rules.modify id (fun _ => p)).row i = some rule →
      (i = id ∧ rule = p) ∨ (i ≠ id ∧ rules.row i = some rule) := by
    intro i rule hrow
    rw [Table.row_modify] at hrow
    split_ifs at hrow with hi
    · obtain ⟨-, -, heq⟩ := Option.map_eq_some_iff.mp hrow
      exact Or.inl ⟨hi, heq.symm⟩
    · exact Or.inr ⟨hi, hrow⟩
  constructor
  · intro i i' rule rule' hrow hrow' htype hident
    rcases hrows hrow with ⟨hi, rfl⟩ | ⟨hi, hold⟩
    · rcases hrows hrow' with ⟨hi', rfl⟩ | ⟨hi', hold'⟩
      · rw [hi, hi']
      · exact absurd ⟨htype.symm, hident.symm⟩ (hfree i' rule' hold' (by simpa using hi'))
    · rcases hrows hrow' with ⟨hi', rfl⟩ | ⟨hi', hold'⟩
      · exact absurd ⟨htype, hident⟩ (hfree i rule hold (by simpa using hi))
      · exact h.unique i i' rule rule' hold hold' htype hident
  · intro i rule hrow
    rcases hrows hrow with ⟨-, rfl⟩ | ⟨-, hold⟩
    · exact hvalid
    · exact h.identifiers i rule hold

theorem rulesWf_erase {rules : Table RuleMutation} (h : RulesWf rules) (id : Int) :
    RulesWf (rules.erase id) := by
  have hrows : ∀ {i rule}, (rules.erase id).row i = some rule → rules.row i = some rule := by
    intro i rule hrow
    rw [Table.row_erase] at hrow
    split_ifs at hrow
    exact hrow
  constructor
  · intro i i' rule rule' hrow hrow'
    exact h.unique i i' rule rule' (hrows hrow) (hrows hrow')
  · intro i rule hrow
    exact h.identifiers i rule (hrows hrow)

theorem rulesWf_eraseAll {rules : Table RuleMutation} (h : RulesWf rules) (ids : List Int) :
    RulesWf (ids.foldl Table.erase rules) := by
  induction ids generalizing rules with
  | nil => exact h
  | cons id ids ih => exact ih (rulesWf_erase h id)

theorem wf_create {params : RuleMutation} (h : db.Wf) (hok : create env db params = .ok db') : db'.Wf := by
  obtain ⟨⟨⟩, hcheck, hwrite⟩ := bind_eq_ok.mp hok
  split_ifs at hwrite with htaken
  cases hwrite
  rw [Bool.not_eq_true, taken_eq_false] at htaken
  exact ⟨rulesWf_insert h.rules (identifier_of_checkMutation hcheck)
    (fun id rule hrow => htaken id rule hrow nofun), h.uploads⟩

theorem wf_update {id : Int} {params : RuleMutation} (h : db.Wf) (hok : update env db id params = .ok db') :
    db'.Wf := by
  obtain ⟨⟨⟩, hcheck, hwrite⟩ := bind_eq_ok.mp hok
  split_ifs at hwrite with hmissing htaken
  cases hwrite
  rw [Bool.not_eq_true, taken_eq_false] at htaken
  exact ⟨rulesWf_modify h.rules (identifier_of_checkMutation hcheck) htaken, h.uploads⟩

theorem wf_delete {id : Int} (h : db.Wf) (hok : delete db id = .ok db') : db'.Wf := by
  rw [delete] at hok
  split_ifs at hok
  cases hok
  exact ⟨rulesWf_erase h.rules id, h.uploads⟩

/-- Labels and their members are not part of the invariant. -/
theorem wf_deleteLabel {labelID : Int} (h : db.Wf) (hok : deleteLabel db labelID = .ok db') : db'.Wf := by
  rw [deleteLabel] at hok
  split_ifs at hok
  cases hok
  exact ⟨h.rules, h.uploads⟩

theorem wf_setMembership {hostID labelID : Int} {member : Bool} (h : db.Wf)
    (hok : setMembership db hostID labelID member = .ok db') : db'.Wf := by
  rw [setMembership] at hok
  split_ifs at hok
  · cases hok
    exact ⟨h.rules, h.uploads⟩
  · cases hok
    exact ⟨h.rules, h.uploads⟩

end

section

variable {executables : ByHash ExecutableWrite} {links : List BundleExecutableLink}

theorem mem_upsertExecutables (writes : List ExecutableWrite) (k : String) :
    k ∈ writes.foldl upsertExecutable executables ↔ k ∈ executables ∨ ∃ w ∈ writes, w.sha256 = k := by
  induction writes generalizing executables with
  | nil => simp
  | cons write writes ih =>
    rw [List.foldl_cons, ih, upsertExecutable, AList.mem_insert, List.exists_mem_cons_iff,
      eq_comm (a := k), or_comm (a := write.sha256 = k), or_assoc]

theorem upsertExecutables_key (h : ∀ k, ∀ w ∈ executables.lookup k, w.sha256 = k)
    (writes : List ExecutableWrite) :
    ∀ k, ∀ w ∈ (writes.foldl upsertExecutable executables).lookup k, w.sha256 = k := by
  induction writes generalizing executables with
  | nil => exact h
  | cons write writes ih =>
    apply ih
    intro k w hw
    rcases SantaUploads.lookup_insert_iff.mp hw with ⟨rfl, rfl⟩ | ⟨-, hold⟩
    · rfl
    · exact h k w hold

theorem mem_linkAll (batch : List BundleExecutableLink) (link : BundleExecutableLink) :
    link ∈ batch.foldl linkBundleExecutable links ↔ link ∈ links ∨ link ∈ batch := by
  induction batch generalizing links with
  | nil => simp
  | cons first batch ih =>
    rw [List.foldl_cons, ih, linkBundleExecutable, List.mem_cons, ← or_assoc]
    split_ifs with hmem
    · have hold : link = first → link ∈ links := fun heq => heq ▸ hmem
      rw [or_iff_left_of_imp hold]
    · rw [List.mem_append, List.mem_singleton]

theorem nodup_linkAll (h : links.Nodup) (batch : List BundleExecutableLink) :
    (batch.foldl linkBundleExecutable links).Nodup := by
  induction batch generalizing links with
  | nil => exact h
  | cons first batch ih =>
    apply ih
    rw [linkBundleExecutable]
    split_ifs with hmem
    · exact h
    · exact h.append (List.nodup_singleton first) (by simpa using hmem)

/-- The links of a plan lead to executables of the plan. -/
theorem link_mem_executables (hash : List String → String) (upload : Upload) {link : BundleExecutableLink}
    (h : link ∈ (newIngestPlan hash upload).bundleExecutableLinks) :
    ∃ w ∈ (newIngestPlan hash upload).executables, w.sha256 = link.executableSHA256 := by
  have hbuilt := SantaUploads.built_plan hash upload.executionEvents
  have hlink := (hbuilt.bundle_links link).mp ((Finset.mem_sort _).mp h)
  obtain ⟨event, hevent, -, rfl⟩ := hlink
  have hmem := (hbuilt.executables event.fileSHA256).mpr ⟨event, hevent, rfl⟩
  exact (SantaUploads.exists_sortedMapValues hbuilt.executable_key).mpr hmem

theorem uploadsWf_ingest (hash : List String → String) (upload : Upload) (h : UploadsWf executables links)
    (hstorable : IngestPlan.storable (newIngestPlan hash upload) = true) :
    UploadsWf ((newIngestPlan hash upload).executables.foldl upsertExecutable executables)
      ((newIngestPlan hash upload).bundleExecutableLinks.foldl linkBundleExecutable links) where
  executable_key := upsertExecutables_key h.executable_key _
  executable_check := by
    intro k hk
    rcases (mem_upsertExecutables _ k).mp hk with hold | ⟨write, hwrite, rfl⟩
    · exact h.executable_check k hold
    · intro hempty
      have hcheck := List.all_eq_true.mp (Bool.and_eq_true_iff.mp hstorable).1 write hwrite
      rw [hempty] at hcheck
      cases hcheck
  link_rows := by
    intro link hlink
    rw [mem_upsertExecutables]
    rcases (mem_linkAll _ link).mp hlink with hold | hnew
    · exact Or.inl (h.link_rows link hold)
    · exact Or.inr (link_mem_executables hash upload hnew)
  links_nodup := nodup_linkAll h.links_nodup _

end

theorem wf_ingestEvents {env : Env} {db db' : Db} {upload : Upload} {now : Int} (h : db.Wf)
    (hok : ingestEvents env db upload now = .ok db') : db'.Wf := by
  rw [ingestEvents] at hok
  split_ifs at hok
  · cases hok
    exact h
  · cases hok
  · rw [ingestEventsTx] at hok
    split_ifs at hok with hstorable
    cases hok
    exact ⟨h.rules, uploadsWf_ingest env.hash upload h.uploads (by simpa using hstorable)⟩

theorem wf_answer {env : Env} {db db' : Db} {op : Op} (h : db.Wf) (hok : answer env db op = .ok db') :
    db'.Wf := by
  cases op with
  | create params => exact wf_create h hok
  | update id params => exact wf_update h hok
  | delete id => exact wf_delete h hok
  | deleteMany ids =>
    cases hok
    exact ⟨rulesWf_eraseAll h.rules ids, h.uploads⟩
  | createLabel labelType =>
    cases hok
    exact ⟨h.rules, h.uploads⟩
  | deleteLabel labelID => exact wf_deleteLabel h hok
  | setMembership hostID labelID member => exact wf_setMembership h hok
  | ingestEvents upload now => exact wf_ingestEvents h hok

theorem wf_step (env : Env) (db : Db) (op : Op) (h : db.Wf) : (step env db op).Wf := by
  rw [step]
  cases hanswer : answer env db op with
  | error fault => exact h
  | ok db' => exact wf_answer h hanswer

theorem wf_empty : ({} : Db).Wf where
  rules := by
    constructor
    · intro id id' rule rule' hrow
      cases hrow
    · intro id rule hrow
      cases hrow
  uploads := by
    constructor
    · intro k w hw
      cases hw
    · intro k hk
      exact absurd hk (AList.notMem_empty k)
    · exact List.forall_mem_nil _
    · exact List.nodup_nil

/-- After any operations, accepted or not. -/
theorem wf_exec (env : Env) (ops : List Op) : (Runs.exec (step env) {} ops).Wf :=
  Runs.exec_invariant (P := Db.Wf) (wf_step env) ops wf_empty

end SantaRules
