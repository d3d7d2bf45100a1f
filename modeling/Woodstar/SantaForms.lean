import Woodstar.SantaPriorities
import Woodstar.WebTexts

/-!
# Santa configurations in the web client

`web/src/features/santa/configurations`: the form that a stored configuration fills, its checks
and the request it becomes. A form that is saved as it was filled changes nothing, unless a text
ends in a character that the client strips and the server does not, or the client refuses a URL
that the server took, or a number is past those that JavaScript holds exactly.
-/
namespace SantaForms

open KeyedRows (Table)
open Primitives
open RankedTables
open Runs
open SantaConfigurations SantaPriorities
open Targeting (LabelRef LabelSet)
open WebTexts (nonEmpty Plain)

structure Form where
  name : String
  description : String
  clientMode : String
  targets : LabelSet
  enableBundles : Bool
  enableTransitiveRules : Bool
  enableAllEventUpload : Bool
  disableUnknownEventUpload : Bool
  overrideFileAccessAction : String
  fullSyncIntervalSeconds : Int
  batchSize : Int
  allowedPathRegex : String
  blockedPathRegex : String
  removableMediaAction : String
  removableMediaRemountFlags : List String
  encryptedRemovableMediaAction : String
  encryptedRemovableMediaRemountFlags : List String
  eventDetailURL : String
  eventDetailText : String
  deriving DecidableEq, Repr

def clientModeValues : List String := ["monitor", "lockdown", "standalone"]

def fileAccessActionValues : List String := ["none", "audit_only", "disable"]

def mediaActionValues : List String := ["none", "allow", "block", "remount"]

def remountFlagValues : List String :=
  ["rdonly", "noexec", "nosuid", "nobrowse", "noowners", "nodev", "async", "-j"]

/-- An empty slice of flags is left out of the answer. -/
def policyFlags (policy : Option RemovableMediaPolicy) : List String :=
  ((policy.bind RemovableMediaPolicy.remountFlags).getD []).filter (fun flag => flag ∈ remountFlagValues)

def policyAction (policy : Option RemovableMediaPolicy) : String :=
  (policy.map RemovableMediaPolicy.action).getD "none"

def formFromConfiguration (configuration : Configuration) : Form where
  name := configuration.name
  description := configuration.description
  clientMode := configuration.settings.clientMode
  targets := configuration.targets
  enableBundles := configuration.settings.enableBundles
  enableTransitiveRules := configuration.settings.enableTransitiveRules
  enableAllEventUpload := configuration.settings.enableAllEventUpload
  disableUnknownEventUpload := configuration.settings.disableUnknownEventUpload
  overrideFileAccessAction := configuration.settings.overrideFileAccessAction
  fullSyncIntervalSeconds := configuration.settings.fullSyncIntervalSeconds
  batchSize := configuration.settings.batchSize
  allowedPathRegex := configuration.settings.allowedPathRegex.getD ""
  blockedPathRegex := configuration.settings.blockedPathRegex.getD ""
  removableMediaAction := policyAction configuration.settings.removableMediaPolicy
  removableMediaRemountFlags := policyFlags configuration.settings.removableMediaPolicy
  encryptedRemovableMediaAction := policyAction configuration.settings.encryptedRemovableMediaPolicy
  encryptedRemovableMediaRemountFlags := policyFlags configuration.settings.encryptedRemovableMediaPolicy
  eventDetailURL := configuration.settings.eventDetailURL.getD ""
  eventDetailText := configuration.settings.eventDetailText.getD ""

/-- The `trim()` of the schema. -/
def Form.trimmed (form : Form) : Form :=
  { form with
    name := WebTexts.trim form.name
    description := WebTexts.trim form.description
    allowedPathRegex := WebTexts.trim form.allowedPathRegex
    blockedPathRegex := WebTexts.trim form.blockedPathRegex
    eventDetailURL := WebTexts.trim form.eventDetailURL
    eventDetailText := WebTexts.trim form.eventDetailText }

/-- `Number.isSafeInteger`, which `int()` asks of a number too. -/
def isSafeInteger (n : Int) : Bool := decide (-9007199254740991 ≤ n ∧ n ≤ 9007199254740991)

/-- `integerRange`. -/
def integerRange (low : Int) (high : Option Int) (n : Int) : Bool :=
  isSafeInteger n && decide (low ≤ n) && high.all (fun high => n ≤ high)

/-- `labelRefSchema`. -/
def labelRefValid (id : Int) : Bool := isSafeInteger id && decide (0 < id)

/-- The id in the path of a page. -/
def idParams (id : Int) : Bool := isSafeInteger id && decide (0 < id)

/-- The checks of a media action and its flags. -/
def mediaValid (action : String) (flags : List String) : Bool :=
  decide (action ∈ mediaActionValues) && flags.all (fun flag => flag ∈ remountFlagValues) &&
    (if action = "remount" then !flags.isEmpty else flags.isEmpty)

def Form.valid (isHTTPSURL : String → Bool) (form : Form) : Bool :=
  form.name != "" && decide (form.clientMode ∈ clientModeValues) &&
    form.targets.labelIDs.all labelRefValid &&
    decide (form.overrideFileAccessAction ∈ fileAccessActionValues) &&
    integerRange 60 none form.fullSyncIntervalSeconds && integerRange 5 (some 100) form.batchSize &&
    mediaValid form.removableMediaAction form.removableMediaRemountFlags &&
    mediaValid form.encryptedRemovableMediaAction form.encryptedRemovableMediaRemountFlags &&
    (form.eventDetailURL == "" || isHTTPSURL form.eventDetailURL)

/-- `configurationFormSchema` -/
def configurationFormSchema (isHTTPSURL : String → Bool) (form : Form) : Option Form :=
  if form.trimmed.valid isHTTPSURL = true then some form.trimmed else none

def removableMediaPolicyBody (action : String) (flags : List String) : Option RemovableMediaPolicy :=
  if action = "none" then none
  else if action = "remount" then some ⟨action, some flags⟩
  else some ⟨action, none⟩

/-- The request as the server decodes it: a description left out is empty. -/
def configurationBody (form : Form) : ConfigurationMutation where
  settings :=
    { clientMode := form.clientMode
      enableBundles := form.enableBundles
      enableTransitiveRules := form.enableTransitiveRules
      enableAllEventUpload := form.enableAllEventUpload
      disableUnknownEventUpload := form.disableUnknownEventUpload
      overrideFileAccessAction := form.overrideFileAccessAction
      fullSyncIntervalSeconds := form.fullSyncIntervalSeconds
      batchSize := form.batchSize
      allowedPathRegex := nonEmpty (some form.allowedPathRegex)
      blockedPathRegex := nonEmpty (some form.blockedPathRegex)
      removableMediaPolicy := removableMediaPolicyBody form.removableMediaAction form.removableMediaRemountFlags
      encryptedRemovableMediaPolicy :=
        removableMediaPolicyBody form.encryptedRemovableMediaAction form.encryptedRemovableMediaRemountFlags
      eventDetailURL := nonEmpty (some form.eventDetailURL)
      eventDetailText := nonEmpty (some form.eventDetailText) }
  name := WebTexts.trim form.name
  description := (nonEmpty (some form.description)).getD ""
  targets := form.targets

/-- The page is found, and the form is checked, sent and stored. -/
def save (isHTTPSURL httpsURL : String → Bool) (s : State) (id : Int) (form : Form) : Option State :=
  if idParams id = false then none
  else (configurationFormSchema isHTTPSURL form).bind
    (fun form => (update httpsURL s id (configurationBody form)).toOption)

section Stored

variable {httpsURL : String → Bool} {s s' : State} {id : Int} {p params : ConfigurationMutation}
  {row : ConfigurationRow}

theorem normalizeOptionalString_idem (value : Option String) :
    normalizeOptionalString (normalizeOptionalString value) = normalizeOptionalString value := by
  cases value with
  | none => rfl
  | some text =>
    by_cases hempty : trimSpace text = ""
    · simp [normalizeOptionalString, hempty]
    · simp [normalizeOptionalString, hempty, TextPieces.trimSpace_trimSpace]

theorem normalizeOptionalString_eq_some {value : Option String} {text : String}
    (h : normalizeOptionalString value = some text) : trimSpace text = text ∧ text ≠ "" := by
  obtain ⟨raw, -, hraw⟩ := Option.bind_eq_some_iff.mp h
  split_ifs at hraw with hempty
  cases hraw
  exact ⟨TextPieces.trimSpace_trimSpace raw, hempty⟩

theorem normalizeRemovableMediaPolicy_idem (policy : RemovableMediaPolicy) :
    normalizeRemovableMediaPolicy (normalizeRemovableMediaPolicy policy) = normalizeRemovableMediaPolicy policy := by
  have htotal : Std.Total (fun left right => flagOrder left ≤ flagOrder right) := ⟨fun a b => Nat.le_total _ _⟩
  have htrans : IsTrans String (fun left right => flagOrder left ≤ flagOrder right) := ⟨fun a b c => Nat.le_trans⟩
  cases hflags : policy.remountFlags with
  | none => simp [normalizeRemovableMediaPolicy, hflags, TextPieces.trimSpace_trimSpace]
  | some flags =>
    have hsorted := List.pairwise_insertionSort (fun left right => flagOrder left ≤ flagOrder right)
      (flags.map trimSpace)
    have htrimmed : ((flags.map trimSpace).insertionSort (fun left right => flagOrder left ≤ flagOrder right)).map
        trimSpace = (flags.map trimSpace).insertionSort (fun left right => flagOrder left ≤ flagOrder right) := by
      apply Eq.trans (List.map_congr_left _) (List.map_id _)
      intro flag hflag
      obtain ⟨raw, -, rfl⟩ := List.mem_map.mp ((List.perm_insertionSort _ _).subset hflag)
      exact TextPieces.trimSpace_trimSpace raw
    simp only [normalizeRemovableMediaPolicy, hflags, Option.map_some, TextPieces.trimSpace_trimSpace, htrimmed]
    rw [hsorted.insertionSort_eq]

theorem normalize_idem (p : ConfigurationMutation) : p.normalize.normalize = p.normalize := by
  have hpolicy : ∀ policy : Option RemovableMediaPolicy,
      (policy.map normalizeRemovableMediaPolicy).map normalizeRemovableMediaPolicy =
        policy.map normalizeRemovableMediaPolicy := by
    intro policy
    cases policy with
    | none => rfl
    | some policy => rw [Option.map_some, Option.map_some, normalizeRemovableMediaPolicy_idem]
  simp only [ConfigurationMutation.normalize, normalizeOptionalString_idem, TextPieces.trimSpace_trimSpace, hpolicy]

theorem newConfigurationWrite_moved {position : Int} (h : newConfigurationWrite p position = some row)
    (position' : Int) : newConfigurationWrite p position' = some { row with position := position' } := by
  obtain ⟨clientMode, hmode, h⟩ := Option.bind_eq_some_iff.mp h
  obtain ⟨action, haction, h⟩ := Option.bind_eq_some_iff.mp h
  obtain ⟨removable, hcast, h⟩ := Option.bind_eq_some_iff.mp h
  obtain ⟨encrypted, hcast', h⟩ := Option.bind_eq_some_iff.mp h
  cases h
  simp [newConfigurationWrite, hmode, haction, hcast, hcast']

/-- The checks that a row meets by itself. -/
def Fits (row : ConfigurationRow) : Prop := writeRow {} 0 row = .ok row

theorem writeRow_ok : writeRow s id row = .ok row ↔
    Fits row ∧ ∀ other ∈ entries s.configurations, other.1 ≠ id → other.2.name ≠ row.name := by
  have hempty : entries ({} : State).configurations = [] := rfl
  have hfree : (!(entries s.configurations).any (fun other => other.1 != id && other.2.name == row.name)) = true ↔
      ∀ other ∈ entries s.configurations, other.1 ≠ id → other.2.name ≠ row.name := by
    simp
  simp only [Fits, writeRow, bind_unit_ok, check_ok, require_ok, and_assoc, hfree, hempty, List.any_nil, Bool.not_false,
    true_and]
  refine and_congr_right fun _ => and_congr_right fun _ => and_congr_right fun _ => and_congr_right fun _ =>
    and_congr_right fun _ => and_congr_right fun _ => and_congr_right fun _ => and_congr_right fun _ =>
    and_congr_right fun _ => and_comm

theorem fits_moved (h : Fits row) (position : Int) : Fits { row with position := position } := by
  simp only [Fits, writeRow, bind_unit_ok, check_ok, require_ok] at h ⊢
  obtain ⟨htexts, h1, h2, h3, h4, h5, h6, h7, h8, hname, -⟩ := h
  exact ⟨htexts, h1, h2, h3, h4, h5, h6, h7, h8, hname, rfl⟩

/-- Every row is the one of a normalized and valid request, and no two have one name. -/
structure Stored (httpsURL : String → Bool) (s : State) : Prop where
  sent : ∀ id row, s.configurations.row id = some row → ∃ p : ConfigurationMutation, p.normalize = p ∧
    p.validate httpsURL = .ok () ∧ p.targets = storedTargets s id ∧
      newConfigurationWrite p row.position = some row ∧ Fits row
  names : ∀ id row id' row', s.configurations.row id = some row → s.configurations.row id' = some row' →
    row.name = row'.name → id = id'

theorem stored_empty : Stored httpsURL {} where
  sent := by
    intro id row hrow
    cases hrow
  names := by
    intro id row id' row' hrow
    cases hrow

/-- A row that no other one clashes with is written, and the others keep their labels. -/
theorem stored_write (h : Stored httpsURL s) (hp : p.normalize = p) (hvalid : p.validate httpsURL = .ok ())
    (hwrite : newConfigurationWrite p row.position = some row) (hrow : writeRow s id row = .ok row)
    (htargets : s'.targets = s.targets.filter (fun row => row.configurationID ≠ id) ++ targetWrites id p.targets)
    (hrows : ∀ id', s'.configurations.row id' = if id' = id then some row else s.configurations.row id') :
    Stored httpsURL s' := by
  obtain ⟨hfits, hfree⟩ := writeRow_ok.mp hrow
  have hother : ∀ id' row', id' ≠ id → s.configurations.row id' = some row' → row'.name ≠ row.name :=
    fun id' row' hne hrow' => hfree (id', row') (mem_entries.mpr hrow') hne
  constructor
  · intro id' row' hrow'
    rw [hrows] at hrow'
    rw [storedTargets_replaced htargets]
    split_ifs at hrow' ⊢ with hid
    · obtain rfl := Option.some.inj hrow'
      exact ⟨p, hp, hvalid, rfl, hwrite, hfits⟩
    · exact h.sent id' row' hrow'
  · intro id₁ row₁ id₂ row₂ h₁ h₂ hname
    rw [hrows] at h₁ h₂
    split_ifs at h₁ with hid₁
    · split_ifs at h₂ with hid₂
      · rw [hid₁, hid₂]
      · obtain rfl := Option.some.inj h₁
        exact absurd hname.symm (hother id₂ row₂ hid₂ h₂)
    · split_ifs at h₂ with hid₂
      · obtain rfl := Option.some.inj h₂
        exact absurd hname (hother id₁ row₁ hid₁ h₁)
      · exact h.names id₁ row₁ id₂ row₂ h₁ h₂ hname

theorem stored_create (h : Stored httpsURL s) (hok : create httpsURL s params = .ok s') : Stored httpsURL s' := by
  obtain ⟨row, hvalid, -, hwrite, hrow, hreplace⟩ := create_ok.mp hok
  obtain ⟨-, -, hs'⟩ := replaceConfigurationTargets_ok.mp hreplace
  have htargets : s'.targets = s.targets.filter (fun row => row.configurationID ≠ s.configurations.next) ++
      targetWrites s.configurations.next params.normalize.targets := by rw [hs']
  have hposition := (rowOf_write hvalid hwrite).position
  rw [← hposition] at hwrite
  apply stored_write h (normalize_idem params) hvalid hwrite hrow htargets
  intro id'
  rw [hs']
  exact Table.row_insert

theorem stored_update (h : Stored httpsURL s) (hok : update httpsURL s id params = .ok s') : Stored httpsURL s' := by
  obtain ⟨old, row, hold, hvalid, hwrite, hrow, hreplace⟩ := update_ok.mp hok
  obtain ⟨-, -, hs'⟩ := replaceConfigurationTargets_ok.mp hreplace
  have htargets : s'.targets = s.targets.filter (fun row => row.configurationID ≠ id) ++
      targetWrites id params.normalize.targets := by rw [hs']
  have hposition := (rowOf_write hvalid hwrite).position
  rw [← hposition] at hwrite
  apply stored_write h (normalize_idem params) hvalid hwrite hrow htargets
  intro id'
  rw [hs']
  simp only [Table.row_modify]
  split_ifs with hid
  · rw [hid, hold]
    rfl
  · rfl

theorem stored_deleteMany (h : Stored httpsURL s) (ids : List Int) : Stored httpsURL (deleteMany s ids) := by
  have hkept : ∀ id row, (deleteMany s ids).configurations.row id = some row →
      id ∉ ids ∧ s.configurations.row id = some row := by
    intro id row hrow
    simp only [deleteMany, row_eraseAll] at hrow
    split_ifs at hrow with hid
    exact ⟨hid, hrow⟩
  constructor
  · intro id row hrow
    obtain ⟨hid, hold⟩ := hkept id row hrow
    have htargets : storedTargets (deleteMany s ids) id = storedTargets s id := by
      apply storedTargets_congr
      simp only [deleteMany, List.filter_filter]
      congr 1
      funext target
      by_cases heq : target.configurationID = id
      · simp [heq, hid]
      · simp [heq]
    rw [htargets]
    exact h.sent id row hold
  · intro id row id' row' hrow hrow'
    exact h.names id row id' row' (hkept id row hrow).2 (hkept id' row' hrow').2

theorem stored_reorder (h : Stored httpsURL s) {orderedIDs : List Int}
    (hok : reorderConfigurations s orderedIDs = .ok s') : Stored httpsURL s' := by
  rcases SantaPriorities.reorder_ok hok with ⟨-, -, rfl⟩ | ⟨-, rfl⟩
  case inr => exact h
  have hmoved : ∀ id row, (updateAll (updateAll s.configurations (fun id row =>
      { row with position := -(orderedIDs.idxOf id + 1 : Int) })) (fun _ row =>
        { row with position := -row.position - 1 })).row id = some row →
      ∃ old, s.configurations.row id = some old ∧ row = { old with position := row.position } := by
    intro id row hrow
    obtain ⟨middle, hmiddle, rfl⟩ := Option.map_eq_some_iff.mp hrow
    obtain ⟨old, hold, rfl⟩ := Option.map_eq_some_iff.mp hmiddle
    exact ⟨old, hold, rfl⟩
  constructor
  · intro id row hrow
    obtain ⟨old, hold, heq⟩ := hmoved id row hrow
    obtain ⟨p, hp, hvalid, htargets, hwrite, hfits⟩ := h.sent id old hold
    refine ⟨p, hp, hvalid, htargets, ?_, ?_⟩
    · rw [newConfigurationWrite_moved hwrite row.position, ← heq]
    · rw [heq]
      exact fits_moved hfits row.position
  · intro id row id' row' hrow hrow' hname
    obtain ⟨old, hold, heq⟩ := hmoved id row hrow
    obtain ⟨old', hold', heq'⟩ := hmoved id' row' hrow'
    apply h.names id old id' old' hold hold'
    rw [heq, heq'] at hname
    exact hname

theorem stored_step (h : Stored httpsURL s) (e : Event) : Stored httpsURL (step httpsURL s e) := by
  cases e with
  | create params =>
    cases hok : create httpsURL s params with
    | ok s' =>
      simp only [step, attempt, hok]
      exact stored_create h hok
    | error fault =>
      simp only [step, attempt, hok]
      exact h
  | update id params =>
    cases hok : update httpsURL s id params with
    | ok s' =>
      simp only [step, attempt, hok]
      exact stored_update h hok
    | error fault =>
      simp only [step, attempt, hok]
      exact h
  | delete id =>
    simp only [step, attempt, delete]
    split_ifs
    · exact stored_deleteMany h [id]
    · exact h
  | deleteMany ids => exact stored_deleteMany h ids
  | reorder orderedIDs =>
    cases hok : reorderConfigurations s orderedIDs with
    | ok s' =>
      simp only [step, attempt, hok]
      exact stored_reorder h hok
    | error fault =>
      simp only [step, attempt, hok]
      exact h
  | deleteLabel id =>
    simp only [step, attempt, deleteLabel]
    split_ifs
    · exact h
    · exact ⟨h.sent, h.names⟩
  | createLabel name => exact ⟨h.sent, h.names⟩
  | renameLabel id name => exact ⟨h.sent, h.names⟩
  | setMembership labelID hostID member => exact ⟨h.sent, h.names⟩

theorem stored_run (events : List Event) : Stored httpsURL (exec (step httpsURL) {} events) := by
  have hstep : ∀ s e, Stored httpsURL s → Stored httpsURL (step httpsURL s e) := fun _ e h => stored_step h e
  exact exec_invariant hstep events stored_empty

end Stored

section Unedited

variable {isHTTPSURL httpsURL : String → Bool} {s s' : State} {id : Int} {p : ConfigurationMutation}
  {row : ConfigurationRow} {ps : Priorities}

def Configuration.texts (configuration : Configuration) : List String :=
  [configuration.name, configuration.description] ++ [configuration.settings.allowedPathRegex,
    configuration.settings.blockedPathRegex, configuration.settings.eventDetailURL,
    configuration.settings.eventDetailText].filterMap (fun value => value)

/-- JavaScript holds the numbers of the configuration. The interval has 32 bits in the source. -/
def Configuration.held (configuration : Configuration) : Bool :=
  isSafeInteger configuration.id && configuration.targets.labelIDs.all isSafeInteger &&
    isSafeInteger configuration.settings.fullSyncIntervalSeconds

/-- The parts of a request that passed the checks. -/
structure Valid (httpsURL : String → Bool) (p : ConfigurationMutation) : Prop where
  clientMode : clientModes.oneof p.settings.clientMode = true
  overrideFileAccessAction : fileAccessActions.oneof p.settings.overrideFileAccessAction = true
  fullSyncIntervalSeconds : 60 ≤ p.settings.fullSyncIntervalSeconds
  batchSize : 5 ≤ p.settings.batchSize ∧ p.settings.batchSize ≤ 100
  removableMediaPolicy : validatePolicy p.settings.removableMediaPolicy = .ok ()
  encryptedRemovableMediaPolicy : validatePolicy p.settings.encryptedRemovableMediaPolicy = .ok ()
  name : p.name ≠ ""
  targets : (∀ id ∈ p.targets.labelIDs, 0 < id) ∧ p.targets.labelIDs.Nodup

theorem valid_of_validate (h : p.validate httpsURL = .ok ()) : Valid httpsURL p := by
  simp only [ConfigurationMutation.validate, bind_unit_ok, check_ok, decide_eq_true_eq, bne_iff_ne] at h
  obtain ⟨-, hmode, -, haction, hinterval, hleast, hmost, hremovable, hencrypted, -, hname, -, htargets⟩ := h
  refine ⟨hmode, haction, hinterval, ⟨hleast, hmost⟩, hremovable, hencrypted, hname, ?_⟩
  apply Targeting.validateLabelSets_ok.mp
  cases hset : Targeting.validateLabelSets p.targets with
  | ok u => rfl
  | error message =>
    rw [hset] at htargets
    cases htargets

theorem mem_of_oneof {α : Type} {kind : Enumeration α} {value : String} {values : List String}
    (hvalues : kind.values.map kind.text ⊆ values) (h : kind.oneof value = true) : value ∈ values := by
  obtain ⟨a, hcast, rfl⟩ := Enumeration.cast_of_oneof h
  exact hvalues (List.mem_map_of_mem (kind.complete a))

/-- The flags of a valid policy: some for a remount, all of them known, and none otherwise. -/
theorem policy_cases {policy : RemovableMediaPolicy} (h : policy.validate = .ok ()) :
    (policy.action = "remount" ∧ ∃ flags, policy.remountFlags = some flags ∧ ∀ flag ∈ flags, flag ∈ remountFlagValues) ∨
      ((policy.action = "allow" ∨ policy.action = "block") ∧ policy.remountFlags = none) := by
  have hnone := policy_flags h
  simp only [RemovableMediaPolicy.validate, bind_unit_ok, check_ok, validateFlags_ok] at h
  obtain ⟨-, haction, -, hsome, -, hflags⟩ := h
  have hknown : policy.action ∈ ["allow", "block", "remount"] := mem_of_oneof (by decide) haction
  cases hremount : decide (policy.action = "remount") with
  | true =>
    have heq := of_decide_eq_true hremount
    left
    rw [heq] at hsome
    obtain ⟨flags, heqFlags⟩ := Option.isSome_iff_exists.mp (by simpa using hsome)
    refine ⟨heq, flags, heqFlags, ?_⟩
    intro flag hflag
    apply mem_of_oneof (by decide) (hflags flag _)
    rw [heqFlags]
    exact hflag
  | false =>
    have hne := of_decide_eq_false hremount
    right
    refine ⟨?_, hnone hne⟩
    simpa [hne] using hknown

theorem filter_known {flags : List String} (h : ∀ flag ∈ flags, flag ∈ remountFlagValues) :
    flags.filter (fun flag => flag ∈ remountFlagValues) = flags := by
  apply List.filter_eq_self.mpr
  intro flag hflag
  exact decide_eq_true (h flag hflag)

/-- The policy that a form makes of what it was filled with. -/
theorem policy_body {policy : Option RemovableMediaPolicy} (hvalid : validatePolicy policy = .ok ()) :
    removableMediaPolicyBody (policyAction (policy.map settled)) (policyFlags (policy.map settled)) = policy := by
  cases policy with
  | none => rfl
  | some policy =>
    obtain ⟨action, remountFlags⟩ := policy
    cases policy_cases hvalid with
    | inl h =>
      obtain ⟨haction, flags, hflags, hknown⟩ := h
      dsimp only at haction hflags
      subst haction hflags
      simp only [policyAction, policyFlags, settled, Option.map_some, Option.getD_some, Option.bind_some,
        filter_known hknown, removableMediaPolicyBody]
      rfl
    | inr h =>
      obtain ⟨haction, hflags⟩ := h
      dsimp only at haction hflags
      subst hflags
      cases haction with
      | inl h =>
        subst h
        rfl
      | inr h =>
        subst h
        rfl

/-- A stored policy passes the checks of the form. -/
theorem policy_mediaValid {policy : Option RemovableMediaPolicy} (hvalid : validatePolicy policy = .ok ())
    {stored : Option RemovableMediaAction × Option (List RemountFlag)}
    (hcast : castPolicy (removableMediaWriteFields policy) = some stored)
    (hcheck : policyCheck stored.1 stored.2 = true) :
    mediaValid (policyAction (policy.map settled)) (policyFlags (policy.map settled)) = true := by
  cases policy with
  | none => rfl
  | some policy =>
    obtain ⟨action, remountFlags⟩ := policy
    cases policy_cases hvalid with
    | inl h =>
      obtain ⟨haction, flags, hflags, hknown⟩ := h
      dsimp only at haction hflags
      subst haction hflags
      have hne : flags ≠ [] := by
        rintro rfl
        have heq : castPolicy (removableMediaWriteFields (some ⟨"remount", some []⟩)) =
            some (some .remount, some []) := by decide
        rw [heq] at hcast
        obtain rfl := Option.some.inj hcast
        cases hcheck
      have hall : flags.all (fun flag => decide (flag ∈ remountFlagValues)) = true := by
        rw [List.all_eq_true]
        intro flag hflag
        exact decide_eq_true (hknown flag hflag)
      simp only [policyAction, policyFlags, settled, Option.map_some, Option.getD_some, Option.bind_some,
        filter_known hknown, mediaValid, hall, Bool.and_true, if_true, List.isEmpty_eq_false_iff.mpr hne]
      rfl
    | inr h =>
      obtain ⟨haction, hflags⟩ := h
      dsimp only at haction hflags
      subst hflags
      cases haction with
      | inl h =>
        subst h
        decide
      | inr h =>
        subst h
        decide

/-- The trimmed texts of a normalized request. -/
theorem optional_trimmed {value : Option String} (h : normalizeOptionalString value = value) {text : String}
    (htext : value = some text) : trimSpace text = text ∧ text ≠ "" := by
  subst htext
  exact normalizeOptionalString_eq_some h

theorem optional_body {value : Option String} (h : normalizeOptionalString value = value)
    (hplain : ∀ text ∈ value, Plain text) : nonEmpty (some (WebTexts.trim (value.getD ""))) = value := by
  cases value with
  | none => decide
  | some text =>
    obtain ⟨htrimmed, hne⟩ := normalizeOptionalString_eq_some h
    have hsame := (WebTexts.trim_eq_self_iff htrimmed).mpr (hplain text rfl)
    simp only [Option.getD_some, nonEmpty, Option.bind_some, hsame, hne, if_false]

theorem description_eq (text : String) :
    (nonEmpty (some (WebTexts.trim text))).getD "" = WebTexts.trim (WebTexts.trim text) := by
  simp only [nonEmpty, Option.bind_some]
  split_ifs with hempty
  · exact hempty.symm
  · rfl

theorem plain_of_optional {value : Option String} (h : normalizeOptionalString value = value)
    (hkept : normalizeOptionalString (nonEmpty (some (WebTexts.trim (value.getD "")))) = value) :
    ∀ text ∈ value, Plain text := by
  rintro text rfl
  obtain ⟨htrimmed, -⟩ := normalizeOptionalString_eq_some h
  apply (WebTexts.trim_eq_self_iff htrimmed).mp
  simp only [nonEmpty, Option.getD_some, Option.bind_some] at hkept
  split_ifs at hkept with hempty
  · cases hkept
  · apply WebTexts.trim_eq_of_trimSpace
    obtain ⟨raw, hraw, hsome⟩ := Option.bind_eq_some_iff.mp hkept
    obtain rfl := Option.some.inj hraw
    split_ifs at hsome
    exact Option.some.inj hsome

/-- A configuration that is read is the request that was last stored. -/
theorem getByID_sent (hrep : Represents s ps) (hstored : Stored httpsURL s) {c : Configuration}
    (hget : getByID s id = .ok c) : ∃ row p, s.configurations.row id = some row ∧ p.normalize = p ∧
      p.validate httpsURL = .ok () ∧ newConfigurationWrite p row.position = some row ∧ Fits row ∧
        p.targets = storedTargets s id ∧
          c = ⟨shown p.settings, id, p.name, p.description, row.position, p.targets⟩ := by
  unfold getByID at hget
  split_ifs at hget
  cases hrow : s.configurations.row id with
  | none =>
    rw [hrow] at hget
    cases hget
  | some row =>
    rw [hrow] at hget
    dsimp only at hget
    rw [attach_eq hrep.written] at hget
    obtain ⟨p, hp, hvalid, htargets, hwrite, hfits⟩ := hstored.sent id row hrow
    have hof := rowOf_write hvalid hwrite
    refine ⟨row, p, rfl, hp, hvalid, hwrite, hfits, htargets, ?_⟩
    obtain rfl := Except.ok.inj hget
    rw [← hof.settings, ← hof.name, ← hof.description, htargets]
    rfl

/-- The checks of the form and of the row agree on what was stored. -/
theorem form_valid {position : Int} (hvalid : Valid httpsURL p)
    (hwrite : newConfigurationWrite p position = some row) (hfits : Fits row) {form : Form}
    (hform : form = formFromConfiguration ⟨shown p.settings, id, p.name, p.description, position, p.targets⟩)
    (hlabels : p.targets.labelIDs.all isSafeInteger = true)
    (hinterval : isSafeInteger p.settings.fullSyncIntervalSeconds = true)
    (hURL : p.settings.eventDetailURL.all isHTTPSURL = true) : form.valid isHTTPSURL = true := by
  obtain ⟨clientMode, -, h⟩ := Option.bind_eq_some_iff.mp hwrite
  obtain ⟨action, -, h⟩ := Option.bind_eq_some_iff.mp h
  obtain ⟨removable, hcast, h⟩ := Option.bind_eq_some_iff.mp h
  obtain ⟨encrypted, hcast', h⟩ := Option.bind_eq_some_iff.mp h
  simp only [Fits, writeRow, bind_unit_ok, check_ok, require_ok] at hfits
  obtain ⟨-, -, -, -, -, -, -, hcheck, hcheck', -⟩ := hfits
  obtain rfl := Option.some.inj h
  have hmode : p.settings.clientMode ∈ clientModeValues := mem_of_oneof (by decide) hvalid.clientMode
  have hoverride : p.settings.overrideFileAccessAction ∈ fileAccessActionValues :=
    mem_of_oneof (by decide) hvalid.overrideFileAccessAction
  have hmedia := policy_mediaValid hvalid.removableMediaPolicy hcast hcheck
  have hmedia' := policy_mediaValid hvalid.encryptedRemovableMediaPolicy hcast' hcheck'
  have hurl : (p.settings.eventDetailURL.getD "" == "" || isHTTPSURL (p.settings.eventDetailURL.getD "")) = true := by
    cases hvalue : p.settings.eventDetailURL with
    | none => rfl
    | some url =>
      rw [hvalue] at hURL
      simp only [Option.getD_some, Bool.or_eq_true]
      exact .inr hURL
  subst hform
  have hname : (p.name != "") = true := bne_iff_ne.mpr hvalid.name
  have hrefs : p.targets.labelIDs.all labelRefValid = true := by
    rw [List.all_eq_true] at hlabels ⊢
    intro label hlabel
    rw [labelRefValid, hlabels label hlabel, decide_eq_true (hvalid.targets.1 label hlabel)]
    rfl
  have hseconds : integerRange 60 none p.settings.fullSyncIntervalSeconds = true := by
    rw [integerRange, hinterval, decide_eq_true hvalid.fullSyncIntervalSeconds]
    rfl
  have hbatch : integerRange 5 (some 100) p.settings.batchSize = true := by
    obtain ⟨hleast, hmost⟩ := hvalid.batchSize
    simp only [integerRange, isSafeInteger, Option.all_some, Bool.and_eq_true, decide_eq_true_eq]
    omega
  simp only [Form.valid, formFromConfiguration, shown, hname, hmode, hoverride, hrefs, hseconds, hbatch, hmedia,
    hmedia', hurl, decide_true, Bool.and_self]

/-- The request of a form with plain texts is the one that was stored. -/
theorem body_eq {position : Int} (hp : p.normalize = p) (hvalid : Valid httpsURL p) {c : Configuration}
    (hc : c = ⟨shown p.settings, id, p.name, p.description, position, p.targets⟩)
    (hplain : ∀ text ∈ Configuration.texts c, Plain text) :
    (formFromConfiguration c).trimmed = formFromConfiguration c ∧ configurationBody (formFromConfiguration c) = p := by
  have hname : WebTexts.trim p.name = p.name := by
    apply (WebTexts.trim_eq_self_iff (congrArg ConfigurationMutation.name hp)).mpr
    apply hplain
    simp [hc, Configuration.texts]
  have hdescription : WebTexts.trim p.description = p.description := by
    apply (WebTexts.trim_eq_self_iff (congrArg ConfigurationMutation.description hp)).mpr
    apply hplain
    simp [hc, Configuration.texts]
  have hoptional : ∀ value ∈ [p.settings.allowedPathRegex, p.settings.blockedPathRegex, p.settings.eventDetailURL,
      p.settings.eventDetailText], normalizeOptionalString value = value →
        WebTexts.trim (value.getD "") = value.getD "" ∧ nonEmpty (some (value.getD "")) = value := by
    intro value hmem hvalue
    have hall : ∀ text ∈ value, Plain text := by
      rintro text rfl
      apply hplain
      rw [hc, Configuration.texts, List.mem_append]
      exact .inr (List.mem_filterMap.mpr ⟨_, hmem, rfl⟩)
    have hbody := optional_body hvalue hall
    have htrim : WebTexts.trim (value.getD "") = value.getD "" := by
      cases value with
      | none => decide
      | some text =>
        obtain ⟨htrimmed, -⟩ := normalizeOptionalString_eq_some hvalue
        exact (WebTexts.trim_eq_self_iff htrimmed).mpr (hall text rfl)
    rw [htrim] at hbody
    exact ⟨htrim, hbody⟩
  have hsettings := congrArg ConfigurationMutation.settings hp
  have hallowed := hoptional _ (by simp) (congrArg SyncSettings.allowedPathRegex hsettings)
  have hblocked := hoptional _ (by simp) (congrArg SyncSettings.blockedPathRegex hsettings)
  have hurl := hoptional _ (by simp) (congrArg SyncSettings.eventDetailURL hsettings)
  have htext := hoptional _ (by simp) (congrArg SyncSettings.eventDetailText hsettings)
  have hshort : (nonEmpty (some p.description)).getD "" = p.description := by
    rw [← hdescription, description_eq, hdescription, hdescription]
  subst hc
  constructor
  · simp only [Form.trimmed, formFromConfiguration, shown, hname, hdescription, hallowed.1, hblocked.1, hurl.1, htext.1]
  · simp only [configurationBody, formFromConfiguration, shown, hname, hshort, hallowed.2, hblocked.2, hurl.2, htext.2,
      policy_body hvalid.removableMediaPolicy, policy_body hvalid.encryptedRemovableMediaPolicy]

theorem labelIDs_writes (id : Int) (direction : Targeting.Direction) (refs : List LabelRef) (place : Nat → Int) :
    (writes id direction refs place).map TargetRow.labelID = refs.map LabelRef.labelID := by
  induction refs generalizing place with
  | nil => rfl
  | cons ref refs ih => rw [writes_cons, List.map_cons, List.map_cons, ih]

/-- In the same place stands the same row. -/
theorem list_rewritten (h : Represents s ps) (hrow : s.configurations.row id = some row)
    (hs' : s' = { s with
      configurations := s.configurations.modify id (fun _ => row)
      targets := s.targets.filter (fun row => row.configurationID ≠ id) ++ targetWrites id (storedTargets s id) }) :
    list s' = list s := by
  obtain ⟨xs, hlists, -⟩ := h.listed
  have htargets : s'.targets = s.targets.filter (fun row => row.configurationID ≠ id) ++
      targetWrites id (storedTargets s id) := by rw [hs']
  have hconfigurations : s'.configurations = s.configurations.modify id (fun _ => row) := by rw [hs']
  have hlists' : Lists ConfigurationRow.position s'.configurations xs := by
    have hmodified : Lists ConfigurationRow.position (s.configurations.modify id (fun _ => row)) _ :=
      hlists.modify (fun old hold => by rw [hrow] at hold; rw [Option.some.inj hold])
    rw [← hconfigurations] at hmodified
    have hsame : xs.map (fun a => if a.1 = id then (a.1, row) else a) = xs := by
      apply Eq.trans (List.map_congr_left _) (List.map_id _)
      rintro ⟨id', row'⟩ hmem
      have hrow' := (hlists.exact id' row').mp hmem
      dsimp only
      split_ifs with hid
      · subst hid
        rw [hrow] at hrow'
        rw [Option.some.inj hrow']
        rfl
      · rfl
    rwa [hsame] at hmodified
  rw [list_eq (written_replaced h.written htargets) hlists', list_eq h.written hlists]
  apply List.map_congr_left
  intro a _
  rw [storedTargets_replaced htargets]
  split_ifs with hid
  · rw [hid]
  · rfl

theorem idParams_of_get {c : Configuration} (hget : getByID s id = .ok c)
    (hheld : isSafeInteger id = true) : idParams id = true := by
  unfold getByID at hget
  split_ifs at hget with hpos
  rw [idParams, hheld, decide_eq_true (by omega)]
  rfl

theorem save_eq_some {form : Form} : save isHTTPSURL httpsURL s id form = some s' ↔ idParams id = true ∧
    form.trimmed.valid isHTTPSURL = true ∧ update httpsURL s id (configurationBody form.trimmed) = .ok s' := by
  rw [save, configurationFormSchema]
  cases idParams id with
  | false => simp
  | true =>
    cases form.trimmed.valid isHTTPSURL with
    | false => simp
    | true => cases hresult : update httpsURL s id (configurationBody form.trimmed) <;> simp [hresult, Except.toOption]

theorem saved_of_plain (hrep : Represents s ps) (hstored : Stored httpsURL s) {c : Configuration}
    (hget : getByID s id = .ok c) (hheld : Configuration.held c = true)
    (hplain : ∀ text ∈ Configuration.texts c, Plain text)
    (hURL : c.settings.eventDetailURL.all isHTTPSURL = true) :
    ∃ s', save isHTTPSURL httpsURL s id (formFromConfiguration c) = some s' ∧ list s' = list s := by
  obtain ⟨row, p, hrow, hp, hvalid, hwrite, hfits, htargets, hc⟩ := getByID_sent hrep hstored hget
  have hparts := valid_of_validate hvalid
  obtain ⟨htrimmed, hbody⟩ := body_eq hp hparts hc hplain
  simp only [Configuration.held, Bool.and_eq_true] at hheld
  obtain ⟨⟨hid, hlabels⟩, hinterval⟩ := hheld
  have hpage : idParams id = true := idParams_of_get hget (by rw [hc] at hid; exact hid)
  have hform : (formFromConfiguration c).valid isHTTPSURL = true := by
    subst hc
    exact form_valid hparts hwrite hfits rfl hlabels hinterval hURL
  have hfree : ∀ other ∈ entries s.configurations, other.1 ≠ id → other.2.name ≠ row.name := by
    rintro ⟨id', row'⟩ hmem hne hname
    exact hne (hstored.names id' row' id row (mem_entries.mp hmem) hrow hname)
  have hwritten : (targetWrites id p.targets).map TargetRow.labelID = p.targets.labelIDs := by
    rw [targetWrites_eq, List.map_append, labelIDs_writes, labelIDs_writes]
    rfl
  have hupdate : update httpsURL s id p = .ok
      { s with
        configurations := s.configurations.modify id (fun _ => row)
        targets := s.targets.filter (fun row => row.configurationID ≠ id) ++ targetWrites id p.targets } := by
    apply update_ok.mpr
    refine ⟨row, row, hrow, by rw [hp]; exact hvalid, by rw [hp]; exact hwrite, writeRow_ok.mpr ⟨hfits, hfree⟩, ?_⟩
    rw [hp]
    apply replaceConfigurationTargets_ok.mpr
    refine ⟨hwritten ▸ hparts.targets.2, ?_, rfl⟩
    intro target htarget
    rw [htargets, ← hrep.written id] at htarget
    exact hrep.labels target (List.mem_of_mem_filter htarget)
  refine ⟨_, save_eq_some.mpr ⟨hpage, ?_, ?_⟩, list_rewritten hrep hrow rfl⟩
  · rw [htrimmed]
    exact hform
  · rw [htrimmed, hbody, hupdate, htargets]

/-- A form that leaves the list as it was asked for what is stored. -/
theorem setup_of_saved (hrep : Represents s ps) (hrow : s.configurations.row id = some row)
    {params : ConfigurationMutation} (hok : update httpsURL s id params = .ok s') (hlist : list s' = list s) :
    setupOf params = (entry s (id, row)).2 := by
  have hbefore := (list_represents hrep).1
  have hafter := (list_represents (represents_update hrep hok)).1
  rw [hlist, hbefore] at hafter
  obtain ⟨xs, hlists, rfl⟩ := hrep.listed
  have hmem : entry s (id, row) ∈ xs.map (entry s) := List.mem_map_of_mem ((hlists.exact id row).mpr hrow)
  have hsame := List.map_inj_left.mp (hafter.symm.trans (List.map_id _).symm) _ hmem
  have hpair : ((id, setupOf params) : Int × Setup) = entry s (id, row) := by
    simpa [entry] using hsame
  rw [← hpair]

theorem held_of_valid {c : Configuration} (hid : c.id = id) (hpage : idParams id = true)
    (hform : (formFromConfiguration c).trimmed.valid isHTTPSURL = true) : Configuration.held c = true := by
  simp only [idParams, Bool.and_eq_true] at hpage
  simp only [Form.valid, integerRange, Bool.and_eq_true] at hform
  have hlabels : c.targets.labelIDs.all labelRefValid = true := hform.1.1.1.1.1.1.2
  have hinterval : isSafeInteger c.settings.fullSyncIntervalSeconds = true := hform.1.1.1.1.2.1.1
  have hsafe : c.targets.labelIDs.all isSafeInteger = true := by
    rw [List.all_eq_true] at hlabels ⊢
    intro label hlabel
    have href := hlabels label hlabel
    rw [labelRefValid, Bool.and_eq_true] at href
    exact href.1
  rw [Configuration.held, hid, hpage.1, hsafe, hinterval]
  rfl

/-- A form that asks for what is stored has lost nothing at the ends of the texts. -/
theorem plain_of_setup {c : Configuration} (hp : p.normalize = p) {position : Int} (hof : RowOf p position row)
    (hc : c = ⟨shown p.settings, id, p.name, p.description, row.position, p.targets⟩)
    (hsetup : setupOf (configurationBody (formFromConfiguration c).trimmed) = (entry s (id, row)).2) :
    ∀ text ∈ Configuration.texts c, Plain text := by
  have hname : trimSpace (WebTexts.trim (WebTexts.trim p.name)) = p.name := by
    have h := congrArg Setup.name hsetup
    simpa only [hc, entry, hof.name, setupOf, ConfigurationMutation.normalize, configurationBody, Form.trimmed,
      formFromConfiguration] using h
  have hdescription : trimSpace (WebTexts.trim (WebTexts.trim p.description)) = p.description := by
    have h := congrArg Setup.description hsetup
    simpa only [hc, entry, hof.description, setupOf, ConfigurationMutation.normalize, configurationBody, Form.trimmed,
      formFromConfiguration, description_eq] using h
  have hsettings : shown (configurationBody (formFromConfiguration c).trimmed).normalize.settings =
    shown p.settings := by
    have h := congrArg Setup.settings hsetup
    simpa only [entry, hof.settings, setupOf] using h
  simp only [hc, shown, ConfigurationMutation.normalize, configurationBody, Form.trimmed, formFromConfiguration,
    SyncSettings.mk.injEq] at hsettings
  obtain ⟨-, -, -, -, -, -, -, -, hsent, hsent', -, -, hsentURL, hsentText⟩ := hsettings
  have hkept := congrArg ConfigurationMutation.settings hp
  have hallowed := plain_of_optional (congrArg SyncSettings.allowedPathRegex hkept) hsent
  have hblocked := plain_of_optional (congrArg SyncSettings.blockedPathRegex hkept) hsent'
  have hurl := plain_of_optional (congrArg SyncSettings.eventDetailURL hkept) hsentURL
  have htext := plain_of_optional (congrArg SyncSettings.eventDetailText hkept) hsentText
  intro text hmem
  rw [hc] at hmem
  simp only [Configuration.texts, shown, List.mem_append, List.mem_filterMap, List.mem_cons, List.not_mem_nil,
    or_false] at hmem
  obtain (rfl | rfl) | ⟨value, rfl | rfl | rfl | rfl, hvalue⟩ := hmem
  · exact (WebTexts.trim_eq_self_iff (congrArg ConfigurationMutation.name hp)).mp
      (WebTexts.trim_eq_of_trimSpace hname)
  · exact (WebTexts.trim_eq_self_iff (congrArg ConfigurationMutation.description hp)).mp
      (WebTexts.trim_eq_of_trimSpace hdescription)
  · exact hallowed text hvalue
  · exact hblocked text hvalue
  · exact hurl text hvalue
  · exact htext text hvalue

/-- A form that is valid with a plain URL has a URL that the client takes. -/
theorem url_of_valid {c : Configuration} (hp : p.normalize = p) (hc : c.settings = shown p.settings)
    (hplain : ∀ text ∈ Configuration.texts c, Plain text)
    (hform : (formFromConfiguration c).trimmed.valid isHTTPSURL = true) :
    c.settings.eventDetailURL.all isHTTPSURL = true := by
  cases hvalue : c.settings.eventDetailURL with
  | none => rfl
  | some url =>
    have hstored : p.settings.eventDetailURL = some url := by
      rw [hc] at hvalue
      exact hvalue
    obtain ⟨htrimmed, hne⟩ :=
      optional_trimmed (congrArg (fun m => m.settings.eventDetailURL) hp) hstored
    have hsame := (WebTexts.trim_eq_self_iff htrimmed).mpr (hplain url (by simp [Configuration.texts, hvalue]))
    simp only [Form.valid, Bool.and_eq_true, Bool.or_eq_true, beq_iff_eq] at hform
    have hcheck := hform.2
    simp only [Form.trimmed, formFromConfiguration, hvalue, Option.getD_some, hsame, hne, false_or] at hcheck
    simpa using hcheck

theorem plain_of_saved (hrep : Represents s ps) (hstored : Stored httpsURL s) {c : Configuration}
    (hget : getByID s id = .ok c) (hsaved : save isHTTPSURL httpsURL s id (formFromConfiguration c) = some s')
    (hlist : list s' = list s) :
    Configuration.held c = true ∧ (∀ text ∈ Configuration.texts c, Plain text) ∧
      c.settings.eventDetailURL.all isHTTPSURL = true := by
  obtain ⟨row, p, hrow, hp, hvalid, hwrite, -, -, hc⟩ := getByID_sent hrep hstored hget
  obtain ⟨hpage, hform, hok⟩ := save_eq_some.mp hsaved
  have hplain := plain_of_setup hp (rowOf_write hvalid hwrite) hc (setup_of_saved hrep hrow hok hlist)
  exact ⟨held_of_valid (by rw [hc]) hpage hform, hplain, url_of_valid hp (by rw [hc]) hplain hform⟩

/-- After any run, a configuration that is opened in the form and saved as it is keeps the whole
list, exactly when its numbers are safe, none of its texts has a byte order mark at an end and the
client takes its URL. Otherwise the form is refused or changes the configuration. -/
theorem unedited_form_keeps_list (isHTTPSURL httpsURL : String → Bool) (events : List Event) (id : Int)
    (c : Configuration) (hget : getByID (exec (step httpsURL) {} events) id = .ok c) :
    let s := exec (step httpsURL) {} events
    (∃ s', save isHTTPSURL httpsURL s id (formFromConfiguration c) = some s' ∧ list s' = list s) ↔
      Configuration.held c = true ∧ (∀ text ∈ Configuration.texts c, Plain text) ∧
        c.settings.eventDetailURL.all isHTTPSURL = true := by
  have hrep : Represents (exec (step httpsURL) {} events) ((changes httpsURL {} events).foldl apply []) :=
    represents_run represents_empty events
  have hstored : Stored httpsURL (exec (step httpsURL) {} events) := stored_run events
  constructor
  · rintro ⟨s', hsaved, hlist⟩
    exact plain_of_saved hrep hstored hget hsaved hlist
  · rintro ⟨hheld, hplain, hURL⟩
    exact saved_of_plain hrep hstored hget hheld hplain hURL

end Unedited

def sampleMutation : ConfigurationMutation where
  settings :=
    { clientMode := "lockdown"
      overrideFileAccessAction := "none"
      fullSyncIntervalSeconds := 600
      batchSize := 50
      blockedPathRegex := some " ^/tmp/ "
      removableMediaPolicy := some ⟨"remount", some ["nosuid", "rdonly"]⟩ }
  name := "Baseline "
  targets := ⟨[⟨1⟩], []⟩

def sampleEvents : List Event := [.createLabel "All Hosts", .create sampleMutation]

def sampleConfiguration : Configuration where
  settings :=
    { clientMode := "lockdown"
      overrideFileAccessAction := "none"
      fullSyncIntervalSeconds := 600
      batchSize := 50
      blockedPathRegex := some "^/tmp/"
      removableMediaPolicy := some ⟨"remount", some ["rdonly", "nosuid"]⟩ }
  id := 1
  name := "Baseline"
  description := ""
  position := 0
  targets := ⟨[⟨1⟩], []⟩

theorem unedited_form_keeps_list_sample :
    ∃ s', save (fun _ => true) (fun _ => true) (exec (step (fun _ => true)) {} sampleEvents) 1
        (formFromConfiguration sampleConfiguration) = some s' ∧
      list s' = list (exec (step (fun _ => true)) {} sampleEvents) :=
  (unedited_form_keeps_list (fun _ => true) (fun _ => true) sampleEvents 1 sampleConfiguration (by decide +kernel)).mpr
    ⟨by decide +kernel, by decide +kernel, by decide +kernel⟩

end SantaForms
