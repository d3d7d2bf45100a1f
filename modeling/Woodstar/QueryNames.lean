import Mathlib.Data.List.AList
import Woodstar.DynamicLabels
import Woodstar.LiveQueries

/-!
# Names of distributed queries

The names under which `DistributedRead` hands out its queries and under which the
schedule hands out reports, and the parsers of `internal/osquery/dispatch.go` and
`internal/osquery/reports.go` that read them back from answers and log lines. Of
SHA-256 only the width of its sums is used.
-/
namespace QueryNames

open DynamicLabels (QueryKind namePrefix querySeparator queryName queryNameID answerKinds parseQueryName
  parsePositiveSuffix DynamicLabel)
open GoText (formatInt parseInt cut cutLast cutPrefix byteLength encodeHex decodeHex IsInt64)
open PolicyModel (Evaluation)
open Primitives (trimSpace)

variable (sum256 : String → Vector UInt8 32)

def queryHash (sql : String) : List Char := encodeHex (sum256 sql).toList

def queryNameForSQL (kind : QueryKind) (id : Int) (sql : String) : List Char :=
  queryName kind (formatInt id ++ '_' :: queryHash sum256 sql)

def queryNameForEvaluation (evaluation : Evaluation) : List Char :=
  queryName .policy
    (((formatInt evaluation.policyID ++ '_' :: queryHash sum256 evaluation.query) ++
      '_' :: formatInt evaluation.revision) ++ '_' :: formatInt evaluation.sequence)

/-- The size of a SHA-256 sum. -/
def sumSize : Nat := 32

def parseQueryIdentity (suffix : List Char) : Option (Int × List Char) :=
  match cut ['_'] suffix with
  | none => none
  | some (idRaw, hash) =>
    if byteLength hash ≠ sumSize * 2 then none
    else match parsePositiveSuffix idRaw with
      | none => none
      | some id =>
        match decodeHex hash with
        | none => none
        | some decoded => if decoded.length ≠ sumSize then none else some (id, hash)

def parsePolicyEvaluationIdentity (suffix : List Char) : Option (Int × List Char × Int × Int) :=
  match cutLast '_' suffix with
  | none => none
  | some (revisionIdentity, sequenceRaw) =>
    if revisionIdentity = [] ∨ sequenceRaw = [] then none
    else match cutLast '_' revisionIdentity with
      | none => none
      | some (identity, revisionRaw) =>
        if identity = [] ∨ revisionRaw = [] then none
        else do
          let (policyID, hash) ← parseQueryIdentity identity
          let revision ← parsePositiveSuffix revisionRaw
          let sequence ← parsePositiveSuffix sequenceRaw
          return (policyID, hash, revision, sequence)

def parseReportQueryName (name : List Char) : Option (Int × List Char) :=
  (cutPrefix (queryName .report []) name).bind parseQueryIdentity

def scheduledQueryErrorPrefix : List Char := "Error executing scheduled query ".toList

def parseReportErrorMessage (message : List Char) : Option (Int × List Char × List Char) :=
  match cutPrefix scheduledQueryErrorPrefix message with
  | none => none
  | some remainder =>
    match cut ": ".toList remainder with
    | none => none
    | some (name, reportError) =>
      if trimSpace (String.ofList reportError) = "" then none
      else (parseReportQueryName name).map (fun parts => (parts.1, parts.2, reportError))

/-- What a name stands for. -/
inductive QueryIdentity where
  | detail (suffix : List Char)
  | label (id : Int)
  | policy (policyID : Int) (queryHash : List Char) (revision sequence : Int)
  | live (id : Int)
  | report (id : Int) (queryHash : List Char)
  deriving DecidableEq, Repr

/-- The parser with which the handler of a kind reads the suffix of an answer. -/
def parseIdentity : QueryKind → List Char → Option QueryIdentity
  | .detail, suffix => some (.detail suffix)
  | .label, suffix => (parsePositiveSuffix suffix).map .label
  | .policy, suffix => (parsePolicyEvaluationIdentity suffix).map
      (fun parts => .policy parts.1 parts.2.1 parts.2.2.1 parts.2.2.2)
  | .live, suffix => (parsePositiveSuffix suffix).map .live
  | .report, _ => none

/-- The parser of a kind on a whole name: reports come from the log, all other kinds
from distributed writes. -/
def parseAs (kind : QueryKind) (name : List Char) : Option QueryIdentity :=
  match kind with
  | .report => (parseReportQueryName name).map (fun parts => .report parts.1 parts.2)
  | kind =>
    match parseQueryName name with
    | some (found, suffix) => if found = kind then parseIdentity kind suffix else none
    | none => none

theorem underscore_notMem_text (kind : QueryKind) : '_' ∉ kind.text := by
  cases kind <;> decide

theorem find_text {kind : QueryKind} (h : kind ∈ answerKinds) :
    answerKinds.find? (fun found => found.text == kind.text) = some kind := by
  cases kind with
  | report => exact absurd h (by decide)
  | detail => rfl
  | label => rfl
  | policy => rfl
  | live => rfl

theorem cut_queryName (kind : QueryKind) (suffix : List Char) :
    (cutPrefix namePrefix (queryName kind suffix)).bind (cut querySeparator) = some (kind.text, suffix) := by
  have hname : queryName kind suffix = namePrefix ++ (kind.text ++ querySeparator ++ suffix) := by
    simp only [queryName, List.append_assoc]
  rw [hname, GoText.cutPrefix_append, Option.bind_some]
  exact GoText.cut_append_cons (underscore_notMem_text kind) "query_".toList suffix

/-- The name of a kind other than report is split into this kind and its suffix. -/
theorem parseQueryName_queryName {kind : QueryKind} (hkind : kind ∈ answerKinds) {suffix : List Char}
    (hne : suffix ≠ []) : parseQueryName (queryName kind suffix) = some (kind, suffix) := by
  rw [parseQueryName, cut_queryName]
  simp only [if_neg hne]
  rw [find_text hkind, Option.map_some]

theorem parseQueryName_report (suffix : List Char) : parseQueryName (queryName .report suffix) = none := by
  rw [parseQueryName, cut_queryName]
  exact ite_self none

/-- No other kind's name starts like a report's. -/
theorem cutPrefix_report {kind : QueryKind} (h : kind ≠ .report) (suffix : List Char) :
    cutPrefix (queryName .report []) (queryName kind suffix) = none := by
  cases kind with
  | report => exact absurd rfl h
  | detail => rfl
  | label => rfl
  | policy => rfl
  | live => rfl

theorem formatInt_ne_nil (i : Int) : formatInt i ≠ [] := by
  cases i with
  | ofNat n => exact Nat.toDigits_ne_nil
  | negSucc n => exact nofun

theorem notMem_formatInt {i : Int} (h : 0 < i) {c : Char} (hc : c.isDigit = false) : c ∉ formatInt i := by
  intro hmem
  rw [GoText.isDigit_of_mem_formatInt (by omega) hmem] at hc
  cases hc

theorem colon_notMem_queryHash (sql : String) : ':' ∉ queryHash sum256 sql := by
  intro hmem
  obtain ⟨n, hn⟩ := GoText.mem_encodeHex hmem
  exact GoText.digitChar_ne_colon n hn.symm

theorem byteLength_queryHash (sql : String) : byteLength (queryHash sum256 sql) = sumSize * 2 := by
  rw [queryHash, GoText.byteLength_encodeHex, Vector.length_toList]
  rfl

/-- A number that a name carries: a positive `int64`. -/
def IsID (id : Int) : Prop := 0 < id ∧ IsInt64 id

instance (id : Int) : Decidable (IsID id) :=
  inferInstanceAs (Decidable (0 < id ∧ -2 ^ 63 ≤ id ∧ id < 2 ^ 63))

theorem parsePositiveSuffix_formatInt {id : Int} (h : IsID id) :
    parsePositiveSuffix (formatInt id) = some id := by
  have hpos := h.1
  rw [parsePositiveSuffix, GoText.parseInt_formatInt h.2, Option.bind_some, if_neg (by omega)]

theorem parseQueryIdentity_append {id : Int} (h : IsID id) (sql : String) :
    parseQueryIdentity (formatInt id ++ '_' :: queryHash sum256 sql) =
      some (id, queryHash sum256 sql) := by
  have hcut := GoText.cut_append (notMem_formatInt (c := '_') h.1 rfl) (queryHash sum256 sql)
  have hdecode : decodeHex (queryHash sum256 sql) = some (sum256 sql).toList :=
    GoText.decodeHex_encodeHex _
  have hlength : (sum256 sql).toList.length = sumSize := Vector.length_toList
  simp only [parseQueryIdentity, hcut, byteLength_queryHash, parsePositiveSuffix_formatInt h, hdecode,
    hlength, ne_eq, not_true_eq_false, if_false]

theorem parsePolicyEvaluationIdentity_append {policyID revision sequence : Int} (hpolicy : IsID policyID)
    (hrevision : IsID revision) (hsequence : IsID sequence) (sql : String) :
    parsePolicyEvaluationIdentity
      (((formatInt policyID ++ '_' :: queryHash sum256 sql) ++ '_' :: formatInt revision) ++
        '_' :: formatInt sequence) =
      some (policyID, queryHash sum256 sql, revision, sequence) := by
  have hlast := GoText.cutLast_append (notMem_formatInt (c := '_') hsequence.1 rfl)
    ((formatInt policyID ++ '_' :: queryHash sum256 sql) ++ '_' :: formatInt revision)
  have hfirst := GoText.cutLast_append (notMem_formatInt (c := '_') hrevision.1 rfl)
    (formatInt policyID ++ '_' :: queryHash sum256 sql)
  have hidentity : formatInt policyID ++ '_' :: queryHash sum256 sql ≠ [] := by simp
  have hrest : (formatInt policyID ++ '_' :: queryHash sum256 sql) ++ '_' :: formatInt revision ≠ [] := by
    simp
  simp only [parsePolicyEvaluationIdentity, hlast, hfirst, hidentity, hrest, formatInt_ne_nil, or_self,
    if_false, parseQueryIdentity_append sum256 hpolicy, parsePositiveSuffix_formatInt hrevision,
    parsePositiveSuffix_formatInt hsequence]
  rfl

/-- The name of a report is read back as its id and the hash of its SQL. -/
theorem parseReportQueryName_queryNameForSQL {id : Int} (h : IsID id) (sql : String) :
    parseReportQueryName (queryNameForSQL sum256 .report id sql) = some (id, queryHash sum256 sql) := by
  have hname : queryNameForSQL sum256 .report id sql =
      queryName .report [] ++ (formatInt id ++ '_' :: queryHash sum256 sql) := by
    simp only [queryNameForSQL, queryName, List.append_nil]
  rw [parseReportQueryName, hname, GoText.cutPrefix_append, Option.bind_some,
    parseQueryIdentity_append sum256 h]

theorem colon_notMem_report {id : Int} (h : IsID id) (sql : String) :
    ':' ∉ queryNameForSQL sum256 .report id sql := by
  have hstart : ':' ∉ namePrefix ++ QueryKind.report.text ++ querySeparator := by decide
  have hid := notMem_formatInt (c := ':') h.1 rfl
  have hhash := colon_notMem_queryHash sum256 sql
  simp only [queryNameForSQL, queryName, List.mem_append, List.mem_cons, not_or] at hstart ⊢
  exact ⟨hstart, hid, by decide, hhash⟩

/-- The log line about a report is read back unless its error text is blank. -/
theorem parseReportErrorMessage_append {id : Int} (h : IsID id) (sql : String) (reportError : List Char) :
    parseReportErrorMessage (scheduledQueryErrorPrefix ++
        (queryNameForSQL sum256 .report id sql ++ ": ".toList ++ reportError)) =
      if trimSpace (String.ofList reportError) = "" then none
      else some (id, queryHash sum256 sql, reportError) := by
  have hcut : cut ": ".toList (queryNameForSQL sum256 .report id sql ++ ": ".toList ++ reportError) =
      some (queryNameForSQL sum256 .report id sql, reportError) :=
    GoText.cut_append_cons (colon_notMem_report sum256 h sql) " ".toList reportError
  simp only [parseReportErrorMessage, GoText.cutPrefix_append, hcut,
    parseReportQueryName_queryNameForSQL sum256 h, Option.map_some]

/-- The suffixes of the detail queries of `internal/osquery/catalog`. -/
def detailSuffixes : List (List Char) :=
  ["os_version", "system_info", "osquery_info", "osquery_flags", "orbit_info", "uptime",
    "root_disk_darwin", "primary_interface_unix", "users", "batteries", "certificates_darwin",
    "munki_info", "munki_installs", "software_macos", "software_vscode_extensions",
    "software_jetbrains_plugins", "software_go_binaries", "software_python_packages",
    "software_macos_signature", "software_macos_executable_sha256"].map String.toList

/-- A Go map from names to SQL. -/
abbrev QueryMap := AList (fun _ : List Char => String)

/-- What one read finds due for a host: the queries and discovery queries of
`DetailQueriesDue`, the labels of `ApplicableLabels`, the evaluations of
`IssueEvaluationsForHost` and the live queries of `PendingForHost`. -/
structure DueWork where
  queries : QueryMap
  discovery : QueryMap
  labelRows : List DynamicLabel
  evaluations : List Evaluation
  work : List LiveQueries.Work

/-- `m[name] = sql` for every entry, in order. -/
def putAll (entries : List (List Char × String)) (queryMap : QueryMap) : QueryMap :=
  entries.foldl (fun m entry => m.insert entry.1 entry.2) queryMap

def detailEntries (due : QueryMap) : List (List Char × String) :=
  due.entries.map (fun entry => (queryName .detail entry.1, entry.2))

def labelEntries (labelRows : List DynamicLabel) : List (List Char × String) :=
  labelRows.map (fun label => (queryNameID .label label.id, label.query))

def policyEntries (evaluations : List Evaluation) : List (List Char × String) :=
  evaluations.map (fun evaluation => (queryNameForEvaluation sum256 evaluation, evaluation.query))

def liveEntries (work : List LiveQueries.Work) : List (List Char × String) :=
  work.map (fun item => (queryNameID .live item.queryID, item.sql))

def queueLabelQueries (labelRows : List DynamicLabel) (queryMap : QueryMap) : QueryMap :=
  putAll (labelEntries labelRows) queryMap

def queuePolicyQueries (evaluations : List Evaluation) (queryMap : QueryMap) : QueryMap :=
  putAll (policyEntries sum256 evaluations) queryMap

def queueLiveQueries (work : List LiveQueries.Work) (queryMap : QueryMap) : QueryMap :=
  putAll (liveEntries work) queryMap

structure DistributedReadResponse where
  queries : QueryMap
  discovery : QueryMap

/-- `DistributedRead` once the host and its due work are known. -/
def distributedRead (due : DueWork) : DistributedReadResponse :=
  let detailQueries := putAll (detailEntries due.queries) ∅
  { queries := queueLiveQueries due.work
      (queuePolicyQueries sum256 due.evaluations (queueLabelQueries due.labelRows detailQueries))
    discovery := putAll (detailEntries due.discovery) ∅ }

theorem lookup_putAll {entries : List (List Char × String)} (hnodup : (entries.map Prod.fst).Nodup)
    {m : QueryMap} (hnew : ∀ entry ∈ entries, entry.1 ∉ m) (name : List Char) (sql : String) :
    sql ∈ (putAll entries m).lookup name ↔ (name, sql) ∈ entries ∨ sql ∈ m.lookup name := by
  induction entries generalizing m with
  | nil => simp [putAll]
  | cons entry rest ih =>
    obtain ⟨key, value⟩ := entry
    obtain ⟨hkey, hrest⟩ := List.nodup_cons.mp hnodup
    have hfresh : ∀ entry ∈ rest, entry.1 ∉ m.insert key value := by
      intro entry hentry hmem
      rcases (AList.mem_insert m).mp hmem with heq | hold
      · exact hkey (List.mem_map.mpr ⟨entry, hentry, heq⟩)
      · exact hnew entry (List.mem_cons_of_mem _ hentry) hold
    have hstep : putAll ((key, value) :: rest) m = putAll rest (m.insert key value) := rfl
    rw [hstep, ih hrest hfresh, List.mem_cons, Prod.mk.injEq]
    by_cases hname : name = key
    · subst hname
      have hnone : m.lookup name = none :=
        AList.lookup_eq_none.mpr (hnew (name, value) List.mem_cons_self)
      have hnot : (name, sql) ∉ rest := fun hmem => hkey (List.mem_map.mpr ⟨_, hmem, rfl⟩)
      rw [AList.lookup_insert, hnone]
      simp [hnot, eq_comm]
    · rw [AList.lookup_insert_ne hname]
      simp [hname]

theorem putAll_append (first second : List (List Char × String)) (m : QueryMap) :
    putAll (first ++ second) m = putAll second (putAll first m) := List.foldl_append

/-- One piece of due work. -/
inductive DueItem where
  | detail (suffix : List Char) (sql : String)
  | label (row : DynamicLabel)
  | policy (evaluation : Evaluation)
  | live (item : LiveQueries.Work)
  deriving DecidableEq, Repr

def DueItem.kind : DueItem → QueryKind
  | .detail _ _ => .detail
  | .label _ => .label
  | .policy _ => .policy
  | .live _ => .live

/-- The name under which the item is handed out. -/
def DueItem.name : DueItem → List Char
  | .detail suffix _ => queryName .detail suffix
  | .label row => queryNameID .label row.id
  | .policy evaluation => queryNameForEvaluation sum256 evaluation
  | .live item => queryNameID .live item.queryID

def DueItem.sql : DueItem → String
  | .detail _ sql => sql
  | .label row => row.query
  | .policy evaluation => evaluation.query
  | .live item => item.sql

/-- What the name stands for. -/
def DueItem.identity : DueItem → QueryIdentity
  | .detail suffix _ => .detail suffix
  | .label row => .label row.id
  | .policy evaluation =>
    .policy evaluation.policyID (queryHash sum256 evaluation.query) evaluation.revision evaluation.sequence
  | .live item => .live item.queryID

/-- The numbers that the name carries are positive, and a suffix is one of the catalog. -/
def DueItem.Valid : DueItem → Prop
  | .detail suffix _ => suffix ∈ detailSuffixes
  | .label row => IsID row.id
  | .policy evaluation =>
    IsID evaluation.policyID ∧ IsID evaluation.revision ∧ IsID evaluation.sequence
  | .live item => IsID item.queryID

instance : DecidablePred DueItem.Valid
  | .detail suffix _ => inferInstanceAs (Decidable (suffix ∈ detailSuffixes))
  | .label row => inferInstanceAs (Decidable (IsID row.id))
  | .policy evaluation => inferInstanceAs (Decidable
    (IsID evaluation.policyID ∧ IsID evaluation.revision ∧ IsID evaluation.sequence))
  | .live item => inferInstanceAs (Decidable (IsID item.queryID))

def DueWork.items (due : DueWork) : List DueItem :=
  due.queries.entries.map (fun entry => .detail entry.1 entry.2) ++
    (due.labelRows.map .label ++ (due.evaluations.map .policy ++ due.work.map .live))

/-- Ids are keys, and an evaluation is known by its policy, revision and sequence. -/
structure DueWork.Valid (due : DueWork) : Prop where
  items : ∀ item ∈ due.items, item.Valid
  discovery : ∀ suffix ∈ due.discovery, suffix ∈ detailSuffixes
  labelRows : (due.labelRows.map (·.id)).Nodup
  evaluations : (due.evaluations.map (fun evaluation =>
    (evaluation.policyID, evaluation.revision, evaluation.sequence))).Nodup
  work : (due.work.map (·.queryID)).Nodup

/-- The name as a write of answers reads it: its kind, then the parser of this kind. -/
def readName (name : List Char) : Option (QueryKind × QueryIdentity) :=
  (parseQueryName name).bind (fun parts =>
    (parseIdentity parts.1 parts.2).map (fun identity => (parts.1, identity)))

theorem parseAs_queryName {kind : QueryKind} (hkind : kind ∈ answerKinds) {suffix : List Char}
    (hne : suffix ≠ []) {other : QueryKind} (hother : other ≠ kind) :
    parseAs other (queryName kind suffix) = none := by
  have hreport : kind ≠ .report := fun heq => absurd (heq ▸ hkind) (by decide)
  have hname := parseQueryName_queryName hkind hne
  cases other with
  | report => rw [parseAs, parseReportQueryName, cutPrefix_report hreport]; rfl
  | detail => simp only [parseAs, hname, if_neg hother.symm]
  | label => simp only [parseAs, hname, if_neg hother.symm]
  | policy => simp only [parseAs, hname, if_neg hother.symm]
  | live => simp only [parseAs, hname, if_neg hother.symm]

theorem parseAs_report {id : Int} (sql : String) {other : QueryKind} (hother : other ≠ .report) :
    parseAs other (queryNameForSQL sum256 .report id sql) = none := by
  have hname : parseQueryName (queryNameForSQL sum256 .report id sql) = none := parseQueryName_report _
  cases other with
  | report => exact absurd rfl hother
  | detail => simp only [parseAs, hname]
  | label => simp only [parseAs, hname]
  | policy => simp only [parseAs, hname]
  | live => simp only [parseAs, hname]

theorem detailSuffixes_ne_nil : ∀ suffix ∈ detailSuffixes, suffix ≠ [] := by decide

/-- The name of an item is its kind and a suffix which the parser of the kind reads back. -/
theorem name_of_valid {item : DueItem} (h : item.Valid) :
    ∃ suffix, suffix ≠ [] ∧ item.name sum256 = queryName item.kind suffix ∧
      parseIdentity item.kind suffix = some (item.identity sum256) := by
  cases item with
  | detail suffix sql => exact ⟨suffix, detailSuffixes_ne_nil suffix h, rfl, rfl⟩
  | label row =>
    have hid := @parsePositiveSuffix_formatInt row.id h
    exact ⟨formatInt row.id, formatInt_ne_nil _, rfl, by simp only [DueItem.kind, parseIdentity, hid]; rfl⟩
  | policy evaluation =>
    obtain ⟨hpolicy, hrevision, hsequence⟩ := h
    have hidentity :=
      parsePolicyEvaluationIdentity_append sum256 hpolicy hrevision hsequence evaluation.query
    exact ⟨_, by simp, rfl, by simp only [DueItem.kind, parseIdentity, hidentity]; rfl⟩
  | live item =>
    have hid := @parsePositiveSuffix_formatInt item.queryID h
    exact ⟨formatInt item.queryID, formatInt_ne_nil _, rfl,
      by simp only [DueItem.kind, parseIdentity, hid]; rfl⟩

theorem kind_mem_answerKinds (item : DueItem) : item.kind ∈ answerKinds := by
  cases item <;> simp [DueItem.kind, answerKinds]

theorem readName_name {item : DueItem} (h : item.Valid) :
    readName (item.name sum256) = some (item.kind, item.identity sum256) := by
  obtain ⟨suffix, hne, hname, hidentity⟩ := name_of_valid sum256 h
  rw [readName, hname, parseQueryName_queryName (kind_mem_answerKinds item) hne, Option.bind_some,
    hidentity, Option.map_some]

theorem parseAs_name {item : DueItem} (h : item.Valid) {other : QueryKind} (hother : other ≠ item.kind) :
    parseAs other (item.name sum256) = none := by
  obtain ⟨suffix, hne, hname, -⟩ := name_of_valid sum256 h
  rw [hname, parseAs_queryName (kind_mem_answerKinds item) hne hother]

def QueryIdentity.kind : QueryIdentity → QueryKind
  | .detail _ => .detail
  | .label _ => .label
  | .policy _ _ _ _ => .policy
  | .live _ => .live
  | .report _ _ => .report

theorem disjoint_of_kind {kind : QueryKind} {xs ys : List QueryIdentity} (hxs : ∀ x ∈ xs, x.kind = kind)
    (hys : ∀ y ∈ ys, y.kind ≠ kind) : xs.Disjoint ys :=
  fun x hx hy => hys x hy (hxs x hx)

/-- No two items stand for the same. -/
theorem identities_nodup {due : DueWork} (h : due.Valid) :
    (due.items.map (DueItem.identity sum256)).Nodup := by
  have hdetail : (due.queries.entries.map (fun entry => QueryIdentity.detail entry.1)).Nodup := by
    have hkeys := due.queries.keys_nodup
    rw [AList.keys, List.keys] at hkeys
    have hmap := hkeys.map (f := QueryIdentity.detail) (fun _ _ heq => QueryIdentity.detail.inj heq)
    rwa [List.map_map] at hmap
  have hlabel : (due.labelRows.map (fun label => QueryIdentity.label label.id)).Nodup := by
    have hmap := h.labelRows.map (f := QueryIdentity.label) (fun _ _ heq => QueryIdentity.label.inj heq)
    rwa [List.map_map] at hmap
  have hlive : (due.work.map (fun item => QueryIdentity.live item.queryID)).Nodup := by
    have hmap := h.work.map (f := QueryIdentity.live) (fun _ _ heq => QueryIdentity.live.inj heq)
    rwa [List.map_map] at hmap
  have hpolicy : (due.evaluations.map (fun evaluation => QueryIdentity.policy evaluation.policyID
      (queryHash sum256 evaluation.query) evaluation.revision evaluation.sequence)).Nodup := by
    apply List.Nodup.of_map (fun identity => match identity with
      | QueryIdentity.policy policyID _ revision sequence => (policyID, revision, sequence)
      | _ => (0, 0, 0))
    rw [List.map_map]
    exact h.evaluations
  simp only [DueWork.items, List.map_append, List.map_map]
  apply hdetail.append
  · apply hlabel.append
    · apply hpolicy.append hlive
      apply @disjoint_of_kind .policy
      · simp [QueryIdentity.kind]
      · simp [QueryIdentity.kind]
    · apply @disjoint_of_kind .label
      · simp [QueryIdentity.kind]
      · simp [QueryIdentity.kind, DueItem.identity, or_imp, forall_and]
  · apply @disjoint_of_kind .detail
    · intro identity hidentity
      obtain ⟨entry, -, rfl⟩ := List.mem_map.mp hidentity
      rfl
    · simp [QueryIdentity.kind, DueItem.identity, or_imp, forall_and]

theorem names_nodup {due : DueWork} (h : due.Valid) : (due.items.map (DueItem.name sum256)).Nodup := by
  apply List.Nodup.of_map (fun name => (readName name).map Prod.snd)
  have hread : (due.items.map (DueItem.name sum256)).map (fun name => (readName name).map Prod.snd) =
      (due.items.map (DueItem.identity sum256)).map some := by
    rw [List.map_map, List.map_map]
    apply List.map_congr_left
    intro item hitem
    rw [Function.comp_apply, readName_name sum256 (h.items item hitem)]
    rfl
  rw [hread]
  exact (identities_nodup sum256 h).map (Option.some_injective _)

theorem distributedRead_queries (due : DueWork) : (distributedRead sum256 due).queries =
    putAll (due.items.map (fun item => (item.name sum256, item.sql))) ∅ := by
  simp only [DueWork.items, List.map_append, putAll_append, List.map_map]
  rfl

/-- Every item is handed out under its name with its own SQL, and nothing else is. -/
theorem mem_queries {due : DueWork} (h : due.Valid) (name : List Char) (sql : String) :
    sql ∈ (distributedRead sum256 due).queries.lookup name ↔
      ∃ item ∈ due.items, item.name sum256 = name ∧ item.sql = sql := by
  have hnames : ((due.items.map (fun item => (item.name sum256, item.sql))).map Prod.fst).Nodup := by
    rw [List.map_map]
    exact names_nodup sum256 h
  rw [distributedRead_queries, lookup_putAll hnames (fun _ _ => AList.notMem_empty _)]
  simp

theorem queryName_injective (kind : QueryKind) : Function.Injective (queryName kind) :=
  fun _ _ h => List.append_cancel_left h

/-- Every discovery query is handed out under the name of its detail query. -/
theorem mem_discovery (due : DueWork) (name : List Char) (sql : String) :
    sql ∈ (distributedRead sum256 due).discovery.lookup name ↔
      ∃ suffix, sql ∈ due.discovery.lookup suffix ∧ queryName .detail suffix = name := by
  have hnames : ((detailEntries due.discovery).map Prod.fst).Nodup := by
    have hkeys : (due.discovery.entries.map Sigma.fst).Nodup := due.discovery.keys_nodup
    have hmap := hkeys.map (queryName_injective .detail)
    rw [List.map_map] at hmap
    rw [detailEntries, List.map_map]
    exact hmap
  have hlookup : sql ∈ (distributedRead sum256 due).discovery.lookup name ↔ _ :=
    lookup_putAll hnames (fun _ _ => AList.notMem_empty _) name sql
  rw [hlookup]
  simp only [detailEntries, List.mem_map, Prod.mk.injEq, AList.mem_lookup_iff]
  constructor
  · rintro (⟨⟨suffix, value⟩, hentry, rfl, rfl⟩ | hempty)
    · exact ⟨suffix, hentry, rfl⟩
    · cases hempty
  · intro ⟨suffix, hentry, hname⟩
    exact Or.inl ⟨⟨suffix, sql⟩, hentry, hname, rfl⟩

/-- The names of the due work of one read are pairwise distinct, so that every query is
in the map under its own name; each is read back as what it stands for and by the parser
of no other kind. The name of a report is read back from a snapshot and from an error
with any text that is not blank. -/
theorem names_read_back {due : DueWork} (h : due.Valid) :
    (due.items.map (DueItem.name sum256)).Nodup ∧
    (∀ name sql, sql ∈ (distributedRead sum256 due).queries.lookup name ↔
      ∃ item ∈ due.items, item.name sum256 = name ∧ item.sql = sql) ∧
    (∀ name sql, sql ∈ (distributedRead sum256 due).discovery.lookup name ↔
      ∃ suffix, sql ∈ due.discovery.lookup suffix ∧ queryName .detail suffix = name) ∧
    (∀ item ∈ due.items, readName (item.name sum256) = some (item.kind, item.identity sum256) ∧
      ∀ kind, kind ≠ item.kind → parseAs kind (item.name sum256) = none) ∧
    ∀ id sql, IsID id →
      parseReportQueryName (queryNameForSQL sum256 .report id sql) = some (id, queryHash sum256 sql) ∧
      (∀ reportError, trimSpace (String.ofList reportError) ≠ "" →
        parseReportErrorMessage (scheduledQueryErrorPrefix ++
          (queryNameForSQL sum256 .report id sql ++ ": ".toList ++ reportError)) =
        some (id, queryHash sum256 sql, reportError)) ∧
      ∀ kind, kind ≠ .report → parseAs kind (queryNameForSQL sum256 .report id sql) = none := by
  constructor
  · exact names_nodup sum256 h
  constructor
  · exact mem_queries sum256 h
  constructor
  · exact mem_discovery sum256 due
  constructor
  · intro item hitem
    exact ⟨readName_name sum256 (h.items item hitem),
      fun kind hkind => parseAs_name sum256 (h.items item hitem) hkind⟩
  · intro id sql hid
    constructor
    · exact parseReportQueryName_queryNameForSQL sum256 hid sql
    constructor
    · intro reportError hblank
      rw [parseReportErrorMessage_append sum256 hid, if_neg hblank]
    · intro kind hkind
      exact parseAs_report sum256 sql hkind

/-- One item of each kind. -/
def sampleDue : DueWork where
  queries := AList.singleton "os_version".toList "SELECT version FROM os_version"
  discovery := ∅
  labelRows := [{ id := 7, query := "SELECT 1" }]
  evaluations := [{ policyID := 7, query := "SELECT 1", revision := 1, sequence := 2 ^ 63 - 1 }]
  work := [{ queryID := 7, sql := "SELECT 1" }]

def sampleSum (_ : String) : Vector UInt8 32 := Vector.replicate 32 0xab

theorem sampleDue_valid : sampleDue.Valid where
  items := by decide
  discovery := fun _ h => absurd h (AList.notMem_empty _)
  labelRows := by decide
  evaluations := by decide
  work := by decide

theorem names_read_back_sample :
    sampleDue.Valid ∧ (sampleDue.items.map (DueItem.name sampleSum)).Nodup ∧
    "SELECT 1" ∈ (distributedRead sampleSum sampleDue).queries.lookup (queryNameID .live 7) :=
  ⟨sampleDue_valid, (names_read_back sampleSum sampleDue_valid).1,
    ((names_read_back sampleSum sampleDue_valid).2.1 _ _).mpr
      ⟨.live { queryID := 7, sql := "SELECT 1" }, by decide, rfl, rfl⟩⟩

/-- An error with a blank text is passed over. -/
theorem blank_error_not_read_back :
    parseReportErrorMessage (scheduledQueryErrorPrefix ++
      (queryNameForSQL sampleSum .report 7 "SELECT 1" ++ ": ".toList ++ " ".toList)) ≠
    some (7, queryHash sampleSum "SELECT 1", " ".toList) := by
  decide

end QueryNames
