import Mathlib.Data.List.MinMax
import Woodstar.LatestWins
import Woodstar.QueryNames
import Woodstar.TextPieces

/-!
# Report observations

`internal/osquery/reports.go` and `internal/osquery/reports/results_store.go`: snapshots
and errors of scheduled queries come in by two kinds of log, and the latest of a report
and a host is stored.
-/
namespace ReportObservations

open LatestWins
open Primitives
open QueryNames

/-- A result row, its entries in the order of their names. -/
abbrev Row := List (String × String)

inductive SnapshotStatus where
  | collected | error
  deriving DecidableEq, Repr

structure SnapshotRow where
  rows : List Row
  status : SnapshotStatus
  error : String
  reportedAt : Int
  deriving DecidableEq, Repr

structure Report where
  id : Int
  query : String
  deriving DecidableEq, Repr

/-- The reports, the hosts that they are assigned to, and the latest observation of each pair. -/
structure Database where
  reports : List Report
  assignments : List (Int × Int)
  snapshots : Int → Int → Option SnapshotRow

/-- The texts that JSONB and TEXT columns take. -/
def SnapshotRow.isText (row : SnapshotRow) : Bool :=
  row.rows.all (fun entries => entries.all (fun entry => Primitives.isText entry.1 && Primitives.isText entry.2)) &&
    Primitives.isText row.error

def SnapshotRow.observationCheck (row : SnapshotRow) : Prop :=
  row.status = .collected ∧ row.error = "" ∨ row.status = .error ∧ btrimNotEmpty row.error = true

def SnapshotRow.errorRowsCheck (row : SnapshotRow) : Prop := row.status = .collected ∨ row.rows = []

instance (row : SnapshotRow) : Decidable row.observationCheck := inferInstanceAs (Decidable (_ ∨ _))

instance (row : SnapshotRow) : Decidable row.errorRowsCheck := inferInstanceAs (Decidable (_ ∨ _))

def maxReportErrorRunes : Nat := 4096

section Store

variable (sum256 : String → Vector UInt8 32) (stamp : Int → Option Int)

/-- The report has this query and is assigned to the host. -/
def current (db : Database) (reportID : Int) (hash : List Char) (hostID : Int) : Prop :=
  (∃ report ∈ db.reports, report.id = reportID ∧ queryHash sum256 report.query = hash) ∧
    (reportID, hostID) ∈ db.assignments

instance (db : Database) (reportID : Int) (hash : List Char) (hostID : Int) :
    Decidable (current sum256 db reportID hash hostID) := inferInstanceAs (Decidable (_ ∧ _))

/-- The insert of a row, or its update unless what is stored is later. -/
def upsert (db : Database) (reportID hostID : Int) (row : SnapshotRow) : Database :=
  { db with snapshots := fun report host =>
      if report = reportID ∧ host = hostID then write SnapshotRow.reportedAt (db.snapshots report host) row
      else db.snapshots report host }

/-- `stamp` is what a `timestamptz` column holds of a Unix time. The times of logs are
positive, so that the current time is never taken instead. -/
def overwriteObservation (db : Database) (reportID : Int) (hash : List Char) (hostID : Int) (row : SnapshotRow) :
    Except Fault Database :=
  if current sum256 db reportID hash hostID then
    match stamp row.reportedAt with
    | none => .error (.database "reported_at")
    | some reportedAt =>
      let row := { row with reportedAt := reportedAt }
      if row.isText = false then .error (.database "rows")
      else if ¬ row.observationCheck then .error (.database "osquery_report_snapshots_observation_check")
      else if ¬ row.errorRowsCheck then .error (.database "osquery_report_snapshots_error_rows_check")
      else .ok (upsert db reportID hostID row)
  else .ok db

def overwriteSnapshot (db : Database) (reportID : Int) (hash : List Char) (hostID : Int) (rows : Option (List Row))
    (reportedAt : Int) : Except Fault Database :=
  overwriteObservation sum256 stamp db reportID hash hostID
    { rows := rows.getD [], status := .collected, error := "", reportedAt := reportedAt }

def overwriteError (db : Database) (reportID : Int) (hash : List Char) (hostID : Int) (reportError : String)
    (reportedAt : Int) : Except Fault Database :=
  if trimSpace reportError = "" then .error (.invalidInput "")
  else overwriteObservation sum256 stamp db reportID hash hostID
    { rows := [], status := .error, error := truncateRunes (trimSpace reportError) maxReportErrorRunes
      reportedAt := reportedAt }

end Store

structure ResultLogRow where
  name : List Char
  unixTime : Int
  snapshot : Option (List Row)
  action : String
  deriving DecidableEq, Repr

structure StatusLogRow where
  unixTime : Int
  message : List Char
  deriving DecidableEq, Repr

inductive LogError where
  | json
  | action (reportID : Int)
  | unixTime (reportID : Int)
  | store (fault : Fault)
  deriving DecidableEq, Repr

/-- What `json.Unmarshal` makes of a payload, as an array and as an object. -/
structure Codec (δ : Type) where
  resultLogs : δ → Option (List ResultLogRow)
  resultLog : δ → Option ResultLogRow
  statusLogs : δ → Option (List StatusLogRow)
  statusLog : δ → Option StatusLogRow

def logsOf {α : Type} (logs : Option (List α)) (single : Option α) : Option (List α) :=
  match logs with
  | some logs => some logs
  | none => single.map (fun log => [log])

structure Request (δ : Type) where
  hostID : Int
  logType : String
  data : δ

section Ingest

variable (sum256 : String → Vector UInt8 32) (stamp : Int → Option Int)

/-- The loop over result logs. What was written before an error stays. -/
def ingestResultLogs (hostID : Int) : List ResultLogRow → Database → Database × Option LogError
  | [], db => (db, none)
  | item :: rest, db =>
    match parseReportQueryName item.name with
    | none => ingestResultLogs hostID rest db
    | some (reportID, hash) =>
      if item.action ≠ "snapshot" then (db, some (.action reportID))
      else if item.unixTime ≤ 0 then (db, some (.unixTime reportID))
      else match overwriteSnapshot sum256 stamp db reportID hash hostID item.snapshot item.unixTime with
        | .error fault => (db, some (.store fault))
        | .ok db => ingestResultLogs hostID rest db

def ingestStatusLogs (hostID : Int) : List StatusLogRow → Database → Database × Option LogError
  | [], db => (db, none)
  | item :: rest, db =>
    match parseReportErrorMessage item.message with
    | none => ingestStatusLogs hostID rest db
    | some (reportID, hash, reportError) =>
      if item.unixTime ≤ 0 then (db, some (.unixTime reportID))
      else match overwriteError sum256 stamp db reportID hash hostID (String.ofList reportError) item.unixTime with
        | .error fault => (db, some (.store fault))
        | .ok db => ingestStatusLogs hostID rest db

variable {δ : Type} (codec : Codec δ)

def ingestReportLogs (db : Database) (hostID : Int) (data : δ) : Database × Option LogError :=
  match logsOf (codec.resultLogs data) (codec.resultLog data) with
  | none => (db, some .json)
  | some logs => ingestResultLogs sum256 stamp hostID logs db

def ingestReportStatusLogs (db : Database) (hostID : Int) (data : δ) : Database × Option LogError :=
  match logsOf (codec.statusLogs data) (codec.statusLog data) with
  | none => (db, some .json)
  | some logs => ingestStatusLogs sum256 stamp hostID logs db

/-- `AgentService.Log`, for a host that its node key is of. -/
def log (db : Database) (request : Request δ) : Database × Option LogError :=
  if request.logType = "result" then ingestReportLogs sum256 stamp codec db request.hostID request.data
  else if request.logType = "status" then ingestReportStatusLogs sum256 stamp codec db request.hostID request.data
  else (db, none)

/-- Requests one after another; an error does not undo what came before it. -/
def run (db : Database) (requests : List (Request δ)) : Database :=
  requests.foldl (fun db request => (log sum256 stamp codec db request).1) db

end Ingest

/-- A line of a log about a report of a host. -/
structure Observation where
  reportID : Int
  hash : List Char
  hostID : Int
  row : SnapshotRow
  deriving DecidableEq, Repr

/-- The observations of result logs, up to a line that is not one. -/
def resultObservations (hostID : Int) : List ResultLogRow → List Observation
  | [] => []
  | item :: rest =>
    match parseReportQueryName item.name with
    | none => resultObservations hostID rest
    | some (reportID, hash) =>
      if item.action ≠ "snapshot" ∨ item.unixTime ≤ 0 then []
      else
        { reportID := reportID, hash := hash, hostID := hostID
          row := { rows := item.snapshot.getD [], status := .collected, error := "", reportedAt := item.unixTime } } ::
        resultObservations hostID rest

def statusObservations (hostID : Int) : List StatusLogRow → List Observation
  | [] => []
  | item :: rest =>
    match parseReportErrorMessage item.message with
    | none => statusObservations hostID rest
    | some (reportID, hash, reportError) =>
      if item.unixTime ≤ 0 then []
      else
        { reportID := reportID, hash := hash, hostID := hostID
          row := { rows := [], status := .error, reportedAt := item.unixTime
                   error := truncateRunes (trimSpace (String.ofList reportError)) maxReportErrorRunes } } ::
        statusObservations hostID rest

def observations {δ : Type} (codec : Codec δ) (request : Request δ) : List Observation :=
  if request.logType = "result" then
    ((logsOf (codec.resultLogs request.data) (codec.resultLog request.data)).map
      (resultObservations request.hostID)).getD []
  else if request.logType = "status" then
    ((logsOf (codec.statusLogs request.data) (codec.statusLog request.data)).map
      (statusObservations request.hostID)).getD []
  else []

/-- PostgreSQL can store the texts and the time. -/
structure Observation.Storable (o : Observation) : Prop where
  text : o.row.isText = true
  time : o.row.reportedAt < 9224318016000

/-- What the loops see to. -/
structure Observation.Lawful (o : Observation) : Prop where
  positive : 0 < o.row.reportedAt
  observation : o.row.observationCheck
  errorRows : o.row.errorRowsCheck

section Lawful

theorem btrimNotEmpty_truncated {text : String} (h : trimSpace text ≠ "") :
    btrimNotEmpty (truncateRunes (trimSpace text) maxReportErrorRunes) = true := by
  have htrimmed := (TextPieces.trim_eq_iff.mp (TextPieces.trim_trim text.toList)).2
  have hlist : (trimSpace text).toList = TextPieces.trim text.toList := by
    rw [trimSpace, String.toList_ofList]
    rfl
  have hne : TextPieces.trim text.toList ≠ [] := by
    rw [← hlist]
    simpa using h
  obtain ⟨c, cs, hcs⟩ := List.exists_cons_of_ne_nil (mt List.reverse_eq_nil_iff.mp hne)
  have hspace : isSpace c = false := by
    rw [hcs] at htrimmed
    by_contra hc
    rw [List.dropWhile_cons_of_pos (by simpa using hc)] at htrimmed
    have hshort := (List.dropWhile_suffix isSpace (l := cs)).length_le
    rw [htrimmed, List.length_cons] at hshort
    omega
  have hblank : (c != ' ') = true := by
    rw [bne_iff_ne]
    intro heq
    rw [heq] at hspace
    cases hspace
  have hend : ∀ k < (TextPieces.trim text.toList).length, c ∈ (TextPieces.trim text.toList).drop k := by
    intro k hk
    have hsplit : TextPieces.trim text.toList = cs.reverse ++ [c] := by
      rw [← List.reverse_reverse (TextPieces.trim text.toList), hcs, List.reverse_cons]
    rw [hsplit, List.length_append, List.length_singleton] at hk
    rw [hsplit, List.drop_append_of_le_length (by omega)]
    simp
  have hpos := List.length_pos_of_ne_nil hne
  unfold btrimNotEmpty truncateRunes
  rw [hlist]
  apply List.any_eq_true.mpr
  refine ⟨c, ?_, hblank⟩
  by_cases hlen : (TextPieces.trim text.toList).length ≤ maxReportErrorRunes
  · rw [if_pos hlen, hlist]
    exact hend 0 hpos
  · rw [if_neg hlen, String.toList_ofList]
    apply hend
    unfold maxReportErrorRunes at hlen ⊢
    omega

theorem resultObservations_lawful {hostID : Int} {logs : List ResultLogRow} {o : Observation}
    (h : o ∈ resultObservations hostID logs) : o.Lawful := by
  induction logs with
  | nil => cases h
  | cons item rest ih =>
    rw [resultObservations] at h
    cases hname : parseReportQueryName item.name with
    | none =>
      rw [hname] at h
      exact ih h
    | some parts =>
      simp only [hname] at h
      by_cases hrefused : item.action ≠ "snapshot" ∨ item.unixTime ≤ 0
      · rw [if_pos hrefused] at h
        cases h
      · rw [if_neg hrefused] at h
        cases List.mem_cons.mp h with
        | inl heq =>
          obtain rfl := heq
          exact ⟨by push Not at hrefused; exact hrefused.2, .inl ⟨rfl, rfl⟩, .inl rfl⟩
        | inr hin => exact ih hin

theorem reportError_ne {message : List Char} {parts : Int × List Char × List Char}
    (h : parseReportErrorMessage message = some parts) : trimSpace (String.ofList parts.2.2) ≠ "" := by
  unfold parseReportErrorMessage at h
  cases hstart : GoText.cutPrefix scheduledQueryErrorPrefix message with
  | none =>
    rw [hstart] at h
    cases h
  | some remainder =>
    rw [hstart] at h
    cases hcut : GoText.cut ": ".toList remainder with
    | none =>
      simp only [hcut] at h
      cases h
    | some named =>
      simp only [hcut] at h
      by_cases hblank : trimSpace (String.ofList named.2) = ""
      · rw [if_pos hblank] at h
        cases h
      · rw [if_neg hblank] at h
        obtain ⟨_, _, rfl⟩ := Option.map_eq_some_iff.mp h
        exact hblank

theorem lawful_error {reportID hostID reportedAt : Int} {hash : List Char} {error : String} (hpos : 0 < reportedAt)
    (hblank : btrimNotEmpty error = true) :
    Observation.Lawful ⟨reportID, hash, hostID, ⟨[], .error, error, reportedAt⟩⟩ :=
  ⟨hpos, .inr ⟨rfl, hblank⟩, .inr rfl⟩

theorem statusObservations_lawful {hostID : Int} {logs : List StatusLogRow} {o : Observation}
    (h : o ∈ statusObservations hostID logs) : o.Lawful := by
  induction logs with
  | nil => cases h
  | cons item rest ih =>
    rw [statusObservations] at h
    cases hmessage : parseReportErrorMessage item.message with
    | none =>
      rw [hmessage] at h
      exact ih h
    | some parts =>
      have hblank := btrimNotEmpty_truncated (reportError_ne hmessage)
      simp only [hmessage] at h
      by_cases hrefused : item.unixTime ≤ 0
      · rw [if_pos hrefused] at h
        cases h
      · rw [if_neg hrefused] at h
        cases List.mem_cons.mp h with
        | inl heq =>
          obtain rfl := heq
          exact lawful_error (not_le.mp hrefused) hblank
        | inr hin => exact ih hin

end Lawful

section Delivery

variable {sum256 : String → Vector UInt8 32} {stamp : Int → Option Int} {db : Database} {o : Observation}

/-- What an observation does to the store. -/
def put (sum256 : String → Vector UInt8 32) (db : Database) (o : Observation) : Database :=
  if current sum256 db o.reportID o.hash o.hostID then upsert db o.reportID o.hostID o.row else db

@[simp] theorem put_reports : (put sum256 db o).reports = db.reports := by
  unfold put
  split <;> rfl

@[simp] theorem put_assignments : (put sum256 db o).assignments = db.assignments := by
  unfold put
  split <;> rfl

theorem current_put {reportID hostID : Int} {hash : List Char} :
    current sum256 (put sum256 db o) reportID hash hostID ↔ current sum256 db reportID hash hostID := by
  unfold current
  rw [put_reports, put_assignments]

theorem overwriteObservation_ok (hstamp : ∀ t, 0 < t → t < 9224318016000 → stamp t = some t) (hlawful : o.Lawful)
    (hstorable : current sum256 db o.reportID o.hash o.hostID → o.Storable) :
    overwriteObservation sum256 stamp db o.reportID o.hash o.hostID o.row = .ok (put sum256 db o) := by
  unfold overwriteObservation put
  by_cases hcurrent : current sum256 db o.reportID o.hash o.hostID
  · have hat := hstorable hcurrent
    rw [if_pos hcurrent, if_pos hcurrent, hstamp _ hlawful.positive hat.time]
    simp [hat.text, hlawful.observation, hlawful.errorRows]
  · rw [if_neg hcurrent, if_neg hcurrent]

/-- The loop over result logs stores what it observes. -/
theorem ingestResultLogs_fst (hstamp : ∀ t, 0 < t → t < 9224318016000 → stamp t = some t) {hostID : Int}
    {logs : List ResultLogRow} (hstorable : ∀ o ∈ resultObservations hostID logs,
      current sum256 db o.reportID o.hash o.hostID → o.Storable) :
    (ingestResultLogs sum256 stamp hostID logs db).1 = (resultObservations hostID logs).foldl (put sum256) db := by
  induction logs generalizing db with
  | nil => rfl
  | cons item rest ih =>
    have hlawful := fun o => @resultObservations_lawful hostID (item :: rest) o
    rw [ingestResultLogs, resultObservations]
    rw [resultObservations] at hstorable hlawful
    cases hname : parseReportQueryName item.name with
    | none =>
      rw [hname] at hstorable
      exact ih hstorable
    | some parts =>
      simp only [hname] at hstorable hlawful ⊢
      by_cases haction : item.action ≠ "snapshot"
      · simp [haction]
      · by_cases htime : item.unixTime ≤ 0
        · simp [haction, htime]
        · have hkept : ¬ (item.action ≠ "snapshot" ∨ item.unixTime ≤ 0) := by tauto
          rw [if_neg hkept] at hstorable hlawful ⊢
          rw [if_neg haction, if_neg htime]
          have hfirst := overwriteObservation_ok hstamp (hlawful _ List.mem_cons_self)
            (hstorable _ List.mem_cons_self)
          rw [overwriteSnapshot, hfirst, List.foldl_cons]
          apply ih
          intro o ho hcurrent
          exact hstorable o (List.mem_cons_of_mem _ ho) (current_put.mp hcurrent)

theorem ingestStatusLogs_fst (hstamp : ∀ t, 0 < t → t < 9224318016000 → stamp t = some t) {hostID : Int}
    {logs : List StatusLogRow} (hstorable : ∀ o ∈ statusObservations hostID logs,
      current sum256 db o.reportID o.hash o.hostID → o.Storable) :
    (ingestStatusLogs sum256 stamp hostID logs db).1 = (statusObservations hostID logs).foldl (put sum256) db := by
  induction logs generalizing db with
  | nil => rfl
  | cons item rest ih =>
    have hlawful := fun o => @statusObservations_lawful hostID (item :: rest) o
    rw [ingestStatusLogs, statusObservations]
    rw [statusObservations] at hstorable hlawful
    cases hmessage : parseReportErrorMessage item.message with
    | none =>
      rw [hmessage] at hstorable
      exact ih hstorable
    | some parts =>
      simp only [hmessage] at hstorable hlawful ⊢
      by_cases htime : item.unixTime ≤ 0
      · simp [htime]
      · rw [if_neg htime] at hstorable hlawful ⊢
        rw [if_neg htime]
        have hfirst := overwriteObservation_ok hstamp (hlawful _ List.mem_cons_self)
          (hstorable _ List.mem_cons_self)
        rw [overwriteError, if_neg (reportError_ne hmessage), hfirst, List.foldl_cons]
        apply ih
        intro o ho hcurrent
        exact hstorable o (List.mem_cons_of_mem _ ho) (current_put.mp hcurrent)

variable {δ : Type} {codec : Codec δ}

theorem log_fst (hstamp : ∀ t, 0 < t → t < 9224318016000 → stamp t = some t) {request : Request δ}
    (hstorable : ∀ o ∈ observations codec request, current sum256 db o.reportID o.hash o.hostID → o.Storable) :
    (log sum256 stamp codec db request).1 = (observations codec request).foldl (put sum256) db := by
  unfold log observations at *
  by_cases hresult : request.logType = "result"
  · rw [if_pos hresult] at hstorable ⊢
    rw [if_pos hresult, ingestReportLogs]
    cases hlogs : logsOf (codec.resultLogs request.data) (codec.resultLog request.data) with
    | none => rfl
    | some logs =>
      rw [hlogs] at hstorable
      exact ingestResultLogs_fst hstamp hstorable
  · rw [if_neg hresult] at hstorable ⊢
    rw [if_neg hresult]
    by_cases hstatus : request.logType = "status"
    · rw [if_pos hstatus] at hstorable ⊢
      rw [if_pos hstatus, ingestReportStatusLogs]
      cases hlogs : logsOf (codec.statusLogs request.data) (codec.statusLog request.data) with
      | none => rfl
      | some logs =>
        rw [hlogs] at hstorable
        exact ingestStatusLogs_fst hstamp hstorable
    · rw [if_neg hstatus, if_neg hstatus]
      rfl

theorem current_foldl_put {os : List Observation} {reportID hostID : Int} {hash : List Char} :
    current sum256 (os.foldl (put sum256) db) reportID hash hostID ↔ current sum256 db reportID hash hostID := by
  induction os generalizing db with
  | nil => rfl
  | cons o os ih => rw [List.foldl_cons, ih, current_put]

theorem run_eq (hstamp : ∀ t, 0 < t → t < 9224318016000 → stamp t = some t) {requests : List (Request δ)}
    (hstorable : ∀ request ∈ requests, ∀ o ∈ observations codec request,
      current sum256 db o.reportID o.hash o.hostID → o.Storable) :
    run sum256 stamp codec db requests = (requests.flatMap (observations codec)).foldl (put sum256) db := by
  induction requests generalizing db with
  | nil => rfl
  | cons request rest ih =>
    have hfirst := log_fst hstamp (hstorable request List.mem_cons_self)
    rw [run, List.foldl_cons, hfirst, List.flatMap_cons, List.foldl_append]
    apply ih
    intro later hlater o ho hcurrent
    exact hstorable later (List.mem_cons_of_mem _ hlater) o ho (current_foldl_put.mp hcurrent)

/-- The observations that count for a report and a host: those of it with the hash of its
query, while it is assigned to the host. -/
def delivered (sum256 : String → Vector UInt8 32) (codec : Codec δ) (db : Database) (requests : List (Request δ))
    (reportID hostID : Int) : List Observation :=
  (requests.flatMap (observations codec)).filter (fun o =>
    decide (o.reportID = reportID ∧ o.hostID = hostID ∧ current sum256 db o.reportID o.hash o.hostID))

theorem snapshots_foldl_put {os : List Observation} {reportID hostID : Int} :
    (os.foldl (put sum256) db).snapshots reportID hostID =
      writeAll SnapshotRow.reportedAt (db.snapshots reportID hostID) ((os.filter (fun o => decide
        (o.reportID = reportID ∧ o.hostID = hostID ∧ current sum256 db o.reportID o.hash o.hostID))).map
          Observation.row) := by
  induction os generalizing db with
  | nil => rfl
  | cons o os ih =>
    rw [List.foldl_cons, ih]
    simp only [current_put]
    by_cases hcounts : o.reportID = reportID ∧ o.hostID = hostID ∧ current sum256 db o.reportID o.hash o.hostID
    · have hrow : (put sum256 db o).snapshots reportID hostID =
          write SnapshotRow.reportedAt (db.snapshots reportID hostID) o.row := by
        rw [put, if_pos hcounts.2.2]
        exact if_pos ⟨hcounts.1.symm, hcounts.2.1.symm⟩
      rw [List.filter_cons, if_pos (decide_eq_true hcounts), hrow]
      rfl
    · have hrow : (put sum256 db o).snapshots reportID hostID = db.snapshots reportID hostID := by
        unfold put
        by_cases hcurrent : current sum256 db o.reportID o.hash o.hostID
        · rw [if_pos hcurrent]
          exact if_neg (fun heq => hcounts ⟨heq.1.symm, heq.2.symm, hcurrent⟩)
        · rw [if_neg hcurrent]
      rw [List.filter_cons_of_neg (by simpa using hcounts), hrow]

end Delivery

/-- In every run whose observations can all be stored, the row of a report and a host is
that of the latest observation that was delivered for them, in whatever order and however
often, and stays as it is when none was. -/
theorem reports_last_writer_wins {δ : Type} (sum256 : String → Vector UInt8 32) (stamp : Int → Option Int)
    (hstamp : ∀ t, 0 < t → t < 9224318016000 → stamp t = some t) (codec : Codec δ) (db : Database)
    (requests : List (Request δ))
    (hstorable : ∀ request ∈ requests, ∀ o ∈ observations codec request,
      current sum256 db o.reportID o.hash o.hostID → o.Storable) (reportID hostID : Int) :
    (∀ collection : List Observation, collection ≠ [] → (collection.map (fun o => o.row.reportedAt)).Nodup →
      (∀ o, o ∈ delivered sum256 codec db requests reportID hostID ↔ o ∈ collection) →
      (∀ row, db.snapshots reportID hostID = some row → ∃ o ∈ collection, row.reportedAt ≤ o.row.reportedAt) →
      ∃ latest ∈ collection, (∀ o ∈ collection, o.row.reportedAt ≤ latest.row.reportedAt) ∧
        (run sum256 stamp codec db requests).snapshots reportID hostID = some latest.row) ∧
    (delivered sum256 codec db requests reportID hostID = [] →
      (run sum256 stamp codec db requests).snapshots reportID hostID = db.snapshots reportID hostID) := by
  have hrow : ((requests.flatMap (observations codec)).foldl (put sum256) db).snapshots reportID hostID = _ :=
    snapshots_foldl_put
  rw [← run_eq hstamp hstorable, ← delivered] at hrow
  rw [hrow]
  constructor
  · intro collection hne htimes hmem hprior
    obtain ⟨latest, hargmax⟩ := Option.ne_none_iff_exists'.mp
      (mt List.argmax_eq_none.mp hne : collection.argmax (fun o => o.row.reportedAt) ≠ none)
    have hlatest : latest ∈ collection := List.argmax_mem hargmax
    have hle : ∀ o ∈ collection, o.row.reportedAt ≤ latest.row.reportedAt :=
      fun o ho => List.le_of_mem_argmax (f := fun o => o.row.reportedAt) ho hargmax
    refine ⟨latest, hlatest, hle, ?_⟩
    apply writeAll_latest
    · exact List.mem_map_of_mem ((hmem latest).mpr hlatest)
    · intro row hin
      obtain ⟨o, ho, rfl⟩ := List.mem_map.mp hin
      exact hle o ((hmem o).mp ho)
    · intro row hin htime
      obtain ⟨o, ho, rfl⟩ := List.mem_map.mp hin
      exact congrArg Observation.row (List.inj_on_of_nodup_map htimes ((hmem o).mp ho) hlatest htime)
    · intro row hstored
      obtain ⟨o, ho, hbefore⟩ := hprior row hstored
      exact hbefore.trans (hle o ho)
  · intro hnone
    rw [hnone]
    rfl

section Sample

/-- A payload as its two readings: an array of one kind of log or of the other. -/
def sampleCodec : Codec (List ResultLogRow ⊕ List StatusLogRow) where
  resultLogs := Sum.getLeft?
  resultLog := fun _ => none
  statusLogs := Sum.getRight?
  statusLog := fun _ => none

def sampleDatabase : Database where
  reports := [{ id := 7, query := "SELECT 1;" }]
  assignments := [(7, 42)]
  snapshots := fun _ _ => none

def sampleStamp (t : Int) : Option Int := if t < 9224318016000 then some t else none

def sampleName : List Char := queryNameForSQL sampleSum .report 7 "SELECT 1;"

def snapshotRequest (value : String) (unixTime : Int) : Request (List ResultLogRow ⊕ List StatusLogRow) where
  hostID := 42
  logType := "result"
  data := .inl [
    { name := sampleName, unixTime := unixTime, snapshot := some [[("value", value)]], action := "snapshot" }]

def errorRequest (unixTime : Int) : Request (List ResultLogRow ⊕ List StatusLogRow) where
  hostID := 42
  logType := "status"
  data := .inr [{ unixTime := unixTime, message := scheduledQueryErrorPrefix ++ sampleName ++ ": locked".toList }]

def sampleRequests : List (Request (List ResultLogRow ⊕ List StatusLogRow)) :=
  [snapshotRequest "a" 10, errorRequest 20, snapshotRequest "a" 10]

def sampleObservation (row : SnapshotRow) : Observation where
  reportID := 7
  hash := queryHash sampleSum "SELECT 1;"
  hostID := 42
  row := row

def snapshotOfTen : Observation := sampleObservation ⟨[[("value", "a")]], .collected, "", 10⟩

def errorOfTwenty : Observation := sampleObservation ⟨[], .error, "locked", 20⟩

theorem sampleRequests_observations :
    sampleRequests.flatMap (observations sampleCodec) = [snapshotOfTen, errorOfTwenty, snapshotOfTen] := by
  decide +kernel

theorem sampleRequests_delivered : delivered sampleSum sampleCodec sampleDatabase sampleRequests 7 42 =
    [snapshotOfTen, errorOfTwenty, snapshotOfTen] := by
  rw [delivered, sampleRequests_observations]
  decide

theorem reports_last_writer_wins_sample :
    ∃ latest ∈ [snapshotOfTen, errorOfTwenty],
      (∀ o ∈ [snapshotOfTen, errorOfTwenty], o.row.reportedAt ≤ latest.row.reportedAt) ∧
      (run sampleSum sampleStamp sampleCodec sampleDatabase sampleRequests).snapshots 7 42 = some latest.row := by
  refine (reports_last_writer_wins sampleSum sampleStamp (fun t _ ht => if_pos ht) sampleCodec sampleDatabase
    sampleRequests ?_ 7 42).1 [snapshotOfTen, errorOfTwenty] (by simp) (by decide) ?_ nofun
  · intro request hrequest o ho _
    have hin : o ∈ sampleRequests.flatMap (observations sampleCodec) := List.mem_flatMap.mpr ⟨request, hrequest, ho⟩
    rw [sampleRequests_observations] at hin
    simp only [List.mem_cons, List.not_mem_nil, or_false] at hin
    obtain rfl | rfl | rfl := hin <;> exact ⟨by decide, by decide⟩
  · intro o
    rw [sampleRequests_delivered]
    simp
    tauto

/-- A newer snapshot with a NUL is refused, and the older one stays. -/
theorem newer_snapshot_refused :
    (delivered sampleSum sampleCodec sampleDatabase [snapshotRequest "a" 10, snapshotRequest "\x00" 20] 7 42).map
      (fun o => o.row.reportedAt) = [10, 20] ∧
    (run sampleSum sampleStamp sampleCodec sampleDatabase
      [snapshotRequest "a" 10, snapshotRequest "\x00" 20]).snapshots 7 42 = some snapshotOfTen.row := by
  decide

end Sample

end ReportObservations
