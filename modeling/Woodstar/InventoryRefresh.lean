import Woodstar.QueryNames
import Woodstar.Runs

/-!
# Inventory refreshes of a host

`DistributedRead`, `DistributedWrite`, refresh requests, re-enrollments and server
upgrades of one host, in any order. A read looks at the host row before it hands out its
queries, and a write passes the check of the node key before it ingests. The host may
answer what was handed out at any time, more than once, under any node key. The count of
requests and re-enrollments is history, which no step reads.
-/
namespace InventoryRefresh

open DynamicLabels (QueryKind parseQueryName queryName)
open Runs (exec Along)

inductive DetailIngest where
  | hostDetail | osqueryFlags | uptime | users | batteries | certificates | munkiInfo | munkiInstalls
  | softwareBase | softwareEnrichment
  deriving DecidableEq, Repr

def DetailIngest.text : DetailIngest → String
  | .hostDetail => "host_detail"
  | .osqueryFlags => "osquery_flags"
  | .uptime => "uptime"
  | .users => "users"
  | .batteries => "batteries"
  | .certificates => "certificates"
  | .munkiInfo => "munki_info"
  | .munkiInstalls => "munki_installs"
  | .softwareBase => "software_base"
  | .softwareEnrichment => "software_enrichment"

structure DetailQuery where
  sql : String
  discovery : String := ""
  optional : Bool := false
  ingest : DetailIngest
  deriving DecidableEq, Repr

/-- The detail queries of a server version by suffix; some query is not optional. -/
structure Catalog where
  registry : AList (fun _ : List Char => DetailQuery)
  required : ∃ entry ∈ registry.entries, entry.2.optional = false

variable (sum256 : String → Vector UInt8 32)

def contract (name : List Char) (query : DetailQuery) : String :=
  String.intercalate "\x00" [String.ofList name, query.sql, query.discovery,
    if query.optional = true then "true" else "false", query.ingest.text]

def hashDetailQueries (registry : AList (fun _ : List Char => DetailQuery)) : List Char :=
  let contracts := registry.entries.map (fun entry => contract entry.1 entry.2)
  GoText.encodeHex (sum256 (String.intercalate "\x00" (contracts.mergeSort (· ≤ ·)))).toList

def Catalog.hash (catalog : Catalog) : List Char := hashDetailQueries sum256 catalog.registry

/-- Seconds. -/
def detailQueryCadence : Int := 3600

/-- The names of the queries that are due. -/
def detailQueriesDue (catalog : Catalog) (lastUpdated : Option Int) (lastHash : List Char) (now : Int) :
    List (List Char) :=
  if lastUpdated.any (fun updated => now - updated < detailQueryCadence) = true ∧
      lastHash = catalog.hash sum256 then []
  else catalog.registry.keys.map (queryName .detail)

/-- The results of an answer by name, each with the status that the host reports. -/
abbrev Results := AList (fun _ : List Char => Option Int)

def distributedStatusOK (status : Option Int) : Bool := status == some 0

/-- The results whose name is that of a detail query, by suffix. -/
def detailResults (results : Results) : List (List Char × Option Int) :=
  results.entries.filterMap (fun entry =>
    match parseQueryName entry.1 with
    | some (.detail, suffix) => some (suffix, entry.2)
    | _ => none)

/-- `allSucceeded` after every result was handled. -/
def allSucceeded (catalog : Catalog) (results : Results) : Bool :=
  (detailResults results).all (fun result =>
    match catalog.registry.lookup result.1 with
    | none => true
    | some query => distributedStatusOK result.2 || query.optional)

def sawEveryRequiredDetailQuery (catalog : Catalog) (results : Results) : Bool :=
  catalog.registry.entries.all (fun entry => entry.2.optional ||
    (detailResults results).any (fun result => result.1 == entry.1 && distributedStatusOK result.2))

/-- The pass ends with `MarkFresh`. -/
def marksFresh (catalog : Catalog) (results : Results) : Bool :=
  allSucceeded catalog results && sawEveryRequiredDetailQuery catalog results

/-- The columns of the host row. -/
structure Host where
  osqueryNodeKey : Nat
  inventoryUpdatedAt : Option Int := none
  inventoryQueryHash : List Char := []
  inventoryRefreshRequested : Bool := false
  deriving DecidableEq, Repr

/-- The detail queries that one read handed out, the server version that they came from,
and how many requests and re-enrollments there had been. -/
structure HandOut where
  version : Nat
  names : List (List Char)
  asked : Nat
  deriving DecidableEq, Repr

/-- An answer whose node key has been checked. -/
structure Write where
  handOut : HandOut
  results : Results

structure World where
  host : Host
  version : Nat := 0
  reads : List Host := []
  handOuts : List HandOut := []
  writes : List Write := []
  asked : Nat := 0

inductive Event where
  | requestInventoryRefresh
  | upsertOnOsqueryEnroll (nodeKey : Nat)
  | beginRead (nodeKey : Nat)
  | finishRead (read : Nat) (now : Int)
  | beginWrite (handOut : Nat) (nodeKey : Nat) (results : Results)
  | finishWrite (write : Nat) (ingested : Bool) (now : Int)
  | upgrade (version : Nat)

/-- Every detail query that is answered was handed out. -/
def Answers (handOut : HandOut) (results : Results) : Prop :=
  ∀ result ∈ detailResults results, queryName .detail result.1 ∈ handOut.names

instance (handOut : HandOut) (results : Results) : Decidable (Answers handOut results) :=
  inferInstanceAs (Decidable (∀ result ∈ detailResults results, queryName .detail result.1 ∈ handOut.names))

variable (catalogs : Nat → Catalog)

def handOutOf (w : World) (read : Host) (now : Int) : HandOut where
  version := w.version
  names :=
    if read.inventoryRefreshRequested = true then detailQueriesDue sum256 (catalogs w.version) none [] now
    else detailQueriesDue sum256 (catalogs w.version) read.inventoryUpdatedAt read.inventoryQueryHash now
  asked := w.asked

def Host.markInventoryFresh (host : Host) (hash : List Char) (now : Int) : Host :=
  { host with
    inventoryUpdatedAt := some now
    inventoryQueryHash := hash
    inventoryRefreshRequested := false }

/-- `ingested` is false when an error ends the pass before `MarkFresh`. -/
def hostAfter (w : World) (write : Write) (ingested : Bool) (now : Int) : Host :=
  if ingested = true ∧ marksFresh (catalogs w.version) write.results = true then
    w.host.markInventoryFresh ((catalogs w.version).hash sum256) now
  else w.host

/-- An event that is not possible changes nothing. A restart ends what is in progress. -/
def step (w : World) : Event → World
  | .requestInventoryRefresh =>
    { w with host := { w.host with inventoryRefreshRequested := true }, asked := w.asked + 1 }
  | .upsertOnOsqueryEnroll nodeKey =>
    { w with
      host := { w.host with
        osqueryNodeKey := nodeKey
        inventoryUpdatedAt := none
        inventoryQueryHash := [] }
      asked := w.asked + 1 }
  | .beginRead nodeKey =>
    if nodeKey = w.host.osqueryNodeKey then { w with reads := w.reads ++ [w.host] } else w
  | .finishRead read now =>
    match w.reads[read]? with
    | none => w
    | some host =>
      { w with
        reads := w.reads.eraseIdx read
        handOuts := w.handOuts ++ [handOutOf sum256 catalogs w host now] }
  | .beginWrite handOut nodeKey results =>
    match w.handOuts[handOut]? with
    | none => w
    | some handOut =>
      if nodeKey = w.host.osqueryNodeKey ∧ Answers handOut results then
        { w with writes := w.writes ++ [{ handOut, results }] }
      else w
  | .finishWrite write ingested now =>
    match w.writes[write]? with
    | none => w
    | some answer =>
      { w with
        host := hostAfter sum256 catalogs w answer ingested now
        writes := w.writes.eraseIdx write }
  | .upgrade version => { w with version, reads := [], writes := [] }

/-- Every required query of the catalog was handed out and answered with success. -/
def Complete (catalog : Catalog) (write : Write) : Prop :=
  ∀ entry ∈ catalog.registry.entries, entry.2.optional = false →
    queryName .detail entry.1 ∈ write.handOut.names ∧
      ∃ result ∈ detailResults write.results, result.1 = entry.1 ∧ distributedStatusOK result.2 = true

/-- The step clears the request or sets the time or the hash. -/
def Refreshes (before after : Host) : Prop :=
  (before.inventoryRefreshRequested = true ∧ after.inventoryRefreshRequested = false) ∨
    (after.inventoryUpdatedAt ≠ before.inventoryUpdatedAt ∧ after.inventoryUpdatedAt ≠ none) ∨
    (after.inventoryQueryHash ≠ before.inventoryQueryHash ∧ after.inventoryQueryHash ≠ [])

/-- A step refreshes only by a complete answer to detail queries that were handed out
after the last request or re-enrollment, and records the hash of their catalog. -/
def Honoured (w : World) (event : Event) : Prop :=
  Refreshes w.host (step sum256 catalogs w event).host →
    ∃ index ingested now write, event = .finishWrite index ingested now ∧ w.writes[index]? = some write ∧
      write.handOut.asked = w.asked ∧ Complete (catalogs write.handOut.version) write ∧
      (step sum256 catalogs w event).host.inventoryQueryHash =
        (catalogs write.handOut.version).hash sum256

/-- What is in progress and complete was asked for after the last request or
re-enrollment, by this server version. -/
def Current (w : World) (write : Write) : Prop :=
  marksFresh (catalogs w.version) write.results = true →
    write.handOut.asked = w.asked ∧ write.handOut.version = w.version

/-- No complete answer crosses a request, a re-enrollment or an upgrade: none is in
progress when a request or re-enrollment comes, and none arrives that was asked for before
the last one or by another server version. -/
def Uncrossed (w : World) : Event → Prop
  | .requestInventoryRefresh | .upsertOnOsqueryEnroll _ =>
    ∀ write ∈ w.writes, marksFresh (catalogs w.version) write.results = false
  | .beginWrite handOut _ results =>
    ∀ asked ∈ w.handOuts[handOut]?, Current catalogs w { handOut := asked, results }
  | _ => True

instance (w : World) (write : Write) : Decidable (Current catalogs w write) :=
  inferInstanceAs (Decidable (marksFresh (catalogs w.version) write.results = true →
    write.handOut.asked = w.asked ∧ write.handOut.version = w.version))

instance decidableUncrossed (w : World) : ∀ event, Decidable (Uncrossed catalogs w event)
  | .requestInventoryRefresh | .upsertOnOsqueryEnroll _ =>
    inferInstanceAs (Decidable (∀ write ∈ w.writes, marksFresh (catalogs w.version) write.results = false))
  | .beginWrite handOut _ results =>
    inferInstanceAs (Decidable (∀ asked ∈ w.handOuts[handOut]?,
      Current catalogs w { handOut := asked, results }))
  | .beginRead _ | .finishRead _ _ | .finishWrite _ _ _ | .upgrade _ => isTrue trivial

/-- What holds of every write in progress when no complete answer crosses. -/
def Inv (w : World) : Prop :=
  ∀ write ∈ w.writes, Answers write.handOut write.results ∧ Current catalogs w write

section

variable {sum256 : String → Vector UInt8 32} {catalogs : Nat → Catalog} {w : World}

/-- An answer that is not complete stays current whatever is asked for. -/
theorem inv_of_asked (h : Inv catalogs w) {w' : World} (hwrites : w'.writes = w.writes)
    (hversion : w'.version = w.version)
    (hnone : ∀ write ∈ w.writes, marksFresh (catalogs w.version) write.results = false) :
    Inv catalogs w' := by
  intro write hwrite
  rw [hwrites] at hwrite
  constructor
  · exact (h write hwrite).1
  · intro hmarks
    rw [hversion, hnone write hwrite] at hmarks
    cases hmarks

theorem inv_step {event : Event} (h : Inv catalogs w) (hcond : Uncrossed catalogs w event) :
    Inv catalogs (step sum256 catalogs w event) := by
  cases event with
  | requestInventoryRefresh => exact inv_of_asked h rfl rfl hcond
  | upsertOnOsqueryEnroll nodeKey => exact inv_of_asked h rfl rfl hcond
  | beginRead nodeKey =>
    simp only [step]
    split_ifs
    · exact h
    · exact h
  | finishRead read now =>
    simp only [step]
    cases w.reads[read]? with
    | none => exact h
    | some host => exact h
  | beginWrite handOut nodeKey results =>
    simp only [step]
    cases hasked : w.handOuts[handOut]? with
    | none => exact h
    | some asked =>
      simp only
      split_ifs with hkey
      · intro write hwrite
        rcases List.mem_append.mp hwrite with hold | hnew
        · exact h write hold
        · rw [List.mem_singleton.mp hnew]
          exact ⟨hkey.2, hcond asked hasked⟩
      · exact h
  | finishWrite index ingested now =>
    simp only [step]
    cases w.writes[index]? with
    | none => exact h
    | some answer => exact fun write hwrite => h write (List.mem_of_mem_eraseIdx hwrite)
  | upgrade version => exact List.forall_mem_nil _

theorem not_refreshes_refl (host : Host) : ¬Refreshes host host := by
  rintro (⟨hbefore, hafter⟩ | ⟨hne, -⟩ | ⟨hne, -⟩)
  · rw [hbefore] at hafter
    cases hafter
  · exact hne rfl
  · exact hne rfl

/-- Whatever the pass found is complete for the catalog of the server. -/
theorem complete_of_marksFresh {catalog : Catalog} {write : Write}
    (hanswers : Answers write.handOut write.results) (hmarks : marksFresh catalog write.results = true) :
    Complete catalog write := by
  intro entry hentry hrequired
  have hsaw := List.all_eq_true.mp (Bool.and_eq_true_iff.mp hmarks).2 entry hentry
  rw [hrequired, Bool.false_or, List.any_eq_true] at hsaw
  obtain ⟨result, hresult, hok⟩ := hsaw
  obtain ⟨hname, hstatus⟩ := Bool.and_eq_true_iff.mp hok
  have hsuffix : result.1 = entry.1 := by simpa using hname
  exact ⟨hsuffix ▸ hanswers result hresult, result, hresult, hsuffix, hstatus⟩

theorem honoured_of_inv (h : Inv catalogs w) (event : Event) : Honoured sum256 catalogs w event := by
  intro hrefreshes
  cases event with
  | requestInventoryRefresh =>
    rcases hrefreshes with ⟨-, hcleared⟩ | ⟨hne, -⟩ | ⟨hne, -⟩
    · cases hcleared
    · exact absurd rfl hne
    · exact absurd rfl hne
  | upsertOnOsqueryEnroll nodeKey =>
    rcases hrefreshes with ⟨hbefore, hafter⟩ | ⟨-, hne⟩ | ⟨-, hne⟩
    · exact absurd (hbefore.symm.trans hafter) nofun
    · exact absurd rfl hne
    · exact absurd rfl hne
  | beginRead nodeKey =>
    simp only [step] at hrefreshes
    split_ifs at hrefreshes
    · exact absurd hrefreshes (not_refreshes_refl _)
    · exact absurd hrefreshes (not_refreshes_refl _)
  | finishRead read now =>
    simp only [step] at hrefreshes
    cases hread : w.reads[read]? with
    | none => simp [hread, not_refreshes_refl] at hrefreshes
    | some host => simp [hread, not_refreshes_refl] at hrefreshes
  | beginWrite handOut nodeKey results =>
    simp only [step] at hrefreshes
    cases hasked : w.handOuts[handOut]? with
    | none => simp [hasked, not_refreshes_refl] at hrefreshes
    | some asked =>
      simp only [hasked] at hrefreshes
      split_ifs at hrefreshes
      · exact absurd hrefreshes (not_refreshes_refl _)
      · exact absurd hrefreshes (not_refreshes_refl _)
  | finishWrite index ingested now =>
    cases hwrite : w.writes[index]? with
    | none => simp [step, hwrite, not_refreshes_refl] at hrefreshes
    | some answer =>
      obtain ⟨hanswers, hcurrent⟩ := h answer (List.mem_of_getElem? hwrite)
      simp only [step, hwrite, hostAfter] at hrefreshes
      split_ifs at hrefreshes with hmarks
      · obtain ⟨hasked, hversion⟩ := hcurrent hmarks.2
        refine ⟨index, ingested, now, answer, rfl, hwrite, hasked, ?_, ?_⟩
        · rw [hversion]
          exact complete_of_marksFresh hanswers hmarks.2
        · simp only [step, hwrite, hostAfter, if_pos hmarks, hversion]
          rfl
      · exact absurd hrefreshes (not_refreshes_refl _)
  | upgrade version => exact absurd hrefreshes (not_refreshes_refl _)

end

/-- A host that has just enrolled, before its first read. -/
def enrolled (nodeKey version : Nat) : World where
  host := { osqueryNodeKey := nodeKey }
  version := version

/-- In every run in which no complete answer crosses a request, a re-enrollment or an
upgrade, every step honours the requests. -/
theorem refreshes_honoured (nodeKey version : Nat) (events : List Event)
    (hcond : Along (step sum256 catalogs) (Uncrossed catalogs) (enrolled nodeKey version) events) :
    Along (step sum256 catalogs) (Honoured sum256 catalogs) (enrolled nodeKey version) events :=
  Runs.along_invariant (P := Inv catalogs) (fun _ _ h hc => inv_step h hc)
    (fun _ event h _ => honoured_of_inv h event) (List.forall_mem_nil _) hcond

def sampleCatalog : Catalog where
  registry := AList.singleton "os_version".toList { sql := "SELECT 1", ingest := .hostDetail }
  required := ⟨_, List.mem_singleton.mpr rfl, rfl⟩

def sampleAnswer : Results := AList.singleton "woodstar_detail_query_os_version".toList (some 0)

/-- The answer to what was handed out first arrives after a request. -/
def staleAnswer : List Event :=
  [.beginRead 1, .finishRead 0 10, .requestInventoryRefresh, .beginWrite 0 1 sampleAnswer,
    .finishWrite 0 true 20]

/-- The answer arrives before the request, and a second one after it to a second read. -/
def freshAnswers : List Event :=
  [.beginRead 1, .finishRead 0 10, .beginWrite 0 1 sampleAnswer, .finishWrite 0 true 20,
    .requestInventoryRefresh, .beginRead 1, .finishRead 0 30, .beginWrite 1 1 sampleAnswer,
    .finishWrite 0 true 40]

theorem refreshes_honoured_sample :
    Along (step QueryNames.sampleSum (fun _ => sampleCatalog))
        (Honoured QueryNames.sampleSum (fun _ => sampleCatalog)) (enrolled 1 0) freshAnswers ∧
      (exec (step QueryNames.sampleSum (fun _ => sampleCatalog)) (enrolled 1 0)
        freshAnswers).host.inventoryUpdatedAt = some 40 :=
  ⟨refreshes_honoured QueryNames.sampleSum (fun _ => sampleCatalog) 1 0 freshAnswers (by decide),
    by decide⟩

/-- The request is cleared although nothing was handed out after it. -/
theorem stale_answer_clears_request :
    ¬Along (step QueryNames.sampleSum (fun _ => sampleCatalog))
        (Honoured QueryNames.sampleSum (fun _ => sampleCatalog)) (enrolled 1 0) staleAnswer := by
  intro h
  have hlast := h.2.2.2.2.1
  obtain ⟨index, ingested, now, write, hevent, hwrite, hasked, -⟩ := hlast (Or.inl (by decide))
  cases hevent
  have hold : write.handOut.asked = 0 := by
    have hmap := congrArg (Option.map (fun write : Write => write.handOut.asked)) hwrite
    rw [Option.map_some] at hmap
    rw [← Option.some.injEq, ← hmap]
    decide
  rw [hold] at hasked
  revert hasked
  decide

end InventoryRefresh
