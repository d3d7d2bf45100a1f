import Mathlib.Data.List.Sort
import Woodstar.LastWrites
import Woodstar.Heartbeats
import Woodstar.PolicyRuns

/-!
# Status history

`internal/osquery/history`: a snapshot counts the hosts that are online and the answers of
every policy into the bucket of its time, and a sweep removes the buckets before a time.
Every transaction is one step; the rows it counts are those of contacts and of policies.
The counts are numbers without bound.
-/
namespace StatusHistory

open KeyedRows (Table)
open PolicyModel (Db Pair PolicyStatus Crypto)
open Heartbeats (Addresses World Source)
open LastWrites Runs

section Rows

variable {ρ κ : Type} [DecidableEq κ]

/-- `INSERT ... ON CONFLICT (key) DO UPDATE` of all other columns. -/
def put (key : ρ → κ) (rows : List ρ) (row : ρ) : List ρ :=
  row :: rows.filter (fun other => key other ≠ key row)

/-- The row under a key. -/
def cell (key : ρ → κ) (k : κ) (rows : List ρ) : Option ρ := rows.find? (fun row => key row = k)

def Keyed (key : ρ → κ) (rows : List ρ) : Prop := (rows.map key).Nodup

variable {key : ρ → κ} {rows : List ρ} {row : ρ} {k : κ}

theorem keyed_put (h : Keyed key rows) : Keyed key (put key rows row) := by
  simp only [Keyed, put, List.map_cons, List.nodup_cons]
  constructor
  · intro hmem
    obtain ⟨other, hother, heq⟩ := List.mem_map.mp hmem
    simp only [List.mem_filter, decide_eq_true_eq] at hother
    exact hother.2 heq
  · exact h.sublist (List.filter_sublist.map key)

omit [DecidableEq κ] in
theorem keyed_filter (p : ρ → Bool) (h : Keyed key rows) : Keyed key (rows.filter p) :=
  h.sublist (List.filter_sublist.map key)

/-- A table of distinct keys holds a row exactly where it is found. -/
theorem cell_eq_some (h : Keyed key rows) : cell key k rows = some row ↔ row ∈ rows ∧ key row = k := by
  constructor
  · intro hcell
    exact ⟨List.mem_of_find?_eq_some hcell, by simpa using List.find?_some hcell⟩
  · rintro ⟨hmem, rfl⟩
    cases hcell : cell key (key row) rows with
    | none =>
      have := List.find?_eq_none.mp hcell row hmem
      simp at this
    | some found =>
      have hfound : key found = key row := by simpa using List.find?_some hcell
      rw [List.inj_on_of_nodup_map h (List.mem_of_find?_eq_some hcell) hmem hfound]

theorem cell_put : cell key k (put key rows row) = if key row = k then some row else cell key k rows := by
  simp only [cell, put, List.find?_cons, List.find?_filter]
  by_cases hk : key row = k
  · simp only [hk, decide_true, if_true]
  · simp only [hk, decide_false, if_false]
    congr 1
    funext other
    by_cases hother : key other = k
    · have hne : key other ≠ key row := by
        rw [hother]
        exact fun heq => hk heq.symm
      simp [hother, Ne.symm hk]
    · simp [hother]

/-- A deletion that looks at the keys alone. -/
theorem cell_filter (key : ρ → κ) (p : κ → Bool) :
    cell key k (rows.filter (fun row => p (key row))) = if p k = true then cell key k rows else none := by
  simp only [cell, List.find?_filter]
  by_cases hp : p k = true
  · rw [if_pos hp]
    congr 1
    funext other
    by_cases hother : key other = k
    · simp [hother, hp]
    · simp [hother]
  · rw [if_neg hp]
    apply List.find?_eq_none.mpr
    intro other _
    by_cases hother : key other = k
    · simp [hother, hp]
    · simp [hother]

/-- Rows made of a list of numbers are put under their keys one after another. -/
theorem cell_foldl_put {ι : Type} [DecidableEq ι] (ids : List ι) (make : ι → ρ) (name : κ → ι)
    (hname : ∀ id, name (key (make id)) = id) :
    cell key k (ids.foldl (fun rows id => put key rows (make id)) rows) =
      if name k ∈ ids ∧ key (make (name k)) = k then some (make (name k)) else cell key k rows := by
  induction ids generalizing rows with
  | nil => simp
  | cons id ids ih =>
    rw [List.foldl_cons, ih, cell_put]
    by_cases hk : key (make id) = k
    · have hid : name k = id := by rw [← hk, hname]
      subst hid
      simp [hk]
    · rw [if_neg hk]
      by_cases hid : name k = id
      · subst hid
        simp [hk]
      · simp [hid]

end Rows

def bucketInterval : Int := 300000000

/-- `observedAt.Truncate(BucketInterval)`. The zero time of Go is a multiple of five minutes
before the Unix epoch. -/
def bucketOf (observedAt : Int) : Int := observedAt - observedAt % bucketInterval

structure HostStatusPoint where
  bucket : Int
  onlineCount : Nat
  offlineCount : Nat
  deriving DecidableEq, Repr

structure PolicyPointKey where
  policyID : Int
  bucket : Int
  deriving DecidableEq, Repr

structure PolicyStatusPoint where
  policyID : Int
  bucket : Int
  passCount : Nat
  failCount : Nat
  errorCount : Nat
  pendingCount : Nat
  deriving DecidableEq, Repr

def PolicyStatusPoint.key (point : PolicyStatusPoint) : PolicyPointKey := ⟨point.policyID, point.bucket⟩

structure State (A : Type) where
  world : World A := {}
  db : Db := {}
  hostPoints : List HostStatusPoint := []
  policyPoints : List PolicyStatusPoint := []

inductive Event where
  | contact (e : Heartbeats.Event)
  | policy (e : PolicyRuns.Event)
  | snapshot (observedAt : Int)
  | sweep (cutoff : Int)
  deriving DecidableEq

variable {A : Type}

/-- The EXISTS of the counts. -/
def seen (w : World A) (observedAt hostID : Int) : Bool :=
  match w.heartbeats ⟨hostID, .osquery⟩ with
  | some row => decide (observedAt - bucketInterval ≤ row.lastSeenAt ∧ row.lastSeenAt ≤ observedAt)
  | none => false

def hostPoint (w : World A) (observedAt : Int) : HostStatusPoint where
  bucket := bucketOf observedAt
  onlineCount := w.hosts.ids.countP (seen w observedAt)
  offlineCount := w.hosts.ids.countP (fun id => !seen w observedAt id)

/-- The hosts of the view `osquery_policy_assignments`. -/
def assignedHosts (db : Db) (policyID : Int) : List Int :=
  db.hosts.ids.filter (fun hostID => db.assigned ⟨policyID, hostID⟩)

def policyStatus (db : Db) (policyID hostID : Int) : Option PolicyStatus :=
  (db.membership ⟨policyID, hostID⟩).map (fun membership => membership.status)

def policyPoint (db : Db) (observedAt policyID : Int) : PolicyStatusPoint :=
  let counts (p : Option PolicyStatus → Bool) : Nat :=
    (assignedHosts db policyID).countP (fun hostID => p (policyStatus db policyID hostID))
  { policyID := policyID
    bucket := bucketOf observedAt
    passCount := counts (fun status => status == some .pass)
    failCount := counts (fun status => status == some .fail)
    errorCount := counts (fun status => status == some .error)
    pendingCount := counts (fun status => status.isNone || status == some .pending) }

def snapshot (s : State A) (observedAt : Int) : State A :=
  { s with
    hostPoints := put HostStatusPoint.bucket s.hostPoints (hostPoint s.world observedAt)
    policyPoints := s.db.policies.ids.foldl
      (fun rows id => put PolicyStatusPoint.key rows (policyPoint s.db observedAt id)) s.policyPoints }

def sweepBefore (s : State A) (cutoff : Int) : State A :=
  { s with
    hostPoints := s.hostPoints.filter (fun point => !decide (point.bucket < cutoff))
    policyPoints := s.policyPoints.filter (fun point => !decide (point.key.bucket < cutoff)) }

/-- Points go with their policy. -/
def cascade (s : State A) : State A :=
  { s with policyPoints := s.policyPoints.filter (fun point =>
      (s.db.policies.row point.key.policyID).isSome) }

/-- The rows that go with a host. -/
def dropHost (db : Db) (id : Int) : Db :=
  { db with
    hosts := db.hosts.erase id
    labelMembership := fun label host => if host = id then false else db.labelMembership label host
    membership := fun k => if k.hostID = id then none else db.membership k
    runs := fun k => if k.hostID = id then none else db.runs k }

variable [DecidableEq A]

/-- The two tables of hosts are one. -/
def step (crypto : Crypto) (net : Addresses A) (s : State A) : Event → State A
  | .contact .createHost | .policy .enroll =>
    { s with
      world := Heartbeats.step net s.world .createHost
      db := PolicyRuns.step crypto s.db .enroll }
  | .contact (.deleteHost id) =>
    { s with world := Heartbeats.step net s.world (.deleteHost id), db := dropHost s.db id }
  | .contact e => { s with world := Heartbeats.step net s.world e }
  | .policy e => cascade { s with db := PolicyRuns.step crypto s.db e }
  | .snapshot observedAt => snapshot s observedAt
  | .sweep cutoff => sweepBefore s cutoff

omit [DecidableEq A] in
def listHostStatus (s : State A) (since : Int) : List HostStatusPoint :=
  (s.hostPoints.filter (fun point => decide (since ≤ point.bucket))).mergeSort
    (fun a b => decide (a.bucket ≤ b.bucket))

omit [DecidableEq A] in
def listPolicyStatus (s : State A) (policyID since : Int) : List PolicyStatusPoint :=
  (s.policyPoints.filter (fun point =>
      decide (point.policyID = policyID) && decide (since ≤ point.bucket))).mergeSort
    (fun a b => decide (a.bucket ≤ b.bucket))

section Counts

omit [DecidableEq A]

end Counts

omit [DecidableEq A] in
def storedHost (bucket : Int) (s : State A) : Option HostStatusPoint :=
  cell HostStatusPoint.bucket bucket s.hostPoints

omit [DecidableEq A] in
def storedPolicy (k : PolicyPointKey) (s : State A) : Option PolicyStatusPoint :=
  cell PolicyStatusPoint.key k s.policyPoints

section Writes

variable (crypto : Crypto) (net : Addresses A)

omit [DecidableEq A] in
/-- The host point of a bucket. -/
def hostWrites (bucket : Int) (s : State A) : Event → Option (Option HostStatusPoint)
  | .snapshot observedAt =>
    if bucketOf observedAt = bucket then some (some (hostPoint s.world observedAt)) else none
  | .sweep cutoff => if bucket < cutoff then some none else none
  | _ => none

omit [DecidableEq A] in
/-- The point of a policy and bucket. -/
def policyWrites (k : PolicyPointKey) (s : State A) : Event → Option (Option PolicyStatusPoint)
  | .snapshot observedAt =>
    if (s.db.policies.row k.policyID).isSome = true ∧ bucketOf observedAt = k.bucket then
      some (some (policyPoint s.db observedAt k.policyID))
    else none
  | .sweep cutoff => if k.bucket < cutoff then some none else none
  | .policy .enroll => none
  | .policy e =>
    if ((PolicyRuns.step crypto s.db e).policies.row k.policyID).isSome = true then none else some none
  | .contact _ => none

variable {crypto net}

theorem host_cell (bucket : Int) (s : State A) (e : Event) :
    storedHost bucket (step crypto net s e) = (hostWrites bucket s e).getD (storedHost bucket s) := by
  cases e with
  | snapshot observedAt =>
    simp only [step, snapshot, hostWrites, storedHost]
    rw [cell_put]
    have hkey : (hostPoint s.world observedAt).bucket = bucketOf observedAt := rfl
    rw [hkey]
    split_ifs <;> rfl
  | sweep cutoff =>
    simp only [step, sweepBefore, hostWrites, storedHost]
    rw [cell_filter HostStatusPoint.bucket (fun b => !decide (b < cutoff))]
    by_cases hlt : bucket < cutoff <;> simp [hlt]
  | contact e => cases e <;> rfl
  | policy e => cases e <;> rfl

theorem policy_cell (k : PolicyPointKey) (s : State A) (e : Event) :
    storedPolicy k (step crypto net s e) = (policyWrites crypto k s e).getD (storedPolicy k s) := by
  have hcascade : ∀ db, storedPolicy k (cascade { s with db := db }) =
      (if (db.policies.row k.policyID).isSome = true then none else some none :
        Option (Option PolicyStatusPoint)).getD (storedPolicy k s) := by
    intro db
    simp only [cascade, storedPolicy]
    rw [cell_filter PolicyStatusPoint.key (fun k => (db.policies.row k.policyID).isSome)]
    split_ifs <;> rfl
  cases e with
  | snapshot observedAt =>
    simp only [step, snapshot, policyWrites, storedPolicy]
    rw [cell_foldl_put s.db.policies.ids (policyPoint s.db observedAt) PolicyPointKey.policyID (fun _ => rfl)]
    have hkey : (policyPoint s.db observedAt k.policyID).key = k ↔ bucketOf observedAt = k.bucket := by
      constructor
      · intro h
        rw [← h]
        rfl
      · intro h
        simp only [PolicyStatusPoint.key, policyPoint, h]
    simp only [Table.mem_ids, hkey]
    split_ifs <;> rfl
  | sweep cutoff =>
    simp only [step, sweepBefore, policyWrites, storedPolicy]
    rw [cell_filter PolicyStatusPoint.key (fun k => !decide (k.bucket < cutoff))]
    by_cases hlt : k.bucket < cutoff <;> simp [hlt]
  | contact e => cases e <;> rfl
  | policy e =>
    cases e with
    | enroll => rfl
    | _ => exact hcascade _

end Writes

section Runs

variable {crypto : Crypto} {net : Addresses A} {delay : Nat}

omit [DecidableEq A] in
structure Sound (s : State A) : Prop where
  hosts : Keyed HostStatusPoint.bucket s.hostPoints
  policies : Keyed PolicyStatusPoint.key s.policyPoints

theorem sound_step (s : State A) (e : Event) (h : Sound s) : Sound (step crypto net s e) := by
  cases e with
  | snapshot observedAt =>
    constructor
    · exact keyed_put h.hosts
    · simp only [step, snapshot]
      generalize s.db.policies.ids = ids
      have hrows := h.policies
      generalize s.policyPoints = rows at hrows ⊢
      induction ids generalizing rows with
      | nil => exact hrows
      | cons id ids ih => exact ih _ (keyed_put hrows)
  | sweep cutoff => exact ⟨keyed_filter _ h.hosts, keyed_filter _ h.policies⟩
  | contact e => cases e <;> exact ⟨h.hosts, h.policies⟩
  | policy e =>
    cases e with
    | enroll => exact ⟨h.hosts, h.policies⟩
    | _ => exact ⟨h.hosts, keyed_filter _ h.policies⟩

theorem sound_run (events : List Event) :
    Sound (exec (step crypto net) ({} : State A) events) :=
  exec_invariant sound_step events ⟨List.nodup_nil, List.nodup_nil⟩

omit [DecidableEq A] in
/-- Rows of distinct numbers are listed in strictly ascending order. -/
theorem sorted_strictly {ρ : Type} {number : ρ → Int} {rows : List ρ} (h : (rows.map number).Nodup) :
    (rows.mergeSort (fun a b => decide (number a ≤ number b))).Pairwise (fun a b => number a < number b) := by
  have hsorted : (rows.mergeSort (fun a b => decide (number a ≤ number b))).Pairwise
      (fun a b => decide (number a ≤ number b) = true) := List.pairwise_mergeSort
    (fun a b c hab hbc => by simp only [decide_eq_true_eq] at *; omega)
    (fun a b => by simp only [Bool.or_eq_true, decide_eq_true_eq]; omega) rows
  have hdistinct : ((rows.mergeSort (fun a b => decide (number a ≤ number b))).map number).Nodup :=
    ((List.mergeSort_perm rows _).map number).nodup_iff.mpr h
  have hne := List.pairwise_map.mp hdistinct
  apply (hsorted.and hne).imp
  intro a b hab
  have := of_decide_eq_true hab.1
  have := hab.2
  omega

omit [DecidableEq A] in
theorem listHostStatus_sorted {s : State A} (h : Sound s) (since : Int) :
    (listHostStatus s since).Pairwise (fun a b => a.bucket < b.bucket) :=
  sorted_strictly (keyed_filter _ h.hosts)

omit [DecidableEq A] in
theorem listPolicyStatus_sorted {s : State A} (h : Sound s) (policyID since : Int) :
    (listPolicyStatus s policyID since).Pairwise (fun a b => a.bucket < b.bucket) := by
  apply sorted_strictly
  have hkeys : Keyed PolicyStatusPoint.key (s.policyPoints.filter (fun point =>
      decide (point.policyID = policyID) && decide (since ≤ point.bucket))) := keyed_filter _ h.policies
  apply List.Nodup.map_on _ (List.Nodup.of_map _ hkeys)
  intro a ha b hb hbucket
  simp only [List.mem_filter, Bool.and_eq_true, decide_eq_true_eq] at ha hb
  apply List.inj_on_of_nodup_map hkeys
  · simp [ha]
  · simp [hb]
  · simp only [PolicyStatusPoint.key, ha.2.1, hb.2.1, hbucket]

omit [DecidableEq A] in
theorem mem_listHostStatus {s : State A} (h : Sound s) {since : Int} {point : HostStatusPoint} :
    point ∈ listHostStatus s since ↔
      since ≤ point.bucket ∧ storedHost point.bucket s = some point := by
  rw [storedHost, cell_eq_some h.hosts]
  simp only [listHostStatus, List.mem_mergeSort, List.mem_filter, decide_eq_true_eq, and_true]
  exact and_comm

omit [DecidableEq A] in
theorem mem_listPolicyStatus {s : State A} (h : Sound s) {policyID since : Int} {point : PolicyStatusPoint} :
    point ∈ listPolicyStatus s policyID since ↔ point.policyID = policyID ∧ since ≤ point.bucket ∧
      storedPolicy point.key s = some point := by
  rw [storedPolicy, cell_eq_some h.policies]
  simp only [listPolicyStatus, List.mem_mergeSort, List.mem_filter, Bool.and_eq_true, decide_eq_true_eq,
    and_true]
  constructor
  · rintro ⟨hmem, hid, hsince⟩
    exact ⟨hid, hsince, hmem⟩
  · rintro ⟨hid, hsince, hmem⟩
    exact ⟨hmem, hid, hsince⟩

theorem host_lists (events : List Event) (since : Int) (point : HostStatusPoint) :
    point ∈ listHostStatus (exec (step crypto net) ({} : State A) events) since ↔ since ≤ point.bucket ∧
      LastWrite (step crypto net) (hostWrites point.bucket) point ({} : State A) events := by
  rw [mem_listHostStatus (sound_run events), exec_cell_of_none (host_cell point.bucket) rfl]

theorem policy_lists (events : List Event) (policyID since : Int) (point : PolicyStatusPoint) :
    point ∈ listPolicyStatus (exec (step crypto net) ({} : State A) events) policyID since ↔
      point.policyID = policyID ∧ since ≤ point.bucket ∧
        LastWrite (step crypto net) (policyWrites crypto point.key) point ({} : State A) events := by
  rw [mem_listPolicyStatus (sound_run events), exec_cell_of_none (policy_cell point.key) rfl]

/-- After any run the lists are in order of their buckets and hold, of each bucket, the counts of
its last snapshot, unless a sweep removed the bucket since, or the policy went. -/
theorem history_lists_last_snapshots (crypto : Crypto) (net : Addresses A) (events : List Event) :
    let s := exec (step crypto net) ({} : State A) events
    (∀ since, (listHostStatus s since).Pairwise (fun a b => a.bucket < b.bucket) ∧
      ∀ point, point ∈ listHostStatus s since ↔ since ≤ point.bucket ∧
        LastWrite (step crypto net) (hostWrites point.bucket) point ({} : State A) events) ∧
    ∀ policyID since, (listPolicyStatus s policyID since).Pairwise (fun a b => a.bucket < b.bucket) ∧
      ∀ point, point ∈ listPolicyStatus s policyID since ↔ point.policyID = policyID ∧ since ≤ point.bucket ∧
        LastWrite (step crypto net) (policyWrites crypto point.key) point ({} : State A) events := by
  constructor
  · intro since
    constructor
    · exact listHostStatus_sorted (sound_run events) since
    · exact host_lists events since
  · intro policyID since
    constructor
    · exact listPolicyStatus_sorted (sound_run events) policyID since
    · exact policy_lists events policyID since

end Runs

section Contacts

variable {crypto : Crypto} {net : Addresses A} {delay : Nat} {w : World A}

def Prompt (delay : Nat) (s : State A) : Event → Prop
  | .contact e => Heartbeats.Prompt delay s.world e
  | _ => True

instance decidablePrompt (delay : Nat) (s : State A) (e : Event) : Decidable (Prompt delay s e) := by
  cases e <;> simp only [Prompt] <;> infer_instance

/-- A listed point is the one of a snapshot, which came after the first part of the run. -/
theorem host_snapshot {events : List Event} {since : Int} {point : HostStatusPoint}
    (hmem : point ∈ listHostStatus (exec (step crypto net) ({} : State A) events) since) :
    ∃ before observedAt after, events = before ++ .snapshot observedAt :: after ∧
      point = hostPoint (exec (step crypto net) ({} : State A) before).world observedAt := by
  obtain ⟨-, before, e, after, hsplit, hwrite, -⟩ := (host_lists events since point).mp hmem
  cases e with
  | snapshot observedAt =>
    simp only [hostWrites] at hwrite
    split_ifs at hwrite
    exact ⟨before, observedAt, after, hsplit, (Option.some.inj (Option.some.inj hwrite)).symm⟩
  | sweep cutoff =>
    simp only [hostWrites] at hwrite
    split_ifs at hwrite
    cases hwrite
  | contact e => cases hwrite
  | policy e => cases hwrite

theorem policy_snapshot {events : List Event} {policyID since : Int} {point : PolicyStatusPoint}
    (hmem : point ∈ listPolicyStatus (exec (step crypto net) ({} : State A) events) policyID since) :
    ∃ before observedAt after, events = before ++ .snapshot observedAt :: after ∧
      point = policyPoint (exec (step crypto net) ({} : State A) before).db observedAt policyID := by
  obtain ⟨rfl, -, before, e, after, hsplit, hwrite, -⟩ := (policy_lists events policyID since point).mp hmem
  cases e with
  | snapshot observedAt =>
    simp only [policyWrites] at hwrite
    split_ifs at hwrite
    exact ⟨before, observedAt, after, hsplit, (Option.some.inj (Option.some.inj hwrite)).symm⟩
  | sweep cutoff =>
    simp only [policyWrites] at hwrite
    split_ifs at hwrite
    cases hwrite
  | contact e => cases hwrite
  | policy e =>
    cases e <;> simp only [policyWrites] at hwrite
    all_goals first | (split_ifs at hwrite; cases hwrite) | cases hwrite

/-- A host is contacted, a second one never, and the bucket counts both. -/
def sampleRun : List Event :=
  Heartbeats.sampleRun.map Event.contact ++ [.contact .createHost, .snapshot 261001000]

end Contacts

end StatusHistory
