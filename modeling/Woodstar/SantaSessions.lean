import Woodstar.SantaSync
import Woodstar.Runs

/-!
# Sync sessions of one host

A client database beside the server rows. A session is a preflight, the paged
download of the payload, its application, and a postflight; it may be cut after
any of these. Between sessions the client may drift, and any authority in its
rules may create transitive rules. The rules hash is a parameter, since Santa
computes it.
-/
namespace SantaSessions

open Primitives (Fault hexDecodes isHexDigit toLower)
open KeyedSets (applyEdits applyEdits_delta mem_applyEdits)
open SantaTargets SantaSync
open Runs (exec)

/-- A rule the client made itself, on the authority of one of its rules. -/
structure TransitiveRule where
  key : RuleKey
  creator : Authority
  deriving DecidableEq, Repr

structure Client where
  rules : Finset Target := ∅
  transitive : Finset TransitiveRule := ∅
  deriving DecidableEq

def Client.authorities (c : Client) (a : Authority) : Prop := ∃ t ∈ c.rules, t.authority = some a

instance (c : Client) (a : Authority) : Decidable (c.authorities a) :=
  inferInstanceAs (Decidable (∃ t ∈ c.rules, t.authority = some a))

def applyRules (held : Finset Target) (payload : List PayloadRule) : Finset Target :=
  applyEdits Target.identityKey held (payload.map PayloadRule.edit)

/-- NORMAL edits the rules, CLEAN replaces them, and CLEAN_ALL also removes the
transitive ones. -/
def Client.applyPayload (c : Client) : SyncType → List PayloadRule → Client
  | .normal, payload => { c with rules := applyRules c.rules payload }
  | .clean, payload => { c with rules := applyRules ∅ payload }
  | .cleanAll, payload => { rules := applyRules ∅ payload, transitive := ∅ }

def ruleDownloadPageSize : Nat := 500

/-- Follow cursors from page to page until one is empty. -/
def download (s : SyncState) (limit : Nat) : Nat → Cursor → Option (List PayloadRule)
  | 0, _ => none
  | fuel + 1, cursor =>
    match loadPendingPayloadPage s cursor limit with
    | .error _ => none
    | .ok page =>
      match page.cursor with
      | .empty => some page.rules
      | next => (download s limit fuel next).map (page.rules ++ ·)

def downloadAll (s : SyncState) (payload : List PayloadRule) : Option (List PayloadRule) :=
  download s ruleDownloadPageSize (payload.length + 1) .empty

inductive Cut where
  | beforeApply | beforePostflight | uncut
  deriving DecidableEq, Repr

/-- The counts and the type that a postflight reports. -/
structure Report where
  rulesReceived : UInt32
  rulesProcessed : UInt32
  syncType : SyncType
  deriving DecidableEq, Repr

/-- A session's arguments. Without a report of its own the client reports what it did. -/
structure Session where
  policyDigest : String
  desired : List Target
  reported : RuleCounts := {}
  requestCleanSync : Bool := false
  cut : Cut := .uncut
  report : Option Report := none
  deriving DecidableEq, Repr

/-- How far a session got. -/
inductive Ending where
  | refused | cut | applied | promoted
  deriving DecidableEq, Repr

structure World where
  server : SyncState := {}
  client : Client := {}
  deriving DecidableEq

def Session.preflight (x : Session) (clientRulesHash : String) : Preflight where
  policyDigest := x.policyDigest
  desired := x.desired
  reported := x.reported
  requestCleanSync := x.requestCleanSync
  clientRulesHash := clientRulesHash

def Session.postflight (x : Session) (syncType : SyncType) (payload : List PayloadRule)
    (clientRulesHash : String) : Postflight :=
  let report := x.report.getD ⟨payload.length.toUInt32, payload.length.toUInt32, syncType⟩
  { rulesReceived := report.rulesReceived
    rulesProcessed := report.rulesProcessed
    syncType := report.syncType
    rulesHash := clientRulesHash }

variable (rulesHash : Finset Target → String)

/-- The last request of a session, on the applied payload. -/
def finish (w : World) (x : Session) (syncType : SyncType) (payload : List PayloadRule) :
    World × Ending :=
  match promotePending w.server (x.postflight syncType payload (rulesHash w.client.rules)) with
  | .error _ => (w, .applied)
  | .ok server => ({ w with server := server }, .promoted)

/-- One session, and how far it got. -/
def session (w : World) (x : Session) : World × Ending :=
  match preparePending w.server (x.preflight (rulesHash w.client.rules)) with
  | .error _ => (w, .refused)
  | .ok (syncType, server) =>
    if x.cut = .beforeApply then ({ w with server := server }, .cut)
    else
      match downloadAll server (pendingPayload syncType server) with
      | none => ({ w with server := server }, .cut)
      | some payload =>
        let applied : World := ⟨server, w.client.applyPayload syncType payload⟩
        if x.cut = .beforePostflight then (applied, .applied)
        else finish rulesHash applied x syncType payload

inductive Event where
  | drift (client : Client)
  | spawn (rule : TransitiveRule)
  | session (x : Session)

def step (w : World) : Event → World
  | .drift client => { w with client := client }
  | .spawn rule =>
    if w.client.authorities rule.creator then
      { w with client := { w.client with transitive := insert rule w.client.transitive } }
    else w
  | .session x => (session rulesHash w x).1

theorem loadPendingPayloadPage_offset {s : SyncState} {pending : SyncType} {limit start : Nat}
    (hp : s.row.bind SyncRow.pendingSyncType = some pending) (hl : 0 < limit) {cursor : Cursor}
    (hc : decodeCursor cursor = .ok start) :
    loadPendingPayloadPage s cursor limit =
      .ok (if (pendingPayload pending s).length ≤ start then {}
        else pageOf (pendingPayload pending s) start limit) := by
  simp only [loadPendingPayloadPage, if_neg (show limit ≠ 0 by omega), hc, hp]
  split <;> rfl

theorem pageOf_last {payload : List PayloadRule} {start limit : Nat}
    (h : payload.length ≤ start + limit) :
    pageOf payload start limit = { rules := payload.drop start } := by
  have ht : (payload.drop start).take (limit + 1) = payload.drop start :=
    List.take_of_length_le (by simp; omega)
  have hlen : ¬limit < (payload.drop start).length := by simp; omega
  simp only [pageOf, ht, if_neg hlen]

theorem pageOf_more {payload : List PayloadRule} {start limit : Nat}
    (h : start + limit < payload.length) : pageOf payload start limit =
      { rules := (payload.drop start).take limit, cursor := encodeCursor start limit } := by
  have hlen : limit < ((payload.drop start).take (limit + 1)).length := by simp; omega
  simp only [pageOf, if_pos hlen, List.take_take, Nat.min_eq_left (Nat.le_succ limit)]

theorem decode_encodeCursor {offset limit : Nat} (h : offset + limit < 2 ^ 31) :
    decodeCursor (encodeCursor offset limit) = .ok (offset + limit) := by
  have he : ((offset + limit : Nat) : Int).bmod (2 ^ 32) = ((offset + limit : Nat) : Int) := by
    rw [Int.bmod_def]; omega
  simp only [encodeCursor, decodeCursor, he, if_neg (show ¬((offset + limit : Nat) : Int) < 0 by omega),
    Int.toNat_natCast]

/-- Past the `int32` range the offset wraps below zero, and the cursor is refused. -/
theorem decode_encodeCursor_overflow {offset limit : Nat} (ho : offset < 2 ^ 31) (hl : limit < 2 ^ 31)
    (h : 2 ^ 31 ≤ offset + limit) :
    decodeCursor (encodeCursor offset limit) = .error (.invalidInput "") := by
  have he : ((offset + limit : Nat) : Int).bmod (2 ^ 32) < 0 := by
    rw [Int.bmod_def]; omega
  simp only [encodeCursor, decodeCursor, if_pos he]

theorem download_step {s : SyncState} {pending : SyncType} {limit start fuel : Nat}
    (hp : s.row.bind SyncRow.pendingSyncType = some pending) (hl : 0 < limit) {cursor : Cursor}
    (hc : decodeCursor cursor = .ok start) :
    download s limit (fuel + 1) cursor =
      if (pendingPayload pending s).length ≤ start + limit then
        some ((pendingPayload pending s).drop start)
      else (download s limit fuel (encodeCursor start limit)).map
        (((pendingPayload pending s).drop start).take limit ++ ·) := by
  rw [download, loadPendingPayloadPage_offset hp hl hc]
  by_cases h : (pendingPayload pending s).length ≤ start + limit
  · rw [if_pos h]
    by_cases h' : (pendingPayload pending s).length ≤ start
    · simp only [if_pos h', List.drop_eq_nil_of_le h']
    · simp only [if_neg h', pageOf_last h]
  · have h' : ¬(pendingPayload pending s).length ≤ start := by omega
    have hmore : start + limit < (pendingPayload pending s).length := by omega
    simp only [if_neg h, if_neg h', pageOf_more hmore, encodeCursor]

/-- Whatever a client collects by following cursors is the rest of the payload. -/
theorem download_sound {s : SyncState} {pending : SyncType} {limit : Nat}
    (hp : s.row.bind SyncRow.pendingSyncType = some pending) (hl : 0 < limit) (hl' : limit < 2 ^ 31)
    {fuel start : Nat} {cursor : Cursor} (hc : decodeCursor cursor = .ok start)
    (hs : start < 2 ^ 31) {rules : List PayloadRule} (h : download s limit fuel cursor = some rules) :
    rules = (pendingPayload pending s).drop start := by
  induction fuel generalizing start cursor rules with
  | zero => cases h
  | succ fuel ih =>
    rw [download_step hp hl hc] at h
    split at h
    · exact (Option.some.inj h).symm
    · obtain ⟨rest, hrest, rfl⟩ := Option.map_eq_some_iff.mp h
      by_cases hov : start + limit < 2 ^ 31
      · rw [ih (decode_encodeCursor hov) hov hrest, ← List.drop_drop, List.take_append_drop]
      · cases fuel with
        | zero => cases hrest
        | succ fuel =>
          rw [download, loadPendingPayloadPage, if_neg (by omega),
            decode_encodeCursor_overflow hs hl' (by omega)] at hrest
          cases hrest

/-- Every payload whose offsets fit in `int32` is collected. -/
theorem download_complete {s : SyncState} {pending : SyncType} {limit : Nat}
    (hp : s.row.bind SyncRow.pendingSyncType = some pending) (hl : 0 < limit)
    (hlen : (pendingPayload pending s).length < 2 ^ 31) {fuel start : Nat} {cursor : Cursor}
    (hc : decodeCursor cursor = .ok start) (hs : start ≤ (pendingPayload pending s).length)
    (hfuel : (pendingPayload pending s).length < start + fuel) :
    download s limit fuel cursor = some ((pendingPayload pending s).drop start) := by
  induction fuel generalizing start cursor with
  | zero => omega
  | succ fuel ih =>
    rw [download_step hp hl hc]
    split
    · rfl
    · rename_i hmore
      have hd := @decode_encodeCursor start limit (by omega)
      rw [ih hd (by omega) (by omega), Option.map_some, ← List.drop_drop, List.take_append_drop]

theorem downloadAll_sound {s : SyncState} {pending : SyncType} {rules : List PayloadRule}
    (hp : s.row.bind SyncRow.pendingSyncType = some pending)
    (h : downloadAll s (pendingPayload pending s) = some rules) : rules = pendingPayload pending s := by
  have hc : decodeCursor .empty = .ok 0 := rfl
  simpa using download_sound hp (by decide) (by decide) hc (by decide) h

theorem downloadAll_complete {s : SyncState} {pending : SyncType}
    (hp : s.row.bind SyncRow.pendingSyncType = some pending)
    (hlen : (pendingPayload pending s).length < 2 ^ 31) :
    downloadAll s (pendingPayload pending s) = some (pendingPayload pending s) := by
  have hc : decodeCursor .empty = .ok 0 := rfl
  exact download_complete hp (by decide) hlen hc (by omega) (by omega)

def sessionQuery (w : World) (x : Session) : Preflight := x.preflight (rulesHash w.client.rules)

def sessionType (w : World) (x : Session) : SyncType :=
  (loadPriorState w.server).syncType (sessionQuery rulesHash w x)

/-- The server rows between the preflight and the postflight. -/
def sessionServer (w : World) (x : Session) : SyncState :=
  prepared w.server (sessionQuery rulesHash w x) (sessionType rulesHash w x)

def sessionPayload (w : World) (x : Session) : List PayloadRule :=
  pendingPayload (sessionType rulesHash w x) (sessionServer rulesHash w x)

def sessionClient (w : World) (x : Session) : Client :=
  w.client.applyPayload (sessionType rulesHash w x) (sessionPayload rulesHash w x)

/-- The server rows after a successful postflight. -/
def promotedServer (w : World) (x : Session) : SyncState where
  row := some {
    appliedPolicyDigest := some x.policyDigest
    confirmedRulesHash := some (rulesHash (sessionClient rulesHash w x).rules) }
  desired := sortedTargets (sortedTargets x.desired)
  applied := sortedTargets (sortedTargets x.desired)

def sessionReport (w : World) (x : Session) : Postflight :=
  x.postflight (sessionType rulesHash w x) (sessionPayload rulesHash w x)
    (rulesHash (sessionClient rulesHash w x).rules)

/-- Where a session can end, with what each ending presupposes. -/
inductive Outcome (w : World) (x : Session) : World → Ending → Prop where
  | refused : Outcome w x w .refused
  | cut : (sessionQuery rulesHash w x).Accepted →
      Outcome w x ⟨sessionServer rulesHash w x, w.client⟩ .cut
  | applied : (sessionQuery rulesHash w x).Accepted →
      Outcome w x ⟨sessionServer rulesHash w x, sessionClient rulesHash w x⟩ .applied
  | promoted : (sessionQuery rulesHash w x).Accepted → x.cut = .uncut →
      Outcome w x ⟨promotedServer rulesHash w x, sessionClient rulesHash w x⟩ .promoted

theorem sessionServer_row (w : World) (x : Session) :
    (sessionServer rulesHash w x).row = some (upsertPreflight w.server.row
      (sessionQuery rulesHash w x) (sessionType rulesHash w x)) := rfl

theorem sessionServer_pending (w : World) (x : Session) :
    (sessionServer rulesHash w x).row.bind SyncRow.pendingSyncType =
      some (sessionType rulesHash w x) := rfl

theorem promotedPayload_session (w : World) (x : Session) :
    promotedPayload (sessionServer rulesHash w x) (upsertPreflight w.server.row
      (sessionQuery rulesHash w x) (sessionType rulesHash w x)) = sessionPayload rulesHash w x :=
  promotedPayload_eq rfl

/-- The last request of a session succeeds exactly on an acceptable report. -/
theorem finish_eq (w : World) (x : Session) :
    finish rulesHash ⟨sessionServer rulesHash w x, sessionClient rulesHash w x⟩ x
        (sessionType rulesHash w x) (sessionPayload rulesHash w x) =
      (⟨sessionServer rulesHash w x, sessionClient rulesHash w x⟩, .applied) ∨
    (Acceptable (upsertPreflight w.server.row (sessionQuery rulesHash w x)
        (sessionType rulesHash w x)) (sessionPayload rulesHash w x).length
        (sessionReport rulesHash w x) ∧
      finish rulesHash ⟨sessionServer rulesHash w x, sessionClient rulesHash w x⟩ x
        (sessionType rulesHash w x) (sessionPayload rulesHash w x) =
      (⟨promotedServer rulesHash w x, sessionClient rulesHash w x⟩, .promoted)) := by
  unfold finish
  cases hp : promotePending (sessionServer rulesHash w x) (sessionReport rulesHash w x) with
  | error e =>
    simp only [sessionReport] at hp
    simp [hp]
  | ok s =>
    obtain ⟨row, hrow, hacc, rfl⟩ := promotePending_ok.mp hp
    rw [sessionServer_row, Option.some.injEq] at hrow
    subst hrow
    rw [promotedPayload_session] at hacc
    simp only [sessionReport] at hp
    refine .inr ⟨hacc, ?_⟩
    simp only [hp]
    rfl

theorem session_outcome (w : World) (x : Session) :
    Outcome rulesHash w x (session rulesHash w x).1 (session rulesHash w x).2 := by
  unfold session
  cases hprep : preparePending w.server (x.preflight (rulesHash w.client.rules)) with
  | error e => exact .refused
  | ok out =>
    obtain ⟨syncType, server⟩ := out
    obtain ⟨hacc, hty, hserver⟩ := preparePending_ok.mp hprep
    obtain rfl : syncType = sessionType rulesHash w x := hty
    obtain rfl : server = sessionServer rulesHash w x := hserver
    by_cases hcut : x.cut = .beforeApply
    · simp only [hcut, if_true]
      exact .cut hacc
    · simp only [if_neg hcut]
      cases hd : downloadAll (sessionServer rulesHash w x)
          (pendingPayload (sessionType rulesHash w x) (sessionServer rulesHash w x)) with
      | none => exact .cut hacc
      | some payload =>
        obtain rfl : payload = sessionPayload rulesHash w x :=
          downloadAll_sound (sessionServer_pending rulesHash w x) hd
        by_cases hpost : x.cut = .beforePostflight
        · simp only [hpost, if_true]
          exact .applied hacc
        · simp only [if_neg hpost]
          have huncut : x.cut = .uncut := by cases h : x.cut <;> simp_all
          rcases finish_eq rulesHash w x with h | ⟨-, h⟩
          · rw [show finish rulesHash ⟨sessionServer rulesHash w x,
              w.client.applyPayload (sessionType rulesHash w x) (sessionPayload rulesHash w x)⟩ x
              (sessionType rulesHash w x) (sessionPayload rulesHash w x) = _ from h]
            exact .applied hacc
          · rw [show finish rulesHash ⟨sessionServer rulesHash w x,
              w.client.applyPayload (sessionType rulesHash w x) (sessionPayload rulesHash w x)⟩ x
              (sessionType rulesHash w x) (sessionPayload rulesHash w x) = _ from h]
            exact .promoted hacc huncut

/-- CLEAN and CLEAN_ALL leave exactly the desired rules, whatever was there. -/
theorem applyRules_clean {desired : List Target} (hd : (desired.map Target.identityKey).Nodup) :
    applyRules ∅ (cleanSyncPayload desired) = desired.toFinset :=
  applyEdits_delta (by simp) (identityKey_injOn hd) (cleanSyncPayload_delta hd)

/-- NORMAL leaves exactly the desired rules on a client that holds the applied ones. -/
theorem applyRules_normal {desired applied : List Target}
    (hd : (desired.map Target.identityKey).Nodup) (ha : (applied.map Target.identityKey).Nodup) :
    applyRules applied.toFinset (normalSyncPayload desired applied) = desired.toFinset :=
  applyEdits_delta (identityKey_injOn ha) (identityKey_injOn hd) (normalSyncPayload_delta hd ha)

theorem loadTargets_perm (ts : List Target) : (loadTargets ts).Perm ts := sortedTargets_perm ts

@[simp] theorem loadTargets_toFinset (ts : List Target) :
    (loadTargets ts).toFinset = ts.toFinset := sortedTargets_toFinset ts

theorem sessionDesired_toFinset (w : World) (x : Session) :
    (loadTargets (sessionServer rulesHash w x).desired).toFinset = x.desired.toFinset := by
  simp [sessionServer, prepared, sessionQuery, Session.preflight]

theorem sessionDesired_nodup {w : World} {x : Session}
    (h : (sessionQuery rulesHash w x).Accepted) :
    ((loadTargets (sessionServer rulesHash w x).desired).map Target.identityKey).Nodup := by
  have hp : (loadTargets (sessionServer rulesHash w x).desired).Perm x.desired :=
    ((loadTargets_perm _).trans (sortedTargets_perm _)).trans (sortedTargets_perm _)
  exact (hp.map _).nodup_iff.mpr h.2.nodup

section Valid

variable {rulesHash} {w : World} {x : Session}

theorem cleanSyncPayload_ne_nil (ts : List Target) : cleanSyncPayload ts ≠ [] := by
  simp only [cleanSyncPayload]
  split
  · intro h; simp [h] at *
  · simp

theorem validSyncType_self (t : SyncType) : validSyncType t t = true := by cases t <;> rfl

/-- An empty payload is a NORMAL one, so the client's rules and hash stand. -/
theorem sessionClient_empty (h : (sessionPayload rulesHash w x).length = 0) :
    (sessionClient rulesHash w x).rules = w.client.rules := by
  have hnil := List.length_eq_zero_iff.mp h
  cases hty : sessionType rulesHash w x with
  | normal => simp [sessionClient, hty, Client.applyPayload, hnil, applyRules]
  | clean => simp [sessionPayload, hty, pendingPayload, cleanSyncPayload_ne_nil] at hnil
  | cleanAll => simp [sessionPayload, hty, pendingPayload, cleanSyncPayload_ne_nil] at hnil

/-- The report of a client that was asked for a payload and applied it. -/
theorem honest_acceptable (hsize : (sessionPayload rulesHash w x).length < 2 ^ 31)
    (hhash : validateRulesHash (rulesHash (sessionClient rulesHash w x).rules) = .ok ())
    (hhonest : x.report = none) :
    Acceptable (upsertPreflight w.server.row (sessionQuery rulesHash w x)
        (sessionType rulesHash w x)) (sessionPayload rulesHash w x).length
      (sessionReport rulesHash w x) := by
  have hcount : (sessionPayload rulesHash w x).length.toUInt32.toNat =
      (sessionPayload rulesHash w x).length := by
    rw [Nat.toUInt32, UInt32.toNat_ofNat']
    omega
  refine ⟨⟨sessionType rulesHash w x, rfl, ?_⟩, ?_, ?_, ?_, ?_⟩
  · simp [sessionReport, Session.postflight, hhonest, validSyncType_self]
  · simpa [sessionReport, Session.postflight, hhonest] using hcount
  · simpa [sessionReport, Session.postflight, hhonest] using hcount
  · simpa [sessionReport, Session.postflight] using hhash
  · intro h0
    simp [sessionReport, Session.postflight, sessionClient_empty h0, upsertPreflight, sessionQuery,
      Session.preflight]

theorem preparePending_session (hacc : (sessionQuery rulesHash w x).Accepted) :
    preparePending w.server (x.preflight (rulesHash w.client.rules)) =
      .ok (sessionType rulesHash w x, sessionServer rulesHash w x) :=
  preparePending_ok.mpr ⟨hacc, rfl, rfl⟩

theorem downloadAll_session (hsize : (sessionPayload rulesHash w x).length < 2 ^ 31) :
    downloadAll (sessionServer rulesHash w x)
      (pendingPayload (sessionType rulesHash w x) (sessionServer rulesHash w x)) =
      some (sessionPayload rulesHash w x) :=
  downloadAll_complete (sessionServer_pending rulesHash w x) hsize

/-- A session that is not cut is promoted when its arguments are valid and its payload fits. -/
theorem session_uncut (hacc : (sessionQuery rulesHash w x).Accepted)
    (hsize : (sessionPayload rulesHash w x).length < 2 ^ 31)
    (hhash : validateRulesHash (rulesHash (sessionClient rulesHash w x).rules) = .ok ())
    (huncut : x.cut = .uncut) (hhonest : x.report = none) : session rulesHash w x =
      (⟨promotedServer rulesHash w x, sessionClient rulesHash w x⟩, .promoted) := by
  have hprom : promotePending (sessionServer rulesHash w x) (sessionReport rulesHash w x) =
      .ok (promotedServer rulesHash w x) := by
    rw [promotePending_ok]
    refine ⟨_, sessionServer_row rulesHash w x, ?_, rfl⟩
    rw [promotedPayload_session]
    exact honest_acceptable hsize hhash hhonest
  simp only [session, preparePending_session hacc, huncut, reduceCtorEq, if_false, downloadAll_session hsize, finish]
  simp only [sessionReport, sessionClient] at hprom ⊢
  rw [hprom]

/-- A session whose postflight is lost leaves the prepared rows and the applied payload. -/
theorem session_lost (hacc : (sessionQuery rulesHash w x).Accepted)
    (hsize : (sessionPayload rulesHash w x).length < 2 ^ 31) (hcut : x.cut = .beforePostflight) :
    session rulesHash w x = (⟨sessionServer rulesHash w x, sessionClient rulesHash w x⟩, .applied) := by
  simp only [session, preparePending_session hacc, hcut, reduceCtorEq, if_false, if_true, downloadAll_session hsize]
  rfl

end Valid

def sampleDigest : String := String.ofList (List.replicate 64 'a')

def sampleAllow : Target := { ruleType := .binary, identifier := "x", policy := .allowlist }

def sampleCompiler : Target :=
  { ruleType := .cdhash, identifier := "y", policy := .allowlistCompiler }

/-- A hash that tells the sample rule sets apart. -/
def sampleHash (rules : Finset Target) : String :=
  String.ofList (List.replicate 32 (if rules = ∅ then '0' else if rules = {sampleAllow} then '1'
    else if rules = {sampleCompiler} then '2' else '3'))

def sampleSession (desired : List Target) (cut : Cut := .uncut) : Session where
  policyDigest := sampleDigest
  desired := desired
  cut := cut

theorem validateHexDigest_replicate (name : String) {c : Char} {n : Nat} (hhex : isHexDigit c = true)
    (hlower : c.toLower = c) (hone : c.utf8Size = 1) (heven : n % 2 = 0) :
    validateHexDigest name (String.ofList (List.replicate n c)) n = .ok () := by
  have hsize : (String.ofList (List.replicate n c)).utf8ByteSize = n := by
    rw [String.utf8ByteSize_ofList]
    clear heven
    induction n with
    | zero => rfl
    | succ n ih => rw [List.replicate_succ, String.utf8Len_cons, ih, hone]
  apply if_neg
  simp [hsize, toLower, hexDecodes, hlower, hhex, heven]

theorem validateRulesHash_sampleHash (rules : Finset Target) : validateRulesHash (sampleHash rules) = .ok () := by
  rw [sampleHash]
  split_ifs <;> exact validateHexDigest_replicate _ (by decide) (by decide) (by decide) (by decide)

theorem accepted_sampleSession (w : World) {desired : List Target} (h : Storable desired) (cut : Cut) :
    (sessionQuery sampleHash w (sampleSession desired cut)).Accepted := by
  have hdigest : validatePolicyDigest sampleDigest = .ok () :=
    validateHexDigest_replicate _ (by decide) (by decide) (by decide) (by decide)
  have hvalid : (sessionQuery sampleHash w (sampleSession desired cut)).validate = .ok () := by
    simp only [Preflight.validate, sessionQuery, Session.preflight, sampleSession, hdigest,
      validateRulesHash_sampleHash]
    rfl
  exact ⟨hvalid, h⟩

theorem storable_sample {desired : List Target} (h : desired.Sublist [sampleAllow, sampleCompiler]) :
    Storable desired where
  nodup := (h.map Target.identityKey).nodup (by decide)
  row := by
    have hrows : ∀ t ∈ [sampleAllow, sampleCompiler], Target.storable t = true := by decide
    exact fun t ht => hrows t (h.subset ht)
  length := h.length_le.trans (by decide)

theorem session_sampleSession (w : World) (desired : List Target)
    (h : desired.Sublist [sampleAllow, sampleCompiler])
    (hsize : (sessionPayload sampleHash w (sampleSession desired)).length < 2 ^ 31) :
    session sampleHash w (sampleSession desired) =
      (⟨promotedServer sampleHash w (sampleSession desired), sessionClient sampleHash w (sampleSession desired)⟩,
        .promoted) :=
  session_uncut (accepted_sampleSession w (storable_sample h) .uncut) hsize (validateRulesHash_sampleHash _) rfl rfl

theorem step_sampleSession (w : World) (desired : List Target)
    (h : desired.Sublist [sampleAllow, sampleCompiler])
    (hsize : (sessionPayload sampleHash w (sampleSession desired)).length < 2 ^ 31) :
    step sampleHash w (.session (sampleSession desired)) =
      ⟨promotedServer sampleHash w (sampleSession desired), sessionClient sampleHash w (sampleSession desired)⟩ :=
  congrArg Prod.fst (session_sampleSession w desired h hsize)

theorem session_sampleSession_lost (w : World) (desired : List Target)
    (h : desired.Sublist [sampleAllow, sampleCompiler])
    (hsize : (sessionPayload sampleHash w (sampleSession desired .beforePostflight)).length < 2 ^ 31) :
    session sampleHash w (sampleSession desired .beforePostflight) =
      (⟨sessionServer sampleHash w (sampleSession desired .beforePostflight),
        sessionClient sampleHash w (sampleSession desired .beforePostflight)⟩, .applied) :=
  session_lost (accepted_sampleSession w (storable_sample h) .beforePostflight) hsize rfl

theorem step_sampleSession_lost (w : World) (desired : List Target)
    (h : desired.Sublist [sampleAllow, sampleCompiler])
    (hsize : (sessionPayload sampleHash w (sampleSession desired .beforePostflight)).length < 2 ^ 31) :
    step sampleHash w (.session (sampleSession desired .beforePostflight)) =
      ⟨sessionServer sampleHash w (sampleSession desired .beforePostflight),
        sessionClient sampleHash w (sampleSession desired .beforePostflight)⟩ :=
  congrArg Prod.fst (session_sampleSession_lost w desired h hsize)

end SantaSessions
