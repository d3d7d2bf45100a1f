import Woodstar.SantaSessions

/-!
# Delayed postflights

A postflight names no session. The requests of a host's sessions may arrive in
any order, late or twice, and a report is held against whatever the latest
preflight left pending: that is the preflight it confirms.
-/
namespace SantaPostflight

open Primitives (Fault)
open SantaTargets SantaSync SantaSessions
open Runs (exec)

inductive Request where
  | preflight (q : Preflight)
  | ruleDownload (cursor : Cursor) (limit : Nat)
  | postflight (r : Postflight)
  deriving DecidableEq, Repr

/-- A failed request rolls back. -/
def serve (s : SyncState) : Request → SyncState
  | .preflight q =>
    match preparePending s q with
    | .error _ => s
    | .ok (_, s') => s'
  | .ruleDownload _ _ => s
  | .postflight r =>
    match promotePending s r with
    | .error _ => s
    | .ok s' => s'

/-- A recorded preflight, with the type and the payload it prepared. -/
structure Offer where
  preflight : Preflight
  syncType : SyncType
  payload : List PayloadRule
  deriving DecidableEq, Repr

/-- The state with the last recorded preflight that no postflight has confirmed yet. -/
structure Desk where
  state : SyncState := {}
  offer : Option Offer := none
  deriving DecidableEq, Repr

def attend (d : Desk) : Request → Desk
  | .preflight q =>
    match preparePending d.state q with
    | .error _ => d
    | .ok (syncType, s') => ⟨s', some ⟨q, syncType, pendingPayload syncType s'⟩⟩
  | .ruleDownload _ _ => d
  | .postflight r =>
    match promotePending d.state r with
    | .error _ => d
    | .ok s' => ⟨s', none⟩

def latestOffer (es : List Request) : Option Offer := (exec attend {} es).offer

/-- What the pending session asks of a report. -/
structure Offer.Fits (o : Offer) (r : Postflight) : Prop where
  syncType : validSyncType o.syncType r.syncType = true
  received : r.rulesReceived.toNat = o.payload.length
  processed : r.rulesProcessed.toNat = o.payload.length
  hash : validateRulesHash r.rulesHash = .ok ()
  unchanged : o.payload = [] → r.rulesHash = o.preflight.clientRulesHash

/-- The confirmed side of the rows: this preflight's targets and digest, with
the hash of this report. -/
structure Offer.Confirmed (o : Offer) (r : Postflight) (s : SyncState) : Prop where
  applied : s.applied.Perm o.preflight.desired
  row : s.row = some {
    appliedPolicyDigest := some o.preflight.policyDigest
    confirmedRulesHash := some r.rulesHash }

theorem attend_state (d : Desk) (e : Request) : (attend d e).state = serve d.state e := by
  cases e with
  | preflight q => simp only [attend, serve]; split <;> rfl
  | ruleDownload cursor limit => rfl
  | postflight r => simp only [attend, serve]; split <;> rfl

theorem exec_attend_state (d : Desk) (es : List Request) :
    (exec attend d es).state = exec serve d.state es := Runs.exec_project attend_state d es

/-- The rows are those that the offer's preflight wrote. -/
def Attributed (d : Desk) : Prop :=
  match d.offer with
  | none => d.state.row.bind SyncRow.pendingSyncType = none
  | some o => (∃ s, d.state = prepared s o.preflight o.syncType) ∧
      o.payload = pendingPayload o.syncType d.state

theorem attributed_step {d : Desk} (h : Attributed d) (e : Request) : Attributed (attend d e) := by
  cases e with
  | preflight q =>
    simp only [attend]
    cases hp : preparePending d.state q with
    | error e => exact h
    | ok out =>
      obtain ⟨syncType, s'⟩ := out
      obtain ⟨-, -, hs⟩ := preparePending_ok.mp hp
      exact ⟨⟨d.state, hs⟩, rfl⟩
  | ruleDownload cursor limit => exact h
  | postflight r =>
    simp only [attend]
    cases hp : promotePending d.state r with
    | error e => exact h
    | ok s' =>
      obtain ⟨row, -, -, rfl⟩ := promotePending_ok.mp hp
      rfl

theorem attributed_exec (es : List Request) : Attributed (exec attend {} es) :=
  Runs.exec_invariant (P := Attributed) (fun _ e h => attributed_step h e) es rfl

/-- The rows after a report on this offer. -/
def Offer.confirm (o : Offer) (r : Postflight) (s : SyncState) : SyncState :=
  { s with
    row := some {
      appliedPolicyDigest := some o.preflight.policyDigest
      confirmedRulesHash := some r.rulesHash }
    applied := s.desired }

/-- With nothing pending every report is refused. -/
theorem promotePending_idle {s s' : SyncState} {r : Postflight}
    (h : s.row.bind SyncRow.pendingSyncType = none) : promotePending s r ≠ .ok s' := by
  intro hp
  obtain ⟨row, hrow, ⟨⟨pending, hpend, -⟩, -⟩, -⟩ := promotePending_ok.mp hp
  simp [hrow, hpend] at h

theorem promotePending_offered {s : SyncState} {o : Offer} {r : Postflight}
    (hpay : o.payload = pendingPayload o.syncType (prepared s o.preflight o.syncType))
    {s' : SyncState} :
    promotePending (prepared s o.preflight o.syncType) r = .ok s' ↔
      o.Fits r ∧ s' = o.confirm r (prepared s o.preflight o.syncType) := by
  have hpp : promotedPayload (prepared s o.preflight o.syncType)
      (upsertPreflight s.row o.preflight o.syncType) = o.payload := by
    rw [hpay]; exact promotedPayload_eq rfl
  rw [promotePending_ok]
  constructor
  · rintro ⟨row, hrow, hacc, rfl⟩
    obtain rfl : upsertPreflight s.row o.preflight o.syncType = row := Option.some.inj hrow
    rw [hpp] at hacc
    obtain ⟨⟨pending, hpend, hty⟩, hr, hp, hh, hu⟩ := hacc
    obtain rfl : o.syncType = pending := Option.some.inj hpend
    exact ⟨⟨hty, hr, hp, hh, fun hnil => hu (by simp [hnil])⟩, rfl⟩
  · rintro ⟨⟨hty, hr, hp, hh, hu⟩, rfl⟩
    refine ⟨_, rfl, ?_, rfl⟩
    rw [hpp]
    exact ⟨⟨o.syncType, rfl, hty⟩, hr, hp, hh, fun h0 => hu (List.length_eq_zero_iff.mp h0)⟩

theorem promotePending_attributed {d : Desk} (h : Attributed d) {r : Postflight} {s' : SyncState} :
    promotePending d.state r = .ok s' ↔
      ∃ o, d.offer = some o ∧ o.Fits r ∧ s' = o.confirm r d.state := by
  obtain ⟨s, offer⟩ := d
  cases offer with
  | none => simpa using promotePending_idle h
  | some o =>
    obtain ⟨⟨s₀, hs⟩, hpay⟩ := h
    simp only at hs hpay
    subst hs
    simpa using promotePending_offered hpay

theorem confirmed_confirm {d : Desk} {o : Offer} (h : Attributed d) (ho : d.offer = some o)
    (r : Postflight) : o.Confirmed r (o.confirm r d.state) := by
  simp only [Attributed, ho] at h
  obtain ⟨⟨s₀, hs⟩, -⟩ := h
  refine ⟨?_, rfl⟩
  rw [hs]
  exact (sortedTargets_perm _).trans (sortedTargets_perm _)

/-- After any requests a report is accepted exactly when it fits the latest
pending preflight. It confirms that preflight, once, and a refused one changes nothing. -/
theorem postflight_confirms_latest (es : List Request) (r : Postflight) :
    ((∃ s', promotePending (exec serve {} es) r = .ok s') ↔
      ∃ o, latestOffer es = some o ∧ o.Fits r) ∧
    (∀ s', promotePending (exec serve {} es) r = .ok s' →
      (∃ o, latestOffer es = some o ∧ o.Confirmed r s') ∧
      ∀ r' s'', promotePending s' r' ≠ .ok s'') ∧
    ((¬∃ o, latestOffer es = some o ∧ o.Fits r) →
      serve (exec serve {} es) (.postflight r) = exec serve {} es) := by
  have hinv := attributed_exec es
  have hstate : exec serve {} es = (exec attend {} es).state := (exec_attend_state {} es).symm
  rw [hstate]
  refine ⟨?_, ?_, ?_⟩
  · constructor
    · rintro ⟨s', hs'⟩
      obtain ⟨o, ho, hfit, -⟩ := (promotePending_attributed hinv).mp hs'
      exact ⟨o, ho, hfit⟩
    · rintro ⟨o, ho, hfit⟩
      exact ⟨_, (promotePending_attributed hinv).mpr ⟨o, ho, hfit, rfl⟩⟩
  · intro s' hs'
    obtain ⟨o, ho, -, rfl⟩ := (promotePending_attributed hinv).mp hs'
    exact ⟨⟨o, ho, confirmed_confirm hinv ho r⟩, fun _ _ => promotePending_idle rfl⟩
  · intro hno
    cases hp : promotePending (exec attend {} es).state r with
    | error e => simp only [serve, hp]
    | ok s' =>
      obtain ⟨o, ho, hfit, -⟩ := (promotePending_attributed hinv).mp hp
      exact absurd ⟨o, ho, hfit⟩ hno

/-- The first client's postflight is delayed past the second preflight. -/
def delayedPostflight (rulesHash : Finset Target → String) (c : Client) (x₁ x₂ : Session) :
    Except Fault World := do
  let (type₁, s₁) ← preparePending {} (x₁.preflight (rulesHash c.rules))
  let payload := pendingPayload type₁ s₁
  let c := c.applyPayload type₁ payload
  let (_, s₂) ← preparePending s₁ (x₂.preflight (rulesHash c.rules))
  let s₃ ← promotePending s₂ (x₁.postflight type₁ payload (rulesHash c.rules))
  return ⟨s₃, c⟩

/-- Where the postflight succeeds, the applied targets are the rules of the
client that reported. -/
def ConfirmsReporter : Except Fault World → Prop
  | .error _ => True
  | .ok w => w.server.applied.toFinset = w.client.rules

instance : ∀ out, Decidable (ConfirmsReporter out)
  | .error _ => .isTrue trivial
  | .ok w => inferInstanceAs (Decidable (w.server.applied.toFinset = w.client.rules))

/-- Two CLEAN_ALL sessions with one rule each: the report of the first confirms
the rule of the second. -/
theorem delayed_postflight_confirms_other :
    ¬ConfirmsReporter (delayedPostflight sampleHash {} (sampleSession [sampleAllow])
      (sampleSession [sampleCompiler])) := by decide

end SantaPostflight
