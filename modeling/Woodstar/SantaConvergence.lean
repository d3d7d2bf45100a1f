import Woodstar.SantaSessions

/-!
# Convergence of Santa rule sync

While no two rule sets of a run share a hash, the confirmed hash pins down what
a client holds: a NORMAL sync is offered only to a client that holds exactly the
applied targets. Lost responses, unapplied payloads, lost postflights and drift
between sessions therefore cost at most a CLEAN sync.
-/
namespace SantaConvergence

open KeyedSets (applyEdits_nil)
open SantaTargets SantaSync SantaSessions
open Primitives (Fault)
open Runs (exec)

variable (rulesHash : Finset Target → String)

/-- The rule sets that the client holds or is to hold in a run. -/
def ruleSets (w : World) : List Event → List (Finset Target)
  | [] => [w.client.rules]
  | .drift client :: es => client.rules :: ruleSets w es
  | .spawn _ :: es => ruleSets w es
  | .session x :: es => x.desired.toFinset :: ruleSets w es

/-- The confirmed hash is the hash of the applied targets. -/
structure Agreed (S : Set (Finset Target)) (w : World) : Prop where
  held : w.client.rules ∈ S
  confirmed : ∀ row digest, w.server.row = some row → row.appliedPolicyDigest = some digest →
    row.confirmedRulesHash = some (rulesHash w.server.applied.toFinset)
  nodup : ∀ row digest, w.server.row = some row → row.appliedPolicyDigest = some digest →
    (w.server.applied.map Target.identityKey).Nodup
  known : ∀ row digest, w.server.row = some row → row.appliedPolicyDigest = some digest →
    w.server.applied.toFinset ∈ S

variable {rulesHash} {S : Set (Finset Target)}

theorem agreed_unsynced {w : World} (hs : Unsynced w.server) (hw : w.client.rules ∈ S) :
    Agreed rulesHash S w where
  held := hw
  confirmed := fun row digest hr hd => by rw [hs row hr] at hd; cases hd
  nodup := fun row digest hr hd => by rw [hs row hr] at hd; cases hd
  known := fun row digest hr hd => by rw [hs row hr] at hd; cases hd

/-- Only the client changed, to a known rule set. -/
theorem agreed_client {w : World} (h : Agreed rulesHash S w) (c : Client) (hc : c.rules ∈ S) :
    Agreed rulesHash S { w with client := c } where
  held := hc
  confirmed := h.confirmed
  nodup := h.nodup
  known := h.known

/-- A preflight leaves the applied side of the rows alone. -/
theorem agreed_prepared {w : World} (h : Agreed rulesHash S w) (x : Session) :
    Agreed rulesHash S ⟨sessionServer rulesHash w x, w.client⟩ := by
  have hrow : ∀ row digest, (sessionServer rulesHash w x).row = some row →
      row.appliedPolicyDigest = some digest → ∃ old, w.server.row = some old ∧
        old.appliedPolicyDigest = some digest ∧ row.confirmedRulesHash = old.confirmedRulesHash := by
    intro row digest hr hd
    rw [sessionServer_row, Option.some.injEq] at hr
    subst hr
    cases hold : w.server.row with
    | none => simp [upsertPreflight, hold] at hd
    | some old =>
      simp only [upsertPreflight, hold, Option.getD_some] at hd
      exact ⟨old, rfl, hd, by simp [upsertPreflight]⟩
  refine ⟨h.held, ?_, ?_, ?_⟩
  · intro row digest hr hd
    obtain ⟨old, ho, hod, hc⟩ := hrow row digest hr hd
    rw [hc]
    exact h.confirmed old digest ho hod
  · intro row digest hr hd
    obtain ⟨old, ho, hod, -⟩ := hrow row digest hr hd
    exact h.nodup old digest ho hod
  · intro row digest hr hd
    obtain ⟨old, ho, hod, -⟩ := hrow row digest hr hd
    exact h.known old digest ho hod

/-- A client that is offered a NORMAL sync holds exactly the applied targets. -/
theorem normal_holds_applied {w : World} {x : Session} (h : Agreed rulesHash S w)
    (hinj : Set.InjOn rulesHash S) (hn : sessionType rulesHash w x = .normal) :
    w.client.rules = w.server.applied.toFinset ∧
      (w.server.applied.map Target.identityKey).Nodup := by
  obtain ⟨hd, hh⟩ := syncType_normal hn
  cases hrow : w.server.row with
  | none => simp [loadPriorState, hrow] at hd
  | some row =>
    simp only [loadPriorState, hrow, Option.bind_some] at hd hh
    have hc := h.confirmed row _ hrow hd
    refine ⟨?_, h.nodup row _ hrow hd⟩
    rw [hc] at hh
    rcases hh with hh | hh
    · cases hh
    · exact hinj h.held (h.known row _ hrow hd) (Option.some.inj hh).symm

/-- Whatever its type, an applied payload leaves exactly the desired rules. -/
theorem sessionClient_rules {w : World} {x : Session} (h : Agreed rulesHash S w)
    (hinj : Set.InjOn rulesHash S) (hacc : (sessionQuery rulesHash w x).Accepted) :
    (sessionClient rulesHash w x).rules = x.desired.toFinset := by
  have hd := sessionDesired_nodup rulesHash hacc
  rw [← sessionDesired_toFinset rulesHash w x]
  unfold sessionClient sessionPayload pendingPayload
  cases hty : sessionType rulesHash w x with
  | normal =>
    obtain ⟨hrules, hn⟩ := normal_holds_applied h hinj hty
    have hl : (loadTargets w.server.applied).toFinset = w.client.rules := by
      rw [loadTargets_toFinset, hrules]
    have hn' : ((loadTargets w.server.applied).map Target.identityKey).Nodup :=
      ((loadTargets_perm _).map _).nodup_iff.mpr hn
    simp only [if_true, Client.applyPayload, ← hl]
    exact applyRules_normal hd hn'
  | clean =>
    simp only [reduceCtorEq, if_false, Client.applyPayload]
    exact applyRules_clean hd
  | cleanAll =>
    simp only [reduceCtorEq, if_false, Client.applyPayload]
    exact applyRules_clean hd

variable (rulesHash) in
/-- The client's rules are the desired targets, and the confirmed side of the
rows describes them. -/
structure Converged (x : Session) (w : World) : Prop where
  rules : w.client.rules = x.desired.toFinset
  applied : w.server.applied.Perm x.desired
  row : w.server.row = some {
    appliedPolicyDigest := some x.policyDigest
    confirmedRulesHash := some (rulesHash w.client.rules) }

theorem promoted_converged {w : World} {x : Session} (h : Agreed rulesHash S w)
    (hinj : Set.InjOn rulesHash S) (hacc : (sessionQuery rulesHash w x).Accepted) :
    Converged rulesHash x
      ⟨promotedServer rulesHash w x, sessionClient rulesHash w x⟩ where
  rules := sessionClient_rules h hinj hacc
  applied := (sortedTargets_perm _).trans (sortedTargets_perm _)
  row := rfl

theorem agreed_converged {w : World} {x : Session} (hx : x.desired.toFinset ∈ S)
    (hn : (x.desired.map Target.identityKey).Nodup)
    (h : Converged rulesHash x w) : Agreed rulesHash S w where
  held := h.rules ▸ hx
  confirmed := by
    intro row digest hr hd
    rw [h.row, Option.some.injEq] at hr
    subst hr
    rw [List.toFinset_eq_of_perm _ _ h.applied, h.rules]
  nodup := fun _ _ _ _ => (h.applied.map _).nodup_iff.mpr hn
  known := fun _ _ _ _ => by rwa [List.toFinset_eq_of_perm _ _ h.applied]

theorem agreed_session {w : World} {x : Session} (h : Agreed rulesHash S w)
    (hinj : Set.InjOn rulesHash S) (hx : x.desired.toFinset ∈ S) :
    Agreed rulesHash S (session rulesHash w x).1 := by
  have ho := session_outcome rulesHash w x
  generalize (session rulesHash w x).1 = w' at ho
  generalize (session rulesHash w x).2 = b at ho
  cases ho with
  | refused => exact h
  | cut _ => exact agreed_prepared h x
  | applied hacc =>
    exact agreed_client (agreed_prepared h x) _ (sessionClient_rules h hinj hacc ▸ hx)
  | promoted hacc _ => exact agreed_converged hx hacc.2.nodup (promoted_converged h hinj hacc)

/-- What an event may bring is a known rule set. -/
def Within (S : Set (Finset Target)) : Event → Prop
  | .drift client => client.rules ∈ S
  | .spawn _ => True
  | .session x => x.desired.toFinset ∈ S

theorem agreed_step {w : World} {e : Event} (h : Agreed rulesHash S w)
    (hinj : Set.InjOn rulesHash S) (he : Within S e) : Agreed rulesHash S (step rulesHash w e) := by
  cases e with
  | drift client => exact agreed_client h client he
  | spawn rule =>
    simp only [step]
    split
    · exact agreed_client h _ h.held
    · exact h
  | session x => exact agreed_session h hinj he

theorem agreed_exec {w : World} {es : List Event} (h : Agreed rulesHash S w)
    (hinj : Set.InjOn rulesHash S) (hes : ∀ e ∈ es, Within S e) :
    Agreed rulesHash S (exec (step rulesHash) w es) :=
  Runs.exec_invariant_along (C := fun _ e => Within S e) (fun _ _ h he => agreed_step h hinj he) h
    (Runs.along_of_forall (fun e he _ => hes e he) w)

theorem ruleSets_client (w : World) (es : List Event) : w.client.rules ∈ ruleSets w es := by
  induction es with
  | nil => simp [ruleSets]
  | cons e es ih => cases e <;> simp [ruleSets, ih]

theorem ruleSets_within (w : World) (es : List Event) :
    ∀ e ∈ es, Within {s | s ∈ ruleSets w es} e := by
  induction es with
  | nil => simp
  | cons e es ih =>
    intro e' he'
    rcases List.mem_cons.mp he' with rfl | he'
    · cases e' <;> simp [Within, ruleSets]
    · have := ih e' he'
      cases e <;> cases e' <;> simp_all [Within, ruleSets]

variable (rulesHash) in
/-- A session that nothing disturbs: its arguments are valid, its payload fits
the wire counters, it is not cut, and the client reports what it did. -/
structure Undisturbed (w : World) (x : Session) : Prop where
  accepted : (sessionQuery rulesHash w x).Accepted
  size : (sessionPayload rulesHash w x).length < 2 ^ 31
  hash : validateRulesHash (rulesHash x.desired.toFinset) = .ok ()
  uncut : x.cut = .uncut
  honest : x.report = none

theorem undisturbed_promotes {w : World} {x : Session} (h : Agreed rulesHash S w)
    (hinj : Set.InjOn rulesHash S) (hu : Undisturbed rulesHash w x) :
    (session rulesHash w x).2 = .promoted := by
  have hhash : validateRulesHash (rulesHash (sessionClient rulesHash w x).rules) = .ok () := by
    rw [sessionClient_rules h hinj hu.accepted]
    exact hu.hash
  rw [session_uncut hu.accepted hu.size hhash hu.uncut hu.honest]

/-- After any run of sessions, cuts and drift: a session whose PromotePending
succeeds has converged, and one that nothing disturbs succeeds. -/
theorem santa_sync_converges (w : World) (es : List Event) (x : Session)
    (hw : Unsynced w.server)
    (hinj : Set.InjOn rulesHash {s | s ∈ ruleSets w (es ++ [.session x])}) :
    ((session rulesHash (exec (step rulesHash) w es) x).2 = .promoted →
      Converged rulesHash x (session rulesHash (exec (step rulesHash) w es) x).1) ∧
    (Undisturbed rulesHash (exec (step rulesHash) w es) x →
      (session rulesHash (exec (step rulesHash) w es) x).2 = .promoted) := by
  have hwithin := ruleSets_within w (es ++ [.session x])
  have hagreed : Agreed rulesHash {s | s ∈ ruleSets w (es ++ [.session x])}
      (exec (step rulesHash) w es) :=
    agreed_exec (agreed_unsynced hw (ruleSets_client w _)) hinj
      (fun e he => hwithin e (List.mem_append_left _ he))
  refine ⟨?_, undisturbed_promotes hagreed hinj⟩
  intro hpromoted
  have ho := session_outcome rulesHash (exec (step rulesHash) w es) x
  rw [hpromoted] at ho
  generalize (session rulesHash (exec (step rulesHash) w es) x).1 = w' at ho
  cases ho with
  | promoted hacc _ => exact promoted_converged hagreed hinj hacc

/-- A lost postflight, and then a wiped client. -/
def sampleRun : List Event :=
  [.session (sampleSession [sampleAllow]),
    .session (sampleSession [sampleCompiler] .beforePostflight), .drift {}]

theorem santa_sync_converges_sample :
    Converged sampleHash (sampleSession [sampleAllow, sampleCompiler])
      (session sampleHash (exec (step sampleHash) {} sampleRun)
        (sampleSession [sampleAllow, sampleCompiler])).1 := by
  have hinj : Set.InjOn sampleHash {s | s ∈ ruleSets {} (sampleRun ++
      [.session (sampleSession [sampleAllow, sampleCompiler])])} := by
    have hpairs : ∀ a ∈ ruleSets {} (sampleRun ++
        [.session (sampleSession [sampleAllow, sampleCompiler])]), ∀ b ∈ ruleSets {} (sampleRun ++
        [.session (sampleSession [sampleAllow, sampleCompiler])]),
        sampleHash a = sampleHash b → a = b := by decide +kernel
    exact fun a ha b hb => hpairs a ha b hb
  apply (santa_sync_converges {} sampleRun _ (by simp [Unsynced]) hinj).1
  rw [session_sampleSession _ _ (.refl _)]
  simp only [sampleRun, Runs.exec_cons, Runs.exec_nil]
  rw [step_sampleSession _ _ (by decide) (by decide +kernel),
    step_sampleSession_lost _ _ (by decide) (by decide +kernel)]
  decide +kernel

end SantaConvergence
