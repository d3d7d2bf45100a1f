import Woodstar.SantaSessions

/-!
# Revocation of transitive authorities

CLEAN_ALL is what takes transitive rules back, and the server orders it when an
authority of the applied targets is no longer desired. Authorities that a lost
postflight left on the client are in no applied target. The ledger keeps them.
-/
namespace SantaTransitive

open KeyedSets (mem_applyEdits_of)
open SantaTargets SantaSync SantaSessions
open Runs (Along exec)

/-- Every transitive rule was made on the authority of an applied target. -/
def Backed (w : World) : Prop :=
  ∀ r ∈ w.client.transitive, r.creator ∈ transitiveAuthorities w.server.applied

instance (w : World) : Decidable (Backed w) :=
  inferInstanceAs (Decidable (∀ r ∈ w.client.transitive,
    r.creator ∈ transitiveAuthorities w.server.applied))

def callsForCleanAll (s : SyncState) (x : Session) : Prop :=
  (loadPriorState s).callsForCleanAll x.policyDigest (sortedTargets x.desired)

instance (s : SyncState) (x : Session) : Decidable (callsForCleanAll s x) :=
  inferInstanceAs (Decidable
    ((loadPriorState s).callsForCleanAll x.policyDigest (sortedTargets x.desired)))

/-- A run, with the authorities of the payloads that were applied and never confirmed. -/
structure Ledger where
  world : World := {}
  lost : List Authority := []
  deriving DecidableEq

def lostAfter (l : Ledger) (x : Session) : Ending → List Authority
  | .refused => l.lost
  | .cut => l.lost
  | .applied =>
    if callsForCleanAll l.world.server x then transitiveAuthorities x.desired
    else l.lost ++ transitiveAuthorities x.desired
  | .promoted => []

variable (rulesHash : Finset Target → String)

def ledgerStep (l : Ledger) : Event → Ledger
  | .session x => ⟨(session rulesHash l.world x).1, lostAfter l x (session rulesHash l.world x).2⟩
  | e => { l with world := step rulesHash l.world e }

theorem ledgerStep_world (l : Ledger) (e : Event) :
    (ledgerStep rulesHash l e).world = step rulesHash l.world e := by cases e <;> rfl

/-- A session that reaches its postflight finds no lost authority to revoke,
unless the server orders CLEAN_ALL anyway. -/
def Covered (l : Ledger) : Event → Prop
  | .session x => x.cut = .uncut → callsForCleanAll l.world.server x ∨
      ∀ a ∈ l.lost, a ∈ transitiveAuthorities x.desired
  | _ => True

instance (l : Ledger) : ∀ e, Decidable (Covered l e)
  | .drift _ => .isTrue trivial
  | .spawn _ => .isTrue trivial
  | .session x => inferInstanceAs (Decidable (x.cut = .uncut → callsForCleanAll l.world.server x ∨
      ∀ a ∈ l.lost, a ∈ transitiveAuthorities x.desired))

/-- A promotion leaves no transitive rule of a revoked authority. -/
def Revokes (w : World) : Event → Prop
  | .session x => (session rulesHash w x).2 = .promoted → Backed (session rulesHash w x).1
  | _ => True

instance (w : World) : ∀ e, Decidable (Revokes rulesHash w e)
  | .drift _ => .isTrue trivial
  | .spawn _ => .isTrue trivial
  | .session x => inferInstanceAs (Decidable
      ((session rulesHash w x).2 = .promoted → Backed (session rulesHash w x).1))

/-- The client changes only by syncing and by making transitive rules. -/
def Undrifted : Event → Prop
  | .drift _ => False
  | _ => True

theorem sessionType_cleanAll {w : World} {x : Session} :
    sessionType rulesHash w x = .cleanAll ↔ callsForCleanAll w.server x := syncType_cleanAll

/-- What the client may still use: the authority of a rule it holds or the
creator of a transitive rule it keeps. -/
def Live (c : Client) (a : Authority) : Prop :=
  c.authorities a ∨ ∃ r ∈ c.transitive, r.creator = a

/-- Whatever is live is applied or lost, once a sync was confirmed. -/
def Accounted (l : Ledger) : Prop :=
  Unsynced l.world.server ∨
    ∀ a, Live l.world.client a → a ∈ transitiveAuthorities l.world.server.applied ∨ a ∈ l.lost

variable {rulesHash}

theorem put_mem_sessionPayload {w : World} {x : Session} {t : Target}
    (h : .put t ∈ (sessionPayload rulesHash w x).map PayloadRule.edit) : t ∈ x.desired := by
  have hd : t ∈ loadTargets (sessionServer rulesHash w x).desired → t ∈ x.desired := by
    simp [loadTargets, sessionServer, prepared, sessionQuery, Session.preflight]
  apply hd
  unfold sessionPayload pendingPayload at h
  split at h
  · exact put_mem_normalSyncPayload h
  · exact put_mem_cleanSyncPayload h

/-- A payload brings in no authority beyond the desired ones and those held. -/
theorem sessionClient_live {w : World} {x : Session} {a : Authority}
    (h : Live (sessionClient rulesHash w x) a) :
    a ∈ transitiveAuthorities x.desired ∨
      (¬callsForCleanAll w.server x ∧ Live w.client a) := by
  rw [← sessionType_cleanAll rulesHash]
  unfold sessionClient at h
  rcases h with ⟨t, ht, ha⟩ | ⟨r, hr, rfl⟩
  · cases hty : sessionType rulesHash w x with
    | normal =>
      rw [hty] at ht
      rcases mem_applyEdits_of ht with hp | hheld
      · exact .inl (mem_transitiveAuthorities.mpr ⟨t, put_mem_sessionPayload hp, ha⟩)
      · exact .inr ⟨by decide, .inl ⟨t, hheld, ha⟩⟩
    | clean =>
      rw [hty] at ht
      rcases mem_applyEdits_of ht with hp | hheld
      · exact .inl (mem_transitiveAuthorities.mpr ⟨t, put_mem_sessionPayload hp, ha⟩)
      · simp at hheld
    | cleanAll =>
      rw [hty] at ht
      rcases mem_applyEdits_of ht with hp | hheld
      · exact .inl (mem_transitiveAuthorities.mpr ⟨t, put_mem_sessionPayload hp, ha⟩)
      · simp at hheld
  · cases hty : sessionType rulesHash w x with
    | normal => rw [hty] at hr; exact .inr ⟨by decide, .inr ⟨r, hr, rfl⟩⟩
    | clean => rw [hty] at hr; exact .inr ⟨by decide, .inr ⟨r, hr, rfl⟩⟩
    | cleanAll => rw [hty] at hr; simp [Client.applyPayload] at hr

theorem callsForCleanAll_unsynced {s : SyncState} (h : Unsynced s) (x : Session) :
    callsForCleanAll s x := by
  left
  cases hr : s.row with
  | none => simp [loadPriorState, hr]
  | some row => simp [loadPriorState, hr, h row hr]

/-- Short of CLEAN_ALL the desired targets keep every applied authority. -/
theorem applied_kept {s : SyncState} {x : Session} (h : ¬callsForCleanAll s x) {a : Authority}
    (ha : a ∈ transitiveAuthorities s.applied) : a ∈ transitiveAuthorities x.desired := by
  have hr := (not_or.mp h).2
  rw [Bool.not_eq_true, transitiveAuthorityRemoved_eq_false] at hr
  have := hr a (by simpa [mem_transitiveAuthorities, loadPriorState, loadTargets] using ha)
  simpa [mem_transitiveAuthorities] using this

theorem accounted_applied {l : Ledger} {x : Session} (h : Accounted l) :
    Accounted ⟨⟨sessionServer rulesHash l.world x, sessionClient rulesHash l.world x⟩,
      lostAfter l x .applied⟩ := by
  rcases h with h | h
  · exact .inl (unsynced_prepared h _ _)
  · refine .inr fun a ha => ?_
    by_cases hc : callsForCleanAll l.world.server x
    · rcases sessionClient_live ha with hd | ⟨hn, -⟩
      · simp only [lostAfter, if_pos hc]
        exact .inr hd
      · exact absurd hc hn
    · simp only [lostAfter, if_neg hc, List.mem_append]
      rcases sessionClient_live ha with hd | ⟨-, hl⟩
      · exact .inr (.inr hd)
      · rcases h a hl with hs | hs
        · exact .inl hs
        · exact .inr (.inl hs)

/-- A covered promotion leaves nothing live beyond the desired authorities. -/
theorem promoted_live {l : Ledger} {x : Session} (h : Accounted l)
    (hc : callsForCleanAll l.world.server x ∨ ∀ a ∈ l.lost, a ∈ transitiveAuthorities x.desired)
    {a : Authority} (ha : Live (sessionClient rulesHash l.world x) a) :
    a ∈ transitiveAuthorities x.desired := by
  rcases sessionClient_live ha with hd | ⟨hn, hl⟩
  · exact hd
  · have hlost := hc.resolve_left hn
    rcases h with h | h
    · exact absurd (callsForCleanAll_unsynced h x) hn
    · rcases h a hl with hs | hs
      · exact applied_kept hn hs
      · exact hlost a hs

theorem transitiveAuthorities_promoted {w : World} {x : Session} {a : Authority} :
    a ∈ transitiveAuthorities (promotedServer rulesHash w x).applied ↔
      a ∈ transitiveAuthorities x.desired := by
  simp [mem_transitiveAuthorities, promotedServer]

theorem accounted_step {l : Ledger} {e : Event} (h : Accounted l)
    (hc : Undrifted e ∧ Covered l e) : Accounted (ledgerStep rulesHash l e) := by
  cases e with
  | drift client => exact hc.1.elim
  | spawn rule =>
    simp only [ledgerStep, step]
    split
    · rename_i hrule
      rcases h with h | h
      · exact .inl h
      · refine .inr fun a ha => h a ?_
        rcases ha with ha | ⟨r, hr, rfl⟩
        · exact .inl ha
        · rcases Finset.mem_insert.mp hr with rfl | hr
          · exact .inl hrule
          · exact .inr ⟨r, hr, rfl⟩
    · exact h
  | session x =>
    simp only [ledgerStep]
    have ho := session_outcome rulesHash l.world x
    generalize (session rulesHash l.world x).1 = w' at ho ⊢
    generalize (session rulesHash l.world x).2 = ending at ho ⊢
    cases ho with
    | refused => exact h
    | cut _ =>
      rcases h with h | h
      · exact .inl (unsynced_prepared h _ _)
      · exact .inr h
    | applied _ => exact accounted_applied h
    | promoted _ hx =>
      refine .inr fun a ha => .inl ?_
      exact transitiveAuthorities_promoted.mpr (promoted_live h (hc.2 hx) ha)

theorem revokes_of_accounted {l : Ledger} {e : Event} (h : Accounted l) (hc : Covered l e) :
    Revokes rulesHash l.world e := by
  cases e with
  | drift client => trivial
  | spawn rule => trivial
  | session x =>
    intro hp r hr
    have ho := session_outcome rulesHash l.world x
    rw [hp] at ho
    generalize (session rulesHash l.world x).1 = w' at ho hr ⊢
    cases ho with
    | promoted _ hx =>
      exact transitiveAuthorities_promoted.mpr (promoted_live h (hc hx) (.inr ⟨r, hr, rfl⟩))

/-- In a run whose sessions are all covered, no promotion leaves a transitive
rule whose authority is not applied. -/
theorem promotion_revokes (w : World) (es : List Event) (hw : Unsynced w.server)
    (hu : ∀ e ∈ es, Undrifted e) (hc : Along (ledgerStep rulesHash) Covered ⟨w, []⟩ es) :
    Along (step rulesHash) (Revokes rulesHash) w es := by
  have hboth := hc.and (Runs.along_of_forall (fun e he _ => hu e he) _)
  have hproj := Runs.along_invariant (D := fun l e => Revokes rulesHash (Ledger.world l) e)
    (fun _ _ h he => accounted_step h he.symm) (fun _ _ h he => revokes_of_accounted h he.1)
    (.inl hw) hboth
  exact (Runs.along_project (ledgerStep_world rulesHash)).mp hproj

def sampleRule : TransitiveRule :=
  ⟨⟨.binary, "z"⟩, .allowlistCompiler sampleCompiler.identityKey⟩

theorem ledgerStep_sampleSession (l : Ledger) (desired : List Target)
    (h : desired.Sublist [sampleAllow, sampleCompiler])
    (hsize : (sessionPayload sampleHash l.world (sampleSession desired)).length < 2 ^ 31) :
    ledgerStep sampleHash l (.session (sampleSession desired)) =
      ⟨⟨promotedServer sampleHash l.world (sampleSession desired),
        sessionClient sampleHash l.world (sampleSession desired)⟩, []⟩ := by
  rw [ledgerStep, session_sampleSession l.world desired h hsize]
  rfl

theorem ledgerStep_sampleSession_lost (l : Ledger) (desired : List Target)
    (h : desired.Sublist [sampleAllow, sampleCompiler])
    (hsize : (sessionPayload sampleHash l.world (sampleSession desired .beforePostflight)).length < 2 ^ 31) :
    ledgerStep sampleHash l (.session (sampleSession desired .beforePostflight)) =
      ⟨⟨sessionServer sampleHash l.world (sampleSession desired .beforePostflight),
        sessionClient sampleHash l.world (sampleSession desired .beforePostflight)⟩,
        lostAfter l (sampleSession desired .beforePostflight) .applied⟩ := by
  rw [ledgerStep, session_sampleSession_lost l.world desired h hsize]

/-- The lost authority is confirmed by the session after it. -/
theorem promotion_revokes_sample :
    Along (step sampleHash) (Revokes sampleHash) {}
      [.session (sampleSession []), .session (sampleSession [sampleCompiler] .beforePostflight),
        .spawn sampleRule, .session (sampleSession [sampleCompiler])] :=
  promotion_revokes {} _ (by simp [Unsynced]) (by simp [Undrifted]) (by
    simp only [Runs.along_cons]
    rw [ledgerStep_sampleSession _ _ (List.nil_sublist _) (by decide +kernel),
      ledgerStep_sampleSession_lost _ _ (by decide) (by decide +kernel)]
    decide +kernel)

/-- A postflight is lost, the client makes a rule, and the authority is dropped. -/
def revokedRun : List Event :=
  [.session (sampleSession []), .session (sampleSession [sampleCompiler] .beforePostflight),
    .spawn sampleRule, .session (sampleSession [])]

/-- The last session of this run is a CLEAN one, which keeps the transitive rule. -/
theorem promotion_keeps_revoked :
    Unsynced ({} : World).server ∧ (∀ e ∈ revokedRun, Undrifted e) ∧
      ¬Along (step sampleHash) (Revokes sampleHash) {} revokedRun := by
  refine ⟨by simp [Unsynced], by simp [revokedRun, Undrifted], ?_⟩
  intro ⟨_, _, _, hlast, _⟩
  rw [step_sampleSession _ _ (List.nil_sublist _) (by decide +kernel),
    step_sampleSession_lost _ _ (by decide) (by decide +kernel), Revokes,
    session_sampleSession _ _ (List.nil_sublist _) (by decide +kernel)] at hlast
  exact absurd (hlast rfl) (by decide +kernel)

end SantaTransitive
