import Woodstar.SantaPayloads
import Woodstar.Runs

/-!
# A host that holds what it should

The preflights of a host whose client, applied targets, digest and hash agree. The counts of
the desired targets, of `countTargets`, are compared with the counts that the client reports
about the same rules and about the transitive ones it made.
-/
namespace SantaQuiescence

open SantaTargets SantaSync SantaPayloads
open SantaSessions (sampleDigest sampleHash sampleAllow sampleCompiler)
open Runs (exec Along)

/-- What a client reports that holds these rules and made some transitive binary ones. -/
structure Reports (held : List Target) (transitive : Nat) (reported : RuleCounts) : Prop where
  binary : reported.binary.toNat = held.countP (·.ruleType = .binary) + transitive
  certificate : reported.certificate.toNat = held.countP (·.ruleType = .certificate)
  teamID : reported.teamID.toNat = held.countP (·.ruleType = .teamid)
  signingID : reported.signingID.toNat = held.countP (·.ruleType = .signingid)
  cdHash : reported.cdHash.toNat = held.countP (·.ruleType = .cdhash)
  compiler : reported.compiler.toNat = held.countP (·.policy = .allowlistCompiler)
  transitive : reported.transitive.toNat = transitive

theorem foldl_countTarget {f : RuleCounts → UInt32} {p : Target → Bool}
    (h : ∀ counts target, f (countTarget counts target) = if p target then f counts + 1 else f counts)
    (targets : List Target) (counts : RuleCounts) :
    f (targets.foldl countTarget counts) = f counts + UInt32.ofNat (targets.countP p) := by
  induction targets generalizing counts with
  | nil => simp
  | cons target targets ih =>
    rw [List.foldl_cons, ih, h, List.countP_cons]
    split
    · rw [UInt32.ofNat_add, UInt32.add_assoc, UInt32.add_comm 1]
      rfl
    · simp

/-- A counter of `countTargets`, for a list that a table can hold. -/
theorem countTargets_toNat {f : RuleCounts → UInt32} {p : Target → Bool}
    (h : ∀ counts target, f (countTarget counts target) = if p target then f counts + 1 else f counts)
    (hzero : f {} = 0) {targets : List Target} (hlength : targets.length ≤ 2 ^ 31) :
    (f (countTargets targets)).toNat = targets.countP p := by
  have hle := List.countP_le_length (p := p) (l := targets)
  rw [countTargets, foldl_countTarget h, hzero, UInt32.zero_add]
  exact UInt32.toNat_ofNat_of_lt' (show _ < 2 ^ 32 by omega)

variable {targets : List Target}

/-- The counter of a rule type. A bundle has none. -/
def counter : RuleType → RuleCounts → UInt32
  | .binary => RuleCounts.binary
  | .certificate => RuleCounts.certificate
  | .teamid => RuleCounts.teamID
  | .signingid => RuleCounts.signingID
  | .cdhash => RuleCounts.cdHash
  | .bundle => fun _ => 0

theorem counter_countTargets {ruleType : RuleType} (htype : ruleType ≠ .bundle)
    (h : targets.length ≤ 2 ^ 31) :
    (counter ruleType (countTargets targets)).toNat = targets.countP (·.ruleType = ruleType) := by
  apply countTargets_toNat _ _ h
  · intro counts target
    simp only [countTarget]
    cases ruleType <;> cases target.ruleType <;> first | rfl | exact absurd rfl htype
  · cases ruleType <;> rfl

/-- The compiler rules are counted among the binary rules only. -/
theorem countTargets_compiler (h : targets.length ≤ 2 ^ 31) :
    (countTargets targets).compiler.toNat =
      targets.countP (fun target => target.ruleType = .binary ∧ target.policy = .allowlistCompiler) := by
  apply countTargets_toNat (f := RuleCounts.compiler) _ rfl h
  intro counts target
  simp only [countTarget]
  cases target.ruleType <;> simp

/-- Every compiler rule is a binary rule. -/
def CompilersAreBinary (targets : List Target) : Prop :=
  ∀ target ∈ targets, target.policy = .allowlistCompiler → target.ruleType = .binary

instance (targets : List Target) : Decidable (CompilersAreBinary targets) :=
  inferInstanceAs (Decidable (∀ target ∈ targets,
    target.policy = .allowlistCompiler → target.ruleType = .binary))

theorem countP_compilers (targets : List Target) :
    targets.countP (·.policy = .allowlistCompiler) =
      targets.countP (fun target => target.ruleType = .binary ∧ target.policy = .allowlistCompiler) +
        targets.countP (fun target => target.policy = .allowlistCompiler ∧ target.ruleType ≠ .binary) := by
  induction targets with
  | nil => rfl
  | cons target targets ih =>
    simp only [List.countP_cons, ih]
    by_cases hpolicy : target.policy = .allowlistCompiler
    · by_cases htype : target.ruleType = .binary
      · simp [hpolicy, htype]
        omega
      · simp [hpolicy, htype]
        omega
    · simp [hpolicy]

theorem compilersAreBinary_iff : CompilersAreBinary targets ↔
    targets.countP (fun target => target.policy = .allowlistCompiler ∧ target.ruleType ≠ .binary) = 0 := by
  rw [List.countP_eq_zero]
  simp [CompilersAreBinary]

theorem binaryWithoutTransitive_toNat {held : List Target} {transitive : Nat} {reported : RuleCounts}
    (h : Reports held transitive reported) :
    reported.binaryWithoutTransitive.toNat = held.countP (·.ruleType = .binary) := by
  have hle : reported.transitive ≤ reported.binary := by
    rw [UInt32.le_iff_toNat_le, h.binary, h.transitive]
    omega
  rw [RuleCounts.binaryWithoutTransitive, UInt32.toNat_sub_of_le _ _ hle, h.binary, h.transitive]
  omega

/-- The counts agree exactly when no compiler rule is left out of the server's count. -/
theorem matchesReported_iff {transitive : Nat} {reported : RuleCounts}
    (hlength : targets.length ≤ 2 ^ 31) (h : Reports targets transitive reported) :
    (countTargets targets).matchesReported reported = true ↔ CompilersAreBinary targets := by
  have hcompilers := countP_compilers targets
  have hbinary : (countTargets targets).binary = reported.binaryWithoutTransitive := by
    have hcount := @counter_countTargets _ .binary nofun hlength
    exact UInt32.toNat_inj.mp (hcount.trans (binaryWithoutTransitive_toNat h).symm)
  have hcertificate : (countTargets targets).certificate = reported.certificate :=
    UInt32.toNat_inj.mp ((@counter_countTargets _ .certificate nofun hlength).trans h.certificate.symm)
  have hteam : (countTargets targets).teamID = reported.teamID :=
    UInt32.toNat_inj.mp ((@counter_countTargets _ .teamid nofun hlength).trans h.teamID.symm)
  have hsigning : (countTargets targets).signingID = reported.signingID :=
    UInt32.toNat_inj.mp ((@counter_countTargets _ .signingid nofun hlength).trans h.signingID.symm)
  have hcdhash : (countTargets targets).cdHash = reported.cdHash :=
    UInt32.toNat_inj.mp ((@counter_countTargets _ .cdhash nofun hlength).trans h.cdHash.symm)
  simp only [RuleCounts.matchesReported, hbinary, hcertificate, hteam, hsigning, hcdhash, beq_self_eq_true,
    Bool.true_and, beq_iff_eq]
  rw [← UInt32.toNat_inj, countTargets_compiler hlength, h.compiler, compilersAreBinary_iff]
  omega

/-- A preflight with the counts of its round, and the postflights that follow it. -/
structure Round where
  reported : RuleCounts
  reports : List Postflight := []
  deriving DecidableEq, Repr

/-- The preflight `q` with the counts of the round. -/
def Round.preflight (x : Round) (q : Preflight) : Preflight := { q with reported := x.reported }

def promote (s : SyncState) (r : Postflight) : SyncState :=
  match promotePending s r with
  | .error _ => s
  | .ok s' => s'

def round (q : Preflight) (s : SyncState) (x : Round) : SyncState :=
  match preparePending s (x.preflight q) with
  | .error _ => s
  | .ok (_, s') => exec promote s' x.reports

/-- The preflight asks for nothing but what the host's applied state already is. -/
structure Quiescent (q : Preflight) (s : SyncState) : Prop where
  digest : s.row.bind SyncRow.appliedPolicyDigest = some q.policyDigest
  hash : s.row.bind SyncRow.confirmedRulesHash = some q.clientRulesHash
  applied : s.applied.Perm q.desired
  noRequest : q.requestCleanSync = false

/-- The preflight starts a NORMAL sync without rules. -/
def Quiet (q : Preflight) (s : SyncState) (x : Round) : Prop :=
  ∃ s', preparePending s (x.preflight q) = .ok (.normal, s') ∧ pendingPayload .normal s' = []

variable {q : Preflight} {s : SyncState}

theorem sortedTargets_eq_of_perm {ts us : List Target} (hp : ts.Perm us)
    (hn : (us.map Target.identityKey).Nodup) : sortedTargets ts = sortedTargets us := by
  have hperm : (sortedTargets ts).Perm (sortedTargets us) :=
    (sortedTargets_perm ts).trans (hp.trans (sortedTargets_perm us).symm)
  have : Std.Total (fun left right : Target => keyLE left.identityKey right.identityKey) :=
    ⟨fun left right => keyLE_total left.identityKey right.identityKey⟩
  have : IsTrans Target (fun left right => keyLE left.identityKey right.identityKey) :=
    ⟨fun _ _ _ => keyLE_trans⟩
  apply hperm.eq_of_pairwise _ (List.pairwise_insertionSort _ ts) (List.pairwise_insertionSort _ us)
  intro a b ha hb hab hba
  have ha' : a ∈ us := hp.mem_iff.mp (mem_sortedTargets.mp ha)
  have hb' : b ∈ us := mem_sortedTargets.mp hb
  exact List.inj_on_of_nodup_map hn ha' hb' (keyLE_antisymm hab hba)

theorem callsForCleanAll_quiescent (h : Quiescent q s) :
    ¬(loadPriorState s).callsForCleanAll q.policyDigest (sortedTargets q.desired) := by
  intro hcalls
  cases hcalls with
  | inl hdigest => exact hdigest h.digest
  | inr hauthority =>
    have hkept : transitiveAuthorityRemoved (loadTargets s.applied) (sortedTargets q.desired) = false := by
      rw [transitiveAuthorityRemoved_eq_false]
      intro a ha
      obtain ⟨target, htarget, hauth⟩ := mem_transitiveAuthorities.mp ha
      rw [loadTargets, mem_sortedTargets, h.applied.mem_iff] at htarget
      exact mem_transitiveAuthorities.mpr ⟨target, mem_sortedTargets.mpr htarget, hauth⟩
    rw [loadPriorState, hkept] at hauthority
    cases hauthority

/-- Only the counts can call for a clean sync. -/
theorem syncType_quiescent (h : Quiescent q s) (hn : (q.desired.map Target.identityKey).Nodup) :
    (loadPriorState s).syncType q =
      if (countTargets (sortedTargets q.desired)).matchesReported q.reported = true then .normal
      else .clean := by
  have hequal : targetsEqual (sortedTargets q.desired) (loadPriorState s).targets = true := by
    have hsorted : sortedTargets s.applied = sortedTargets q.desired := sortedTargets_eq_of_perm h.applied hn
    simp [targetsEqual, loadPriorState, loadTargets, hsorted]
  have hhash : (loadPriorState s).confirmedRulesHash = some q.clientRulesHash := h.hash
  rw [syncType_eq, if_neg (callsForCleanAll_quiescent h)]
  simp only [PriorState.callsForClean, h.noRequest, hequal, hhash]
  cases (countTargets (sortedTargets q.desired)).matchesReported q.reported <;> simp

/-- Whatever the order of the lists, equal targets leave nothing to send. -/
theorem normalSyncPayload_eq_nil {desired applied : List Target} (hp : applied.Perm desired)
    (hn : (applied.map Target.identityKey).Nodup) : normalSyncPayload desired applied = [] := by
  rw [List.eq_nil_iff_forall_not_mem]
  intro rule hrule
  cases mem_normalSyncPayload.mp hrule with
  | inl h =>
    obtain ⟨target, htarget, hchanged, -⟩ := h
    exact hchanged ((appliedByIdentity_eq hn target).mpr (hp.mem_iff.mpr htarget))
  | inr h =>
    obtain ⟨target, htarget, hgone, -⟩ := h
    exact hgone (List.mem_map_of_mem (hp.mem_iff.mp htarget))

/-- A quiescent host whose pending sync, if any, is NORMAL and of the same inputs. -/
structure Settled (q : Preflight) (s : SyncState) : Prop where
  quiescent : Quiescent q s
  desired : s.desired.Perm q.desired
  pending : ∀ row, s.row = some row → row.pendingSyncType = none ∨
    row.pendingSyncType = some .normal ∧ row.pendingPolicyDigest = some q.policyDigest ∧
      row.preflightRulesHash = some q.clientRulesHash

theorem Settled.payload (h : Settled q s) (hn : (q.desired.map Target.identityKey).Nodup) :
    pendingPayload .normal s = [] := by
  have hp : (loadTargets s.applied).Perm (loadTargets s.desired) :=
    (sortedTargets_perm _).trans
      (h.quiescent.applied.trans (h.desired.symm.trans (sortedTargets_perm _).symm))
  have happlied : (loadTargets s.applied).Perm q.desired :=
    (sortedTargets_perm _).trans h.quiescent.applied
  simp only [pendingPayload, if_true]
  exact normalSyncPayload_eq_nil hp ((happlied.map _).nodup_iff.mpr hn)

theorem settled_prepared (h : Quiescent q s) : Settled q (prepared s q .normal) where
  quiescent := by
    have hd := h.digest
    have hh := h.hash
    constructor
    · cases hrow : s.row with
      | none => rw [hrow] at hd; cases hd
      | some row => rw [hrow] at hd; simpa [prepared, upsertPreflight, hrow] using hd
    · cases hrow : s.row with
      | none => rw [hrow] at hh; cases hh
      | some row => rw [hrow] at hh; simpa [prepared, upsertPreflight, hrow] using hh
    · exact h.applied
    · exact h.noRequest
  desired := (sortedTargets_perm _).trans (sortedTargets_perm _)
  pending := by
    intro row hrow
    obtain rfl := Option.some.inj hrow
    exact .inr ⟨rfl, rfl, rfl⟩

/-- An empty NORMAL sync is confirmed by the hash it started with only. -/
theorem settled_promote (h : Settled q s) (hn : (q.desired.map Target.identityKey).Nodup)
    (r : Postflight) : Settled q (promote s r) := by
  simp only [promote]
  cases hp : promotePending s r with
  | error e => exact h
  | ok s' =>
    obtain ⟨row, hrow, hacc, rfl⟩ := promotePending_ok.mp hp
    obtain ⟨pending, hpending, -⟩ := hacc.syncType
    cases h.pending row hrow with
    | inl hnone => rw [hnone] at hpending; cases hpending
    | inr hsame =>
      obtain ⟨hnormal, hdigest, hhash⟩ := hsame
      have hempty : promotedPayload s row = [] := by rw [promotedPayload_eq hnormal, h.payload hn]
      have hconfirmed : r.rulesHash = q.clientRulesHash := by
        have hsame := hacc.unchanged (by rw [hempty, List.length_nil])
        rw [hsame, hhash, Option.getD_some]
      constructor
      · constructor
        · simp [promotedRow, hdigest]
        · simp [promotedRow, hconfirmed]
        · exact h.desired
        · exact h.quiescent.noRequest
      · exact h.desired
      · intro row' hrow'
        obtain rfl := Option.some.inj hrow'
        exact .inl rfl

theorem Quiescent.preflight (h : Quiescent q s) (x : Round) : Quiescent (x.preflight q) s :=
  ⟨h.digest, h.hash, h.applied, h.noRequest⟩

theorem Settled.of_preflight {x : Round} (h : Settled (x.preflight q) s) : Settled q s :=
  ⟨⟨h.quiescent.digest, h.quiescent.hash, h.quiescent.applied, h.quiescent.noRequest⟩, h.desired,
    h.pending⟩

/-- The client reports what it holds: the desired rules, and transitive ones. -/
def Round.Honest (q : Preflight) (x : Round) : Prop := ∃ transitive, Reports q.desired transitive x.reported

theorem validate_round {transitive : Nat} {x : Round} (hhash : validateRulesHash q.clientRulesHash = .ok ())
    (hdigest : validatePolicyDigest q.policyDigest = .ok ()) (h : Reports q.desired transitive x.reported) :
    (x.preflight q).validate = .ok () := by
  have hle : ¬x.reported.transitive > x.reported.binary := by
    rw [gt_iff_lt, UInt32.lt_iff_toNat_lt, h.binary, h.transitive]
    omega
  have hcounts : validateRuleCounts x.reported = .ok () := by rw [validateRuleCounts, if_neg hle]
  simp only [Preflight.validate, Round.preflight, hcounts, hhash, hdigest]
  rfl

/-- One preflight: it is quiet exactly when every compiler rule is a binary rule. -/
theorem quiet_iff {transitive : Nat} {x : Round} (h : Quiescent q s) (hstorable : Storable q.desired)
    (hhash : validateRulesHash q.clientRulesHash = .ok ())
    (hdigest : validatePolicyDigest q.policyDigest = .ok ())
    (hreports : Reports q.desired transitive x.reported) :
    Quiet q s x ↔ CompilersAreBinary q.desired := by
  have hnodup : (q.desired.map Target.identityKey).Nodup := hstorable.nodup
  have hperm := sortedTargets_perm q.desired
  have haccepted : (x.preflight q).Accepted := ⟨validate_round hhash hdigest hreports, hstorable⟩
  have hreports' : Reports (sortedTargets q.desired) transitive x.reported := by
    constructor
    all_goals first
      | rw [hperm.countP_eq]
      | skip
    · exact hreports.binary
    · exact hreports.certificate
    · exact hreports.teamID
    · exact hreports.signingID
    · exact hreports.cdHash
    · exact hreports.compiler
    · exact hreports.transitive
  have hcounts : (countTargets (sortedTargets q.desired)).matchesReported x.reported = true ↔
      CompilersAreBinary q.desired := by
    rw [matchesReported_iff (hperm.length_eq ▸ hstorable.length) hreports']
    simp [CompilersAreBinary]
  have htype : (loadPriorState s).syncType (x.preflight q) =
      if (countTargets (sortedTargets q.desired)).matchesReported x.reported = true then .normal
      else .clean := syncType_quiescent (h.preflight x) hnodup
  constructor
  · intro hquiet
    obtain ⟨s', hprepare, -⟩ := hquiet
    obtain ⟨-, hnormal, -⟩ := preparePending_ok.mp hprepare
    rw [htype] at hnormal
    by_contra hmixed
    rw [if_neg (fun hmatch => hmixed (hcounts.mp hmatch))] at hnormal
    cases hnormal
  · intro hbinary
    rw [if_pos (hcounts.mpr hbinary)] at htype
    have hsettled := settled_prepared (h.preflight x)
    exact ⟨_, preparePending_ok.mpr ⟨haccepted, htype.symm, rfl⟩, hsettled.payload hnodup⟩

/-- After a quiet preflight and any postflights the host is quiescent again. -/
theorem quiescent_round {x : Round} (h : Quiescent q s) (hn : (q.desired.map Target.identityKey).Nodup)
    (hquiet : Quiet q s x) : Quiescent q (round q s x) := by
  obtain ⟨s', hprepare, -⟩ := hquiet
  obtain ⟨-, -, rfl⟩ := preparePending_ok.mp hprepare
  have hsettled : Settled q (prepared s (x.preflight q) .normal) :=
    (settled_prepared (h.preflight x)).of_preflight
  simp only [round, hprepare]
  exact (Runs.exec_invariant (P := Settled q) (fun _ r hs => settled_promote hs hn r) x.reports
    hsettled).quiescent

/-- The counts of a client that holds these rules and nothing else. -/
def heldCounts (held : List Target) : RuleCounts where
  binary := UInt32.ofNat (held.countP (·.ruleType = .binary))
  certificate := UInt32.ofNat (held.countP (·.ruleType = .certificate))
  teamID := UInt32.ofNat (held.countP (·.ruleType = .teamid))
  signingID := UInt32.ofNat (held.countP (·.ruleType = .signingid))
  cdHash := UInt32.ofNat (held.countP (·.ruleType = .cdhash))
  compiler := UInt32.ofNat (held.countP (·.policy = .allowlistCompiler))

theorem reports_heldCounts {held : List Target} (h : held.length ≤ 2 ^ 31) :
    Reports held 0 (heldCounts held) := by
  have hcount : ∀ p : Target → Bool, (UInt32.ofNat (held.countP p)).toNat = held.countP p := by
    intro p
    have hle := List.countP_le_length (p := p) (l := held)
    exact UInt32.toNat_ofNat_of_lt' (show _ < 2 ^ 32 by omega)
  exact ⟨hcount _, hcount _, hcount _, hcount _, hcount _, hcount _, rfl⟩

/-- Every preflight that repeats the inputs of a quiescent host, whatever transitive rules its
client has and whatever postflights come between, starts an empty NORMAL sync, exactly when
every compiler rule is a binary rule. -/
theorem repeated_preflights_quiet_iff (q : Preflight) (s : SyncState) (h : Quiescent q s)
    (hstorable : Storable q.desired) (hhash : validateRulesHash q.clientRulesHash = .ok ())
    (hdigest : validatePolicyDigest q.policyDigest = .ok ()) :
    (∀ rounds : List Round, (∀ x ∈ rounds, x.Honest q) → Along (round q) (Quiet q) s rounds) ↔
      CompilersAreBinary q.desired := by
  constructor
  · intro hquiet
    have hreports := reports_heldCounts hstorable.length
    have hone := hquiet [⟨heldCounts q.desired, []⟩]
      (by
        intro x hx
        obtain rfl := List.mem_singleton.mp hx
        exact ⟨0, hreports⟩)
    exact (quiet_iff h hstorable hhash hdigest hreports).mp hone.1
  · intro hbinary rounds hhonest
    induction rounds generalizing s with
    | nil => trivial
    | cons x rounds ih =>
      obtain ⟨transitive, hreports⟩ := hhonest x (by simp)
      have hquiet := (quiet_iff h hstorable hhash hdigest hreports).mpr hbinary
      exact ⟨hquiet, ih _ (quiescent_round h hstorable.nodup hquiet)
        (fun x' hx' => hhonest x' (List.mem_cons_of_mem _ hx'))⟩

/-- The preflight of a client that holds exactly these rules. -/
def samplePreflight (desired : List Target) : Preflight where
  policyDigest := sampleDigest
  desired := desired
  clientRulesHash := sampleHash desired.toFinset

def inStep (desired : List Target) : SyncState where
  row := some {
    appliedPolicyDigest := some sampleDigest
    confirmedRulesHash := some (sampleHash desired.toFinset) }
  desired := desired
  applied := desired

/-- Rules of four types, one of them a compiler. -/
def mixedTargets : List Target :=
  [{ ruleType := .binary, identifier := "b", policy := .allowlistCompiler }, sampleAllow,
    { ruleType := .certificate, identifier := "c", policy := .blocklist },
    { ruleType := .teamid, identifier := "t", policy := .silentBlocklist },
    { ruleType := .signingid, identifier := "s", policy := .cel, celExpression := "true" }]

theorem repeated_preflights_quiet_sample :
    (∀ rounds : List Round, (∀ x ∈ rounds, x.Honest (samplePreflight mixedTargets)) →
      Along (round (samplePreflight mixedTargets)) (Quiet (samplePreflight mixedTargets))
        (inStep mixedTargets) rounds) ↔ CompilersAreBinary mixedTargets :=
  repeated_preflights_quiet_iff (samplePreflight mixedTargets) (inStep mixedTargets)
    ⟨rfl, rfl, List.Perm.refl _, rfl⟩ ⟨by decide, by decide, by decide⟩ (by decide) (by decide)

/-- The round of a client that holds the compiler rule of `sampleCompiler` and reports it. -/
def compilerRound : Round where
  reported := heldCounts [sampleCompiler]
  reports := [{ rulesReceived := 1, rulesProcessed := 1, syncType := .clean,
                rulesHash := sampleHash {sampleCompiler} }]

/-- A compiler rule for a code directory hash brings a clean sync, and once that is confirmed
the same preflight brings the next one. -/
theorem compiler_cdhash_never_quiet :
    Quiescent (samplePreflight [sampleCompiler]) (inStep [sampleCompiler]) ∧
    compilerRound.Honest (samplePreflight [sampleCompiler]) ∧
    (preparePending (inStep [sampleCompiler])
      (compilerRound.preflight (samplePreflight [sampleCompiler]))).map Prod.fst = .ok .clean ∧
    Quiescent (samplePreflight [sampleCompiler])
      (round (samplePreflight [sampleCompiler]) (inStep [sampleCompiler]) compilerRound) ∧
    (preparePending (round (samplePreflight [sampleCompiler]) (inStep [sampleCompiler]) compilerRound)
      (compilerRound.preflight (samplePreflight [sampleCompiler]))).map Prod.fst = .ok .clean := by
  constructor
  · exact ⟨rfl, rfl, List.Perm.refl _, rfl⟩
  constructor
  · exact ⟨0, reports_heldCounts (by decide)⟩
  constructor
  · decide
  constructor
  · constructor
    · decide
    · decide
    · decide
    · rfl
  · decide

end SantaQuiescence
