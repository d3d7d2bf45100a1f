import Woodstar.DistributionStore
import Woodstar.Runs

/-!
# Redirects to distribution points

Runs of the store's operations, each a transaction that carries its start, and what a
redirect found in such a run says about the worker of the point it names.
-/
namespace DistributionRedirects

open DistributionStore KeyedRows
open Runs (exec Along)

inductive Event where
  | create (m : DistributionPointMutation) (key : String)
  | update (pointID : Int) (m : DistributionPointMutation)
  | delete (pointID : Int)
  | rotateKey (pointID : Int) (key : String)
  | reorder (orderedIDs : List Int)
  | claim (pointID : Int) (key connectionID : String) (worker : DistributionPointWorker)
  | observe (pointID : Int) (key : String) (worker : DistributionPointWorker)
  | renew (pointID : Int) (connectionID : String)
  | release (pointID : Int) (connectionID : String)
  | record (pointID : Int) (connectionID : String) (packageID : Int) (status : PackageStatus)
      (sha256 errMessage : String)
  | createPackage (sha256 : Option String)
  | setInstaller (packageID : Int) (sha256 : Option String)
  | deletePackage (packageID : Int)
  deriving DecidableEq, Repr

/-- The package's state rows go with it. -/
def Db.deletePackage (db : Db) (packageID : Int) : Db :=
  { db with
    packages := db.packages.erase packageID
    states := fun pointID => Function.update (db.states pointID) packageID none }

def apply (db : Db) (now : Int) : Event → Except Failure Db
  | .create m key => DistributionStore.create db m key
  | .update pointID m => DistributionStore.update db pointID m
  | .delete pointID => DistributionStore.delete db pointID
  | .rotateKey pointID key => DistributionStore.rotateKey db pointID key
  | .reorder orderedIDs => DistributionStore.reorder db orderedIDs
  | .claim pointID key connectionID worker => claimWorkerSession db pointID key connectionID worker now
  | .observe pointID key worker => observeRejectedWorker db pointID key worker now
  | .renew pointID connectionID => renewWorkerSession db pointID connectionID now
  | .release pointID connectionID => .ok (releaseWorkerSession db pointID connectionID)
  | .record pointID connectionID packageID status sha256 errMessage =>
    recordPackageState db pointID connectionID packageID status sha256 errMessage now
  | .createPackage sha256 => .ok { db with packages := db.packages.insert sha256 }
  | .setInstaller packageID sha256 => .ok { db with packages := db.packages.modify packageID (fun _ => sha256) }
  | .deletePackage packageID => .ok (Db.deletePackage db packageID)

/-- What workers did, as far as it succeeded. -/
inductive Entry where
  | claimed (pointID : Int) (connectionID : String)
  | reported (pointID : Int) (connectionID : String) (packageID : Int) (state : PackageState)
  deriving DecidableEq, Repr

def entries : Event → List Entry
  | .claim pointID _ connectionID _ => [.claimed pointID connectionID]
  | .record pointID connectionID packageID status sha256 errMessage =>
    [.reported pointID connectionID packageID ⟨status, reportedSHA256 sha256, errMessage⟩]
  | _ => []

/-- The last report for the package since the point's last claim. -/
def report (pointID packageID : Int) : List Entry → Option (String × PackageState)
  | [] => none
  | .claimed p _ :: past => if p = pointID then none else report pointID packageID past
  | .reported p connectionID k state :: past =>
    if p = pointID ∧ k = packageID then some (connectionID, state) else report pointID packageID past

/-- A transaction that started at `startedAt`, or time passing. -/
inductive Move where
  | transaction (startedAt : Int) (e : Event)
  | tick (d : Nat)
  deriving DecidableEq, Repr

/-- `log` has the newest entry first. -/
structure World where
  db : Db := {}
  now : Int := 0
  log : List Entry := []

def step (w : World) : Move → World
  | .transaction startedAt e =>
    if startedAt ≤ w.now then
      match apply w.db startedAt e with
      | .ok db => { w with db := db, log := entries e ++ w.log }
      | .error _ => w
    else w
  | .tick d => { w with now := w.now + d }

def PackageState.shows (state : PackageState) (sha256 : Option String) : Bool :=
  state.status == .current && state.reportedSHA256.isSome && state.reportedSHA256 == sha256

/-- The worker of the point's live session has itself reported the package current with the
installer's hash, and nothing else since. -/
def Served (w : World) (pointID packageID now : Int) : Prop :=
  ∃ session state, w.db.sessions pointID = some session ∧ now < session.expiresAt ∧
    report pointID packageID w.log = some (session.connectionID, state) ∧
    PackageState.shows state (w.db.packages.row packageID).join = true

/-- The package-state rows that a claim or an installer change makes count are the ones
the point's session has reported. -/
def Fits (w : World) : Move → Prop
  | .transaction startedAt (.claim pointID key connectionID worker) =>
    (claimWorkerSession w.db pointID key connectionID worker startedAt).isOk = true →
      ∀ packageID ∈ w.db.packages.ids, ∀ state ∈ w.db.states pointID packageID,
        PackageState.shows state (w.db.packages.row packageID).join = false
  | .transaction _ (.setInstaller packageID sha256) =>
    ∀ pointID ∈ w.db.points.ids, (w.db.sessions pointID).isSome = true →
      ∀ state ∈ w.db.states pointID packageID, PackageState.shows state sha256 = true →
        (report pointID packageID w.log).map Prod.snd = some state
  | _ => True

instance (w : World) (m : Move) : Decidable (Fits w m) := by
  cases m with
  | tick d => exact inferInstanceAs (Decidable True)
  | transaction startedAt e => cases e <;> (unfold Fits; infer_instance)

def Enabled (db : Db) (pointID : Int) : Prop := (db.points.row pointID).any PointRow.enabled = true

/-- A session belongs to an enabled point. -/
def Live (db : Db) (pointID : Int) : Prop := (db.sessions pointID).isSome = true → Enabled db pointID

inductive Change (pointID : Int) (db : Db) (e : Event) (db' : Db) : Prop
  | kept (hlive : Live db pointID → Live db' pointID)
      (hsession : ∀ s' ∈ db'.sessions pointID, ∃ s ∈ db.sessions pointID, s.connectionID = s'.connectionID)
      (hstates : ∀ k, ∀ st ∈ db'.states pointID k, st ∈ db.states pointID k)
      (hpackages : ∀ k, (db'.states pointID k).isSome = true → (db.packages.row k).isSome = true →
        db'.packages.row k = db.packages.row k)
      (hentries : ∀ k log, report pointID k (entries e ++ log) = report pointID k log)
  | claimed (now : Int) (key connectionID : String) (worker : DistributionPointWorker)
      (he : e = .claim pointID key connectionID worker)
      (hok : (claimWorkerSession db pointID key connectionID worker now).isOk = true)
      (hlive : Live db' pointID)
      (hsession : ∀ s' ∈ db'.sessions pointID, s'.connectionID = connectionID)
      (hstates : db'.states pointID = db.states pointID) (hpackages : db'.packages = db.packages)
  | recorded (connectionID : String) (packageID : Int) (state : PackageState)
      (hentries : entries e = [.reported pointID connectionID packageID state])
      (hlive : Live db pointID → Live db' pointID) (hpackage : (db.packages.row packageID).isSome = true)
      (hconnection : ∀ s ∈ db.sessions pointID, s.connectionID = connectionID)
      (hsession : db'.sessions pointID = db.sessions pointID)
      (hstates : db'.states pointID = Function.update (db.states pointID) packageID (some state))
      (hpackages : db'.packages = db.packages)
  | installed (packageID : Int) (sha256 : Option String) (he : e = .setInstaller packageID sha256)
      (hlive : Live db pointID → Live db' pointID)
      (hsession : db'.sessions pointID = db.sessions pointID)
      (hstates : db'.states pointID = db.states pointID)
      (hpackages : ∀ k, db'.packages.row k =
        if k = packageID then (db.packages.row k).map (fun _ => sha256) else db.packages.row k)

section

variable {pointID : Int} {db db' : Db} {e : Event}

/-- Nothing of the point changes. -/
theorem change_other (hpoint : db'.points.row pointID = db.points.row pointID)
    (hsession : db'.sessions pointID = db.sessions pointID)
    (hstates : db'.states pointID = db.states pointID) (hpackages : db'.packages = db.packages)
    (hentries : ∀ k log, report pointID k (entries e ++ log) = report pointID k log) :
    Change pointID db e db' := by
  refine .kept ?_ ?_ ?_ ?_ hentries
  · simp only [Live, Enabled, hpoint, hsession]
    exact id
  · rw [hsession]
    exact fun s hs => ⟨s, hs, rfl⟩
  · rw [hstates]
    exact fun _ _ h => h
  · rw [hpackages]
    exact fun _ _ _ => rfl

/-- The point loses its session. -/
theorem change_cleared (hsession : db'.sessions pointID = none)
    (hstates : ∀ k, ∀ st ∈ db'.states pointID k, st ∈ db.states pointID k)
    (hpackages : db'.packages = db.packages)
    (hentries : ∀ k log, report pointID k (entries e ++ log) = report pointID k log) :
    Change pointID db e db' := by
  refine .kept ?_ ?_ hstates ?_ hentries
  · simp [Live, hsession]
  · simp [hsession]
  · rw [hpackages]
    exact fun _ _ _ => rfl

theorem enabled_foldl_modify {β : Type} (f : β → PointRow → PointRow) (key : β → Int)
    (hf : ∀ b point, (f b point).enabled = point.enabled) (bs : List β) (t : Table PointRow) :
    ((bs.foldl (fun t b => t.modify (key b) (f b)) t).row pointID).any PointRow.enabled =
      (t.row pointID).any PointRow.enabled := by
  induction bs generalizing t with
  | nil => rfl
  | cons b bs ih =>
    rw [List.foldl_cons, ih, KeyedRows.Table.row_modify]
    split_ifs
    · cases t.row pointID <;> simp [hf]
    · rfl

theorem change_create {m : DistributionPointMutation} {key : String} {now : Int}
    (h : apply db now (.create m key) = .ok db') : Change pointID db (.create m key) db' := by
  simp only [apply, DistributionStore.create] at h
  split_ifs at h
  obtain rfl := Except.ok.inj h
  refine .kept (fun hlive hs => ?_) (fun s hs => ⟨s, hs, rfl⟩) (fun _ _ hst => hst)
    (fun _ _ _ => rfl) (fun _ _ => rfl)
  have henabled := hlive hs
  have hne : pointID ≠ db.points.next := by
    intro heq
    obtain ⟨point, hrow, -⟩ := (Option.any_eq_true _ _).mp henabled
    have := (db.points.numbered pointID (by simp [hrow])).2
    rw [heq, KeyedRows.Table.next] at this
    omega
  simpa only [Enabled, KeyedRows.Table.row_insert, if_neg hne] using henabled

theorem change_update {p : Int} {m : DistributionPointMutation} {now : Int}
    (h : apply db now (.update p m) = .ok db') : Change pointID db (.update p m) db' := by
  simp only [apply, DistributionStore.update] at h
  split_ifs at h with hnone htaken henabled
  · obtain rfl := Except.ok.inj h
    refine .kept (fun hlive hs => ?_) (fun s hs => ⟨s, hs, rfl⟩) (fun _ _ hst => hst)
      (fun _ _ _ => rfl) (fun _ _ => rfl)
    have hold := hlive hs
    simp only [Enabled, Db.modifyPoint, KeyedRows.Table.row_modify] at hold ⊢
    split_ifs
    · obtain ⟨point, hrow, -⟩ := (Option.any_eq_true _ _).mp hold
      simp [hrow, PointRow.write, henabled]
    · exact hold
  · obtain rfl := Except.ok.inj h
    by_cases hp : pointID = p
    · subst hp
      refine change_cleared ?_ (fun _ _ hst => hst) rfl (fun _ _ => rfl)
      simp [clearWorkerStates, Db.setSession, Db.setRejection]
    · refine change_other ?_ ?_ rfl rfl (fun _ _ => rfl)
      · simp [clearWorkerStates, Db.setSession, Db.setRejection, Db.modifyPoint,
          KeyedRows.Table.row_modify, hp]
      · simp [clearWorkerStates, Db.setSession, Db.setRejection, Db.modifyPoint, hp]

theorem change_delete {p : Int} {now : Int} (h : apply db now (.delete p) = .ok db') :
    Change pointID db (.delete p) db' := by
  simp only [apply, DistributionStore.delete] at h
  split_ifs at h
  obtain rfl := Except.ok.inj h
  by_cases hp : pointID = p
  · subst hp
    refine change_cleared ?_ ?_ rfl (fun _ _ => rfl)
    · simp [Db.deletePoint, clearWorkerStates, Db.setSession, Db.setRejection]
    · simp [Db.deletePoint]
  · refine change_other ?_ ?_ ?_ rfl (fun _ _ => rfl)
    · simp [Db.deletePoint, KeyedRows.Table.row_erase, hp]
    · simp [Db.deletePoint, clearWorkerStates, Db.setSession, Db.setRejection, hp]
    · simp [Db.deletePoint, clearWorkerStates, Db.setSession, Db.setRejection, hp]

theorem change_rotateKey {p : Int} {key : String} {now : Int}
    (h : apply db now (.rotateKey p key) = .ok db') : Change pointID db (.rotateKey p key) db' := by
  simp only [apply, DistributionStore.rotateKey] at h
  split_ifs at h
  obtain rfl := Except.ok.inj h
  by_cases hp : pointID = p
  · subst hp
    refine change_cleared ?_ (fun _ _ hst => hst) rfl (fun _ _ => rfl)
    simp [clearWorkerStates, Db.setSession, Db.setRejection]
  · refine change_other ?_ ?_ rfl rfl (fun _ _ => rfl)
    · simp [clearWorkerStates, Db.setSession, Db.setRejection, Db.modifyPoint,
        KeyedRows.Table.row_modify, hp]
    · simp [clearWorkerStates, Db.setSession, Db.setRejection, Db.modifyPoint, hp]

theorem change_reorder {orderedIDs : List Int} {now : Int}
    (h : apply db now (.reorder orderedIDs) = .ok db') :
    Change pointID db (.reorder orderedIDs) db' := by
  simp only [apply, DistributionStore.reorder] at h
  split_ifs at h
  obtain rfl := Except.ok.inj h
  refine .kept (fun hlive hs => ?_) (fun s hs => ⟨s, hs, rfl⟩) (fun _ _ hst => hst)
    (fun _ _ _ => rfl) (fun _ _ => rfl)
  have hold := hlive hs
  rw [Enabled] at hold ⊢
  simp only [enabled_foldl_modify
    (fun (entry : Int × Nat) (point : PointRow) => { point with position := (entry.2 : Int) })
    Prod.fst (fun _ _ => rfl)]
  exact hold

theorem enabled_of_lock {p : Int} {key : String} (h : lockWorkerCredential db p key = .ok ()) :
    Enabled db p := by
  unfold lockWorkerCredential at h
  split_ifs at h with hany
  obtain ⟨point, hrow, haccepts⟩ := (Option.any_eq_true _ _).mp hany
  rw [PointRow.accepts, Bool.and_eq_true] at haccepts
  rw [Enabled, hrow]
  exact haccepts.1

theorem report_claimed_other {p : Int} {c : String} (hp : pointID ≠ p) (k : Int) (log : List Entry) :
    report pointID k (.claimed p c :: log) = report pointID k log :=
  if_neg (fun heq => hp heq.symm)

theorem report_reported_other {p k' : Int} {c : String} {state : PackageState} (hp : pointID ≠ p)
    (k : Int) (log : List Entry) :
    report pointID k (.reported p c k' state :: log) = report pointID k log :=
  if_neg (fun hand => hp hand.1.symm)

theorem change_claim {p : Int} {key connectionID : String} {worker : DistributionPointWorker}
    {now : Int} (h : apply db now (.claim p key connectionID worker) = .ok db') :
    Change pointID db (.claim p key connectionID worker) db' := by
  have hok : (claimWorkerSession db p key connectionID worker now).isOk = true := by
    rw [apply] at h
    rw [h]
    rfl
  simp only [apply, claimWorkerSession] at h
  split_ifs at h
  obtain ⟨⟨⟩, hlock, h⟩ := Primitives.bind_eq_ok.mp h
  obtain rfl := Except.ok.inj h
  by_cases hp : pointID = p
  · subst hp
    refine .claimed now key connectionID worker rfl hok (fun _ => ?_) ?_ rfl rfl
    · exact enabled_of_lock hlock
    intro s' hs'
    obtain rfl : newSession connectionID worker now = s' := by
      simpa [Db.setSession, Db.setRejection] using hs'
    rfl
  · refine change_other rfl ?_ rfl rfl (report_claimed_other hp)
    simp [Db.setSession, Db.setRejection, hp]

theorem change_observe {p : Int} {key : String} {worker : DistributionPointWorker} {now : Int}
    (h : apply db now (.observe p key worker) = .ok db') :
    Change pointID db (.observe p key worker) db' := by
  simp only [apply, observeRejectedWorker] at h
  split_ifs at h
  obtain ⟨⟨⟩, -, h⟩ := Primitives.bind_eq_ok.mp h
  obtain rfl := Except.ok.inj h
  exact change_other rfl rfl rfl rfl (fun _ _ => rfl)

theorem change_renew {p : Int} {connectionID : String} {now : Int}
    (h : apply db now (.renew p connectionID) = .ok db') :
    Change pointID db (.renew p connectionID) db' := by
  simp only [apply, renewWorkerSession] at h
  cases hrow : db.sessions p with
  | none => simp [hrow] at h
  | some session =>
    simp only [hrow] at h
    split_ifs at h
    obtain rfl := Except.ok.inj h
    by_cases hp : pointID = p
    · subst hp
      refine .kept (fun hlive _ => hlive (by simp [hrow])) ?_ (fun _ _ hst => hst)
        (fun _ _ _ => rfl) (fun _ _ => rfl)
      intro s' hs'
      obtain rfl : session.renew now = s' := by simpa [Db.setSession] using hs'
      exact ⟨session, hrow, rfl⟩
    · exact change_other rfl (Function.update_of_ne hp _ _) rfl rfl (fun _ _ => rfl)

theorem change_release (p : Int) (connectionID : String) :
    Change pointID db (.release p connectionID) (releaseWorkerSession db p connectionID) := by
  unfold releaseWorkerSession
  split_ifs
  · by_cases hp : pointID = p
    · subst hp
      exact change_cleared (Function.update_self ..) (fun _ _ hst => hst) rfl (fun _ _ => rfl)
    · exact change_other rfl (Function.update_of_ne hp _ _) rfl rfl (fun _ _ => rfl)
  · exact change_other rfl rfl rfl rfl (fun _ _ => rfl)

theorem change_record {p packageID : Int} {connectionID sha256 errMessage : String}
    {status : PackageStatus} {now : Int}
    (h : apply db now (.record p connectionID packageID status sha256 errMessage) = .ok db') :
    Change pointID db (.record p connectionID packageID status sha256 errMessage) db' := by
  simp only [apply, recordPackageState] at h
  split_ifs at h with hauthority hpackage
  obtain rfl := Except.ok.inj h
  by_cases hp : pointID = p
  · subst hp
    refine .recorded connectionID packageID ⟨status, reportedSHA256 sha256, errMessage⟩ rfl id
      (Bool.eq_true_of_not_eq_false hpackage) ?_ rfl (Function.update_self ..) rfl
    intro s hs
    obtain ⟨-, hcurrent⟩ := hauthority
    rw [hs, Option.any_some, WorkerSession.current, Bool.and_eq_true, beq_iff_eq] at hcurrent
    exact hcurrent.1
  · exact change_other rfl rfl (Function.update_of_ne hp _ _) rfl (report_reported_other hp)

theorem change_createPackage (sha256 : Option String) :
    Change pointID db (.createPackage sha256) { db with packages := db.packages.insert sha256 } := by
  refine .kept id (fun s hs => ⟨s, hs, rfl⟩) (fun _ _ hst => hst) (fun k _ hk => ?_) (fun _ _ => rfl)
  have hle := (db.packages.numbered k hk).2
  rw [KeyedRows.Table.row_insert, if_neg]
  rw [KeyedRows.Table.next]
  omega

theorem change_deletePackage (packageID : Int) :
    Change pointID db (.deletePackage packageID) (Db.deletePackage db packageID) := by
  refine .kept id (fun s hs => ⟨s, hs, rfl⟩) (fun k st hst => ?_) (fun k hk _ => ?_) (fun _ _ => rfl)
  · by_cases hid : k = packageID
    · subst hid
      simp [Db.deletePackage] at hst
    · simpa [Db.deletePackage, hid] using hst
  · by_cases hid : k = packageID
    · subst hid
      simp [Db.deletePackage] at hk
    · simp [Db.deletePackage, KeyedRows.Table.row_erase, hid]

/-- What an operation can do to a point. -/
theorem change_apply {now : Int} (h : apply db now e = .ok db') : Change pointID db e db' := by
  cases e with
  | create m key => exact change_create h
  | update p m => exact change_update h
  | delete p => exact change_delete h
  | rotateKey p key => exact change_rotateKey h
  | reorder orderedIDs => exact change_reorder h
  | claim p key connectionID worker => exact change_claim h
  | observe p key worker => exact change_observe h
  | renew p connectionID => exact change_renew h
  | release p connectionID =>
    obtain rfl := Except.ok.inj h
    exact change_release p connectionID
  | record p connectionID packageID status sha256 errMessage => exact change_record h
  | createPackage sha256 =>
    obtain rfl := Except.ok.inj h
    exact change_createPackage sha256
  | setInstaller packageID sha256 =>
    obtain rfl := Except.ok.inj h
    exact .installed packageID sha256 rfl id rfl rfl (fun _ => KeyedRows.Table.row_modify)
  | deletePackage packageID =>
    obtain rfl := Except.ok.inj h
    exact change_deletePackage packageID

end

structure Inv (w : World) : Prop where
  live : ∀ pointID, Live w.db pointID
  known : ∀ pointID k, (w.db.states pointID k).isSome = true → (w.db.packages.row k).isSome = true
  reporter : ∀ pointID, ∀ s ∈ w.db.sessions pointID, ∀ k c st,
    report pointID k w.log = some (c, st) → s.connectionID = c
  fresh : ∀ pointID, ∀ s ∈ w.db.sessions pointID, ∀ k, ∀ st ∈ w.db.states pointID k,
    PackageState.shows st (w.db.packages.row k).join = true →
      report pointID k w.log = some (s.connectionID, st)

section

variable {w : World} {e : Event} {db' : Db} {pointID : Int}

theorem inv_init : Inv {} where
  live := nofun
  known := nofun
  reporter := nofun
  fresh := nofun

theorem live_change (h : Change pointID w.db e db') (hlive : Live w.db pointID) : Live db' pointID := by
  cases h with
  | kept hstep => exact hstep hlive
  | claimed now key connectionID worker he hok hstep => exact hstep
  | recorded connectionID packageID state he hstep => exact hstep hlive
  | installed packageID sha256 he hstep => exact hstep hlive

theorem known_change (h : Change pointID w.db e db')
    (hknown : ∀ k, (w.db.states pointID k).isSome = true → (w.db.packages.row k).isSome = true) (k : Int)
    (hk : (db'.states pointID k).isSome = true) : (db'.packages.row k).isSome = true := by
  cases h with
  | kept hlive hsession hstates hpackages =>
    obtain ⟨st, hst⟩ := Option.isSome_iff_exists.mp hk
    have hrow := hknown k (by rw [hstates k st hst]; rfl)
    rw [hpackages k hk hrow]
    exact hrow
  | claimed now key connectionID worker he hok hlive hsession hstates hpackages =>
    rw [hpackages]
    exact hknown k (hstates ▸ hk)
  | recorded connectionID packageID state he hlive hpackage hconnection hsession hstates hpackages =>
    rw [hpackages]
    by_cases hid : k = packageID
    · exact hid ▸ hpackage
    · rw [hstates, Function.update_of_ne hid] at hk
      exact hknown k hk
  | installed packageID sha256 he hlive hsession hstates hpackages =>
    have hrow := hknown k (hstates ▸ hk)
    rw [hpackages]
    split_ifs
    · rwa [Option.isSome_map]
    · exact hrow

theorem reporter_change (hw : Inv w) (h : Change pointID w.db e db') (s : WorkerSession)
    (hs : s ∈ db'.sessions pointID) (k : Int) (c : String) (st : PackageState)
    (hreport : report pointID k (entries e ++ w.log) = some (c, st)) : s.connectionID = c := by
  cases h with
  | kept hlive hsession hstates hpackages hentries =>
    obtain ⟨s₀, hs₀, heq⟩ := hsession s hs
    rw [hentries] at hreport
    exact heq.symm.trans (hw.reporter pointID s₀ hs₀ k c st hreport)
  | claimed now key connectionID worker he =>
    subst he
    simp [entries, report] at hreport
  | recorded connectionID packageID state he hlive hpackage hconnection hsession =>
    rw [hsession] at hs
    rw [he, List.singleton_append, report] at hreport
    split_ifs at hreport
    · obtain ⟨rfl, -⟩ := Prod.mk.inj (Option.some.inj hreport)
      exact hconnection s hs
    · exact hw.reporter pointID s hs k c st hreport
  | installed packageID sha256 he hlive hsession =>
    subst he
    exact hw.reporter pointID s (hsession ▸ hs) k c st hreport

theorem fresh_change (hw : Inv w) {startedAt : Int} (hfits : Fits w (.transaction startedAt e))
    (happly : apply w.db startedAt e = .ok db') (s : WorkerSession) (hs : s ∈ db'.sessions pointID)
    (k : Int) (st : PackageState) (hst : st ∈ db'.states pointID k)
    (hshows : PackageState.shows st (db'.packages.row k).join = true) :
    report pointID k (entries e ++ w.log) = some (s.connectionID, st) := by
  have hchange : Change pointID w.db e db' := change_apply happly
  cases hchange with
  | kept hlive hsession hstates hpackages hentries =>
    obtain ⟨s₀, hs₀, heq⟩ := hsession s hs
    have hold := hstates k st hst
    have hrow := hw.known pointID k (by rw [hold]; rfl)
    rw [hpackages k (by rw [hst]; rfl) hrow] at hshows
    rw [hentries, ← heq]
    exact hw.fresh pointID s₀ hs₀ k st hold hshows
  | claimed now key connectionID worker he hok hlive hsession hstates hpackages =>
    -- a row that an earlier session left would show the package here
    subst he
    rw [hstates] at hst
    rw [hpackages] at hshows
    have hrow := hw.known pointID k (by rw [hst]; rfl)
    have hsuccess : (claimWorkerSession w.db pointID key connectionID worker startedAt).isOk = true := by
      rw [apply] at happly
      rw [happly]
      rfl
    have := hfits hsuccess k (KeyedRows.Table.mem_ids.mpr hrow) st hst
    rw [hshows] at this
    cases this
  | recorded connectionID packageID state he hlive hpackage hconnection hsession hstates hpackages =>
    rw [hsession] at hs
    rw [hpackages] at hshows
    rw [he, List.singleton_append, report]
    by_cases hid : k = packageID
    · subst hid
      rw [hstates, Function.update_self] at hst
      obtain rfl := Option.some.inj hst
      rw [if_pos ⟨rfl, rfl⟩, hconnection s hs]
    · rw [hstates, Function.update_of_ne hid] at hst
      rw [if_neg (fun hand => hid hand.2.symm)]
      exact hw.fresh pointID s hs k st hst hshows
  | installed packageID sha256 he hlive hsession hstates hpackages =>
    subst he
    rw [hsession] at hs
    rw [hstates] at hst
    change report pointID k w.log = _
    by_cases hid : k = packageID
    · subst hid
      obtain ⟨row, hrow⟩ := Option.isSome_iff_exists.mp (hw.known pointID k (by rw [hst]; rfl))
      rw [hpackages, if_pos rfl, hrow] at hshows
      have hpoint : pointID ∈ w.db.points.ids := by
        obtain ⟨point, hpoint, -⟩ := (Option.any_eq_true _ _).mp (hw.live pointID (by rw [hs]; rfl))
        exact KeyedRows.Table.mem_ids.mpr (by rw [hpoint]; rfl)
      have hreported := hfits pointID hpoint (by rw [hs]; rfl) st hst hshows
      obtain ⟨⟨c, st'⟩, hreport, rfl⟩ := Option.map_eq_some_iff.mp hreported
      rw [hreport, hw.reporter pointID s hs k c st' hreport]
    · rw [hpackages, if_neg hid] at hshows
      exact hw.fresh pointID s hs k st hst hshows

theorem inv_step (w : World) (m : Move) (hfits : Fits w m) (hw : Inv w) : Inv (step w m) := by
  cases m with
  | tick d => exact ⟨hw.live, hw.known, hw.reporter, hw.fresh⟩
  | transaction startedAt e =>
    simp only [step]
    by_cases hle : startedAt ≤ w.now
    swap
    · rwa [if_neg hle]
    rw [if_pos hle]
    cases happly : apply w.db startedAt e with
    | error f => exact hw
    | ok db' =>
      exact ⟨fun p => live_change (change_apply happly) (hw.live p),
        fun p => known_change (change_apply happly) (hw.known p),
        fun p => reporter_change hw (change_apply happly), fun p => fresh_change hw hfits happly⟩

theorem served_of_holds (hw : Inv w) {packageID now : Int}
    (h : w.db.holds packageID now pointID = true) : Served w pointID packageID now := by
  rw [Db.holds, Bool.and_eq_true, Option.any_eq_true, Option.any_eq_true] at h
  obtain ⟨⟨state, hstate, hshows⟩, ⟨session, hsession, hexpires⟩⟩ := h
  exact ⟨session, state, hsession, of_decide_eq_true hexpires,
    hw.fresh pointID session hsession packageID state hstate hshows, hshows⟩

end

section

variable {db : Db} {clientIP : Addr}

theorem before_trans (a b c : ClientCandidate) (hab : a.before b = true) (hbc : b.before c = true) :
    a.before c = true := by
  simp only [ClientCandidate.before, decide_eq_true_eq] at *
  omega

theorem before_total (a b : ClientCandidate) : (a.before b || b.before a) = true := by
  simp only [ClientCandidate.before, Bool.or_eq_true, decide_eq_true_eq]
  omega

theorem mem_candidates {c : ClientCandidate} : c ∈ db.candidates clientIP ↔
    ∃ point, db.points.row c.id = some point ∧ point.enabled = true ∧
      (∃ network ∈ point.clientCIDRs, network.contains clientIP = true) ∧
      c = ⟨c.id, point.name, point.position, point.key, point.clientBaseURL⟩ := by
  unfold Db.candidates
  simp only [List.mem_mergeSort, List.mem_filterMap, KeyedRows.Table.mem_ids, Option.bind_eq_some_iff]
  constructor
  · rintro ⟨id, -, point, hrow, h⟩
    split_ifs at h with hc
    obtain rfl := Option.some.inj h
    rw [Bool.and_eq_true, List.any_eq_true] at hc
    exact ⟨point, hrow, hc.1, hc.2, rfl⟩
  · rintro ⟨point, hrow, henabled, hcidr, hc⟩
    refine ⟨c.id, by simp [hrow], point, hrow, ?_⟩
    rw [if_pos (Bool.and_eq_true_iff.mpr ⟨henabled, List.any_eq_true.mpr hcidr⟩)]
    exact congrArg some hc.symm

theorem unmap_unmap (addr : Addr) : addr.unmap.unmap = addr.unmap := by
  cases addr with
  | invalid => rfl
  | v4 bits => rfl
  | v6 bits zone =>
    by_cases h : bits >>> 32 = 0xffff#128
    · simp [Addr.unmap, h]
    · simp [Addr.unmap, h]

theorem candidatesForClient_ok {cs : List ClientCandidate} (h : candidatesForClient db clientIP = .ok cs) :
    cs = db.candidates clientIP.unmap ∨ cs = [] := by
  obtain ⟨byAddress, hby, hcs⟩ := Primitives.bind_eq_ok.mp h
  obtain rfl := Except.ok.inj hcs
  unfold candidatesForClients at hby
  simp only [List.map_cons, List.map_nil, unmap_unmap] at hby
  by_cases hvalid : clientIP.unmap.isValid = true
  · rw [List.filter_cons_of_pos hvalid] at hby
    split_ifs at hby
    obtain rfl := Except.ok.inj hby
    left
    simp [List.eraseDups_cons]
  · rw [List.filter_cons_of_neg hvalid] at hby
    split_ifs at hby
    obtain rfl := Except.ok.inj hby
    right
    rfl

/-- The first candidate in the order of the points that is eligible. -/
theorem resolveForClient_some {later : Db} {now packageID : Int} {p : ResolvedPoint}
    (h : resolveForClient db later now clientIP packageID = .ok (some p)) :
    later.holds packageID now p.id = true ∧
    ∃ point, db.points.row p.id = some point ∧ point.enabled = true ∧
      (∃ network ∈ point.clientCIDRs, network.contains clientIP.unmap = true) ∧
      p = ⟨p.id, point.key, point.clientBaseURL⟩ ∧
      ∀ id other, db.points.row id = some other → other.enabled = true →
        (∃ network ∈ other.clientCIDRs, network.contains clientIP.unmap = true) →
        (other.position < point.position ∨ other.position = point.position ∧ id < p.id) →
        other.clientBaseURL = "" ∨ later.holds packageID now id = false := by
  obtain ⟨cs, hcs, hfind⟩ := Primitives.bind_eq_ok.mp h
  obtain ⟨c, hc, rfl⟩ := Option.map_eq_some_iff.mp (Except.ok.inj hfind)
  obtain rfl : cs = db.candidates clientIP.unmap := by
    rcases candidatesForClient_ok hcs with heq | rfl
    · exact heq
    · cases hc
  obtain ⟨hp, front, back, hlist, hfront⟩ := List.find?_eq_some_iff_append.mp hc
  rw [Bool.and_eq_true] at hp
  have hmem : c ∈ db.candidates clientIP.unmap := by rw [hlist]; simp
  obtain ⟨point, hrow, henabled, hcidr, heq⟩ := mem_candidates.mp hmem
  refine ⟨hp.2, point, hrow, henabled, hcidr, ?_, ?_⟩
  · rw [heq]
  · intro id other hother hoenabled hocidr hlt
    have hmem' : (⟨id, other.name, other.position, other.key, other.clientBaseURL⟩ : ClientCandidate) ∈
        db.candidates clientIP.unmap := mem_candidates.mpr ⟨other, hother, hoenabled, hocidr, rfl⟩
    have hposition : c.position = point.position := by rw [heq]
    have hsorted : (db.candidates clientIP.unmap).Pairwise (fun a b => a.before b = true) :=
      List.pairwise_mergeSort before_trans before_total _
    rw [hlist] at hmem' hsorted
    rcases List.mem_append.mp hmem' with hin | hin
    · have hnot := hfront _ hin
      simp only [Bool.not_eq_true', Bool.and_eq_false_iff] at hnot
      rcases hnot with hnot | hnot
      · exact .inl (by simpa using hnot)
      · exact .inr hnot
    · exfalso
      rcases List.mem_cons.mp hin with hin | hin
      · have hid : id = c.id := congrArg ClientCandidate.id hin
        have hpos : other.position = c.position := congrArg ClientCandidate.position hin
        simp only at hlt
        omega
      · have hbefore := (List.pairwise_cons.mp (List.pairwise_append.mp hsorted).2.1).1 _ hin
        simp only [ClientCandidate.before, decide_eq_true_eq] at hbefore
        simp only at hlt
        omega

end

/-- A redirect reads the candidates in one state of the run and the package states in a
later one. -/
theorem redirects_to_holder (es more : List Move) (h : Along step Fits {} (es ++ more)) (now : Int)
    (clientIP : Addr) (packageID : Int) (p : ResolvedPoint) :
    let w := exec step {} es
    let w' := exec step w more
    resolveForClient w.db w'.db now clientIP packageID = .ok (some p) →
      Enabled w'.db p.id ∧ Served w' p.id packageID now ∧
      ∃ point, w.db.points.row p.id = some point ∧ point.enabled = true ∧
        (∃ network ∈ point.clientCIDRs, network.contains clientIP.unmap = true) ∧
        p = ⟨p.id, point.key, point.clientBaseURL⟩ ∧
        ∀ id other, w.db.points.row id = some other → other.enabled = true →
          (∃ network ∈ other.clientCIDRs, network.contains clientIP.unmap = true) →
          (other.position < point.position ∨ other.position = point.position ∧ id < p.id) →
          other.clientBaseURL = "" ∨ w'.db.holds packageID now id = false := by
  intro w w' hresolve
  have hw : Inv w' := by
    have hrun := Runs.exec_invariant_along (P := Inv) (fun w m hw hfits => inv_step w m hfits hw) inv_init h
    rwa [Runs.exec_append] at hrun
  obtain ⟨hholds, hpoint⟩ := resolveForClient_some hresolve
  have hserved := served_of_holds hw hholds
  refine ⟨?_, hserved, hpoint⟩
  obtain ⟨session, state, hsession, -⟩ := hserved
  exact hw.live p.id (by rw [hsession]; rfl)

def campus : DistributionPointMutation where
  name := "campus"
  enabled := true
  clientCIDRs := [.v4 0x0a000000 8]
  clientBaseURL := "https://mdp.example.com"

def compatibleWorker : DistributionPointWorker where
  compatible := true
  protocolVersion := some 1

/-- A worker claims the point and reports the package. -/
def mirrored : List Move :=
  [.transaction 0 (.create campus "key"), .transaction 0 (.createPackage (some "hash")),
    .transaction 0 (.claim 1 "key" "a" compatibleWorker),
    .transaction 0 (.record 1 "a" 1 .current "hash" "")]

theorem redirects_to_holder_mirrored : Served (exec step {} mirrored) 1 1 0 :=
  (redirects_to_holder mirrored [] (by decide) 0 (.v4 0x0a000001) 1
    ⟨1, "key", "https://mdp.example.com"⟩ (by decide +kernel)).2.1

/-- Another worker takes the session over; it has reported nothing. -/
theorem redirect_to_empty_mirror :
    let w := exec step {} (mirrored ++ [.transaction 0 (.claim 1 "key" "b" compatibleWorker)])
    resolveForClient w.db w.db w.now (.v4 0x0a000001) 1 =
        .ok (some ⟨1, "key", "https://mdp.example.com"⟩) ∧
      (w.db.sessions 1).map WorkerSession.connectionID = some "b" ∧ report 1 1 w.log = none ∧
      ¬Served w 1 1 w.now := by
  intro w
  have hreport : report 1 1 w.log = none := by decide
  refine ⟨by decide +kernel, by decide, hreport, ?_⟩
  rintro ⟨session, state, -, -, hserved, -⟩
  rw [hreport] at hserved
  cases hserved

end DistributionRedirects
