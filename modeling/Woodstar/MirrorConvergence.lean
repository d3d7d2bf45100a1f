import Woodstar.MirrorSets
import Woodstar.Runs

/-!
# The mirror converges to the last desired set

What is wanted is mirrored and announced, or a job is at work on it. What is not wanted
has no job, and `applyDesiredSet` prunes it.
-/
namespace MirrorConvergence

open InodeFiles KeyedRows MirrorJobs MirrorFiles MirrorSets
open Runs (exec Along)

variable {hash : List UInt8 → String} {w w' : World} {j k : Int} {job other : Job} {pkg : DesiredPackage}
  {id : Int} {f g : Dir}

def lastEvent (events : List PackageEvent) (id : Int) : Option PackageEvent :=
  events.find? (fun event => decide (event.packageID = id))

/-- The package waits for its announcement. -/
def Pending (w : World) (pkg : DesiredPackage) : Prop :=
  ∃ applying, w.applying = some applying ∧ pkg ∈ applying.current

def Announced (w : World) (pkg : DesiredPackage) : Prop :=
  lastEvent w.events pkg.packageID = some (.current pkg.packageID pkg.sha256)

def Pruning.within (prune : List Int) : Pruning → Prop
  | .idle => True
  | .unlinking id _ => id ∈ prune
  | .forgetting id => id ∈ prune

structure Want (w : World) : Prop where
  handle : ∀ pkg ∈ w.last.pkgs, ∀ handle, w.handles.lookup pkg.packageID = some handle →
    handle.sha = pkg.sha256 ∧ handle.size = pkg.sizeBytes
  settled : ∀ pkg ∈ w.last.pkgs, w.handles.lookup pkg.packageID = none →
    Settled w.files w.packages pkg ∧ (Pending w pkg ∨ Announced w pkg)
  others : ∀ id, id ∉ w.last.ids →
    w.handles.lookup id = none ∧ (w.packages.lookup id = none ∨ id ∈ toPrune w)
  announced : ∀ j job, w.jobs.row j = some job → job.Live → job.stage = .finishing → Announced w job.pkg
  current : ∀ applying, w.applying = some applying → ∀ pkg ∈ applying.current,
    pkg ∈ w.last.pkgs ∧ w.handles.lookup pkg.packageID = none
  prune : ∀ applying, w.applying = some applying → (∀ id ∈ applying.prune, id ∉ w.last.ids) ∧
    Pruning.within applying.prune applying.pruning

theorem lastEvent_cons {event : PackageEvent} {events : List PackageEvent} :
    lastEvent (event :: events) id = if event.packageID = id then some event else lastEvent events id := by
  unfold lastEvent
  by_cases h : event.packageID = id
  · rw [List.find?_cons_of_pos (by simpa using h), if_pos h]
  · rw [List.find?_cons_of_neg (by simpa using h), if_neg h]

/-- A live job works on a wanted package, towards its bytes. -/
theorem Want.wanted (hw : Want w) (hc : Core hash w) (hrow : w.jobs.row j = some job) (hlive : job.Live) :
    ∃ pkg ∈ w.last.pkgs, pkg.packageID = job.pkg.packageID ∧ pkg.sha256 = job.pkg.sha256 ∧
      pkg.sizeBytes = job.pkg.sizeBytes := by
  obtain ⟨handle, hhandle, hjob⟩ := hc.live j job hrow hlive
  obtain ⟨job', hjob', -, -, hsha, hsize⟩ := hc.handle _ handle hhandle
  rw [hjob, hrow] at hjob'
  obtain rfl := Option.some.inj hjob'
  have hid : job.pkg.packageID ∈ w.last.ids := by
    by_contra hid
    rw [(hw.others _ hid).1] at hhandle
    cases hhandle
  obtain ⟨pkg, hpkg, hsame⟩ := List.mem_map.mp hid
  obtain ⟨hsha', hsize'⟩ := hw.handle pkg hpkg handle (hsame ▸ hhandle)
  exact ⟨pkg, hpkg, hsame, hsha'.symm.trans hsha, hsize'.symm.trans hsize⟩

/-- No handle, so no job that was not cancelled. -/
theorem cancelled_of_no_handle (hc : Core hash w) (hrow : w.jobs.row j = some job)
    (hactive : job.stage ≠ .ended) (hnone : w.handles.lookup job.pkg.packageID = none) :
    job.cancelled = true := by
  cases hcancelled : job.cancelled with
  | true => rfl
  | false =>
    obtain ⟨handle, hhandle, -⟩ := hc.live j job hrow ⟨hcancelled, hactive⟩
    rw [hnone] at hhandle
    cases hhandle

theorem want_desired {set : DesiredSet} (hc : Core hash w)
    (hannounced : ∀ j job, w.jobs.row j = some job → job.Live → job.stage = .finishing → Announced w job.pkg)
    (hwindow : ∀ j job, w.jobs.row j = some job → job.stage.inWindow = true → LeavesAlone w set job)
    (hfits : ∀ pkg ∈ set.pkgs, Fits w pkg) : Core hash (applyDesiredSet w set) ∧ Want (applyDesiredSet w set) := by
  obtain ⟨hcore, hrestart, hlast, happlying, hsatisfied, hstarted, hothers, hprune⟩ :=
    applyDesiredSet_spec hc hwindow hfits
  generalize applyDesiredSet w set = w' at *
  have hmissing : ∀ pkg ∈ set.pkgs, w'.handles.lookup pkg.packageID = none →
      satisfies w pkg.packageID pkg.sha256 pkg.sizeBytes = true := by
    intro pkg hpkg hnone
    by_contra hunsatisfied
    obtain ⟨handle, hhandle, -⟩ := hstarted pkg hpkg (Bool.not_eq_true _ ▸ hunsatisfied)
    rw [hnone] at hhandle
    cases hhandle
  refine ⟨hcore, ?_, ?_, ?_, ?_, ?_, ?_⟩
  · intro pkg hpkg handle hhandle
    rw [hlast] at hpkg
    cases hholds : satisfies w pkg.packageID pkg.sha256 pkg.sizeBytes with
    | true =>
      rw [hsatisfied pkg hpkg hholds] at hhandle
      cases hhandle
    | false =>
      obtain ⟨handle', hhandle', hsame⟩ := hstarted pkg hpkg hholds
      obtain rfl := Option.some.inj (hhandle.symm.trans hhandle')
      exact hsame
  · intro pkg hpkg hnone
    rw [hlast] at hpkg
    have hholds := hmissing pkg hpkg hnone
    rw [hrestart.files, hrestart.packages]
    exact ⟨satisfies_settled hholds, .inl ⟨_, happlying, List.mem_filter.mpr ⟨hpkg, hholds⟩⟩⟩
  · intro id hid
    rw [hlast] at hid
    refine ⟨hothers id hid, ?_⟩
    rw [hrestart.packages]
    cases hstate : w.packages.lookup id with
    | none => exact .inl rfl
    | some state => exact .inr ((hprune id).mpr (.inr ⟨by rw [hstate]; rfl, hid⟩))
  · intro k other hk hother hstage
    rcases hrestart.rows k other hk with ⟨old, hold, rfl | rfl⟩ | ⟨hsyncing, -⟩
    · rw [Announced, hrestart.events]
      exact hannounced k other hold hother hstage
    · exact nomatch hother.1
    · rw [hstage] at hsyncing
      cases hsyncing
  · intro applying h pkg hpkg
    obtain rfl := Option.some.inj (happlying.symm.trans h)
    obtain ⟨hmem, hholds⟩ := List.mem_filter.mp hpkg
    rw [hlast]
    exact ⟨hmem, hsatisfied pkg hmem hholds⟩
  · intro applying h
    obtain rfl := Option.some.inj (happlying.symm.trans h)
    rw [hlast]
    refine ⟨fun id hid => ?_, trivial⟩
    rcases (hprune id).mp hid with ⟨-, hnot⟩ | ⟨-, hnot⟩ <;> exact hnot

section Jobs

variable {stage : Stage}

theorem want_advance (slots : Nat) (hw : Want w) (hrow : w.jobs.row j = some job)
    (hfinishing : stage = .finishing → job.cancelled = true)
    (hsame : ∀ id state, w.handles.lookup id = none → w.packages.lookup id = some state →
      SameAt w.files g (localName id state.filename)) :
    Want (({ w with files := g, slots := slots } : World).setStage j stage) := by
  refine ⟨hw.handle, fun pkg hpkg hnone => ?_, hw.others, ?_, hw.current, hw.prune⟩
  · obtain ⟨hsettled, hevent⟩ := hw.settled pkg hpkg hnone
    exact ⟨hsettled.frame (fun state hstate => hsame _ state hnone hstate), hevent⟩
  · intro k other hk hother hstage
    have hrow' : ({ w with files := g, slots := slots } : World).jobs.row j = some job := hrow
    rcases row_setStage_cases hrow' hk with ⟨-, rfl⟩ | ⟨-, hold⟩
    · have hcancelled : job.cancelled = false := hother.1
      rw [hfinishing hstage] at hcancelled
      cases hcancelled
    · exact hw.announced k other hold hother hstage

theorem emits_active {event : PackageEvent} (h : Emits job event stage) : job.stage ≠ .ended := by
  cases h with
  | syncing h => rw [h]; nofun
  | current h => rw [h]; nofun
  | error h => rw [h]; nofun

theorem emits_packageID {event : PackageEvent} (h : Emits job event stage) :
    event.packageID = job.pkg.packageID := by
  cases h <;> rfl

/-- What a cancelled job reports about a wanted package is its current digest. -/
theorem emits_wanted {event : PackageEvent} (h : Emits job event stage) (hcancelled : job.cancelled = true)
    (hharmless : job.cancelled = true → Harmless hash w job .next) (hpkg : pkg ∈ w.last.pkgs)
    (hid : pkg.packageID = job.pkg.packageID) : event = .current pkg.packageID pkg.sha256 := by
  have hwanted : job.pkg.packageID ∈ w.last.ids := hid ▸ List.mem_map_of_mem hpkg
  have hquiet := hharmless hcancelled
  cases h with
  | syncing h =>
    simp only [Harmless, h] at hquiet
    exact absurd hwanted hquiet
  | current h =>
    simp only [Harmless, h] at hquiet
    rw [hid, hquiet pkg hpkg hid]
  | error h =>
    simp only [Harmless, h] at hquiet
    exact absurd hwanted hquiet

theorem want_emit {event : PackageEvent} (hc : Core hash w) (hw : Want w) (hrow : w.jobs.row j = some job)
    (h : Emits job event stage) (hharmless : job.cancelled = true → Harmless hash w job .next) :
    Want ((w.emit event).setStage j stage) := by
  have hactive := emits_active h
  have hid := emits_packageID h
  have hrow' : (w.emit event).jobs.row j = some job := hrow
  refine ⟨hw.handle, fun pkg hpkg hnone => ?_, hw.others, ?_, hw.current, hw.prune⟩
  · obtain ⟨hsettled, hevent⟩ := hw.settled pkg hpkg hnone
    refine ⟨hsettled, hevent.imp_right (fun hold => ?_)⟩
    change lastEvent (event :: w.events) pkg.packageID = _
    rw [lastEvent_cons]
    by_cases hsame : event.packageID = pkg.packageID
    · have hpkgid := hsame.symm.trans hid
      have hcancelled := cancelled_of_no_handle hc hrow hactive (hpkgid ▸ hnone)
      rw [if_pos hsame, emits_wanted h hcancelled hharmless hpkg hpkgid]
    · rw [if_neg hsame]
      exact hold
  · intro k other hk hother hstage
    change lastEvent (event :: w.events) other.pkg.packageID = _
    rw [lastEvent_cons]
    rcases row_setStage_cases hrow' hk with ⟨-, rfl⟩ | ⟨hne, hold⟩
    · cases h with
      | syncing h => cases hstage
      | current h => exact if_pos rfl
      | error h => cases hstage
    · by_cases hsame : event.packageID = other.pkg.packageID
      · have hcancelled : job.cancelled = true := by
          by_contra hnot
          exact hne (hc.unique hold hrow hother ⟨Bool.not_eq_true _ ▸ hnot, hactive⟩ (hsame.symm.trans hid))
        obtain ⟨pkg, hpkg, hpkgid, hsha, -⟩ := hw.wanted hc hold hother
        rw [if_pos hsame, emits_wanted h hcancelled hharmless hpkg (hpkgid.trans (hsame.symm.trans hid)), hpkgid, hsha]
      · rw [if_neg hsame]
        exact hw.announced k other hold hother hstage

theorem want_put {i : Nat} (hc : Core hash w) (hw : Want w) (hrow : w.jobs.row j = some job)
    (h : job.stage = .renamed i) : Want ((put w job.pkg).setStage j .recorded) := by
  have hnot := notCancelled_of_inWindow hc hrow (by rw [h]; rfl)
  obtain ⟨handle, hhandle, -⟩ := hc.live j job hrow ⟨hnot, by rw [h]; nofun⟩
  have hlookup : ∀ id, w.handles.lookup id = none →
      (put w job.pkg).packages.lookup id = w.packages.lookup id := by
    intro id hnone
    refine AList.lookup_insert_ne (fun heq => ?_)
    rw [heq, hhandle] at hnone
    cases hnone
  refine ⟨hw.handle, fun pkg hpkg hnone => ?_, fun id hid => ?_, ?_, hw.current, hw.prune⟩
  · obtain ⟨⟨state, i, hstate, hrest⟩, hevent⟩ := hw.settled pkg hpkg hnone
    exact ⟨⟨state, i, (hlookup _ hnone).trans hstate, hrest⟩, hevent⟩
  · obtain ⟨hnone, hpruned⟩ := hw.others id hid
    exact ⟨hnone, hpruned.imp_left (hlookup id hnone).trans⟩
  · intro k other hk hother hstage
    have hrow' : (put w job.pkg).jobs.row j = some job := hrow
    rcases row_setStage_cases hrow' hk with ⟨-, rfl⟩ | ⟨-, hold⟩
    · cases hstage
    · exact hw.announced k other hold hother hstage

theorem want_finish (hc : Core hash w) (hw : Want w) (hrow : w.jobs.row j = some job)
    (h : job.stage = .finishing) (hharmless : job.cancelled = true → Harmless hash w job .next) :
    Want ((finishJob w job.pkg).setStage j .ended) := by
  obtain ⟨handles, heq, hlookup⟩ := finishJob_handles hc hrow h hharmless
  have hnone : ∀ id, w.handles.lookup id = none → handles.lookup id = none := by
    intro id hold
    rw [hlookup]
    split_ifs
    · rfl
    · exact hold
  rw [heq]
  refine ⟨fun pkg hpkg handle hhandle => ?_, fun pkg hpkg hgone => ?_, fun id hid => ?_, ?_, ?_, hw.prune⟩
  · have hhandle' : handles.lookup pkg.packageID = some handle := hhandle
    rw [hlookup] at hhandle'
    split_ifs at hhandle'
    exact hw.handle pkg hpkg handle hhandle'
  · have hgone' : handles.lookup pkg.packageID = none := hgone
    rw [hlookup] at hgone'
    split_ifs at hgone' with hown
    · -- the job's own package: the job recorded it and announced it
      have hlive : job.Live := ⟨hown.1, by rw [h]; nofun⟩
      have hsettled := hc.stage j job hrow hlive
      rw [StageOK, h] at hsettled
      obtain ⟨pkg', hpkg', hid, hsha, hsize⟩ := hw.wanted hc hrow hlive
      obtain rfl := DesiredSet.eq_of_id hpkg hpkg' (hown.2.trans hid.symm)
      have hevent := hw.announced j job hrow hlive h
      rw [Announced, ← hid, ← hsha] at hevent
      rw [Settled, ← hid, ← hsha, ← hsize] at hsettled
      exact ⟨hsettled, .inr hevent⟩
    · exact hw.settled pkg hpkg hgone'
  · exact ⟨hnone id (hw.others id hid).1, (hw.others id hid).2⟩
  · intro k other hk hother hstage
    have hrow' : ({ w with handles := handles } : World).jobs.row j = some job := hrow
    rcases row_setStage_cases hrow' hk with ⟨-, rfl⟩ | ⟨-, hold⟩
    · cases hstage
    · exact hw.announced k other hold hother hstage
  · intro applying happlying pkg hpkg
    obtain ⟨hmem, hold⟩ := hw.current applying happlying pkg hpkg
    exact ⟨hmem, hnone _ hold⟩

theorem want_stepJob (concurrency : Nat) (hc : Core hash w) (hw : Want w) (hrow : w.jobs.row j = some job)
    (a : JobStep) (hharmless : job.cancelled = true → Harmless hash w job a) :
    Want (stepJob hash concurrency w j job a) := by
  have hspec := @advance_spec hash concurrency w j job a
  have htemp : ∀ {id state}, job.stage ≠ .ended → w.packages.lookup id = some state →
      localName id state.filename ≠ job.tempName := fun hactive hstate => state_ne_temp hc hrow hactive hstate
  generalize stepJob hash concurrency w j job a = w' at hspec ⊢
  cases hspec with
  | stay => exact hw
  | move h => exact want_advance (g := w.files) _ hw hrow h.finishing (fun _ _ _ _ => sameAt_refl w.files _)
  | emit h => exact want_emit hc hw hrow h hharmless
  | create h =>
    exact want_advance w.slots hw hrow nofun
      (fun _ _ _ hstate => sameAt_create (htemp (by rw [h]; nofun) hstate))
  | write h =>
    exact want_advance w.slots hw hrow nofun
      (fun id state _ hstate => sameAt_write (written_not_recorded hc hrow h hharmless id state hstate))
  | unlink h =>
    exact want_advance _ hw hrow nofun
      (fun _ _ _ hstate => sameAt_unlink (htemp (by rw [h]; nofun) hstate))
  | rename h hlink =>
    have hnot := notCancelled_of_inWindow hc hrow (by rw [h]; rfl)
    obtain ⟨handle, hhandle, -⟩ := hc.live j job hrow ⟨hnot, by rw [h]; nofun⟩
    refine want_advance w.slots hw hrow nofun (fun id state hnone hstate => ?_)
    refine sameAt_rename (htemp (by rw [h]; nofun) hstate) (localName_ne (fun hid => ?_))
    rw [hid, hhandle] at hnone
    cases hnone
  | put h => exact want_put hc hw hrow h
  | finish h => exact want_finish hc hw hrow h hharmless

end Jobs

section Applying

variable {applying : Applying}

/-- The files change under names that no job that was not cancelled relies on. -/
theorem core_files (hc : Core hash w) (hothers : ∀ k other, w.jobs.row k = some other → other.Live →
      Untouched w.files g w.packages other)
    (hsound : ∀ id state, w.packages.lookup id = some state → Sound hash w.files id state →
      Sound hash g id state) : Core hash { w with files := g } :=
  ⟨hc.handle, hc.live, hc.window, hc.names, hc.states,
    fun k other hk hother => (hc.stage k other hk hother).frame (hothers k other hk hother), hc.apart,
    fun id state hstate => (hc.sound id state hstate).imp_left (hsound id state hstate)⟩

/-- A file of a package without a job is removed. -/
theorem core_unlink_file {filename : List Char} (hc : Core hash w) (hnone : w.handles.lookup id = none) :
    Core hash { w with files := unlink w.files (localName id filename) } := by
  refine core_files hc (fun k other hk hother => ?_) (fun id' state hstate hsound => ?_)
  · have hid : other.pkg.packageID ≠ id := by
      rintro rfl
      obtain ⟨handle, hhandle, -⟩ := hc.live k other hk hother
      rw [hnone] at hhandle
      cases hhandle
    exact {
      name := inode_unlink (localName_ne hid)
      content := fun _ _ => rfl
      temp := fun i hi => ownsName_unlink hi
      state := fun state _ => sameAt_unlink (localName_ne hid) }
  · by_cases hname : localName id' state.filename = localName id filename
    · intro i hi
      rw [hname, inode_unlink_self] at hi
      cases hi
    · exact hsound.frame (sameAt_unlink hname)

/-- The record of a package without a job is dropped. -/
theorem core_forget (hc : Core hash w) (hnone : w.handles.lookup id = none) :
    Core hash { w with packages := w.packages.erase id } := by
  have hkept : ∀ {id' state}, (w.packages.erase id).lookup id' = some state → w.packages.lookup id' = some state := by
    intro id' state hstate
    by_cases hid : id' = id
    · rw [hid, AList.lookup_erase] at hstate
      cases hstate
    · rwa [AList.lookup_erase_ne hid] at hstate
  refine ⟨hc.handle, hc.live, hc.window, hc.names,
    fun j job state hj hactive hstate => hc.states j job state hj hactive (hkept hstate), ?_, hc.apart,
    fun id' state hstate => hc.sound id' state (hkept hstate)⟩
  intro k other hk hother
  have hid : other.pkg.packageID ≠ id := by
    rintro rfl
    obtain ⟨handle, hhandle, -⟩ := hc.live k other hk hother
    rw [hnone] at hhandle
    cases hhandle
  have hsettled : Settled w.files w.packages other.pkg → Settled w.files (w.packages.erase id) other.pkg := by
    rintro ⟨state, i, hstate, hrest⟩
    exact ⟨state, i, (AList.lookup_erase_ne hid).trans hstate, hrest⟩
  have hold := hc.stage k other hk hother
  unfold StageOK at hold ⊢
  split at hold <;> first | exact hold | exact hsettled hold

theorem want_announce {first : DesiredPackage} {rest : List DesiredPackage} (hc : Core hash w) (hw : Want w)
    (h : w.applying = some applying) (hcurrent : applying.current = first :: rest) :
    Want ((w.emit (.current first.packageID first.sha256)).setApplying
      (some { applying with current := rest })) := by
  obtain ⟨hfirst, hfirstnone⟩ := hw.current applying h first (hcurrent ▸ List.mem_cons_self)
  obtain ⟨hprune, hwithin⟩ := hw.prune applying h
  refine ⟨hw.handle, fun pkg hpkg hnone => ?_, fun id hid => ?_, fun k other hk hother hstage => ?_, ?_, ?_⟩
  · obtain ⟨hsettled, hevent⟩ := hw.settled pkg hpkg hnone
    refine ⟨hsettled, ?_⟩
    by_cases hid : first.packageID = pkg.packageID
    · obtain rfl := DesiredSet.eq_of_id hfirst hpkg hid
      exact .inr (lastEvent_cons.trans (if_pos rfl))
    · rcases hevent with ⟨applying', happlying', hmem⟩ | hold
      · obtain rfl := Option.some.inj (h.symm.trans happlying')
        rw [hcurrent, List.mem_cons] at hmem
        refine .inl ⟨_, rfl, hmem.resolve_left (fun heq => hid ?_)⟩
        rw [heq]
      · refine .inr ?_
        change lastEvent (.current first.packageID first.sha256 :: w.events) pkg.packageID = _
        rw [lastEvent_cons]
        exact (if_neg hid).trans hold
  · obtain ⟨hnone, hpruned⟩ := hw.others id hid
    refine ⟨hnone, hpruned.imp_right (fun hmem => ?_)⟩
    rwa [toPrune, h] at hmem
  · have hid : first.packageID ≠ other.pkg.packageID := by
      intro hid
      obtain ⟨handle, hhandle, -⟩ := hc.live k other hk hother
      rw [← hid, hfirstnone] at hhandle
      cases hhandle
    change lastEvent (.current first.packageID first.sha256 :: w.events) other.pkg.packageID = _
    rw [lastEvent_cons]
    exact (if_neg hid).trans (hw.announced k other hk hother hstage)
  · intro applying' h' pkg hpkg
    cases h'
    exact hw.current applying h pkg (hcurrent ▸ List.mem_cons_of_mem first hpkg)
  · intro applying' h'
    cases h'
    exact ⟨hprune, hwithin⟩

/-- The pruning goes on while the packages to announce and to prune stay. -/
theorem want_pruning {pruning : Pruning} (hw : Want w) (h : w.applying = some applying)
    (hwithin : Pruning.within applying.prune pruning)
    (hsame : ∀ pkg ∈ w.last.pkgs, ∀ state, w.packages.lookup pkg.packageID = some state →
      SameAt w.files g (localName pkg.packageID state.filename)) :
    Want (({ w with files := g } : World).setApplying (some { applying with pruning := pruning })) := by
  refine ⟨hw.handle, fun pkg hpkg hnone => ?_, fun id hid => ?_, hw.announced, ?_, ?_⟩
  · obtain ⟨hsettled, hevent⟩ := hw.settled pkg hpkg hnone
    refine ⟨hsettled.frame (hsame pkg hpkg), hevent.imp_left ?_⟩
    rintro ⟨applying', happlying', hmem⟩
    obtain rfl := Option.some.inj (h.symm.trans happlying')
    exact ⟨_, rfl, hmem⟩
  · obtain ⟨hnone, hpruned⟩ := hw.others id hid
    refine ⟨hnone, hpruned.imp_right (fun hmem => ?_)⟩
    rwa [toPrune, h] at hmem
  · intro applying' h' pkg hpkg
    cases h'
    exact hw.current applying h pkg hpkg
  · intro applying' h'
    cases h'
    exact ⟨(hw.prune applying h).1, hwithin⟩

theorem want_forget (hw : Want w) (h : w.applying = some applying) (hid : id ∉ w.last.ids) :
    Want (({ w with packages := w.packages.erase id } : World).setApplying (some { applying with
      prune := applying.prune.filter (fun other => decide (other ≠ id)), pruning := .idle })) := by
  refine ⟨hw.handle, fun pkg hpkg hnone => ?_, fun id' hid' => ?_, hw.announced, ?_, ?_⟩
  · obtain ⟨⟨state, i, hstate, hrest⟩, hevent⟩ := hw.settled pkg hpkg hnone
    have hne : pkg.packageID ≠ id := fun heq => hid (heq ▸ List.mem_map_of_mem hpkg)
    refine ⟨⟨state, i, (AList.lookup_erase_ne hne).trans hstate, hrest⟩, hevent.imp_left ?_⟩
    rintro ⟨applying', happlying', hmem⟩
    obtain rfl := Option.some.inj (h.symm.trans happlying')
    exact ⟨_, rfl, hmem⟩
  · obtain ⟨hnone, hpruned⟩ := hw.others id' hid'
    refine ⟨hnone, ?_⟩
    by_cases hsame : id' = id
    · exact .inl (hsame ▸ AList.lookup_erase id w.packages)
    · refine hpruned.imp (AList.lookup_erase_ne hsame).trans (fun hmem => ?_)
      rw [toPrune, h] at hmem
      exact List.mem_filter.mpr ⟨hmem, decide_eq_true hsame⟩
  · intro applying' h' pkg hpkg
    cases h'
    exact hw.current applying h pkg hpkg
  · intro applying' h'
    cases h'
    exact ⟨fun id' hid' => (hw.prune applying h).1 id' (List.mem_filter.mp hid').1, trivial⟩

theorem want_applied (hw : Want w) (h : w.applying = some applying) (hcurrent : applying.current = [])
    (hprune : applying.prune = []) : Want (w.setApplying none) := by
  refine ⟨hw.handle, fun pkg hpkg hnone => ?_, fun id hid => ?_, hw.announced, nofun, nofun⟩
  · obtain ⟨hsettled, hevent⟩ := hw.settled pkg hpkg hnone
    refine ⟨hsettled, .inr (hevent.resolve_left ?_)⟩
    rintro ⟨applying', happlying', hmem⟩
    obtain rfl := Option.some.inj (h.symm.trans happlying')
    rw [hcurrent] at hmem
    cases hmem
  · obtain ⟨hnone, hpruned⟩ := hw.others id hid
    rw [toPrune, h] at hpruned
    refine ⟨hnone, .inl (hpruned.resolve_right (fun hmem => ?_))⟩
    change id ∈ applying.prune at hmem
    rw [hprune] at hmem
    cases hmem

/-- A step of `applyDesiredSet` after its section keeps both invariants. -/
theorem inv_stepApplying (hc : Core hash w) (hw : Want w) (h : w.applying = some applying) (e : Event) :
    Core hash (stepApplying w applying e) ∧ Want (stepApplying w applying e) := by
  obtain ⟨hprune, hwithin⟩ := hw.prune applying h
  unfold stepApplying
  split
  · split
    · rename_i hcurrent
      exact ⟨core_congr hc rfl rfl rfl rfl, want_announce hc hw h hcurrent⟩
    · exact ⟨hc, hw⟩
  · split_ifs with hguard
    · have hkeep : ∀ {pruning}, Pruning.within applying.prune pruning →
          Core hash (w.setApplying (some { applying with pruning := pruning })) ∧
            Want (w.setApplying (some { applying with pruning := pruning })) := fun hin =>
        ⟨core_congr hc rfl rfl rfl rfl, want_pruning (g := w.files) hw h hin (fun _ _ _ _ => sameAt_refl w.files _)⟩
      split
      · exact hkeep hguard.2.2
      · exact hkeep hguard.2.2
    · exact ⟨hc, hw⟩
  · split
    · rename_i id filename hpruning
      rw [hpruning] at hwithin
      have hid := hprune id hwithin
      refine ⟨core_congr (core_unlink_file hc (hw.others id hid).1) rfl rfl rfl rfl,
        want_pruning hw h hwithin (fun pkg hpkg state _ => sameAt_unlink (localName_ne (fun heq => hid ?_)))⟩
      exact heq ▸ List.mem_map_of_mem hpkg
    · exact ⟨hc, hw⟩
  · split
    · rename_i id hpruning
      rw [hpruning] at hwithin
      have hid := hprune id hwithin
      exact ⟨core_congr (core_forget hc (hw.others id hid).1) rfl rfl rfl rfl, want_forget hw h hid⟩
    · exact ⟨hc, hw⟩
  · split_ifs with hguard
    · exact ⟨core_congr hc rfl rfl rfl rfl, want_applied hw h hguard.1 hguard.2⟩
    · exact ⟨hc, hw⟩
  · exact ⟨hc, hw⟩

end Applying

/-- A session begins with the mirror of the data directory, whose records were verified. -/
structure Begins (hash : List UInt8 → String) (w : World) : Prop where
  jobs : w.jobs = .empty
  handles : w.handles = ∅
  applying : w.applying = none
  sound : ∀ id state, w.packages.lookup id = some state → Sound hash w.files id state

/-- The last set was applied and none of its jobs runs. -/
def Quiescent (w : World) : Prop :=
  w.applying = none ∧ ∀ j ∈ w.jobs.ids, ∀ job ∈ w.jobs.row j, ¬ job.Live

instance (w : World) : Decidable (Quiescent w) := inferInstanceAs (Decidable (_ ∧ _))

/-- The mirror holds the last set and nothing else, in files with the recorded bytes, and
the last event of each package says so. -/
structure Converged (hash : List UInt8 → String) (w : World) : Prop where
  held : ∀ pkg ∈ w.last.pkgs, ∃ state i, w.packages.lookup pkg.packageID = some state ∧
    state.sha256 = pkg.sha256 ∧ state.sizeBytes = pkg.sizeBytes ∧
    w.files.inode (localName pkg.packageID state.filename) = some i ∧
    ((w.files.content i).length : Int) = state.sizeBytes ∧ hash (w.files.content i) = state.sha256
  only : ∀ id, id ∉ w.last.ids → w.packages.lookup id = none
  announced : ∀ pkg ∈ w.last.pkgs, Announced w pkg

theorem core_begins (h : Begins hash w) : Core hash w := by
  have hrow : ∀ k other, w.jobs.row k ≠ some other := by
    intro k other hk
    rw [h.jobs] at hk
    cases hk
  refine ⟨fun id handle hhandle => ?_, fun j job hj => absurd hj (hrow j job),
    fun j job hj => absurd hj (hrow j job), fun j job _ _ hj => absurd hj (hrow j job),
    fun j job _ hj => absurd hj (hrow j job), fun j job hj => absurd hj (hrow j job),
    fun j job _ _ hj => absurd hj (hrow j job), fun id state hstate => .inl (h.sound id state hstate)⟩
  rw [h.handles] at hhandle
  cases hhandle

theorem inv_desired {set : DesiredSet} (hc : Core hash w)
    (hannounced : ∀ j job, w.jobs.row j = some job → job.Live → job.stage = .finishing → Announced w job.pkg)
    (hmeets : Meets hash w (.desired set)) (happlying : w.applying = none) :
    Core hash (applyDesiredSet w set) ∧ Want (applyDesiredSet w set) := by
  obtain ⟨hwindow, hfits⟩ := hmeets happlying
  have hids : ∀ {j job}, w.jobs.row j = some job → j ∈ w.jobs.ids :=
    fun hj => Table.mem_ids.mpr (by rw [hj]; rfl)
  exact want_desired hc hannounced (fun j job hj hin => hwindow j (hids hj) job hj hin) (fun pkg hpkg => {
    jobs := fun k other hk hactive hid => (hfits pkg hpkg).1 k (hids hk) other hk hactive hid
    state := fun state hstate => (hfits pkg hpkg).2 state hstate })

theorem inv_step (concurrency : Nat) (hinv : Core hash w ∧ Want w) (e : Event) (hmeets : Meets hash w e) :
    Core hash (step hash concurrency w e) ∧ Want (step hash concurrency w e) := by
  obtain ⟨hc, hw⟩ := hinv
  unfold step
  split
  · rename_i j a
    cases hrow : w.jobs.row j with
    | none => exact ⟨hc, hw⟩
    | some job =>
      have hharmless := hmeets job hrow
      exact ⟨core_stepJob concurrency hc hrow a hharmless, want_stepJob concurrency hc hw hrow a hharmless⟩
  · split_ifs with happlying
    · exact inv_desired hc hw.announced hmeets happlying
    · exact ⟨hc, hw⟩
  · cases happlying : w.applying with
    | none => exact ⟨hc, hw⟩
    | some applying => exact inv_stepApplying hc hw happlying e

theorem inv_run (concurrency : Nat) {first : DesiredSet} {es : List Event} (hbegins : Begins hash w)
    (hmeets : Along (step hash concurrency) (Meets hash) w (.desired first :: es)) :
    Core hash (exec (step hash concurrency) w (.desired first :: es)) ∧
      Want (exec (step hash concurrency) w (.desired first :: es)) := by
  obtain ⟨hfirst, hrest⟩ := hmeets
  rw [Runs.exec_cons]
  refine Runs.exec_invariant_along (P := fun w => Core hash w ∧ Want w)
    (fun s e hinv he => inv_step concurrency hinv e he) ?_ hrest
  change Core hash (if w.applying = none then _ else _) ∧ Want (if w.applying = none then _ else _)
  rw [if_pos hbegins.applying]
  refine inv_desired (core_begins hbegins) (fun j job hj => ?_) hfirst hbegins.applying
  rw [hbegins.jobs] at hj
  cases hj

theorem converged_of_inv (hc : Core hash w) (hw : Want w) (hquiet : Quiescent w) : Converged hash w := by
  have hnone : ∀ id, w.handles.lookup id = none := by
    intro id
    cases hhandle : w.handles.lookup id with
    | none => rfl
    | some handle =>
      obtain ⟨job, hjob, hlive, -⟩ := hc.handle id handle hhandle
      exact absurd hlive (hquiet.2 _ (Table.mem_ids.mpr (by rw [hjob]; rfl)) job hjob)
  refine ⟨fun pkg hpkg => ?_, fun id hid => ?_, fun pkg hpkg => ?_⟩
  · obtain ⟨⟨state, i, hstate, hsha, hsize, hlink, hlength⟩, -⟩ := hw.settled pkg hpkg (hnone _)
    have hsound := (hc.sound _ state hstate).resolve_right (by
      rintro ⟨handle, -, -, hhandle, -⟩
      rw [hnone] at hhandle
      cases hhandle)
    exact ⟨state, i, hstate, hsha, hsize, hlink, hlength.trans hsize.symm, hsound i hlink (hlength.trans hsize.symm)⟩
  · refine (hw.others id hid).2.resolve_right (fun hmem => ?_)
    rw [toPrune, hquiet.1] at hmem
    cases hmem
  · refine (hw.settled pkg hpkg (hnone _)).2.resolve_left ?_
    rintro ⟨applying, happlying, -⟩
    rw [hquiet.1] at happlying
    cases happlying

/-- Along every run whose steps meet the condition a package has one job at most, and once
the last set is applied and its jobs have ended the mirror has converged to it. -/
theorem mirror_converges (hash : List UInt8 → String) (concurrency : Nat) (w : World) (hbegins : Begins hash w)
    (first : DesiredSet) (es : List Event)
    (hmeets : Along (step hash concurrency) (Meets hash) w (.desired first :: es)) :
    let w' := exec (step hash concurrency) w (.desired first :: es)
    (∀ j k job other, w'.jobs.row j = some job → w'.jobs.row k = some other → job.Live → other.Live →
      job.pkg.packageID = other.pkg.packageID → j = k) ∧ (Quiescent w' → Converged hash w') := by
  obtain ⟨hc, hw⟩ := inv_run concurrency hbegins hmeets
  exact ⟨fun j k job other hj hk hlive hlive' hid => hc.unique hj hk hlive hlive' hid, converged_of_inv hc hw⟩

/-- Only one content has the digest of the package. -/
def sampleHash (content : List UInt8) : String := if content = [97] then "hash" else "other"

def samplePackage : DesiredPackage where
  packageID := 1
  filename := "a.pkg".toList
  sha256 := "hash"
  sizeBytes := 1

def sampleSet : DesiredSet where
  pkgs := [samplePackage]

/-- The steps of a job up to its verification. -/
def fetched (j : Int) : List Event :=
  [.job j .next, .job j .next, .job j .next, .job j .next, .job j .next, .job j (.write [97]), .job j .next,
    .job j .next, .job j .next, .job j (.read 1), .job j .next]

/-- The steps of a set that does not want the package. -/
def dropped : List Event := [.desired {}, .prune 1, .forget, .applied]

/-- Rename, record, release of the slot and event. -/
def mirrored (j : Int) : List Event := [.job j .next, .job j .next, .job j .next, .job j .next, .job j .next]

/-- A download is given up when the package is dropped, and the package is wanted again. -/
def givenUp : List Event :=
  [.applied, .job 1 .next, .job 1 .next, .job 1 .next, .job 1 .next, .job 1 .next] ++ dropped ++
    [.job 1 .fail, .job 1 .next, .job 1 .next, .job 1 .skip, .job 1 .next, .desired sampleSet, .applied] ++
    fetched 2 ++ mirrored 2

theorem mirror_converges_given_up :
    Converged sampleHash (exec (step sampleHash 2) {} (.desired sampleSet :: givenUp)) :=
  (mirror_converges sampleHash 2 {} ⟨rfl, rfl, rfl, nofun⟩ sampleSet givenUp (by decide)).2
    (by decide)

/-- A job that was cancelled between its verification and its record puts the package back
into the mirror after it was pruned. -/
theorem cancelled_job_restores_package :
    let w' := exec (step sampleHash 2) {}
      (.desired sampleSet :: .applied :: fetched 1 ++ dropped ++ mirrored 1)
    Quiescent w' ∧ 1 ∉ w'.last.ids ∧
      w'.packages.lookup 1 = some { filename := "a.pkg".toList, sha256 := "hash", sizeBytes := 1 } ∧
      ¬ Converged sampleHash w' := by
  intro w'
  have hstate : w'.packages.lookup 1 =
      some { filename := "a.pkg".toList, sha256 := "hash", sizeBytes := 1 } := by decide
  have hid : 1 ∉ w'.last.ids := by decide
  refine ⟨by decide, hid, hstate, fun hconverged => ?_⟩
  rw [hconverged.only 1 hid] at hstate
  cases hstate

end MirrorConvergence
