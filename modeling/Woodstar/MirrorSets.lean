import Woodstar.MirrorFiles

/-!
# A desired set and the jobs of a mirror

`applyDesiredSet` cancels and starts jobs package by package. A package of the set is
mirrored already or has a job for its bytes, and no other package has a job.
-/
namespace MirrorSets

open InodeFiles KeyedRows MirrorJobs MirrorFiles

variable {hash : List UInt8 → String} {w w' : World} {j k : Int} {job other : Job} {pkg : DesiredPackage}
  {id id' : Int}

theorem handles_cancelJob : (cancelJob w id).handles.lookup id' =
    if id' = id then none else w.handles.lookup id' := by
  unfold cancelJob
  cases hhandle : w.handles.lookup id with
  | none =>
    by_cases hid : id' = id
    · rw [if_pos hid, hid, hhandle]
    · rw [if_neg hid]
  | some handle =>
    by_cases hid : id' = id
    · rw [if_pos hid, hid]
      exact AList.lookup_erase id w.handles
    · rw [if_neg hid]
      exact AList.lookup_erase_ne hid

/-- What stays of the jobs and of everything else when jobs are cancelled and started. -/
structure Restart (pkgs : List DesiredPackage) (w w' : World) : Prop where
  files : w'.files = w.files
  packages : w'.packages = w.packages
  events : w'.events = w.events
  rows : ∀ k job', w'.jobs.row k = some job' →
    (∃ job, w.jobs.row k = some job ∧ (job' = job ∨ job' = job.cancel)) ∨
      job'.stage = .syncing ∧ job'.pkg ∈ pkgs

theorem restart_refl (pkgs : List DesiredPackage) (w : World) : Restart pkgs w w :=
  ⟨rfl, rfl, rfl, fun _ job h => .inl ⟨job, h, .inl rfl⟩⟩

theorem Restart.trans {pkgs pkgs' : List DesiredPackage} {w'' : World} (h : Restart pkgs w w')
    (h' : Restart pkgs' w' w'') : Restart (pkgs ++ pkgs') w w'' := by
  refine ⟨h'.files.trans h.files, h'.packages.trans h.packages, h'.events.trans h.events, ?_⟩
  intro k job'' hjob''
  rcases h'.rows k job'' hjob'' with ⟨job', hjob', heq⟩ | ⟨hstage, hpkg⟩
  · rcases h.rows k job' hjob' with ⟨job, hjob, heq'⟩ | ⟨hstage, hpkg⟩
    · refine .inl ⟨job, hjob, ?_⟩
      rcases heq with rfl | rfl
      · exact heq'
      · rcases heq' with rfl | rfl <;> exact .inr rfl
    · refine .inr ?_
      rcases heq with rfl | rfl
      · exact ⟨hstage, List.mem_append_left _ hpkg⟩
      · exact ⟨hstage, List.mem_append_left _ hpkg⟩
  · exact .inr ⟨hstage, List.mem_append_right _ hpkg⟩

theorem restart_cancelJob (pkgs : List DesiredPackage) (w : World) (id : Int) :
    Restart pkgs w (cancelJob w id) := by
  unfold cancelJob
  cases w.handles.lookup id with
  | none => exact restart_refl pkgs w
  | some handle =>
    refine ⟨rfl, rfl, rfl, fun k job' hjob' => .inl ?_⟩
    rw [Table.row_modify] at hjob'
    split_ifs at hjob'
    · obtain ⟨job, hjob, rfl⟩ := Option.map_eq_some_iff.mp hjob'
      exact ⟨job, hjob, .inr rfl⟩
    · exact ⟨job', hjob', .inl rfl⟩

/-- A job is cancelled that is not between its verification and its record. -/
theorem core_cancelJob (hc : Core hash w)
    (hwindow : ∀ handle job, w.handles.lookup id = some handle → w.jobs.row handle.job = some job →
      job.stage.inWindow = false) : Core hash (cancelJob w id) := by
  have hhandles := fun id' => @handles_cancelJob w id id'
  have hrestart := restart_cancelJob [] w id
  cases hhandle : w.handles.lookup id with
  | none =>
    have hsame : cancelJob w id = w := by rw [cancelJob, hhandle]
    rw [hsame]
    exact hc
  | some handle =>
    obtain ⟨job, hjob, hlive, hid, hsame⟩ := hc.handle id handle hhandle
    have hself : (cancelJob w id).jobs.row handle.job = some job.cancel := by
      rw [cancelJob, hhandle]
      rw [Table.row_modify, if_pos rfl, hjob]
      rfl
    have hrow : ∀ k, k ≠ handle.job → (cancelJob w id).jobs.row k = w.jobs.row k := by
      intro k hk
      rw [cancelJob, hhandle]
      rw [Table.row_modify, if_neg hk]
    have hkept : ∀ k other, (cancelJob w id).jobs.row k = some other → other.Live →
        k ≠ handle.job ∧ w.jobs.row k = some other := by
      intro k other hk hother
      have hne : k ≠ handle.job := by
        rintro rfl
        rw [hself] at hk
        obtain rfl := Option.some.inj hk
        exact nomatch hother.1
      exact ⟨hne, (hrow k hne).symm.trans hk⟩
    have hstages : ∀ k other, (cancelJob w id).jobs.row k = some other →
        ∃ old, w.jobs.row k = some old ∧ other.pkg = old.pkg ∧ other.stage = old.stage := by
      intro k other hk
      rcases hrestart.rows k other hk with ⟨old, hold, rfl | rfl⟩ | ⟨-, hnone⟩
      · exact ⟨other, hold, rfl, rfl⟩
      · exact ⟨old, hold, rfl, rfl⟩
      · cases hnone
    refine ⟨?_, ?_, ?_, ?_, ?_, ?_, ?_, ?_⟩
    · intro id' handle' hhandle'
      rw [hhandles] at hhandle'
      split_ifs at hhandle' with hne
      obtain ⟨other, hother, hlive', hid', hsame'⟩ := hc.handle id' handle' hhandle'
      refine ⟨other, (hrow _ (fun heq => hne ?_)).trans hother, hlive', hid', hsame'⟩
      rw [heq, hjob] at hother
      obtain rfl := Option.some.inj hother
      exact hid'.symm.trans hid
    · intro k other hk hother
      obtain ⟨hne, hold⟩ := hkept k other hk hother
      obtain ⟨handle', hhandle', rfl⟩ := hc.live k other hold hother
      refine ⟨handle', ?_, rfl⟩
      rw [hhandles, if_neg (fun heq => hne ?_), hhandle']
      rw [heq, hhandle] at hhandle'
      rw [Option.some.inj hhandle']
    · intro k other hk hcancelled
      by_cases hne : k = handle.job
      · rw [hne, hself] at hk
        obtain rfl := Option.some.inj hk
        exact hwindow handle job hhandle hjob
      · exact hc.window k other ((hrow k hne).symm.trans hk) hcancelled
    · intro k other k' other' hk hk' hactive hactive' hsameID
      obtain ⟨old, hold, hpkg, hstage⟩ := hstages k other hk
      obtain ⟨old', hold', hpkg', hstage'⟩ := hstages k' other' hk'
      rw [Job.tempName, Job.localName, hpkg, hpkg']
      rw [hpkg, hpkg'] at hsameID
      exact hc.names k old k' old' hold hold' (hstage ▸ hactive) (hstage' ▸ hactive') hsameID
    · intro k other state hk hactive hstate
      obtain ⟨old, hold, hpkg, hstage⟩ := hstages k other hk
      rw [hrestart.packages, hpkg] at hstate
      rw [Job.tempName, hpkg]
      exact hc.states k old state hold (hstage ▸ hactive) hstate
    · intro k other hk hother
      rw [hrestart.files, hrestart.packages]
      exact hc.stage k other (hkept k other hk hother).2 hother
    · intro k other k' other' hk hk' hother hother'
      exact hc.apart k other k' other' (hkept k other hk hother).2 (hkept k' other' hk' hother').2
        hother hother'
    · intro id' state hstate
      rw [hrestart.packages] at hstate
      rw [hrestart.files]
      refine (hc.sound id' state hstate).imp_right ?_
      rintro ⟨handle', other, i, hhandle', hother, hstage, hname⟩
      have hne : id' ≠ id := by
        rintro rfl
        have hout := hwindow handle' other hhandle' hother
        rw [hstage] at hout
        cases hout
      refine ⟨handle', other, i, ?_, (hrow _ (fun heq => hne ?_)).trans hother, hstage, hname⟩
      · rw [hhandles, if_neg hne, hhandle']
      · obtain ⟨other', hother', -, hid', -⟩ := hc.handle id' handle' hhandle'
        rw [heq, hjob] at hother'
        obtain rfl := Option.some.inj hother'
        exact hid'.symm.trans hid

theorem handles_startJob : (startJob w pkg).handles.lookup id =
    if id = pkg.packageID then some { job := w.jobs.next, sha := pkg.sha256, size := pkg.sizeBytes }
    else w.handles.lookup id := by
  by_cases hid : id = pkg.packageID
  · rw [if_pos hid, hid]
    exact AList.lookup_insert w.handles
  · rw [if_neg hid]
    exact AList.lookup_insert_ne hid

theorem row_startJob : (startJob w pkg).jobs.row k =
    if k = w.jobs.next then some { pkg := pkg } else w.jobs.row k := Table.row_insert

theorem row_next (w : World) : w.jobs.row w.jobs.next = none := by
  rw [← Option.not_isSome_iff_eq_none]
  intro h
  have := (w.jobs.numbered _ h).2
  rw [Table.next] at this
  omega

theorem restart_startJob (w : World) (pkg : DesiredPackage) : Restart [pkg] w (startJob w pkg) := by
  refine ⟨rfl, rfl, rfl, fun k job' hjob' => ?_⟩
  rw [row_startJob] at hjob'
  split_ifs at hjob'
  · obtain rfl := Option.some.inj hjob'
    exact .inr ⟨rfl, List.mem_singleton_self pkg⟩
  · exact .inl ⟨job', hjob', .inl rfl⟩

/-- The filename goes with those in use for the package. -/
structure Fits (w : World) (pkg : DesiredPackage) : Prop where
  jobs : ∀ k other, w.jobs.row k = some other → other.stage ≠ .ended →
    other.pkg.packageID = pkg.packageID → Apart pkg.packageID pkg.filename other.pkg.filename
  state : ∀ state, w.packages.lookup pkg.packageID = some state →
    Apart pkg.packageID pkg.filename state.filename

theorem core_startJob (hc : Core hash w) (hnone : w.handles.lookup pkg.packageID = none) (hfits : Fits w pkg) :
    Core hash (startJob w pkg) := by
  have hcases : ∀ k other, (startJob w pkg).jobs.row k = some other →
      k = w.jobs.next ∧ other = { pkg := pkg } ∨ k ≠ w.jobs.next ∧ w.jobs.row k = some other := by
    intro k other hk
    rw [row_startJob] at hk
    split_ifs at hk with hnext
    · exact .inl ⟨hnext, (Option.some.inj hk).symm⟩
    · exact .inr ⟨hnext, hk⟩
  have hrow : ∀ k other, w.jobs.row k = some other → (startJob w pkg).jobs.row k = some other := by
    intro k other hk
    rw [row_startJob, if_neg, hk]
    rintro rfl
    rw [row_next] at hk
    cases hk
  refine ⟨?_, ?_, ?_, ?_, ?_, ?_, ?_, ?_⟩
  · intro id handle hhandle
    rw [handles_startJob] at hhandle
    split_ifs at hhandle with hid
    · obtain rfl := Option.some.inj hhandle
      refine ⟨{ pkg := pkg }, ?_, ⟨rfl, nofun⟩, hid.symm, rfl, rfl⟩
      rw [row_startJob, if_pos rfl]
    · obtain ⟨other, hother, hrest⟩ := hc.handle id handle hhandle
      exact ⟨other, hrow _ other hother, hrest⟩
  · intro k other hk hother
    rcases hcases k other hk with ⟨rfl, rfl⟩ | ⟨-, hold⟩
    · refine ⟨{ job := w.jobs.next, sha := pkg.sha256, size := pkg.sizeBytes }, ?_, rfl⟩
      rw [handles_startJob, if_pos rfl]
    · obtain ⟨handle, hhandle, hjob⟩ := hc.live k other hold hother
      refine ⟨handle, ?_, hjob⟩
      rw [handles_startJob, if_neg, hhandle]
      intro hid
      rw [hid, hnone] at hhandle
      cases hhandle
  · intro k other hk hcancelled
    rcases hcases k other hk with ⟨-, rfl⟩ | ⟨-, hold⟩
    · rfl
    · exact hc.window k other hold hcancelled
  · intro k other k' other' hk hk' hactive hactive' hid
    rcases hcases k other hk with ⟨-, rfl⟩ | ⟨-, hold⟩
    · rcases hcases k' other' hk' with ⟨-, rfl⟩ | ⟨-, hold'⟩
      · exact tempName_ne_self
      · have hapart := (hfits.jobs k' other' hold' hactive' hid.symm).1
        rw [Job.localName, ← hid]
        exact hapart
    · rcases hcases k' other' hk' with ⟨-, rfl⟩ | ⟨-, hold'⟩
      · have hapart := (hfits.jobs k other hold hactive hid).2
        rw [Job.tempName, hid]
        exact hapart
      · exact hc.names k other k' other' hold hold' hactive hactive' hid
  · intro k other state hk hactive hstate
    rcases hcases k other hk with ⟨-, rfl⟩ | ⟨-, hold⟩
    · exact (hfits.state state hstate).1
    · exact hc.states k other state hold hactive hstate
  · intro k other hk hother
    rcases hcases k other hk with ⟨-, rfl⟩ | ⟨-, hold⟩
    · trivial
    · exact hc.stage k other hold hother
  · intro k other k' other' hk hk' hother hother' hne i hi hi'
    rcases hcases k other hk with ⟨-, rfl⟩ | ⟨-, hold⟩
    · cases hi
    · rcases hcases k' other' hk' with ⟨-, rfl⟩ | ⟨-, hold'⟩
      · cases hi'
      · exact hc.apart k other k' other' hold hold' hother hother' hne i hi hi'
  · intro id state hstate
    refine (hc.sound id state hstate).imp_right ?_
    rintro ⟨handle, other, i, hhandle, hother, hstage, hname⟩
    refine ⟨handle, other, i, ?_, hrow _ other hother, hstage, hname⟩
    rw [handles_startJob, if_neg, hhandle]
    rintro rfl
    rw [hnone] at hhandle
    cases hhandle

/-- A job with other bytes may be cancelled for the package. -/
structure Startable (w : World) (pkg : DesiredPackage) : Prop extends Fits w pkg where
  window : ∀ handle job, w.handles.lookup pkg.packageID = some handle → w.jobs.row handle.job = some job →
    job.stage.inWindow = true → handle.sha = pkg.sha256 ∧ handle.size = pkg.sizeBytes

theorem Fits.restart {pkgs : List DesiredPackage} (h : Fits w pkg) (hr : Restart pkgs w w')
    (hnew : ∀ other ∈ pkgs, other.packageID ≠ pkg.packageID) : Fits w' pkg := by
  refine ⟨fun k other hk hactive hid => ?_, fun state hstate => ?_⟩
  · rcases hr.rows k other hk with ⟨old, hold, rfl | rfl⟩ | ⟨-, hpkg⟩
    · exact h.jobs k other hold hactive hid
    · exact h.jobs k old hold hactive hid
    · exact absurd hid (hnew other.pkg hpkg)
  · rw [hr.packages] at hstate
    exact h.state state hstate

theorem Startable.restart {pkgs : List DesiredPackage} (h : Startable w pkg) (hr : Restart pkgs w w')
    (hnew : ∀ other ∈ pkgs, other.packageID ≠ pkg.packageID)
    (hhandles : w'.handles.lookup pkg.packageID = w.handles.lookup pkg.packageID) : Startable w' pkg := by
  refine { h.toFits.restart hr hnew with window := fun handle job hhandle hjob hwindow => ?_ }
  rw [hhandles] at hhandle
  rcases hr.rows _ job hjob with ⟨old, hold, rfl | rfl⟩ | ⟨hstage, -⟩
  · exact h.window handle job hhandle hold hwindow
  · exact h.window handle old hhandle hold hwindow
  · rw [hstage] at hwindow
    cases hwindow

/-- What `ensureJobLocked` leaves for the package and for the others. -/
theorem ensureJob_spec (hc : Core hash w) (hs : Startable w pkg) :
    Core hash (ensureJob w pkg) ∧ Restart [pkg] w (ensureJob w pkg) ∧
      (∃ handle, (ensureJob w pkg).handles.lookup pkg.packageID = some handle ∧
        handle.sha = pkg.sha256 ∧ handle.size = pkg.sizeBytes) ∧
      ∀ id, id ≠ pkg.packageID → (ensureJob w pkg).handles.lookup id = w.handles.lookup id := by
  have hstarted : ∀ {v : World}, Core hash v → v.handles.lookup pkg.packageID = none → Fits v pkg →
      Core hash (startJob v pkg) ∧
        (∃ handle, (startJob v pkg).handles.lookup pkg.packageID = some handle ∧
          handle.sha = pkg.sha256 ∧ handle.size = pkg.sizeBytes) ∧
        ∀ id, id ≠ pkg.packageID → (startJob v pkg).handles.lookup id = v.handles.lookup id := by
    intro v hv hnone hfits
    refine ⟨core_startJob hv hnone hfits, ⟨_, by rw [handles_startJob, if_pos rfl], rfl, rfl⟩, ?_⟩
    intro id hid
    rw [handles_startJob, if_neg hid]
  unfold ensureJob
  cases hhandle : w.handles.lookup pkg.packageID with
  | none =>
    obtain ⟨hcore, hown, hothers⟩ := hstarted hc hhandle hs.toFits
    exact ⟨hcore, restart_startJob w pkg, hown, hothers⟩
  | some handle =>
    by_cases hsame : handle.sha = pkg.sha256 ∧ handle.size = pkg.sizeBytes
    · simp only [if_pos hsame]
      exact ⟨hc, restart_refl [pkg] w, ⟨handle, hhandle, hsame⟩, fun _ _ => trivial⟩
    · simp only [if_neg hsame]
      have hrestart := restart_cancelJob [] w pkg.packageID
      have hcancelled : Core hash (cancelJob w pkg.packageID) := by
        refine core_cancelJob hc (fun handle' job hhandle' hjob => ?_)
        obtain rfl := Option.some.inj (hhandle.symm.trans hhandle')
        by_contra hwindow
        exact hsame (hs.window handle job hhandle hjob (Bool.not_eq_false _ ▸ hwindow))
      have hnone : (cancelJob w pkg.packageID).handles.lookup pkg.packageID = none := by
        rw [handles_cancelJob, if_pos rfl]
      obtain ⟨hcore, hown, hothers⟩ := hstarted hcancelled hnone (hs.toFits.restart hrestart nofun)
      refine ⟨hcore, hrestart.trans (restart_startJob _ pkg), hown, fun id hid => ?_⟩
      rw [hothers id hid, handles_cancelJob, if_neg hid]

theorem ensureAll_spec {start : List DesiredPackage} (hc : Core hash w)
    (hdistinct : (start.map DesiredPackage.packageID).Nodup) (hs : ∀ pkg ∈ start, Startable w pkg) :
    Core hash (start.foldl ensureJob w) ∧ Restart start w (start.foldl ensureJob w) ∧
      (∀ pkg ∈ start, ∃ handle, (start.foldl ensureJob w).handles.lookup pkg.packageID = some handle ∧
        handle.sha = pkg.sha256 ∧ handle.size = pkg.sizeBytes) ∧
      ∀ id, id ∉ start.map DesiredPackage.packageID →
        (start.foldl ensureJob w).handles.lookup id = w.handles.lookup id := by
  induction start generalizing w with
  | nil => exact ⟨hc, restart_refl [] w, nofun, fun _ _ => rfl⟩
  | cons first rest ih =>
    obtain ⟨hfirst, hrest⟩ := List.nodup_cons.mp hdistinct
    obtain ⟨hcore, hrestart, hown, hothers⟩ := ensureJob_spec hc (hs first List.mem_cons_self)
    have hnext : ∀ pkg ∈ rest, Startable (ensureJob w first) pkg := by
      intro pkg hpkg
      have hne : pkg.packageID ≠ first.packageID := fun heq =>
        hfirst (heq ▸ List.mem_map_of_mem hpkg)
      refine (hs pkg (List.mem_cons_of_mem first hpkg)).restart hrestart (fun other hother => ?_) (hothers _ hne)
      rw [List.mem_singleton.mp hother]
      exact hne.symm
    obtain ⟨hcore', hrestart', hown', hothers'⟩ := ih hcore hrest hnext
    refine ⟨hcore', hrestart.trans hrestart', ?_, fun id hid => ?_⟩
    · refine List.forall_mem_cons.mpr ⟨?_, hown'⟩
      rw [List.foldl_cons, hothers' _ hfirst]
      exact hown
    · rw [List.map_cons, List.mem_cons, not_or] at hid
      rw [List.foldl_cons, hothers' id hid.2, hothers id hid.1]

theorem cancelAll_spec {ids : List Int} (hc : Core hash w)
    (hwindow : ∀ id ∈ ids, ∀ handle job, w.handles.lookup id = some handle →
      w.jobs.row handle.job = some job → job.stage.inWindow = false) :
    Core hash (ids.foldl cancelJob w) ∧ Restart [] w (ids.foldl cancelJob w) ∧
      ∀ id, (ids.foldl cancelJob w).handles.lookup id = if id ∈ ids then none else w.handles.lookup id := by
  induction ids generalizing w with
  | nil => exact ⟨hc, restart_refl [] w, fun id => (if_neg List.not_mem_nil).symm⟩
  | cons first rest ih =>
    have hcore := core_cancelJob hc (hwindow first List.mem_cons_self)
    have hrestart := restart_cancelJob [] w first
    have hnext : ∀ id ∈ rest, ∀ handle job, (cancelJob w first).handles.lookup id = some handle →
        (cancelJob w first).jobs.row handle.job = some job → job.stage.inWindow = false := by
      intro id hid handle job hhandle hjob
      rw [handles_cancelJob] at hhandle
      split_ifs at hhandle
      rcases hrestart.rows _ job hjob with ⟨old, hold, rfl | rfl⟩ | ⟨-, hpkg⟩
      · exact hwindow id (List.mem_cons_of_mem first hid) handle job hhandle hold
      · exact hwindow id (List.mem_cons_of_mem first hid) handle old hhandle hold
      · cases hpkg
    obtain ⟨hcore', hrestart', hhandles⟩ := ih hcore hnext
    refine ⟨hcore', hrestart.trans hrestart', fun id => ?_⟩
    rw [List.foldl_cons, hhandles, handles_cancelJob]
    by_cases hrest : id ∈ rest
    · rw [if_pos hrest, if_pos (List.mem_cons_of_mem first hrest)]
    · by_cases hfirst : id = first
      · rw [if_neg hrest, if_pos hfirst, if_pos (hfirst ▸ List.mem_cons_self)]
      · rw [if_neg hrest, if_neg hfirst, if_neg]
        rw [List.mem_cons, not_or]
        exact ⟨hfirst, hrest⟩

def toPrune (w : World) : List Int := w.applying.elim [] Applying.prune

theorem DesiredSet.eq_of_id {set : DesiredSet} {pkg' : DesiredPackage} (h : pkg ∈ set.pkgs)
    (h' : pkg' ∈ set.pkgs) (hid : pkg.packageID = pkg'.packageID) : pkg = pkg' :=
  List.inj_on_of_nodup_map set.distinct h h' hid

section DesiredSets

variable {set : DesiredSet}

theorem satisfies_settled (h : satisfies w pkg.packageID pkg.sha256 pkg.sizeBytes = true) :
    Settled w.files w.packages pkg := by
  unfold satisfies at h
  split at h
  · cases h
  · rename_i state hstate
    rw [Bool.and_eq_true, decide_eq_true_eq] at h
    obtain ⟨⟨hsha, hsize⟩, hfile⟩ := h
    split at hfile
    · cases hfile
    · rename_i i hi
      exact ⟨state, i, hstate, hsha, hsize, hi, of_decide_eq_true hfile⟩

theorem mem_prunable {wanted : List Int} : id ∈ prunable w wanted ↔
    ((w.handles.lookup id).isSome ∨ (w.packages.lookup id).isSome) ∧ id ∉ wanted := by
  simp only [prunable, List.mem_dedup, List.mem_filter, List.mem_append, AList.lookup_isSome, AList.mem_keys,
    decide_eq_true_eq]

/-- A set is applied as its condition asks: the section keeps the invariant of the files and
leaves every wanted package mirrored or with a job. -/
theorem applyDesiredSet_spec (hc : Core hash w)
    (hwindow : ∀ j job, w.jobs.row j = some job → job.stage.inWindow = true → LeavesAlone w set job)
    (hfits : ∀ pkg ∈ set.pkgs, Fits w pkg) :
    let w' := applyDesiredSet w set
    Core hash w' ∧ Restart set.pkgs w w' ∧ w'.last = set ∧
      w'.applying = some {
        current := set.pkgs.filter (fun pkg => satisfies w pkg.packageID pkg.sha256 pkg.sizeBytes)
        prune := toPrune w' } ∧
      (∀ pkg ∈ set.pkgs, satisfies w pkg.packageID pkg.sha256 pkg.sizeBytes = true →
        w'.handles.lookup pkg.packageID = none) ∧
      (∀ pkg ∈ set.pkgs, satisfies w pkg.packageID pkg.sha256 pkg.sizeBytes = false →
        ∃ handle, w'.handles.lookup pkg.packageID = some handle ∧
          handle.sha = pkg.sha256 ∧ handle.size = pkg.sizeBytes) ∧
      (∀ id, id ∉ set.ids → w'.handles.lookup id = none) ∧
      ∀ id, id ∈ toPrune w' ↔ (w.handles.lookup id).isSome ∧ id ∉ set.ids ∨
        (w.packages.lookup id).isSome ∧ id ∉ set.ids := by
  intro w'
  have hkeeps : ∀ {v : World} {id : Int} {handle : JobHandle} {job : Job}, Restart [] w v →
      v.jobs.row handle.job = some job → w.handles.lookup id = some handle → job.stage.inWindow = true →
      ∃ pkg ∈ set.pkgs, pkg.packageID = id ∧ handle.sha = pkg.sha256 ∧ handle.size = pkg.sizeBytes ∧
        satisfies w pkg.packageID pkg.sha256 pkg.sizeBytes = false := by
    intro v id handle job hr hjob hhandle hin
    obtain ⟨old, hold, -, hid, hsha, hsize⟩ := hc.handle id handle hhandle
    have hstage : old.stage.inWindow = true := by
      rcases hr.rows _ job hjob with ⟨old', hold', rfl | rfl⟩ | ⟨-, hpkg⟩
      · rwa [Option.some.inj (hold.symm.trans hold')]
      · rwa [Option.some.inj (hold.symm.trans hold')]
      · cases hpkg
    obtain ⟨pkg, hpkg, hpkgid, hpkgsha, hpkgsize, hunsatisfied⟩ := hwindow _ old hold hstage
    exact ⟨pkg, hpkg, hpkgid.trans hid, hsha.trans hpkgsha.symm, hsize.trans hpkgsize.symm, hunsatisfied⟩
  let holds := fun pkg : DesiredPackage => satisfies w pkg.packageID pkg.sha256 pkg.sizeBytes
  let current := set.pkgs.filter holds
  let start := set.pkgs.filter (fun pkg => !holds pkg)
  let kept := (current.map DesiredPackage.packageID).foldl cancelJob w
  let pruned := (prunable kept set.ids).foldl cancelJob kept
  obtain ⟨hkept, hrkept, hkepthandles⟩ : Core hash kept ∧ Restart [] w kept ∧ ∀ id, kept.handles.lookup id =
      if id ∈ current.map DesiredPackage.packageID then none else w.handles.lookup id := by
    refine cancelAll_spec hc (fun id hid handle job hhandle hjob => ?_)
    by_contra hin
    obtain ⟨pkg, hpkg, hsame, -, -, hunsatisfied⟩ :=
      hkeeps (restart_refl [] w) hjob hhandle (Bool.not_eq_false _ ▸ hin)
    obtain ⟨pkg', hpkg', rfl⟩ := List.mem_map.mp hid
    obtain ⟨hmem, hsatisfied⟩ := List.mem_filter.mp hpkg'
    obtain rfl := DesiredSet.eq_of_id hpkg hmem hsame
    exact Bool.false_ne_true (hunsatisfied.symm.trans hsatisfied)
  obtain ⟨hpruned, hrpruned, hprunedhandles⟩ : Core hash pruned ∧ Restart [] kept pruned ∧
      ∀ id, pruned.handles.lookup id =
        if id ∈ prunable kept set.ids then none else kept.handles.lookup id := by
    refine cancelAll_spec hkept (fun id hid handle job hhandle hjob => ?_)
    rw [hkepthandles] at hhandle
    split_ifs at hhandle
    by_contra hin
    obtain ⟨pkg, hpkg, rfl, -⟩ := hkeeps hrkept hjob hhandle (Bool.not_eq_false _ ▸ hin)
    exact (mem_prunable.mp hid).2 (List.mem_map_of_mem hpkg)
  have hrw : Restart [] w pruned := hrkept.trans hrpruned
  have hwanted : ∀ id ∈ set.ids, pruned.handles.lookup id =
      if id ∈ current.map DesiredPackage.packageID then none else w.handles.lookup id := by
    intro id hid
    rw [hprunedhandles, if_neg (fun h => (mem_prunable.mp h).2 hid), hkepthandles]
  have hids : ∀ pkg ∈ set.pkgs, holds pkg = false → pkg.packageID ∉ current.map DesiredPackage.packageID := by
    intro pkg hpkg hunsatisfied hid
    obtain ⟨pkg', hpkg', hsame⟩ := List.mem_map.mp hid
    obtain ⟨hmem, hsatisfied⟩ := List.mem_filter.mp hpkg'
    obtain rfl := DesiredSet.eq_of_id hmem hpkg hsame
    exact Bool.false_ne_true (hunsatisfied.symm.trans hsatisfied)
  obtain ⟨hcore, hrestart, hown, hothers⟩ : Core hash (start.foldl ensureJob pruned) ∧
      Restart start pruned (start.foldl ensureJob pruned) ∧
      (∀ pkg ∈ start, ∃ handle, (start.foldl ensureJob pruned).handles.lookup pkg.packageID = some handle ∧
        handle.sha = pkg.sha256 ∧ handle.size = pkg.sizeBytes) ∧
      ∀ id, id ∉ start.map DesiredPackage.packageID →
        (start.foldl ensureJob pruned).handles.lookup id = pruned.handles.lookup id := by
    refine ensureAll_spec hpruned ((List.filter_sublist.map _).nodup set.distinct) (fun pkg hpkg => ?_)
    obtain ⟨hmem, hunsatisfied⟩ := List.mem_filter.mp hpkg
    refine { (hfits pkg hmem).restart hrw nofun with window := fun handle job hhandle hjob hin => ?_ }
    rw [hwanted _ (List.mem_map_of_mem hmem)] at hhandle
    split_ifs at hhandle
    obtain ⟨pkg', hpkg', hsame, hsha, hsize, -⟩ := hkeeps hrw hjob hhandle hin
    obtain rfl := DesiredSet.eq_of_id hpkg' hmem hsame
    exact ⟨hsha, hsize⟩
  have hsub : ∀ pkg ∈ start, pkg ∈ set.pkgs := fun pkg hpkg => (List.mem_filter.mp hpkg).1
  have hprune : toPrune w' = prunable kept set.ids := rfl
  refine ⟨core_congr hcore rfl rfl rfl rfl, ?_, rfl, rfl, ?_, ?_, ?_, ?_⟩
  · obtain ⟨hfiles, hpackages, hevents, hrows⟩ := hrw.trans hrestart
    refine ⟨hfiles, hpackages, hevents, fun k job' hjob' => ?_⟩
    exact (hrows k job' hjob').imp_right (fun h => ⟨h.1, hsub _ h.2⟩)
  · intro pkg hpkg hsatisfied
    have hcurrent : pkg.packageID ∈ current.map DesiredPackage.packageID :=
      List.mem_map_of_mem (List.mem_filter.mpr ⟨hpkg, hsatisfied⟩)
    have hnot : pkg.packageID ∉ start.map DesiredPackage.packageID := by
      intro hid
      obtain ⟨pkg', hpkg', hsame⟩ := List.mem_map.mp hid
      obtain ⟨hmem, hunsatisfied⟩ := List.mem_filter.mp hpkg'
      obtain rfl := DesiredSet.eq_of_id hmem hpkg hsame
      rw [Bool.not_eq_true'] at hunsatisfied
      exact hids pkg' hpkg hunsatisfied hcurrent
    change (start.foldl ensureJob pruned).handles.lookup pkg.packageID = none
    rw [hothers _ hnot, hwanted _ (List.mem_map_of_mem hpkg), if_pos hcurrent]
  · intro pkg hpkg hunsatisfied
    exact hown pkg (List.mem_filter.mpr ⟨hpkg, by rw [Bool.not_eq_true']; exact hunsatisfied⟩)
  · intro id hid
    have hnot : ∀ pkgs ⊆ set.pkgs, id ∉ pkgs.map DesiredPackage.packageID := by
      intro pkgs hpkgs hmem
      obtain ⟨pkg, hpkg, rfl⟩ := List.mem_map.mp hmem
      exact hid (List.mem_map_of_mem (hpkgs hpkg))
    change (start.foldl ensureJob pruned).handles.lookup id = none
    rw [hothers id (hnot start hsub), hprunedhandles]
    by_cases hmem : id ∈ prunable kept set.ids
    · rw [if_pos hmem]
    · rw [if_neg hmem]
      rw [mem_prunable, not_and_or, not_not] at hmem
      have hnone := (not_or.mp (hmem.resolve_right hid)).1
      rwa [Bool.not_eq_true, Option.isSome_eq_false_iff, Option.isNone_iff_eq_none] at hnone
  · intro id
    rw [hprune, mem_prunable, hrkept.packages, hkepthandles]
    by_cases hid : id ∈ set.ids
    · simp only [hid, not_true_eq_false, and_false, or_self]
    · have hnot : id ∉ current.map DesiredPackage.packageID := by
        intro hmem
        obtain ⟨pkg, hpkg, rfl⟩ := List.mem_map.mp hmem
        exact hid (List.mem_map_of_mem (List.mem_filter.mp hpkg).1)
      rw [if_neg hnot, or_and_right]

end DesiredSets

end MirrorSets
