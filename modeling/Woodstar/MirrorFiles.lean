import Woodstar.MirrorJobs

/-!
# The files of a mirror's jobs

What a job may do once it is cancelled, and what then holds of the handles, the jobs and
their files at every step.
-/
namespace MirrorFiles

open InodeFiles KeyedRows MirrorJobs

/-- The temporary file of neither is the file of the other. -/
def Apart (id : Int) (filename filename' : List Char) : Prop :=
  tempName id filename ≠ localName id filename' ∧ tempName id filename' ≠ localName id filename

/-- The set leaves the job alone: it wants the job's bytes and the mirror does not have them. -/
def LeavesAlone (w : World) (set : DesiredSet) (job : Job) : Prop :=
  ∃ pkg ∈ set.pkgs, pkg.packageID = job.pkg.packageID ∧ pkg.sha256 = job.pkg.sha256 ∧
    pkg.sizeBytes = job.pkg.sizeBytes ∧ satisfies w pkg.packageID pkg.sha256 pkg.sizeBytes = false

/-- The step of a cancelled job reaches nothing that another job or the mirror uses: it
opens a file when the package has no job, writes to a file of no other job and of no
package, does not pass its verification, reports at most what is wanted, and finishes
when the handle is not one for the same bytes. -/
def Harmless (hash : List UInt8 → String) (w : World) (job : Job) : JobStep → Prop
  | .write _ =>
    match job.stage with
    | .writing i _ =>
      (∀ k ∈ w.jobs.ids, ∀ other ∈ w.jobs.row k, other.Live → other.stage.inode ≠ some i) ∧
        ∀ id ∈ w.packages.keys, ∀ state ∈ w.packages.lookup id,
          w.files.inode (localName id state.filename) ≠ some i
    | _ => True
  | .next =>
    match job.stage with
    | .syncing | .notifying => job.pkg.packageID ∉ w.last.ids
    | .opening => w.handles.lookup job.pkg.packageID = none
    | .checking i read => passes hash (w.files.content i) read job = false
    | .announcing => ∀ pkg ∈ w.last.pkgs, pkg.packageID = job.pkg.packageID → pkg.sha256 = job.pkg.sha256
    | .finishing => ∀ handle ∈ w.handles.lookup job.pkg.packageID,
        ¬ (handle.sha = job.pkg.sha256 ∧ handle.size = job.pkg.sizeBytes)
    | _ => True
  | _ => True

/-- A set cancels no job between its verification and its record, and its filenames make no
temporary file of the package the file of another. A cancelled job's steps are harmless. -/
def Meets (hash : List UInt8 → String) (w : World) : Event → Prop
  | .desired set => w.applying = none →
      (∀ j ∈ w.jobs.ids, ∀ job ∈ w.jobs.row j, job.stage.inWindow = true → LeavesAlone w set job) ∧
        ∀ pkg ∈ set.pkgs,
          (∀ j ∈ w.jobs.ids, ∀ job ∈ w.jobs.row j, job.stage ≠ .ended →
            job.pkg.packageID = pkg.packageID → Apart pkg.packageID pkg.filename job.pkg.filename) ∧
            ∀ state ∈ w.packages.lookup pkg.packageID, Apart pkg.packageID pkg.filename state.filename
  | .job j a => ∀ job ∈ w.jobs.row j, job.cancelled = true → Harmless hash w job a
  | _ => True

instance (id : Int) (filename filename' : List Char) : Decidable (Apart id filename filename') :=
  inferInstanceAs (Decidable (_ ∧ _))

instance (w : World) (set : DesiredSet) (job : Job) : Decidable (LeavesAlone w set job) :=
  inferInstanceAs (Decidable (∃ pkg ∈ set.pkgs, _))

instance (hash : List UInt8 → String) (w : World) (job : Job) (a : JobStep) :
    Decidable (Harmless hash w job a) := by
  unfold Harmless
  split <;> (try split) <;> infer_instance

instance (hash : List UInt8 → String) (w : World) (e : Event) : Decidable (Meets hash w e) := by
  unfold Meets
  split <;> infer_instance

abbrev Mirror := AList (fun _ : Int => PackageState)

abbrev Dir := Files (List Char) UInt8

def Good (hash : List UInt8 → String) (files : Dir) (pkg : DesiredPackage) (i : Nat) : Prop :=
  ((files.content i).length : Int) = pkg.sizeBytes ∧ hash (files.content i) = pkg.sha256

/-- The mirror has the package, and the recorded file has its size. -/
def Settled (files : Dir) (packages : Mirror) (pkg : DesiredPackage) : Prop :=
  ∃ state i, packages.lookup pkg.packageID = some state ∧ state.sha256 = pkg.sha256 ∧
    state.sizeBytes = pkg.sizeBytes ∧
    files.inode (localName pkg.packageID state.filename) = some i ∧
    ((files.content i).length : Int) = pkg.sizeBytes

/-- A recorded file of the recorded size has the recorded bytes. -/
def Sound (hash : List UInt8 → String) (files : Dir) (id : Int) (state : PackageState) : Prop :=
  ∀ i, files.inode (localName id state.filename) = some i →
    ((files.content i).length : Int) = state.sizeBytes → hash (files.content i) = state.sha256

/-- What a job that was not cancelled relies on. -/
def StageOK (hash : List UInt8 → String) (files : Dir) (packages : Mirror) (job : Job) : Prop :=
  match job.stage with
  | .writing i _ => OwnsName files i job.tempName
  | .sizing i => OwnsName files i job.tempName
  | .checking i read => OwnsName files i job.tempName ∧
      ((files.content i).length : Int) = job.pkg.sizeBytes ∧ read <+: files.content i
  | .verified i => OwnsName files i job.tempName ∧ Good hash files job.pkg i
  | .renamed i => files.inode job.localName = some i ∧ Good hash files job.pkg i
  | .recorded => Settled files packages job.pkg
  | .announcing => Settled files packages job.pkg
  | .finishing => Settled files packages job.pkg
  | _ => True

/-- A job has just put its file in the place of the recorded one. -/
def Replaced (w : World) (id : Int) (state : PackageState) : Prop :=
  ∃ handle job i, w.handles.lookup id = some handle ∧ w.jobs.row handle.job = some job ∧
    job.stage = .renamed i ∧ job.localName = localName id state.filename

structure Core (hash : List UInt8 → String) (w : World) : Prop where
  handle : ∀ id handle, w.handles.lookup id = some handle → ∃ job, w.jobs.row handle.job = some job ∧
    job.Live ∧ job.pkg.packageID = id ∧ handle.sha = job.pkg.sha256 ∧ handle.size = job.pkg.sizeBytes
  live : ∀ j job, w.jobs.row j = some job → job.Live →
    ∃ handle, w.handles.lookup job.pkg.packageID = some handle ∧ handle.job = j
  window : ∀ j job, w.jobs.row j = some job → job.cancelled = true → job.stage.inWindow = false
  names : ∀ j job k other, w.jobs.row j = some job → w.jobs.row k = some other → job.stage ≠ .ended →
    other.stage ≠ .ended → job.pkg.packageID = other.pkg.packageID → job.tempName ≠ other.localName
  states : ∀ j job state, w.jobs.row j = some job → job.stage ≠ .ended →
    w.packages.lookup job.pkg.packageID = some state →
    job.tempName ≠ localName job.pkg.packageID state.filename
  stage : ∀ j job, w.jobs.row j = some job → job.Live → StageOK hash w.files w.packages job
  apart : ∀ j job k other, w.jobs.row j = some job → w.jobs.row k = some other → job.Live → other.Live →
    j ≠ k → ∀ i, job.stage.inode = some i → other.stage.inode ≠ some i
  sound : ∀ id state, w.packages.lookup id = some state →
    Sound hash w.files id state ∨ Replaced w id state

variable {hash : List UInt8 → String} {w w' : World} {j k : Int} {job other : Job} {f g : Dir}
  {packages : Mirror}

/-- Another's step leaves what the job relies on. -/
structure Untouched (f g : Dir) (packages : Mirror) (job : Job) : Prop where
  name : g.inode job.localName = f.inode job.localName
  content : ∀ i, job.stage.inode = some i → g.content i = f.content i
  temp : ∀ i, OwnsName f i job.tempName → OwnsName g i job.tempName
  state : ∀ state, packages.lookup job.pkg.packageID = some state →
    SameAt f g (localName job.pkg.packageID state.filename)

theorem untouched_refl (f : Dir) (packages : Mirror) (job : Job) : Untouched f f packages job :=
  ⟨rfl, fun _ _ => rfl, fun _ h => h, fun _ _ => sameAt_refl f _⟩

theorem Settled.frame {pkg : DesiredPackage} (h : Settled f packages pkg)
    (hs : ∀ state, packages.lookup pkg.packageID = some state →
      SameAt f g (localName pkg.packageID state.filename)) : Settled g packages pkg := by
  obtain ⟨state, i, hlookup, hsha, hsize, hinode, hlength⟩ := h
  obtain ⟨hname, hcontent⟩ := hs state hlookup
  exact ⟨state, i, hlookup, hsha, hsize, hname.trans hinode, by rw [hcontent i hinode]; exact hlength⟩

theorem Sound.frame {id : Int} {state : PackageState} (h : Sound hash f id state)
    (hs : SameAt f g (localName id state.filename)) : Sound hash g id state := by
  intro i hi hlength
  rw [hs.1] at hi
  rw [hs.2 i hi] at hlength ⊢
  exact h i hi hlength

theorem Good.frame {pkg : DesiredPackage} {i : Nat} (h : Good hash f pkg i)
    (hcontent : g.content i = f.content i) : Good hash g pkg i := by
  rw [Good, hcontent]
  exact h

theorem StageOK.frame (h : StageOK hash f packages job) (hu : Untouched f g packages job) :
    StageOK hash g packages job := by
  have hcontent := hu.content
  unfold StageOK at h ⊢
  cases hstage : job.stage with
  | writing i offset => rw [hstage] at h; exact hu.temp i h
  | sizing i => rw [hstage] at h; exact hu.temp i h
  | checking i read =>
    rw [hstage] at h hcontent
    simp only at h ⊢
    rw [hcontent i rfl]
    exact ⟨hu.temp i h.1, h.2⟩
  | verified i =>
    rw [hstage] at h hcontent
    exact ⟨hu.temp i h.1, h.2.frame (hcontent i rfl)⟩
  | renamed i =>
    rw [hstage] at h hcontent
    exact ⟨hu.name.trans h.1, h.2.frame (hcontent i rfl)⟩
  | recorded => rw [hstage] at h; exact Settled.frame h hu.state
  | announcing => rw [hstage] at h; exact Settled.frame h hu.state
  | finishing => rw [hstage] at h; exact Settled.frame h hu.state
  | _ => trivial

/-- Jobs of one package that were not cancelled are one job. -/
theorem Core.unique (hc : Core hash w) (hj : w.jobs.row j = some job) (hk : w.jobs.row k = some other)
    (hlive : job.Live) (hlive' : other.Live) (hid : job.pkg.packageID = other.pkg.packageID) : j = k := by
  obtain ⟨handle, hlookup, rfl⟩ := hc.live j job hj hlive
  obtain ⟨handle', hlookup', rfl⟩ := hc.live k other hk hlive'
  rw [hid] at hlookup
  rw [Option.some.inj (hlookup.symm.trans hlookup')]

/-- The inode of a job is that of its temporary file or of its file. -/
theorem StageOK.onlyAt (h : StageOK hash f packages job) {i : Nat} (hi : job.stage.inode = some i) :
    OnlyAt f i job.tempName ∨ OnlyAt f i job.localName := by
  unfold StageOK at h
  cases hstage : job.stage with
  | writing i' offset => rw [hstage] at h hi; cases hi; exact .inl h.1
  | sizing i' => rw [hstage] at h hi; cases hi; exact .inl h.1
  | checking i' read => rw [hstage] at h hi; cases hi; exact .inl h.1.1
  | verified i' => rw [hstage] at h hi; cases hi; exact .inl h.1.1
  | renamed i' => rw [hstage] at h hi; cases hi; exact .inr (onlyAt_linked h.1)
  | _ => rw [hstage] at hi; cases hi

/-- The events of a job and the stages after them. -/
inductive Emits (job : Job) : PackageEvent → Stage → Prop
  | syncing (h : job.stage = .syncing) : Emits job (.syncing job.pkg.packageID) .attempting
  | current (h : job.stage = .announcing) :
      Emits job (.current job.pkg.packageID job.pkg.sha256) .finishing
  | error (h : job.stage = .notifying) : Emits job (.error job.pkg.packageID) .waiting

/-- A change of the stage and of the transfers alone. -/
structure Moves (hash : List UInt8 → String) (w : World) (job : Job) (a : JobStep) (stage : Stage) : Prop where
  active : job.stage ≠ .ended
  goesOn : stage ≠ .ended
  renamed : ∀ i, job.stage ≠ .renamed i
  ok : job.cancelled = false → StageOK hash w.files w.packages job →
    StageOK hash w.files w.packages { job with stage := stage }
  inode : ∀ i, stage.inode = some i → job.stage.inode = some i ∨ w.files.inode job.tempName = some i
  window : stage.inWindow = true → a = .next ∧
    ∃ i read, job.stage = .checking i read ∧ passes hash (w.files.content i) read job = true
  finishing : stage = .finishing → job.cancelled = true

inductive Advance (hash : List UInt8 → String) (w : World) (j : Int) (job : Job) :
    JobStep → World → Prop
  | stay {a : JobStep} : Advance hash w j job a w
  | move {a : JobStep} {stage : Stage} {slots : Nat} (h : Moves hash w job a stage) :
      Advance hash w j job a ({ w with slots := slots }.setStage j stage)
  | emit {event : PackageEvent} {stage : Stage} (h : Emits job event stage) :
      Advance hash w j job .next ((w.emit event).setStage j stage)
  | create (h : job.stage = .opening) :
      Advance hash w j job .next ({ w with files := create w.files job.tempName }.setStage j
        (.writing (opened w.files job.tempName) 0))
  | write {i offset : Nat} {bs : List UInt8} (h : job.stage = .writing i offset) :
      Advance hash w j job (.write bs) ({ w with files := write w.files i offset bs }.setStage j
        (.writing i (offset + bs.length)))
  | unlink {slots : Nat} (h : job.stage = .failed) :
      Advance hash w j job .next
        ({ w with slots := slots, files := unlink w.files job.tempName }.setStage j .reporting)
  | rename {i i' : Nat} (h : job.stage = .verified i) (hlink : w.files.inode job.tempName = some i') :
      Advance hash w j job .next
        ({ w with files := rename w.files job.tempName job.localName }.setStage j (.renamed i))
  | put {i : Nat} (h : job.stage = .renamed i) :
      Advance hash w j job .next ((put w job.pkg).setStage j .recorded)
  | finish (h : job.stage = .finishing) :
      Advance hash w j job .next ((finishJob w job.pkg).setStage j .ended)

/-- A stage that relies on nothing. -/
def idle : Stage → Bool
  | .attempting | .queued | .requesting | .opening | .downloaded | .failed | .reporting | .notifying
  | .waiting => true
  | _ => false

/-- A stage that can be left without writing to the mirror. -/
def leavable : Stage → Bool
  | .ended | .renamed _ => false
  | _ => true

theorem active_of_leavable {old : Stage} (h : job.stage = old) (hold : leavable old = true) :
    job.stage ≠ .ended ∧ ∀ i, job.stage ≠ .renamed i := by
  rw [h]
  constructor
  · rintro rfl
    cases hold
  · rintro i rfl
    cases hold

theorem inode_of_idle {stage : Stage} (h : idle stage = true) : stage.inode = none := by
  cases stage <;> first | rfl | cases h

theorem inWindow_of_idle {stage : Stage} (h : idle stage = true) : stage.inWindow = false := by
  cases stage <;> first | rfl | cases h

theorem moves_idle {a : JobStep} {old stage : Stage} (h : job.stage = old) (hold : leavable old = true)
    (hidle : idle stage = true) : Moves hash w job a stage where
  active := (active_of_leavable h hold).1
  goesOn := by rintro rfl; cases hidle
  renamed := (active_of_leavable h hold).2
  ok := fun _ _ => by cases stage <;> trivial
  inode := fun i hi => by rw [inode_of_idle hidle] at hi; cases hi
  window := fun hw => by rw [inWindow_of_idle hidle] at hw; cases hw
  finishing := by rintro rfl; cases hidle

theorem moves_finishing {a : JobStep} {old : Stage} (h : job.stage = old) (hold : leavable old = true)
    (hcancelled : job.cancelled = true) : Moves hash w job a .finishing where
  active := (active_of_leavable h hold).1
  goesOn := nofun
  renamed := (active_of_leavable h hold).2
  ok := fun hnot => by rw [hcancelled] at hnot; cases hnot
  inode := nofun
  window := nofun
  finishing := fun _ => hcancelled

theorem moves_checking {i : Nat} {read : List UInt8} (h : job.stage = .checking i read) :
    ∀ n, Moves hash w job (.read n)
      (.checking i (read ++ ((w.files.content i).drop read.length).take n)) := by
  intro n
  refine ⟨by rw [h]; nofun, nofun, fun i' => by rw [h]; nofun, ?_, ?_, nofun, nofun⟩
  · intro _ hok
    rw [StageOK, h] at hok
    obtain ⟨howns, hlength, rest, hrest⟩ := hok
    refine ⟨howns, hlength, ?_⟩
    rw [← hrest, List.drop_left]
    exact (List.prefix_append_right_inj read).mpr (List.take_prefix n rest)
  · intro i' hi'
    rw [h]
    exact .inl hi'

theorem moves_verified {i : Nat} {read : List UInt8} (h : job.stage = .checking i read)
    (hlength : (w.files.content i).length ≤ read.length) :
    Moves hash w job .next (if passes hash (w.files.content i) read job = true then .verified i else .failed) := by
  by_cases hpass : passes hash (w.files.content i) read job = true
  · rw [if_pos hpass]
    refine ⟨by rw [h]; nofun, nofun, fun i' => by rw [h]; nofun, ?_, ?_, ?_, nofun⟩
    · intro _ hok
      rw [StageOK, h] at hok
      obtain ⟨howns, hsize, hprefix⟩ := hok
      have hread : read = w.files.content i :=
        hprefix.eq_of_length (Nat.le_antisymm hprefix.length_le hlength)
      have hhash := (of_decide_eq_true hpass).2
      rw [hread] at hhash
      exact ⟨howns, hsize, hhash⟩
    · intro i' hi'
      rw [h]
      exact .inl hi'
    · exact fun _ => ⟨rfl, i, read, h, hpass⟩
  · rw [if_neg hpass]
    exact moves_idle h rfl rfl

theorem moves_sizing {i : Nat} (h : job.stage = .downloaded) (hlink : w.files.inode job.tempName = some i) :
    Moves hash w job .next (.sizing i) := by
  refine ⟨by rw [h]; nofun, nofun, fun i' => by rw [h]; nofun, ?_, ?_, nofun, nofun⟩
  · exact fun _ _ => ownsName_linked hlink
  · intro i' hi'
    cases hi'
    exact .inr hlink

theorem moves_sized {i : Nat} (h : job.stage = .sizing i) :
    Moves hash w job .next
      (if ((w.files.content i).length : Int) = job.pkg.sizeBytes then .checking i [] else .failed) := by
  by_cases hsize : ((w.files.content i).length : Int) = job.pkg.sizeBytes
  · rw [if_pos hsize]
    refine ⟨by rw [h]; nofun, nofun, fun i' => by rw [h]; nofun, ?_, ?_, nofun, nofun⟩
    · intro _ hok
      rw [StageOK, h] at hok
      exact ⟨hok, hsize, List.nil_prefix⟩
    · intro i' hi'
      rw [h]
      exact .inl hi'
  · rw [if_neg hsize]
    exact moves_idle h rfl rfl

theorem moves_announcing (h : job.stage = .recorded) : Moves hash w job .next .announcing := by
  refine ⟨by rw [h]; nofun, nofun, fun i' => by rw [h]; nofun, ?_, nofun, nofun, nofun⟩
  intro _ hok
  rw [StageOK, h] at hok
  exact hok

theorem advance_move {a : JobStep} {stage : Stage} (h : Moves hash w job a stage) :
    Advance hash w j job a (w.setStage j stage) :=
  (.move h : Advance hash w j job a ({ w with slots := w.slots }.setStage j stage))

theorem advance_skip {a : JobStep} {stage : Stage} (h : job.cancelled = true → Moves hash w job a stage) :
    Advance hash w j job a (if job.cancelled = true then w.setStage j stage else w) := by
  by_cases hcancelled : job.cancelled = true
  · rw [if_pos hcancelled]
    exact advance_move (h hcancelled)
  · rw [if_neg hcancelled]
    exact .stay

/-- Every step of a job is one of these. -/
theorem advance_spec (concurrency : Nat) (w : World) (j : Int) (job : Job) (a : JobStep) :
    Advance hash w j job a (stepJob hash concurrency w j job a) := by
  unfold stepJob
  split
  · rename_i h
    exact .emit (.syncing h)
  · rename_i h
    exact advance_skip (fun _ => moves_idle h rfl rfl)
  · rename_i h
    refine advance_move ?_
    by_cases hcancelled : job.cancelled = true
    · rw [if_pos hcancelled]
      exact moves_finishing h rfl hcancelled
    · rw [if_neg hcancelled]
      exact moves_idle h rfl rfl
  · rename_i h
    by_cases hslot : w.slots < concurrency
    · rw [if_pos hslot]
      exact .move (moves_idle h rfl rfl)
    · rw [if_neg hslot]
      exact .stay
  · rename_i h
    exact advance_skip (fun _ => moves_idle h rfl rfl)
  · rename_i h
    exact advance_move (moves_idle h rfl rfl)
  · rename_i h
    exact .move (moves_idle h rfl rfl)
  · rename_i h
    exact .create h
  · rename_i h
    exact advance_move (moves_idle h rfl rfl)
  · rename_i h
    exact .write h
  · rename_i h
    exact advance_move (moves_idle h rfl rfl)
  · rename_i h
    exact advance_move (moves_idle h rfl rfl)
  · rename_i h
    cases hlink : w.files.inode job.tempName with
    | some i => exact advance_move (moves_sizing h hlink)
    | none => exact advance_move (moves_idle h rfl rfl)
  · rename_i h
    exact advance_move (moves_idle h rfl rfl)
  · rename_i h
    exact advance_move (moves_sized h)
  · rename_i h
    exact advance_move (moves_idle h rfl rfl)
  · rename_i h
    exact advance_move (moves_checking h _)
  · rename_i h
    split
    · rename_i hlength
      exact advance_move (moves_verified h hlength)
    · exact .stay
  · rename_i h
    exact advance_move (moves_idle h rfl rfl)
  · rename_i h
    cases hlink : w.files.inode job.tempName with
    | some i' => exact .rename h hlink
    | none => exact advance_move (moves_idle h rfl rfl)
  · rename_i h
    exact advance_move (moves_idle h rfl rfl)
  · rename_i h
    exact .put h
  · rename_i h
    exact .move (moves_announcing h)
  · rename_i h
    exact .emit (.current h)
  · rename_i h
    exact advance_skip (fun hcancelled => moves_finishing h rfl hcancelled)
  · rename_i h
    exact .unlink h
  · rename_i h
    refine advance_move ?_
    by_cases hcancelled : job.cancelled = true
    · rw [if_pos hcancelled]
      exact moves_idle h rfl rfl
    · rw [if_neg hcancelled]
      exact moves_idle h rfl rfl
  · rename_i h
    exact .emit (.error h)
  · rename_i h
    exact advance_skip (fun _ => moves_idle h rfl rfl)
  · rename_i h
    exact advance_move (moves_idle h rfl rfl)
  · rename_i h
    exact advance_skip (fun hcancelled => moves_finishing h rfl hcancelled)
  · rename_i h
    exact .finish h
  · exact .stay

section Advance

variable {stage : Stage}

theorem row_setStage (hrow : w.jobs.row j = some job) :
    (w.setStage j stage).jobs.row j = some { job with stage := stage } := by
  rw [World.setStage, Table.row_modify, if_pos rfl, hrow]
  rfl

theorem row_setStage_ne (h : k ≠ j) : (w.setStage j stage).jobs.row k = w.jobs.row k := by
  rw [World.setStage, Table.row_modify, if_neg h]

theorem row_setStage_cases (hrow : w.jobs.row j = some job)
    (hk : (w.setStage j stage).jobs.row k = some other) :
    k = j ∧ other = { job with stage := stage } ∨ k ≠ j ∧ w.jobs.row k = some other := by
  by_cases h : k = j
  · subst h
    rw [row_setStage hrow] at hk
    exact .inl ⟨rfl, (Option.some.inj hk).symm⟩
  · rw [row_setStage_ne h] at hk
    exact .inr ⟨h, hk⟩

/-- The invariant reads the files, the mirror, the handles and the jobs. -/
theorem core_congr (hc : Core hash w) (hfiles : w'.files = w.files) (hpackages : w'.packages = w.packages)
    (hhandles : w'.handles = w.handles) (hjobs : w'.jobs = w.jobs) : Core hash w' := by
  obtain ⟨files, packages, handles, jobs, slots, applying, events, last⟩ := w
  obtain ⟨files', packages', handles', jobs', slots', applying', events', last'⟩ := w'
  obtain rfl : files' = files := hfiles
  obtain rfl : packages' = packages := hpackages
  obtain rfl : handles' = handles := hhandles
  obtain rfl : jobs' = jobs := hjobs
  exact ⟨hc.handle, hc.live, hc.window, hc.names, hc.states, hc.stage, hc.apart, hc.sound⟩

/-- A job goes on to a stage while the files change under names that only it has. -/
theorem core_advance (hc : Core hash w) (hrow : w.jobs.row j = some job) (hactive : job.stage ≠ .ended)
    (hgoesOn : stage ≠ .ended) (hwindow : job.cancelled = true → stage.inWindow = false)
    (hok : job.cancelled = false → StageOK hash g w.packages { job with stage := stage })
    (hothers : ∀ k other, k ≠ j → w.jobs.row k = some other → other.Live →
      Untouched w.files g w.packages other)
    (hapart : job.cancelled = false → ∀ i, stage.inode = some i → ∀ k other, k ≠ j →
      w.jobs.row k = some other → other.Live → other.stage.inode ≠ some i)
    (hsound : ∀ id state, w.packages.lookup id = some state → Sound hash g id state ∨
      Replaced (({ w with files := g } : World).setStage j stage) id state) :
    Core hash (({ w with files := g } : World).setStage j stage) := by
  have hrow' : ({ w with files := g } : World).jobs.row j = some job := hrow
  have hlive : ({ job with stage := stage } : Job).Live → job.Live := fun h => ⟨h.1, hactive⟩
  refine ⟨?_, ?_, ?_, ?_, ?_, ?_, ?_, hsound⟩
  · intro id handle hhandle
    obtain ⟨job', hjob', hlive', hid, hsame⟩ := hc.handle id handle hhandle
    by_cases hj : handle.job = j
    · rw [hj, hrow] at hjob'
      obtain rfl := Option.some.inj hjob'
      refine ⟨{ job with stage := stage }, ?_, ⟨hlive'.1, hgoesOn⟩, hid, hsame⟩
      rw [hj]
      exact row_setStage hrow'
    · exact ⟨job', (row_setStage_ne hj).trans hjob', hlive', hid, hsame⟩
  · intro k other hk hother
    rcases row_setStage_cases hrow' hk with ⟨rfl, rfl⟩ | ⟨-, hold⟩
    · exact hc.live k job hrow (hlive hother)
    · exact hc.live k other hold hother
  · intro k other hk hcancelled
    rcases row_setStage_cases hrow' hk with ⟨rfl, rfl⟩ | ⟨-, hold⟩
    · exact hwindow hcancelled
    · exact hc.window k other hold hcancelled
  · intro k other k' other' hk hk' hactive₁ hactive₂ hid
    rcases row_setStage_cases hrow' hk with ⟨rfl, rfl⟩ | ⟨-, hold⟩
    · rcases row_setStage_cases hrow' hk' with ⟨rfl, rfl⟩ | ⟨-, hold'⟩
      · exact tempName_ne_self
      · exact hc.names k job k' other' hrow hold' hactive hactive₂ hid
    · rcases row_setStage_cases hrow' hk' with ⟨rfl, rfl⟩ | ⟨-, hold'⟩
      · exact hc.names k other k' job hold hrow hactive₁ hactive hid
      · exact hc.names k other k' other' hold hold' hactive₁ hactive₂ hid
  · intro k other state hk hactive₁ hstate
    rcases row_setStage_cases hrow' hk with ⟨rfl, rfl⟩ | ⟨-, hold⟩
    · exact hc.states k job state hrow hactive hstate
    · exact hc.states k other state hold hactive₁ hstate
  · intro k other hk hother
    rcases row_setStage_cases hrow' hk with ⟨rfl, rfl⟩ | ⟨hne, hold⟩
    · exact hok hother.1
    · exact (hc.stage k other hold hother).frame (hothers k other hne hold hother)
  · intro k other k' other' hk hk' hother hother' hne i hi hi'
    rcases row_setStage_cases hrow' hk with ⟨rfl, rfl⟩ | ⟨hkj, hold⟩
    · rcases row_setStage_cases hrow' hk' with ⟨rfl, -⟩ | ⟨hkj', hold'⟩
      · exact hne rfl
      · exact hapart hother.1 i hi k' other' hkj' hold' hother' hi'
    · rcases row_setStage_cases hrow' hk' with ⟨rfl, rfl⟩ | ⟨-, hold'⟩
      · exact hapart hother'.1 i hi' k other hkj hold hother hi
      · exact hc.apart k other k' other' hold hold' hother hother' hne i hi hi'

/-- The file in place of a recorded one stays that of the same job. -/
theorem replaced_setStage (hc : Core hash w) (hrow : w.jobs.row j = some job) {id : Int}
    {state : PackageState} (hrenamed : ∀ i, job.stage = .renamed i → job.pkg.packageID ≠ id)
    (h : Replaced w id state) : Replaced (({ w with files := g } : World).setStage j stage) id state := by
  obtain ⟨handle, other, i, hhandle, hother, hstage, hname⟩ := h
  refine ⟨handle, other, i, hhandle, ?_, hstage, hname⟩
  have hne : handle.job ≠ j := by
    intro heq
    obtain ⟨other', hother', -, hid, -⟩ := hc.handle id handle hhandle
    rw [heq, hrow] at hother hother'
    obtain rfl := Option.some.inj hother
    obtain rfl := Option.some.inj hother'
    exact hrenamed i hstage hid
  exact (row_setStage_ne hne).trans hother

/-- Where no recorded file changes, what is recorded stays sound. -/
theorem sound_advance (hc : Core hash w) (hrow : w.jobs.row j = some job)
    (hrenamed : ∀ i, job.stage ≠ .renamed i)
    (hsame : ∀ id state, w.packages.lookup id = some state → SameAt w.files g (localName id state.filename))
    (id : Int) (state : PackageState) (hstate : w.packages.lookup id = some state) :
    Sound hash g id state ∨ Replaced (({ w with files := g } : World).setStage j stage) id state :=
  (hc.sound id state hstate).imp (fun h => h.frame (hsame id state hstate))
    (replaced_setStage hc hrow (fun i hi => absurd hi (hrenamed i)))

theorem core_move {a : JobStep} (hc : Core hash w) (hrow : w.jobs.row j = some job)
    (hm : Moves hash w job a stage) (hharmless : job.cancelled = true → Harmless hash w job a) :
    Core hash (w.setStage j stage) := by
  refine @core_advance hash w j job w.files stage hc hrow hm.active hm.goesOn ?_ ?_ ?_ ?_ ?_
  · intro hcancelled
    by_contra hwindow
    obtain ⟨rfl, i, read, hstage, hpass⟩ := hm.window (Bool.not_eq_false _ ▸ hwindow)
    have h := hharmless hcancelled
    simp only [Harmless, hstage] at h
    rw [hpass] at h
    cases h
  · exact fun hnot => hm.ok hnot (hc.stage j job hrow ⟨hnot, hm.active⟩)
  · exact fun k other _ _ _ => untouched_refl w.files w.packages other
  · intro hnot i hi k other hne hk hother hi'
    rcases hm.inode i hi with hold | hlink
    · exact hc.apart j job k other hrow hk ⟨hnot, hm.active⟩ hother (Ne.symm hne) i hold hi'
    · have hid : other.pkg.packageID ≠ job.pkg.packageID :=
        fun hid => hne (hc.unique hk hrow hother ⟨hnot, hm.active⟩ hid)
      rcases (hc.stage k other hk hother).onlyAt hi' with honly | honly
      · exact tempName_ne (Ne.symm hid) (honly.2 job.tempName hlink)
      · exact tempName_ne_localName (Ne.symm hid) (honly.2 job.tempName hlink)
  · exact sound_advance hc hrow hm.renamed (fun id state _ => sameAt_refl w.files _)

/-- The temporary file of a running job is no recorded file. -/
theorem state_ne_temp (hc : Core hash w) (hrow : w.jobs.row j = some job) (hactive : job.stage ≠ .ended)
    {id : Int} {state : PackageState} (hstate : w.packages.lookup id = some state) :
    localName id state.filename ≠ job.tempName := by
  by_cases hid : job.pkg.packageID = id
  · subst hid
    exact (hc.states j job state hrow hactive hstate).symm
  · exact (tempName_ne_localName hid).symm

theorem core_create (hc : Core hash w) (hrow : w.jobs.row j = some job) (h : job.stage = .opening)
    (hharmless : job.cancelled = true → Harmless hash w job .next) :
    Core hash (({ w with files := create w.files job.tempName } : World).setStage j
      (.writing (opened w.files job.tempName) 0)) := by
  have hactive : job.stage ≠ .ended := by rw [h]; nofun
  have hdiffers : ∀ k other, k ≠ j → w.jobs.row k = some other → other.Live →
      job.pkg.packageID ≠ other.pkg.packageID := by
    intro k other hne hk hother hid
    cases hcancelled : job.cancelled with
    | false => exact hne (hc.unique hk hrow hother ⟨hcancelled, hactive⟩ hid.symm)
    | true =>
      have hnone := hharmless hcancelled
      simp only [Harmless, h] at hnone
      obtain ⟨handle, hhandle, -⟩ := hc.live k other hk hother
      rw [← hid, hnone] at hhandle
      cases hhandle
  have hopened : ∀ k other, k ≠ j → w.jobs.row k = some other → other.Live → ∀ i,
      other.stage.inode = some i → i ≠ opened w.files job.tempName := by
    intro k other hne hk hother i hi
    have hid := hdiffers k other hne hk hother
    rcases (hc.stage k other hk hother).onlyAt hi with honly | honly
    · exact opened_ne honly (tempName_ne hid).symm
    · exact opened_ne honly (tempName_ne_localName hid).symm
  refine core_advance hc hrow hactive nofun (fun _ => rfl) (fun _ => ownsName_create_self) ?_ ?_ ?_
  · intro k other hne hk hother
    have hid := hdiffers k other hne hk hother
    exact {
      name := inode_create (tempName_ne_localName hid).symm
      content := fun i hi => content_create (hopened k other hne hk hother i hi)
      temp := fun i hi => ownsName_create hi (tempName_ne hid).symm
      state := fun state hstate => sameAt_create (state_ne_temp hc hrow hactive hstate) }
  · intro _ i hi k other hne hk hother hi'
    cases hi
    exact hopened k other hne hk hother _ hi' rfl
  · exact sound_advance hc hrow (by rw [h]; nofun)
      (fun id state hstate => sameAt_create (state_ne_temp hc hrow hactive hstate))

/-- A job writes to no recorded file. -/
theorem written_not_recorded {i offset : Nat} {bs : List UInt8} (hc : Core hash w)
    (hrow : w.jobs.row j = some job) (h : job.stage = .writing i offset)
    (hharmless : job.cancelled = true → Harmless hash w job (.write bs)) (id : Int) (state : PackageState)
    (hstate : w.packages.lookup id = some state) :
    w.files.inode (localName id state.filename) ≠ some i := by
  have hactive : job.stage ≠ .ended := by rw [h]; nofun
  intro hlink
  cases hcancelled : job.cancelled with
  | false =>
    have hok := hc.stage j job hrow ⟨hcancelled, hactive⟩
    rw [StageOK, h] at hok
    exact state_ne_temp hc hrow hactive hstate (hok.1.2 _ hlink)
  | true =>
    have hfree := hharmless hcancelled
    simp only [Harmless, h] at hfree
    have hkey : id ∈ w.packages.keys := AList.lookup_isSome.mp (by rw [hstate]; rfl)
    exact hfree.2 id hkey state hstate hlink

theorem core_write {i offset : Nat} {bs : List UInt8} (hc : Core hash w) (hrow : w.jobs.row j = some job)
    (h : job.stage = .writing i offset)
    (hharmless : job.cancelled = true → Harmless hash w job (.write bs)) :
    Core hash (({ w with files := write w.files i offset bs } : World).setStage j
      (.writing i (offset + bs.length))) := by
  have hactive : job.stage ≠ .ended := by rw [h]; nofun
  have howns : job.cancelled = false → OwnsName w.files i job.tempName := by
    intro hnot
    have hok := hc.stage j job hrow ⟨hnot, hactive⟩
    rwa [StageOK, h] at hok
  have hothers : ∀ k other, k ≠ j → w.jobs.row k = some other → other.Live → other.stage.inode ≠ some i := by
    intro k other hne hk hother
    cases hcancelled : job.cancelled with
    | false =>
      exact hc.apart j job k other hrow hk ⟨hcancelled, hactive⟩ hother (Ne.symm hne) i (by rw [h]; rfl)
    | true =>
      have hfree := hharmless hcancelled
      simp only [Harmless, h] at hfree
      exact hfree.1 k (Table.mem_ids.mpr (by rw [hk]; rfl)) other hk hother
  have hstates := written_not_recorded hc hrow h hharmless
  refine core_advance hc hrow hactive nofun (fun _ => rfl) (fun hnot => ownsName_write (howns hnot)) ?_ ?_ ?_
  · intro k other hne hk hother
    exact {
      name := rfl
      content := fun i' hi' => content_write (fun heq => hothers k other hne hk hother (heq ▸ hi'))
      temp := fun i' hi' => ownsName_write hi'
      state := fun state hstate => sameAt_write (hstates _ state hstate) }
  · intro _ i' hi' k other hne hk hother
    cases hi'
    exact hothers k other hne hk hother
  · exact sound_advance hc hrow (by rw [h]; nofun)
      (fun id state hstate => sameAt_write (hstates id state hstate))

theorem core_unlink (hc : Core hash w) (hrow : w.jobs.row j = some job) (h : job.stage = .failed) :
    Core hash (({ w with files := unlink w.files job.tempName } : World).setStage j .reporting) := by
  have hactive : job.stage ≠ .ended := by rw [h]; nofun
  refine core_advance hc hrow hactive nofun (fun _ => rfl) (fun _ => trivial) ?_ nofun ?_
  · intro k other hne hk hother
    have hlocal : other.localName ≠ job.tempName := by
      by_cases hid : job.pkg.packageID = other.pkg.packageID
      · exact (hc.names j job k other hrow hk hactive hother.2 hid).symm
      · exact (tempName_ne_localName hid).symm
    exact {
      name := inode_unlink hlocal
      content := fun _ _ => rfl
      temp := fun i hi => ownsName_unlink hi
      state := fun state hstate => sameAt_unlink (state_ne_temp hc hrow hactive hstate) }
  · exact sound_advance hc hrow (by rw [h]; nofun)
      (fun id state hstate => sameAt_unlink (state_ne_temp hc hrow hactive hstate))

theorem notCancelled_of_inWindow (hc : Core hash w) (hrow : w.jobs.row j = some job)
    (h : job.stage.inWindow = true) : job.cancelled = false := by
  by_contra hcancelled
  have hwindow := hc.window j job hrow (Bool.not_eq_false _ ▸ hcancelled)
  rw [h] at hwindow
  cases hwindow

theorem core_rename {i i' : Nat} (hc : Core hash w) (hrow : w.jobs.row j = some job)
    (h : job.stage = .verified i) (hlink : w.files.inode job.tempName = some i') :
    Core hash (({ w with files := rename w.files job.tempName job.localName } : World).setStage j
      (.renamed i)) := by
  have hnot := notCancelled_of_inWindow hc hrow (by rw [h]; rfl)
  have hactive : job.stage ≠ .ended := by rw [h]; nofun
  have hok := hc.stage j job hrow ⟨hnot, hactive⟩
  rw [StageOK, h] at hok
  obtain ⟨howns, hgood⟩ := hok
  obtain rfl := howns.2 i' hlink
  have hdiffers : ∀ k other, k ≠ j → w.jobs.row k = some other → other.Live →
      job.pkg.packageID ≠ other.pkg.packageID :=
    fun k other hne hk hother hid => hne (hc.unique hk hrow hother ⟨hnot, hactive⟩ hid.symm)
  obtain ⟨handle, hhandle, hjob⟩ := hc.live j job hrow ⟨hnot, hactive⟩
  refine core_advance hc hrow hactive nofun (fun hcancelled => ?_) (fun _ => ?_) ?_ ?_ ?_
  · rw [hnot] at hcancelled
    cases hcancelled
  · exact ⟨inode_rename_target.trans hlink, hgood⟩
  · intro k other hne hk hother
    have hid := hdiffers k other hne hk hother
    exact {
      name := inode_rename (tempName_ne_localName hid).symm (localName_ne hid).symm
      content := fun _ _ => rfl
      temp := fun i hi => ownsName_rename hi (tempName_ne hid).symm (tempName_ne_localName hid.symm)
      state := fun state hstate =>
        sameAt_rename (state_ne_temp hc hrow hactive hstate) (localName_ne hid).symm }
  · intro _ i₁ hi₁ k other hne hk hother
    cases hi₁
    exact hc.apart j job k other hrow hk ⟨hnot, hactive⟩ hother hne.symm _ (by rw [h]; rfl)
  · intro id state hstate
    by_cases hname : job.localName = localName id state.filename
    · have hid : job.pkg.packageID = id := by
        by_contra hid
        exact localName_ne hid hname
      subst hid
      refine .inr ⟨handle, { job with stage := .renamed i' }, i', hhandle, ?_, rfl, hname⟩
      rw [hjob]
      exact row_setStage hrow
    · have hsame := sameAt_rename (f := w.files) (state_ne_temp hc hrow hactive hstate) (Ne.symm hname)
      exact (hc.sound id state hstate).imp (fun hold => hold.frame hsame)
        (replaced_setStage hc hrow (fun i hi => by rw [h] at hi; cases hi))

theorem core_put {i : Nat} (hc : Core hash w) (hrow : w.jobs.row j = some job) (h : job.stage = .renamed i) :
    Core hash ((put w job.pkg).setStage j .recorded) := by
  have hnot := notCancelled_of_inWindow hc hrow (by rw [h]; rfl)
  have hlive : job.Live := ⟨hnot, by rw [h]; nofun⟩
  have hok := hc.stage j job hrow hlive
  rw [StageOK, h] at hok
  obtain ⟨hlink, hsize, hhash⟩ := hok
  have hsound : Sound hash w.files job.pkg.packageID
      { filename := base job.pkg.filename, sha256 := job.pkg.sha256, sizeBytes := job.pkg.sizeBytes } := by
    intro i₁ hi₁ _
    rw [localName_base] at hi₁
    obtain rfl := Option.some.inj (hi₁.symm.trans hlink)
    exact hhash
  have hlookup : ∀ id, id ≠ job.pkg.packageID → (put w job.pkg).packages.lookup id = w.packages.lookup id :=
    fun id hid => AList.lookup_insert_ne hid
  have hself : (put w job.pkg).packages.lookup job.pkg.packageID =
      some { filename := base job.pkg.filename, sha256 := job.pkg.sha256, sizeBytes := job.pkg.sizeBytes } :=
    AList.lookup_insert w.packages
  have hput : Core hash (put w job.pkg) := by
    refine ⟨hc.handle, hc.live, hc.window, hc.names, ?_, ?_, hc.apart, ?_⟩
    · intro k other state hk hactive hstate
      by_cases hid : other.pkg.packageID = job.pkg.packageID
      · rw [hid, hself] at hstate
        obtain rfl := Option.some.inj hstate
        rw [localName_base, hid]
        exact hc.names k other j job hk hrow hactive hlive.2 hid
      · rw [hlookup _ hid] at hstate
        exact hc.states k other state hk hactive hstate
    · intro k other hk hother
      by_cases hkj : k = j
      · subst hkj
        obtain rfl := Option.some.inj (hrow.symm.trans hk)
        rw [StageOK, h]
        exact ⟨hlink, hsize, hhash⟩
      · have hid : other.pkg.packageID ≠ job.pkg.packageID :=
          fun hid => hkj (hc.unique hk hrow hother hlive hid)
        have hold := hc.stage k other hk hother
        unfold StageOK at hold ⊢
        have hsettled : Settled w.files w.packages other.pkg →
            Settled w.files (put w job.pkg).packages other.pkg := by
          rintro ⟨state, i₁, hstate, hrest⟩
          exact ⟨state, i₁, (hlookup _ hid).trans hstate, hrest⟩
        split at hold <;> first | exact hold | exact hsettled hold
    · intro id state hstate
      by_cases hid : id = job.pkg.packageID
      · subst hid
        rw [hself] at hstate
        exact .inl (Option.some.inj hstate ▸ hsound)
      · rw [hlookup _ hid] at hstate
        exact hc.sound id state hstate
  refine @core_advance hash (put w job.pkg) j job w.files .recorded hput hrow hlive.2 nofun
    (fun _ => rfl) ?_ ?_ nofun ?_
  · refine fun _ => ⟨_, i, hself, rfl, rfl, ?_, hsize⟩
    rw [localName_base]
    exact hlink
  · exact fun k other _ _ _ => untouched_refl w.files _ other
  · intro id state hstate
    by_cases hid : id = job.pkg.packageID
    · subst hid
      rw [hself] at hstate
      exact .inl (Option.some.inj hstate ▸ hsound)
    · exact (hput.sound id state hstate).imp_right
        (replaced_setStage hput hrow (fun _ _ => Ne.symm hid))

/-- The job ends, and its handle is gone. -/
theorem core_end {handles : AList (fun _ : Int => JobHandle)} (hc : Core hash w)
    (hrow : w.jobs.row j = some job) (h : job.stage = .finishing)
    (hkept : ∀ id handle, handles.lookup id = some handle →
      w.handles.lookup id = some handle ∧ handle.job ≠ j)
    (hothers : ∀ id handle, w.handles.lookup id = some handle → handle.job ≠ j →
      handles.lookup id = some handle) :
    Core hash (({ w with handles := handles } : World).setStage j .ended) := by
  have hrow' : ({ w with handles := handles } : World).jobs.row j = some job := hrow
  have hactive : job.stage ≠ .ended := by rw [h]; nofun
  refine ⟨?_, ?_, ?_, ?_, ?_, ?_, ?_, ?_⟩
  · intro id handle hhandle
    obtain ⟨hold, hne⟩ := hkept id handle hhandle
    obtain ⟨other, hother, hrest⟩ := hc.handle id handle hold
    exact ⟨other, (row_setStage_ne hne).trans hother, hrest⟩
  · intro k other hk hother
    rcases row_setStage_cases hrow' hk with ⟨-, rfl⟩ | ⟨hne, hold⟩
    · exact absurd rfl hother.2
    · obtain ⟨handle, hhandle, rfl⟩ := hc.live k other hold hother
      exact ⟨handle, hothers _ handle hhandle hne, rfl⟩
  · intro k other hk hcancelled
    rcases row_setStage_cases hrow' hk with ⟨-, rfl⟩ | ⟨-, hold⟩
    · rfl
    · exact hc.window k other hold hcancelled
  · intro k other k' other' hk hk' hactive₁ hactive₂ hid
    rcases row_setStage_cases hrow' hk with ⟨-, rfl⟩ | ⟨-, hold⟩
    · exact absurd rfl hactive₁
    · rcases row_setStage_cases hrow' hk' with ⟨-, rfl⟩ | ⟨-, hold'⟩
      · exact absurd rfl hactive₂
      · exact hc.names k other k' other' hold hold' hactive₁ hactive₂ hid
  · intro k other state hk hactive₁ hstate
    rcases row_setStage_cases hrow' hk with ⟨-, rfl⟩ | ⟨-, hold⟩
    · exact absurd rfl hactive₁
    · exact hc.states k other state hold hactive₁ hstate
  · intro k other hk hother
    rcases row_setStage_cases hrow' hk with ⟨-, rfl⟩ | ⟨-, hold⟩
    · exact absurd rfl hother.2
    · exact hc.stage k other hold hother
  · intro k other k' other' hk hk' hother hother' hne i hi
    rcases row_setStage_cases hrow' hk with ⟨-, rfl⟩ | ⟨-, hold⟩
    · exact absurd rfl hother.2
    · rcases row_setStage_cases hrow' hk' with ⟨-, rfl⟩ | ⟨-, hold'⟩
      · exact absurd rfl hother'.2
      · exact hc.apart k other k' other' hold hold' hother hother' hne i hi
  · intro id state hstate
    refine (hc.sound id state hstate).imp_right ?_
    rintro ⟨handle, other, i, hhandle, hother, hstage, hname⟩
    have hne : handle.job ≠ j := by
      intro heq
      rw [heq, hrow] at hother
      obtain rfl := Option.some.inj hother
      rw [h] at hstage
      cases hstage
    exact ⟨handle, other, i, hothers id handle hhandle hne, (row_setStage_ne hne).trans hother, hstage, hname⟩

/-- What `finishJob` does when the job was not cancelled, and when it was. -/
theorem finishJob_handles (hc : Core hash w) (hrow : w.jobs.row j = some job) (h : job.stage = .finishing)
    (hharmless : job.cancelled = true → Harmless hash w job .next) :
    ∃ handles, finishJob w job.pkg = { w with handles := handles } ∧
      ∀ id, handles.lookup id =
        if job.cancelled = false ∧ id = job.pkg.packageID then none else w.handles.lookup id := by
  have hactive : job.stage ≠ .ended := by rw [h]; nofun
  cases hcancelled : job.cancelled with
  | false =>
    obtain ⟨handle, hhandle, hjob⟩ := hc.live j job hrow ⟨hcancelled, hactive⟩
    obtain ⟨job', hjob', -, -, hsame⟩ := hc.handle _ handle hhandle
    rw [hjob, hrow] at hjob'
    obtain rfl := Option.some.inj hjob'
    refine ⟨w.handles.erase job.pkg.packageID, ?_, fun id => ?_⟩
    · simp only [finishJob, hhandle, if_pos hsame]
    · by_cases hid : id = job.pkg.packageID
      · rw [if_pos ⟨rfl, hid⟩, hid, AList.lookup_erase]
      · rw [if_neg (fun hboth => hid hboth.2), AList.lookup_erase_ne hid]
  | true =>
    have hother := hharmless hcancelled
    simp only [Harmless, h] at hother
    refine ⟨w.handles, ?_, fun id => (if_neg (fun hboth => nomatch hboth.1)).symm⟩
    unfold finishJob
    cases hhandle : w.handles.lookup job.pkg.packageID with
    | none => rfl
    | some handle => exact if_neg (hother handle hhandle)

theorem core_finish (hc : Core hash w) (hrow : w.jobs.row j = some job) (h : job.stage = .finishing)
    (hharmless : job.cancelled = true → Harmless hash w job .next) :
    Core hash ((finishJob w job.pkg).setStage j .ended) := by
  obtain ⟨handles, heq, hlookup⟩ := finishJob_handles hc hrow h hharmless
  have hactive : job.stage ≠ .ended := by rw [h]; nofun
  have howner : ∀ id handle, w.handles.lookup id = some handle →
      (handle.job = j ↔ job.cancelled = false ∧ id = job.pkg.packageID) := by
    intro id handle hhandle
    obtain ⟨other, hother, hlive, hid, -⟩ := hc.handle id handle hhandle
    constructor
    · intro hj
      rw [hj, hrow] at hother
      obtain rfl := Option.some.inj hother
      exact ⟨hlive.1, hid.symm⟩
    · rintro ⟨hnot, rfl⟩
      exact hc.unique hother hrow hlive ⟨hnot, hactive⟩ hid
  rw [heq]
  refine core_end hc hrow h (fun id handle hhandle => ?_) (fun id handle hhandle hne => ?_)
  · rw [hlookup] at hhandle
    split_ifs at hhandle with hgone
    exact ⟨hhandle, fun hj => hgone ((howner id handle hhandle).mp hj)⟩
  · rw [hlookup, if_neg (fun hgone => hne ((howner id handle hhandle).mpr hgone)), hhandle]

/-- A step of a job keeps the invariant when it is harmless or the job was not cancelled. -/
theorem core_stepJob (concurrency : Nat) (hc : Core hash w) (hrow : w.jobs.row j = some job) (a : JobStep)
    (hharmless : job.cancelled = true → Harmless hash w job a) :
    Core hash (stepJob hash concurrency w j job a) := by
  have hspec := @advance_spec hash concurrency w j job a
  generalize stepJob hash concurrency w j job a = w' at hspec ⊢
  cases hspec with
  | stay => exact hc
  | move h => exact core_congr (core_move hc hrow h hharmless) rfl rfl rfl rfl
  | @emit event stage h =>
    have hadvance : Core hash (w.setStage j stage) := by
      refine @core_advance hash w j job w.files stage hc hrow ?_ ?_ ?_ ?_
        (fun k other _ _ _ => untouched_refl w.files w.packages other) ?_ ?_
      · cases h with
        | syncing h => rw [h]; nofun
        | current h => rw [h]; nofun
        | error h => rw [h]; nofun
      · cases h <;> nofun
      · cases h <;> exact fun _ => rfl
      · intro hnot
        cases h with
        | syncing h => trivial
        | current h =>
          have hok := hc.stage j job hrow ⟨hnot, by rw [h]; nofun⟩
          rw [StageOK, h] at hok
          exact hok
        | error h => trivial
      · cases h <;> nofun
      · refine sound_advance hc hrow ?_ (fun id state _ => sameAt_refl w.files _)
        cases h with
        | syncing h => rw [h]; nofun
        | current h => rw [h]; nofun
        | error h => rw [h]; nofun
    exact core_congr hadvance rfl rfl rfl rfl
  | create h => exact core_create hc hrow h hharmless
  | write h => exact core_write hc hrow h hharmless
  | unlink h => exact core_congr (core_unlink hc hrow h) rfl rfl rfl rfl
  | rename h hlink => exact core_rename hc hrow h hlink
  | put h => exact core_put hc hrow h
  | finish h => exact core_finish hc hrow h hharmless

end Advance

end MirrorFiles
