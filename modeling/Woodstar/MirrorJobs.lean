import Mathlib.Data.List.AList
import Mathlib.Data.List.Dedup
import Mathlib.Data.List.TakeWhile
import Woodstar.GoText
import Woodstar.InodeFiles
import Woodstar.KeyedRows

/-!
# Download jobs of a mirror worker

`internal/munki/mdp/worker`: one session applies desired sets to the mirror and runs a
job for each missing package. A step is one section under a mutex or one call of the file
system. A cancelled job loses its handle; it goes on until it looks at its context.
-/
namespace MirrorJobs

open GoText (formatInt)
open InodeFiles
open KeyedRows (Table)

/-- `filepath.Base`. -/
def base (path : List Char) : List Char :=
  if path = [] then ['.']
  else
    let last := ((path.reverse.dropWhile (fun c => c == '/')).takeWhile (fun c => c != '/')).reverse
    if last = [] then ['/'] else last

/-- The name of `localPath` in the data directory. `filepath.Join` drops a final slash. -/
def localName (packageID : Int) (filename : List Char) : List Char :=
  formatInt packageID ++ '-' :: (if base filename = ['/'] then [] else base filename)

def tempName (packageID : Int) (filename : List Char) : List Char :=
  localName packageID filename ++ ".download".toList

structure DesiredPackage where
  packageID : Int
  filename : List Char
  sha256 : String
  sizeBytes : Int
  deriving DecidableEq, Repr

/-- A full desired list. It has a package once. -/
structure DesiredSet where
  pkgs : List DesiredPackage := []
  distinct : (pkgs.map DesiredPackage.packageID).Nodup := by decide

def DesiredSet.ids (set : DesiredSet) : List Int := set.pkgs.map DesiredPackage.packageID

structure PackageState where
  filename : List Char
  sha256 : String
  sizeBytes : Int
  deriving DecidableEq, Repr

inductive PackageEvent where
  | syncing (packageID : Int)
  | current (packageID : Int) (sha256 : String)
  | error (packageID : Int)
  deriving DecidableEq, Repr

def PackageEvent.packageID : PackageEvent → Int
  | .syncing id => id
  | .current id _ => id
  | .error id => id

/-- `job` is the job that `cancel` reaches. -/
structure JobHandle where
  job : Int
  sha : String
  size : Int
  deriving DecidableEq, Repr

/-- Where a job is in `runJob`. The inode of a stage is the one it has open or has verified. -/
inductive Stage where
  | syncing
  | attempting
  | queued
  | requesting
  | opening
  | writing (inode offset : Nat)
  | downloaded
  | sizing (inode : Nat)
  | checking (inode : Nat) (read : List UInt8)
  | verified (inode : Nat)
  | renamed (inode : Nat)
  | recorded
  | announcing
  | failed
  | reporting
  | notifying
  | waiting
  | finishing
  | ended
  deriving DecidableEq, Repr

def Stage.inode : Stage → Option Nat
  | .writing i _ => some i
  | .sizing i => some i
  | .checking i _ => some i
  | .verified i => some i
  | .renamed i => some i
  | _ => none

/-- Between the verification and `mirror.put`. -/
def Stage.inWindow : Stage → Bool
  | .verified _ => true
  | .renamed _ => true
  | _ => false

structure Job where
  pkg : DesiredPackage
  cancelled : Bool := false
  stage : Stage := .syncing
  deriving DecidableEq, Repr

/-- `pruneBytes` between its calls. -/
inductive Pruning where
  | idle
  | unlinking (id : Int) (filename : List Char)
  | forgetting (id : Int)
  deriving DecidableEq, Repr

/-- `applyDesiredSet` after its section: the packages to announce and those to prune. -/
structure Applying where
  current : List DesiredPackage
  prune : List Int
  pruning : Pruning := .idle
  deriving DecidableEq, Repr

/-- `slots` counts the transfers. `events` has the newest first, `last` is the set that was
applied last. -/
structure World where
  files : Files (List Char) UInt8 := {}
  packages : AList (fun _ : Int => PackageState) := ∅
  handles : AList (fun _ : Int => JobHandle) := ∅
  jobs : Table Job := .empty
  slots : Nat := 0
  applying : Option Applying := none
  events : List PackageEvent := []
  last : DesiredSet := {}

/-- The job runs and was not cancelled. -/
def Job.Live (job : Job) : Prop := job.cancelled = false ∧ job.stage ≠ .ended

instance (job : Job) : Decidable job.Live := inferInstanceAs (Decidable (_ ∧ _))

def Job.cancel (job : Job) : Job := { job with cancelled := true }

def Job.localName (job : Job) : List Char := MirrorJobs.localName job.pkg.packageID job.pkg.filename

def Job.tempName (job : Job) : List Char := MirrorJobs.tempName job.pkg.packageID job.pkg.filename

def satisfies (w : World) (packageID : Int) (sha256 : String) (sizeBytes : Int) : Bool :=
  match w.packages.lookup packageID with
  | none => false
  | some state =>
    decide (state.sha256 = sha256 ∧ state.sizeBytes = sizeBytes) &&
      match w.files.inode (localName packageID state.filename) with
      | none => false
      | some i => decide (((w.files.content i).length : Int) = sizeBytes)

def cancelJob (w : World) (packageID : Int) : World :=
  match w.handles.lookup packageID with
  | some handle =>
    { w with jobs := w.jobs.modify handle.job Job.cancel, handles := w.handles.erase packageID }
  | none => w

def startJob (w : World) (pkg : DesiredPackage) : World :=
  { w with
    jobs := w.jobs.insert { pkg := pkg }
    handles := w.handles.insert pkg.packageID
      { job := w.jobs.next, sha := pkg.sha256, size := pkg.sizeBytes } }

def ensureJob (w : World) (pkg : DesiredPackage) : World :=
  match w.handles.lookup pkg.packageID with
  | some handle =>
    if handle.sha = pkg.sha256 ∧ handle.size = pkg.sizeBytes then w
    else startJob (cancelJob w pkg.packageID) pkg
  | none => startJob w pkg

/-- The packages mirrored or in flight that are not wanted. -/
def prunable (w : World) (wanted : List Int) : List Int :=
  ((w.handles.keys ++ w.packages.keys).filter (fun id => decide (id ∉ wanted))).dedup

/-- The section of `applyDesiredSet` under the session's mutex. -/
def applyDesiredSet (w : World) (set : DesiredSet) : World :=
  let holds := fun pkg : DesiredPackage => satisfies w pkg.packageID pkg.sha256 pkg.sizeBytes
  let current := set.pkgs.filter holds
  let start := set.pkgs.filter (fun pkg => !holds pkg)
  let kept := (current.map DesiredPackage.packageID).foldl cancelJob w
  let prune := prunable kept set.ids
  let started := start.foldl ensureJob (prune.foldl cancelJob kept)
  { started with applying := some { current := current, prune := prune }, last := set }

/-- `skip` sees the cancelled context, `fail` is an error of the call. -/
inductive JobStep where
  | next
  | skip
  | fail
  | write (bs : List UInt8)
  | read (n : Nat)
  deriving DecidableEq, Repr

def World.setStage (w : World) (j : Int) (stage : Stage) : World :=
  { w with jobs := w.jobs.modify j (fun job => { job with stage := stage }) }

def World.emit (w : World) (event : PackageEvent) : World := { w with events := event :: w.events }

def World.release (w : World) : World := { w with slots := w.slots - 1 }

/-- `mirror.put` of what was fetched. -/
def put (w : World) (pkg : DesiredPackage) : World :=
  let state : PackageState :=
    { filename := base pkg.filename, sha256 := pkg.sha256, sizeBytes := pkg.sizeBytes }
  { w with packages := w.packages.insert pkg.packageID state }

def finishJob (w : World) (pkg : DesiredPackage) : World :=
  match w.handles.lookup pkg.packageID with
  | some handle =>
    if handle.sha = pkg.sha256 ∧ handle.size = pkg.sizeBytes then
      { w with handles := w.handles.erase pkg.packageID }
    else w
  | none => w

/-- What was read is the whole file and hashes to the wanted digest. -/
def passes (hash : List UInt8 → String) (content read : List UInt8) (job : Job) : Bool :=
  decide (content.length ≤ read.length ∧ hash read = job.pkg.sha256)

variable (hash : List UInt8 → String) (concurrency : Nat)

/-- A step that the stage does not have leaves the job where it is. -/
def stepJob (w : World) (j : Int) (job : Job) (a : JobStep) : World :=
  match job.stage, a with
  | .syncing, .next => (w.emit (.syncing job.pkg.packageID)).setStage j .attempting
  | .syncing, .skip => if job.cancelled = true then w.setStage j .attempting else w
  | .attempting, .next => w.setStage j (if job.cancelled = true then .finishing else .queued)
  | .queued, .next =>
    if w.slots < concurrency then { w with slots := w.slots + 1 }.setStage j .requesting else w
  | .queued, .skip => if job.cancelled = true then w.setStage j .reporting else w
  | .requesting, .next => w.setStage j .opening
  | .requesting, .fail => w.release.setStage j .reporting
  | .opening, .next =>
    { w with files := create w.files job.tempName }.setStage j
      (.writing (opened w.files job.tempName) 0)
  | .opening, .fail => w.setStage j .failed
  | .writing i offset, .write bs =>
    { w with files := write w.files i offset bs }.setStage j (.writing i (offset + bs.length))
  | .writing _ _, .next => w.setStage j .downloaded
  | .writing _ _, .fail => w.setStage j .failed
  | .downloaded, .next =>
    match w.files.inode job.tempName with
    | some i => w.setStage j (.sizing i)
    | none => w.setStage j .failed
  | .downloaded, .fail => w.setStage j .failed
  | .sizing i, .next =>
    w.setStage j (if ((w.files.content i).length : Int) = job.pkg.sizeBytes then .checking i [] else .failed)
  | .sizing _, .fail => w.setStage j .failed
  | .checking i read, .read n =>
    w.setStage j (.checking i (read ++ ((w.files.content i).drop read.length).take n))
  | .checking i read, .next =>
    if (w.files.content i).length ≤ read.length then
      w.setStage j (if passes hash (w.files.content i) read job = true then .verified i else .failed)
    else w
  | .checking _ _, .fail => w.setStage j .failed
  | .verified i, .next =>
    match w.files.inode job.tempName with
    | some _ =>
      { w with files := rename w.files job.tempName job.localName }.setStage j (.renamed i)
    | none => w.setStage j .failed
  | .verified _, .fail => w.setStage j .failed
  | .renamed _, .next => (put w job.pkg).setStage j .recorded
  | .recorded, .next => w.release.setStage j .announcing
  | .announcing, .next =>
    (w.emit (.current job.pkg.packageID job.pkg.sha256)).setStage j .finishing
  | .announcing, .skip => if job.cancelled = true then w.setStage j .finishing else w
  | .failed, .next =>
    { w.release with files := unlink w.files job.tempName }.setStage j .reporting
  | .reporting, .next => w.setStage j (if job.cancelled = true then .waiting else .notifying)
  | .notifying, .next => (w.emit (.error job.pkg.packageID)).setStage j .waiting
  | .notifying, .skip => if job.cancelled = true then w.setStage j .waiting else w
  | .waiting, .next => w.setStage j .attempting
  | .waiting, .skip => if job.cancelled = true then w.setStage j .finishing else w
  | .finishing, .next => (finishJob w job.pkg).setStage j .ended
  | _, _ => w

inductive Event where
  | desired (set : DesiredSet)
  | announce
  | prune (id : Int)
  | unlink
  | forget
  | applied
  | job (j : Int) (a : JobStep)

def World.setApplying (w : World) (applying : Option Applying) : World := { w with applying := applying }

/-- The rest of `applyDesiredSet`. -/
def stepApplying (w : World) (applying : Applying) : Event → World
  | .announce =>
    match applying.current with
    | pkg :: rest =>
      (w.emit (.current pkg.packageID pkg.sha256)).setApplying (some { applying with current := rest })
    | [] => w
  | .prune id =>
    if applying.current = [] ∧ applying.pruning = .idle ∧ id ∈ applying.prune then
      match w.packages.lookup id with
      | some state => w.setApplying (some { applying with pruning := .unlinking id state.filename })
      | none => w.setApplying (some { applying with pruning := .forgetting id })
    else w
  | .unlink =>
    match applying.pruning with
    | .unlinking id filename =>
      { w with files := InodeFiles.unlink w.files (localName id filename) }.setApplying
        (some { applying with pruning := .forgetting id })
    | _ => w
  | .forget =>
    match applying.pruning with
    | .forgetting id =>
      { w with packages := w.packages.erase id }.setApplying
        (some { applying with prune := applying.prune.filter (fun other => decide (other ≠ id)), pruning := .idle })
    | _ => w
  | .applied => if applying.current = [] ∧ applying.prune = [] then w.setApplying none else w
  | _ => w

def step (w : World) : Event → World
  | .job j a =>
    match w.jobs.row j with
    | some job => stepJob hash concurrency w j job a
    | none => w
  | .desired set => if w.applying = none then applyDesiredSet w set else w
  | e =>
    match w.applying with
    | some applying => stepApplying w applying e
    | none => w

section Names

variable {id id' : Int} {filename filename' : List Char}

theorem base_base (path : List Char) : base (base path) = base path := by
  unfold base
  by_cases hnil : path = []
  · rw [if_pos hnil]
    decide
  · rw [if_neg hnil]
    generalize hlast : (path.reverse.dropWhile (fun c => c == '/')).takeWhile (fun c => c != '/') = last
    by_cases hempty : last.reverse = []
    · simp only [if_pos hempty]
      decide
    · have hslash : ∀ c ∈ last, (c != '/') = true := by
        intro c hc
        rw [← hlast] at hc
        exact List.mem_takeWhile_imp (p := fun c => c != '/') hc
      have hdrop : last.dropWhile (fun c => c == '/') = last := by
        cases last with
        | nil => rfl
        | cons c cs =>
          have hc := hslash c List.mem_cons_self
          rw [List.dropWhile_cons_of_neg]
          simpa using hc
      have htake : last.takeWhile (fun c => c != '/') = last := List.takeWhile_eq_self_iff.mpr hslash
      simp only [if_neg hempty, List.reverse_reverse, hdrop, htake]

theorem localName_base (id : Int) (filename : List Char) : localName id (base filename) = localName id filename := by
  unfold localName
  rw [base_base]

theorem tempName_eq : ∃ rest, tempName id filename = formatInt id ++ '-' :: rest := by
  refine ⟨(if base filename = ['/'] then [] else base filename) ++ ".download".toList, ?_⟩
  rw [tempName, localName, List.append_assoc, List.cons_append]

theorem localName_ne (h : id ≠ id') : localName id filename ≠ localName id' filename' :=
  fun heq => h (GoText.eq_of_formatInt_append heq)

theorem tempName_ne_localName (h : id ≠ id') : tempName id filename ≠ localName id' filename' := by
  obtain ⟨rest, hrest⟩ := @tempName_eq id filename
  exact fun heq => h (GoText.eq_of_formatInt_append (hrest.symm.trans heq))

theorem tempName_ne (h : id ≠ id') : tempName id filename ≠ tempName id' filename' := by
  obtain ⟨rest, hrest⟩ := @tempName_eq id filename
  obtain ⟨rest', hrest'⟩ := @tempName_eq id' filename'
  exact fun heq => h (GoText.eq_of_formatInt_append (hrest.symm.trans (heq.trans hrest')))

theorem tempName_ne_self : tempName id filename ≠ localName id filename := by
  intro h
  have hlength := congrArg List.length h
  rw [tempName, List.length_append] at hlength
  simp at hlength

end Names

end MirrorJobs
