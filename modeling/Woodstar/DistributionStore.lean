import Woodstar.KeyedRows
import Woodstar.Primitives
import Mathlib.Data.List.Sort

/-!
# Munki distribution points

`internal/munki/mdp`: the tables and what the store's statements and operations do to
them. A mutation is one that `normalize` and `validate` let through, its networks are
parsed. Times are microseconds; `now` is the start of the transaction.
-/
namespace DistributionStore

open KeyedRows (Table)
open Primitives (Fault)

def workerSessionTTL : Int := 15000000
def workerRejectionTTL : Int := 300000000

inductive PackageStatus where
  | pending | syncing | current | error
  deriving DecidableEq, Repr

structure DistributionPointWorker where
  compatible : Bool
  protocolVersion : Option Int := none
  buildVersion : String := ""
  deriving DecidableEq, Repr

/-- `netip.Addr`. -/
inductive Addr where
  | invalid
  | v4 (bits : BitVec 32)
  | v6 (bits : BitVec 128) (zone : String)
  deriving DecidableEq, Repr

/-- A client network as PostgreSQL's `inet` reads it; it may have host bits. -/
inductive Network where
  | v4 (bits : BitVec 32) (length : Nat)
  | v6 (bits : BitVec 128) (length : Nat)
  deriving DecidableEq, Repr

/-- An IPv4-mapped address becomes the IPv4 address and loses its zone. -/
def Addr.unmap : Addr → Addr
  | .v6 bits zone => if bits >>> 32 = 0xffff#128 then .v4 (bits.setWidth 32) else .v6 bits zone
  | addr => addr

def Addr.isValid : Addr → Bool
  | .invalid => false
  | _ => true

/-- The cast to `inet` fails on a zone. -/
def Addr.isInet : Addr → Bool
  | .invalid => false
  | .v4 _ => true
  | .v6 _ zone => zone == ""

/-- `<<=` of a single address. -/
def Network.contains : Network → Addr → Bool
  | .v4 network length, .v4 bits => bits >>> (32 - length) == network >>> (32 - length)
  | .v6 network length, .v6 bits _ => bits >>> (128 - length) == network >>> (128 - length)
  | _, _ => false

structure DistributionPointMutation where
  name : String
  enabled : Bool
  clientCIDRs : List Network := []
  clientBaseURL : String := ""
  deriving DecidableEq, Repr

structure PointRow where
  name : String
  enabled : Bool
  position : Int
  clientCIDRs : List Network
  clientBaseURL : String
  key : String
  deriving DecidableEq, Repr

structure WorkerSession where
  connectionID : String
  protocolVersion : Int
  buildVersion : String
  expiresAt : Int
  deriving DecidableEq, Repr

structure WorkerRejection where
  protocolVersion : Option Int
  buildVersion : String
  expiresAt : Int
  deriving DecidableEq, Repr

structure PackageState where
  status : PackageStatus
  reportedSHA256 : Option String
  error : String
  deriving DecidableEq, Repr

/-- `packages` holds the hash of each package's installer object. -/
structure Db where
  points : Table PointRow := .empty
  packages : Table (Option String) := .empty
  sessions : Int → Option WorkerSession := fun _ => none
  rejections : Int → Option WorkerRejection := fun _ => none
  states : Int → Int → Option PackageState := fun _ _ => none

inductive Failure where
  | workerSessionInvalid
  | fault (f : Fault)
  deriving DecidableEq, Repr

def PointRow.accepts (point : PointRow) (key : String) : Bool := point.enabled && point.key == key

def lockWorkerCredential (db : Db) (pointID : Int) (key : String) : Except Failure Unit :=
  if (db.points.row pointID).any (fun point => point.accepts key) = true then .ok ()
  else .error .workerSessionInvalid

def newSession (connectionID : String) (worker : DistributionPointWorker) (now : Int) : WorkerSession where
  connectionID := connectionID
  protocolVersion := worker.protocolVersion.getD 0
  buildVersion := worker.buildVersion
  expiresAt := now + workerSessionTTL

def newRejection (worker : DistributionPointWorker) (now : Int) : WorkerRejection where
  protocolVersion := worker.protocolVersion
  buildVersion := worker.buildVersion
  expiresAt := now + workerRejectionTTL

/-- The session is the connection's and has not expired. -/
def WorkerSession.current (session : WorkerSession) (connectionID : String) (now : Int) : Bool :=
  session.connectionID == connectionID && decide (now < session.expiresAt)

def WorkerSession.renew (session : WorkerSession) (now : Int) : WorkerSession :=
  { session with expiresAt := now + workerSessionTTL }

def reportedSHA256 (sha256 : String) : Option String := if sha256 = "" then none else some sha256

def Db.setSession (db : Db) (pointID : Int) (session : Option WorkerSession) : Db :=
  { db with sessions := Function.update db.sessions pointID session }

def Db.setRejection (db : Db) (pointID : Int) (rejection : Option WorkerRejection) : Db :=
  { db with rejections := Function.update db.rejections pointID rejection }

def Db.setState (db : Db) (pointID packageID : Int) (state : PackageState) : Db :=
  { db with
    states := Function.update db.states pointID (Function.update (db.states pointID) packageID (some state)) }

def Db.modifyPoint (db : Db) (pointID : Int) (f : PointRow → PointRow) : Db :=
  { db with points := db.points.modify pointID f }

def clearWorkerStates (db : Db) (pointID : Int) : Db :=
  (db.setSession pointID none).setRejection pointID none

def PointRow.write (m : DistributionPointMutation) (point : PointRow) : PointRow :=
  { point with
    name := m.name
    enabled := m.enabled
    clientCIDRs := m.clientCIDRs
    clientBaseURL := m.clientBaseURL }

def PointRow.rotate (key : String) (point : PointRow) : PointRow := { point with key := key }

/-- The row goes with everything that references it. -/
def Db.deletePoint (db : Db) (pointID : Int) : Db :=
  { clearWorkerStates db pointID with
    points := db.points.erase pointID
    states := Function.update db.states pointID (fun _ => none) }

/-- A worker that may claim a session. -/
def claimable (connectionID : String) (worker : DistributionPointWorker) : Bool :=
  connectionID != "" && worker.compatible && worker.protocolVersion.isSome

def claimWorkerSession (db : Db) (pointID : Int) (key connectionID : String)
    (worker : DistributionPointWorker) (now : Int) : Except Failure Db :=
  if claimable connectionID worker = false then
    .error (.fault (.invalidInput "compatible worker session is incomplete"))
  else do
    lockWorkerCredential db pointID key
    return (db.setSession pointID (some (newSession connectionID worker now))).setRejection pointID none

def observeRejectedWorker (db : Db) (pointID : Int) (key : String) (worker : DistributionPointWorker)
    (now : Int) : Except Failure Db :=
  if worker.compatible = true then
    .error (.fault (.invalidInput "rejected worker cannot be compatible"))
  else do
    lockWorkerCredential db pointID key
    return db.setRejection pointID (some (newRejection worker now))

def renewWorkerSession (db : Db) (pointID : Int) (connectionID : String) (now : Int) :
    Except Failure Db :=
  match db.sessions pointID with
  | none => .error .workerSessionInvalid
  | some session =>
    if session.current connectionID now = true ∧
        (db.points.row pointID).any PointRow.enabled = true then
      .ok (db.setSession pointID (some (session.renew now)))
    else .error .workerSessionInvalid

def releaseWorkerSession (db : Db) (pointID : Int) (connectionID : String) : Db :=
  if (db.sessions pointID).any (fun session => session.connectionID == connectionID) = true then
    db.setSession pointID none
  else db

def recordPackageState (db : Db) (pointID : Int) (connectionID : String) (packageID : Int)
    (status : PackageStatus) (sha256 errMessage : String) (now : Int) : Except Failure Db :=
  if ¬((db.points.row pointID).any PointRow.enabled = true ∧
      (db.sessions pointID).any (fun session => session.current connectionID now) = true) then
    .error .workerSessionInvalid
  else if (db.packages.row packageID).isSome = false then
    .error (.fault (.database "munki_distribution_package_states_package_id_fkey"))
  else .ok (db.setState pointID packageID ⟨status, reportedSHA256 sha256, errMessage⟩)

/-- Another point has the value in a column that is unique. -/
def Db.taken (db : Db) (pointID : Int) (column : PointRow → String) (value : String) : Bool :=
  db.points.ids.any (fun id => id != pointID && (db.points.row id).any (fun point => column point == value))

def nextPosition (db : Db) : Int :=
  (((db.points.ids.filterMap (fun id => (db.points.row id).map PointRow.position)).max?).map (· + 1)).getD 0

def create (db : Db) (m : DistributionPointMutation) (key : String) : Except Failure Db :=
  if db.taken 0 PointRow.name m.name = true ∨ db.taken 0 PointRow.key key = true then
    .error (.fault .alreadyExists)
  else
    .ok { db with
      points := db.points.insert ⟨m.name, m.enabled, nextPosition db, m.clientCIDRs, m.clientBaseURL, key⟩ }

def update (db : Db) (pointID : Int) (m : DistributionPointMutation) : Except Failure Db :=
  if (db.points.row pointID).isSome = false then .error (.fault .notFound)
  else if db.taken pointID PointRow.name m.name = true then .error (.fault .alreadyExists)
  else
    let written := db.modifyPoint pointID (PointRow.write m)
    .ok (if m.enabled = true then written else clearWorkerStates written pointID)

def delete (db : Db) (pointID : Int) : Except Failure Db :=
  if (db.points.row pointID).isSome = false then .error (.fault .notFound)
  else .ok (db.deletePoint pointID)

def rotateKey (db : Db) (pointID : Int) (key : String) : Except Failure Db :=
  if (db.points.row pointID).isSome = false then .error (.fault .notFound)
  else if db.taken pointID PointRow.key key = true then .error (.fault .alreadyExists)
  else .ok (clearWorkerStates (db.modifyPoint pointID (PointRow.rotate key)) pointID)

/-- The positions become those of the list, which has to name every point once. -/
def reorder (db : Db) (orderedIDs : List Int) : Except Failure Db :=
  if orderedIDs.Perm db.points.ids then
    .ok { db with
      points := orderedIDs.zipIdx.foldl (fun t entry =>
        t.modify entry.1 (fun point => { point with position := entry.2 })) db.points }
  else .error (.fault (.invalidInput "ordered_ids must exactly match existing distribution point IDs"))

structure ClientCandidate where
  id : Int
  name : String
  position : Int
  key : String
  clientBaseURL : String
  deriving DecidableEq, Repr

structure ResolvedPoint where
  id : Int
  key : String
  clientBaseURL : String
  deriving DecidableEq, Repr

/-- The order of the points: by position, then by id. -/
def ClientCandidate.before (a b : ClientCandidate) : Bool :=
  decide (a.position < b.position ∨ a.position = b.position ∧ a.id ≤ b.id)

def Db.candidates (db : Db) (clientIP : Addr) : List ClientCandidate :=
  (db.points.ids.filterMap (fun id =>
    (db.points.row id).bind (fun point =>
      if (point.enabled && point.clientCIDRs.any (fun network => network.contains clientIP)) = true then
        some ⟨id, point.name, point.position, point.key, point.clientBaseURL⟩
      else none))).mergeSort ClientCandidate.before

def candidatesForClients (db : Db) (clientIPs : List Addr) :
    Except Failure (List (Addr × List ClientCandidate)) :=
  let addresses := ((clientIPs.map Addr.unmap).filter Addr.isValid).eraseDups
  if addresses.any (fun addr => !addr.isInet) = true then
    .error (.fault (.database "invalid input syntax for type inet"))
  else .ok (addresses.map (fun addr => (addr, db.candidates addr)))

def candidatesForClient (db : Db) (clientIP : Addr) : Except Failure (List ClientCandidate) := do
  let byAddress ← candidatesForClients db [clientIP.unmap]
  return (byAddress.lookup clientIP.unmap).getD []

/-- The point has a row of the package with the installer's hash and a live session. -/
def Db.holds (db : Db) (packageID now pointID : Int) : Bool :=
  (db.states pointID packageID).any (fun state =>
      state.status == .current && state.reportedSHA256.isSome &&
        state.reportedSHA256 == (db.packages.row packageID).join) &&
    (db.sessions pointID).any (fun session => decide (now < session.expiresAt))

/-- The candidates are read by one statement and the package states by a later one. -/
def resolveForClient (db later : Db) (now : Int) (clientIP : Addr) (packageID : Int) :
    Except Failure (Option ResolvedPoint) := do
  let candidates ← candidatesForClient db clientIP
  return (candidates.find? (fun c => c.clientBaseURL != "" && later.holds packageID now c.id)).map
    (fun c => ⟨c.id, c.key, c.clientBaseURL⟩)

end DistributionStore
