import Mathlib.Data.List.Nodup
import Mathlib.Logic.Function.Basic
import Mathlib.Order.MinMax
import Mathlib.Tactic.Common
import Woodstar.Runs

/-!
# Desired-set fan-out

`internal/munki/mdp/protocol/hub.go`. Two goroutines push to one connection: its own
start-up push and the broadcast of the fan-out loop. A push reads the table, compares
and remembers the message in one critical section, and sends it afterwards. The
JSON encoding of a package list is a parameter.
-/
namespace DesiredFanout

open Runs (exec Along)

structure DesiredPackage where
  packageID : Int
  filename : String
  sha256 : String
  sizeBytes : Int
  deriving DecidableEq, Repr

/-- A row of the desired-packages query. -/
structure DesiredPackageRow extends DesiredPackage where
  installerFinalized : Bool
  deriving DecidableEq, Repr

def desiredPackages (rows : List DesiredPackageRow) : Option (List DesiredPackage) :=
  if rows.all (fun row => row.installerFinalized) = true then
    some (rows.map (fun row => row.toDesiredPackage))
  else none

def sendBuffer : Nat := 16

inductive Sender where
  | startup | fanout
  deriving DecidableEq, Repr

/-- The start-up push: its read, its critical section and its send are still to come.
A push carries the message it read and the number of that read. -/
inductive Startup (μ : Type) where
  | reading
  | holding (msg : μ) (read : Nat)
  | sending (msg : μ) (read : Nat)
  | done
  deriving DecidableEq, Repr

/-- `desired` is the remembered message. `lastPut` is the last one put on the queue,
`pending` the pushes that remembered a message and have not sent it, oldest first, and
`passed` the read of the last push that went through the critical section. -/
structure Connection (μ : Type) where
  startup : Startup μ := .reading
  desired : Option μ := none
  queue : List μ := []
  closed : Bool := false
  lastPut : Option μ := none
  pending : List (Sender × μ) := []
  passed : Nat := 0
  deriving DecidableEq, Repr

/-- A run of `broadcastDesired` after its read. `left` are the connections still to
push to, `reached` the ones done with, and `sending` the one remembered but not sent to. -/
structure Broadcast (μ : Type) where
  msg : μ
  read : Nat
  collected : Bool := false
  left : List Nat := []
  reached : List Nat := []
  sending : Option Nat := none
  deriving DecidableEq, Repr

/-- `registered` maps points to connections. `reads` counts the reads of the table so
far and `since` the ones before its last change. `polled` are the connections that a
broadcast has served from its read to its end since then. -/
structure Hub (μ : Type) where
  table : List DesiredPackageRow
  closed : Bool := false
  registered : List (Int × Nat) := []
  opened : Nat := 0
  conns : Nat → Option (Connection μ) := fun _ => none
  fanout : Option (Broadcast μ) := none
  reads : Nat := 0
  since : Nat := 0
  polled : List Nat := []

/-- The reads carry whether the database answered, `collect` the order in which the
connections are taken from the map. -/
inductive Event where
  | change (rows : List DesiredPackageRow)
  | register (point : Int)
  | startRead (i : Nat) (answered : Bool)
  | startLock (i : Nat)
  | startSend (i : Nat)
  | fanRead (answered : Bool)
  | collect (order : List Nat)
  | fanLock
  | fanSend
  | write (i : Nat)
  | close (i : Nat)
  | unregister (i : Nat)
  | closeHub
  deriving DecidableEq, Repr

variable {μ : Type}

namespace Connection

/-- The duplicate check of `enqueueDesired`. -/
def knows [DecidableEq μ] (c : Connection μ) (msg : μ) : Bool := c.desired == some msg

/-- The critical section. -/
def remember [DecidableEq μ] (c : Connection μ) (sender : Sender) (msg : μ) (read : Nat) : Connection μ :=
  if c.knows msg = true then { c with passed := max c.passed read }
  else { c with desired := some msg, pending := c.pending ++ [(sender, msg)], passed := read }

/-- The send: a full queue closes the connection. -/
def enqueue (c : Connection μ) (sender : Sender) (msg : μ) : Connection μ :=
  let pending := c.pending.filter (fun p => p.1 ≠ sender)
  if c.queue.length < sendBuffer then
    { c with queue := c.queue ++ [msg], lastPut := some msg, pending := pending }
  else { c with closed := true, pending := pending }

/-- The message that will have been put last when the pushes have sent. -/
def newest (c : Connection μ) : Option μ := (c.pending.getLast?.map Prod.snd).or c.lastPut

end Connection

section

variable (marshal : List DesiredPackage → μ)

def Hub.current (w : Hub μ) : Option μ := (desiredPackages w.table).map marshal

def Hub.modify (w : Hub μ) (i : Nat) (f : Connection μ → Connection μ) : Hub μ :=
  { w with conns := Function.update w.conns i ((w.conns i).map f) }

/-- The loop over the connections goes on, or the broadcast ends. -/
def Hub.next (w : Hub μ) (b : Broadcast μ) : Hub μ :=
  if b.left = [] then
    { w with fanout := none, polled := if w.since < b.read then b.reached ++ w.polled else w.polled }
  else { w with fanout := some b }

def register (w : Hub μ) (point : Int) : Hub μ :=
  if w.closed = true then w
  else
    let old := w.registered.find? (fun entry => entry.1 == point)
    let w := match old with
      | none => w
      | some entry => w.modify entry.2 (fun c => { c with closed := true })
    { w with
      registered := (point, w.opened) :: w.registered.filter (fun entry => entry.1 != point)
      conns := Function.update w.conns w.opened (some {})
      opened := w.opened + 1 }

def startRead [DecidableEq μ] (w : Hub μ) (i : Nat) (answered : Bool) : Hub μ :=
  match w.conns i with
  | none => w
  | some c =>
    if c.startup = .reading then
      let startup := match w.current marshal with
        | none => .done
        | some msg => if answered = true then .holding msg (w.reads + 1) else .done
      { w.modify i (fun c => { c with startup := startup }) with reads := w.reads + 1 }
    else w

/-- The start-up push before its critical section. -/
def holding (w : Hub μ) (i : Nat) : Option (Connection μ × μ × Nat) :=
  (w.conns i).bind (fun c => match c.startup with
    | .holding msg read => some (c, msg, read)
    | _ => none)

/-- The start-up push between its critical section and its send. -/
def sending (w : Hub μ) (i : Nat) : Option (Connection μ × μ × Nat) :=
  (w.conns i).bind (fun c => match c.startup with
    | .sending msg read => some (c, msg, read)
    | _ => none)

def startLock [DecidableEq μ] (w : Hub μ) (i : Nat) : Hub μ :=
  match holding w i with
  | none => w
  | some (c, msg, read) =>
    let startup := if c.knows msg = true then .done else .sending msg read
    w.modify i (fun c => { c.remember .startup msg read with startup := startup })

def startSend (w : Hub μ) (i : Nat) : Hub μ :=
  match sending w i with
  | none => w
  | some (_, msg, _) => w.modify i (fun c => { c.enqueue .startup msg with startup := .done })

def fanRead (w : Hub μ) (answered : Bool) : Hub μ :=
  if w.fanout.isSome = true then w
  else
    match w.current marshal with
    | none => { w with reads := w.reads + 1 }
    | some msg =>
      if answered = true then
        { w with reads := w.reads + 1, fanout := some { msg := msg, read := w.reads + 1 } }
      else { w with reads := w.reads + 1 }

def collect (w : Hub μ) (order : List Nat) : Hub μ :=
  match w.fanout with
  | none => w
  | some b =>
    if b.collected = false ∧ order.Perm (w.registered.map Prod.snd) then
      w.next { b with collected := true, left := order }
    else w

/-- The next connection of the broadcast, in its critical section. -/
def fanTarget (w : Hub μ) : Option (Broadcast μ × Nat × Connection μ) :=
  match w.fanout with
  | none => none
  | some b =>
    match b.left, b.sending with
    | i :: _, none => (w.conns i).map (fun c => (b, i, c))
    | _, _ => none

def fanLock [DecidableEq μ] (w : Hub μ) : Hub μ :=
  match fanTarget w with
  | none => w
  | some (b, i, c) =>
    let w := w.modify i (fun c => c.remember .fanout b.msg b.read)
    if c.knows b.msg = true then w.next { b with left := b.left.tail, reached := i :: b.reached }
    else { w with fanout := some { b with left := b.left.tail, sending := some i } }

/-- The connection that the broadcast still has to send to. -/
def fanSending (w : Hub μ) : Option (Broadcast μ × Nat × Connection μ) :=
  w.fanout.bind (fun b => b.sending.bind (fun i => (w.conns i).map (fun c => (b, i, c))))

def fanSend (w : Hub μ) : Hub μ :=
  match fanSending w with
  | none => w
  | some (b, i, _) =>
    (w.modify i (fun c => c.enqueue .fanout b.msg)).next
      { b with reached := i :: b.reached, sending := none }

def closeHub (w : Hub μ) : Hub μ :=
  { w with
    closed := true
    conns := fun i => (w.conns i).map (fun c => { c with closed := true }) }

def step [DecidableEq μ] (w : Hub μ) : Event → Hub μ
  | .change rows => { w with table := rows, since := w.reads, polled := [] }
  | .register point => register w point
  | .startRead i answered => startRead marshal w i answered
  | .startLock i => startLock w i
  | .startSend i => startSend w i
  | .fanRead answered => fanRead marshal w answered
  | .collect order => collect w order
  | .fanLock => fanLock w
  | .fanSend => fanSend w
  | .write i => w.modify i (fun c => { c with queue := c.queue.tail })
  | .close i => w.modify i (fun c => { c with closed := true })
  | .unregister i => { w with registered := w.registered.filter (fun entry => entry.2 != i) }
  | .closeHub => closeHub w

end

/-- Some `enqueueDesired` call for the connection is between its two steps. -/
def InProgress (w : Hub μ) (i : Nat) : Prop :=
  (∃ c msg read, w.conns i = some c ∧ c.startup = .sending msg read) ∨
    ∃ b, w.fanout = some b ∧ b.sending = some i

/-- The last set put on the queue is the one remembered, and a connection that a
broadcast has served since the table changed has the current set. -/
structure Delivered (marshal : List DesiredPackage → μ) (w : Hub μ) : Prop where
  remembered : ∀ i c, w.conns i = some c → c.closed = false → ¬InProgress w i → c.lastPut = c.desired
  polled : ∀ i ∈ w.polled, ∀ c, w.conns i = some c → c.closed = false →
    ∃ msg, w.current marshal = some msg ∧ c.lastPut = some msg

/-- A push enters the critical section after the pushes that read before it, and is
suppressed only when they have sent. -/
def Connection.MayRemember (c : Connection μ) (msg : μ) (read : Nat) : Prop :=
  (c.desired = some msg → c.pending = []) ∧ (c.desired ≠ some msg → c.passed ≤ read)

/-- A push sends after the pushes that remembered before it. -/
def Connection.MaySend (c : Connection μ) (sender : Sender) : Prop :=
  c.pending.head?.map Prod.fst = some sender

/-- The pushes to a connection do not overtake one another. -/
def InOrder (w : Hub μ) : Event → Prop
  | .startLock i => ∀ push ∈ holding w i, push.1.MayRemember push.2.1 push.2.2
  | .startSend i => ∀ push ∈ sending w i, push.1.MaySend .startup
  | .fanLock => ∀ target ∈ fanTarget w, target.2.2.MayRemember target.1.msg target.1.read
  | .fanSend => ∀ target ∈ fanSending w, target.2.2.MaySend .fanout
  | _ => True

instance [DecidableEq μ] (c : Connection μ) (msg : μ) (read : Nat) :
    Decidable (c.MayRemember msg read) :=
  inferInstanceAs (Decidable ((_ → _) ∧ (_ → _)))

instance (c : Connection μ) (sender : Sender) : Decidable (c.MaySend sender) :=
  inferInstanceAs (Decidable (_ = _))

instance [DecidableEq μ] (w : Hub μ) : ∀ e, Decidable (InOrder w e)
  | .startLock i => inferInstanceAs (Decidable (∀ push ∈ holding w i, _))
  | .startSend i => inferInstanceAs (Decidable (∀ push ∈ sending w i, _))
  | .fanLock => inferInstanceAs (Decidable (∀ target ∈ fanTarget w, _))
  | .fanSend => inferInstanceAs (Decidable (∀ target ∈ fanSending w, _))
  | .change _ | .register _ | .startRead _ _ | .fanRead _ | .collect _ | .write _ | .close _
  | .unregister _ | .closeHub => isTrue trivial

/-- `current` is the set of the table, `served` whether a broadcast since its last
change has served the connection, and `fan` the broadcast's push that is pending. -/
structure ConnInv (current : Option μ) (since reads : Nat) (served : Prop) (fan : Option (μ × Nat))
    (c : Connection μ) : Prop where
  newest : c.closed = false → c.desired = c.newest
  nodup : (c.pending.map Prod.fst).Nodup
  startup_pending : ∀ msg, (Sender.startup, msg) ∈ c.pending ↔ ∃ read, c.startup = .sending msg read
  fanout_pending : ∀ msg, (Sender.fanout, msg) ∈ c.pending ↔ ∃ read, fan = some (msg, read)
  passed_le : c.passed ≤ reads
  fresh : since < c.passed → c.desired = current ∧ current.isSome = true
  held : ∀ msg read, c.startup = .holding msg read → read ≤ reads ∧ (since < read → current = some msg)
  serving : ∀ msg read, fan = some (msg, read) → since < read →
    c.pending.getLast? = some (.fanout, msg) ∧ since < c.passed
  served : served → since < c.passed ∧ c.pending = []

section

variable {current : Option μ} {since reads read : Nat} {served : Prop} {fan : Option (μ × Nat)}
  {c : Connection μ} {msg : μ}

theorem knows_iff [DecidableEq μ] : c.knows msg = true ↔ c.desired = some msg := by
  simp [Connection.knows]

theorem connInv_new : ConnInv current since reads False none ({} : Connection μ) := by
  constructor <;> simp [Connection.newest]

theorem ConnInv.weaken {served' : Prop} {reads' : Nat}
    (h : ConnInv current since reads served fan c) (hserved : served' → served)
    (hreads : reads ≤ reads') : ConnInv current since reads' served' fan c where
  newest := h.newest
  nodup := h.nodup
  startup_pending := h.startup_pending
  fanout_pending := h.fanout_pending
  passed_le := Nat.le_trans h.passed_le hreads
  fresh := h.fresh
  held := fun msg read hh => ⟨Nat.le_trans (h.held msg read hh).1 hreads, (h.held msg read hh).2⟩
  serving := h.serving
  served := fun hs => h.served (hserved hs)

theorem ConnInv.close (h : ConnInv current since reads served fan c) :
    ConnInv current since reads served fan { c with closed := true } :=
  ⟨nofun, h.nodup, h.startup_pending, h.fanout_pending, h.passed_le, h.fresh, h.held, h.serving,
    h.served⟩

theorem ConnInv.write (h : ConnInv current since reads served fan c) :
    ConnInv current since reads served fan { c with queue := c.queue.tail } :=
  ⟨h.newest, h.nodup, h.startup_pending, h.fanout_pending, h.passed_le, h.fresh, h.held, h.serving,
    h.served⟩

/-- The table changes: what was read before is old. -/
theorem ConnInv.change {current' : Option μ} (h : ConnInv current since reads served fan c)
    (hfan : ∀ msg read, fan = some (msg, read) → read ≤ reads) :
    ConnInv current' reads reads False fan c where
  newest := h.newest
  nodup := h.nodup
  startup_pending := h.startup_pending
  fanout_pending := h.fanout_pending
  passed_le := h.passed_le
  fresh := fun hlt => absurd hlt (Nat.not_lt.mpr h.passed_le)
  held := fun msg read hh =>
    ⟨(h.held msg read hh).1, fun hlt => absurd hlt (Nat.not_lt.mpr (h.held msg read hh).1)⟩
  serving := fun msg read hf hlt => absurd hlt (Nat.not_lt.mpr (hfan msg read hf))
  served := False.elim

theorem ConnInv.startRead (h : ConnInv current since reads served fan c)
    (hreading : c.startup = .reading) {startup : Startup μ}
    (hstartup : startup = .done ∨ ∃ msg, current = some msg ∧ startup = .holding msg (reads + 1)) :
    ConnInv current since (reads + 1) served fan { c with startup := startup } where
  newest := h.newest
  nodup := h.nodup
  startup_pending := by
    intro msg
    rw [h.startup_pending msg, hreading]
    rcases hstartup with rfl | ⟨msg', -, rfl⟩ <;> simp
  fanout_pending := h.fanout_pending
  passed_le := Nat.le_succ_of_le h.passed_le
  fresh := h.fresh
  held := by
    intro msg read hh
    rcases hstartup with rfl | ⟨msg', hcur, rfl⟩
    · cases hh
    · cases hh
      exact ⟨Nat.le_refl _, fun _ => hcur⟩
  serving := h.serving
  served := h.served

/-- What a push in order finds: a later read of the same table is the set it holds. -/
theorem ConnInv.known_of_fresh (h : ConnInv current since reads served fan c)
    (horder : c.MayRemember msg read) (hread : since < read → current = some msg)
    (hpassed : since < c.passed) : c.desired = some msg := by
  by_contra hne
  exact hne ((h.fresh hpassed).1.trans (hread (Nat.lt_of_lt_of_le hpassed (horder.2 hne))))

/-- The oldest pending push sends: the others stay. -/
theorem pending_of_maySend {sender : Sender} (hnodup : (c.pending.map Prod.fst).Nodup)
    (h : c.MaySend sender) :
    ∃ msg rest, c.pending = (sender, msg) :: rest ∧ (∀ p ∈ rest, p.1 ≠ sender) ∧
      c.pending.filter (fun p => p.1 ≠ sender) = rest := by
  obtain ⟨⟨sender', msg⟩, hhead, rfl⟩ := Option.map_eq_some_iff.mp h
  obtain ⟨rest, hp⟩ : ∃ rest, c.pending = (sender', msg) :: rest := by
    cases hc : c.pending with
    | nil => simp [hc] at hhead
    | cons p rest =>
      rw [hc, List.head?_cons, Option.some.injEq] at hhead
      exact ⟨rest, by rw [hhead]⟩
  rw [hp, List.map_cons, List.nodup_cons] at hnodup
  have hrest : ∀ p ∈ rest, p.1 ≠ sender' :=
    fun p hp heq => hnodup.1 (List.mem_map.mpr ⟨p, hp, heq⟩)
  refine ⟨msg, rest, hp, hrest, ?_⟩
  rw [hp, List.filter_cons_of_neg (by simp)]
  exact List.filter_eq_self.mpr (fun p hp => by simpa using hrest p hp)

/-- After a send the last message put is the newest, unless a later push is pending. -/
theorem newest_enqueue {sender : Sender} {rest : List (Sender × μ)}
    (hp : c.pending = (sender, msg) :: rest)
    (hfilter : c.pending.filter (fun p => p.1 ≠ sender) = rest)
    (hopen : (c.enqueue sender msg).closed = false) :
    (c.enqueue sender msg).newest = c.newest := by
  unfold Connection.enqueue at hopen ⊢
  dsimp only at hopen ⊢
  rw [hfilter] at hopen ⊢
  split_ifs at hopen ⊢
  unfold Connection.newest
  rw [hp]
  cases rest with
  | nil => rfl
  | cons p rest => rw [List.getLast?_cons_cons]; simp [List.getLast?_cons]

theorem enqueue_frame (sender : Sender) (msg : μ) :
    (c.enqueue sender msg).desired = c.desired ∧ (c.enqueue sender msg).passed = c.passed ∧
      (c.enqueue sender msg).pending = c.pending.filter (fun p => p.1 ≠ sender) ∧
      (c.enqueue sender msg).startup = c.startup ∧
      ((c.enqueue sender msg).closed = false → c.closed = false) := by
  unfold Connection.enqueue
  dsimp only
  split_ifs
  · exact ⟨rfl, rfl, rfl, rfl, id⟩
  · exact ⟨rfl, rfl, rfl, rfl, nofun⟩

theorem ConnInv.startLock [DecidableEq μ] (h : ConnInv current since reads served fan c)
    (hholding : c.startup = .holding msg read) (horder : c.MayRemember msg read) :
    ConnInv current since reads served fan
      { c.remember .startup msg read with
        startup := if c.knows msg = true then .done else .sending msg read } := by
  obtain ⟨hread, hcur⟩ := h.held msg read hholding
  have hnone : ∀ msg, (Sender.startup, msg) ∉ c.pending := by
    intro msg' hm
    obtain ⟨read', hs⟩ := (h.startup_pending msg').mp hm
    rw [hholding] at hs
    cases hs
  by_cases hknown : c.desired = some msg
  · have hpending := horder.1 hknown
    unfold Connection.remember
    simp only [if_pos (knows_iff.mpr hknown)]
    refine ⟨h.newest, h.nodup, ?_, h.fanout_pending, Nat.max_le.mpr ⟨h.passed_le, hread⟩, ?_, nofun,
      ?_, ?_⟩
    · intro msg'
      rw [hpending]
      simp
    · intro hlt
      rcases lt_max_iff.mp hlt with hlt | hlt
      · exact h.fresh hlt
      · exact ⟨hknown.trans (hcur hlt).symm, by rw [hcur hlt]; rfl⟩
    · intro msg' read' hfan hlt
      have := (h.serving msg' read' hfan hlt).1
      rw [hpending] at this
      cases this
    · intro hs
      exact ⟨Nat.lt_of_lt_of_le (h.served hs).1 (Nat.le_max_left _ _), hpending⟩
  · have hstale : ¬since < c.passed := fun hlt => hknown (h.known_of_fresh horder hcur hlt)
    unfold Connection.remember
    simp only [if_neg (mt knows_iff.mp hknown)]
    refine ⟨?_, ?_, ?_, ?_, hread, fun hlt => ⟨(hcur hlt).symm, by rw [hcur hlt]; rfl⟩, nofun, ?_, ?_⟩
    · intro _
      simp [Connection.newest]
    · rw [List.map_append, List.nodup_append]
      refine ⟨h.nodup, by simp, ?_⟩
      intro sender hs sender' hs' heq
      obtain ⟨p, hp, rfl⟩ := List.mem_map.mp hs
      obtain rfl : sender' = .startup := by simpa using hs'
      exact hnone p.2 (heq ▸ hp)
    · intro msg'
      simp [hnone, eq_comm]
    · intro msg'
      simp [h.fanout_pending msg']
    · exact fun msg' read' hfan hlt => absurd (h.serving msg' read' hfan hlt).2 hstale
    · exact fun hs => absurd (h.served hs).1 hstale

theorem ConnInv.fanLock [DecidableEq μ] (h : ConnInv current since reads served none c)
    (hread : read ≤ reads) (hcur : since < read → current = some msg)
    (horder : c.MayRemember msg read) :
    (c.desired = some msg → ConnInv current since reads (served ∨ since < read) none
      (c.remember .fanout msg read)) ∧
    (c.desired ≠ some msg → ConnInv current since reads served (some (msg, read))
      (c.remember .fanout msg read)) := by
  have hnone : ∀ msg, (Sender.fanout, msg) ∉ c.pending := by
    intro msg' hm
    obtain ⟨read', hs⟩ := (h.fanout_pending msg').mp hm
    cases hs
  constructor
  · intro hknown
    have hpending := horder.1 hknown
    unfold Connection.remember
    rw [if_pos (knows_iff.mpr hknown)]
    refine ⟨h.newest, h.nodup, h.startup_pending, h.fanout_pending,
      Nat.max_le.mpr ⟨h.passed_le, hread⟩, ?_, h.held, nofun, ?_⟩
    · intro hlt
      rcases lt_max_iff.mp hlt with hlt | hlt
      · exact h.fresh hlt
      · exact ⟨hknown.trans (hcur hlt).symm, by rw [hcur hlt]; rfl⟩
    · rintro (hs | hlt)
      · exact ⟨Nat.lt_of_lt_of_le (h.served hs).1 (Nat.le_max_left _ _), hpending⟩
      · exact ⟨Nat.lt_of_lt_of_le hlt (Nat.le_max_right _ _), hpending⟩
  · intro hknown
    have hstale : ¬since < c.passed := fun hlt => hknown (h.known_of_fresh horder hcur hlt)
    unfold Connection.remember
    rw [if_neg (mt knows_iff.mp hknown)]
    refine ⟨?_, ?_, ?_, ?_, hread, fun hlt => ⟨(hcur hlt).symm, by rw [hcur hlt]; rfl⟩, h.held, ?_, ?_⟩
    · intro _
      simp [Connection.newest]
    · rw [List.map_append, List.nodup_append]
      refine ⟨h.nodup, by simp, ?_⟩
      intro sender hs sender' hs' heq
      obtain ⟨p, hp, rfl⟩ := List.mem_map.mp hs
      obtain rfl : sender' = .fanout := by simpa using hs'
      exact hnone p.2 (heq ▸ hp)
    · intro msg'
      simp [h.startup_pending msg']
    · intro msg'
      simp [hnone, eq_comm]
    · intro msg' read' hfan hlt
      cases hfan
      exact ⟨by simp, hlt⟩
    · exact fun hs => absurd (h.served hs).1 hstale

theorem ConnInv.startSend (h : ConnInv current since reads served fan c)
    (hsending : c.startup = .sending msg read) (hmay : c.MaySend .startup) :
    ConnInv current since reads served fan { c.enqueue .startup msg with startup := .done } := by
  obtain ⟨msg', rest, hp, hrest, hfilter⟩ := pending_of_maySend h.nodup hmay
  obtain rfl : msg' = msg := by
    have hmem : (Sender.startup, msg') ∈ c.pending := by
      rw [hp]
      exact List.mem_cons_self
    obtain ⟨read', hs⟩ := (h.startup_pending msg').mp hmem
    rw [hsending] at hs
    cases hs
    rfl
  obtain ⟨hdesired, hpassed, hpending, -, hopen⟩ := @enqueue_frame μ c .startup msg'
  rw [hfilter] at hpending
  constructor
  · intro hc
    change (c.enqueue .startup msg').desired = (c.enqueue .startup msg').newest
    rw [hdesired, newest_enqueue hp hfilter hc]
    exact h.newest (hopen hc)
  · have := h.nodup
    rw [hp] at this
    rw [hpending]
    exact (List.nodup_cons.mp this).2
  · intro msg
    rw [hpending]
    exact iff_of_false (fun hm => hrest _ hm rfl) nofun
  · intro msg
    rw [← h.fanout_pending msg, hpending, hp]
    simp
  · exact hpassed ▸ h.passed_le
  · intro hlt
    obtain ⟨hfresh, hsome⟩ := h.fresh (hpassed ▸ hlt)
    exact ⟨hdesired.trans hfresh, hsome⟩
  · nofun
  · intro msg read' hfan hlt
    obtain ⟨hlast, hpast⟩ := h.serving msg read' hfan hlt
    refine ⟨?_, hpassed ▸ hpast⟩
    rw [hp] at hlast
    rw [hpending]
    cases rest with
    | nil => simp at hlast
    | cons p rest => exact List.getLast?_cons_cons ▸ hlast
  · exact fun hs => absurd (h.served hs).2 (by simp [hp])

theorem ConnInv.fanSend (h : ConnInv current since reads served (some (msg, read)) c)
    (hmay : c.MaySend .fanout) :
    ConnInv current since reads (served ∨ since < read) none (c.enqueue .fanout msg) := by
  obtain ⟨msg', rest, hp, hrest, hfilter⟩ := pending_of_maySend h.nodup hmay
  obtain rfl : msg' = msg := by
    have hmem : (Sender.fanout, msg') ∈ c.pending := by
      rw [hp]
      exact List.mem_cons_self
    obtain ⟨read', hs⟩ := (h.fanout_pending msg').mp hmem
    cases hs
    rfl
  obtain ⟨hdesired, hpassed, hpending, hstartup, hopen⟩ := @enqueue_frame μ c .fanout msg'
  rw [hfilter] at hpending
  constructor
  · intro hc
    rw [hdesired, newest_enqueue hp hfilter hc]
    exact h.newest (hopen hc)
  · have := h.nodup
    rw [hp] at this
    rw [hpending]
    exact (List.nodup_cons.mp this).2
  · intro msg
    rw [hstartup, ← h.startup_pending msg, hpending, hp]
    simp
  · intro msg
    rw [hpending]
    exact iff_of_false (fun hm => hrest _ hm rfl) (by simp)
  · exact hpassed ▸ h.passed_le
  · intro hlt
    obtain ⟨hfresh, hsome⟩ := h.fresh (hpassed ▸ hlt)
    exact ⟨hdesired.trans hfresh, hsome⟩
  · rw [hstartup]
    exact h.held
  · nofun
  · rintro (hs | hlt)
    · exact absurd (h.served hs).2 (by simp [hp])
    · obtain ⟨hlast, hpast⟩ := h.serving msg' read rfl hlt
      refine ⟨hpassed ▸ hpast, ?_⟩
      rw [hpending]
      cases rest with
      | nil => rfl
      | cons p rest =>
        rw [hp, List.getLast?_cons_cons] at hlast
        exact absurd rfl (hrest _ (List.mem_of_getLast? hlast))

end

/-- The push of the broadcast that is pending for the connection. -/
def Hub.fanAt (w : Hub μ) (i : Nat) : Option (μ × Nat) :=
  w.fanout.bind (fun b => if b.sending = some i then some (b.msg, b.read) else none)

/-- A broadcast that read since the last change has served the connection. -/
def Served (w : Hub μ) (i : Nat) : Prop :=
  i ∈ w.polled ∨ ∃ b, w.fanout = some b ∧ w.since < b.read ∧ i ∈ b.reached

/-- The connection is opened, and every connection that the hub refers to was. -/
def Refers (w : Hub μ) (i : Nat) : Prop :=
  (w.conns i).isSome = true ∨ i ∈ w.registered.map Prod.snd ∨ i ∈ w.polled ∨
    ∃ b, w.fanout = some b ∧ (i ∈ b.left ∨ i ∈ b.reached ∨ b.sending = some i)

structure Inv (marshal : List DesiredPackage → μ) (w : Hub μ) : Prop where
  conn : ∀ i c, w.conns i = some c →
    ConnInv (w.current marshal) w.since w.reads (Served w i) (w.fanAt i) c
  fan : ∀ b, w.fanout = some b →
    b.read ≤ w.reads ∧ (w.since < b.read → w.current marshal = some b.msg)
  idle : ∀ b, w.fanout = some b → b.collected = false → b.left = [] ∧ b.reached = [] ∧ b.sending = none
  opened : ∀ i, Refers w i → i < w.opened

section

variable {marshal : List DesiredPackage → μ} {w : Hub μ} {e : Event}

theorem fanAt_eq_some {i : Nat} {msg : μ} {read : Nat} :
    w.fanAt i = some (msg, read) ↔
      ∃ b, w.fanout = some b ∧ b.sending = some i ∧ b.msg = msg ∧ b.read = read := by
  unfold Hub.fanAt
  rw [Option.bind_eq_some_iff]
  simp

/-- A connection changes and nothing else. -/
theorem inv_modify (h : Inv marshal w) {i : Nat} {f : Connection μ → Connection μ}
    (hf : ∀ c, w.conns i = some c →
      ConnInv (w.current marshal) w.since w.reads (Served w i) (w.fanAt i) (f c)) :
    Inv marshal (w.modify i f) := by
  refine ⟨?_, h.fan, h.idle, ?_⟩
  · intro j c hc
    by_cases hj : j = i
    · subst hj
      simp only [Hub.modify, Function.update_self, Option.map_eq_some_iff] at hc
      obtain ⟨c', hc', rfl⟩ := hc
      exact hf c' hc'
    · simp only [Hub.modify, Function.update_of_ne hj] at hc
      exact h.conn j c hc
  · intro j hj
    apply h.opened j
    rcases hj with hj | hj
    · left
      by_cases hji : j = i
      · subst hji
        simpa [Hub.modify] using hj
      · simpa [Hub.modify, Function.update_of_ne hji] using hj
    · exact .inr hj

theorem inv_startLock [DecidableEq μ] (h : Inv marshal w) {i : Nat} (ho : InOrder w (.startLock i)) :
    Inv marshal (startLock w i) := by
  unfold startLock
  cases hh : holding w i with
  | none => exact h
  | some p =>
    obtain ⟨c, msg, read⟩ := p
    have horder := ho (c, msg, read) hh
    obtain ⟨c', hc, hm⟩ := Option.bind_eq_some_iff.mp hh
    split at hm
    · rename_i hholding
      cases hm
      apply inv_modify h
      intro c' hc'
      rw [hc, Option.some.injEq] at hc'
      subst hc'
      exact (h.conn i c hc).startLock hholding horder
    · cases hm

theorem inv_startSend (h : Inv marshal w) {i : Nat} (ho : InOrder w (.startSend i)) :
    Inv marshal (startSend w i) := by
  unfold startSend
  cases hh : sending w i with
  | none => exact h
  | some p =>
    obtain ⟨c, msg, read⟩ := p
    have horder := ho (c, msg, read) hh
    obtain ⟨c', hc, hm⟩ := Option.bind_eq_some_iff.mp hh
    split at hm
    · rename_i hsending
      cases hm
      apply inv_modify h
      intro c' hc'
      rw [hc, Option.some.injEq] at hc'
      subst hc'
      exact (h.conn i c hc).startSend hsending horder
    · cases hm

/-- A step of the broadcast that touches one connection. -/
theorem inv_push (h : Inv marshal w) {b b' : Broadcast μ} {i : Nat}
    {f : Connection μ → Connection μ} (hb : w.fanout = some b) (hmsg : b'.msg = b.msg)
    (hread : b'.read = b.read) (hcollected : b'.collected = true) (hi : i < w.opened)
    (hleft : ∀ j ∈ b'.left, j ∈ b.left)
    (hreached : ∀ j, j ≠ i → j ∈ b'.reached → j ∈ b.reached)
    (hsending : ∀ j, j ≠ i → (b'.sending = some j ↔ b.sending = some j))
    (hf : ∀ c, w.conns i = some c → ConnInv (w.current marshal) w.since w.reads
      (i ∈ w.polled ∨ w.since < b.read ∧ i ∈ b'.reached)
      (if b'.sending = some i then some (b.msg, b.read) else none) (f c)) :
    Inv marshal { w.modify i f with fanout := some b' } := by
  refine ⟨?_, ?_, ?_, ?_⟩
  · intro j c hc
    have hserved : Served { w.modify i f with fanout := some b' } j ↔
        j ∈ w.polled ∨ w.since < b.read ∧ j ∈ b'.reached := by
      simp [Served, Hub.modify, hread]
    have hfan : Hub.fanAt { w.modify i f with fanout := some b' } j =
        if b'.sending = some j then some (b.msg, b.read) else none := by
      simp [Hub.fanAt, hmsg, hread]
    rw [hfan]
    by_cases hj : j = i
    · subst hj
      simp only [Hub.modify, Function.update_self, Option.map_eq_some_iff] at hc
      obtain ⟨c', hc', rfl⟩ := hc
      exact (hf c' hc').weaken hserved.mp (Nat.le_refl _)
    · simp only [Hub.modify, Function.update_of_ne hj] at hc
      have hold := h.conn j c hc
      simp only [Hub.fanAt, hb, Option.bind_some] at hold
      rw [if_congr (hsending j hj) rfl rfl]
      apply hold.weaken _ (Nat.le_refl _)
      intro hs
      rcases hserved.mp hs with hs | ⟨hlt, hs⟩
      · exact .inl hs
      · exact .inr ⟨b, hb, hlt, hreached j hj hs⟩
  · intro b'' hb''
    cases hb''
    rw [hread, hmsg]
    exact h.fan b hb
  · intro b'' hb'' hnot
    cases hb''
    rw [hcollected] at hnot
    cases hnot
  · rintro j hj
    by_cases hji : j = i
    · exact hji ▸ hi
    · apply h.opened j
      rcases hj with hj | hj | hj | ⟨b'', hb'', hj⟩
      · exact .inl (by simpa [Hub.modify, Function.update_of_ne hji] using hj)
      · exact .inr (.inl hj)
      · exact .inr (.inr (.inl hj))
      · cases hb''
        refine .inr (.inr (.inr ⟨b, hb, ?_⟩))
        rcases hj with hj | hj | hj
        · exact .inl (hleft j hj)
        · exact .inr (.inl (hreached j hji hj))
        · exact .inr (.inr ((hsending j hji).mp hj))

/-- The end of a broadcast that has served its connections. -/
theorem inv_next {b : Broadcast μ} (hsending : b.sending = none)
    (h : Inv marshal { w with fanout := some b }) : Inv marshal (w.next b) := by
  unfold Hub.next
  split_ifs with hleft hfresh
  · refine ⟨?_, nofun, nofun, ?_⟩
    · intro i c hc
      have hold := h.conn i c hc
      simp only [Hub.fanAt, Option.bind_some, hsending, reduceCtorEq, if_false] at hold
      apply hold.weaken _ (Nat.le_refl _)
      rintro (hs | ⟨b', hb', -⟩)
      · rcases List.mem_append.mp hs with hs | hs
        · exact .inr ⟨b, rfl, hfresh, hs⟩
        · exact .inl hs
      · cases hb'
    · rintro i (hi | hi | hi | ⟨b', hb', -⟩)
      · exact h.opened i (.inl hi)
      · exact h.opened i (.inr (.inl hi))
      · rcases List.mem_append.mp hi with hi | hi
        · exact h.opened i (.inr (.inr (.inr ⟨b, rfl, .inr (.inl hi)⟩)))
        · exact h.opened i (.inr (.inr (.inl hi)))
      · cases hb'
  · refine ⟨?_, nofun, nofun, ?_⟩
    · intro i c hc
      have hold := h.conn i c hc
      simp only [Hub.fanAt, Option.bind_some, hsending, reduceCtorEq, if_false] at hold
      apply hold.weaken _ (Nat.le_refl _)
      rintro (hs | ⟨b', hb', -⟩)
      · exact .inl hs
      · cases hb'
    · rintro i (hi | hi | hi | ⟨b', hb', -⟩)
      · exact h.opened i (.inl hi)
      · exact h.opened i (.inr (.inl hi))
      · exact h.opened i (.inr (.inr (.inl hi)))
      · cases hb'
  · exact h

theorem inv_fanLock [DecidableEq μ] (h : Inv marshal w) (ho : InOrder w .fanLock) :
    Inv marshal (fanLock w) := by
  unfold fanLock
  cases ht : fanTarget w with
  | none => exact h
  | some p =>
    obtain ⟨b, i, c⟩ := p
    have horder := ho (b, i, c) ht
    unfold fanTarget at ht
    split at ht
    · cases ht
    · rename_i b' hb
      split at ht
      · rename_i i' left hleft hsending
        obtain ⟨c', hc, heq⟩ := Option.map_eq_some_iff.mp ht
        cases heq
        obtain ⟨hread, hcur⟩ := h.fan b hb
        have hi : i ∈ b.left := hleft ▸ List.mem_cons_self
        have hopened : i < w.opened := h.opened i (.inr (.inr (.inr ⟨b, hb, .inl hi⟩)))
        have htail : ∀ j ∈ b.left.tail, j ∈ b.left := fun j hj => List.mem_of_mem_tail hj
        have hconn := h.conn i c hc
        have hcollected : b.collected = true := by
          cases hcoll : b.collected with
          | true => rfl
          | false => exact absurd ((h.idle b hb hcoll).1 ▸ hi) List.not_mem_nil
        have hfan : w.fanAt i = none := by simp [Hub.fanAt, hb, hsending]
        rw [hfan] at hconn
        obtain ⟨hknown, hnew⟩ := hconn.fanLock hread hcur horder
        dsimp only
        split_ifs with hk
        · apply inv_next
          · exact hsending
          apply inv_push h hb
          · rfl
          · rfl
          · exact hcollected
          · exact hopened
          · exact htail
          · exact fun j hj hm => (List.mem_cons.mp hm).resolve_left hj
          · exact fun j _ => Iff.rfl
          · intro c' hc'
            rw [hc, Option.some.injEq] at hc'
            subst hc'
            simp only [hsending, reduceCtorEq, if_false]
            apply (hknown (knows_iff.mp hk)).weaken _ (Nat.le_refl _)
            rintro (hs | ⟨hlt, -⟩)
            · exact .inl (.inl hs)
            · exact .inr hlt
        · apply inv_push h hb
          · rfl
          · rfl
          · exact hcollected
          · exact hopened
          · exact htail
          · exact fun j _ hm => hm
          · intro j hj
            rw [hsending]
            exact iff_of_false (fun heq => hj (Option.some.inj heq).symm) nofun
          · intro c' hc'
            rw [hc, Option.some.injEq] at hc'
            subst hc'
            rw [if_pos rfl]
            apply (hnew (mt knows_iff.mpr hk)).weaken _ (Nat.le_refl _)
            rintro (hs | ⟨hlt, hs⟩)
            · exact .inl hs
            · exact .inr ⟨b, hb, hlt, hs⟩
      · cases ht

theorem inv_fanSend (h : Inv marshal w) (ho : InOrder w .fanSend) : Inv marshal (fanSend w) := by
  unfold fanSend
  cases ht : fanSending w with
  | none => exact h
  | some p =>
    obtain ⟨b, i, c⟩ := p
    have hmay := ho (b, i, c) ht
    obtain ⟨b', hb, ht⟩ := Option.bind_eq_some_iff.mp ht
    obtain ⟨i', hsending, ht⟩ := Option.bind_eq_some_iff.mp ht
    obtain ⟨c', hc, heq⟩ := Option.map_eq_some_iff.mp ht
    cases heq
    have hopened : i < w.opened := h.opened i (.inr (.inr (.inr ⟨b, hb, .inr (.inr hsending)⟩)))
    have hconn := h.conn i c hc
    rw [fanAt_eq_some.mpr ⟨b, hb, hsending, rfl, rfl⟩] at hconn
    apply inv_next
    · rfl
    apply inv_push h hb
    · rfl
    · rfl
    · cases hcoll : b.collected with
      | true => rfl
      | false =>
        rw [(h.idle b hb hcoll).2.2] at hsending
        cases hsending
    · exact hopened
    · exact fun j hj => hj
    · exact fun j hj hm => (List.mem_cons.mp hm).resolve_left hj
    · intro j hj
      rw [hsending]
      exact iff_of_false nofun (fun heq => hj (Option.some.inj heq).symm)
    · intro c' hc'
      rw [hc, Option.some.injEq] at hc'
      subst hc'
      simp only [reduceCtorEq, if_false]
      apply (hconn.fanSend hmay).weaken _ (Nat.le_refl _)
      rintro (hs | ⟨hlt, -⟩)
      · exact .inl (.inl hs)
      · exact .inr hlt

theorem inv_change (h : Inv marshal w) (rows : List DesiredPackageRow) :
    Inv marshal { w with table := rows, since := w.reads, polled := [] } := by
  have hold : ∀ i msg read, w.fanAt i = some (msg, read) → read ≤ w.reads := by
    intro i msg read hf
    obtain ⟨b, hb, -, -, rfl⟩ := fanAt_eq_some.mp hf
    exact (h.fan b hb).1
  refine ⟨?_, ?_, h.idle, ?_⟩
  · intro i c hc
    apply ((h.conn i c hc).change (hold i)).weaken _ (Nat.le_refl _)
    rintro (hs | ⟨b, hb, hlt, -⟩)
    · cases hs
    · exact Nat.not_lt.mpr (h.fan b hb).1 hlt
  · exact fun b hb => ⟨(h.fan b hb).1, fun hlt => absurd hlt (Nat.not_lt.mpr (h.fan b hb).1)⟩
  · rintro i (hi | hi | hi | hi)
    · exact h.opened i (.inl hi)
    · exact h.opened i (.inr (.inl hi))
    · cases hi
    · exact h.opened i (.inr (.inr (.inr hi)))

theorem inv_register (h : Inv marshal w) (point : Int) : Inv marshal (register w point) := by
  unfold register
  split_ifs
  · exact h
  · dsimp only
    generalize hw : (match w.registered.find? (fun entry => entry.1 == point) with
      | none => w
      | some entry => w.modify entry.2 (fun c => { c with closed := true })) = w'
    have h' : Inv marshal w' := by
      subst hw
      split
      · exact h
      · exact inv_modify h (fun c hc => (h.conn _ c hc).close)
    refine ⟨?_, h'.fan, h'.idle, ?_⟩
    · intro i c hc
      by_cases hi : i = w'.opened
      · subst hi
        simp only [Function.update_self, Option.some.injEq] at hc
        subst hc
        have hfan : w'.fanAt w'.opened = none := by
          cases hf : w'.fanAt w'.opened with
          | none => rfl
          | some p =>
            obtain ⟨b, hb, hs, -⟩ := fanAt_eq_some.mp hf
            exact absurd (h'.opened _ (.inr (.inr (.inr ⟨b, hb, .inr (.inr hs)⟩)))) (Nat.lt_irrefl _)
        change ConnInv _ _ _ _ (w'.fanAt w'.opened) _
        rw [hfan]
        apply connInv_new.weaken _ (Nat.le_refl _)
        rintro (hs | ⟨b, hb, -, hs⟩)
        · exact absurd (h'.opened _ (.inr (.inr (.inl hs)))) (Nat.lt_irrefl _)
        · exact absurd (h'.opened _ (.inr (.inr (.inr ⟨b, hb, .inr (.inl hs)⟩)))) (Nat.lt_irrefl _)
      · simp only [Function.update_of_ne hi] at hc
        exact h'.conn i c hc
    · rintro i hi
      by_cases hio : i = w'.opened
      · exact hio ▸ Nat.lt_succ_self _
      · apply Nat.lt_succ_of_lt
        apply h'.opened i
        rcases hi with hi | hi | hi
        · exact .inl (by simpa [Function.update_of_ne hio] using hi)
        · refine .inr (.inl ?_)
          simp only [List.map_cons, List.mem_cons] at hi
          obtain ⟨entry, hentry, rfl⟩ := List.mem_map.mp (hi.resolve_left hio)
          exact List.mem_map_of_mem (List.mem_of_mem_filter hentry)
        · exact .inr (.inr hi)

/-- More reads, and nothing else that a connection sees. -/
theorem Inv.read (h : Inv marshal w) : Inv marshal { w with reads := w.reads + 1 } :=
  ⟨fun i c hc => (h.conn i c hc).weaken id (Nat.le_succ _),
    fun b hb => ⟨Nat.le_succ_of_le (h.fan b hb).1, (h.fan b hb).2⟩, h.idle, h.opened⟩

theorem inv_startRead [DecidableEq μ] (h : Inv marshal w) (i : Nat) (answered : Bool) :
    Inv marshal (startRead marshal w i answered) := by
  unfold startRead
  cases hc : w.conns i with
  | none => exact h
  | some c =>
    by_cases hreading : c.startup = .reading
    · simp only [if_pos hreading]
      generalize hs : (match w.current marshal with
        | none => Startup.done
        | some msg => if answered = true then .holding msg (w.reads + 1) else .done) = startup
      have hstartup : startup = .done ∨
          ∃ msg, w.current marshal = some msg ∧ startup = .holding msg (w.reads + 1) := by
        subst hs
        split
        · exact .inl rfl
        · rename_i msg hcur
          split_ifs
          · exact .inr ⟨msg, hcur, rfl⟩
          · exact .inl rfl
      apply inv_modify h.read
      intro c' hc'
      change w.conns i = some c' at hc'
      rw [hc, Option.some.injEq] at hc'
      subst hc'
      exact (h.conn i c hc).startRead hreading hstartup
    · simp only [if_neg hreading]
      exact h

theorem inv_fanRead (h : Inv marshal w) (answered : Bool) : Inv marshal (fanRead marshal w answered) := by
  unfold fanRead
  by_cases hidle : w.fanout.isSome = true
  · rw [if_pos hidle]
    exact h
  · rw [if_neg hidle]
    have hnone : w.fanout = none := by simpa using hidle
    split
    · exact h.read
    · rename_i msg hcur
      split_ifs
      · refine ⟨?_, ?_, ?_, ?_⟩
        · intro i c hc
          have hfan : w.fanAt i = none := by simp [Hub.fanAt, hnone]
          have hold := h.conn i c hc
          rw [hfan] at hold
          apply hold.weaken _ (Nat.le_succ _)
          rintro (hs | ⟨b, hb, -, hs⟩)
          · exact .inl hs
          · cases hb
            cases hs
        · intro b hb
          cases hb
          exact ⟨Nat.le_refl _, fun _ => hcur⟩
        · intro b hb _
          cases hb
          exact ⟨rfl, rfl, rfl⟩
        · rintro i (hi | hi | hi | ⟨b, hb, hi⟩)
          · exact h.opened i (.inl hi)
          · exact h.opened i (.inr (.inl hi))
          · exact h.opened i (.inr (.inr (.inl hi)))
          · cases hb
            rcases hi with hi | hi | hi <;> cases hi
      · exact h.read

theorem inv_collect (h : Inv marshal w) (order : List Nat) : Inv marshal (collect w order) := by
  unfold collect
  cases hb : w.fanout with
  | none => exact h
  | some b =>
    dsimp only
    split_ifs with hc
    · obtain ⟨-, hreached, hsending⟩ := h.idle b hb hc.1
      apply inv_next
      · exact hsending
      refine ⟨?_, ?_, ?_, ?_⟩
      · intro i c hconn
        have hold := h.conn i c hconn
        have hfan : w.fanAt i = none := by simp [Hub.fanAt, hb, hsending]
        have hfan' : Hub.fanAt { w with fanout := some { b with collected := true, left := order } } i =
            none := by simp [Hub.fanAt, hsending]
        rw [hfan] at hold
        rw [hfan']
        apply hold.weaken _ (Nat.le_refl _)
        rintro (hs | ⟨b', hb', -, hs⟩)
        · exact .inl hs
        · cases hb'
          rw [hreached] at hs
          cases hs
      · intro b' hb'
        cases hb'
        exact h.fan b hb
      · intro b' hb' hnot
        cases hb'
        cases hnot
      · rintro i (hi | hi | hi | ⟨b', hb', hi⟩)
        · exact h.opened i (.inl hi)
        · exact h.opened i (.inr (.inl hi))
        · exact h.opened i (.inr (.inr (.inl hi)))
        · cases hb'
          rcases hi with hi | hi | hi
          · exact h.opened i (.inr (.inl (hc.2.mem_iff.mp hi)))
          · rw [hreached] at hi
            cases hi
          · rw [hsending] at hi
            cases hi
    · exact h

theorem inv_step [DecidableEq μ] (h : Inv marshal w) (ho : InOrder w e) :
    Inv marshal (step marshal w e) := by
  cases e with
  | change rows => exact inv_change h rows
  | register point => exact inv_register h point
  | startRead i answered => exact inv_startRead h i answered
  | startLock i => exact inv_startLock h ho
  | startSend i => exact inv_startSend h ho
  | fanRead answered => exact inv_fanRead h answered
  | collect order => exact inv_collect h order
  | fanLock => exact inv_fanLock h ho
  | fanSend => exact inv_fanSend h ho
  | write i => exact inv_modify h (fun c hc => (h.conn i c hc).write)
  | close i => exact inv_modify h (fun c hc => (h.conn i c hc).close)
  | unregister i =>
    refine ⟨h.conn, h.fan, h.idle, ?_⟩
    rintro j (hj | hj | hj)
    · exact h.opened j (.inl hj)
    · obtain ⟨entry, hentry, rfl⟩ := List.mem_map.mp hj
      exact h.opened _ (.inr (.inl (List.mem_map_of_mem (List.mem_of_mem_filter hentry))))
    · exact h.opened j (.inr (.inr hj))
  | closeHub =>
    refine ⟨?_, h.fan, h.idle, ?_⟩
    · intro i c hc
      obtain ⟨c', hc', rfl⟩ := Option.map_eq_some_iff.mp hc
      exact (h.conn i c' hc').close
    · rintro j (hj | hj)
      · exact h.opened j (.inl (by simpa [step, closeHub] using hj))
      · exact h.opened j (.inr hj)

theorem Inv.delivered (h : Inv marshal w) : Delivered marshal w := by
  constructor
  · intro i c hc hopen hidle
    have hconn := h.conn i c hc
    have hpending : c.pending = [] := by
      apply List.eq_nil_iff_forall_not_mem.mpr
      rintro ⟨sender, msg⟩ hm
      cases sender with
      | startup =>
        obtain ⟨read, hs⟩ := (hconn.startup_pending msg).mp hm
        exact hidle (.inl ⟨c, msg, read, hc, hs⟩)
      | fanout =>
        obtain ⟨read, hf⟩ := (hconn.fanout_pending msg).mp hm
        obtain ⟨b, hb, hs, -⟩ := fanAt_eq_some.mp hf
        exact hidle (.inr ⟨b, hb, hs⟩)
    rw [hconn.newest hopen, Connection.newest, hpending]
    rfl
  · intro i hi c hc hopen
    have hconn := h.conn i c hc
    obtain ⟨hpast, hpending⟩ := hconn.served (.inl hi)
    obtain ⟨hdesired, hsome⟩ := hconn.fresh hpast
    obtain ⟨msg, hmsg⟩ := Option.isSome_iff_exists.mp hsome
    have hnewest : c.desired = c.lastPut := by
      rw [hconn.newest hopen, Connection.newest, hpending]
      rfl
    exact ⟨msg, hmsg, by rw [← hnewest, hdesired, hmsg]⟩

end

theorem inv_start (marshal : List DesiredPackage → μ) (rows : List DesiredPackageRow) :
    Inv marshal ({ table := rows } : Hub μ) := by
  refine ⟨nofun, nofun, nofun, ?_⟩
  rintro i (hi | hi | hi | ⟨b, hb, -⟩)
  · cases hi
  · cases hi
  · cases hi
  · cases hb

/-- While pushes do not overtake one another, the duplicate check suppresses only what
the worker has been sent, and a broadcast leaves every connection with the current set. -/
theorem fanout_loses_nothing [DecidableEq μ] (marshal : List DesiredPackage → μ)
    (rows : List DesiredPackageRow) (es : List Event)
    (h : Along (step marshal) InOrder { table := rows } es) :
    Delivered marshal (exec (step marshal) { table := rows } es) := by
  apply Inv.delivered
  apply Runs.exec_invariant_along (P := Inv marshal) _ (inv_start marshal rows) h
  exact fun w e hw ho => inv_step hw ho

def package (sha256 : String) : List DesiredPackageRow :=
  [⟨⟨1, "app.pkg", sha256, 10⟩, true⟩]

/-- The start-up push reads first and sends last, in both critical sections' order. -/
theorem fanout_loses_nothing_overlapping :
    Delivered id (exec (step id) { table := package "a" }
      [.register 7, .startRead 0 true, .change (package "b"), .fanRead true, .collect [0], .startLock 0,
        .startSend 0, .fanLock, .write 0, .fanSend]) :=
  fanout_loses_nothing id (package "a") _ (by decide)

/-- The broadcast sends between the start-up push's critical section and its send. -/
def overtaken : List Event :=
  [.register 7, .startRead 0 true, .change (package "b"), .fanRead true, .collect [0], .startLock 0,
    .fanLock, .fanSend, .startSend 0, .fanRead true, .collect [0], .fanLock]

/-- The worker keeps the old set, and the next broadcast considers the new one sent. -/
theorem overtaken_push_is_last : ¬∀ rows es, Delivered id (exec (step id) { table := rows } es) := by
  intro h
  have hrun := h (package "a") overtaken
  have hpolled : 0 ∈ (exec (step id) ({ table := package "a" } : Hub _) overtaken).polled := by
    decide
  have hopen : ((exec (step id) ({ table := package "a" } : Hub _) overtaken).conns 0).map
      (fun c => c.closed) = some false := by decide
  have hlast : ((exec (step id) ({ table := package "a" } : Hub _) overtaken).conns 0).map
      (fun c => c.lastPut) = some (desiredPackages (package "a")) := by decide
  have hcurrent : (exec (step id) ({ table := package "a" } : Hub _) overtaken).current id =
      desiredPackages (package "b") := by decide
  obtain ⟨c, hc, hclosed⟩ := Option.map_eq_some_iff.mp hopen
  obtain ⟨c', hc', hput⟩ := Option.map_eq_some_iff.mp hlast
  rw [hc, Option.some.injEq] at hc'
  subst hc'
  obtain ⟨msg, hmsg, hlastPut⟩ := hrun.polled 0 hpolled c hc hclosed
  rw [hput] at hlastPut
  rw [hcurrent, ← hlastPut] at hmsg
  revert hmsg
  decide

end DesiredFanout
