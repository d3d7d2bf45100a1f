import Woodstar.Runs
import Woodstar.KeyedRows
import Woodstar.Primitives

/-!
# Heartbeats

`internal/heartbeats`: one statement keeps the row of a host and a source. Contacts come
in at the same time: a statement reads the rows that are committed when it starts, waits
for the row that it updates or meets, and checks the newest version of it again. The
contact of an enrollment ends with the enrollment's transaction. Times are microseconds.
-/
namespace Heartbeats

open Primitives (Fault isText bind_eq_ok)
open KeyedRows (Table)
open Runs

inductive Source where
  | orbit
  | osquery
  | munki
  | santa
  deriving DecidableEq, Repr

/-- The source of a name, if it is `valid`. -/
def Source.valid : String → Option Source
  | "orbit" => some .orbit
  | "osquery" => some .osquery
  | "munki" => some .munki
  | "santa" => some .santa
  | _ => none

structure Contact where
  remoteIP : String
  userAgent : String
  deriving DecidableEq

/-- What `netip.ParseAddr` and the type `inet` make of a text. -/
structure Addresses (A : Type) where
  zone : String → Option String
  inet : String → Option A

structure Key where
  hostID : Int
  source : Source
  deriving DecidableEq, Repr

structure Row (A : Type) where
  lastSeenAt : Int
  remoteIP : Option A
  userAgent : String
  deriving DecidableEq

/-- The parameters of the statement. -/
structure Call (A : Type) where
  key : Key
  remoteIP : Option A
  userAgent : String
  deriving DecidableEq

section Record

variable {A : Type} [DecidableEq A]

/-- The checks of `record`, in its order. -/
def check (net : Addresses A) (hostID : Int) (source : String) (contact : Contact) :
    Except Fault Source := do
  if hostID ≤ 0 then .error (.invalidInput "host ID") else pure ()
  let valid ← match Source.valid source with
    | some valid => .ok valid
    | none => .error (.invalidInput "source")
  if contact.remoteIP ≠ "" ∧ net.zone contact.remoteIP ≠ some "" then
    .error (.invalidInput "remote IP")
  else .ok valid

/-- `NULLIF($3, '')::inet` and the user agent as a text. -/
def parameters (net : Addresses A) (key : Key) (contact : Contact) : Except Fault (Call A) :=
  if isText contact.userAgent = false then .error (.database "text")
  else if contact.remoteIP = "" then .ok ⟨key, none, contact.userAgent⟩
  else
    match net.inet contact.remoteIP with
    | some address => .ok ⟨key, some address, contact.userAgent⟩
    | none => .error (.database "inet")

def prepare (net : Addresses A) (hostID : Int) (source : String) (contact : Contact) :
    Except Fault (Call A) := do
  let valid ← check net hostID source contact
  parameters net ⟨hostID, valid⟩ contact

def refreshInterval : Int := 30000000

def Call.row (call : Call A) (now : Int) : Row A := ⟨now, call.remoteIP, call.userAgent⟩

/-- The condition of the update. -/
def refreshes (call : Call A) (now : Int) (row : Row A) : Bool :=
  row.lastSeenAt < now - refreshInterval || row.remoteIP != call.remoteIP ||
    row.userAgent != call.userAgent

/-- What the statement leaves in the current row, with the row `found` of its snapshot. The
insertion is for a row that was not found, and gives way to one that is there by then; the
update is for a row that was found to need it, and looks at the current version again. -/
def written (call : Call A) (now : Int) : Option (Row A) → Option (Row A) → Option (Row A)
  | none, none => some (call.row now)
  | none, some row => some row
  | some _, none => none
  | some found, some row =>
    if refreshes call now found = true ∧ refreshes call now row = true then some (call.row now)
    else some row

/-- A transaction that is to record a contact. `found` is what its statement read, at the
step `readAt`. -/
structure Open (A : Type) where
  call : Call A
  now : Int
  found : Option (Option (Row A)) := none
  readAt : Nat := 0

/-- A contact that was recorded: when its statement read and when it ended. -/
structure Recorded (A : Type) where
  call : Call A
  now : Int
  readAt : Nat
  endedAt : Nat
  endClock : Int
  deriving DecidableEq

/-- `steps` counts the steps and `recorded` remembers the contacts; neither is read. -/
structure World (A : Type) where
  hosts : Table Unit := .empty
  heartbeats : Key → Option (Row A) := fun _ => none
  clock : Int := 0
  opened : Table (Open A) := .empty
  steps : Nat := 0
  recorded : List (Recorded A) := []

inductive Event where
  | wait (duration : Nat)
  | createHost
  | deleteHost (id : Int)
  | contact (hostID : Int) (source : String) (contact : Contact)
  | read (t : Int)
  | finish (t : Int)
  | rollback (t : Int)
  deriving DecidableEq

/-- The foreign key of an inserted row. -/
def fits (w : World A) (o : Open A) (found : Option (Row A)) : Bool :=
  found.isSome || (w.heartbeats o.call.key).isSome || (w.hosts.row o.call.key.hostID).isSome

/-- The snapshot of the statement. -/
def Open.read (o : Open A) (w : World A) : Open A :=
  match o.found with
  | some _ => o
  | none => { o with found := some (w.heartbeats o.call.key), readAt := w.steps }

def Open.recorded (o : Open A) (w : World A) : Recorded A :=
  ⟨o.call, o.now, o.readAt, w.steps, w.clock⟩

def finish (w : World A) (t : Int) (o : Open A) (found : Option (Row A)) : World A :=
  if fits w o found = true then
    { w with
      heartbeats := Function.update w.heartbeats o.call.key
        (written o.call o.now found (w.heartbeats o.call.key))
      opened := w.opened.erase t
      recorded := o.recorded w :: w.recorded }
  else { w with opened := w.opened.erase t }

def act (net : Addresses A) (w : World A) : Event → World A
  | .wait duration => { w with clock := w.clock + duration }
  | .createHost => { w with hosts := w.hosts.insert () }
  | .deleteHost id =>
    { w with
      hosts := w.hosts.erase id
      heartbeats := fun k => if k.hostID = id then none else w.heartbeats k }
  | .contact hostID source contact =>
    match prepare net hostID source contact with
    | .ok call => { w with opened := w.opened.insert { call := call, now := w.clock } }
    | .error _ => w
  | .read t => { w with opened := w.opened.modify t (fun o => o.read w) }
  | .finish t =>
    match w.opened.row t with
    | some o =>
      match o.found with
      | some found => finish w t o found
      | none => w
    | none => w
  | .rollback t => { w with opened := w.opened.erase t }

def step (net : Addresses A) (w : World A) (e : Event) : World A :=
  { act net w e with steps := w.steps + 1 }

/-- A contact's transaction ends at most `delay` after it began. -/
def Prompt (delay : Nat) (w : World A) : Event → Prop
  | .finish t => ∀ o ∈ w.opened.row t, w.clock ≤ o.now + delay
  | _ => True

instance decidablePrompt (delay : Nat) (w : World A) (e : Event) : Decidable (Prompt delay w e) := by
  cases e <;> simp only [Prompt] <;> infer_instance

end Record

section Invariant

variable {A : Type} [DecidableEq A] {net : Addresses A} {delay : Nat} {w : World A}
variable {k : Key} {row : Row A} {e d : Recorded A} {o : Open A} {found : Option (Row A)} {t : Int}

def Recorded.agrees (d e : Recorded A) : Prop :=
  d.call.remoteIP = e.call.remoteIP ∧ d.call.userAgent = e.call.userAgent

/-- The row is the one of a contact, and whoever read later found it and says the same. -/
structure Wrote (w : World A) (k : Key) (row : Row A) (e : Recorded A) : Prop where
  recorded : e ∈ w.recorded
  key : e.call.key = k
  content : row = e.call.row e.now
  later : ∀ d ∈ w.recorded, d.call.key = k → e.endedAt < d.readAt → d.agrees e
  seen : ∀ t o found, w.opened.row t = some o → o.call.key = k → o.found = some found →
    e.endedAt < o.readAt → found = some row

/-- How far the time of a row may be behind a contact. -/
def slack (delay : Nat) : Int := max refreshInterval delay

structure OpenSound (w : World A) (o : Open A) : Prop where
  begun : o.now ≤ w.clock
  step : ∀ found, o.found = some found → o.readAt < w.steps
  host : ∀ row, o.found = some (some row) → o.call.key.hostID ≤ w.hosts.used
  still : ∀ row, o.found = some (some row) → (w.hosts.row o.call.key.hostID).isSome = true →
    (w.heartbeats o.call.key).isSome = true
  overlap : ∀ found, o.found = some found → ∀ e ∈ w.recorded, o.readAt ≤ e.endedAt → o.now ≤ e.endClock

structure RecordedSound (delay : Nat) (w : World A) (e : Recorded A) : Prop where
  read : e.readAt < w.steps
  ended : e.endedAt < w.steps
  clock : e.endClock ≤ w.clock
  prompt : e.endClock ≤ e.now + delay
  begun : e.now ≤ e.endClock
  host : e.call.key.hostID ≤ w.hosts.used

structure Sound (delay : Nat) (w : World A) : Prop where
  opened : ∀ t o, w.opened.row t = some o → OpenSound w o
  recorded : ∀ e ∈ w.recorded, RecordedSound delay w e
  wrote : ∀ k row, w.heartbeats k = some row → ∃ e, Wrote w k row e
  kept : ∀ d ∈ w.recorded, (w.hosts.row d.call.key.hostID).isSome = true →
    ∃ row, w.heartbeats d.call.key = some row ∧ d.now - slack delay ≤ row.lastSeenAt

omit [DecidableEq A] in
/-- The empty tables. -/
theorem sound_empty : Sound delay ({} : World A) := by
  constructor
  · intro t o h
    cases h
  · intro e h
    cases h
  · intro k row h
    cases h
  · intro d h
    cases h

theorem not_refreshes {call : Call A} {now : Int} (h : refreshes call now row ≠ true) :
    now - refreshInterval ≤ row.lastSeenAt ∧ row.remoteIP = call.remoteIP ∧ row.userAgent = call.userAgent := by
  simp only [refreshes, Bool.or_eq_true, decide_eq_true_eq, bne_iff_ne, ne_eq, not_or, not_lt,
    not_not] at h
  exact ⟨h.1.1, h.1.2, h.2⟩

/-- A statement leaves the row of its contact, or one that was there. -/
theorem written_cases {call : Call A} {now : Int} {current : Option (Row A)}
    (h : written call now found current = some row) :
    row = call.row now ∨
      (current = some row ∧ (found = none ∨ ∃ old, found = some old ∧
        (refreshes call now old ≠ true ∨ refreshes call now row ≠ true))) := by
  cases found with
  | none =>
    cases current with
    | none => exact Or.inl (Option.some.inj h).symm
    | some present => exact Or.inr ⟨h, Or.inl rfl⟩
  | some old =>
    cases current with
    | none => cases h
    | some present =>
      simp only [written] at h
      split_ifs at h with hrefreshes
      · exact Or.inl (Option.some.inj h).symm
      · obtain rfl := Option.some.inj h
        right
        constructor
        · rfl
        · right
          exists old
          constructor
          · rfl
          · exact not_and_or.mp hrefreshes

theorem written_present (found : Option (Row A)) (call : Call A) (now : Int) (present : Row A) :
    ∃ row, written call now found (some present) = some row := by
  cases found with
  | none => exact ⟨present, rfl⟩
  | some old =>
    simp only [written]
    split_ifs
    · exact ⟨call.row now, rfl⟩
    · exact ⟨present, rfl⟩

omit [DecidableEq A] in
/-- Whoever read the row before it was last written reads an older one, and is no older
than the row by more than the delay. -/
theorem overlap_fresh (h : Sound delay w) (ho : w.opened.row t = some o) (hfound : o.found = some found)
    (hwrote : Wrote w k row e) (hkey : o.call.key = k) (hdiffers : found ≠ some row) :
    o.now - slack delay ≤ row.lastSeenAt := by
  have hopen := h.opened t o ho
  have hread : o.readAt ≤ e.endedAt := by
    apply Nat.le_of_not_lt
    intro hlt
    exact hdiffers (hwrote.seen t o found ho hkey hfound hlt)
  have hnow := hopen.overlap found hfound e hwrote.recorded hread
  have hprompt := (h.recorded e hwrote.recorded).prompt
  have hslack : (delay : Int) ≤ slack delay := le_max_right _ _
  rw [hwrote.content]
  simp only [Call.row]
  omega

/-- What a contact finds written in the end is not older than the contact by more than the slack. -/
theorem written_fresh (h : Sound delay w) (ho : w.opened.row t = some o) (hfound : o.found = some found)
    (hrow : written o.call o.now found (w.heartbeats o.call.key) = some row) :
    o.now - slack delay ≤ row.lastSeenAt := by
  have hslack : refreshInterval ≤ slack delay := le_max_left _ _
  have hpos : 0 ≤ refreshInterval := by decide
  cases written_cases hrow with
  | inl hnew =>
    rw [hnew]
    simp only [Call.row]
    omega
  | inr hold =>
    obtain ⟨hcurrent, hcase⟩ := hold
    obtain ⟨e, hwrote⟩ := h.wrote o.call.key row hcurrent
    by_cases hdiffers : found = some row
    · cases hcase with
      | inl hnone =>
        rw [hnone] at hdiffers
        cases hdiffers
      | inr hsome =>
        obtain ⟨old, hold, hquiet⟩ := hsome
        rw [hold] at hdiffers
        obtain rfl := Option.some.inj hdiffers
        have := (not_refreshes (hquiet.elim id id)).1
        omega
    · exact overlap_fresh h ho hfound hwrote rfl hdiffers

/-- A contact that read after the row was last written says what the row says. -/
theorem written_agrees (ho : w.opened.row t = some o) (hfound : o.found = some found)
    (hrow : written o.call o.now found (w.heartbeats o.call.key) = some row)
    (hwrote : Wrote w o.call.key row e) (hread : e.endedAt < o.readAt) :
    o.call.remoteIP = e.call.remoteIP ∧ o.call.userAgent = e.call.userAgent := by
  have hseen := hwrote.seen t o found ho rfl hfound hread
  have hcontent := hwrote.content
  have hip : row.remoteIP = e.call.remoteIP := by rw [hcontent]; rfl
  have hagent : row.userAgent = e.call.userAgent := by rw [hcontent]; rfl
  cases written_cases hrow with
  | inl hnew =>
    rw [← hip, ← hagent, hnew]
    exact ⟨rfl, rfl⟩
  | inr hold =>
    obtain ⟨-, hcase⟩ := hold
    cases hcase with
    | inl hnone =>
      rw [hnone] at hseen
      cases hseen
    | inr hsome =>
      obtain ⟨old, hold, hquiet⟩ := hsome
      rw [hold] at hseen
      obtain rfl := Option.some.inj hseen
      obtain ⟨-, hsameIP, hsameAgent⟩ := not_refreshes (hquiet.elim id id)
      exact ⟨hsameIP.symm.trans hip, hsameAgent.symm.trans hagent⟩

omit [DecidableEq A] in
theorem recorded_next (h : RecordedSound delay w e) {w' : World A} (hsteps : w'.steps = w.steps + 1)
    (hclock : w.clock ≤ w'.clock) (hused : w.hosts.used ≤ w'.hosts.used) : RecordedSound delay w' e := by
  obtain ⟨hread, hended, heclock, hprompt, hbegun, hhost⟩ := h
  constructor <;> first | assumption | omega

omit [DecidableEq A] in
/-- A step that leaves the rows, the hosts and the recorded contacts alone. -/
theorem sound_opened (h : Sound delay w) (w' : World A) (hsteps : w'.steps = w.steps + 1)
    (hclock : w.clock ≤ w'.clock) (hhosts : w'.hosts = w.hosts) (hrows : w'.heartbeats = w.heartbeats)
    (hrecorded : w'.recorded = w.recorded)
    (hopened : ∀ t o, w'.opened.row t = some o → OpenSound w' o ∧ ∀ found, o.found = some found →
      found = w.heartbeats o.call.key ∨ ∃ t' o', w.opened.row t' = some o' ∧ o'.call = o.call ∧
        o'.found = some found ∧ o'.readAt = o.readAt) : Sound delay w' := by
  constructor
  · intro t o ho
    exact (hopened t o ho).1
  · intro e he
    rw [hrecorded] at he
    exact recorded_next (h.recorded e he) hsteps hclock (by rw [hhosts])
  · intro k row hrow
    rw [hrows] at hrow
    obtain ⟨e, hwrote⟩ := h.wrote k row hrow
    exists e
    constructor
    · rw [hrecorded]
      exact hwrote.recorded
    · exact hwrote.key
    · exact hwrote.content
    · rw [hrecorded]
      exact hwrote.later
    · intro t o found ho hkey hfound hread
      cases (hopened t o ho).2 found hfound with
      | inl hnow => rw [hnow, hkey, hrow]
      | inr hold =>
        obtain ⟨t', o', ho', hcall, hfound', hread'⟩ := hold
        apply hwrote.seen t' o' found ho' (by rw [hcall, hkey]) hfound'
        rwa [hread']
  · intro d hd hhost
    rw [hrecorded] at hd
    rw [hhosts] at hhost
    rw [hrows]
    exact h.kept d hd hhost

omit [DecidableEq A] in
theorem open_same (h : OpenSound w o) (w' : World A) (hsteps : w'.steps = w.steps + 1)
    (hclock : w.clock ≤ w'.clock) (hhosts : w'.hosts = w.hosts) (hrows : w'.heartbeats = w.heartbeats)
    (hrecorded : w'.recorded = w.recorded) : OpenSound w' o := by
  constructor
  · exact le_trans h.begun hclock
  · intro found hfound
    have := h.step found hfound
    omega
  · rw [hhosts]
    exact h.host
  · rw [hhosts, hrows]
    exact h.still
  · rw [hrecorded]
    exact h.overlap

omit [DecidableEq A] in
theorem sound_wait (h : Sound delay w) (duration : Nat) :
    Sound delay { w with clock := w.clock + duration, steps := w.steps + 1 } := by
  have hclock : w.clock ≤ w.clock + duration := by omega
  refine sound_opened h _ rfl hclock rfl rfl rfl (fun t o ho => ?_)
  constructor
  · exact open_same (h.opened t o ho) _ rfl hclock rfl rfl rfl
  · intro found hfound
    exact Or.inr ⟨t, o, ho, rfl, hfound, rfl⟩

omit [DecidableEq A] in
theorem sound_contact (h : Sound delay w) (call : Call A) :
    Sound delay { w with
      opened := w.opened.insert { call := call, now := w.clock }
      steps := w.steps + 1 } := by
  refine sound_opened h _ rfl le_rfl rfl rfl rfl (fun t o ho => ?_)
  rw [Table.row_insert] at ho
  split_ifs at ho
  · obtain rfl := Option.some.inj ho
    constructor
    · constructor
      · exact le_rfl
      · nofun
      · nofun
      · nofun
      · nofun
    · nofun
  · constructor
    · exact open_same (h.opened t o ho) _ rfl le_rfl rfl rfl rfl
    · intro found hfound
      exact Or.inr ⟨t, o, ho, rfl, hfound, rfl⟩

omit [DecidableEq A] in
theorem sound_rollback (h : Sound delay w) (t : Int) :
    Sound delay { w with opened := w.opened.erase t, steps := w.steps + 1 } := by
  refine sound_opened h _ rfl le_rfl rfl rfl rfl (fun t' o ho => ?_)
  rw [Table.row_erase] at ho
  split_ifs at ho
  constructor
  · exact open_same (h.opened t' o ho) _ rfl le_rfl rfl rfl rfl
  · intro found hfound
    exact Or.inr ⟨t', o, ho, rfl, hfound, rfl⟩

omit [DecidableEq A] in
/-- The host of a row has been numbered. -/
theorem row_host (h : Sound delay w) (hrow : w.heartbeats k = some row) : k.hostID ≤ w.hosts.used := by
  obtain ⟨e, hwrote⟩ := h.wrote k row hrow
  rw [← hwrote.key]
  exact (h.recorded e hwrote.recorded).host

omit [DecidableEq A] in
theorem open_read (h : Sound delay w) (ho : w.opened.row t = some o) :
    OpenSound { w with opened := w.opened.modify t (fun o => o.read w), steps := w.steps + 1 }
      { o with found := some (w.heartbeats o.call.key), readAt := w.steps } := by
  constructor
  · exact (h.opened t o ho).begun
  · intro found hfound
    exact Nat.lt_succ_self w.steps
  · intro row hrow
    have hcurrent : w.heartbeats o.call.key = some row := Option.some.inj hrow
    have hhost := row_host h hcurrent
    exact hhost
  · intro row hrow hhost
    have hcurrent : w.heartbeats o.call.key = some row := Option.some.inj hrow
    exact Option.isSome_of_eq_some hcurrent
  · intro found hfound e he hread
    have := (h.recorded e he).ended
    have hle : w.steps ≤ e.endedAt := hread
    omega

omit [DecidableEq A] in
theorem sound_read (h : Sound delay w) (t : Int) :
    Sound delay { w with opened := w.opened.modify t (fun o => o.read w), steps := w.steps + 1 } := by
  refine sound_opened h _ rfl le_rfl rfl rfl rfl (fun t' o' ho' => ?_)
  have hrow := ho'
  simp only [Table.row_modify] at hrow
  split_ifs at hrow with heq
  · obtain ⟨o, ho, rfl⟩ := Option.map_eq_some_iff.mp hrow
    cases hfound : o.found with
    | some found =>
      have hsame : o.read w = o := by simp only [Open.read, hfound]
      rw [hsame]
      constructor
      · exact open_same (h.opened t' o ho) _ rfl le_rfl rfl rfl rfl
      · intro found' hfound'
        exact Or.inr ⟨t', o, ho, rfl, hfound', rfl⟩
    | none =>
      have hnew : o.read w = { o with found := some (w.heartbeats o.call.key), readAt := w.steps } := by
        simp only [Open.read, hfound]
      rw [hnew]
      constructor
      · subst heq
        exact open_read h ho
      · intro found' hfound'
        exact Or.inl (Option.some.inj hfound').symm
  · constructor
    · exact open_same (h.opened t' o' hrow) _ rfl le_rfl rfl rfl rfl
    · intro found hfound
      exact Or.inr ⟨t', o', hrow, rfl, hfound, rfl⟩

omit [DecidableEq A] in
/-- Changes of the hosts that number on and leave only rows of remaining hosts. -/
theorem sound_hosts (h : Sound delay w) (hosts : Table Unit) (rows : Key → Option (Row A))
    (hused : w.hosts.used ≤ hosts.used)
    (hhosts : ∀ id : Int, id ≤ w.hosts.used → (hosts.row id).isSome = true → (w.hosts.row id).isSome = true)
    (hrows : ∀ k row, rows k = some row → w.heartbeats k = some row)
    (hkept : ∀ k, (hosts.row k.hostID).isSome = true → rows k = w.heartbeats k) :
    Sound delay { w with hosts := hosts, heartbeats := rows, steps := w.steps + 1 } := by
  have hle : (w.hosts.used : Int) ≤ hosts.used := by omega
  constructor
  · intro t o ho
    have hopen := h.opened t o ho
    constructor
    · exact hopen.begun
    · intro found hfound
      exact Nat.lt_succ_of_lt (hopen.step found hfound)
    · intro row hrow
      exact le_trans (hopen.host row hrow) hle
    · intro row hrow hhost
      simp only [hkept o.call.key hhost]
      exact hopen.still row hrow (hhosts _ (hopen.host row hrow) hhost)
    · exact hopen.overlap
  · intro e he
    exact recorded_next (h.recorded e he) rfl le_rfl hused
  · intro k row hrow
    obtain ⟨e, hwrote⟩ := h.wrote k row (hrows k row hrow)
    exact ⟨e, hwrote.recorded, hwrote.key, hwrote.content, hwrote.later, hwrote.seen⟩
  · intro d hd hhost
    obtain ⟨row, hrow, hfresh⟩ := h.kept d hd (hhosts _ (h.recorded d hd).host hhost)
    exists row
    constructor
    · rw [← hrow]
      exact hkept d.call.key hhost
    · exact hfresh

omit [DecidableEq A] in
theorem sound_createHost (h : Sound delay w) :
    Sound delay { w with hosts := w.hosts.insert (), steps := w.steps + 1 } := by
  apply sound_hosts h (w.hosts.insert ()) w.heartbeats
  · exact Nat.le_succ w.hosts.used
  · intro id hid hhost
    rw [Table.row_insert] at hhost
    split_ifs at hhost with hnext
    · rw [hnext, Table.next] at hid
      omega
    · exact hhost
  · exact fun k row hrow => hrow
  · exact fun k _ => rfl

omit [DecidableEq A] in
theorem sound_deleteHost (h : Sound delay w) (id : Int) :
    Sound delay { w with
      hosts := w.hosts.erase id
      heartbeats := fun k => if k.hostID = id then none else w.heartbeats k
      steps := w.steps + 1 } := by
  apply sound_hosts h
  · exact le_rfl
  · intro id' hid hhost
    rw [Table.row_erase] at hhost
    split_ifs at hhost with hid'
    · cases hhost
    · exact hhost
  · intro k row hrow
    split_ifs at hrow
    exact hrow
  · intro k hhost
    rw [Table.row_erase] at hhost
    split_ifs at hhost with hid
    · cases hhost
    · exact if_neg hid

/-- After the contact `o` ended with the row it found. -/
def World.finished (w : World A) (t : Int) (o : Open A) (found : Option (Row A)) : World A :=
  { w with
    heartbeats := Function.update w.heartbeats o.call.key
      (written o.call o.now found (w.heartbeats o.call.key))
    opened := w.opened.erase t
    recorded := o.recorded w :: w.recorded
    steps := w.steps + 1 }

theorem finished_other (hne : k ≠ o.call.key) :
    (w.finished t o found).heartbeats k = w.heartbeats k := Function.update_of_ne hne _ _

theorem finished_own : (w.finished t o found).heartbeats o.call.key =
    written o.call o.now found (w.heartbeats o.call.key) := Function.update_self ..

theorem finished_opened {t' : Int} {o' : Open A} (ho : (w.finished t o found).opened.row t' = some o') :
    w.opened.row t' = some o' := by
  simp only [World.finished, Table.row_erase] at ho
  split_ifs at ho
  exact ho

/-- A row is not lost. -/
theorem finished_present (hrow : (w.heartbeats k).isSome = true) :
    ((w.finished t o found).heartbeats k).isSome = true := by
  by_cases hkey : k = o.call.key
  · subst hkey
    rw [finished_own]
    obtain ⟨row, hcurrent⟩ := Option.isSome_iff_exists.mp hrow
    rw [hcurrent]
    obtain ⟨row', hwritten⟩ := written_present found o.call o.now row
    rw [hwritten]
    rfl
  · rw [finished_other hkey]
    exact hrow

/-- The contact that a step later wrote a row is still the one to ask about it. -/
theorem wrote_finished (ho : w.opened.row t = some o) (hfound : o.found = some found)
    (hwrote : Wrote w k row e) (hrow : (w.finished t o found).heartbeats k = some row) :
    Wrote (w.finished t o found) k row e := by
  constructor
  · exact List.mem_cons_of_mem _ hwrote.recorded
  · exact hwrote.key
  · exact hwrote.content
  · intro d hd hkey hread
    cases List.mem_cons.mp hd with
    | inl hnew =>
      subst hnew
      have hk : o.call.key = k := hkey
      subst hk
      rw [finished_own] at hrow
      exact written_agrees ho hfound hrow hwrote hread
    | inr hold => exact hwrote.later d hold hkey hread
  · intro t' o' found' ho' hkey hfound' hread
    exact hwrote.seen t' o' found' (finished_opened ho') hkey hfound' hread

/-- A row that the contact wrote. -/
theorem wrote_new (h : Sound delay w) (ho : w.opened.row t = some o) (hfound : o.found = some found) :
    Wrote (w.finished t o found) o.call.key (o.call.row o.now) (o.recorded w) := by
  constructor
  · exact List.mem_cons_self
  · rfl
  · rfl
  · intro d hd hkey hread
    have hlt : d.readAt < w.steps := by
      cases List.mem_cons.mp hd with
      | inl hnew => exact hnew ▸ (h.opened t o ho).step found hfound
      | inr hold => exact (h.recorded d hold).read
    exact absurd hlt (Nat.not_lt_of_lt hread)
  · intro t' o' found' ho' hkey hfound' hread
    have hlt := (h.opened t' o' (finished_opened ho')).step found' hfound'
    exact absurd hlt (Nat.not_lt_of_lt hread)

/-- A row after the contact is the new one, or one that was there. -/
theorem finished_cases (hrow : (w.finished t o found).heartbeats k = some row) :
    (k = o.call.key ∧ row = o.call.row o.now) ∨ w.heartbeats k = some row := by
  by_cases hkey : k = o.call.key
  · subst hkey
    rw [finished_own] at hrow
    cases written_cases hrow with
    | inl hnew => exact Or.inl ⟨rfl, hnew⟩
    | inr hold => exact Or.inr hold.1
  · rw [finished_other hkey] at hrow
    exact Or.inr hrow

/-- A contact within the delay does not set a row back by more than the slack. -/
theorem finished_fresh (h : Sound delay w) (hprompt : w.clock ≤ o.now + delay) (hd : d ∈ w.recorded)
    (hold : ∀ row, w.heartbeats k = some row → d.now - slack delay ≤ row.lastSeenAt)
    (hrow : (w.finished t o found).heartbeats k = some row) : d.now - slack delay ≤ row.lastSeenAt := by
  cases finished_cases hrow with
  | inl hnew =>
    have hsound := h.recorded d hd
    have hbegun := hsound.begun
    have hclock := hsound.clock
    have hslack : (delay : Int) ≤ slack delay := le_max_right _ _
    rw [hnew.2]
    simp only [Call.row]
    omega
  | inr hcurrent => exact hold row hcurrent

/-- The row that the contact leaves is there as long as its host. -/
theorem finished_some (h : Sound delay w) (ho : w.opened.row t = some o) (hfound : o.found = some found)
    (hhost : (w.hosts.row o.call.key.hostID).isSome = true) :
    ∃ row, (w.finished t o found).heartbeats o.call.key = some row := by
  rw [finished_own]
  cases hcurrent : w.heartbeats o.call.key with
  | some present => exact written_present found o.call o.now present
  | none =>
    cases found with
    | none => exact ⟨_, rfl⟩
    | some old =>
      have hstill := (h.opened t o ho).still old hfound hhost
      rw [hcurrent] at hstill
      cases hstill

theorem recorded_finished (h : Sound delay w) (ho : w.opened.row t = some o) (hfound : o.found = some found)
    (hfits : fits w o found = true) (hprompt : w.clock ≤ o.now + delay) :
    RecordedSound delay (w.finished t o found) (o.recorded w) := by
  have hopen := h.opened t o ho
  constructor
  · exact Nat.lt_succ_of_lt (hopen.step found hfound)
  · exact Nat.lt_succ_self w.steps
  · exact le_rfl
  · exact hprompt
  · exact hopen.begun
  · show o.call.key.hostID ≤ w.hosts.used
    simp only [fits, Bool.or_eq_true] at hfits
    obtain (hseen | hrow) | hhost := hfits
    · obtain ⟨row, hrow⟩ := Option.isSome_iff_exists.mp hseen
      exact hopen.host row (by rw [hfound, hrow])
    · obtain ⟨row, hrow⟩ := Option.isSome_iff_exists.mp hrow
      exact row_host h hrow
    · exact (w.hosts.numbered _ hhost).2

theorem sound_finished (h : Sound delay w) (ho : w.opened.row t = some o) (hfound : o.found = some found)
    (hfits : fits w o found = true) (hprompt : w.clock ≤ o.now + delay) :
    Sound delay (w.finished t o found) := by
  constructor
  · intro t' o' ho'
    have hopen := h.opened t' o' (finished_opened ho')
    constructor
    · exact hopen.begun
    · intro found' hfound'
      exact Nat.lt_succ_of_lt (hopen.step found' hfound')
    · exact hopen.host
    · intro row hrow hhost
      exact finished_present (hopen.still row hrow hhost)
    · intro found' hfound' e he hread
      cases List.mem_cons.mp he with
      | inl hnew => exact hnew ▸ hopen.begun
      | inr hold => exact hopen.overlap found' hfound' e hold hread
  · intro e he
    cases List.mem_cons.mp he with
    | inl hnew =>
      rw [hnew]
      exact recorded_finished h ho hfound hfits hprompt
    | inr hold => exact recorded_next (h.recorded e hold) rfl le_rfl le_rfl
  · intro k row hrow
    cases finished_cases hrow with
    | inl hnew =>
      obtain ⟨rfl, rfl⟩ := hnew
      exact ⟨_, wrote_new h ho hfound⟩
    | inr hcurrent =>
      obtain ⟨e, hwrote⟩ := h.wrote k row hcurrent
      exact ⟨e, wrote_finished ho hfound hwrote hrow⟩
  · intro d hd hhost
    cases List.mem_cons.mp hd with
    | inl hnew =>
      subst hnew
      obtain ⟨row, hrow⟩ := finished_some h ho hfound hhost
      exists row
      constructor
      · exact hrow
      · rw [finished_own] at hrow
        exact written_fresh h ho hfound hrow
    | inr hold =>
      obtain ⟨row, hrow, hfresh⟩ := h.kept d hold hhost
      have hpresent : ((w.finished t o found).heartbeats d.call.key).isSome = true :=
        finished_present (Option.isSome_of_eq_some hrow)
      obtain ⟨row', hrow'⟩ := Option.isSome_iff_exists.mp hpresent
      exists row'
      constructor
      · exact hrow'
      · apply finished_fresh h hprompt hold _ hrow'
        intro row'' hcurrent
        rw [hrow] at hcurrent
        obtain rfl := Option.some.inj hcurrent
        exact hfresh

/-- A step keeps the invariant when contacts end within the delay. -/
theorem sound_step (h : Sound delay w) {event : Event} (hprompt : Prompt delay w event) :
    Sound delay (step net w event) := by
  have hnothing : Sound delay { w with steps := w.steps + 1 } := by
    simpa using sound_wait h 0
  cases event with
  | wait duration => exact sound_wait h duration
  | createHost => exact sound_createHost h
  | deleteHost id => exact sound_deleteHost h id
  | contact hostID source contact =>
    simp only [step, act]
    cases prepare net hostID source contact with
    | ok call => exact sound_contact h call
    | error fault => exact hnothing
  | read t => exact sound_read h t
  | rollback t => exact sound_rollback h t
  | finish t =>
    simp only [step, act]
    cases ho : w.opened.row t with
    | none => exact hnothing
    | some o =>
      cases hfound : o.found with
      | none =>
        simp only [hfound]
        exact hnothing
      | some found =>
        simp only [hfound, finish]
        split_ifs with hfits
        · exact sound_finished h ho hfound hfits (hprompt o ho)
        · exact sound_rollback h t

theorem sound_run (delay : Nat) (events : List Event)
    (hprompt : Along (step net) (Prompt delay) {} events) :
    Sound delay (exec (step net) ({} : World A) events) := by
  apply exec_invariant_along _ sound_empty hprompt
  intro w event h hevent
  exact sound_step h hevent

end Invariant

inductive HostStatus where
  | online
  | offline
  deriving DecidableEq, Repr

def hostOnlineWindow : Int := 300000000

def statusFromOsqueryHeartbeat (lastSeen : Option Int) (now : Int) : HostStatus :=
  match lastSeen with
  | none => .offline
  | some lastSeen => if lastSeen < now - hostOnlineWindow then .offline else .online

/-- The status of a host in the world's present. -/
def World.status {A : Type} (w : World A) (hostID : Int) : HostStatus :=
  statusFromOsqueryHeartbeat ((w.heartbeats ⟨hostID, .osquery⟩).map Row.lastSeenAt) w.clock

variable {A : Type} [DecidableEq A]

/-- Contacts with one host and source, at any times and in any overlap, none of which takes
longer than `delay`: while the host is there its row is the one of a recorded contact that
no contact which began to look after it contradicts, and it is no more than half a minute,
or the delay, older than any contact. So a host is online while its last contact is younger
than five minutes less that, and offline when its last contact is older than five minutes. -/
theorem heartbeats_follow_contacts (net : Addresses A) (delay : Nat) (events : List Event)
    (hprompt : Along (step net) (Prompt delay) {} events) (k : Key)
    (hhost : ((exec (step net) ({} : World A) events).hosts.row k.hostID).isSome = true) :
    let w := exec (step net) ({} : World A) events
    let contacts := w.recorded.filter (fun d => d.call.key = k)
    (contacts ≠ [] → ∃ row e, w.heartbeats k = some row ∧ e ∈ contacts ∧ row = e.call.row e.now ∧
      (∀ d ∈ contacts, e.endedAt < d.readAt → d.agrees e) ∧
      ∀ d ∈ contacts, d.now - slack delay ≤ row.lastSeenAt) ∧
    (contacts = [] → w.heartbeats k = none) ∧
    (k.source = .osquery →
      (∀ d ∈ contacts, w.clock - hostOnlineWindow + slack delay ≤ d.now → w.status k.hostID = .online) ∧
      ((∀ d ∈ contacts, d.now < w.clock - hostOnlineWindow) → w.status k.hostID = .offline)) := by
  intro w contacts
  have h : Sound delay w := sound_run delay events hprompt
  have hmem : ∀ d, d ∈ contacts ↔ d ∈ w.recorded ∧ d.call.key = k := by
    intro d
    simp only [contacts, List.mem_filter, decide_eq_true_eq]
  have hfresh : ∀ d ∈ contacts, ∃ row, w.heartbeats k = some row ∧ d.now - slack delay ≤ row.lastSeenAt := by
    intro d hd
    obtain ⟨hrecorded, rfl⟩ := (hmem d).mp hd
    exact h.kept d hrecorded hhost
  have hwrote : ∀ row, w.heartbeats k = some row → ∃ e ∈ contacts, row = e.call.row e.now ∧
      ∀ d ∈ contacts, e.endedAt < d.readAt → d.agrees e := by
    intro row hrow
    obtain ⟨e, hwrote⟩ := h.wrote k row hrow
    exists e
    constructor
    · exact (hmem e).mpr ⟨hwrote.recorded, hwrote.key⟩
    · constructor
      · exact hwrote.content
      · intro d hd hread
        exact hwrote.later d ((hmem d).mp hd).1 ((hmem d).mp hd).2 hread
  constructor
  · intro hne
    obtain ⟨d₀, hd₀⟩ := List.exists_mem_of_ne_nil contacts hne
    obtain ⟨row, hrow, -⟩ := hfresh d₀ hd₀
    obtain ⟨e, he, hcontent, hlater⟩ := hwrote row hrow
    refine ⟨row, e, hrow, he, hcontent, hlater, fun d hd => ?_⟩
    obtain ⟨row', hrow', hd'⟩ := hfresh d hd
    rw [hrow] at hrow'
    obtain rfl := Option.some.inj hrow'
    exact hd'
  constructor
  · intro hempty
    cases hrow : w.heartbeats k with
    | none => rfl
    | some row =>
      obtain ⟨e, he, -⟩ := hwrote row hrow
      rw [hempty] at he
      cases he
  · intro hsource
    have hk : (⟨k.hostID, .osquery⟩ : Key) = k := by rw [← hsource]
    constructor
    · intro d hd hrecent
      obtain ⟨row, hrow, hd'⟩ := hfresh d hd
      simp only [World.status, hk, hrow, Option.map_some, statusFromOsqueryHeartbeat]
      rw [if_neg]
      omega
    · intro hold
      cases hrow : w.heartbeats k with
      | none =>
        simp only [World.status, hk, hrow]
        rfl
      | some row =>
        obtain ⟨e, he, hcontent, -⟩ := hwrote row hrow
        have hlast : row.lastSeenAt = e.now := by rw [hcontent]; rfl
        have hbefore := hold e he
        simp only [World.status, hk, hrow, Option.map_some, statusFromOsqueryHeartbeat]
        rw [if_pos]
        omega

def sampleNet : Addresses String where
  zone := fun text => if text = "192.0.2.1" ∨ text = "192.0.2.2" then some "" else none
  inet := fun text => if text = "192.0.2.1" ∨ text = "192.0.2.2" then some text else none

/-- Two first contacts that overlap; the second gives way. One more refreshes the row. -/
def sampleRun : List Event :=
  [.createHost, .contact 1 "osquery" ⟨"192.0.2.1", "osquery/5"⟩, .read 1,
    .contact 1 "osquery" ⟨"192.0.2.2", "osquery/5"⟩, .read 2, .wait 1000, .finish 1, .finish 2,
    .wait 60000000, .contact 1 "osquery" ⟨"192.0.2.2", "osquery/5"⟩, .read 3, .finish 3, .wait 200000000]

theorem heartbeats_follow_contacts_sample :
    (exec (step sampleNet) ({} : World String) sampleRun).status 1 = .online :=
  ((heartbeats_follow_contacts sampleNet 1000 sampleRun (by decide) ⟨1, .osquery⟩ (by decide)).2.2 rfl).1
    ⟨⟨⟨1, .osquery⟩, some "192.0.2.2", "osquery/5"⟩, 60001000, 10, 11, 60001000⟩ (by decide) (by decide)

end Heartbeats
