import Woodstar.KeyedRows

/-!
# Transactions under READ COMMITTED

A transaction runs its statements one after another and keeps its changes to itself until
it commits. A statement reads what is committed when it starts and what its own transaction
changed, and it ends once no other open transaction holds a row that it changes. A change
is applied to the newest version of its row.
-/
namespace ReadCommitted

open KeyedRows (Table)

/-- `start` is what a statement reads and computes, `none` when it fails. `fits` is checked
when the statement ends. -/
structure System (D S C L : Type) where
  start : D → S → Option (List C)
  fits : D → C → Bool
  apply : D → C → D
  locks : D → C → List L
  meets : L → L → Bool

/-- A statement that has started, with its changes. -/
structure Running (S C : Type) where
  statement : S
  changes : List C

structure Tx (I S C L : Type) where
  info : I
  rest : List S
  past : List S := []
  running : Option (Running S C) := none
  log : List C := []
  locks : List L := []

structure World (D I S C L : Type) where
  db : D
  txs : Table (Tx I S C L) := .empty

inductive Event (I S : Type) where
  | begin (info : I) (program : List S)
  | next (t : Int)
  | finish (t : Int)
  | commit (t : Int)
  | rollback (t : Int)

variable {D I S C L : Type}

def Tx.started (tx : Tx I S C L) (s : S) (rest : List S) (changes : List C) : Tx I S C L :=
  { tx with rest := rest, past := s :: tx.past, running := some ⟨s, changes⟩ }

def Tx.ended (tx : Tx I S C L) (changes : List C) (locks : List L) : Tx I S C L :=
  { tx with running := none, log := tx.log ++ changes, locks := tx.locks ++ locks }

def Tx.Done (tx : Tx I S C L) : Prop := tx.rest = [] ∧ tx.running.isNone = true

section Step

variable (sys : System D S C L)

def applyAll (db : D) (changes : List C) : D := changes.foldl sys.apply db

/-- What the transaction sees. -/
def view (db : D) (tx : Tx I S C L) : D := applyAll sys db tx.log

/-- Another open transaction holds one of the rows. -/
def blocked (w : World D I S C L) (t : Int) (locks : List L) : Bool :=
  w.txs.ids.any (fun t' => t' != t && (w.txs.row t').any (fun other =>
    locks.any (fun lock => other.locks.any (fun held => sys.meets lock held))))

def World.put (w : World D I S C L) (t : Int) (tx : Tx I S C L) : World D I S C L :=
  { w with txs := w.txs.modify t (fun _ => tx) }

def World.drop (w : World D I S C L) (t : Int) : World D I S C L := { w with txs := w.txs.erase t }

/-- The next statement starts. One that fails ends the transaction. -/
def next (w : World D I S C L) (t : Int) (tx : Tx I S C L) : World D I S C L :=
  match tx.running, tx.rest with
  | none, s :: rest =>
    match sys.start (view sys w.db tx) s with
    | some changes => w.put t (tx.started s rest changes)
    | none => w.drop t
  | _, _ => w

/-- The running statement ends, unless it still waits. -/
def finish (w : World D I S C L) (t : Int) (tx : Tx I S C L) : World D I S C L :=
  match tx.running with
  | some running =>
    let now := view sys w.db tx
    let locks := running.changes.flatMap (sys.locks now)
    if blocked sys w t locks = true then w
    else if running.changes.all (sys.fits now) = true then w.put t (tx.ended running.changes locks)
    else w.drop t
  | none => w

def commit (w : World D I S C L) (t : Int) (tx : Tx I S C L) : World D I S C L :=
  match tx.running, tx.rest with
  | none, [] => { db := view sys w.db tx, txs := w.txs.erase t }
  | _, _ => w

def World.on (w : World D I S C L) (t : Int) (f : Tx I S C L → World D I S C L) : World D I S C L :=
  match w.txs.row t with
  | some tx => f tx
  | none => w

def step (w : World D I S C L) : Event I S → World D I S C L
  | .begin info program => { w with txs := w.txs.insert { info := info, rest := program } }
  | .next t => w.on t (next sys w t)
  | .finish t => w.on t (finish sys w t)
  | .commit t => w.on t (commit sys w t)
  | .rollback t => w.on t (fun _ => w.drop t)

end Step

section Invariant

variable {sys : System D S C L} {w : World D I S C L} {t : Int} {tx : Tx I S C L}

theorem applyAll_append (db : D) (changes changes' : List C) :
    applyAll sys db (changes ++ changes') = applyAll sys (applyAll sys db changes) changes' :=
  List.foldl_append

theorem view_ended (db : D) (tx : Tx I S C L) (changes : List C) (locks : List L) :
    view sys db (tx.ended changes locks) = applyAll sys (view sys db tx) changes :=
  applyAll_append db tx.log changes

/-- What holds of the committed rows, and of every open transaction over them. -/
structure Holds (Good : D → Prop) (Own : D → Tx I S C L → Prop) (w : World D I S C L) : Prop where
  good : Good w.db
  own : ∀ t tx, w.txs.row t = some tx → Own w.db tx

/-- What each statement keeps for its own transaction, each commit must keep for the
committed rows and for the other open transactions. -/
structure Keeps (sys : System D S C L) (Good : D → Prop) (Own : D → Tx I S C L → Prop)
    (Beside : Tx I S C L → Tx I S C L → Prop) : Prop where
  next : ∀ db tx s rest changes, Good db → Own db tx → tx.running = none → tx.rest = s :: rest →
    sys.start (view sys db tx) s = some changes → Own db (tx.started s rest changes)
  finish : ∀ db tx running locks, Own db tx → tx.running = some running →
    (∀ c ∈ running.changes, sys.fits (view sys db tx) c = true) → Own db (tx.ended running.changes locks)
  commit : ∀ db tx, Good db → Own db tx → tx.Done → Good (view sys db tx)
  beside : ∀ db tx other, Own db tx → Own db other → tx.Done → Beside tx other →
    Own (view sys db tx) other

/-- A transaction commits beside the other open ones only as the condition allows. -/
def Clear (Beside : Tx I S C L → Tx I S C L → Prop) (w : World D I S C L) : Event I S → Prop
  | .commit t => ∀ tx ∈ w.txs.row t, ∀ t' ∈ w.txs.ids, t' ≠ t → ∀ other ∈ w.txs.row t', Beside tx other
  | _ => True

instance (Beside : Tx I S C L → Tx I S C L → Prop) [∀ tx other, Decidable (Beside tx other)]
    (w : World D I S C L) (e : Event I S) : Decidable (Clear Beside w e) := by
  cases e <;> unfold Clear <;> infer_instance

variable {Good : D → Prop} {Own : D → Tx I S C L → Prop} {Beside : Tx I S C L → Tx I S C L → Prop}

theorem holds_put {tx' : Tx I S C L} (h : Holds Good Own w) (hown : Own w.db tx') :
    Holds Good Own (w.put t tx') := by
  refine ⟨h.good, fun k other hk => ?_⟩
  rw [World.put, Table.row_modify] at hk
  split_ifs at hk
  · obtain ⟨-, -, rfl⟩ := Option.map_eq_some_iff.mp hk
    exact hown
  · exact h.own k other hk

theorem holds_drop (h : Holds Good Own w) : Holds Good Own (w.drop t) := by
  refine ⟨h.good, fun k other hk => ?_⟩
  rw [World.drop, Table.row_erase] at hk
  split_ifs at hk
  exact h.own k other hk

theorem holds_next (hkeeps : Keeps sys Good Own Beside) (h : Holds Good Own w)
    (hrow : w.txs.row t = some tx) : Holds Good Own (next sys w t tx) := by
  unfold next
  split
  · rename_i s rest hrunning hrest
    cases hstart : sys.start (view sys w.db tx) s with
    | none => exact holds_drop h
    | some changes =>
      exact holds_put h (hkeeps.next w.db tx s rest changes h.good (h.own t tx hrow) hrunning hrest hstart)
  · exact h

theorem holds_finish (hkeeps : Keeps sys Good Own Beside) (h : Holds Good Own w)
    (hrow : w.txs.row t = some tx) : Holds Good Own (finish sys w t tx) := by
  unfold finish
  split
  · rename_i running hrunning
    dsimp only
    split_ifs with hblocked hfits
    · exact h
    · rw [List.all_eq_true] at hfits
      exact holds_put h (hkeeps.finish w.db tx running _ (h.own t tx hrow) hrunning hfits)
    · exact holds_drop h
  · exact h

theorem holds_commit (hkeeps : Keeps sys Good Own Beside) (h : Holds Good Own w)
    (hrow : w.txs.row t = some tx) (hclear : Clear Beside w (.commit t)) :
    Holds Good Own (commit sys w t tx) := by
  unfold commit
  split
  · rename_i hrunning hrest
    have hdone : tx.Done := ⟨hrest, by rw [hrunning]; rfl⟩
    have hown := h.own t tx hrow
    refine ⟨hkeeps.commit w.db tx h.good hown hdone, fun k other hk => ?_⟩
    rw [Table.row_erase] at hk
    split_ifs at hk with hne
    have hids : k ∈ w.txs.ids := Table.mem_ids.mpr (by rw [hk]; rfl)
    exact hkeeps.beside w.db tx other hown (h.own k other hk) hdone (hclear tx hrow k hids hne other hk)
  · exact h

theorem holds_on {f : Tx I S C L → World D I S C L} (h : Holds Good Own w)
    (hf : ∀ tx, w.txs.row t = some tx → Holds Good Own (f tx)) : Holds Good Own (w.on t f) := by
  unfold World.on
  split
  · rename_i tx hrow
    exact hf tx hrow
  · exact h

/-- A step keeps the invariant when the transactions that begin have it. -/
theorem holds_step (hkeeps : Keeps sys Good Own Beside) (h : Holds Good Own w) {e : Event I S}
    (hbegin : ∀ info program, e = .begin info program → Own w.db { info := info, rest := program })
    (hclear : Clear Beside w e) : Holds Good Own (step sys w e) := by
  cases e with
  | begin info program =>
    refine ⟨h.good, fun k other hk => ?_⟩
    have hk' := hk
    simp only [step, Table.row_insert] at hk'
    split_ifs at hk'
    · obtain rfl := Option.some.inj hk'
      exact hbegin info program rfl
    · exact h.own k other hk'
  | next t => exact holds_on h (fun tx hrow => holds_next hkeeps h hrow)
  | finish t => exact holds_on h (fun tx hrow => holds_finish hkeeps h hrow)
  | commit t => exact holds_on h (fun tx hrow => holds_commit hkeeps h hrow hclear)
  | rollback t => exact holds_on h (fun tx hrow => holds_drop h)

end Invariant

end ReadCommitted
