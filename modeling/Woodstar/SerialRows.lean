import Woodstar.KeyedRows
import Woodstar.Runs

/-!
# Rows that are locked before they are read

A transaction locks the row of its key, reads it, and commits what it makes of what it
read. One that finds the row locked waits. Whatever the transactions do in between, the
rows are those of the committed ones, one after another in the order of their commits.
-/
namespace SerialRows

open KeyedRows (Table)
open Runs

variable {κ ρ ω : Type} [DecidableEq κ]

structure Open (κ ρ ω : Type) where
  key : κ
  op : ω
  locked : Bool := false
  seen : Option ρ := none

/-- `committed` remembers the commits, in their order; nothing reads it. -/
structure World (κ ρ ω : Type) where
  rows : κ → Option ρ
  opened : Table (Open κ ρ ω) := .empty
  committed : List (κ × ω) := []

inductive Event (κ ω : Type) where
  | begin (key : κ) (op : ω)
  | lock (t : Int)
  | read (t : Int)
  | commit (t : Int)
  | rollback (t : Int)
  deriving DecidableEq

/-- Another open transaction has locked the row. -/
def World.blocked (w : World κ ρ ω) (t : Int) (key : κ) : Bool :=
  w.opened.ids.any (fun t' => t' != t && (w.opened.row t').any (fun o => o.locked && decide (o.key = key)))

def World.set (w : World κ ρ ω) (t : Int) (o : Open κ ρ ω) : World κ ρ ω :=
  { w with opened := w.opened.modify t (fun _ => o) }

def World.close (w : World κ ρ ω) (t : Int) : World κ ρ ω := { w with opened := w.opened.erase t }

section Step

-- What an operation makes of a row: `none` when it fails, no row when it deletes it.
variable (effect : ω → ρ → Option (Option ρ))

def commit (w : World κ ρ ω) (t : Int) (o : Open κ ρ ω) (row : ρ) : World κ ρ ω :=
  match effect o.op row with
  | some written =>
    { rows := Function.update w.rows o.key written
      opened := w.opened.erase t
      committed := w.committed ++ [(o.key, o.op)] }
  | none => w.close t

def step (w : World κ ρ ω) : Event κ ω → World κ ρ ω
  | .begin key op => { w with opened := w.opened.insert { key := key, op := op } }
  | .lock t =>
    match w.opened.row t with
    | some o =>
      if w.blocked t o.key = true then w
      else if (w.rows o.key).isSome = true then w.set t { o with locked := true }
      else w.close t
    | none => w
  | .read t =>
    match w.opened.row t with
    | some o => if o.locked = true then w.set t { o with seen := w.rows o.key } else w
    | none => w
  | .commit t =>
    match w.opened.row t with
    | some o =>
      match o.locked, o.seen with
      | true, some row => commit effect w t o row
      | _, _ => w
    | none => w
  | .rollback t => w.close t

/-- An operation on the row of its key, when it is there and the operation does not fail. -/
def applied (rows : κ → Option ρ) (c : κ × ω) : Option (κ → Option ρ) :=
  (rows c.1).bind (fun row => (effect c.2 row).map (fun written => Function.update rows c.1 written))

end Step

section Invariant

variable {effect : ω → ρ → Option (Option ρ)} {rows₀ : κ → Option ρ} {w : World κ ρ ω} {t : Int}
variable {o : Open κ ρ ω}

/-- Locks exclude each other, and what was read under a lock is what is there. -/
structure Sound (effect : ω → ρ → Option (Option ρ)) (rows₀ : κ → Option ρ) (w : World κ ρ ω) : Prop where
  exclusive : ∀ t t' o o', w.opened.row t = some o → w.opened.row t' = some o' → o.locked = true →
    o'.locked = true → o.key = o'.key → t = t'
  current : ∀ t o row, w.opened.row t = some o → o.locked = true → o.seen = some row →
    w.rows o.key = some row
  unread : ∀ t o, w.opened.row t = some o → o.locked = false → o.seen = none
  replayed : tryExec (applied effect) rows₀ w.committed = some w.rows

theorem sound_start (rows₀ : κ → Option ρ) : Sound effect rows₀ { rows := rows₀ } := by
  constructor
  · intro t t' o o' h
    cases h
  · intro t o row h
    cases h
  · intro t o h
    cases h
  · rfl

theorem sound_close (h : Sound effect rows₀ w) (t : Int) : Sound effect rows₀ (w.close t) := by
  have hopened : ∀ t' o', (w.close t).opened.row t' = some o' → w.opened.row t' = some o' := by
    intro t' o' ho
    simp only [World.close, Table.row_erase] at ho
    split_ifs at ho
    exact ho
  constructor
  · intro a b o o' ho ho'
    exact h.exclusive a b o o' (hopened a o ho) (hopened b o' ho')
  · intro a o row ho
    exact h.current a o row (hopened a o ho)
  · intro a o ho
    exact h.unread a o (hopened a o ho)
  · exact h.replayed

/-- A transaction that goes on: it holds the lock already or nobody does, and sees what is there. -/
theorem sound_set (h : Sound effect rows₀ w) (o' : Open κ ρ ω) (ho : w.opened.row t = some o)
    (hfree : o'.locked = true → o.locked = false → w.blocked t o'.key = false) (hkey : o'.key = o.key)
    (hkeeps : o.locked = true → o'.locked = true)
    (hseen : ∀ row, o'.seen = some row → o'.locked = true ∧ w.rows o'.key = some row) :
    Sound effect rows₀ (w.set t o') := by
  have hopened : ∀ a b, (w.set t o').opened.row a = some b →
      (a = t ∧ b = o') ∨ (a ≠ t ∧ w.opened.row a = some b) := by
    intro a b hb
    simp only [World.set, Table.row_modify] at hb
    split_ifs at hb with ha
    · obtain ⟨-, -, hb⟩ := Option.map_eq_some_iff.mp hb
      exact Or.inl ⟨ha, hb.symm⟩
    · exact Or.inr ⟨ha, hb⟩
  have hothers : ∀ a b, a ≠ t → w.opened.row a = some b → b.locked = true → o'.locked = true →
      b.key ≠ o'.key := by
    intro a b hne hb hblocked hlocked hsame
    by_cases hold : o.locked = true
    · exact hne (h.exclusive a t b o hb ho hblocked hold (hsame.trans hkey))
    · have hblockedNot := hfree hlocked (Bool.eq_false_iff.mpr hold)
      simp only [World.blocked, List.any_eq_false] at hblockedNot
      apply hblockedNot a (Table.mem_ids.mpr (Option.isSome_of_eq_some hb))
      simp [hne, hb, hblocked, hsame]
  constructor
  · intro a a' b b' hb hb' hl hl' hsame
    cases hopened a b hb with
    | inl hone =>
      obtain ⟨rfl, rfl⟩ := hone
      cases hopened a' b' hb' with
      | inl htwo => exact htwo.1.symm
      | inr htwo => exact absurd hsame.symm (hothers a' b' htwo.1 htwo.2 hl' hl)
    | inr hone =>
      cases hopened a' b' hb' with
      | inl htwo =>
        obtain ⟨rfl, rfl⟩ := htwo
        exact absurd hsame (hothers a b hone.1 hone.2 hl hl')
      | inr htwo => exact h.exclusive a a' b b' hone.2 htwo.2 hl hl' hsame
  · intro a b row hb hl hread
    cases hopened a b hb with
    | inl hone =>
      obtain ⟨rfl, rfl⟩ := hone
      exact (hseen row hread).2
    | inr hone => exact h.current a b row hone.2 hl hread
  · intro a b hb hl
    cases hopened a b hb with
    | inl hone =>
      obtain ⟨rfl, rfl⟩ := hone
      cases hread : b.seen with
      | none => rfl
      | some row =>
        rw [(hseen row hread).1] at hl
        cases hl
    | inr hone => exact h.unread a b hone.2 hl
  · exact h.replayed

theorem sound_commit (h : Sound effect rows₀ w) (ho : w.opened.row t = some o) (hlocked : o.locked = true)
    {row : ρ} (hseen : o.seen = some row) : Sound effect rows₀ (commit effect w t o row) := by
  have hcurrent := h.current t o row ho hlocked hseen
  unfold commit
  split
  · rename_i written heffect
    have hopened : ∀ a b, (w.opened.erase t).row a = some b → a ≠ t ∧ w.opened.row a = some b := by
      intro a b hb
      rw [Table.row_erase] at hb
      split_ifs at hb with ha
      exact ⟨ha, hb⟩
    constructor
    · intro a a' b b' hb hb'
      exact h.exclusive a a' b b' (hopened a b hb).2 (hopened a' b' hb').2
    · intro a b row' hb hl hread
      obtain ⟨hne, hold⟩ := hopened a b hb
      have hkey : b.key ≠ o.key := fun hsame => hne (h.exclusive a t b o hold ho hl hlocked hsame)
      show Function.update w.rows o.key written b.key = some row'
      rw [Function.update_of_ne hkey]
      exact h.current a b row' hold hl hread
    · intro a b hb hl
      exact h.unread a b (hopened a b hb).2 hl
    · rw [tryExec_append, h.replayed, Option.bind_some, tryExec_cons]
      simp only [applied, hcurrent, heffect, Option.bind_some, Option.map_some, tryExec_nil]
  · exact sound_close h t

theorem sound_step (w : World κ ρ ω) (e : Event κ ω) (h : Sound effect rows₀ w) :
    Sound effect rows₀ (step effect w e) := by
  cases e with
  | begin key op =>
    have hopened : ∀ a b, (w.opened.insert { key := key, op := op }).row a = some b →
        (b.locked = false ∧ b.seen = none) ∨ w.opened.row a = some b := by
      intro a b hb
      rw [Table.row_insert] at hb
      split_ifs at hb
      · obtain rfl := Option.some.inj hb
        exact Or.inl ⟨rfl, rfl⟩
      · exact Or.inr hb
    have hold : ∀ a b, (w.opened.insert { key := key, op := op }).row a = some b → b.locked = true →
        w.opened.row a = some b := by
      intro a b hb hl
      cases hopened a b hb with
      | inl hnew =>
        rw [hnew.1] at hl
        cases hl
      | inr hold => exact hold
    constructor
    · intro a a' b b' hb hb' hl hl'
      exact h.exclusive a a' b b' (hold a b hb hl) (hold a' b' hb' hl') hl hl'
    · intro a b row hb hl
      exact h.current a b row (hold a b hb hl) hl
    · intro a b hb hl
      cases hopened a b hb with
      | inl hnew => exact hnew.2
      | inr hold => exact h.unread a b hold hl
    · exact h.replayed
  | lock t =>
    simp only [step]
    cases ho : w.opened.row t with
    | none => exact h
    | some o =>
      dsimp only
      split_ifs with hblocked hrow
      · exact h
      · refine sound_set h { o with locked := true } ho (fun _ _ => Bool.eq_false_iff.mpr hblocked) rfl
          (fun _ => rfl) (fun row hseen => ?_)
        constructor
        · rfl
        · by_cases hlocked : o.locked = true
          · exact h.current t o row ho hlocked hseen
          · have hnone := h.unread t o ho (Bool.eq_false_iff.mpr hlocked)
            rw [show o.seen = some row from hseen] at hnone
            cases hnone
      · exact sound_close h t
  | read t =>
    simp only [step]
    cases ho : w.opened.row t with
    | none => exact h
    | some o =>
      dsimp only
      split_ifs with hlocked
      · apply sound_set h { o with seen := w.rows o.key } ho _ rfl id
        · intro row hseen
          exact ⟨hlocked, hseen⟩
        · intro _ hnot
          rw [hlocked] at hnot
          cases hnot
      · exact h
  | commit t =>
    simp only [step]
    cases ho : w.opened.row t with
    | none => exact h
    | some o =>
      dsimp only
      split
      · rename_i row hlocked hseen
        exact sound_commit h ho hlocked hseen
      · exact h
  | rollback t => exact sound_close h t

/-- The rows after any run are those of the committed operations, one after another. -/
theorem rows_replayed (effect : ω → ρ → Option (Option ρ)) (rows₀ : κ → Option ρ) (events : List (Event κ ω)) :
    tryExec (applied effect) rows₀ (exec (step effect) { rows := rows₀ } events).committed =
      some (exec (step effect) { rows := rows₀ } events).rows :=
  (exec_invariant sound_step events (sound_start rows₀)).replayed

/-- What an operation does to the rows. -/
theorem applied_cases {rows rows' : κ → Option ρ} {c : κ × ω} (h : applied effect rows c = some rows') :
    ∃ row written, rows c.1 = some row ∧ effect c.2 row = some written ∧
      rows' = Function.update rows c.1 written := by
  obtain ⟨row, hrow, hmap⟩ := Option.bind_eq_some_iff.mp h
  obtain ⟨written, heffect, rfl⟩ := Option.map_eq_some_iff.mp hmap
  exact ⟨row, written, hrow, heffect, rfl⟩

/-- The operations on one key, in their order. -/
def ofKey (k : κ) (committed : List (κ × ω)) : List ω :=
  (committed.filter (fun c => c.1 = k)).map Prod.snd

/-- A part of a row that each operation changes in its own way, whatever the rest of the row is: the
operations that were committed say what it is, in their order. -/
theorem replay_fold {φ : Type} {P : κ → ρ → Prop} (cell : ρ → φ) (act : κ → ω → φ → φ)
    (hkeeps : ∀ k op row written, P k row → effect op row = some (some written) →
      P k written ∧ cell written = act k op (cell row))
    (committed : List (κ × ω)) {rows rows' : κ → Option ρ} (h : ∀ k row, rows k = some row → P k row)
    (hrun : tryExec (applied effect) rows committed = some rows') {k : κ} {row : ρ}
    (hrow : rows' k = some row) :
    P k row ∧ ∃ first, rows k = some first ∧
      cell row = (ofKey k committed).foldl (fun c op => act k op c) (cell first) := by
  induction committed generalizing rows with
  | nil =>
    obtain rfl := Option.some.inj hrun
    exact ⟨h k row hrow, row, hrow, rfl⟩
  | cons c committed ih =>
    obtain ⟨next, happlied, hrest⟩ := Option.bind_eq_some_iff.mp hrun
    obtain ⟨old, written, hold, heffect, rfl⟩ := applied_cases happlied
    have hnext : ∀ k row, Function.update rows c.1 written k = some row → P k row := by
      intro k' row' hrow'
      rw [Function.update_apply] at hrow'
      split_ifs at hrow' with hk'
      · rw [hrow'] at heffect
        exact hk' ▸ (hkeeps c.1 c.2 old row' (h c.1 old hold) heffect).1
      · exact h k' row' hrow'
    obtain ⟨hP, first, hfirst, hcell⟩ := ih hnext hrest
    constructor
    · exact hP
    · rw [Function.update_apply] at hfirst
      split_ifs at hfirst with hk
      · subst hk
        rw [hfirst] at heffect
        have hset := (hkeeps c.1 c.2 old first (h c.1 old hold) heffect).2
        exists old
        constructor
        · exact hold
        · have hof : ofKey c.1 (c :: committed) = c.2 :: ofKey c.1 committed := by simp [ofKey]
          rw [hcell, hof, List.foldl_cons, hset]
      · exists first
        constructor
        · exact hfirst
        · have hof : ofKey k (c :: committed) = ofKey k committed := by simp [ofKey, Ne.symm hk]
          rw [hcell, hof]

/-- A part of a row that some operations set, whatever they find, and the others leave: the last
operation that set it says what it is. -/
theorem replay_cell {φ : Type} {P : κ → ρ → Prop} (cell : ρ → φ) (sets : κ → ω → Option φ)
    (hkeeps : ∀ k op row written, P k row → effect op row = some (some written) →
      P k written ∧ cell written = (sets k op).getD (cell row))
    (committed : List (κ × ω)) {rows rows' : κ → Option ρ} (h : ∀ k row, rows k = some row → P k row)
    (hrun : tryExec (applied effect) rows committed = some rows') {k : κ} {row : ρ}
    (hrow : rows' k = some row) :
    P k row ∧ ∃ first, rows k = some first ∧
      cell row = (ofKey k committed).foldl (fun c op => (sets k op).getD c) (cell first) :=
  replay_fold cell (fun k op c => (sets k op).getD c) hkeeps committed h hrun hrow

end Invariant

end SerialRows
