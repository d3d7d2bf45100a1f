import Mathlib.Data.Finset.Max
import Mathlib.Data.Fintype.EquivFin
import Mathlib.Data.List.Nodup
import Mathlib.Order.WellFounded
import Woodstar.Runs

/-!
# Transactions that lock rows one after another

Each transaction takes the locks of a fixed list in order, waits while another one
has the next lock, and holds what it has until it commits. A cycle of waiting
transactions is reachable exactly when the lists form a ring.
-/
namespace LockOrder

open Runs (tryExec)

variable {ι κ : Type*}

structure State (ι : Type*) where
  taken : ι → Nat := fun _ => 0
  committed : ι → Bool := fun _ => false

section Model

variable (prog : ι → List κ) (s : State ι)

def held (i : ι) : List κ := if s.committed i = true then [] else (prog i).take (s.taken i)

def next (i : ι) : Option κ := if s.committed i = true then none else (prog i)[s.taken i]?

/-- `i` waits for `j`, which holds the next lock of `i`. -/
def Waits (i j : ι) : Prop := i ≠ j ∧ ∃ x, next prog s i = some x ∧ x ∈ held prog s j

/-- A cycle of waiting transactions. -/
def Deadlocked : Prop := ∃ i, Relation.TransGen (Waits prog s) i i

/-- Transactions that each wait, after disjoint beginnings of their lists, for a row
of another one's beginning. -/
def Ring : Prop :=
  ∃ (G : Finset ι) (begun : ι → List κ), G.Nonempty ∧
    (∀ i ∈ G, ∃ j ∈ G, i ≠ j ∧ ∃ x rest, prog i = begun i ++ x :: rest ∧ x ∈ begun j) ∧
    ∀ i ∈ G, ∀ j ∈ G, i ≠ j → (begun i).Disjoint (begun j)

/-- Transaction `i` takes its next lock, or commits when it has them all. -/
def step [DecidableEq ι] [Fintype ι] [DecidableEq κ] (prog : ι → List κ) (s : State ι) (i : ι) :
    Option (State ι) :=
  if s.committed i = true then none
  else
    match (prog i)[s.taken i]? with
    | none => some { s with committed := Function.update s.committed i true }
    | some x =>
      if ∃ j, j ≠ i ∧ x ∈ held prog s j then none
      else some { s with taken := Function.update s.taken i (s.taken i + 1) }

end Model

section Ring

variable {prog : ι → List κ} {s s' : State ι}

/-- Locks are exclusive. -/
def Exclusive (prog : ι → List κ) (s : State ι) : Prop :=
  ∀ i j, i ≠ j → (held prog s i).Disjoint (held prog s j)

/-- Where everyone in a finite group waits for another of it, there is a cycle. -/
theorem cycle_of_waits [Finite ι] {G : Finset ι} {R : ι → ι → Prop} (hne : G.Nonempty)
    (h : ∀ i ∈ G, ∃ j ∈ G, R i j) : ∃ i, Relation.TransGen R i i := by
  by_contra hno
  have hirrefl : Std.Irrefl (Relation.TransGen (Function.swap R)) := by
    refine ⟨fun i hi => hno ⟨i, ?_⟩⟩
    rwa [Relation.transGen_swap] at hi
  have hwf := Finite.wellFounded_of_trans_of_irrefl (Relation.TransGen (Function.swap R))
  obtain ⟨i, hi, hmin⟩ := hwf.has_min (G : Set ι) hne
  obtain ⟨j, hj, hij⟩ := h i hi
  exact hmin j hj (Relation.TransGen.single hij)

/-- The transactions on cycles and what they hold form a ring. -/
theorem ring_of_deadlocked [Fintype ι] (hex : Exclusive prog s) (h : Deadlocked prog s) :
    Ring prog := by
  classical
  obtain ⟨i₀, hi₀⟩ := h
  refine ⟨Finset.univ.filter (fun i => Relation.TransGen (Waits prog s) i i),
    held prog s, ⟨i₀, by simpa using hi₀⟩, ?_, fun i _ j _ hij => hex i j hij⟩
  intro i hi
  have hcycle : Relation.TransGen (Waits prog s) i i := by simpa using hi
  obtain ⟨j, hij, hji⟩ := Relation.TransGen.head'_iff.mp hcycle
  have hjj : Relation.TransGen (Waits prog s) j j := Relation.TransGen.tail' hji hij
  obtain ⟨hne, x, hx, hmem⟩ := hij
  refine ⟨j, by simpa using hjj, hne, x, (prog i).drop (s.taken i + 1), ?_, hmem⟩
  unfold next at hx
  split_ifs at hx with hopen
  obtain ⟨hlt, hget⟩ := List.getElem?_eq_some_iff.mp hx
  simp only [held, hopen, Bool.false_eq_true, if_false]
  rw [← hget, List.cons_getElem_drop_succ, List.take_append_drop]

variable [DecidableEq ι]

theorem held_commit {i : ι} (j : ι) :
    held prog { s with committed := Function.update s.committed i true } j =
      if j = i then [] else held prog s j := by
  by_cases hj : j = i
  · simp [held, hj]
  · simp [held, hj]

theorem held_take {i : ι} {x : κ} (hopen : s.committed i = false)
    (hx : (prog i)[s.taken i]? = some x) (j : ι) :
    held prog { s with taken := Function.update s.taken i (s.taken i + 1) } j =
      if j = i then held prog s i ++ [x] else held prog s j := by
  by_cases hj : j = i
  · subst hj
    simp [held, hopen, List.take_add_one, hx]
  · simp [held, hj]

/-- The state in which each listed transaction has taken its beginning. -/
def begunState (begun : ι → List κ) (is : List ι) : State ι where
  taken := fun i => if i ∈ is then (begun i).length else 0

theorem held_begunState {begun : ι → List κ} {is : List ι} {i : ι} {rest : List κ}
    (h : prog i = begun i ++ rest) :
    held prog (begunState begun is) i = if i ∈ is then begun i else [] := by
  simp only [held, begunState, Bool.false_eq_true, if_false]
  split
  · simp [h]
  · simp

variable [Fintype ι] [DecidableEq κ]

theorem step_eq {i : ι} (h : step prog s i = some s') : s.committed i = false ∧
    (s' = { s with committed := Function.update s.committed i true } ∨
      ∃ x, (prog i)[s.taken i]? = some x ∧ (∀ j, j ≠ i → x ∉ held prog s j) ∧
        s' = { s with taken := Function.update s.taken i (s.taken i + 1) }) := by
  unfold step at h
  split_ifs at h with hc
  refine ⟨by simpa using hc, ?_⟩
  split at h
  · exact .inl (Option.some.inj h).symm
  · rename_i x hx
    split_ifs at h with hfree
    refine .inr ⟨x, hx, ?_, (Option.some.inj h).symm⟩
    intro j hj hmem
    exact hfree ⟨j, hj, hmem⟩

theorem exclusive_step (h : Exclusive prog s) {i : ι} (hs : step prog s i = some s') :
    Exclusive prog s' := by
  obtain ⟨hopen, rfl | ⟨x, hx, hfree, rfl⟩⟩ := step_eq hs
  · intro a b hab
    rw [held_commit, held_commit]
    split
    · exact List.disjoint_nil_left _
    · split
      · exact List.disjoint_nil_right _
      · exact h a b hab
  · intro a b hab
    rw [held_take hopen hx, held_take hopen hx]
    split
    · rename_i ha
      subst ha
      rw [if_neg (Ne.symm hab)]
      refine List.disjoint_append_left.mpr ⟨h a b hab, ?_⟩
      exact List.singleton_disjoint.mpr (hfree b (Ne.symm hab))
    · split
      · rename_i hb
        subst hb
        refine List.disjoint_append_right.mpr ⟨h a b hab, ?_⟩
        exact List.disjoint_singleton.mpr (hfree a hab)
      · exact h a b hab

theorem exclusive_run {sched : List ι} (hrun : tryExec (step prog) {} sched = some s) :
    Exclusive prog s := by
  refine Runs.tryExec_invariant (P := fun _ s => Exclusive prog s)
    (fun _ _ _ _ h hs => exclusive_step h hs) ?_ hrun
  intro i j _
  simp [held]

/-- A transaction takes the locks `begun` that nobody else holds. -/
theorem take_all {i : ι} (taken begun : List κ) {rest : List κ}
    (hprog : prog i = taken ++ begun ++ rest) (hopen : s.committed i = false)
    (htaken : s.taken i = taken.length) (hfree : ∀ x ∈ begun, ∀ j, j ≠ i → x ∉ held prog s j) :
    tryExec (step prog) s (List.replicate begun.length i) =
      some { s with taken := Function.update s.taken i (s.taken i + begun.length) } := by
  induction begun generalizing s taken with
  | nil => simp
  | cons x begun ih =>
    have hx : (prog i)[s.taken i]? = some x := by
      rw [hprog, htaken, List.append_assoc, List.getElem?_append_right (Nat.le_refl _)]
      simp
    have hstep : step prog s i =
        some { s with taken := Function.update s.taken i (s.taken i + 1) } := by
      have hno : ¬∃ j, j ≠ i ∧ x ∈ held prog s j := by
        rintro ⟨j, hj, hmem⟩
        exact hfree x (List.mem_cons_self ..) j hj hmem
      simp only [step, hopen, Bool.false_eq_true, if_false, hx, if_neg hno]
    rw [List.length_cons, List.replicate_succ, Runs.tryExec_cons, hstep, Option.bind_some]
    have hrest := ih (s := { s with taken := Function.update s.taken i (s.taken i + 1) })
      (taken ++ [x]) (by simp [hprog]) hopen (by simp [htaken]) (by
        intro y hy j hj
        rw [held_take hopen hx, if_neg hj]
        exact hfree y (List.mem_cons_of_mem _ hy) j hj)
    simpa [Nat.add_assoc, Nat.add_comm 1] using hrest

/-- The listed transactions can take their beginnings one after another. -/
theorem reaches_begunState {begun : ι → List κ} (is : List ι) (hnodup : is.Nodup)
    (hprog : ∀ i ∈ is, ∃ rest, prog i = begun i ++ rest)
    (hdisjoint : ∀ i ∈ is, ∀ j ∈ is, i ≠ j → (begun i).Disjoint (begun j)) :
    ∃ sched, tryExec (step prog) {} sched = some (begunState begun is) := by
  induction is with
  | nil => exact ⟨[], by simp [begunState]⟩
  | cons i is ih =>
    obtain ⟨hi, his⟩ := List.nodup_cons.mp hnodup
    obtain ⟨sched, hsched⟩ := ih his (fun j hj => hprog j (List.mem_cons_of_mem _ hj))
      (fun a ha b hb => hdisjoint a (List.mem_cons_of_mem _ ha) b (List.mem_cons_of_mem _ hb))
    obtain ⟨rest, hrest⟩ := hprog i (List.mem_cons_self ..)
    refine ⟨sched ++ List.replicate (begun i).length i, ?_⟩
    rw [Runs.tryExec_append, hsched, Option.bind_some]
    rw [take_all [] (begun i) hrest rfl (by simp [begunState, hi])]
    · simp only [begunState, Option.some.injEq, State.mk.injEq, and_true]
      funext j
      by_cases hj : j = i
      · simp [hj, hi]
      · simp [hj]
    · intro x hx j hj hmem
      by_cases hjs : j ∈ is
      · obtain ⟨restj, hrestj⟩ := hprog j (List.mem_cons_of_mem _ hjs)
        rw [held_begunState hrestj, if_pos hjs] at hmem
        exact hdisjoint i (List.mem_cons_self ..) j (List.mem_cons_of_mem _ hjs) (Ne.symm hj) hx hmem
      · simp [held, begunState, hjs] at hmem

theorem deadlocked_of_ring (h : Ring prog) :
    ∃ sched s, tryExec (step prog) {} sched = some s ∧ Deadlocked prog s := by
  obtain ⟨G, begun, hne, hwait, hdisjoint⟩ := h
  have hprog : ∀ i ∈ G, ∃ rest, prog i = begun i ++ rest := by
    intro i hi
    obtain ⟨_, _, _, x, rest, hrest, _⟩ := hwait i hi
    exact ⟨x :: rest, hrest⟩
  obtain ⟨sched, hsched⟩ := reaches_begunState G.toList G.nodup_toList
    (fun i hi => hprog i (Finset.mem_toList.mp hi))
    (fun i hi j hj => hdisjoint i (Finset.mem_toList.mp hi) j (Finset.mem_toList.mp hj))
  refine ⟨sched, _, hsched, cycle_of_waits hne ?_⟩
  intro i hi
  obtain ⟨j, hj, hij, x, rest, hrest, hx⟩ := hwait i hi
  obtain ⟨restj, hrestj⟩ := hprog j hj
  refine ⟨j, hj, hij, x, ?_, ?_⟩
  · simp [next, begunState, hi, hrest]
  · rw [held_begunState hrestj, if_pos (Finset.mem_toList.mpr hj)]
    exact hx

/-- A cycle of waiting transactions is reachable exactly when the lists form a ring. -/
theorem deadlock_iff_ring :
    (∃ sched s, tryExec (step prog) {} sched = some s ∧ Deadlocked prog s) ↔ Ring prog := by
  constructor
  · rintro ⟨sched, s, hrun, hd⟩
    exact ring_of_deadlocked (exclusive_run hrun) hd
  · exact deadlocked_of_ring

end Ring

section Short

variable {prog prog' : ι → List κ}

/-- A transaction of one row holds nothing while it waits, so rings can do without it. -/
theorem ring_without_short (h : ∀ i, prog' i = prog i ∨ (prog i).length ≤ 1 ∧ prog' i = []) :
    Ring prog ↔ Ring prog' := by
  classical
  constructor
  · rintro ⟨G, begun, hne, hwait, hdisjoint⟩
    have hheld : ∀ i ∈ G, ∃ j ∈ G.filter (fun j => begun j ≠ []), i ≠ j ∧
        ∃ x rest, prog i = begun i ++ x :: rest ∧ x ∈ begun j := by
      intro i hi
      obtain ⟨j, hj, hij, x, rest, hrest, hx⟩ := hwait i hi
      exact ⟨j, Finset.mem_filter.mpr ⟨hj, List.ne_nil_of_mem hx⟩, hij, x, rest, hrest, hx⟩
    refine ⟨G.filter (fun j => begun j ≠ []), begun, ?_, ?_, ?_⟩
    · obtain ⟨i, hi⟩ := hne
      obtain ⟨j, hj, -⟩ := hheld i hi
      exact ⟨j, hj⟩
    · intro i hi
      obtain ⟨hiG, hbegun⟩ := Finset.mem_filter.mp hi
      obtain ⟨j, hj, hij, x, rest, hrest, hx⟩ := hheld i hiG
      refine ⟨j, hj, hij, x, rest, ?_, hx⟩
      rcases h i with heq | ⟨hshort, -⟩
      · rw [heq, hrest]
      · have := List.length_pos_of_ne_nil hbegun
        rw [hrest, List.length_append, List.length_cons] at hshort
        omega
    · intro i hi j hj
      exact hdisjoint i (Finset.mem_filter.mp hi).1 j (Finset.mem_filter.mp hj).1
  · rintro ⟨G, begun, hne, hwait, hdisjoint⟩
    refine ⟨G, begun, hne, ?_, hdisjoint⟩
    intro i hi
    obtain ⟨j, hj, hij, x, rest, hrest, hx⟩ := hwait i hi
    refine ⟨j, hj, hij, x, rest, ?_, hx⟩
    rcases h i with heq | ⟨-, hnil⟩
    · rw [← heq, hrest]
    · simp [hnil] at hrest

end Short

section Sorted

variable [LinearOrder κ] {prog : ι → List κ}

/-- No ring forms where each lock that a transaction does not have yet is above all it has. -/
theorem not_ring_of_above
    (h : ∀ i taken x rest, prog i = taken ++ x :: rest → x ∈ taken ∨ ∀ y ∈ taken, y < x) :
    ¬Ring prog := by
  rintro ⟨G, begun, hne, hwait, hdisjoint⟩
  have hrow : ∀ i, ∃ x, i ∈ G → ∃ j ∈ G, i ≠ j ∧
      ∃ rest, prog i = begun i ++ x :: rest ∧ x ∈ begun j := by
    intro i
    by_cases hi : i ∈ G
    · obtain ⟨j, hj, hij, x, rest, hrest, hx⟩ := hwait i hi
      exact ⟨x, fun _ => ⟨j, hj, hij, rest, hrest, hx⟩⟩
    · obtain ⟨i', hi'⟩ := hne
      obtain ⟨_, _, _, x, _⟩ := hwait i' hi'
      exact ⟨x, fun hmem => absurd hmem hi⟩
  choose row hrow using hrow
  obtain ⟨i, hi, hmax⟩ := Finset.exists_max_image G row hne
  obtain ⟨j, hj, hij, -, -, hx⟩ := hrow i hi
  obtain ⟨k, hk, hjk, rest, hrest, hy⟩ := hrow j hj
  -- j has the greatest row and waits for one above it
  rcases h j (begun j) (row j) rest hrest with hmem | habove
  · exact hdisjoint j hj k hk hjk hmem hy
  · exact absurd (habove (row i) hx) (not_lt.mpr (hmax j hj))

/-- Transactions that take their locks along one order form no ring. -/
theorem not_ring_of_sorted (h : ∀ i, (prog i).Pairwise (· ≤ ·)) : ¬Ring prog := by
  apply not_ring_of_above
  intro i taken x rest hprog
  have hsorted := h i
  rw [hprog, List.pairwise_append] at hsorted
  by_cases hx : x ∈ taken
  · exact .inl hx
  · right
    intro y hy
    have hle := hsorted.2.2 y hy x (List.mem_cons_self ..)
    exact lt_of_le_of_ne hle (fun heq => hx (heq ▸ hy))

end Sorted

section Gates

variable {γ : Type*} {gate : κ → Option γ} {owner : κ → γ} {prog : ι → List κ}

/-- Some rows are gates. Before a row that is none a transaction takes its owner's gate. -/
structure Gated (gate : κ → Option γ) (owner : κ → γ) (prog : ι → List κ) : Prop where
  single : ∀ x y g, gate x = some g → gate y = some g → x = y
  before : ∀ i begun x rest, prog i = begun ++ x :: rest → gate x = none →
    owner x ∈ begun.filterMap gate

theorem Gated.owner_mem (h : Gated gate owner prog) {i : ι} {begun rest : List κ}
    (hprog : prog i = begun ++ rest) {x : κ} (hx : x ∈ begun) (hgate : gate x = none) :
    owner x ∈ begun.filterMap gate := by
  obtain ⟨front, back, rfl⟩ := List.append_of_mem hx
  have hmem := h.before i front x (back ++ rest) (by simp [hprog]) hgate
  rw [List.filterMap_append]
  exact List.mem_append_left _ hmem

/-- Beginnings are disjoint where their gates are. -/
theorem Gated.disjoint_iff (h : Gated gate owner prog) {i j : ι} {begun begun' rest rest' : List κ}
    (hi : prog i = begun ++ rest) (hj : prog j = begun' ++ rest') :
    begun.Disjoint begun' ↔ (begun.filterMap gate).Disjoint (begun'.filterMap gate) := by
  constructor
  · intro hdisjoint g hg hg'
    obtain ⟨x, hx, hxg⟩ := List.mem_filterMap.mp hg
    obtain ⟨y, hy, hyg⟩ := List.mem_filterMap.mp hg'
    have := h.single x y g hxg hyg
    subst this
    exact hdisjoint hx hy
  · intro hdisjoint x hx hx'
    cases hgate : gate x with
    | none => exact hdisjoint (h.owner_mem hi hx hgate) (h.owner_mem hj hx' hgate)
    | some g =>
      exact hdisjoint (List.mem_filterMap.mpr ⟨x, hx, hgate⟩) (List.mem_filterMap.mpr ⟨x, hx', hgate⟩)

theorem Gated.ring_gates (h : Gated gate owner prog) (hring : Ring prog) :
    Ring (fun i => (prog i).filterMap gate) := by
  obtain ⟨G, begun, hne, hwait, hdisjoint⟩ := hring
  have hprog : ∀ i ∈ G, ∃ rest, prog i = begun i ++ rest := by
    intro i hi
    obtain ⟨_, _, _, x, rest, hrest, _⟩ := hwait i hi
    exact ⟨x :: rest, hrest⟩
  have hgates : ∀ i ∈ G, ∀ j ∈ G, i ≠ j →
      ((begun i).filterMap gate).Disjoint ((begun j).filterMap gate) := by
    intro i hi j hj hij
    obtain ⟨resti, hi'⟩ := hprog i hi
    obtain ⟨restj, hj'⟩ := hprog j hj
    exact (h.disjoint_iff hi' hj').mp (hdisjoint i hi j hj hij)
  refine ⟨G, fun i => (begun i).filterMap gate, hne, ?_, hgates⟩
  intro i hi
  obtain ⟨j, hj, hij, x, rest, hrest, hx⟩ := hwait i hi
  obtain ⟨restj, hj'⟩ := hprog j hj
  cases hgate : gate x with
  | none =>
    -- both would hold the gate of `x`
    have hmine := h.before i (begun i) x rest hrest hgate
    exact absurd (h.owner_mem hj' hx hgate) (hgates i hi j hj hij hmine)
  | some g =>
    refine ⟨j, hj, hij, g, rest.filterMap gate, ?_, List.mem_filterMap.mpr ⟨x, hx, hgate⟩⟩
    simp only [hrest, List.filterMap_append, List.filterMap_cons_some hgate]

/-- Each beginning is the stretch of the list in front of the gate that comes next. -/
theorem Gated.ring_of_gates (h : Gated gate owner prog)
    (hring : Ring (fun i => (prog i).filterMap gate)) : Ring prog := by
  obtain ⟨G, gates, hne, hwait, hdisjoint⟩ := hring
  have hbegun : ∀ i, ∃ begun, i ∈ G → begun.filterMap gate = gates i ∧ ∃ j ∈ G, i ≠ j ∧
      ∃ x rest g, prog i = begun ++ x :: rest ∧ gate x = some g ∧ g ∈ gates j := by
    intro i
    by_cases hi : i ∈ G
    · obtain ⟨j, hj, hij, g, rest, hrest, hg⟩ := hwait i hi
      obtain ⟨front, back, hprog, hfront, hback⟩ := List.filterMap_eq_append_iff.mp hrest
      obtain ⟨skipped, x, last, rfl, hskipped, hx, -⟩ := List.filterMap_eq_cons_iff.mp hback
      refine ⟨front ++ skipped, fun _ => ⟨?_, j, hj, hij, x, last, g, ?_, hx, hg⟩⟩
      · rw [List.filterMap_append, hfront, List.filterMap_eq_nil_iff.mpr hskipped, List.append_nil]
      · rw [hprog, List.append_assoc]
    · exact ⟨[], fun hmem => absurd hmem hi⟩
  choose begun hbegun using hbegun
  refine ⟨G, begun, hne, ?_, ?_⟩
  · intro i hi
    obtain ⟨-, j, hj, hij, x, rest, g, hrest, hx, hg⟩ := hbegun i hi
    refine ⟨j, hj, hij, x, rest, hrest, ?_⟩
    rw [← (hbegun j hj).1] at hg
    obtain ⟨y, hy, hyg⟩ := List.mem_filterMap.mp hg
    rwa [h.single x y g hx hyg]
  · intro i hi j hj hij
    obtain ⟨hgi, -, -, -, x, rest, -, hi', -⟩ := hbegun i hi
    obtain ⟨hgj, -, -, -, y, rest', -, hj', -⟩ := hbegun j hj
    rw [h.disjoint_iff hi' hj', hgi, hgj]
    exact hdisjoint i hi j hj hij

/-- Only the order of the gates decides whether there is a ring. -/
theorem Gated.ring_iff (h : Gated gate owner prog) :
    Ring prog ↔ Ring (fun i => (prog i).filterMap gate) := ⟨h.ring_gates, h.ring_of_gates⟩

end Gates

end LockOrder
