import Mathlib.Data.List.Basic
import Mathlib.Data.Nat.Find
import Mathlib.Logic.Function.Basic
import Mathlib.Order.Basic

/-!
# Requests with follow-ups, asked in rounds

Each request is answered by some values and possibly one more request. A round asks every
pending request and leaves the follow-ups, in any order, as the pending ones of the next.
-/
namespace FollowUps

/-- The answer to a request. -/
structure Reply (ρ β : Type) where
  values : List β
  next : Option ρ

variable {ρ β κ ε σ : Type}

/-- Rounds until nothing is pending; nothing is returned where the fuel runs out first. -/
def rounds (step : ℕ → List ρ → σ → Except ε (List ρ × σ)) : ℕ → ℕ → List ρ → σ → Option (Except ε σ)
  | 0, _, _, _ => none
  | _ + 1, _, [], s => some (.ok s)
  | fuel + 1, n, r :: rs, s =>
    match step n (r :: rs) s with
    | .error e => some (.error e)
    | .ok (next, s') => rounds step fuel (n + 1) next s'

section

variable [DecidableEq κ] (answer : ρ → Except ε (Reply ρ β)) (owner : ρ → κ)

def take (acc : List ρ × (κ → List β)) (r : ρ) : Except ε (List ρ × (κ → List β)) := do
  let reply ← answer r
  .ok (acc.1 ++ reply.next.toList,
    Function.update acc.2 (owner r) (acc.2 (owner r) ++ reply.values))

def round (rs : List ρ) (out : κ → List β) : Except ε (List ρ × (κ → List β)) :=
  rs.foldlM (take answer owner) ([], out)

def Leads (r r' : ρ) : Prop := ∃ reply, answer r = .ok reply ∧ reply.next = some r'

def Gives (r : ρ) (b : β) : Prop := ∃ reply, answer r = .ok reply ∧ b ∈ reply.values

/-- The pending requests and the values after a round of `rs`. -/
structure After (rs next next' : List ρ) (out out' : κ → List β) : Prop where
  next : ∀ r', r' ∈ next' ↔ r' ∈ next ∨ ∃ r ∈ rs, Leads answer r r'
  out : ∀ k b, b ∈ out' k ↔ b ∈ out k ∨ ∃ r ∈ rs, owner r = k ∧ Gives answer r b

end

section

variable {answer : ρ → Except ε (Reply ρ β)} {owner : ρ → κ}

theorem Leads.eq {r r' : ρ} {reply : Reply ρ β} (h : answer r = .ok reply) :
    Leads answer r r' ↔ reply.next = some r' := by
  constructor
  · intro ⟨reply', h', hnext⟩
    cases h.symm.trans h'
    exact hnext
  · exact fun hnext => ⟨reply, h, hnext⟩

theorem Gives.eq {r : ρ} {b : β} {reply : Reply ρ β} (h : answer r = .ok reply) :
    Gives answer r b ↔ b ∈ reply.values := by
  constructor
  · intro ⟨reply', h', hb⟩
    cases h.symm.trans h'
    exact hb
  · exact fun hb => ⟨reply, h, hb⟩

theorem After.trans {rs₁ rs₂ next next' next'' : List ρ} {out out' out'' : κ → List β}
    (h₁ : After answer owner rs₁ next next' out out') (h₂ : After answer owner rs₂ next' next'' out' out'') :
    After answer owner (rs₁ ++ rs₂) next next'' out out'' := by
  constructor
  · intro r'
    rw [h₂.next, h₁.next, or_assoc]
    simp only [List.mem_append, or_and_right, exists_or]
  · intro k b
    rw [h₂.out, h₁.out, or_assoc]
    simp only [List.mem_append, or_and_right, exists_or]

variable [DecidableEq κ]

theorem take_ok {r : ρ} {reply : Reply ρ β} (h : answer r = .ok reply) (acc : List ρ × (κ → List β)) :
    take answer owner acc r = .ok (acc.1 ++ reply.next.toList,
      Function.update acc.2 (owner r) (acc.2 (owner r) ++ reply.values)) := by
  rw [take, h]
  rfl

/-- One request of a round. -/
theorem after_take {r : ρ} {reply : Reply ρ β} (h : answer r = .ok reply) (next : List ρ) (out : κ → List β) :
    After answer owner [r] next (next ++ reply.next.toList) out
      (Function.update out (owner r) (out (owner r) ++ reply.values)) := by
  constructor
  · intro r'
    simp only [List.mem_append, Option.mem_toList, List.mem_singleton, exists_eq_left, Leads.eq h]
  · intro k b
    simp only [List.mem_singleton, exists_eq_left, Gives.eq h]
    by_cases hk : k = owner r
    · subst hk
      simp
    · simp [Function.update_of_ne hk, Ne.symm hk]

/-- A round whose requests are all answered. -/
theorem foldlM_ok (owner : ρ → κ) (rs : List ρ) (hanswers : ∀ r ∈ rs, ∃ reply, answer r = .ok reply) (next : List ρ)
    (out : κ → List β) : ∃ next' out', rs.foldlM (take answer owner) (next, out) = .ok (next', out') ∧
      After answer owner rs next next' out out' := by
  induction rs generalizing next out with
  | nil => exact ⟨next, out, rfl, by constructor <;> simp⟩
  | cons r rs ih =>
    obtain ⟨reply, hreply⟩ := hanswers r List.mem_cons_self
    obtain ⟨next', out', hfold, hafter⟩ := ih (fun r' hr' => hanswers r' (List.mem_cons_of_mem r hr'))
      (next ++ reply.next.toList) (Function.update out (owner r) (out (owner r) ++ reply.values))
    refine ⟨next', out', ?_, (after_take hreply next out).trans hafter⟩
    rw [List.foldlM_cons, take_ok hreply]
    exact hfold

theorem foldlM_error (rs : List ρ) {r : ρ} {e : ε} (hr : r ∈ rs) (he : answer r = .error e)
    (acc : List ρ × (κ → List β)) : ∃ e', rs.foldlM (take answer owner) acc = .error e' := by
  induction rs generalizing acc with
  | nil => exact absurd hr List.not_mem_nil
  | cons r' rs ih =>
    rw [List.foldlM_cons]
    cases hr' : answer r' with
    | error e' =>
      refine ⟨e', ?_⟩
      rw [take, hr']
      rfl
    | ok reply =>
      rw [take_ok hr']
      rcases List.mem_cons.mp hr with rfl | hr
      · exact absurd (he.symm.trans hr') (by simp)
      · exact ih hr _

end

section

variable (answer : ρ → Except ε (Reply ρ β))

/-- The requests asked in a round. -/
def Asked (starts : ρ → Prop) : ℕ → ρ → Prop
  | 0 => starts
  | n + 1 => fun r' => ∃ r, Asked starts n r ∧ Leads answer r r'

/-- What a step of the loop does: it fails in a broken round or at a request without an answer. -/
structure Steps (owner : ρ → κ) (broken : ℕ → Prop)
    (step : ℕ → List ρ → (κ → List β) → Except ε (List ρ × (κ → List β))) : Prop where
  ok : ∀ n rs out, ¬broken n → (∀ r ∈ rs, ∃ reply, answer r = .ok reply) → ∃ next out',
    step n rs out = .ok (next, out') ∧ After answer owner rs [] next out out'
  error : ∀ n rs out, rs ≠ [] → (broken n ∨ ∃ r ∈ rs, ∃ e, answer r = .error e) → ∃ e, step n rs out = .error e

/-- A round that fails. -/
def Fails (broken : ℕ → Prop) (starts : ρ → Prop) (n : ℕ) : Prop :=
  ∃ r, Asked answer starts n r ∧ (broken n ∨ ∃ e, answer r = .error e)

end

section

variable {answer : ρ → Except ε (Reply ρ β)} {owner : ρ → κ} {broken : ℕ → Prop}
  {step : ℕ → List ρ → (κ → List β) → Except ε (List ρ × (κ → List β))} {starts : ρ → Prop}

/-- Where the loop stands before round `n`. -/
structure Standing (answer : ρ → Except ε (Reply ρ β)) (owner : ρ → κ) (starts : ρ → Prop) (initial : κ → List β)
    (n : ℕ) (pending : List ρ) (out : κ → List β) : Prop where
  pending : ∀ r, r ∈ pending ↔ Asked answer starts n r
  out : ∀ k b, b ∈ out k ↔ b ∈ initial k ∨ ∃ m < n, ∃ r, Asked answer starts m r ∧ owner r = k ∧ Gives answer r b

theorem Standing.advance {initial out out' : κ → List β} {n : ℕ} {pending next : List ρ}
    (h : Standing answer owner starts initial n pending out) (hafter : After answer owner pending [] next out out') :
    Standing answer owner starts initial (n + 1) next out' := by
  constructor
  · intro r'
    simp [hafter.next, h.pending, Asked]
  · intro k b
    rw [hafter.out, h.out, or_assoc]
    refine or_congr_right ?_
    constructor
    · rintro (⟨m, hm, hrest⟩ | ⟨r, hr, hrest⟩)
      · exact ⟨m, Nat.lt_succ_of_lt hm, hrest⟩
      · exact ⟨n, Nat.lt_succ_self n, r, (h.pending r).mp hr, hrest⟩
    · intro ⟨m, hm, r, hr, hrest⟩
      rcases Nat.lt_succ_iff_lt_or_eq.mp hm with hm | rfl
      · exact Or.inl ⟨m, hm, r, hr, hrest⟩
      · exact Or.inr ⟨r, (h.pending r).mpr hr, hrest⟩

theorem not_asked_of_le {n m : ℕ} (hn : ∀ r, ¬Asked answer starts n r) (hm : n ≤ m) (r : ρ) :
    ¬Asked answer starts m r := by
  induction hm generalizing r with
  | refl => exact hn r
  | step _ ih => exact fun ⟨r', hr', _⟩ => ih r' hr'

/-- A round whose step goes through. -/
theorem Steps.step_ok (hsteps : Steps answer owner broken step) {initial out : κ → List β} {n : ℕ} {pending : List ρ}
    (h : Standing answer owner starts initial n pending out) (hnot : ¬Fails answer broken starts n)
    (hpending : pending ≠ []) : ∃ next out', step n pending out = .ok (next, out') ∧
      Standing answer owner starts initial (n + 1) next out' := by
  have hanswers : ∀ r ∈ pending, ∃ reply, answer r = .ok reply := by
    intro r hr
    cases hreply : answer r with
    | ok reply => exact ⟨reply, rfl⟩
    | error e => exact absurd ⟨r, (h.pending r).mp hr, Or.inr ⟨e, hreply⟩⟩ hnot
  have hsend : ¬broken n := by
    intro hbroken
    obtain ⟨r, hr⟩ := List.exists_mem_of_ne_nil pending hpending
    exact hnot ⟨r, (h.pending r).mp hr, Or.inl hbroken⟩
  obtain ⟨next, out', hstep, hafter⟩ := hsteps.ok n pending out hsend hanswers
  exact ⟨next, out', hstep, h.advance hafter⟩

/-- A round whose step fails. -/
theorem Steps.step_error (hsteps : Steps answer owner broken step) {initial out : κ → List β} {n : ℕ}
    {pending : List ρ} (h : Standing answer owner starts initial n pending out)
    (hfails : Fails answer broken starts n) :
    pending ≠ [] ∧ ∃ e, step n pending out = .error e := by
  obtain ⟨r, hr, hwhy⟩ := hfails
  have hmem : r ∈ pending := (h.pending r).mpr hr
  have hpending : pending ≠ [] := List.ne_nil_of_mem hmem
  refine ⟨hpending, hsteps.error n pending out hpending ?_⟩
  exact hwhy.imp id (fun he => ⟨r, hmem, he⟩)

/-- The loop ends well once a round asks nothing, if no round before it fails. -/
theorem Steps.rounds_ok (hsteps : Steps answer owner broken step) {initial out : κ → List β} {n m : ℕ}
    {pending : List ρ} (h : Standing answer owner starts initial n pending out) (hnm : n ≤ m)
    (hnot : ∀ k, ¬Fails answer broken starts k) (hend : ∀ r, ¬Asked answer starts m r) :
    ∃ out', rounds step (m - n + 1) n pending out = some (.ok out') := by
  induction hk : m - n generalizing n pending out with
  | zero =>
    obtain rfl : n = m := by omega
    obtain rfl : pending = [] := List.eq_nil_iff_forall_not_mem.mpr (fun r hr => hend r ((h.pending r).mp hr))
    exact ⟨out, rfl⟩
  | succ k ih =>
    cases hpending : pending with
    | nil => exact ⟨out, rfl⟩
    | cons r rs =>
      subst hpending
      obtain ⟨next, out', hstep, hnext⟩ := hsteps.step_ok h (hnot n) (List.cons_ne_nil r rs)
      obtain ⟨out'', hrounds⟩ := ih hnext (by omega) (by omega)
      refine ⟨out'', ?_⟩
      rw [rounds, hstep]
      exact hrounds

/-- The loop fails at the first round that does. -/
theorem Steps.rounds_error (hsteps : Steps answer owner broken step) {initial out : κ → List β} {n m : ℕ}
    {pending : List ρ} (h : Standing answer owner starts initial n pending out) (hnm : n ≤ m)
    (hfails : Fails answer broken starts m) (hfirst : ∀ k < m, ¬Fails answer broken starts k) :
    ∃ e, rounds step (m - n + 1) n pending out = some (.error e) := by
  induction hk : m - n generalizing n pending out with
  | zero =>
    obtain rfl : n = m := by omega
    obtain ⟨hpending, e, he⟩ := hsteps.step_error h hfails
    cases pending with
    | nil => exact absurd rfl hpending
    | cons r rs =>
      refine ⟨e, ?_⟩
      rw [rounds, he]
  | succ k ih =>
    have hpending : pending ≠ [] := by
      rintro rfl
      obtain ⟨r, hr, -⟩ := hfails
      exact not_asked_of_le (fun r' hr' => List.not_mem_nil ((h.pending r').mpr hr')) hnm r hr
    obtain ⟨next, out', hstep, hnext⟩ := hsteps.step_ok h (hfirst n (by omega)) hpending
    obtain ⟨e, hrounds⟩ := ih hnext (by omega) (by omega)
    cases pending with
    | nil => exact absurd rfl hpending
    | cons r rs =>
      refine ⟨e, ?_⟩
      rw [rounds, hstep]
      exact hrounds

/-- What a loop that ends well went through. -/
theorem Steps.of_rounds_ok (hsteps : Steps answer owner broken step) {fuel n : ℕ} {initial out out' : κ → List β}
    {pending : List ρ} (h : Standing answer owner starts initial n pending out)
    (hrounds : rounds step fuel n pending out = some (.ok out')) :
    ∃ m, n ≤ m ∧ (∀ k, n ≤ k → ¬Fails answer broken starts k) ∧ (∀ r, ¬Asked answer starts m r) ∧
      Standing answer owner starts initial m [] out' := by
  induction fuel generalizing n pending out with
  | zero => cases hrounds
  | succ fuel ih =>
    cases pending with
    | nil =>
      cases hrounds
      have hnone : ∀ r, ¬Asked answer starts n r := fun r hr => List.not_mem_nil ((h.pending r).mpr hr)
      exact ⟨n, le_rfl, fun k hk ⟨r, hr, _⟩ => not_asked_of_le hnone hk r hr, hnone, h⟩
    | cons r rs =>
      have hnot : ¬Fails answer broken starts n := by
        intro hfails
        obtain ⟨-, e, he⟩ := hsteps.step_error h hfails
        rw [rounds, he] at hrounds
        cases hrounds
      obtain ⟨next, out₁, hstep, hnext⟩ := hsteps.step_ok h hnot (List.cons_ne_nil r rs)
      rw [rounds, hstep] at hrounds
      obtain ⟨m, hm, hnot', hend⟩ := ih hnext hrounds
      refine ⟨m, by omega, ?_, hend⟩
      intro k hk
      rcases Nat.eq_or_lt_of_le hk with rfl | hk
      · exact hnot
      · exact hnot' k hk

/-- A loop that fails does so in a round that does. -/
theorem Steps.of_rounds_error (hsteps : Steps answer owner broken step) {fuel n : ℕ} {initial out : κ → List β}
    {pending : List ρ} {e : ε} (h : Standing answer owner starts initial n pending out)
    (hrounds : rounds step fuel n pending out = some (.error e)) : ∃ k, Fails answer broken starts k := by
  induction fuel generalizing n pending out with
  | zero => cases hrounds
  | succ fuel ih =>
    cases pending with
    | nil => cases hrounds
    | cons r rs =>
      by_cases hfails : Fails answer broken starts n
      · exact ⟨n, hfails⟩
      · obtain ⟨next, out', hstep, hnext⟩ := hsteps.step_ok h hfails (List.cons_ne_nil r rs)
        rw [rounds, hstep] at hrounds
        exact ih hnext hrounds

theorem standing_zero (starts : List ρ) (initial : κ → List β) :
    Standing answer owner (fun r => r ∈ starts) initial 0 starts initial := by
  constructor
  · exact fun r => Iff.rfl
  · intro k b
    simp

/-- The loop returns exactly when no round fails and some round asks nothing. -/
theorem Steps.rounds_ok_iff (hsteps : Steps answer owner broken step) (starts : List ρ) (initial : κ → List β) :
    (∃ fuel out, rounds step fuel 0 starts initial = some (.ok out)) ↔
      (∀ n, ¬Fails answer broken (fun r => r ∈ starts) n) ∧ ∃ n, ∀ r, ¬Asked answer (fun r => r ∈ starts) n r := by
  constructor
  · intro ⟨fuel, out, hrounds⟩
    obtain ⟨m, -, hnot, hend, -⟩ := hsteps.of_rounds_ok (standing_zero starts initial) hrounds
    exact ⟨fun n => hnot n (Nat.zero_le n), m, hend⟩
  · intro ⟨hnot, m, hend⟩
    obtain ⟨out, hrounds⟩ := hsteps.rounds_ok (standing_zero starts initial) (Nat.zero_le m) hnot hend
    exact ⟨_, out, hrounds⟩

/-- It collects every value a request asked in some round gives. -/
theorem Steps.rounds_out (hsteps : Steps answer owner broken step) {starts : List ρ} {initial out : κ → List β}
    {fuel : ℕ} (hrounds : rounds step fuel 0 starts initial = some (.ok out)) (k : κ) (b : β) :
    b ∈ out k ↔ b ∈ initial k ∨
      ∃ n r, Asked answer (fun r => r ∈ starts) n r ∧ owner r = k ∧ Gives answer r b := by
  obtain ⟨m, -, -, hend, hstanding⟩ := hsteps.of_rounds_ok (standing_zero starts initial) hrounds
  rw [hstanding.out]
  refine or_congr_right ?_
  constructor
  · exact fun ⟨n, _, hrest⟩ => ⟨n, hrest⟩
  · intro ⟨n, r, hr, hrest⟩
    refine ⟨n, ?_, r, hr, hrest⟩
    by_contra hle
    exact not_asked_of_le hend (Nat.le_of_not_lt hle) r hr

/-- It fails exactly when some round does. -/
theorem Steps.rounds_error_iff (hsteps : Steps answer owner broken step) (starts : List ρ) (initial : κ → List β) :
    (∃ fuel e, rounds step fuel 0 starts initial = some (.error e)) ↔
      ∃ n, Fails answer broken (fun r => r ∈ starts) n := by
  classical
  constructor
  · exact fun ⟨fuel, e, hrounds⟩ => hsteps.of_rounds_error (standing_zero starts initial) hrounds
  · intro hfails
    obtain ⟨e, he⟩ := hsteps.rounds_error (standing_zero starts initial) (Nat.zero_le (Nat.find hfails))
      (Nat.find_spec hfails) (fun k hk => Nat.find_min hfails hk)
    exact ⟨_, e, he⟩

end

end FollowUps
