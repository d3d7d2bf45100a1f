import Woodstar.PolicyRuns

/-!
# Evaluations and their answers

The evaluations issued to one host for one policy, in order, and the ones whose
answer was accepted. The host answers what was issued to it, late, again, or in any
order; its answers for other policies, other hosts and administrators do anything.
-/
namespace PolicyEvaluations

open PolicyModel PolicyRemediation PolicyStore PolicyRuns
open Runs (exec Along)

/-- One entry of a body of the host: the answer to an issued evaluation of the
policy, or any answer for another policy. -/
inductive Answer where
  | issued (index : Nat) (status : PolicyStatus) (error : String := "")
  | other (result : EvaluationResult)
  deriving DecidableEq, Repr

inductive Move where
  | act (e : Event)
  | answer (answers : List Answer)
  deriving DecidableEq, Repr

structure World where
  db : Db
  log : List Evaluation := []
  accepted : List Nat := []

/-- The query name carries the identity of the evaluation back. -/
def answerTo (crypto : Crypto) (evaluation : Evaluation) (status : PolicyStatus) (error : String) :
    EvaluationResult where
  policyID := evaluation.policyID
  queryHash := crypto.queryHash evaluation.query
  revision := evaluation.revision
  sequence := evaluation.sequence
  status := status
  error := error

def resultOf (crypto : Crypto) (k : Pair) (w : World) : Answer → Option EvaluationResult
  | .issued index status error =>
    (w.log[index]?).map (fun evaluation => answerTo crypto evaluation status error)
  | .other result => if result.policyID = k.policyID then none else some result

def results (crypto : Crypto) (k : Pair) (w : World) (answers : List Answer) : List EvaluationResult :=
  answers.filterMap (resultOf crypto k w)

def isBodyOf (hostID : Int) : Event → Bool
  | .record hostID' _ => hostID' == hostID
  | _ => false

/-- What the move does to the tables. Bodies of the host are `answer` moves. -/
def eventOf (crypto : Crypto) (k : Pair) (w : World) : Move → Option Event
  | .act e => if isBodyOf k.hostID e = true then none else some e
  | .answer answers => some (.record k.hostID (results crypto k w answers))

/-- The evaluations of the policy that the event issues to the host. -/
def issuedTo (db : Db) (k : Pair) : Event → List Evaluation
  | .issue hostID =>
    if hostID = k.hostID then
      (issueEvaluationsForHost db hostID).2.filter (fun evaluation => evaluation.policyID == k.policyID)
    else []
  | _ => []

/-- The evaluation whose answer the body gets stored: the first eligible one. -/
def acceptedIndex (crypto : Crypto) (k : Pair) (w : World) : Move → Option Nat
  | .answer answers =>
    if (accepted crypto w.db k (.record k.hostID (results crypto k w answers))).isSome = true then
      answers.findSome? (fun answer =>
        match answer with
        | .issued index _ _ =>
          if (resultOf crypto k w answer).any (eligible crypto w.db k.hostID) = true then some index
          else none
        | .other _ => none)
    else none
  | .act _ => none

def track (crypto : Crypto) (k : Pair) (w : World) (move : Move) : World :=
  match eventOf crypto k w move with
  | none => w
  | some e => {
      db := step crypto w.db e
      log := w.log ++ issuedTo w.db k e
      accepted := w.accepted ++ (acceptedIndex crypto k w move).toList }

/-- An edit that keeps the query keeps the pair's membership row, if there is one:
the host stays assigned. -/
def KeepsRow (db : Db) (k : Pair) : Event → Prop
  | .update id p =>
    match p.checked, db.policies.row id with
    | .ok write, some current =>
      id = k.policyID → current.query = write.query → (db.membership k).isSome = true →
        (editPolicies db id current write).assigned k = true
    | _, _ => True
  | _ => True

instance (db : Db) (k : Pair) : ∀ e, Decidable (KeepsRow db k e)
  | .update id p =>
    match h : p.checked, h' : db.policies.row id with
    | .ok write, some current => decidable_of_iff (id = k.policyID → current.query = write.query →
        (db.membership k).isSome = true → (editPolicies db id current write).assigned k = true)
        (by simp only [KeepsRow, h, h'])
    | .ok write, none => .isTrue (by simp only [KeepsRow, h, h'])
    | .error e, _ => .isTrue (by simp only [KeepsRow, h])
  | .create _ => .isTrue trivial
  | .delete _ => .isTrue trivial
  | .label _ _ _ => .isTrue trivial
  | .enroll => .isTrue trivial
  | .orbit _ _ => .isTrue trivial
  | .issue _ => .isTrue trivial
  | .record _ _ => .isTrue trivial
  | .run _ _ _ => .isTrue trivial
  | .report _ _ => .isTrue trivial

def KeepsIssued (k : Pair) (w : World) : Move → Prop
  | .act e => KeepsRow w.db k e
  | .answer _ => True

instance (k : Pair) (w : World) : ∀ move, Decidable (KeepsIssued k w move)
  | .act e => inferInstanceAs (Decidable (KeepsRow w.db k e))
  | .answer _ => .isTrue trivial

section

variable {crypto : Crypto} {db : Db} {k : Pair} {w : World} {e : Event} {evaluation : Evaluation}

/-- An event issues at most one evaluation of the policy to the host: the policy's
query and revision under the next sequence. -/
theorem issuedTo_cases (db : Db) (k : Pair) (e : Event) : issuedTo db k e = [] ∨
    ∃ policy, e = .issue k.hostID ∧ db.assigned k = true ∧ db.policies.row k.policyID = some policy ∧
      issuedTo db k e = [⟨k.policyID, policy.query, policy.evaluationRevision,
        (issueMembership (db.membership k)).lastIssuedSequence⟩] := by
  cases e with
  | issue hostID =>
    by_cases hhost : hostID = k.hostID
    · subst hhost
      simp only [issuedTo, if_true, issueEvaluationsForHost]
      rw [KeyedRows.filter_key_filterMap db.policies.ids_nodup ?_]
      · cases hp : db.policies.row k.policyID with
        | none => exact .inl (by simp)
        | some policy =>
          have hmem : k.policyID ∈ db.policies.ids := KeyedRows.Table.mem_ids.mpr (by rw [hp]; rfl)
          by_cases ha : db.assigned k = true
          · exact .inr ⟨policy, trivial, ha, rfl, by simp [hmem, ha]⟩
          · exact .inl (by simp [ha])
      · intro id c hc
        split at hc
        · split_ifs at hc
          cases hc
          rfl
        · cases hc
    · exact .inl (by simp [issuedTo, hhost])
  | create p => exact .inl rfl
  | update id p => exact .inl rfl
  | delete id => exact .inl rfl
  | label labelID hostID member => exact .inl rfl
  | enroll => exact .inl rfl
  | orbit hostID row => exact .inl rfl
  | record hostID results => exact .inl rfl
  | run policyID hostIDs allFailures => exact .inl rfl
  | report hostID result => exact .inl rfl

/-- The evaluation is of an earlier revision than the policy's, or of this one and
not past the counter of the pair's row. -/
def Behind (db : Db) (k : Pair) (counter : MembershipRow → Int) (evaluation : Evaluation) : Prop :=
  ∀ policy, db.policies.row k.policyID = some policy →
    evaluation.revision < policy.evaluationRevision ∨
      evaluation.revision = policy.evaluationRevision ∧
        ∃ membership, db.membership k = some membership ∧ evaluation.sequence ≤ counter membership

/-- An evaluation stays behind while edits keep the row or begin a revision. -/
theorem behind_step {counter : MembershipRow → Int}
    (hcounter : ∀ m m' : MembershipRow, m.lastIssuedSequence ≤ m'.lastIssuedSequence →
      m.lastCompletedSequence ≤ m'.lastCompletedSequence → counter m ≤ counter m')
    (hkeeps : KeepsRow db k e) (hknown : k.policyID ≤ db.policies.used)
    (h : Behind db k counter evaluation) : Behind (step crypto db e) k counter evaluation := by
  intro policy' hp'
  cases policy_step crypto db k.policyID e with
  | kept _ hrow hstays =>
    rcases h policy' (hrow ▸ hp') with hlt | ⟨heq, m, hm, hle⟩
    · exact .inl hlt
    · obtain ⟨m', hm'⟩ := Option.isSome_iff_exists.mp (hstays k.hostID (by rw [hm]; rfl))
      obtain ⟨hi, hc⟩ := membership_grows hm hm'
      have := hcounter m m' hi hc
      exact .inr ⟨heq, m', hm', by omega⟩
  | created p hnew =>
    simp only [KeyedRows.Table.next] at hnew
    omega
  | edited p write current hchecked hcurrent hrow hmembership =>
    rw [hp', Option.some.injEq] at hrow
    subst hrow
    by_cases hquery : current.query = write.query
    · simp only [PolicyRow.edit, if_pos hquery]
      rcases h current hcurrent with hlt | ⟨heq, m, hm, hle⟩
      · exact .inl hlt
      · have hassigned : (editPolicies db k.policyID current write).assigned k = true := by
          simp only [KeepsRow, hchecked, hcurrent] at hkeeps
          exact hkeeps trivial hquery (by rw [hm]; rfl)
        refine .inr ⟨heq, m, ?_, hle⟩
        rw [hmembership k.hostID, editDrops]
        simp [hquery, hassigned, hm]
    · simp only [PolicyRow.edit, if_neg hquery]
      rcases h current hcurrent with hlt | ⟨heq, -⟩
      · exact .inl (by omega)
      · exact .inl (by omega)
  | deleted hrow => simp [hp'] at hrow

/-- Later issues have a later revision, or the same one and a later sequence. -/
def Before (a b : Evaluation) : Prop :=
  a.revision < b.revision ∨ a.revision = b.revision ∧ a.sequence < b.sequence

structure Inv (k : Pair) (w : World) : Prop where
  known : ∀ e ∈ w.log, e.policyID = k.policyID ∧ k.policyID ≤ w.db.policies.used
  issued : ∀ e ∈ w.log, Behind w.db k MembershipRow.lastIssuedSequence e
  ordered : w.log.Pairwise Before
  completed : ∀ i ∈ w.accepted, ∃ e, w.log[i]? = some e ∧
    Behind w.db k MembershipRow.lastCompletedSequence e
  nodup : w.accepted.Nodup

/-- The identity that the pair's row awaits. -/
structure Awaited (db : Db) (k : Pair) (evaluation : Evaluation) (policy : PolicyRow)
    (membership : MembershipRow) : Prop where
  policyRow : db.policies.row k.policyID = some policy
  membershipRow : db.membership k = some membership
  revision : evaluation.revision = policy.evaluationRevision
  awaits : MembershipRow.awaits membership evaluation.sequence

/-- The evaluation with the awaited identity is the last one issued. -/
theorem awaited_last (h : Inv k w) {i : Nat} {policy : PolicyRow} {membership : MembershipRow}
    (hi : w.log[i]? = some evaluation) (ha : Awaited w.db k evaluation policy membership) :
    i + 1 = w.log.length := by
  obtain ⟨hlt, hget⟩ := List.getElem?_eq_some_iff.mp hi
  by_contra hne
  have hj : i + 1 < w.log.length := by omega
  have hbefore := List.pairwise_iff_getElem.mp h.ordered i (i + 1) hlt hj (Nat.lt_succ_self i)
  rw [hget] at hbefore
  have hseq := ha.awaits.1
  have hrev := ha.revision
  rcases h.issued _ (List.getElem_mem hj) policy ha.policyRow with hless | ⟨heq, m, hm, hle⟩
  · rcases hbefore with hb | ⟨hb, -⟩ <;> omega
  · obtain rfl : membership = m := Option.some.inj (ha.membershipRow.symm.trans hm)
    rcases hbefore with hb | ⟨-, hb⟩ <;> omega

/-- It was not accepted before. -/
theorem awaited_fresh (h : Inv k w) {i : Nat} {policy : PolicyRow} {membership : MembershipRow}
    (hi : w.log[i]? = some evaluation) (ha : Awaited w.db k evaluation policy membership) :
    i ∉ w.accepted := by
  intro hmem
  obtain ⟨e, he, hbehind⟩ := h.completed i hmem
  obtain rfl : evaluation = e := Option.some.inj (hi.symm.trans he)
  have hseq := ha.awaits.2
  have hrev := ha.revision
  rcases hbehind policy ha.policyRow with hless | ⟨-, m, hm, hle⟩
  · omega
  · obtain rfl : membership = m := Option.some.inj (ha.membershipRow.symm.trans hm)
    omega

/-- The identity of an eligible answer of the log is the awaited one. -/
theorem awaited_of_eligible (h : Inv k w) {i : Nat} {status : PolicyStatus} {error : String}
    (hi : w.log[i]? = some evaluation)
    (helig : eligible crypto w.db k.hostID (answerTo crypto evaluation status error) = true) :
    ∃ policy membership, Awaited w.db k evaluation policy membership := by
  obtain ⟨policy, membership, host, he⟩ := eligible_iff.mp helig
  have hown := (h.known evaluation (List.mem_of_getElem? hi)).1
  have hp := he.policyRow
  have hm := he.membershipRow
  simp only [answerTo, hown] at hp hm
  exact ⟨policy, membership, hp, hm, he.revision.symm, he.awaited⟩

/-- A body whose answer is stored answers an awaited evaluation of the log. -/
theorem acceptedIndex_of_accepted (h : Inv k w) {answers : List Answer} {result : EvaluationResult}
    (hacc : accepted crypto w.db k (.record k.hostID (results crypto k w answers)) = some result) :
    ∃ i evaluation policy membership, acceptedIndex crypto k w (.answer answers) = some i ∧
      w.log[i]? = some evaluation ∧ Awaited w.db k evaluation policy membership ∧
      evaluation.sequence = result.sequence := by
  have hacc' : acceptedResult crypto w.db k.hostID (results crypto k w answers) k.policyID =
      some result := by
    simpa [accepted] using hacc
  obtain ⟨hpid, ⟨raw, hraw, hn⟩, policy, membership, host, he⟩ := acceptedResult_some hacc'
  have hm : w.db.membership k = some membership := by
    have := he.membershipRow
    rwa [hpid] at this
  obtain ⟨answer, hanswer, hresult⟩ := List.mem_filterMap.mp hraw
  cases hfind : acceptedIndex crypto k w (.answer answers) with
  | none =>
    exfalso
    simp only [acceptedIndex, hacc, Option.isSome_some, if_true, List.findSome?_eq_none_iff] at hfind
    have := hfind answer hanswer
    cases answer with
    | issued index status error => simp [hresult, he.raw hn] at this
    | other r =>
      simp only [resultOf] at hresult
      split_ifs at hresult with hr
      cases hresult
      exact hr (hn.policyID ▸ hpid)
  | some i =>
    simp only [acceptedIndex, hacc, Option.isSome_some, if_true] at hfind
    obtain ⟨answer', -, hi⟩ := List.exists_of_findSome?_eq_some hfind
    cases answer' with
    | issued index status error =>
      simp only at hi
      split_ifs at hi with helig
      cases hi
      cases hlog : w.log[i]? with
      | none => simp [resultOf, hlog] at helig
      | some evaluation =>
        simp only [resultOf, hlog, Option.map_some, Option.any_some] at helig
        obtain ⟨policy', membership', ha⟩ := awaited_of_eligible h hlog helig
        obtain rfl : membership = membership' := Option.some.inj (hm.symm.trans ha.membershipRow)
        exact ⟨i, evaluation, policy', membership, rfl, hlog, ha, ha.awaits.1.symm.trans he.awaited.1⟩
    | other r => cases hi

theorem track_of_none {move : Move} (h : eventOf crypto k w move = none) :
    track crypto k w move = w := by
  simp [track, h]

theorem track_of_some {move : Move} (h : eventOf crypto k w move = some e) :
    track crypto k w move = {
      db := step crypto w.db e
      log := w.log ++ issuedTo w.db k e
      accepted := w.accepted ++ (acceptedIndex crypto k w move).toList } := by
  simp [track, h]

theorem keepsRow_of_keepsIssued {move : Move} (h : KeepsIssued k w move)
    (he : eventOf crypto k w move = some e) : KeepsRow w.db k e := by
  cases move with
  | answer answers =>
    cases he
    trivial
  | act e' =>
    simp only [eventOf] at he
    split_ifs at he
    cases he
    exact h

/-- The new evaluation is after all others, and its number is the row's counter. -/
theorem issued_step (crypto : Crypto) (h : Inv k w) (hkeeps : KeepsRow w.db k e) :
    (∀ ev ∈ w.log ++ issuedTo w.db k e, ev.policyID = k.policyID ∧
        k.policyID ≤ (step crypto w.db e).policies.used ∧
        Behind (step crypto w.db e) k MembershipRow.lastIssuedSequence ev) ∧
      (w.log ++ issuedTo w.db k e).Pairwise Before := by
  have hused := step_used crypto w.db e
  have hold : ∀ ev ∈ w.log, ev.policyID = k.policyID ∧
      k.policyID ≤ (step crypto w.db e).policies.used ∧
      Behind (step crypto w.db e) k MembershipRow.lastIssuedSequence ev := by
    intro ev hev
    obtain ⟨hown, hknown⟩ := h.known ev hev
    exact ⟨hown, by omega, behind_step (fun _ _ hi _ => hi) hkeeps hknown (h.issued ev hev)⟩
  rcases issuedTo_cases w.db k e with hnil | ⟨policy, rfl, hassigned, hp, hnew⟩
  · rw [hnil, List.append_nil]
    exact ⟨hold, h.ordered⟩
  · rw [hnew]
    refine ⟨?_, ?_⟩
    · intro ev hev
      rcases List.mem_append.mp hev with hev | hev
      · exact hold ev hev
      · rw [List.mem_singleton] at hev
        subst hev
        have hnumber := (w.db.policies.numbered k.policyID (by rw [hp]; rfl)).2
        refine ⟨rfl, by omega, ?_⟩
        intro policy' hp'
        rw [step_policies crypto w.db (.issue k.hostID) rfl nofun, hp, Option.some.injEq] at hp'
        exact .inr ⟨hp' ▸ rfl, _, by simp [step, issueEvaluationsForHost, hassigned], Int.le_refl _⟩
    · refine List.pairwise_append.mpr ⟨h.ordered, List.pairwise_singleton _ _, ?_⟩
      intro a ha b hb
      rw [List.mem_singleton] at hb
      subst hb
      rcases h.issued a ha policy hp with hlt | ⟨heq, m, hm, hle⟩
      · exact .inl hlt
      · refine .inr ⟨heq, ?_⟩
        simp only [hm, issueMembership]
        omega

/-- Accepted evaluations stay completed. -/
theorem completed_step (h : Inv k w) (hkeeps : KeepsRow w.db k e) {i : Nat} (hi : i ∈ w.accepted) :
    ∃ ev, (w.log ++ issuedTo w.db k e)[i]? = some ev ∧
      Behind (step crypto w.db e) k MembershipRow.lastCompletedSequence ev := by
  obtain ⟨ev, hev, hbehind⟩ := h.completed i hi
  obtain ⟨hlt, -⟩ := List.getElem?_eq_some_iff.mp hev
  refine ⟨ev, by rw [List.getElem?_append_left hlt, hev], ?_⟩
  exact behind_step (fun _ _ _ hc => hc) hkeeps (h.known ev (List.mem_of_getElem? hev)).2 hbehind

/-- The accepted index of a body, if there is one, is that of an awaited evaluation,
and the step completes it. -/
theorem accepted_step (h : Inv k w) {answers : List Answer} {i : Nat}
    (hi : acceptedIndex crypto k w (.answer answers) = some i) :
    ∃ ev policy membership, w.log[i]? = some ev ∧ Awaited w.db k ev policy membership ∧
      Behind (step crypto w.db (.record k.hostID (results crypto k w answers))) k
        MembershipRow.lastCompletedSequence ev := by
  cases hacc : accepted crypto w.db k (.record k.hostID (results crypto k w answers)) with
  | none => simp [acceptedIndex, hacc] at hi
  | some result =>
    obtain ⟨i', ev, policy, membership, hi', hlog, ha, hseq⟩ := acceptedIndex_of_accepted h hacc
    obtain rfl : i = i' := Option.some.inj (hi.symm.trans hi')
    refine ⟨ev, policy, membership, hlog, ha, ?_⟩
    intro policy' hp'
    rw [step_policies crypto w.db (.record k.hostID (results crypto k w answers)) rfl nofun,
      ha.policyRow, Option.some.injEq] at hp'
    subst hp'
    have hnew : (step crypto w.db (.record k.hostID (results crypto k w answers))).membership k =
        some (completeMembership membership result) := by
      generalize hev : Event.record k.hostID (results crypto k w answers) = e at hacc ⊢
      cases membership_step crypto w.db k e with
      | kept _ _ hnone => simp [hnone] at hacc
      | dropped _ _ _ hnone => simp [hnone] at hacc
      | issued => simp [accepted] at hacc
      | answered _ result' m hacc' hold _ hnew =>
        rw [hacc', Option.some.injEq] at hacc
        obtain rfl : membership = m := Option.some.inj (ha.membershipRow.symm.trans hold)
        rw [hnew, hacc]
    refine .inr ⟨ha.revision, _, hnew, ?_⟩
    rw [complete_lastCompleted (hseq ▸ ha.awaits)]
    omega

theorem inv_step (h : Inv k w) {move : Move} (hkeeps : KeepsIssued k w move) :
    Inv k (track crypto k w move) := by
  cases he : eventOf crypto k w move with
  | none =>
    rw [track_of_none he]
    exact h
  | some e =>
    rw [track_of_some he]
    have hrow := keepsRow_of_keepsIssued hkeeps he
    obtain ⟨hlog, hordered⟩ := issued_step crypto h hrow
    refine ⟨fun ev hev => ⟨(hlog ev hev).1, (hlog ev hev).2.1⟩, fun ev hev => (hlog ev hev).2.2,
      hordered, ?_, ?_⟩
    · intro i hi
      rcases List.mem_append.mp hi with hold | hnew
      · exact completed_step h hrow hold
      · cases move with
        | act e' => simp [acceptedIndex] at hnew
        | answer answers =>
          cases he
          obtain ⟨ev, policy, membership, hlogi, -, hbehind⟩ :=
            accepted_step h (Option.mem_toList.mp hnew)
          exact ⟨ev, by simpa [issuedTo] using hlogi, hbehind⟩
    · cases move with
      | act e' => simpa [acceptedIndex] using h.nodup
      | answer answers =>
        refine List.nodup_append.mpr ⟨h.nodup, ?_, ?_⟩
        · cases acceptedIndex crypto k w (.answer answers) with
          | none => exact List.nodup_nil
          | some i => exact List.nodup_singleton i
        · rintro i hi j hj rfl
          obtain ⟨ev, policy, membership, hlogi, ha, -⟩ := accepted_step h (Option.mem_toList.mp hj)
          exact awaited_fresh h hlogi ha hi

theorem inv_start (k : Pair) (db : Db) : Inv k ⟨db, [], []⟩ where
  known := nofun
  issued := nofun
  ordered := List.Pairwise.nil
  completed := nofun
  nodup := List.nodup_nil

/-- A body that changes the pair's row has an awaited evaluation answered. -/
theorem changed_accepted (h : Inv k w) {answers : List Answer}
    (hchanged : (track crypto k w (.answer answers)).db.membership k ≠ w.db.membership k) :
    ∃ i, acceptedIndex crypto k w (.answer answers) = some i ∧ i + 1 = w.log.length ∧
      i ∉ w.accepted := by
  cases hacc : accepted crypto w.db k (.record k.hostID (results crypto k w answers)) with
  | some result =>
    obtain ⟨i, ev, policy, membership, hi, hlog, ha, -⟩ := acceptedIndex_of_accepted h hacc
    exact ⟨i, hi, awaited_last h hlog ha, awaited_fresh h hlog ha⟩
  | none =>
    exfalso
    apply hchanged
    change (step crypto w.db (.record k.hostID (results crypto k w answers))).membership k = _
    generalize hev : Event.record k.hostID (results crypto k w answers) = e at hacc ⊢
    cases membership_step crypto w.db k e with
    | kept _ hsame => exact hsame
    | dropped _ hdrop =>
      subst hev
      cases hdrop
    | issued => cases hev
    | answered _ _ _ hacc' => simp [hacc'] at hacc

end

/-- Along every run in which no edit that keeps the query drops the pair's row, a
body changes the row only by an answer to the last evaluation issued, and no
evaluation is accepted twice. -/
theorem accepted_answers_are_latest (crypto : Crypto) (k : Pair) (db : Db) (moves : List Move)
    (hkeeps : Along (track crypto k) (KeepsIssued k) ⟨db, [], []⟩ moves) :
    let w := exec (track crypto k) ⟨db, [], []⟩ moves
    w.accepted.Nodup ∧ ∀ answers,
      let w' := track crypto k w (.answer answers)
      w'.db.membership k ≠ w.db.membership k →
        ∃ i, w'.accepted = w.accepted ++ [i] ∧ i + 1 = w.log.length ∧ i ∉ w.accepted := by
  intro w
  have hinv : Inv k w :=
    Runs.exec_invariant_along (P := Inv k) (fun _ _ h hc => inv_step h hc) (inv_start k db) hkeeps
  refine ⟨hinv.nodup, ?_⟩
  intro answers w' hchanged
  obtain ⟨i, hi, hlast, hfresh⟩ := changed_accepted hinv hchanged
  have htrack : w'.accepted = w.accepted ++ (acceptedIndex crypto k w (.answer answers)).toList := rfl
  exact ⟨i, by rw [htrack, hi]; rfl, hlast, hfresh⟩

/-- The policy with other targets. -/
def retargeted (labels : List Int) : PolicyMutation :=
  { samplePolicy with targets := { includes := labels.map (fun label => ⟨label⟩) } }

/-- An edit that widens the targets: the answer to the first evaluation changes
nothing once a second is issued. -/
theorem accepted_answers_are_latest_sample :
    let moves := sampleSetup.map Move.act ++
      [.act (.issue 1), .act (.update 1 (retargeted [1, 2])), .act (.issue 1)]
    let w := exec (track sampleCrypto ⟨1, 1⟩) ⟨sampleDb, [], []⟩ moves
    (track sampleCrypto ⟨1, 1⟩ w (.answer [.issued 0 .fail])).db.membership ⟨1, 1⟩ =
      w.db.membership ⟨1, 1⟩ := by
  intro moves w
  by_contra hchanged
  obtain ⟨i, hi, hlast, -⟩ := (accepted_answers_are_latest sampleCrypto ⟨1, 1⟩ sampleDb moves
    (by decide +kernel)).2 [.issued 0 .fail] hchanged
  have hnone : (track sampleCrypto ⟨1, 1⟩ w (.answer [.issued 0 .fail])).accepted = [] := by
    decide +kernel
  rw [hnone] at hi
  simp at hi

/-- The policy leaves label 1 and comes back. The counter starts again, and the answer
to the evaluation issued before is taken for the one issued afterwards. -/
theorem returned_policy_takes_old_answer :
    let moves := sampleSetup.map Move.act ++ [.act (.issue 1), .act (.update 1 (retargeted [2])),
      .act (.update 1 (retargeted [1])), .act (.issue 1)]
    let w := exec (track sampleCrypto ⟨1, 1⟩) ⟨sampleDb, [], []⟩ moves
    let w' := track sampleCrypto ⟨1, 1⟩ w (.answer [.issued 0 .fail])
    w.log.length = 2 ∧ w'.accepted = [0] ∧
      (w.db.membership ⟨1, 1⟩).map MembershipRow.status = some .pending ∧
      (w'.db.membership ⟨1, 1⟩).map MembershipRow.status = some .fail := by
  decide +kernel

end PolicyEvaluations
