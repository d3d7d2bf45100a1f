import Woodstar.GoText
import Woodstar.LabelModel
import Woodstar.Runs

/-!
# Dynamic labels and their answers

One host and all labels. Update is a transaction of three steps, the label row, the
membership and the commit; a write of answers reads the label types when it starts
and changes the rows of the host later, one by one. Every answer carries the query
that produced it, which the server does not see.
-/
namespace DynamicLabels

open KeyedRows (Table)
open LabelModel
open GoText (formatInt parseInt cut cutPrefix)
open Runs (exec Along)

inductive QueryKind where
  | detail | label | policy | live | report
  deriving DecidableEq, Repr

def QueryKind.text : QueryKind → List Char
  | .detail => "detail".toList
  | .label => "label".toList
  | .policy => "policy".toList
  | .live => "live".toList
  | .report => "report".toList

def namePrefix : List Char := "woodstar_".toList

def querySeparator : List Char := "_query_".toList

def queryName (kind : QueryKind) (suffix : List Char) : List Char :=
  namePrefix ++ kind.text ++ querySeparator ++ suffix

def queryNameID (kind : QueryKind) (id : Int) : List Char := queryName kind (formatInt id)

/-- The kinds whose answers arrive by distributed write. -/
def answerKinds : List QueryKind := [.detail, .label, .policy, .live]

def parseQueryName (name : List Char) : Option (QueryKind × List Char) :=
  match (cutPrefix namePrefix name).bind (cut querySeparator) with
  | none => none
  | some (kindRaw, suffix) =>
    if suffix = [] then none
    else (answerKinds.find? (fun kind => kind.text == kindRaw)).map (fun kind => (kind, suffix))

def parsePositiveSuffix (suffix : List Char) : Option Int :=
  (parseInt suffix).bind (fun id => if id ≤ 0 then none else some id)

/-- The label that the name of an answer stands for. -/
def labelOf (name : List Char) : Option Int :=
  match parseQueryName name with
  | some (.label, suffix) => parsePositiveSuffix suffix
  | _ => none

theorem text_label : QueryKind.label.text = ['l', 'a', 'b', 'e', 'l'] := String.toList_ofList

theorem querySeparator_eq : querySeparator = ['_', 'q', 'u', 'e', 'r', 'y', '_'] := String.toList_ofList

theorem parseQueryName_label {suffix : List Char} (h : suffix ≠ []) :
    parseQueryName (queryName .label suffix) = some (.label, suffix) := by
  have hprefix : cutPrefix namePrefix (queryName .label suffix) =
      some (QueryKind.label.text ++ querySeparator ++ suffix) := by
    simp only [queryName, List.append_assoc]
    exact GoText.cutPrefix_append _ _
  have hcut : cut querySeparator (QueryKind.label.text ++ querySeparator ++ suffix) =
      some (QueryKind.label.text, suffix) := by
    simp [cut, text_label, querySeparator_eq]
  rw [parseQueryName, hprefix, Option.bind_some, hcut]
  simp only [if_neg h]
  rfl

/-- An answer under the name of a label reaches no other label. -/
theorem labelOf_queryNameID {id id' : Int} (h : labelOf (queryNameID .label id) = some id') :
    id' = id := by
  have hne : formatInt id ≠ [] := by
    cases id with
    | ofNat n => exact Nat.toDigits_ne_nil
    | negSucc n => exact nofun
  rw [labelOf, queryNameID, parseQueryName_label hne] at h
  obtain ⟨i, hi, hpos⟩ := Option.bind_eq_some_iff.mp h
  split_ifs at hpos
  cases hpos
  exact GoText.eq_of_parseInt_formatInt hi

/-- A query sent to the host. -/
structure DynamicLabel where
  id : Int
  query : String
  deriving DecidableEq, Repr

/-- The answer to an issued query. `status` is the number the host reports. -/
structure Answer where
  index : Nat
  status : Option Int
  rows : List (List (String × String))
  deriving DecidableEq, Repr

structure LabelResult where
  labelID : Int
  matched : Bool
  deriving DecidableEq, Repr

def distributedStatusOK (status : Option Int) : Bool := status == some 0

def rowPresenceResult (status : Option Int) (rows : List (List (String × String))) : Option Bool :=
  if distributedStatusOK status = true then some (!rows.isEmpty) else none

def handleLabelResult (name : List Char) (status : Option Int)
    (rows : List (List (String × String))) : Option LabelResult :=
  (labelOf name).bind (fun labelID =>
    (rowPresenceResult status rows).map (fun matched => ⟨labelID, matched⟩))

/-- A row change that a started write still has to make, with the query answered. -/
structure Landing where
  result : LabelResult
  asked : DynamicLabel
  deriving DecidableEq, Repr

/-- An Update between its first statement and its end. `member` is set with the
membership: whether the host is among the new members. `caught` tells that the
DELETE met the host's row. -/
structure OpenUpdate where
  row : LabelRow
  hostIDs : List Int
  member : Option Bool := none
  caught : Bool := false

/-- `vouched` are the queries whose answers stand behind the host's row. -/
structure World where
  hostID : Int
  labels : Table LabelRow
  members : Int → Bool
  updates : Int → Option OpenUpdate := fun _ => none
  issued : List DynamicLabel := []
  landings : List Landing := []
  vouched : Int → List DynamicLabel := fun _ => []

/-- `replace` carries whether the host satisfies a derived label's criteria. -/
inductive Event where
  | read
  | write (answers : List Answer)
  | land (index : Nat)
  | update (id : Int) (p : LabelMutation)
  | replace (id : Int) (derives : Bool)
  | commit (id : Int)
  | rollback (id : Int)
  deriving Repr

def World.isDynamic (w : World) (id : Int) : Bool :=
  (w.labels.row id).any (fun row => row.labelMembershipType == .dynamic)

/-- The query of a label. Only a dynamic one has any. -/
def World.query (w : World) (id : Int) : Option String := (w.labels.row id).bind (fun row => row.query)

def listApplicableDynamic (w : World) : List DynamicLabel :=
  (w.labels.ids.filter w.isDynamic).filterMap (fun id => (w.query id).map (fun query => ⟨id, query⟩))

def landingOf (w : World) (answer : Answer) : Option Landing :=
  (w.issued[answer.index]?).bind (fun asked =>
    (handleLabelResult (queryNameID .label asked.id) answer.status answer.rows).map
      (fun result => ⟨result, asked⟩))

/-- The first part of the statement: duplicates fail it, and only dynamic labels count. -/
def setDynamicMemberships (w : World) (answers : List Answer) : World :=
  let landings := answers.filterMap (landingOf w)
  if (landings.map (fun landing => landing.result.labelID)).Nodup then
    { w with landings := w.landings ++
        landings.filter (fun landing => w.isDynamic landing.result.labelID) }
  else w

/-- The write waits for a row that an open transaction deleted or inserted. -/
def World.blocked (w : World) (id : Int) : Bool :=
  (w.updates id).any (fun update => update.caught || update.member == some true)

def applyLanding (w : World) (landing : Landing) : World :=
  let id := landing.result.labelID
  { w with
    members := Function.update w.members id landing.result.matched
    vouched := Function.update w.vouched id
      (if landing.result.matched = true then landing.asked :: w.vouched id else []) }

def land (w : World) (index : Nat) : World :=
  match w.landings[index]? with
  | none => w
  | some landing =>
    if w.blocked landing.result.labelID = true then w
    else { applyLanding w landing with landings := w.landings.eraseIdx index }

/-- The UPDATE of the label row. It waits for an open Update of the label. -/
def update (w : World) (id : Int) (p : LabelMutation) : World :=
  match p.checked, w.labels.row id, w.updates id with
  | .ok write, some row, none =>
    if row.labelType = .regular then
      let row' : LabelRow := { toLabelWrite := write, labelType := row.labelType }
      { w with updates := Function.update w.updates id (some ⟨row', p.hostIDs, none, false⟩) }
    else w
  | _, _, _ => w

def replaceMembership (w : World) (id : Int) (derives : Bool) : World :=
  match w.updates id with
  | some ⟨row, hostIDs, none, _⟩ =>
    let member := match row.labelMembershipType with
      | .dynamic => false
      | .manual => decide (w.hostID ∈ hostIDs)
      | .derived => derives
    let update := ⟨row, hostIDs, some member, w.members id⟩
    { w with updates := Function.update w.updates id (some update) }
  | _ => w

def commit (w : World) (id : Int) : World :=
  match w.updates id with
  | some ⟨row, _, some member, caught⟩ =>
    { w with
      labels := w.labels.modify id (fun _ => row)
      members := Function.update w.members id (member || (w.members id && !caught))
      vouched := Function.update w.vouched id (if caught = true then [] else w.vouched id)
      updates := Function.update w.updates id none }
  | _ => w

def step (w : World) : Event → World
  | .read => { w with issued := w.issued ++ listApplicableDynamic w }
  | .write answers => setDynamicMemberships w answers
  | .land index => land w index
  | .update id p => update w id p
  | .replace id derives => replaceMembership w id derives
  | .commit id => commit w id
  | .rollback id => { w with updates := Function.update w.updates id none }

/-- Nothing was asked yet, and the host is in no dynamic label. -/
def start (hostID : Int) (labels : Table LabelRow) (members : Int → Bool) : World where
  hostID := hostID
  labels := labels
  members := fun id => members id && ((labels.row id).bind (fun row => row.query)).isNone

/-- The landing answers a query that its label no longer has. -/
def Stale (w : World) (landing : Landing) : Prop :=
  w.query landing.result.labelID ≠ some landing.asked.query

/-- The landing that the step makes. -/
def landingAt (w : World) : Event → Option Landing
  | .land index => (w.landings[index]?).filter (fun landing => !w.blocked landing.result.labelID)
  | _ => none

/-- Every membership of a dynamic label rests on an answer to the query it has. -/
def Current (w : World) : Prop :=
  ∀ id query, w.query id = some query → w.members id = true → ⟨id, query⟩ ∈ w.vouched id

/-- No answer to a replaced query changes the rows, and those left are current. -/
def Holds (w : World) (e : Event) : Prop :=
  (∀ landing ∈ landingAt w e, Stale w landing → (step w e).members = w.members) ∧ Current (step w e)

/-- A landing that answers a replaced query says what is recorded, and an Update that
commits under a new query leaves no row that was written after its DELETE. -/
def InForce (w : World) (e : Event) : Prop :=
  (∀ landing ∈ landingAt w e, Stale w landing →
    w.members landing.result.labelID = landing.result.matched) ∧
  ∀ id, e = .commit id → ∀ update ∈ w.updates id, update.member.isSome = true →
    update.caught = false → w.members id = true →
    ∀ query ∈ update.row.query, ⟨id, query⟩ ∈ w.vouched id

section

variable {w : World} {e : Event} {id : Int}

/-- An answer lands on the label it was asked for, an open Update has a row, and the
new membership of a dynamic label is empty. -/
structure Wf (w : World) : Prop where
  listed : ∀ id, ∀ update ∈ w.updates id, (w.labels.row id).isSome = true
  addressed : ∀ landing ∈ w.landings, landing.result.labelID = landing.asked.id
  cleared : ∀ id, ∀ update ∈ w.updates id, update.row.query.isSome = true → update.member ≠ some true

theorem landingOf_addressed {answer : Answer} {landing : Landing}
    (h : landingOf w answer = some landing) : landing.result.labelID = landing.asked.id := by
  obtain ⟨asked, -, h⟩ := Option.bind_eq_some_iff.mp h
  obtain ⟨result, hresult, rfl⟩ := Option.map_eq_some_iff.mp h
  obtain ⟨labelID, hlabel, h⟩ := Option.bind_eq_some_iff.mp hresult
  obtain ⟨matched, -, rfl⟩ := Option.map_eq_some_iff.mp h
  exact labelOf_queryNameID hlabel

theorem mem_update_self {α : Type} {f : Int → Option α} {i j : Int} {o : Option α} {a : α}
    (h : a ∈ Function.update f i o j) : j = i ∧ a ∈ o ∨ a ∈ f j := by
  by_cases hj : j = i
  · subst hj
    rw [Function.update_self] at h
    exact .inl ⟨rfl, h⟩
  · rw [Function.update_of_ne hj] at h
    exact .inr h

theorem wf_step (h : Wf w) (e : Event) : Wf (step w e) := by
  cases e with
  | read => exact ⟨h.listed, h.addressed, h.cleared⟩
  | write answers =>
    unfold step setDynamicMemberships
    dsimp only
    split_ifs
    · refine ⟨h.listed, ?_, h.cleared⟩
      intro landing hl
      rcases List.mem_append.mp hl with hl | hl
      · exact h.addressed landing hl
      · obtain ⟨answer, -, ha⟩ := List.mem_filterMap.mp (List.mem_of_mem_filter hl)
        exact landingOf_addressed ha
    · exact h
  | land index =>
    unfold step land
    dsimp only
    split
    · exact h
    · split_ifs
      · exact h
      · exact ⟨h.listed, fun landing hl => h.addressed landing (List.mem_of_mem_eraseIdx hl), h.cleared⟩
  | update id p =>
    unfold step update
    dsimp only
    split
    · rename_i write row hchecked hrow hnone
      split_ifs
      · refine ⟨?_, h.addressed, ?_⟩
        · intro id' update' hu
          rcases mem_update_self hu with ⟨rfl, -⟩ | hu
          · exact hrow ▸ rfl
          · exact h.listed id' update' hu
        · intro id' update' hu hq
          rcases mem_update_self hu with ⟨-, hu⟩ | hu
          · cases hu
            exact nofun
          · exact h.cleared id' update' hu hq
      · exact h
    · exact h
  | replace id derives =>
    unfold step replaceMembership
    dsimp only
    split
    · rename_i row hostIDs caught hupdate
      refine ⟨?_, h.addressed, ?_⟩
      · intro id' update' hu
        rcases mem_update_self hu with ⟨rfl, -⟩ | hu
        · exact h.listed id' _ hupdate
        · exact h.listed id' update' hu
      intro id' update' hu hq
      rcases mem_update_self hu with ⟨-, hu⟩ | hu
      · cases hu
        rw [row.dynamic_iff_query.mpr (Option.isSome_iff_exists.mp hq)]
        exact nofun
      · exact h.cleared id' update' hu hq
    · exact h
  | commit id =>
    unfold step commit
    dsimp only
    split
    · refine ⟨?_, h.addressed, ?_⟩
      · intro id' update' hu
        rw [KeyedRows.Table.row_modify]
        rcases mem_update_self hu with ⟨-, hu⟩ | hu
        · cases hu
        · split_ifs
          · rw [Option.isSome_map]
            exact h.listed id' update' hu
          · exact h.listed id' update' hu
      · intro id' update' hu hq
        rcases mem_update_self hu with ⟨-, hu⟩ | hu
        · cases hu
        · exact h.cleared id' update' hu hq
    · exact h
  | rollback id =>
    refine ⟨?_, h.addressed, ?_⟩
    · intro id' update' hu
      rcases mem_update_self hu with ⟨-, hu⟩ | hu
      · cases hu
      · exact h.listed id' update' hu
    intro id' update' hu hq
    rcases mem_update_self hu with ⟨-, hu⟩ | hu
    · cases hu
    · exact h.cleared id' update' hu hq

/-- What a step can do to the labels, the host's rows and what stands behind them. -/
inductive StepSpec (w : World) (e : Event) (w' : World) : Prop
  | quiet (hlabels : w'.labels = w.labels) (hmembers : w'.members = w.members)
      (hvouched : w'.vouched = w.vouched) (hland : landingAt w e = none)
      (hcommit : ∀ id, e = .commit id → ∀ update ∈ w.updates id, update.member = none)
  | landed (landing : Landing) (hland : landingAt w e = some landing) (hlabels : w'.labels = w.labels)
      (hmembers : w'.members =
        Function.update w.members landing.result.labelID landing.result.matched)
      (hvouched : w'.vouched = Function.update w.vouched landing.result.labelID
        (if landing.result.matched = true then landing.asked :: w.vouched landing.result.labelID else []))
      (hcommit : ∀ id, e ≠ .commit id)
  | committed (id : Int) (row : LabelRow) (hostIDs : List Int) (member caught : Bool)
      (he : e = .commit id) (hupdate : w.updates id = some ⟨row, hostIDs, some member, caught⟩)
      (hlabels : w'.labels = w.labels.modify id (fun _ => row))
      (hmembers : w'.members = Function.update w.members id (member || (w.members id && !caught)))
      (hvouched : w'.vouched = Function.update w.vouched id (if caught = true then [] else w.vouched id))

theorem step_spec (w : World) (e : Event) : StepSpec w e (step w e) := by
  cases e with
  | read => exact .quiet rfl rfl rfl rfl nofun
  | write answers =>
    unfold step setDynamicMemberships
    dsimp only
    split_ifs <;> exact .quiet rfl rfl rfl rfl nofun
  | land index =>
    unfold step land
    dsimp only
    cases hl : w.landings[index]? with
    | none => exact .quiet rfl rfl rfl (by simp [landingAt, hl]) nofun
    | some landing =>
      cases hb : w.blocked landing.result.labelID with
      | true =>
        simp only [if_true, hb]
        exact .quiet rfl rfl rfl (by simp [landingAt, hl, hb]) nofun
      | false =>
        simp only [Bool.false_eq_true, if_false, hb]
        exact .landed landing (by simp [landingAt, hl, hb]) rfl rfl rfl nofun
  | update id p =>
    unfold step update
    dsimp only
    split
    · split_ifs <;> exact .quiet rfl rfl rfl rfl nofun
    · exact .quiet rfl rfl rfl rfl nofun
  | replace id derives =>
    unfold step replaceMembership
    dsimp only
    split <;> exact .quiet rfl rfl rfl rfl nofun
  | commit id =>
    unfold step commit
    dsimp only
    split
    · rename_i row hostIDs member caught hu
      exact .committed id row hostIDs member caught rfl hu rfl rfl rfl
    · rename_i hne
      apply StepSpec.quiet rfl rfl rfl rfl
      rintro id' he ⟨row, hostIDs, member, caught⟩ hu
      cases he
      cases member with
      | none => rfl
      | some member => exact absurd hu (hne row hostIDs member caught)
  | rollback id => exact .quiet rfl rfl rfl rfl nofun

theorem query_eq {w' : World} (h : w'.labels = w.labels) : w'.query id = w.query id := by
  unfold World.query
  rw [h]

/-- A row written for another query than the label gets at a commit is the DELETE's to meet. -/
theorem current_step (hw : Wf w) (hc : Current w) (hi : InForce w e) : Current (step w e) := by
  intro id query hq hm
  cases step_spec w e with
  | quiet hlabels hmembers hvouched _ _ =>
    rw [query_eq hlabels] at hq
    rw [hmembers] at hm
    rw [hvouched]
    exact hc id query hq hm
  | landed landing hland hlabels hmembers hvouched _ =>
    rw [query_eq hlabels] at hq
    rw [hmembers] at hm
    rw [hvouched]
    by_cases hid : id = landing.result.labelID
    · subst hid
      rw [Function.update_self] at hm
      rw [Function.update_self, if_pos hm]
      by_cases hstale : Stale w landing
      · have hmember := hi.1 landing hland hstale
        exact List.mem_cons_of_mem _ (hc _ query hq (hmember.trans hm))
      · have hasked : landing ∈ w.landings := by
          cases e with
          | land index =>
            obtain ⟨hl, -⟩ := Option.filter_eq_some_iff.mp hland
            exact List.mem_of_getElem? hl
          | _ => cases hland
        rw [Stale, not_not, hq] at hstale
        rw [hw.addressed landing hasked, Option.some.inj hstale]
        exact List.mem_cons_self
    · rw [Function.update_of_ne hid] at hm ⊢
      exact hc id query hq hm
  | committed id' row hostIDs member caught he hupdate hlabels hmembers hvouched =>
    rw [hmembers] at hm
    rw [hvouched]
    simp only [World.query, hlabels, KeyedRows.Table.row_modify] at hq
    by_cases hid : id = id'
    · subst hid
      rw [if_pos rfl] at hq
      have hquery : row.query = some query := by
        obtain ⟨row', hrow', hq'⟩ := Option.bind_eq_some_iff.mp hq
        obtain ⟨-, -, rfl⟩ := Option.map_eq_some_iff.mp hrow'
        exact hq'
      have hmember : member = false := by
        have := hw.cleared id _ hupdate (by simp [hquery])
        simpa using this
      rw [Function.update_self] at hm
      simp only [hmember, Bool.false_or, Bool.and_eq_true, Bool.not_eq_true'] at hm
      rw [Function.update_self, hm.2, if_neg Bool.false_ne_true]
      exact hi.2 id he _ hupdate rfl hm.2 hm.1 query hquery
    · rw [if_neg hid] at hq
      rw [Function.update_of_ne hid] at hm ⊢
      exact hc id query hq hm

theorem holds_of_inForce (hw : Wf w) (hc : Current w) (hi : InForce w e) : Holds w e := by
  refine ⟨?_, current_step hw hc hi⟩
  intro landing hland hstale
  cases step_spec w e with
  | quiet _ hmembers _ _ _ => exact hmembers
  | landed landing' hland' _ hmembers _ _ =>
    rw [Option.mem_def, hland', Option.some.injEq] at hland
    subst hland
    rw [hmembers, ← hi.1 landing' hland' hstale, Function.update_eq_self]
  | committed id row hostIDs member caught he _ _ _ _ =>
    subst he
    cases hland

theorem inForce_of_holds (hw : Wf w) (h : Holds w e) : InForce w e := by
  constructor
  · intro landing hland hstale
    have hkept := congrFun (h.1 landing hland hstale) landing.result.labelID
    cases step_spec w e with
    | quiet _ _ _ hnone _ =>
      rw [Option.mem_def, hnone] at hland
      cases hland
    | landed landing' hland' _ hmembers _ _ =>
      rw [Option.mem_def, hland', Option.some.injEq] at hland
      subst hland
      rw [hmembers, Function.update_self] at hkept
      exact hkept.symm
    | committed id row hostIDs member caught he _ _ _ _ =>
      subst he
      cases hland
  · rintro id rfl ⟨row, hostIDs, member, caught⟩ hu hmember hcaught hm query hquery
    cases step_spec w (.commit id) with
    | quiet _ _ _ _ hnone =>
      have hm' : member = none := hnone id rfl _ hu
      rw [hm'] at hmember
      cases hmember
    | landed landing _ _ _ _ hne => exact absurd rfl (hne id)
    | committed id' row' hostIDs' member' caught' he hu' hlabels hmembers hvouched =>
      cases he
      rw [Option.mem_def, hu', Option.some.injEq] at hu
      cases hu
      simp only at hcaught
      subst hcaught
      have hrow : (w.labels.row id).isSome = true := hw.listed id _ hu'
      have hq : (step w (.commit id)).query id = some query := by
        obtain ⟨old, hold⟩ := Option.isSome_iff_exists.mp hrow
        simp only [World.query, hlabels, KeyedRows.Table.row_modify, if_true, hold]
        exact hquery
      have hm' : (step w (.commit id)).members id = true := by
        rw [hmembers, Function.update_self, hm]
        simp
      have hcur := h.2 id query hq hm'
      rwa [hvouched, Function.update_self] at hcur

end

theorem wf_start (hostID : Int) (labels : Table LabelRow) (members : Int → Bool) :
    Wf (start hostID labels members) where
  listed := fun _ _ hupdate => absurd hupdate (Option.not_mem_none _)
  addressed := fun _ hlanding => absurd hlanding List.not_mem_nil
  cleared := fun _ _ hupdate => absurd hupdate (Option.not_mem_none _)

theorem current_start (hostID : Int) (labels : Table LabelRow) (members : Int → Bool) :
    Current (start hostID labels members) := by
  intro id query hq hm
  simp only [World.query, start] at hq
  simp [start, hq] at hm

/-- In every run the memberships of dynamic labels rest on current queries and no
answer to a replaced query changes them, if and only if every landing and every
commit of an Update finds its query in force. -/
theorem membership_current_iff (hostID : Int) (labels : Table LabelRow) (members : Int → Bool)
    (es : List Event) :
    Along step Holds (start hostID labels members) es ↔
      Along step InForce (start hostID labels members) es := by
  constructor
  · intro h
    apply Runs.along_invariant (P := Wf) ?_ ?_ (wf_start hostID labels members) h
    · exact fun w e hw _ => wf_step hw e
    · exact fun w e hw hh => inForce_of_holds hw hh
  · intro h
    apply Runs.along_invariant (P := fun w => Wf w ∧ Current w) ?_ ?_
      ⟨wf_start hostID labels members, current_start hostID labels members⟩ h
    · exact fun w e hw hi => ⟨wf_step hw.1 e, current_step hw.1 hw.2 hi⟩
    · exact fun w e hw hi => holds_of_inForce hw.1 hw.2 hi

/-- One dynamic label whose query is `old`. -/
def oneLabel : Table LabelRow :=
  Table.empty.insert
    { name := "Macs", description := "", query := some "old", criteria := none,
      labelMembershipType := .dynamic, shape_check := by decide, labelType := .regular }

/-- The query is edited while the host still evaluates the old one. -/
def lateAnswer : List Event :=
  [.read, .update 1 { name := "Macs", query := some "new" }, .replace 1 false, .commit 1,
    .write [⟨0, some 0, [[("one", "1")]]⟩], .land 0]

/-- The late answer makes the host a member of the edited label. -/
theorem late_answer_adds : ¬∀ hostID labels members es,
    Along step Holds (start hostID labels members) es := by
  intro h
  have hrun := h 5 oneLabel (fun _ => false) lateAnswer
  have hlast : Current (exec step (start 5 oneLabel (fun _ => false)) lateAnswer) := by
    simp only [lateAnswer, Runs.along_cons] at hrun
    exact hrun.2.2.2.2.2.1.2
  have hquery : (exec step (start 5 oneLabel (fun _ => false)) lateAnswer).query 1 = some "new" := by
    decide
  have hmember : (exec step (start 5 oneLabel (fun _ => false)) lateAnswer).members 1 = true := by
    decide +kernel
  have hvouched : (⟨1, "new"⟩ : DynamicLabel) ∉
      (exec step (start 5 oneLabel (fun _ => false)) lateAnswer).vouched 1 := by
    decide
  exact hvouched (hlast 1 "new" hquery hmember)

end DynamicLabels
