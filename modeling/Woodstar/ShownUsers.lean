import Mathlib.Data.Multiset.MapFold
import Woodstar.DerivedRefresh
import Woodstar.TextPieces

/-!
# Shown users and derived labels

The primary user of a host is resolved by three statements: the refresh of the
derived labels, the host detail and the host search. A derived label takes its
values from the lists that the directory offers.
-/
namespace ShownUsers

open DerivedLabels
open DerivedRefresh
open LabelModel
open Primitives (Fault isSpace isText trimSpace)

structure Profile where
  name : String
  mailNickname : Option String
  deriving DecidableEq, Repr

/-- The tables, with the columns that only the host pages show. -/
structure Directory where
  db : Db
  profiles : Int → Profile
  groupNames : Source × String → String
  user_ids : ∀ id ∈ db.users.keys, 0 < id ∧ GoText.IsInt64 id
  departments : ∀ id user d, db.users.lookup id = some user → user.department = some d →
    isText d = true
  /-- CHECK (source <> 'local'), and no text holds NUL. -/
  groups : ∀ key ∈ db.groups, key.1 ≠ .sourceLocal ∧ isText key.2 = true

/-- `source::text`. -/
def sourceText : PrimaryUserSource → String
  | .manual => "manual"
  | .orbitProfile => "orbit_profile"

/-- The rows of `host_primary_user_sources` of a host. -/
def sourceRows (db : Db) (hostID : Int) : List (PrimaryUserSource × String) :=
  (db.sources.entries.filter (fun entry => entry.1.1 = hostID)).map
    (fun entry => (entry.1.2, entry.2))

/-- `ORDER BY host_id, CASE source …, source`, where the last is the output column. -/
def detailSourceOrder (row : PrimaryUserSource × String) : ℕ ×ₗ String :=
  toLex (row.1.order, sourceText row.1)

/-- `ORDER BY CASE source …, source` in the order of the enumeration. -/
def searchSourceOrder (row : PrimaryUserSource × String) : ℕ ×ₗ ℕ :=
  toLex (row.1.order, row.1.order)

/-- The condition of the host detail on a user row. -/
def detailAnswers (user : User) (email : String) : Bool :=
  !user.deleted &&
    (user.email == email || (user.userPrincipalName.isSome && user.userPrincipalName == some email))

/-- `OR` of a comparison and one with a column that may be NULL. -/
def sqlOr : Option Bool → Option Bool → Option Bool
  | some true, _ => some true
  | _, some true => some true
  | some false, some false => some false
  | _, _ => none

/-- The condition of the host search, which leaves the NULL to SQL. -/
def searchAnswers (user : User) (email : String) : Bool :=
  !user.deleted &&
    sqlOr (some (user.email == email)) (user.userPrincipalName.map (fun upn => upn == email)) ==
      some true

def userRows (db : Db) (answers : User → Bool) : List (Int × User) :=
  (db.users.entries.map (fun entry => (entry.1, entry.2))).filter (fun entry => answers entry.2)

/-- The `preferred` and `resolved` steps of the host detail. -/
def detailPreferred (db : Db) (hostID : Int) : Option (PrimaryUserSource × String) :=
  (sourceRows db hostID).argmin detailSourceOrder

def detailUser (db : Db) (hostID : Int) : Option (Int × User) :=
  (detailPreferred db hostID).bind (fun row =>
    (userRows db (fun user => detailAnswers user row.2)).argmin (userOrder row.2))

/-- The user whose columns the host search compares. -/
def searchUser (db : Db) (hostID : Int) : Option (Int × User) :=
  ((sourceRows db hostID).argmin searchSourceOrder).bind (fun row =>
    (userRows db (fun user => searchAnswers user row.2)).argmin (userOrder row.2))

/-- The row of the host detail. The order of the groups by name is left out. -/
structure PrimaryUser where
  email : String
  source : PrimaryUserSource
  username : String
  name : String
  department : String
  groups : Multiset String

/-- The user's columns, empty where no user answers. -/
def primaryUser (directory : Directory) (row : PrimaryUserSource × String)
    (user : Option (Int × User)) : PrimaryUser where
  email := row.2
  source := row.1
  username := (user.bind (fun u => (directory.profiles u.1).mailNickname)).getD ""
  name := (user.map (fun u => (directory.profiles u.1).name)).getD ""
  department := (user.bind (fun u => u.2.department)).getD ""
  groups := user.elim 0 (fun u =>
    ((directory.db.groupMembers.filter (fun member => member.1 = u.1 ∧
      member.2 ∈ directory.db.groups)).map (fun member => directory.groupNames member.2) :
        List String))

/-- `listHostPrimaryUsersSQL` for one host. -/
def hostPrimaryUser (directory : Directory) (hostID : Int) : Option PrimaryUser :=
  (detailPreferred directory.db hostID).map (fun row =>
    primaryUser directory row (detailUser directory.db hostID))

/-- The department list offers the value. -/
def Offered (db : Db) (department : String) : Prop :=
  ∃ id user, db.users.lookup id = some user ∧ user.source ≠ .sourceLocal ∧ user.deleted = false ∧
    user.department = some department ∧ btrim department ≠ ""

/-- A name that passes the validation of labels. -/
structure LabelName where
  text : String
  notBlank : Primitives.notBlank text = true
  isText : isText text = true

def DerivedAttribute.text : DerivedAttribute → String
  | .userDepartment => "user_department"
  | .directoryGroup => "directory_group"
  | .user => "user"

def derivedMutation (name : LabelName) (kind : DerivedAttribute) (value : String) :
    LabelMutation where
  name := name.text
  criteria := some { attributeName := DerivedAttribute.text kind, values := [value] }
  labelMembershipType := "derived"

/-- `Create` of a derived label: the row, and the refresh of its members. -/
def createDerived (db : Db) (labelID : Int) (mutation : LabelMutation) : Except Fault Db := do
  let write ← mutation.checked
  let db := { db with labels := db.labels.insert labelID (labelRow write) }
  pure { db with
    members := db.members.filter (fun row => decide (row.1 ≠ labelID)) ++
      matching db { labelID := some labelID } }

/-- The label is created and its members are the hosts that the predicate holds of. -/
def HasExactly (db : Db) (labelID : Int) (mutation : LabelMutation) (hosts : Int → Prop) : Prop :=
  ∃ db', createDerived db labelID mutation = .ok db' ∧
    ∀ hostID, (labelID, hostID) ∈ db'.members ↔ hosts hostID

def ShowsDepartment (directory : Directory) (department : String) (hostID : Int) : Prop :=
  ∃ shown, hostPrimaryUser directory hostID = some shown ∧ shown.department = department

/-- Some host's primary user has the department. -/
def DepartmentInUse (db : Db) (department : String) : Prop :=
  ∃ hostID userID user, IsPrimaryUser db hostID userID user ∧ user.department = some department

def ShowsGroup (directory : Directory) (key : Source × String) (hostID : Int) : Prop :=
  ∃ user, detailUser directory.db hostID = some user ∧ (user.1, key) ∈ directory.db.groupMembers

def InGroupNamed (db : Db) (externalID : String) (userID : Int) : Prop :=
  ∃ key ∈ db.groups, key.2 = externalID ∧ (userID, key) ∈ db.groupMembers

/-- The primary users in the group are those in a group with this external id. -/
def SameMembers (db : Db) (key : Source × String) (externalID : String) : Prop :=
  ∀ hostID userID user, IsPrimaryUser db hostID userID user →
    ((userID, key) ∈ db.groupMembers ↔ InGroupNamed db externalID userID)

def ShowsUser (directory : Directory) (userID hostID : Int) : Prop :=
  ∃ user, detailUser directory.db hostID = some user ∧ user.1 = userID

section Resolvers

variable {db : Db} {hostID : Int}

theorem mem_sourceRows {row : PrimaryUserSource × String} :
    row ∈ sourceRows db hostID ↔ db.sources.lookup (hostID, row.1) = some row.2 := by
  simp only [sourceRows, List.mem_map, List.mem_filter, decide_eq_true_eq]
  constructor
  · rintro ⟨⟨⟨host, source⟩, email⟩, ⟨hentry, rfl⟩, rfl⟩
    exact AList.mem_lookup_iff.mpr hentry
  · intro hlookup
    exists ⟨(hostID, row.1), row.2⟩
    exact ⟨⟨AList.mem_lookup_iff.mp hlookup, rfl⟩, rfl⟩

/-- A row that is first by the order of the sources has the preferred address. -/
theorem preferred_of_argmin {O : Type} [LinearOrder O] {order : PrimaryUserSource × String → O}
    (horder : ∀ a b, order a ≤ order b → a.1.order ≤ b.1.order) :
    ((sourceRows db hostID).argmin order).map Prod.snd = preferred db hostID := by
  cases hmin : (sourceRows db hostID).argmin order with
  | none =>
    have hnil := List.argmin_eq_none.mp hmin
    cases hpref : preferred db hostID with
    | none => rfl
    | some email =>
      obtain ⟨source, hsource, -⟩ := preferred_iff.mp hpref
      have hmem : (source, email) ∈ sourceRows db hostID := mem_sourceRows.mpr hsource
      rw [hnil] at hmem
      cases hmem
  | some row =>
    symm
    apply preferred_iff.mpr
    exists row.1
    constructor
    · exact mem_sourceRows.mp (List.argmin_mem hmin)
    · intro source' email' hlookup
      have hmem : (source', email') ∈ sourceRows db hostID := mem_sourceRows.mpr hlookup
      exact horder row (source', email') (List.le_of_mem_argmin hmem hmin)

theorem detailAnswers_eq (user : User) (email : String) :
    detailAnswers user email = user.answersTo email := by
  cases hupn : user.userPrincipalName with
  | none => simp [detailAnswers, User.answersTo, hupn]
  | some upn => simp [detailAnswers, User.answersTo, hupn]

theorem searchAnswers_eq (user : User) (email : String) :
    searchAnswers user email = user.answersTo email := by
  cases hupn : user.userPrincipalName with
  | none =>
    cases hemail : user.email == email with
    | true => simp [searchAnswers, User.answersTo, hupn, hemail, sqlOr]
    | false => simp [searchAnswers, User.answersTo, hupn, hemail, sqlOr]
  | some upn =>
    have hupn' : (user.userPrincipalName == some email) = (upn == email) := by
      rw [hupn]
      rfl
    rw [searchAnswers, User.answersTo, hupn', hupn, Option.map_some]
    cases user.email == email with
    | true => rfl
    | false =>
      cases upn == email with
      | true => rfl
      | false => rfl

theorem bind_argmin {row : Option (PrimaryUserSource × String)} {answers : User → String → Bool}
    (hrow : row.map Prod.snd = preferred db hostID)
    (hanswers : ∀ user email, answers user email = user.answersTo email) :
    row.bind (fun row => (userRows db (fun user => answers user row.2)).argmin (userOrder row.2)) =
      resolved db hostID := by
  rw [resolved, ← hrow, Option.bind_map]
  cases row with
  | none => rfl
  | some row =>
    simp only [Option.bind_some, Function.comp_apply, userRows, candidates, hanswers]

/-- The host detail resolves the user that the labels do. -/
theorem detailUser_eq (db : Db) (hostID : Int) : detailUser db hostID = resolved db hostID := by
  apply bind_argmin _ detailAnswers_eq
  apply preferred_of_argmin
  intro a b hle
  cases Prod.Lex.le_iff.mp hle with
  | inl hlt => exact hlt.le
  | inr heq => exact heq.1.le

/-- The host search resolves it as well. -/
theorem searchUser_eq (db : Db) (hostID : Int) : searchUser db hostID = resolved db hostID := by
  apply bind_argmin _ searchAnswers_eq
  apply preferred_of_argmin
  intro a b hle
  cases Prod.Lex.le_iff.mp hle with
  | inl hlt => exact hlt.le
  | inr heq => exact heq.1.le

theorem detailPreferred_map (db : Db) (hostID : Int) :
    (detailPreferred db hostID).map Prod.snd = preferred db hostID := by
  apply preferred_of_argmin
  intro a b hle
  cases Prod.Lex.le_iff.mp hle with
  | inl hlt => exact hlt.le
  | inr heq => exact heq.1.le

/-- The host detail shows the columns of that user. -/
theorem hostPrimaryUser_eq (directory : Directory) (hostID : Int) :
    hostPrimaryUser directory hostID = (detailPreferred directory.db hostID).map (fun row =>
      primaryUser directory row (resolved directory.db hostID)) := by
  rw [hostPrimaryUser, detailUser_eq]

theorem resolved_of_not_shown (directory : Directory) (hostID : Int)
    (h : hostPrimaryUser directory hostID = none) : resolved directory.db hostID = none := by
  have hnone : detailPreferred directory.db hostID = none := Option.map_eq_none_iff.mp h
  rw [resolved, ← detailPreferred_map, hnone]
  rfl

theorem primaryUser_department (directory : Directory) (row : PrimaryUserSource × String)
    (entry : Int × User) :
    (primaryUser directory row (some entry)).department = entry.2.department.getD "" := rfl

theorem showsDepartment_iff (directory : Directory) {department : String} (hne : department ≠ "") :
    ShowsDepartment directory department hostID ↔
      ∃ userID user, IsPrimaryUser directory.db hostID userID user ∧ user.department = some department := by
  constructor
  · rintro ⟨shown, hshown, hdepartment⟩
    rw [hostPrimaryUser_eq] at hshown
    obtain ⟨row, -, rfl⟩ := Option.map_eq_some_iff.mp hshown
    cases hresolved : resolved directory.db hostID with
    | none =>
      rw [hresolved] at hdepartment
      exact absurd hdepartment.symm hne
    | some entry =>
      exists entry.1, entry.2
      constructor
      · exact resolved_iff.mp hresolved
      · rw [hresolved] at hdepartment
        cases huser : entry.2.department with
        | none =>
          rw [primaryUser_department, huser] at hdepartment
          exact absurd hdepartment.symm hne
        | some held =>
          rw [primaryUser_department, huser] at hdepartment
          exact congrArg some hdepartment
  · rintro ⟨userID, user, hprimary, hdepartment⟩
    have hresolved := resolved_iff.mpr hprimary
    cases hrow : detailPreferred directory.db hostID with
    | none =>
      have hnone : preferred directory.db hostID = none := by
        rw [← detailPreferred_map, hrow]
        rfl
      rw [resolved, hnone] at hresolved
      cases hresolved
    | some row =>
      exists primaryUser directory row (some (userID, user))
      constructor
      · rw [hostPrimaryUser_eq, hrow, hresolved]
        rfl
      · rw [primaryUser_department, hdepartment]
        rfl

end Resolvers

theorem isText_trimSpace {text : String} (h : isText text = true) : isText (trimSpace text) = true := by
  rw [isText, List.all_eq_true] at h ⊢
  intro c hc
  apply h
  rw [trimSpace, String.toList_ofList] at hc
  exact (TextPieces.trim_isInfix text.toList).subset hc

theorem dropWhile_blank {l : List Char} (h : l.dropWhile isSpace = l) :
    l.dropWhile (fun c => c == ' ') = l := by
  cases l with
  | nil => rfl
  | cons c cs =>
    apply List.dropWhile_cons_of_neg
    intro hblank
    have hspace : isSpace c = true := by
      rw [beq_iff_eq.mp hblank]
      decide
    rw [List.dropWhile_cons_of_pos hspace] at h
    have hlength := (List.dropWhile_suffix isSpace (l := cs)).length_le
    rw [h, List.length_cons] at hlength
    omega

/-- A value without white space at its ends has no blanks there. -/
theorem btrim_trimSpace (text : String) : btrim (trimSpace text) = trimSpace text := by
  obtain ⟨hfront, hback⟩ := TextPieces.trim_eq_iff.mp (TextPieces.trim_trim text.toList)
  rw [btrim, trimSpace, String.toList_ofList]
  change String.ofList ((((TextPieces.trim text.toList).dropWhile (fun c => c == ' ')).reverse.dropWhile
    (fun c => c == ' ')).reverse) = String.ofList (TextPieces.trim text.toList)
  rw [dropWhile_blank hfront, dropWhile_blank hback, List.reverse_reverse]

theorem trimSpace_kind (kind : DerivedAttribute) :
    trimSpace (DerivedAttribute.text kind) = DerivedAttribute.text kind := by
  cases kind with
  | userDepartment => decide
  | directoryGroup => decide
  | user => decide

theorem ofText_text (kind : DerivedAttribute) :
    LabelModel.DerivedAttribute.ofText (DerivedAttribute.text kind) = some kind := by
  cases kind with
  | userDepartment => rfl
  | directoryGroup => rfl
  | user => rfl

section Create

variable {db : Db} {labelID : Int} {name : LabelName} {kind : DerivedAttribute} {value : String}

theorem requireText_ok {field text : String} (h : Primitives.notBlank text = true) :
    PolicyModel.requireText field text = .ok () := by
  have hne : text ≠ "" := by
    rintro rfl
    cases h
  rw [PolicyModel.requireText, if_neg hne, if_pos h]

theorem notBlank_trimSpace {text : String} (h : Primitives.notBlank text = true) :
    Primitives.notBlank (trimSpace text) = true := by
  rwa [Primitives.notBlank, TextPieces.trimSpace_trimSpace]

theorem normalize_derived (name : LabelName) (kind : DerivedAttribute) (value : String) :
    (derivedMutation name kind value).normalize =
      { name := trimSpace name.text
        criteria := some ⟨DerivedAttribute.text kind, normalizeCriteriaValues [value]⟩
        labelMembershipType := "derived" } := by
  have hdescription : trimSpace "" = "" := by decide
  have htype : trimSpace "derived" = "derived" := by decide
  simp only [LabelMutation.normalize, derivedMutation, Option.map_some, Option.map_none,
    Criteria.normalize, trimSpace_kind, hdescription, htype, if_false, String.reduceEq]

theorem normalizeCriteriaValues_one (h : trimSpace value ≠ "") :
    normalizeCriteriaValues [value] = [trimSpace value] := by
  simp [normalizeCriteriaValues, h]

theorem normalizeCriteriaValues_blank (h : trimSpace value = "") :
    normalizeCriteriaValues [value] = [] := by
  simp [normalizeCriteriaValues, h]

theorem validate_derived (name : LabelName) (kind : DerivedAttribute) (h : trimSpace value ≠ "") :
    (derivedMutation name kind value).normalize.validate = .ok .derived := by
  have hname := notBlank_trimSpace name.notBlank
  have hagain : normalizeCriteriaValues [trimSpace value] ≠ [] := by
    rw [normalizeCriteriaValues_one (by rwa [TextPieces.trimSpace_trimSpace])]
    exact List.cons_ne_nil _ _
  rw [normalize_derived, normalizeCriteriaValues_one h, LabelMutation.validate, requireText_ok hname]
  simp [validateMembershipPairing, LabelMembershipType.ofText, validateDerivedMembership,
    validateCriteria, ofText_text, hagain, bind, Except.bind, pure, Except.pure]

theorem checked_of_ok {mutation : LabelMutation} {t : LabelMembershipType}
    (h : mutation.normalize.validate = .ok t)
    (hstorable : (newLabelWrite mutation.normalize t h).storable = true) :
    mutation.checked = .ok (newLabelWrite mutation.normalize t h) := by
  rw [LabelMutation.checked]
  split
  · rename_i e he
    rw [h] at he
    cases he
  · rename_i t' ht'
    have ht : t = t' := Except.ok.inj (h.symm.trans ht')
    subst ht
    exact if_pos hstorable

theorem checked_of_error {mutation : LabelMutation} {e : Fault}
    (h : mutation.normalize.validate = .error e) : mutation.checked = .error e := by
  rw [LabelMutation.checked]
  split
  · rename_i e' he'
    rw [Except.error.inj (h.symm.trans he')]
  · rename_i t ht
    rw [h] at ht
    cases ht

/-- The row keeps the trimmed value as its criterion. -/
theorem checked_derived (name : LabelName) (kind : DerivedAttribute) (h : trimSpace value ≠ "")
    (htext : isText value = true) :
    ∃ write, (derivedMutation name kind value).checked = .ok write ∧
      write.criteria = some ⟨DerivedAttribute.text kind, [trimSpace value]⟩ ∧
      write.labelMembershipType = .derived := by
  have hkind : isText (DerivedAttribute.text kind) = true := by
    cases kind with
    | userDepartment => decide
    | directoryGroup => decide
    | user => decide
  have hempty : isText "" = true := by decide
  have hvalidate := validate_derived name kind h
  apply Exists.intro (newLabelWrite (derivedMutation name kind value).normalize .derived hvalidate)
  constructor
  · apply checked_of_ok hvalidate
    simp [LabelWrite.storable, newLabelWrite, normalize_derived, normalizeCriteriaValues_one h,
      Criteria.storable, hkind, hempty, isText_trimSpace htext, isText_trimSpace name.isText]
  · constructor
    · simp only [newLabelWrite, normalize_derived, normalizeCriteriaValues_one h]
    · rfl

theorem checked_blank (name : LabelName) (kind : DerivedAttribute) (h : trimSpace value = "") :
    ∃ fault, (derivedMutation name kind value).checked = .error fault := by
  have hname := notBlank_trimSpace name.notBlank
  have hnone : normalizeCriteriaValues [] = [] := rfl
  apply Exists.intro (.invalidInput "derived label values are required")
  apply checked_of_error
  rw [normalize_derived, normalizeCriteriaValues_blank h, LabelMutation.validate, requireText_ok hname]
  simp [validateMembershipPairing, LabelMembershipType.ofText, validateDerivedMembership,
    validateCriteria, ofText_text, hnone, invalid, bind, Except.bind]

/-- A primary user meets the label's criteria. -/
def Meets (db : Db) (kind : DerivedAttribute) (value : String) (hostID : Int) : Prop :=
  ∃ userID user, IsPrimaryUser db hostID userID user ∧
    criteriaMatch db ⟨DerivedAttribute.text kind, [value]⟩ userID user = true

/-- The label's row, and the refresh of its members. -/
def withLabel (db : Db) (labelID : Int) (write : LabelWrite) : Db :=
  { db with labels := db.labels.insert labelID (labelRow write) }

theorem createDerived_of_ok {mutation : LabelMutation} {write : LabelWrite}
    (h : mutation.checked = .ok write) : createDerived db labelID mutation = .ok
      { withLabel db labelID write with
        members := db.members.filter (fun row => decide (row.1 ≠ labelID)) ++
          matching (withLabel db labelID write) { labelID := some labelID } } := by
  rw [createDerived, h]
  rfl

theorem createDerived_of_error {mutation : LabelMutation} {e : Fault} (h : mutation.checked = .error e) :
    createDerived db labelID mutation = .error e := by
  rw [createDerived, h]
  rfl

theorem hasExactly_of_ok {mutation : LabelMutation} {write : LabelWrite}
    (h : mutation.checked = .ok write) (hosts : Int → Prop) :
    HasExactly db labelID mutation hosts ↔
      ∀ hostID, Belongs (withLabel db labelID write) labelID hostID ↔ hosts hostID := by
  have hmembers : ∀ hostID, (labelID, hostID) ∈ (db.members.filter (fun row => decide (row.1 ≠ labelID)) ++
      matching (withLabel db labelID write) { labelID := some labelID }) ↔
      Belongs (withLabel db labelID write) labelID hostID := by
    intro hostID
    rw [List.mem_append, mem_matching, and_iff_right (covers_label.mpr rfl)]
    constructor
    · intro hmem
      cases hmem with
      | inl hold => simp at hold
      | inr hbelongs => exact hbelongs
    · exact Or.inr
  constructor
  · rintro ⟨db', hcreate, hexact⟩ hostID
    rw [createDerived_of_ok h] at hcreate
    rw [← hmembers hostID]
    have heq := Except.ok.inj hcreate
    subst heq
    exact hexact hostID
  · intro hexact
    constructor
    constructor
    · exact createDerived_of_ok h
    · intro hostID
      exact (hmembers hostID).trans (hexact hostID)

theorem belongs_withLabel {write : LabelWrite} {criteria : Criteria} {hostID : Int}
    (hcriteria : write.criteria = some criteria) (htype : write.labelMembershipType = .derived) :
    Belongs (withLabel db labelID write) labelID hostID ↔
      ∃ userID user, IsPrimaryUser db hostID userID user ∧ criteriaMatch db criteria userID user = true := by
  have hmatch : ∀ userID user, labelMatch (withLabel db labelID write) (labelRow write) userID user =
      criteriaMatch db criteria userID user := by
    intro userID user
    rw [labelMatch, labelRow, hcriteria]
    rfl
  constructor
  · rintro ⟨row, hlookup, -, userID, user, hprimary, hmet⟩
    rw [withLabel, AList.lookup_insert] at hlookup
    have hrow := Option.some.inj hlookup
    subst hrow
    rw [hmatch] at hmet
    exact ⟨userID, user, hprimary, hmet⟩
  · rintro ⟨userID, user, hprimary, hmet⟩
    rw [← hmatch] at hmet
    have hderived : isDerived (labelRow write) = true := by
      rw [isDerived, labelRow, htype]
      rfl
    exact ⟨labelRow write, AList.lookup_insert _, hderived, userID, user, hprimary, hmet⟩

/-- The members of the new label are the hosts whose primary user has the trimmed value. -/
theorem hasExactly_iff (h : trimSpace value ≠ "") (htext : isText value = true) (hosts : Int → Prop) :
    HasExactly db labelID (derivedMutation name kind value) hosts ↔
      ∀ hostID, Meets db kind (trimSpace value) hostID ↔ hosts hostID := by
  obtain ⟨write, hwrite, hcriteria, htype⟩ := checked_derived name kind h htext
  rw [hasExactly_of_ok hwrite]
  apply forall_congr'
  intro hostID
  rw [belongs_withLabel hcriteria htype, Meets]

theorem not_hasExactly (h : trimSpace value = "") (hosts : Int → Prop) :
    ¬ HasExactly db labelID (derivedMutation name kind value) hosts := by
  rintro ⟨db', hcreate, -⟩
  obtain ⟨fault, hfault⟩ := checked_blank name kind h
  rw [createDerived_of_error hfault] at hcreate
  cases hcreate

end Create

section Attributes

variable {directory : Directory} {labelID : Int} {name : LabelName}

theorem criteriaValues_trimmed (kind : DerivedAttribute) {value : String} (h : trimSpace value ≠ "") :
    criteriaValues ⟨DerivedAttribute.text kind, [trimSpace value]⟩ = [trimSpace value] := by
  simp [criteriaValues, btrim_trimSpace, h]

theorem meets_department {value : String} (h : trimSpace value ≠ "") (hostID : Int) :
    Meets directory.db .userDepartment (trimSpace value) hostID ↔
      ShowsDepartment directory (trimSpace value) hostID := by
  rw [showsDepartment_iff directory h]
  apply exists_congr
  intro userID
  apply exists_congr
  intro user
  apply and_congr_right
  intro
  rw [criteriaMatch, ofText_text, criteriaValues_trimmed .userDepartment h]
  cases huser : user.department with
  | none => simp [Ne.symm h]
  | some held => simp [eq_comm]

theorem meets_group {value : String} (h : trimSpace value ≠ "") (hostID : Int) :
    Meets directory.db .directoryGroup (trimSpace value) hostID ↔
      ∃ userID user, IsPrimaryUser directory.db hostID userID user ∧
        InGroupNamed directory.db (trimSpace value) userID := by
  apply exists_congr
  intro userID
  apply exists_congr
  intro user
  apply and_congr_right
  intro
  rw [criteriaMatch, ofText_text, criteriaValues_trimmed .directoryGroup h]
  simp only [List.any_eq_true, Bool.and_eq_true, beq_iff_eq, List.contains_eq_mem,
    decide_eq_true_eq, List.mem_singleton]
  constructor
  · rintro ⟨⟨member, key⟩, hmember, ⟨rfl, hkey⟩, hname⟩
    exact ⟨key, hkey, hname, hmember⟩
  · rintro ⟨key, hkey, hname, hmember⟩
    exact ⟨(userID, key), hmember, ⟨rfl, hkey⟩, hname⟩

theorem meets_user {value : String} (h : trimSpace value ≠ "") (hostID : Int) :
    Meets directory.db .user (trimSpace value) hostID ↔
      ∃ userID user, IsPrimaryUser directory.db hostID userID user ∧
        String.ofList (GoText.formatInt userID) = trimSpace value := by
  apply exists_congr
  intro userID
  apply exists_congr
  intro user
  apply and_congr_right
  intro
  rw [criteriaMatch, ofText_text, criteriaValues_trimmed .user h]
  exact List.contains_iff_mem.trans List.mem_singleton

theorem showsGroup_iff {key : Source × String} {hostID : Int} :
    ShowsGroup directory key hostID ↔ ∃ userID user, IsPrimaryUser directory.db hostID userID user ∧
      (userID, key) ∈ directory.db.groupMembers := by
  constructor
  · rintro ⟨⟨userID, user⟩, huser, hmember⟩
    rw [detailUser_eq] at huser
    exact ⟨userID, user, resolved_iff.mp huser, hmember⟩
  · rintro ⟨userID, user, hprimary, hmember⟩
    exists (userID, user)
    rw [detailUser_eq]
    exact ⟨resolved_iff.mpr hprimary, hmember⟩

theorem isPrimaryUser_unique {db : Db} {hostID userID userID' : Int} {user user' : User}
    (h : IsPrimaryUser db hostID userID user) (h' : IsPrimaryUser db hostID userID' user') :
    userID = userID' ∧ user = user' := by
  have heq := (resolved_iff.mpr h).symm.trans (resolved_iff.mpr h')
  exact Prod.mk.inj (Option.some.inj heq)

/-- A group of a provider is the one with its external id. -/
theorem inGroupNamed_self {key : Source × String} (hkey : key ∈ directory.db.groups) (userID : Int) :
    InGroupNamed directory.db key.2 userID ↔ (userID, key) ∈ directory.db.groupMembers := by
  constructor
  · rintro ⟨other, hother, hname, hmember⟩
    have hprovider := (directory.groups key hkey).1
    have hprovider' := (directory.groups other hother).1
    obtain ⟨source, id⟩ := key
    obtain ⟨source', id'⟩ := other
    cases source with
    | sourceLocal => exact absurd rfl hprovider
    | sourceEntra =>
      cases source' with
      | sourceLocal => exact absurd rfl hprovider'
      | sourceEntra =>
        cases hname
        exact hmember
  · intro hmember
    exact ⟨key, hkey, rfl, hmember⟩

theorem isSpace_of_isDigit {c : Char} (h : c.isDigit = true) : isSpace c = false := by
  simp only [Char.isDigit, Bool.and_eq_true, decide_eq_true_eq, ge_iff_le, UInt32.le_iff_toNat_le] at h
  have hlow : 48 ≤ c.toNat := h.1
  have hhigh : c.toNat ≤ 57 := h.2
  simp only [isSpace, Bool.or_eq_false_iff, Bool.and_eq_false_iff, beq_eq_false_iff_ne,
    decide_eq_false_iff_not]
  omega

theorem trimSpace_formatInt {id : Int} (h : 0 ≤ id) :
    trimSpace (String.ofList (GoText.formatInt id)) = String.ofList (GoText.formatInt id) := by
  have hkeep : ∀ l : List Char, (∀ c ∈ l, isSpace c = false) → l.dropWhile isSpace = l := by
    intro l hl
    cases l with
    | nil => rfl
    | cons c cs => exact List.dropWhile_cons_of_neg (by simp [hl c List.mem_cons_self])
  have hdigits : ∀ c ∈ GoText.formatInt id, isSpace c = false := fun c hc =>
    isSpace_of_isDigit (GoText.isDigit_of_mem_formatInt h hc)
  apply TextPieces.trimSpace_eq_iff.mpr
  rw [String.toList_ofList]
  apply TextPieces.trim_eq_iff.mpr
  constructor
  · exact hkeep _ hdigits
  · apply hkeep
    intro c hc
    exact hdigits c (List.mem_reverse.mp hc)

theorem formatInt_ne_empty {id : Int} (h : GoText.IsInt64 id) : String.ofList (GoText.formatInt id) ≠ "" := by
  intro hempty
  have hnil : GoText.formatInt id = [] := by
    rw [← String.toList_ofList (l := GoText.formatInt id), hempty]
    rfl
  have hparse := GoText.parseInt_formatInt h
  rw [hnil] at hparse
  cases hparse

theorem isText_formatInt {id : Int} (h : 0 ≤ id) : isText (String.ofList (GoText.formatInt id)) = true := by
  rw [isText, List.all_eq_true]
  intro c hc
  rw [String.toList_ofList] at hc
  have hspace := GoText.isDigit_of_mem_formatInt h hc
  simp only [Char.isDigit, Bool.and_eq_true, decide_eq_true_eq, ge_iff_le, UInt32.le_iff_toNat_le] at hspace
  have hlow : 48 ≤ c.toNat := hspace.1
  rw [bne_iff_ne]
  omega

theorem formatInt_injective {id id' : Int} (h : GoText.IsInt64 id) (h' : GoText.IsInt64 id')
    (heq : String.ofList (GoText.formatInt id) = String.ofList (GoText.formatInt id')) : id = id' := by
  have hchars : GoText.formatInt id = GoText.formatInt id' := by
    rw [← String.toList_ofList (l := GoText.formatInt id), heq, String.toList_ofList]
  have hparse := GoText.parseInt_formatInt h
  rw [hchars, GoText.parseInt_formatInt h'] at hparse
  exact (Option.some.inj hparse).symm

theorem user_bounds {id : Int} {user : User} (h : directory.db.users.lookup id = some user) :
    0 < id ∧ GoText.IsInt64 id := by
  apply directory.user_ids
  exact AList.lookup_isSome.mp (by rw [h]; rfl)

/-- An id is its own text, so the label of a user is never wrong. -/
theorem user_exact {id : Int} {user : User} (huser : directory.db.users.lookup id = some user) :
    HasExactly directory.db labelID
      (derivedMutation name .user (String.ofList (GoText.formatInt id))) (ShowsUser directory id) := by
  obtain ⟨hpos, hint⟩ := user_bounds huser
  have htrim := trimSpace_formatInt hpos.le
  have hne := formatInt_ne_empty hint
  rw [hasExactly_iff (by rwa [htrim]) (isText_formatInt hpos.le)]
  intro hostID
  rw [meets_user (by rwa [htrim]), htrim, ShowsUser, detailUser_eq]
  constructor
  · rintro ⟨userID, found, hprimary, hsame⟩
    apply Exists.intro (userID, found)
    constructor
    · exact resolved_iff.mpr hprimary
    · obtain ⟨-, -, hlookup, -⟩ := hprimary
      exact formatInt_injective (user_bounds hlookup).2 hint hsame
  · rintro ⟨⟨userID, found⟩, hfound, rfl⟩
    exact ⟨userID, found, resolved_iff.mp hfound, rfl⟩

theorem department_exact {d : String} (hoffered : Offered directory.db d) :
    HasExactly directory.db labelID (derivedMutation name .userDepartment d)
      (ShowsDepartment directory d) ↔
    trimSpace d ≠ "" ∧ (trimSpace d = d ∨
      ¬ DepartmentInUse directory.db d ∧ ¬ DepartmentInUse directory.db (trimSpace d)) := by
  obtain ⟨id, user, hlookup, -, -, hdepartment, hbtrim⟩ := hoffered
  have htext := directory.departments id user d hlookup hdepartment
  have hempty : btrim "" = "" := by simp [btrim]
  have hne : d ≠ "" := by
    intro hd
    rw [hd] at hbtrim
    exact hbtrim hempty
  by_cases hblank : trimSpace d = ""
  · rw [iff_false_left (not_hasExactly hblank _)]
    exact fun h => h.1 hblank
  · rw [hasExactly_iff hblank htext, and_iff_right hblank]
    constructor
    · intro hexact
      by_cases htrim : trimSpace d = d
      · exact Or.inl htrim
      · right
        -- A primary user has one department, so none has either value.
        have hnone : ∀ hostID, ¬ ShowsDepartment directory d hostID := by
          intro hostID hshown
          have hother := (meets_department hblank hostID).mp ((hexact hostID).mpr hshown)
          obtain ⟨shown, hshown, rfl⟩ := hshown
          obtain ⟨shown', hshown', hdepartment'⟩ := hother
          rw [hshown] at hshown'
          cases hshown'
          exact htrim hdepartment'.symm
        constructor
        · rintro ⟨hostID, hused⟩
          exact hnone hostID ((showsDepartment_iff directory hne).mpr hused)
        · rintro ⟨hostID, hused⟩
          have hmeets := (meets_department hblank hostID).mpr ((showsDepartment_iff directory hblank).mpr hused)
          exact hnone hostID ((hexact hostID).mp hmeets)
    · intro hcondition hostID
      rw [meets_department hblank]
      cases hcondition with
      | inl htrim => rw [htrim]
      | inr hunused =>
        rw [showsDepartment_iff directory hne, showsDepartment_iff directory hblank]
        constructor
        · intro hused
          exact absurd ⟨hostID, hused⟩ hunused.2
        · intro hused
          exact absurd ⟨hostID, hused⟩ hunused.1

theorem group_exact {key : Source × String} (hkey : key ∈ directory.db.groups) :
    HasExactly directory.db labelID (derivedMutation name .directoryGroup key.2)
      (ShowsGroup directory key) ↔
    trimSpace key.2 ≠ "" ∧ (trimSpace key.2 = key.2 ∨ SameMembers directory.db key (trimSpace key.2)) := by
  have htext := (directory.groups key hkey).2
  by_cases hblank : trimSpace key.2 = ""
  · rw [iff_false_left (not_hasExactly hblank _)]
    exact fun h => h.1 hblank
  · rw [hasExactly_iff hblank htext, and_iff_right hblank]
    constructor
    · intro hexact
      right
      intro hostID userID user hprimary
      constructor
      · intro hmember
        have hmeets := (hexact hostID).mpr (showsGroup_iff.mpr ⟨userID, user, hprimary, hmember⟩)
        obtain ⟨userID', user', hprimary', hnamed⟩ := (meets_group hblank hostID).mp hmeets
        rwa [(isPrimaryUser_unique hprimary hprimary').1]
      · intro hnamed
        have hmeets := (meets_group hblank hostID).mpr ⟨userID, user, hprimary, hnamed⟩
        obtain ⟨userID', user', hprimary', hmember⟩ := showsGroup_iff.mp ((hexact hostID).mp hmeets)
        rwa [(isPrimaryUser_unique hprimary hprimary').1]
    · intro hcondition hostID
      have hsame : SameMembers directory.db key (trimSpace key.2) := by
        cases hcondition with
        | inl htrim =>
          intro _ userID _ _
          rw [htrim, inGroupNamed_self hkey]
        | inr hsame => exact hsame
      rw [meets_group hblank, showsGroup_iff]
      constructor
      · rintro ⟨userID, user, hprimary, hnamed⟩
        exact ⟨userID, user, hprimary, (hsame hostID userID user hprimary).mpr hnamed⟩
      · rintro ⟨userID, user, hprimary, hmember⟩
        exact ⟨userID, user, hprimary, (hsame hostID userID user hprimary).mp hmember⟩

/-- The statements resolve one user. -/
structure ResolversAgree (directory : Directory) (hostID : Int) : Prop where
  detail : hostPrimaryUser directory hostID = (detailPreferred directory.db hostID).map (fun row =>
    primaryUser directory row (resolved directory.db hostID))
  none_shown : hostPrimaryUser directory hostID = none → resolved directory.db hostID = none
  search : searchUser directory.db hostID = resolved directory.db hostID

/-- When a label made of a value has exactly the hosts that show it. -/
structure LabelsAgree (directory : Directory) (labelID : Int) (name : LabelName) : Prop where
  departments : ∀ d, Offered directory.db d →
    (HasExactly directory.db labelID (derivedMutation name .userDepartment d)
      (ShowsDepartment directory d) ↔
    trimSpace d ≠ "" ∧ (trimSpace d = d ∨
      ¬ DepartmentInUse directory.db d ∧ ¬ DepartmentInUse directory.db (trimSpace d)))
  groups : ∀ key ∈ directory.db.groups,
    (HasExactly directory.db labelID (derivedMutation name .directoryGroup key.2)
      (ShowsGroup directory key) ↔
    trimSpace key.2 ≠ "" ∧
      (trimSpace key.2 = key.2 ∨ SameMembers directory.db key (trimSpace key.2)))
  users : ∀ id user, directory.db.users.lookup id = some user →
    HasExactly directory.db labelID
      (derivedMutation name .user (String.ofList (GoText.formatInt id))) (ShowsUser directory id)

/-- The resolvers agree in every state. A label agrees unless the value it is made of has white
space at an end and someone shows it, or has nothing else. -/
theorem shown_users_have_labels (directory : Directory) :
    (∀ hostID, ResolversAgree directory hostID) ∧
      ∀ labelID name, LabelsAgree directory labelID name := by
  constructor
  · intro hostID
    constructor
    · exact hostPrimaryUser_eq directory hostID
    · exact resolved_of_not_shown directory hostID
    · exact searchUser_eq directory.db hostID
  · intro labelID name
    constructor
    · intro d hoffered
      exact department_exact hoffered
    · intro key hkey
      exact group_exact hkey
    · intro id user huser
      exact user_exact huser

end Attributes

def sampleUser : User where
  email := "ann@example.com"
  source := .sourceEntra
  externalID := some "a1"
  department := some " Eng"

theorem sampleID : GoText.IsInt64 7 := by
  constructor
  · omega
  · omega

def sampleDirectory : Directory where
  db := {
    hosts := [1]
    sources := AList.singleton (1, .manual) "ann@example.com"
    users := AList.singleton 7 sampleUser }
  profiles := fun _ => ⟨"Ann", none⟩
  groupNames := fun _ => ""
  user_ids := by
    intro id hid
    cases List.mem_singleton.mp hid
    exact ⟨by decide, sampleID⟩
  departments := by
    intro id user d huser hdepartment
    have hentry : (⟨id, user⟩ : Sigma (fun _ : Int => User)) ∈ [⟨7, sampleUser⟩] :=
      AList.mem_lookup_iff.mp huser
    cases List.mem_singleton.mp hentry
    cases hdepartment
    decide
  groups := by
    intro key hkey
    cases hkey

def sampleName : LabelName := ⟨"Engineers", by decide, by decide⟩

/-- The offered department loses its blank, and the label has no members. -/
theorem blank_department_loses_its_hosts :
    Offered sampleDirectory.db " Eng" ∧ ShowsDepartment sampleDirectory " Eng" 1 ∧
      ¬ HasExactly sampleDirectory.db 1 (derivedMutation sampleName .userDepartment " Eng")
        (ShowsDepartment sampleDirectory " Eng") := by
  have hprimary : IsPrimaryUser sampleDirectory.db 1 7 sampleUser := resolved_iff.mp (by decide)
  have hoffered : Offered sampleDirectory.db " Eng" :=
    ⟨7, sampleUser, rfl, by decide, rfl, rfl, by decide⟩
  have htrim : trimSpace " Eng" ≠ " Eng" := by decide
  constructor
  · exact hoffered
  · constructor
    · exact (showsDepartment_iff sampleDirectory (by decide)).mpr ⟨7, sampleUser, hprimary, rfl⟩
    · intro hexact
      obtain ⟨-, hcondition⟩ := (department_exact hoffered).mp hexact
      cases hcondition with
      | inl hsame => exact htrim hsame
      | inr hunused => exact hunused.1 ⟨1, 7, sampleUser, hprimary, rfl⟩

end ShownUsers
