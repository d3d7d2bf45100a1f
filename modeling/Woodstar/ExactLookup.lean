import Mathlib.Data.Prod.Lex
import Mathlib.Data.String.Basic
import Woodstar.LikePatterns
import Woodstar.Paging
import Woodstar.Primitives
import Woodstar.TextPieces

/-!
# Exact lookups through the search API

The client looks a title, a label or a package up by searching for its name and
keeping the row with exactly this name. The server's search takes the name as a
pattern of `ILIKE`, in pages, and the client reads at most 8 MiB of a reply.
-/
namespace ExactLookup

open LikePatterns
open Paging
open Primitives (Fault isSpace)
open TextPieces (mem_trim trim trim_isInfix)

abbrev Text := List Char

structure Software where
  id : ℤ
  name : Text
  displayName : Option Text
  description : Text
  category : Text
  developer : Text
  deriving DecidableEq, Repr

structure Label where
  id : ℤ
  name : Text
  description : Text
  deriving DecidableEq, Repr

/-- A row of the package query, joined with its title. -/
structure Package where
  id : ℤ
  software : Software
  version : Text
  installerType : Text
  deriving DecidableEq, Repr

/-- The tables, with what their keys and types promise. -/
structure Repository where
  software : List Software
  labels : List Label
  packages : List Package
  software_ids : (software.map Software.id).Nodup
  software_names : (software.map Software.name).Nodup
  label_ids : (labels.map Label.id).Nodup
  label_names : (labels.map Label.name).Nodup
  package_ids : (packages.map Package.id).Nodup
  package_versions : (packages.map (fun p => (p.software.id, p.version))).Nodup
  package_software : ∀ p ∈ packages, p.software ∈ software
  positive : (∀ a ∈ software, 0 < a.id) ∧ (∀ a ∈ labels, 0 < a.id) ∧ ∀ a ∈ packages, 0 < a.id
  text : (∀ a ∈ software, '\x00' ∉ a.name) ∧ (∀ a ∈ labels, '\x00' ∉ a.name) ∧
    ∀ a ∈ packages, '\x00' ∉ a.version

/-- An API reply outside the success range, or an error of the client's own. -/
inductive Failure where
  | status (fault : Fault)
  | headerFieldsTooLarge
  | requestFailed
  | incompleteDiscoveryPage
  | discoveryExceedsPageLimit
  | ambiguousDiscovery
  | noValidId
  | identityChanged
  | unknownLabel (name : Text)
  | unknownPackage (title version : Text)
  deriving DecidableEq, Repr

/-- `listing.Params`. -/
structure Params where
  q : Text
  pageIndex : ℕ
  pageSize : ℕ
  deriving DecidableEq, Repr

/-- `listing.Normalize`. -/
def Params.normalize (params : Params) : Params where
  q := trim params.q
  pageIndex := params.pageIndex
  pageSize := if params.pageSize = 0 then 50 else params.pageSize

/-- `listing.Validate`. -/
def Params.validate (params : Params) : Except Failure Unit :=
  if 1 ≤ params.pageSize ∧ params.pageSize ≤ 1000 then .ok ()
  else .error (.status (.invalidInput "PageSize"))

/-- `api.ListQueryInput`: pages count from one. -/
def inputParams (q : Text) (page perPage : ℕ) : Params :=
  Params.normalize ⟨q, if 1 < page then page - 1 else 0, perPage⟩

/-- `postgres.ListQuery`: the rows in scope, the columns that are searched and the order. -/
structure ListQuery (ρ O : Type) where
  rows : List ρ
  searched : ρ → List (Option Text)
  key : ρ → O

/-- `column ILIKE $1 OR …`, when there is a search. NULL matches nothing. -/
def searchWhere (F : Folding) (q : Text) (columns : List (Option Text)) : Bool :=
  q.isEmpty || columns.any (fun column => column.any (fun text => F.ilike text (containing q)))

section Server

variable {ρ O : Type} [LinearOrder O]

def ListQuery.found (query : ListQuery ρ O) (F : Folding) (q : Text) : List ρ :=
  query.rows.filter (fun row => searchWhere F q (query.searched row))

/-- `postgres.ListWithCount`: a page of the rows and their number. A parameter that holds NUL
is refused. -/
def ListQuery.listWithCount (query : ListQuery ρ O) (F : Folding)
    (A : Arrangement ρ query.key) (request : ℕ) (params : Params) :
    Except Failure (List ρ × ℕ) := do
  let params := params.normalize
  params.validate
  if '\x00' ∈ params.q then
    throw (.status (.database "invalid byte sequence"))
  let rows := query.found F params.q
  pure (page params.pageIndex params.pageSize (A.rows request rows), rows.length)

/-- The client's `SetResponseBodyLimit(8 << 20)`. -/
def responseBodyLimit : ℕ := 8 <<< 20

/-- The requests and replies of one list as the connection carries them: whether the server
takes the head of a request, which holds the search and the page, and how many bytes of a
reply the client reads. -/
structure Wire (ρ : Type) where
  takes : Text → ℕ → Bool
  bytes : List ρ × ℕ → ℕ

/-- `send`: a head that is too long has no answer of the handler's, and a reply past the limit
is an error of the client's. -/
def Wire.send (wire : Wire ρ) (q : Text) (page : ℕ) (answer : Except Failure (List ρ × ℕ)) :
    Except Failure (List ρ × ℕ) :=
  if wire.takes q page = false then throw .headerFieldsTooLarge
  else do
    let response ← answer
    if responseBodyLimit < wire.bytes response then throw .requestFailed
    else pure response

/-- The loop of `list` over the pages that are left. -/
def collect (fetch : ℕ → Except Failure (List ρ × ℕ)) :
    ℕ → ℕ → List ρ → Except Failure (List ρ)
  | 0, _, _ => throw .discoveryExceedsPageLimit
  | pages + 1, page, items => do
    let response ← fetch page
    let items := items ++ response.1
    if response.2 ≤ items.length then
      pure items
    else if response.1 = [] then
      throw .incompleteDiscoveryPage
    else
      collect fetch pages (page + 1) items

/-- `list`: at most 10000 pages of 1000 rows. -/
def ListQuery.list (query : ListQuery ρ O) (F : Folding) (A : Arrangement ρ query.key)
    (wire : Wire ρ) (q : Text) : Except Failure (List ρ) :=
  collect (fun page => wire.send q page (query.listWithCount F A page (inputParams q page 1000)))
    10000 1 []

/-- The server takes the request for every page of the search, and no page is past the limit. -/
def ListQuery.Passes (query : ListQuery ρ O) (F : Folding) (A : Arrangement ρ query.key)
    (wire : Wire ρ) (q : Text) : Prop :=
  ∀ index, index = 0 ∨ index * 1000 < (query.found F (trim q)).length →
    wire.takes q (index + 1) = true ∧
      wire.bytes (page index 1000 (A.rows 1 (query.found F (trim q))),
        (query.found F (trim q)).length) ≤ responseBodyLimit

end Server

section Queries

variable {K : Type} [LinearOrder K] (F : Folding) (collate : Text → K)

/-- `lower(name)` as the collation compares it. -/
def sortText (text : Text) : K := collate (text.map F.lower)

/-- `softwareListWhere`; the order is `lower(st.name), st.id`. -/
def softwareQuery (repository : Repository) : ListQuery Software (K ×ₗ ℤ) where
  rows := repository.software
  searched row := [some row.name, row.displayName, some row.description, some row.category,
    some row.developer]
  key row := toLex (sortText F collate row.name, row.id)

/-- `labelListWhere`; the order is `lower(l.name), l.id`. -/
def labelQuery (repository : Repository) : ListQuery Label (K ×ₗ ℤ) where
  rows := repository.labels
  searched row := [some row.name, some row.description]
  key row := toLex (sortText F collate row.name, row.id)

/-- `packageListWhere` under one title; the order is `lower(s.name), lower(p.version), p.id`. -/
def packageQuery (repository : Repository) (softwareID : ℤ) :
    ListQuery Package (K ×ₗ (K ×ₗ ℤ)) where
  rows := repository.packages.filter (fun row => softwareID ≤ 0 ∨ row.software.id = softwareID)
  searched row := [some row.version, some row.installerType, some row.software.name,
    row.software.displayName, some row.software.description, some row.software.category,
    some row.software.developer]
  key row := toLex (sortText F collate row.software.name,
    toLex (sortText F collate row.version, row.id))

end Queries

/-- The loop of `FindSoftware` over the rows that the search found. -/
def pickSoftware (name : Text) : List Software → ℤ → Except Failure ℤ
  | [], id => pure id
  | item :: items, id =>
    if item.name ≠ name then pickSoftware name items id
    else if id ≠ 0 then throw .ambiguousDiscovery
    else if item.id ≤ 0 then throw .noValidId
    else pickSoftware name items item.id

/-- The client's connection: its three lists, the packages' one under each title, and the
bytes of a title's own reply. -/
structure Transport where
  software : Wire Software
  labels : Wire Label
  packages : ℤ → Wire Package
  detail : Software → ℕ

/-- `GET /api/munki/software/:id`. -/
def getSoftware (transport : Transport) (repository : Repository) (id : ℤ) :
    Except Failure Software :=
  match repository.software.find? (fun row => row.id = id) with
  | none => throw (.status .notFound)
  | some row =>
    if responseBodyLimit < transport.detail row then throw .requestFailed else pure row

/-- The loop of `PackageReference`. -/
def pickPackage (title : Software) (version : Text) : List Package → ℤ → Except Failure ℤ
  | [], id => pure id
  | item :: items, id =>
    if item.software.id ≠ title.id ∨ item.version ≠ version then pickPackage title version items id
    else if id ≠ 0 then throw .ambiguousDiscovery
    else pickPackage title version items item.id

structure PackageReferenceMutation where
  softwareID : ℤ
  packageID : ℤ
  deriving DecidableEq, Repr

section Client

variable {K : Type} [LinearOrder K] (F : Folding) (collate : Text → K) (repository : Repository)
  (transport : Transport)

def findSoftware (A : Arrangement Software (softwareQuery F collate repository).key)
    (name : Text) : Except Failure (Option Software) := do
  let items ← (softwareQuery F collate repository).list F A transport.software name
  let id ← pickSoftware name items 0
  if id = 0 then
    pure none
  else
    let found ← getSoftware transport repository id
    if found.id ≠ id ∨ found.name ≠ name then
      throw .identityChanged
    pure (some found)

/-- The map of `LabelIDs` as the list of what was added. -/
def labelIDs (A : Arrangement Label (labelQuery F collate repository).key) :
    List Text → List (Text × ℤ) → Except Failure (List (Text × ℤ))
  | [], ids => pure ids
  | name :: names, ids =>
    if ids.any (fun known => known.1 = name) then labelIDs A names ids
    else do
      let items ← (labelQuery F collate repository).list F A transport.labels name
      match items.find? (fun item => item.name = name ∧ 0 < item.id) with
      | none => throw (.unknownLabel name)
      | some item => labelIDs A names ((name, item.id) :: ids)

def packageReference
    (A : ∀ softwareID, Arrangement Package (packageQuery F collate repository softwareID).key)
    (title : Software) (version : Text) : Except Failure PackageReferenceMutation := do
  if version = [] then
    pure ⟨title.id, 0⟩
  else
    let items ← (packageQuery F collate repository title.id).list F (A title.id)
      (transport.packages title.id) version
    let packageID ← pickPackage title version items 0
    if packageID = 0 then
      throw (.unknownPackage title.name version)
    pure ⟨title.id, packageID⟩

end Client

theorem nul_mem_trim (s : Text) : '\x00' ∈ trim s ↔ '\x00' ∈ s :=
  ⟨fun h => (trim_isInfix s).subset h, mem_trim (by decide)⟩

/-- A column without a backslash is found by its own text. -/
theorem searchWhere_self (F : Folding) {column : Text} {columns : List (Option Text)}
    (hmem : some column ∈ columns) (hback : '\\' ∉ column) :
    searchWhere F (trim column) columns = true := by
  have hq : '\\' ∉ trim column := fun h => hback ((trim_isInfix column).subset h)
  have hlike := F.ilike_containing hq (trim_isInfix column)
  rw [searchWhere, Bool.or_eq_true]
  right
  exact List.any_eq_true.mpr ⟨some column, hmem, hlike⟩

section List

variable {ρ O : Type} [LinearOrder O]

/-- The loop ends well exactly when it can fetch every page, and then with all rows. -/
theorem collect_pages (fetch : ℕ → Except Failure (List ρ × ℕ)) (fits : ℕ → Prop)
    (xs ys : List ρ)
    (hok : ∀ index, fits index → fetch (index + 1) = .ok (page index 1000 xs, xs.length))
    (hfail : ∀ index response, ¬fits index → fetch (index + 1) ≠ .ok response)
    (pages index : ℕ) (hpages : 0 < pages) (hall : xs.length ≤ (index + pages) * 1000)
    (hstart : index = 0 ∨ index * 1000 < xs.length) :
    collect fetch pages (index + 1) (xs.take (index * 1000)) = .ok ys ↔
      ys = xs ∧ ∀ i, index ≤ i → i = 0 ∨ i * 1000 < xs.length → fits i := by
  induction pages generalizing index with
  | zero => exact absurd hpages (Nat.lt_irrefl 0)
  | succ pages ih =>
    rw [collect]
    by_cases hfits : fits index
    · rw [hok index hfits]
      simp only [bind, Except.bind, take_append_page]
      by_cases hend : xs.length ≤ (index + 1) * 1000
      · have hwhole : xs.take ((index + 1) * 1000) = xs := List.take_of_length_le hend
        rw [hwhole, if_pos (Nat.le_refl _)]
        constructor
        · intro h
          refine ⟨(Except.ok.inj h).symm, fun i hle hi => ?_⟩
          have hlast : i = index := by omega
          exact hlast ▸ hfits
        · rintro ⟨rfl, -⟩
          rfl
      · have hlen : ¬ xs.length ≤ (xs.take ((index + 1) * 1000)).length := by
          rw [List.length_take]
          omega
        have hpage : page index 1000 xs ≠ [] := page_ne_nil (Nat.succ_pos 999) (by omega)
        rw [if_neg hlen, if_neg hpage]
        have hcount : index + (pages + 1) = index + 1 + pages := by omega
        rw [ih (index + 1) (by omega) (hcount ▸ hall) (by omega)]
        refine and_congr_right fun _ => ⟨fun h i hle hi => ?_, fun h i hle hi => h i (by omega) hi⟩
        rcases Nat.eq_or_lt_of_le hle with rfl | hlt
        · exact hfits
        · exact h i hlt hi
    · constructor
      · intro h
        obtain ⟨response, hresponse, -⟩ := Primitives.bind_eq_ok.mp h
        exact absurd hresponse (hfail index response hfits)
      · intro h
        exact absurd (h.2 index (Nat.le_refl _) hstart) hfits

variable {query : ListQuery ρ O} {F : Folding} {A : Arrangement ρ query.key} {wire : Wire ρ}

theorem send_ok {q : Text} {page : ℕ} {answer : Except Failure (List ρ × ℕ)}
    {response : List ρ × ℕ} : wire.send q page answer = .ok response ↔
      wire.takes q page = true ∧ answer = .ok response ∧
        wire.bytes response ≤ responseBodyLimit := by
  unfold Wire.send
  cases htakes : wire.takes q page with
  | false => exact iff_of_false nofun (fun h => nomatch h.1)
  | true =>
    rw [if_neg (by decide), Primitives.bind_eq_ok]
    constructor
    · rintro ⟨reply, hreply, h⟩
      split at h
      · cases h
      · rename_i hsize
        obtain rfl := Except.ok.inj h
        exact ⟨rfl, hreply, Nat.le_of_not_lt hsize⟩
    · rintro ⟨-, hanswer, hsize⟩
      exact ⟨response, hanswer, if_neg (Nat.not_lt.mpr hsize)⟩

/-- The loop ends with each row that matches exactly once, in the one order of the query, or it
fails because a page does not pass. -/
theorem list_ok (hkey : ∀ a ∈ query.rows, ∀ b ∈ query.rows, query.key a = query.key b → a = b)
    (hsize : query.rows.length ≤ 10000000) {q : Text} (hq : '\x00' ∉ q) (ys : List ρ) :
    query.list F A wire q = .ok ys ↔
      ys = A.rows 1 (query.found F (trim q)) ∧ query.Passes F A wire q := by
  have hperm := A.perm 1 (query.found F (trim q))
  have hlen : (query.found F (trim q)).length ≤ 10000000 :=
    Nat.le_trans (List.length_filter_le _ _) hsize
  have hnul : '\x00' ∉ trim q := fun h => hq ((nul_mem_trim q).mp h)
  have hfetch : ∀ index, query.listWithCount F A (index + 1) (inputParams q (index + 1) 1000) =
      .ok (page index 1000 (A.rows 1 (query.found F (trim q))),
        (query.found F (trim q)).length) := by
    intro index
    have hindex : (if 0 < index then index else 0) = index := by
      split <;> omega
    have hsame : A.rows (index + 1) (query.found F (trim q)) =
        A.rows 1 (query.found F (trim q)) :=
      A.rows_eq (fun a ha b hb => hkey a (List.mem_of_mem_filter ha) b
        (List.mem_of_mem_filter hb)) _ _
    simp [ListQuery.listWithCount, inputParams, Params.normalize, Params.validate,
      TextPieces.trim_trim, hnul, bind, Except.bind, pure, Except.pure, hindex, hsame]
  have hloop := collect_pages
    (fun page => wire.send q page (query.listWithCount F A page (inputParams q page 1000)))
    (fun index => wire.takes q (index + 1) = true ∧
      wire.bytes (page index 1000 (A.rows 1 (query.found F (trim q))),
        (query.found F (trim q)).length) ≤ responseBodyLimit)
    (A.rows 1 (query.found F (trim q))) ys
    (fun index hfits => send_ok.mpr ⟨hfits.1, by rw [hfetch, hperm.length_eq],
      by rw [hperm.length_eq]; exact hfits.2⟩)
    (fun index response hfits h => hfits (by
      obtain ⟨htakes, hanswer, hbytes⟩ := send_ok.mp h
      rw [hfetch] at hanswer
      obtain rfl := Except.ok.inj hanswer
      exact ⟨htakes, hbytes⟩))
    10000 0 (by decide) (by rw [hperm.length_eq]; omega) (.inl rfl)
  rw [Nat.zero_mul, List.take_zero] at hloop
  rw [ListQuery.list, hloop, hperm.length_eq]
  exact and_congr_right fun _ => ⟨fun h index => h index (Nat.zero_le _), fun h i _ => h i⟩

/-- A search for a text that no column can hold is refused. -/
theorem list_nul {q : Text} (hq : '\x00' ∈ q) (xs : List ρ) : query.list F A wire q ≠ .ok xs := by
  have hnul := (nul_mem_trim q).mpr hq
  intro h
  rw [ListQuery.list, collect] at h
  obtain ⟨response, hresponse, -⟩ := Primitives.bind_eq_ok.mp h
  have hanswer := (send_ok.mp hresponse).2.1
  simp [ListQuery.listWithCount, inputParams, Params.normalize, Params.validate,
    TextPieces.trim_trim, hnul, bind, Except.bind, throw, throwThe, MonadExceptOf.throw] at hanswer

end List

theorem pickSoftware_skip {name : Text} {items : List Software} {id : ℤ}
    (h : ∀ item ∈ items, item.name ≠ name) : pickSoftware name items id = .ok id := by
  induction items with
  | nil => rfl
  | cons item items ih =>
    rw [pickSoftware, if_pos (h item List.mem_cons_self)]
    exact ih (fun other hother => h other (List.mem_cons_of_mem item hother))

/-- The loop keeps the one row with the name. -/
theorem pickSoftware_found {name : Text} {items : List Software} {row : Software}
    (hnodup : (items.map Software.name).Nodup) (hmem : row ∈ items) (hname : row.name = name)
    (hpos : 0 < row.id) : pickSoftware name items 0 = .ok row.id := by
  induction items with
  | nil => cases hmem
  | cons item items ih =>
    obtain ⟨hnew, hrest⟩ := List.nodup_cons.mp hnodup
    rw [pickSoftware]
    cases hmem with
    | head =>
      have hskip : ∀ other ∈ items, other.name ≠ name := by
        intro other hother heq
        apply hnew
        rw [hname, ← heq]
        exact List.mem_map_of_mem hother
      rw [if_neg (not_not.mpr hname), if_neg (not_not.mpr rfl), if_neg (by omega)]
      exact pickSoftware_skip hskip
    | tail _ hmem =>
      have hne : item.name ≠ name := by
        intro heq
        apply hnew
        rw [heq, ← hname]
        exact List.mem_map_of_mem hmem
      rw [if_pos hne]
      exact ih hrest hmem

theorem pickPackage_skip {title : Software} {version : Text} {items : List Package} {id : ℤ}
    (h : ∀ item ∈ items, ¬ (item.software.id = title.id ∧ item.version = version)) :
    pickPackage title version items id = .ok id := by
  induction items with
  | nil => rfl
  | cons item items ih =>
    have hskip : item.software.id ≠ title.id ∨ item.version ≠ version :=
      not_and_or.mp (h item List.mem_cons_self)
    rw [pickPackage, if_pos hskip]
    exact ih (fun other hother => h other (List.mem_cons_of_mem item hother))

/-- The loop keeps the one package of the title with the version. -/
theorem pickPackage_found {title : Software} {version : Text} {items : List Package}
    {row : Package} (hnodup : (items.map (fun p => (p.software.id, p.version))).Nodup)
    (hmem : row ∈ items) (htitle : row.software.id = title.id) (hversion : row.version = version) :
    pickPackage title version items 0 = .ok row.id := by
  induction items with
  | nil => cases hmem
  | cons item items ih =>
    obtain ⟨hnew, hrest⟩ := List.nodup_cons.mp hnodup
    rw [pickPackage]
    cases hmem with
    | head =>
      have hskip : ∀ other ∈ items, ¬ (other.software.id = title.id ∧ other.version = version) := by
        rintro other hother ⟨hid, hv⟩
        apply hnew
        apply List.mem_map.mpr
        exists other
        exact ⟨hother, Prod.ext (hid.trans htitle.symm) (hv.trans hversion.symm)⟩
      rw [if_neg (by simp [htitle, hversion]), if_neg (not_not.mpr rfl)]
      exact pickPackage_skip hskip
    | tail _ hmem =>
      have hne : item.software.id ≠ title.id ∨ item.version ≠ version := by
        apply not_and_or.mp
        rintro ⟨hid, hv⟩
        apply hnew
        apply List.mem_map.mpr
        exists row
        exact ⟨hmem, Prod.ext (htitle.trans hid.symm) (hversion.trans hv.symm)⟩
      rw [if_pos hne]
      exact ih hrest hmem

section Lookups

variable {K : Type} [LinearOrder K] (F : Folding) (collate : Text → K) (repository : Repository)
  (transport : Transport)

theorem eq_of_nodup_map {α β : Type} {f : α → β} {xs : List α} (h : (xs.map f).Nodup) {a b : α}
    (ha : a ∈ xs) (hb : b ∈ xs) (heq : f a = f b) : a = b :=
  List.inj_on_of_nodup_map h ha hb heq

/-- The row of a title is found by the search for its name. -/
def SoftwareFound (row : Software) : Prop :=
  searchWhere F (trim row.name) ((softwareQuery F collate repository).searched row) = true

def LabelFound (row : Label) : Prop :=
  searchWhere F (trim row.name) ((labelQuery F collate repository).searched row) = true

def PackageFound (row : Package) : Prop :=
  searchWhere F (trim row.version)
    ((packageQuery F collate repository row.software.id).searched row) = true

theorem softwareList_ok (hsize : repository.software.length ≤ 10000000)
    (A : Arrangement Software (softwareQuery F collate repository).key) {q : Text}
    (hq : '\x00' ∉ q) (xs : List Software) :
    (softwareQuery F collate repository).list F A transport.software q = .ok xs ↔
      xs = A.rows 1 ((softwareQuery F collate repository).found F (trim q)) ∧
        (softwareQuery F collate repository).Passes F A transport.software q := by
  apply list_ok _ hsize hq
  intro a ha b hb heq
  exact eq_of_nodup_map repository.software_ids ha hb (Prod.ext_iff.mp (toLex.injective heq)).2

theorem labelList_ok (hsize : repository.labels.length ≤ 10000000)
    (A : Arrangement Label (labelQuery F collate repository).key) {q : Text}
    (hq : '\x00' ∉ q) (xs : List Label) :
    (labelQuery F collate repository).list F A transport.labels q = .ok xs ↔
      xs = A.rows 1 ((labelQuery F collate repository).found F (trim q)) ∧
        (labelQuery F collate repository).Passes F A transport.labels q := by
  apply list_ok _ hsize hq
  intro a ha b hb heq
  exact eq_of_nodup_map repository.label_ids ha hb (Prod.ext_iff.mp (toLex.injective heq)).2

theorem packageList_ok (hsize : repository.packages.length ≤ 10000000) (softwareID : ℤ)
    (A : Arrangement Package (packageQuery F collate repository softwareID).key) {q : Text}
    (hq : '\x00' ∉ q) (xs : List Package) :
    (packageQuery F collate repository softwareID).list F A (transport.packages softwareID) q =
        .ok xs ↔
      xs = A.rows 1 ((packageQuery F collate repository softwareID).found F (trim q)) ∧
        (packageQuery F collate repository softwareID).Passes F A (transport.packages softwareID)
          q := by
  apply list_ok _ (Nat.le_trans (List.length_filter_le _ _) hsize) hq
  intro a ha b hb heq
  have hlex := (Prod.ext_iff.mp (toLex.injective heq)).2
  exact eq_of_nodup_map repository.package_ids (List.mem_of_mem_filter ha)
    (List.mem_of_mem_filter hb) (Prod.ext_iff.mp (toLex.injective hlex)).2

theorem getSoftware_eq {row : Software} (hmem : row ∈ repository.software) :
    getSoftware transport repository row.id =
      if responseBodyLimit < transport.detail row then .error .requestFailed else .ok row := by
  have hfind : repository.software.find? (fun other => other.id = row.id) = some row := by
    cases hf : repository.software.find? (fun other => other.id = row.id) with
    | none =>
      have hne := List.find?_eq_none.mp hf row hmem
      simp at hne
    | some other =>
      have hid := List.find?_some hf
      simp only [decide_eq_true_eq] at hid
      rw [eq_of_nodup_map repository.software_ids (List.mem_of_find?_eq_some hf) hmem hid]
  rw [getSoftware, hfind]
  rfl

theorem find_name {name : Text} {row : Software} (hmem : row ∈ repository.software)
    (hname : row.name = name) :
    repository.software.find? (fun other => other.name = name) = some row := by
  cases hf : repository.software.find? (fun other => other.name = name) with
  | none =>
    have hne := List.find?_eq_none.mp hf row hmem
    simp [hname] at hne
  | some other =>
    have hother := List.find?_some hf
    simp only [decide_eq_true_eq] at hother
    rw [eq_of_nodup_map repository.software_names (List.mem_of_find?_eq_some hf) hmem
      (hother.trans hname.symm)]

theorem mem_softwareRows (A : Arrangement Software (softwareQuery F collate repository).key)
    {q : Text} {row : Software} :
    row ∈ A.rows 1 ((softwareQuery F collate repository).found F q) ↔
      row ∈ repository.software ∧
        searchWhere F q ((softwareQuery F collate repository).searched row) = true := by
  rw [(A.perm 1 _).mem_iff, ListQuery.found, List.mem_filter]
  rfl

/-- What `FindSoftware` makes of the rows that the search found. -/
theorem findSoftware_eq (hsize : repository.software.length ≤ 10000000)
    (A : Arrangement Software (softwareQuery F collate repository).key) {name : Text}
    (hnul : '\x00' ∉ name)
    (hpass : (softwareQuery F collate repository).Passes F A transport.software name) :
    findSoftware F collate repository transport A name =
      (pickSoftware name (A.rows 1 ((softwareQuery F collate repository).found F (trim name))) 0 >>=
        fun id =>
          if id = 0 then pure none
          else do
            let found ← getSoftware transport repository id
            if found.id ≠ id ∨ found.name ≠ name then
              throw .identityChanged
            pure (some found)) := by
  rw [findSoftware, (softwareList_ok F collate repository transport hsize A hnul _).mpr
    ⟨rfl, hpass⟩]
  rfl

theorem findSoftware_missed (hsize : repository.software.length ≤ 10000000)
    (A : Arrangement Software (softwareQuery F collate repository).key) {name : Text}
    (hnul : '\x00' ∉ name)
    (hpass : (softwareQuery F collate repository).Passes F A transport.software name)
    (hmiss : ∀ row ∈ repository.software, row.name = name → ¬SoftwareFound F collate repository row) :
    findSoftware F collate repository transport A name = .ok none := by
  rw [findSoftware_eq F collate repository transport hsize A hnul hpass, pickSoftware_skip]
  · rfl
  · intro row hrow hname
    obtain ⟨hin, hwhere⟩ := (mem_softwareRows F collate repository A).mp hrow
    apply hmiss row hin hname
    rw [SoftwareFound, hname]
    exact hwhere

theorem findSoftware_found (hsize : repository.software.length ≤ 10000000)
    (A : Arrangement Software (softwareQuery F collate repository).key) {row : Software}
    (hnul : '\x00' ∉ row.name)
    (hpass : (softwareQuery F collate repository).Passes F A transport.software row.name)
    (hrow : row ∈ repository.software) (hfound : SoftwareFound F collate repository row) :
    findSoftware F collate repository transport A row.name =
      if responseBodyLimit < transport.detail row then .error .requestFailed
      else .ok (some row) := by
  have hpos := repository.positive.1 row hrow
  have hnames : ((A.rows 1 ((softwareQuery F collate repository).found F (trim row.name))).map
      Software.name).Nodup := by
    apply ((A.perm 1 _).map Software.name).nodup_iff.mpr
    exact (List.Sublist.map _ List.filter_sublist).nodup repository.software_names
  have hin := (mem_softwareRows F collate repository A).mpr ⟨hrow, hfound⟩
  rw [findSoftware_eq F collate repository transport hsize A hnul hpass,
    pickSoftware_found hnames hin rfl hpos]
  simp only [bind, Except.bind]
  rw [if_neg (by omega), getSoftware_eq repository transport hrow]
  by_cases hlong : responseBodyLimit < transport.detail row
  · rw [if_pos hlong, if_pos hlong]
  · rw [if_neg hlong, if_neg hlong]
    simp [pure, Except.pure]

/-- `FindSoftware` is right about a name exactly when the search's pages pass, and the search
finds its row and the row's own reply passes. -/
theorem findSoftware_iff (hsize : repository.software.length ≤ 10000000)
    (A : Arrangement Software (softwareQuery F collate repository).key) (name : Text) :
    findSoftware F collate repository transport A name =
        .ok (repository.software.find? (fun row => row.name = name)) ↔
      '\x00' ∉ name ∧ (softwareQuery F collate repository).Passes F A transport.software name ∧
        ∀ row ∈ repository.software, row.name = name →
          SoftwareFound F collate repository row ∧ transport.detail row ≤ responseBodyLimit := by
  by_cases hready : '\x00' ∉ name ∧
      (softwareQuery F collate repository).Passes F A transport.software name
  · obtain ⟨hnul, hpass⟩ := hready
    by_cases hex : ∃ row ∈ repository.software, row.name = name
    · obtain ⟨row, hrow, rfl⟩ := hex
      have hunique : ∀ other ∈ repository.software, other.name = row.name → other = row :=
        fun other hother => eq_of_nodup_map repository.software_names hother hrow
      have hconditions : ('\x00' ∉ row.name ∧
          (softwareQuery F collate repository).Passes F A transport.software row.name ∧
          ∀ other ∈ repository.software, other.name = row.name →
            SoftwareFound F collate repository other ∧
              transport.detail other ≤ responseBodyLimit) ↔
          SoftwareFound F collate repository row ∧ transport.detail row ≤ responseBodyLimit := by
        constructor
        · exact fun h => h.2.2 row hrow rfl
        · exact fun h => ⟨hnul, hpass, fun other hother hname => hunique other hother hname ▸ h⟩
      rw [hconditions, find_name repository hrow rfl]
      by_cases hfound : SoftwareFound F collate repository row
      · rw [findSoftware_found F collate repository transport hsize A hnul hpass hrow hfound]
        split
        · exact iff_of_false nofun (fun h => by omega)
        · exact iff_of_true rfl ⟨hfound, by omega⟩
      · rw [findSoftware_missed F collate repository transport hsize A hnul hpass
          (fun other hother hname => hunique other hother hname ▸ hfound)]
        exact iff_of_false nofun (fun h => hfound h.1)
    · have hnone : repository.software.find? (fun row => row.name = name) = none := by
        apply List.find?_eq_none.mpr
        intro row hrow heq
        exact hex ⟨row, hrow, of_decide_eq_true heq⟩
      have hmiss : ∀ row ∈ repository.software, row.name ≠ name :=
        fun row hrow hname => hex ⟨row, hrow, hname⟩
      rw [hnone, findSoftware_missed F collate repository transport hsize A hnul hpass
        (fun row hrow hname => absurd hname (hmiss row hrow))]
      exact iff_of_true rfl ⟨hnul, hpass, fun row hrow hname => absurd hname (hmiss row hrow)⟩
  · constructor
    · intro h
      obtain ⟨xs, hxs, -⟩ := Primitives.bind_eq_ok.mp h
      have hnul : '\x00' ∉ name := fun hin => list_nul hin xs hxs
      exact absurd ⟨hnul, ((softwareList_ok F collate repository transport hsize A hnul xs).mp
        hxs).2⟩ hready
    · exact fun h => absurd ⟨h.1, h.2.1⟩ hready

theorem mem_packageRows {softwareID : ℤ} (hid : 0 < softwareID)
    (A : Arrangement Package (packageQuery F collate repository softwareID).key) {q : Text} {row : Package} :
    row ∈ A.rows 1 ((packageQuery F collate repository softwareID).found F q) ↔
      (row ∈ repository.packages ∧ row.software.id = softwareID) ∧
        searchWhere F q ((packageQuery F collate repository softwareID).searched row) = true := by
  have hscope : (softwareID ≤ 0 ∨ row.software.id = softwareID) ↔ row.software.id = softwareID :=
    or_iff_right (by omega)
  rw [(A.perm 1 _).mem_iff, ListQuery.found, List.mem_filter, packageQuery, List.mem_filter, decide_eq_true_eq,
    hscope]

section

variable (A : ∀ softwareID, Arrangement Package (packageQuery F collate repository softwareID).key)
  {title : Software} {row : Package}

/-- What `PackageReference` makes of the rows that the search found. -/
theorem packageReference_eq (hsize : repository.packages.length ≤ 10000000) (hrow : row ∈ repository.packages)
    (hversion : row.version ≠ [])
    (hpass : (packageQuery F collate repository title.id).Passes F (A title.id)
      (transport.packages title.id) row.version) :
    packageReference F collate repository transport A title row.version =
      (pickPackage title row.version ((A title.id).rows 1
          ((packageQuery F collate repository title.id).found F (trim row.version))) 0 >>= fun packageID => do
        if packageID = 0 then
          throw (.unknownPackage title.name row.version)
        pure ⟨title.id, packageID⟩) := by
  rw [packageReference, if_neg hversion, (packageList_ok F collate repository transport hsize title.id (A title.id)
    (repository.text.2.2 row hrow) _).mpr ⟨rfl, hpass⟩]
  rfl

theorem packageReference_missed (hsize : repository.packages.length ≤ 10000000) (hrow : row ∈ repository.packages)
    (htitle : row.software.id = title.id) (hversion : row.version ≠ [])
    (hpass : (packageQuery F collate repository title.id).Passes F (A title.id)
      (transport.packages title.id) row.version) (hmiss : ¬PackageFound F collate repository row) :
    packageReference F collate repository transport A title row.version =
      .error (.unknownPackage title.name row.version) := by
  have htitlepos : 0 < title.id := htitle ▸ repository.positive.1 _ (repository.package_software row hrow)
  rw [packageReference_eq F collate repository transport A hsize hrow hversion hpass, pickPackage_skip]
  · rfl
  · rintro other hother ⟨hid, hv⟩
    obtain ⟨⟨hin, -⟩, hwhere⟩ := (mem_packageRows F collate repository htitlepos (A title.id)).mp hother
    have hkey : (other.software.id, other.version) = (row.software.id, row.version) :=
      Prod.ext (hid.trans htitle.symm) hv
    rw [eq_of_nodup_map repository.package_versions hin hrow hkey] at hwhere
    exact hmiss hwhere

theorem packageReference_found (hsize : repository.packages.length ≤ 10000000) (hrow : row ∈ repository.packages)
    (htitle : row.software.id = title.id) (hversion : row.version ≠ [])
    (hpass : (packageQuery F collate repository title.id).Passes F (A title.id)
      (transport.packages title.id) row.version) (hfound : PackageFound F collate repository row) :
    packageReference F collate repository transport A title row.version = .ok ⟨title.id, row.id⟩ := by
  have hpos := repository.positive.2.2 row hrow
  have htitlepos : 0 < title.id := htitle ▸ repository.positive.1 _ (repository.package_software row hrow)
  have hversions : (((A title.id).rows 1 ((packageQuery F collate repository title.id).found F
      (trim row.version))).map (fun p => (p.software.id, p.version))).Nodup := by
    apply (((A title.id).perm 1 _).map (fun p : Package => (p.software.id, p.version))).nodup_iff.mpr
    apply List.Nodup.sublist _ repository.package_versions
    exact List.Sublist.map _ (List.filter_sublist.trans List.filter_sublist)
  have hin := (mem_packageRows F collate repository htitlepos (A title.id)).mpr ⟨⟨hrow, htitle⟩, hfound⟩
  rw [packageReference_eq F collate repository transport A hsize hrow hversion hpass,
    pickPackage_found hversions hin htitle rfl]
  simp only [bind, Except.bind]
  rw [if_neg (by omega)]
  rfl

/-- `PackageReference` finds a package of the title exactly when the pages of the search pass
and the search finds its row. -/
theorem packageReference_iff (hsize : repository.packages.length ≤ 10000000) (hrow : row ∈ repository.packages)
    (htitle : row.software.id = title.id) (hversion : row.version ≠ []) :
    packageReference F collate repository transport A title row.version =
        .ok ⟨title.id, row.id⟩ ↔
      (packageQuery F collate repository title.id).Passes F (A title.id)
        (transport.packages title.id) row.version ∧ PackageFound F collate repository row := by
  by_cases hpass : (packageQuery F collate repository title.id).Passes F (A title.id)
      (transport.packages title.id) row.version
  · rw [iff_true_intro hpass, true_and]
    by_cases hfound : PackageFound F collate repository row
    · exact iff_of_true
        (packageReference_found F collate repository transport A hsize hrow htitle hversion hpass hfound) hfound
    · rw [packageReference_missed F collate repository transport A hsize hrow htitle hversion hpass hfound]
      exact iff_of_false nofun hfound
  · constructor
    · intro h
      rw [packageReference, if_neg hversion] at h
      obtain ⟨xs, hxs, -⟩ := Primitives.bind_eq_ok.mp h
      exact absurd ((packageList_ok F collate repository transport hsize title.id (A title.id)
        (repository.text.2.2 row hrow) xs).mp hxs).2 hpass
    · exact fun h => absurd h.1 hpass

end

/-- The entries of the map are labels. -/
def Known (ids : List (Text × ℤ)) : Prop :=
  ∀ e ∈ ids, ∃ row ∈ repository.labels, row.name = e.1 ∧ row.id = e.2

omit [LinearOrder K] in
/-- The loop over what the search for a label found. -/
theorem find_label {xs : List Label} {name : Text} {row : Label}
    (hperm : xs.Perm ((labelQuery F collate repository).found F (trim name)))
    (hrow : row ∈ repository.labels) (hname : row.name = name) :
    xs.find? (fun item => item.name = name ∧ 0 < item.id) =
      if searchWhere F (trim name) ((labelQuery F collate repository).searched row) = true
      then some row else none := by
  have hmem : ∀ other, other ∈ xs ↔ other ∈ repository.labels ∧ searchWhere F (trim name)
      ((labelQuery F collate repository).searched other) = true := by
    intro other
    rw [hperm.mem_iff, ListQuery.found, List.mem_filter]
    rfl
  have hunique : ∀ other ∈ repository.labels, other.name = name → other = row := by
    intro other hother heq
    exact eq_of_nodup_map repository.label_names hother hrow (heq.trans hname.symm)
  cases hf : xs.find? (fun item => item.name = name ∧ 0 < item.id) with
  | some other =>
    have hother := List.find?_some hf
    simp only [decide_eq_true_eq] at hother
    obtain ⟨hin, hwhere⟩ := (hmem other).mp (List.mem_of_find?_eq_some hf)
    have hsame := hunique other hin hother.1
    rw [hsame] at hwhere ⊢
    rw [if_pos hwhere]
  | none =>
    rw [if_neg]
    intro hwhere
    have hne := List.find?_eq_none.mp hf row ((hmem row).mpr ⟨hrow, hwhere⟩)
    exact hne (decide_eq_true ⟨hname, repository.positive.2.1 row hrow⟩)

/-- What the loop of `LabelIDs` needs of a label: the pages of its search pass, and its row is
found. -/
def LabelResolved (A : Arrangement Label (labelQuery F collate repository).key) (row : Label) :
    Prop :=
  (labelQuery F collate repository).Passes F A transport.labels row.name ∧
    LabelFound F collate repository row

theorem labelIDs_ok (hsize : repository.labels.length ≤ 10000000)
    (A : Arrangement Label (labelQuery F collate repository).key) (names : List Text)
    {ids : List (Text × ℤ)} (hknown : Known repository ids)
    (hall : ∀ name ∈ names, ∃ row ∈ repository.labels, row.name = name ∧
      LabelResolved F collate repository transport A row) :
    ∃ ids', labelIDs F collate repository transport A names ids = .ok ids' ∧
      Known repository ids' ∧ (∀ e ∈ ids, e ∈ ids') ∧ ∀ name ∈ names, ∃ e ∈ ids', e.1 = name := by
  induction names generalizing ids with
  | nil =>
    exists ids
    exact ⟨rfl, hknown, fun e he => he, fun name hname => by cases hname⟩
  | cons name names ih =>
    have hrest : ∀ other ∈ names, ∃ row ∈ repository.labels, row.name = other ∧
        LabelResolved F collate repository transport A row :=
      fun other hother => hall other (List.mem_cons_of_mem name hother)
    by_cases hold : ids.any (fun known => known.1 = name) = true
    · obtain ⟨ids', hok, hknown', hsub, hnames⟩ := ih hknown hrest
      exists ids'
      obtain ⟨e, he, heq⟩ := List.any_eq_true.mp hold
      constructor
      · rw [labelIDs, if_pos hold]
        exact hok
      · constructor
        · exact hknown'
        · constructor
          · exact hsub
          · intro other hother
            cases hother with
            | head => exact ⟨e, hsub e he, of_decide_eq_true heq⟩
            | tail _ hother => exact hnames other hother
    · obtain ⟨row, hrow, rfl, hpass, hfound⟩ := hall name List.mem_cons_self
      have hnul := repository.text.2.1 row hrow
      have hlist := (labelList_ok F collate repository transport hsize A hnul _).mpr ⟨rfl, hpass⟩
      have hpick := find_label F collate repository (A.perm 1 _) hrow rfl
      rw [LabelFound] at hfound
      rw [if_pos hfound] at hpick
      have hadded : Known repository ((row.name, row.id) :: ids) := by
        intro e he
        cases he with
        | head => exact ⟨row, hrow, rfl, rfl⟩
        | tail _ he => exact hknown e he
      obtain ⟨ids', hok, hknown', hsub, hnames⟩ := ih hadded hrest
      exists ids'
      constructor
      · rw [labelIDs, if_neg hold, hlist]
        simp only [bind, Except.bind, hpick]
        exact hok
      · constructor
        · exact hknown'
        · constructor
          · intro e he
            exact hsub e (List.mem_cons_of_mem _ he)
          · intro other hother
            cases hother with
            | head => exact ⟨(row.name, row.id), hsub _ List.mem_cons_self, rfl⟩
            | tail _ hother => exact hnames other hother

/-- The loop passes a new name by only when its label resolves. -/
theorem resolved_of_step (hsize : repository.labels.length ≤ 10000000)
    (A : Arrangement Label (labelQuery F collate repository).key) {row : Label}
    (hrow : row ∈ repository.labels) {xs : List Label}
    (hxs : (labelQuery F collate repository).list F A transport.labels row.name = .ok xs)
    {item : Label} (hpick : xs.find? (fun item => item.name = row.name ∧ 0 < item.id) = some item) :
    LabelResolved F collate repository transport A row := by
  have hnul := repository.text.2.1 row hrow
  obtain ⟨rfl, hpass⟩ := (labelList_ok F collate repository transport hsize A hnul xs).mp hxs
  have hfind := find_label F collate repository (A.perm 1 _) hrow rfl
  rw [hpick] at hfind
  by_cases hfound : LabelFound F collate repository row
  · exact ⟨hpass, hfound⟩
  · have hwhere := hfound
    rw [LabelFound] at hwhere
    rw [if_neg hwhere] at hfind
    cases hfind

theorem labelIDs_resolved (hsize : repository.labels.length ≤ 10000000)
    (A : Arrangement Label (labelQuery F collate repository).key) (names : List Text)
    {ids ids' : List (Text × ℤ)}
    (hok : labelIDs F collate repository transport A names ids = .ok ids')
    (hids : ∀ e ∈ ids, ∀ row ∈ repository.labels, row.name = e.1 →
      LabelResolved F collate repository transport A row) :
    ∀ row ∈ repository.labels, row.name ∈ names →
      LabelResolved F collate repository transport A row := by
  induction names generalizing ids with
  | nil =>
    intro row _ hmem
    cases hmem
  | cons name names ih =>
    rw [labelIDs] at hok
    by_cases hold : ids.any (fun known => known.1 = name) = true
    · rw [if_pos hold] at hok
      obtain ⟨e, he, heq⟩ := List.any_eq_true.mp hold
      intro row hrow hmem
      cases List.mem_cons.mp hmem with
      | inl hname => exact hids e he row hrow (hname.trans (of_decide_eq_true heq).symm)
      | inr hmem => exact ih hok hids row hrow hmem
    · rw [if_neg hold] at hok
      obtain ⟨xs, hxs, hok⟩ := Primitives.bind_eq_ok.mp hok
      cases hfind : xs.find? (fun item => item.name = name ∧ 0 < item.id) with
      | none =>
        rw [hfind] at hok
        cases hok
      | some item =>
        rw [hfind] at hok
        have hnamed : ∀ row ∈ repository.labels, row.name = name →
            LabelResolved F collate repository transport A row := by
          rintro row hrow rfl
          exact resolved_of_step F collate repository transport hsize A hrow hxs hfind
        have hnew : ∀ e ∈ (name, item.id) :: ids, ∀ row ∈ repository.labels, row.name = e.1 →
            LabelResolved F collate repository transport A row := by
          intro e he row hrow heq
          cases he with
          | head => exact hnamed row hrow heq
          | tail _ he => exact hids e he row hrow heq
        intro row hrow hmem
        cases List.mem_cons.mp hmem with
        | inl hname => exact hnamed row hrow hname
        | inr hmem => exact ih hok hnew row hrow hmem

/-- `LabelIDs` resolves existing names exactly when the searches pass and find all their rows. -/
theorem labelIDs_iff (hsize : repository.labels.length ≤ 10000000)
    (A : Arrangement Label (labelQuery F collate repository).key) {names : List Text}
    (hexist : ∀ name ∈ names, ∃ row ∈ repository.labels, row.name = name) :
    (∃ ids, labelIDs F collate repository transport A names [] = .ok ids ∧
        ∀ row ∈ repository.labels, row.name ∈ names →
          (ids.find? (fun e => e.1 = row.name)).map (·.2) = some row.id) ↔
      ∀ row ∈ repository.labels, row.name ∈ names →
        LabelResolved F collate repository transport A row := by
  constructor
  · rintro ⟨ids, hok, -⟩
    apply labelIDs_resolved F collate repository transport hsize A names hok
    intro e he
    cases he
  · intro hresolved
    have hall : ∀ name ∈ names, ∃ row ∈ repository.labels, row.name = name ∧
        LabelResolved F collate repository transport A row := by
      intro name hmem
      obtain ⟨row, hrow, hname⟩ := hexist name hmem
      exact ⟨row, hrow, hname, hresolved row hrow (hname ▸ hmem)⟩
    have hnone : Known repository [] := by
      intro e he
      cases he
    obtain ⟨ids, hok, hknown, -, hnames⟩ :=
      labelIDs_ok F collate repository transport hsize A names hnone hall
    exists ids
    constructor
    · exact hok
    · intro row hrow hmem
      obtain ⟨e, he, hname⟩ := hnames row.name hmem
      cases hfind : ids.find? (fun e => e.1 = row.name) with
      | none =>
        have hne := List.find?_eq_none.mp hfind e he
        exact absurd (decide_eq_true hname) hne
      | some e' =>
        have hname' := List.find?_some hfind
        simp only [decide_eq_true_eq] at hname'
        obtain ⟨other, hother, hsame, hid⟩ := hknown e' (List.mem_of_find?_eq_some hfind)
        have heq := eq_of_nodup_map repository.label_names hother hrow (hsame.trans hname')
        rw [Option.map_some, ← hid, heq]

/-- What the lookups and the list loop do with a repository that stays as it is. -/
structure ExactLookups : Prop where
  /-- The list loop ends with every row that matches, once, or because a page does not pass. -/
  softwareList : ∀ (A : Arrangement Software (softwareQuery F collate repository).key) (q : Text),
    '\x00' ∉ q →
      (∀ xs, (softwareQuery F collate repository).list F A transport.software q = .ok xs →
        xs.Perm ((softwareQuery F collate repository).found F (trim q))) ∧
      ((∃ xs, (softwareQuery F collate repository).list F A transport.software q = .ok xs) ↔
        (softwareQuery F collate repository).Passes F A transport.software q)
  labelList : ∀ (A : Arrangement Label (labelQuery F collate repository).key) (q : Text),
    '\x00' ∉ q →
      (∀ xs, (labelQuery F collate repository).list F A transport.labels q = .ok xs →
        xs.Perm ((labelQuery F collate repository).found F (trim q))) ∧
      ((∃ xs, (labelQuery F collate repository).list F A transport.labels q = .ok xs) ↔
        (labelQuery F collate repository).Passes F A transport.labels q)
  packageList : ∀ softwareID
    (A : Arrangement Package (packageQuery F collate repository softwareID).key) (q : Text),
    '\x00' ∉ q →
      (∀ xs, (packageQuery F collate repository softwareID).list F A
          (transport.packages softwareID) q = .ok xs →
        xs.Perm ((packageQuery F collate repository softwareID).found F (trim q))) ∧
      ((∃ xs, (packageQuery F collate repository softwareID).list F A
          (transport.packages softwareID) q = .ok xs) ↔
        (packageQuery F collate repository softwareID).Passes F A (transport.packages softwareID) q)
  findSoftware : ∀ A name, findSoftware F collate repository transport A name =
      .ok (repository.software.find? (fun row => row.name = name)) ↔
    '\x00' ∉ name ∧ (softwareQuery F collate repository).Passes F A transport.software name ∧
      ∀ row ∈ repository.software, row.name = name →
        SoftwareFound F collate repository row ∧ transport.detail row ≤ responseBodyLimit
  labelIDs : ∀ A names, (∀ name ∈ names, ∃ row ∈ repository.labels, row.name = name) →
    ((∃ ids, labelIDs F collate repository transport A names [] = .ok ids ∧
        ∀ row ∈ repository.labels, row.name ∈ names →
          (ids.find? (fun e => e.1 = row.name)).map (·.2) = some row.id) ↔
      ∀ row ∈ repository.labels, row.name ∈ names →
        (labelQuery F collate repository).Passes F A transport.labels row.name ∧
          LabelFound F collate repository row)
  packageReference : ∀ A (title : Software), ∀ row ∈ repository.packages,
    row.software.id = title.id → row.version ≠ [] →
      (packageReference F collate repository transport A title row.version =
          .ok ⟨title.id, row.id⟩ ↔
        (packageQuery F collate repository title.id).Passes F (A title.id)
          (transport.packages title.id) row.version ∧ PackageFound F collate repository row)
  /-- Texts without a backslash are always found. -/
  plainSoftware : ∀ row ∈ repository.software, '\\' ∉ row.name →
    SoftwareFound F collate repository row
  plainLabels : ∀ row ∈ repository.labels, '\\' ∉ row.name → LabelFound F collate repository row
  plainPackages : ∀ row ∈ repository.packages, '\\' ∉ row.version →
    PackageFound F collate repository row

/-- From the loop's result to its two laws. -/
theorem list_laws {ρ O : Type} [LinearOrder O] {query : ListQuery ρ O} {A : Arrangement ρ query.key}
    {wire : Wire ρ} {q : Text}
    (hlist : ∀ xs, query.list F A wire q = .ok xs ↔
      xs = A.rows 1 (query.found F (trim q)) ∧ query.Passes F A wire q) :
    (∀ xs, query.list F A wire q = .ok xs → xs.Perm (query.found F (trim q))) ∧
      ((∃ xs, query.list F A wire q = .ok xs) ↔ query.Passes F A wire q) := by
  constructor
  · intro xs hxs
    obtain ⟨rfl, -⟩ := (hlist xs).mp hxs
    exact A.perm 1 _
  · constructor
    · rintro ⟨xs, hxs⟩
      exact ((hlist xs).mp hxs).2
    · exact fun hpass => ⟨_, (hlist _).mpr ⟨rfl, hpass⟩⟩

/-- The lookups are exact for the rows that the search finds by their own text, when the
replies pass the client's limit, and for no others. -/
theorem lookups_exact_iff (hsoftware : repository.software.length ≤ 10000000)
    (hlabels : repository.labels.length ≤ 10000000)
    (hpackages : repository.packages.length ≤ 10000000) :
    ExactLookups F collate repository transport := by
  constructor
  · exact fun A q hq =>
      list_laws F (softwareList_ok F collate repository transport hsoftware A hq)
  · exact fun A q hq => list_laws F (labelList_ok F collate repository transport hlabels A hq)
  · exact fun softwareID A q hq =>
      list_laws F (packageList_ok F collate repository transport hpackages softwareID A hq)
  · exact findSoftware_iff F collate repository transport hsoftware
  · exact fun A names => labelIDs_iff F collate repository transport hlabels A
  · exact fun A title row => packageReference_iff F collate repository transport A hpackages
  · exact fun row _ => searchWhere_self F List.mem_cons_self
  · exact fun row _ => searchWhere_self F List.mem_cons_self
  · exact fun row _ => searchWhere_self F List.mem_cons_self

end Lookups

/-- Lower case of ASCII letters. -/
def asciiFolding : Folding where
  lower := Char.toLower
  percent := by decide
  backslash := by
    intro c h
    change (if h : c.val ≥ 'A'.val ∧ c.val ≤ 'Z'.val then _ else c) = '\\' at h
    split at h
    · rename_i hupper
      have hval := congrArg Char.val h
      simp only [UInt32.le_iff_toNat_le, ge_iff_le] at hupper
      have hnat := congrArg UInt32.toNat hval
      simp at hnat hupper
      omega
    · exact h

def backslashTitle : Software := ⟨1, ['a', '\\', 'b'], none, [], [], []⟩

def sampleRepository : Repository where
  software := [backslashTitle, ⟨2, ['1', '0', '0', '%', '_'], none, [], [], []⟩]
  labels := [⟨1, ['A', 'l', 'l'], []⟩]
  packages := [⟨1, ⟨2, ['1', '0', '0', '%', '_'], none, [], [], []⟩, ['1', '.', '0'], ['p']⟩]
  software_ids := by decide
  software_names := by decide
  label_ids := by decide
  label_names := by decide
  package_ids := by decide
  package_versions := by decide
  package_software := by simp
  positive := by simp [backslashTitle]
  text := by simp [backslashTitle]

/-- A connection that counts the braces, keys and texts of a reply; a head holds the search
three times over, as URL encoding may. -/
def sampleTransport : Transport where
  software := ⟨fun q _ => 3 * q.length + 512 ≤ 1 <<< 20,
    fun reply => (reply.1.map (fun row => row.name.length + row.description.length + 256)).sum + 32⟩
  labels := ⟨fun q _ => 3 * q.length + 512 ≤ 1 <<< 20,
    fun reply => (reply.1.map (fun row => row.name.length + row.description.length + 256)).sum + 32⟩
  packages _ := ⟨fun q _ => 3 * q.length + 512 ≤ 1 <<< 20,
    fun reply => (reply.1.map (fun row => row.version.length + 2048)).sum + 32⟩
  detail row := row.name.length + row.description.length + 512

theorem lookups_exact_sample :
    ExactLookups asciiFolding String.ofList sampleRepository sampleTransport :=
  lookups_exact_iff asciiFolding String.ofList sampleRepository sampleTransport (by decide)
    (by decide) (by decide)

/-- The pattern for `a\b` takes the backslash for an escape, and the search misses the title. -/
theorem backslash_title_missed :
    backslashTitle ∈ sampleRepository.software ∧
      findSoftware asciiFolding String.ofList sampleRepository sampleTransport
        (Arrangement.insertionSort _) backslashTitle.name = .ok none := by
  constructor
  · exact List.mem_cons_self
  · rfl

end ExactLookup
