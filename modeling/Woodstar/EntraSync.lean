import Woodstar.FollowUps
import Woodstar.ProviderExactness
import Woodstar.ProviderLaws

/-!
# The synchronization with Entra

`internal/directory/entra/client.go` and `service.go`: users and groups are listed, the groups of
every user are asked for in batches that follow the pages, and the snapshot is applied. Microsoft
Graph and its SDK are parameters. The server ranges over the requests of a batch in the order of a
map.
-/
namespace EntraSync

open DerivedLabels (Source nullString)
open FollowUps (Reply rounds round Asked Leads Gives Steps Fails)
open LatestRows (lastOf)
open ProviderSnapshots

structure GraphUser where
  id : Option String
  userPrincipalName : Option String := none
  mail : Option String := none
  mailNickname : Option String := none
  displayName : Option String := none
  givenName : Option String := none
  surname : Option String := none
  department : Option String := none
  accountEnabled : Option Bool := none
  deriving DecidableEq, Repr

structure GraphGroup where
  id : Option String
  displayName : Option String := none
  mailNickname : Option String := none
  deriving DecidableEq, Repr

/-- A page of the groups of a user: the ids of the groups and `@odata.nextLink`. -/
structure Page where
  value : List (Option String)
  odataNextLink : Option String := none
  deriving DecidableEq, Repr

inductive Relation where
  | memberOf
  | transitiveMemberOf
  deriving DecidableEq, Repr

/-- What `ToGetRequestInformation` is given: a relation of a user with its query, or a link as
it is. -/
inductive RequestInformation where
  | relation (relation : Relation) (userID : String) (select : List String) (top : ℕ)
  | link (url : String)
  deriving DecidableEq, Repr

/-- How a request fails before the batch is sent. -/
inductive Unsent where
  | build (text : String)
  | batch (text : String)
  | missingID
  deriving DecidableEq, Repr

inductive Response where
  | missing
  | failed (text : String)
  | page (page : Page)
  deriving DecidableEq, Repr

/-- Graph behind its SDK: what the page iterators of users and groups collect, and for requests
of memberships what preparing one, sending the batch of a round and the response give. -/
structure Graph where
  users : Except String (List GraphUser)
  groups : Except String (List GraphGroup)
  unsent : RequestInformation → Option Unsent
  send : ℕ → Option String
  response : RequestInformation → Response

structure Client where
  graph : Graph
  transitiveGroups : Bool

structure GraphMembershipRequest where
  userID : String
  nextLink : String := ""
  deriving DecidableEq, Repr

inductive FetchError where
  | users (text : String)
  | groups (text : String)
  | unsent (userID : String) (why : Unsent)
  | send (text : String)
  | missing (userID : String)
  | response (userID text : String)
  deriving DecidableEq, Repr

/-- The texts of `fmt.Errorf`. -/
def FetchError.text : FetchError → String
  | .users text => "fetch users: " ++ text
  | .groups text => "fetch groups: " ++ text
  | .unsent userID (.build text) => "build groups request for " ++ userID ++ ": " ++ text
  | .unsent userID (.batch text) => "batch groups request for " ++ userID ++ ": " ++ text
  | .unsent userID .missingID => "batch groups request for " ++ userID ++ ": missing request ID"
  | .send text => "fetch user groups: " ++ text
  | .missing userID => "graph batch missing response for " ++ userID
  | .response userID text => "fetch groups for " ++ userID ++ ": " ++ text

def deref (value : Option String) : String := value.getD ""

def enabled (value : Option Bool) : Bool := value.getD true

def graphPageSize : ℕ := 999

def GraphUser.provided (user : GraphUser) : ProviderUser where
  externalID := deref user.id
  userPrincipalName := deref user.userPrincipalName
  mail := deref user.mail
  mailNickname := deref user.mailNickname
  displayName := deref user.displayName
  givenName := deref user.givenName
  familyName := deref user.surname
  department := deref user.department
  enabled := enabled user.accountEnabled

def GraphGroup.provided (group : GraphGroup) : ProviderGroup where
  externalID := deref group.id
  displayName := deref group.displayName
  mailNickname := deref group.mailNickname

def Client.fetchUsers (c : Client) : Except FetchError (List ProviderUser) :=
  (c.graph.users.map (List.map GraphUser.provided)).mapError FetchError.users

def Client.fetchGroups (c : Client) : Except FetchError (List ProviderGroup) :=
  (c.graph.groups.map (List.map GraphGroup.provided)).mapError FetchError.groups

def Client.membershipRequestInfo (c : Client) (request : GraphMembershipRequest) : RequestInformation :=
  if request.nextLink ≠ "" then .link request.nextLink
  else .relation (if c.transitiveGroups = true then .transitiveMemberOf else .memberOf) request.userID ["id"]
    graphPageSize

/-- The first loop of `applyMembershipBatch`. -/
def Client.prepare (c : Client) (request : GraphMembershipRequest) : Except FetchError Unit :=
  match c.graph.unsent (c.membershipRequestInfo request) with
  | some why => .error (.unsent request.userID why)
  | none => .ok ()

/-- The body of its second loop: the ids a request gives and its follow-up. -/
def Client.receive (c : Client) (request : GraphMembershipRequest) :
    Except FetchError (Reply GraphMembershipRequest String) :=
  match c.graph.response (c.membershipRequestInfo request) with
  | .missing => .error (.missing request.userID)
  | .failed text => .error (.response request.userID text)
  | .page page => .ok
    { values := page.value.map deref
      next := if deref page.odataNextLink ≠ "" then some ⟨request.userID, deref page.odataNextLink⟩ else none }

/-- `order` is the order of the map in each round. -/
def Client.applyMembershipBatch (c : Client)
    (order : ℕ → List GraphMembershipRequest → List GraphMembershipRequest) (n : ℕ)
    (requests : List GraphMembershipRequest) (out : String → List String) :
    Except FetchError (List GraphMembershipRequest × (String → List String)) := do
  requests.forM c.prepare
  match c.graph.send n with
  | some text => .error (.send text)
  | none => round c.receive GraphMembershipRequest.userID (order n requests) out

/-- `none` while the loop still runs. -/
def Client.fetchUsersGroupIDs (c : Client)
    (order : ℕ → List GraphMembershipRequest → List GraphMembershipRequest) (fuel : ℕ)
    (users : List ProviderUser) : Option (Except FetchError (String → List String)) :=
  rounds (c.applyMembershipBatch order) fuel 0 (users.map (fun user => ⟨user.externalID, ""⟩)) (fun _ => [])

def snapshotOf (users : List ProviderUser) (groups : List ProviderGroup) (groupIDsByUser : String → List String) :
    ProviderSnapshot where
  users := users.map (fun user => { user with groupExternalIDs := groupIDsByUser user.externalID })
  groups := groups

def Client.fetch (c : Client) (order : ℕ → List GraphMembershipRequest → List GraphMembershipRequest)
    (fuel : ℕ) : Option (Except FetchError ProviderSnapshot) :=
  match c.fetchUsers with
  | .error e => some (.error e)
  | .ok users =>
    match c.fetchGroups with
    | .error e => some (.error e)
    | .ok groups => (c.fetchUsersGroupIDs order fuel users).map (Except.map (snapshotOf users groups))

inductive SyncError where
  | fetch (e : FetchError)
  | apply (e : SnapshotError)
  deriving DecidableEq

structure SyncResult where
  users : ℕ
  groups : ℕ
  deriving DecidableEq, Repr

/-- One pass over the tables, with what it returns. -/
def sync (c : Client) (order : ℕ → List GraphMembershipRequest → List GraphMembershipRequest) (fuel : ℕ)
    (now : Int) (t : Tables) : Option (Tables × Except SyncError SyncResult) :=
  (c.fetch order fuel).map (fun fetched =>
    match fetched with
    | .error e => (t, .error (.fetch e))
    | .ok snapshot =>
      match applyProviderSnapshot now .sourceEntra snapshot t with
      | .error e => (t, .error (.apply e))
      | .ok t' => (t', .ok ⟨snapshot.users.length, snapshot.groups.length⟩))

section

variable (c : Client)

/-- The answer to a request of memberships. -/
def Client.ask (request : GraphMembershipRequest) : Except FetchError (Reply GraphMembershipRequest String) := do
  c.prepare request
  c.receive request

/-- The requests of a round. -/
def Client.Asks (users : List ProviderUser) : ℕ → GraphMembershipRequest → Prop :=
  Asked c.ask (fun request => request ∈ users.map (fun user => (⟨user.externalID, ""⟩ : GraphMembershipRequest)))

/-- The links that the pages of a user's groups lead to. -/
inductive Client.Follows (userID : String) : String → Prop
  | first : Client.Follows userID ""
  | next {link : String} {request : GraphMembershipRequest} : Client.Follows userID link →
      Leads c.ask ⟨userID, link⟩ request → Client.Follows userID request.nextLink

/-- A page of the user's groups has the group. -/
def Client.Lists (userID groupID : String) : Prop :=
  ∃ link, c.Follows userID link ∧ Gives c.ask ⟨userID, link⟩ groupID

/-- What a fetch that goes through finds. -/
structure Client.Fetched (users : List ProviderUser) (groups : List ProviderGroup)
    (groupIDsByUser : String → List String) : Prop where
  fetchedUsers : c.fetchUsers = .ok users
  fetchedGroups : c.fetchGroups = .ok groups
  answered : ∀ n request, c.Asks users n request → c.graph.send n = none ∧ ∃ reply, c.ask request = .ok reply
  ends : ∃ n, ∀ request, ¬c.Asks users n request
  listed : ∀ user ∈ users, ∀ groupID, groupID ∈ groupIDsByUser user.externalID ↔ c.Lists user.externalID groupID

/-- A listing fails, or a request that is asked, or its batch. -/
def Client.Refused : Prop :=
  (∃ e, c.fetchUsers = .error e) ∨ (∃ e, c.fetchGroups = .error e) ∨
    ∃ users, c.fetchUsers = .ok users ∧ ∃ n request, c.Asks users n request ∧
      (c.graph.send n ≠ none ∨ ∃ e, c.ask request = .error e)

/-- The tables after a pass. Of a user or group that is listed twice the last one counts; a user
who is not listed any more or disabled is there, but not active. -/
structure Client.Mirrored (users : List ProviderUser) (groups : List ProviderGroup) (t' : Tables) : Prop where
  valid : t'.Valid
  everyGroup : ∀ e, (∃ id g, t'.groups.row id = some g ∧ groupKey g = some (.sourceEntra, e)) ↔
    ∃ group ∈ groups, group.externalID = e
  groupNames : ∀ id g, t'.groups.row id = some g → g.source = .sourceEntra →
    ∃ group, lastOf ProviderGroup.externalID groups g.externalID = some group ∧
      g.displayName = group.displayName ∧ g.mailNickname = nullString group.mailNickname
  activeUsers : ∀ e, (∃ id u, t'.users.row id = some u ∧ userKey u = some (.sourceEntra, e) ∧ u.deletedAt = none) ↔
    ∃ user, lastOf ProviderUser.externalID users e = some user ∧ user.enabled = true
  attributes : ∀ id u e user, t'.users.row id = some u → userKey u = some (.sourceEntra, e) →
    lastOf ProviderUser.externalID users e = some user → Attributes user u
  everyUser : ∀ user ∈ users, ∃ id u, t'.users.row id = some u ∧ userKey u = some (.sourceEntra, user.externalID)
  memberships : ∀ userID u groupID, t'.users.row userID = some u → u.source = .sourceEntra →
    ((userID, groupID) ∈ t'.memberships ↔ ∃ user ∈ users, u.externalID = some user.externalID ∧
      ∃ g, t'.groups.row groupID = some g ∧ g.source = .sourceEntra ∧ c.Lists user.externalID g.externalID)

end

section

variable {c : Client} {order : ℕ → List GraphMembershipRequest → List GraphMembershipRequest}
  {users : List ProviderUser} {groups : List ProviderGroup} {ids ids' : String → List String}

theorem ask_ok {request : GraphMembershipRequest} {reply : Reply GraphMembershipRequest String} :
    c.ask request = .ok reply ↔ c.prepare request = .ok () ∧ c.receive request = .ok reply := by
  rw [Client.ask, Primitives.bind_eq_ok]
  constructor
  · exact fun ⟨(), h⟩ => h
  · exact fun h => ⟨(), h⟩

theorem ask_prepared {request : GraphMembershipRequest} (h : c.prepare request = .ok ()) :
    c.ask request = c.receive request := by
  rw [Client.ask, h]
  rfl

theorem userID_of_leads {request request' : GraphMembershipRequest} (h : Leads c.ask request request') :
    request'.userID = request.userID := by
  obtain ⟨reply, hask, hnext⟩ := h
  obtain ⟨-, hreceive⟩ := ask_ok.mp hask
  unfold Client.receive at hreceive
  split at hreceive
  · cases hreceive
  · cases hreceive
  · cases hreceive
    dsimp only at hnext
    split_ifs at hnext
    cases hnext
    rfl

theorem follows_of_asks {n : ℕ} {request : GraphMembershipRequest} (h : c.Asks users n request) :
    (∃ user ∈ users, user.externalID = request.userID) ∧ c.Follows request.userID request.nextLink := by
  induction n generalizing request with
  | zero =>
    obtain ⟨user, huser, rfl⟩ := List.mem_map.mp h
    exact ⟨⟨user, huser, rfl⟩, .first⟩
  | succ n ih =>
    obtain ⟨before, hbefore, hleads⟩ := h
    obtain ⟨huser, hfollows⟩ := ih hbefore
    rw [userID_of_leads hleads]
    exact ⟨huser, hfollows.next hleads⟩

theorem asks_of_follows {user : ProviderUser} {link : String} (huser : user ∈ users)
    (h : c.Follows user.externalID link) : ∃ n, c.Asks users n ⟨user.externalID, link⟩ := by
  induction h with
  | first => exact ⟨0, List.mem_map.mpr ⟨user, huser, rfl⟩⟩
  | @next link request _ hleads ih =>
    obtain ⟨n, hn⟩ := ih
    refine ⟨n + 1, _, hn, ?_⟩
    have howner : request.userID = user.externalID := userID_of_leads hleads
    have hrequest : (⟨user.externalID, request.nextLink⟩ : GraphMembershipRequest) = request := by rw [← howner]
    rwa [hrequest]

theorem lists_iff {user : ProviderUser} (huser : user ∈ users) (groupID : String) :
    c.Lists user.externalID groupID ↔ ∃ n request, c.Asks users n request ∧
      request.userID = user.externalID ∧ Gives c.ask request groupID := by
  constructor
  · intro ⟨link, hfollows, hgives⟩
    obtain ⟨n, hn⟩ := asks_of_follows huser hfollows
    exact ⟨n, _, hn, rfl, hgives⟩
  · intro ⟨n, request, hrequest, howner, hgives⟩
    refine ⟨request.nextLink, ?_, ?_⟩
    · rw [← howner]
      exact (follows_of_asks hrequest).2
    · rwa [← howner]

theorem prepare_all (requests : List GraphMembershipRequest) :
    requests.forM c.prepare = .ok () ↔ ∀ request ∈ requests, c.prepare request = .ok () := by
  induction requests with
  | nil => exact iff_of_true rfl (by simp)
  | cons request requests ih =>
    change c.prepare request >>= (fun _ => requests.forM c.prepare) = .ok () ↔ _
    rw [Primitives.bind_eq_ok, List.forall_mem_cons, ← ih]
    constructor
    · exact fun ⟨(), h⟩ => h
    · exact fun h => ⟨(), h⟩

/-- Where every request of a list is prepared, an answer is the response. -/
theorem after_congr {requests requests' next next' : List GraphMembershipRequest} {out out' : String → List String}
    (hperm : requests'.Perm requests) (hprepared : ∀ request ∈ requests, c.prepare request = .ok ())
    (h : FollowUps.After c.receive GraphMembershipRequest.userID requests' next next' out out') :
    FollowUps.After c.ask GraphMembershipRequest.userID requests next next' out out' := by
  have hsame : ∀ request ∈ requests, c.ask request = c.receive request :=
    fun request hrequest => ask_prepared (hprepared request hrequest)
  constructor
  · intro request'
    rw [h.next]
    refine or_congr_right (exists_congr fun request => ?_)
    rw [hperm.mem_iff]
    exact and_congr_right fun hrequest => by rw [Leads, Leads, hsame request hrequest]
  · intro userID groupID
    rw [h.out]
    refine or_congr_right (exists_congr fun request => ?_)
    rw [hperm.mem_iff]
    exact and_congr_right fun hrequest => by rw [Gives, Gives, hsame request hrequest]

theorem batch_prepared {n : ℕ} {requests : List GraphMembershipRequest} {out : String → List String}
    (hprepared : ∀ request ∈ requests, c.prepare request = .ok ()) (hsend : c.graph.send n = none) :
    c.applyMembershipBatch order n requests out =
      round c.receive GraphMembershipRequest.userID (order n requests) out := by
  rw [Client.applyMembershipBatch, (prepare_all requests).mpr hprepared, hsend]
  rfl

/-- A batch is a round over the answers, whatever the order of the map. -/
theorem steps_batch (horder : ∀ n requests, (order n requests).Perm requests) :
    Steps c.ask GraphMembershipRequest.userID (fun n => c.graph.send n ≠ none) (c.applyMembershipBatch order) := by
  constructor
  · intro n requests out hsend hanswers
    have hprepared : ∀ request ∈ requests, c.prepare request = .ok () := by
      intro request hrequest
      obtain ⟨reply, hreply⟩ := hanswers request hrequest
      exact (ask_ok.mp hreply).1
    have hreceived : ∀ request ∈ order n requests, ∃ reply, c.receive request = .ok reply := by
      intro request hrequest
      obtain ⟨reply, hreply⟩ := hanswers request ((horder n requests).mem_iff.mp hrequest)
      exact ⟨reply, (ask_ok.mp hreply).2⟩
    obtain ⟨next, out', hround, hafter⟩ :=
      FollowUps.foldlM_ok GraphMembershipRequest.userID (order n requests) hreceived [] out
    refine ⟨next, out', ?_, after_congr (horder n requests) hprepared hafter⟩
    rw [batch_prepared hprepared (not_not.mp hsend)]
    exact hround
  · intro n requests out _ hwhy
    by_cases hprepared : ∀ request ∈ requests, c.prepare request = .ok ()
    · cases hsend : c.graph.send n with
      | some text =>
        refine ⟨.send text, ?_⟩
        rw [Client.applyMembershipBatch, (prepare_all requests).mpr hprepared, hsend]
        rfl
      | none =>
        obtain hbroken | ⟨request, hrequest, e, he⟩ := hwhy
        · exact absurd hsend hbroken
        · rw [ask_prepared (hprepared request hrequest)] at he
          rw [batch_prepared hprepared hsend]
          exact FollowUps.foldlM_error _ ((horder n requests).mem_iff.mpr hrequest) he _
    · cases hall : requests.forM c.prepare with
      | ok _ => exact absurd ((prepare_all requests).mp hall) hprepared
      | error e =>
        refine ⟨e, ?_⟩
        rw [Client.applyMembershipBatch, hall]
        rfl

theorem fetch_of_listed {fuel : ℕ} (husers : c.fetchUsers = .ok users) (hgroups : c.fetchGroups = .ok groups) :
    c.fetch order fuel = (c.fetchUsersGroupIDs order fuel users).map (Except.map (snapshotOf users groups)) := by
  rw [Client.fetch, husers, hgroups]

theorem listed_of_rounds (horder : ∀ n requests, (order n requests).Perm requests) {fuel : ℕ}
    (h : c.fetchUsersGroupIDs order fuel users = some (.ok ids)) :
    ∀ user ∈ users, ∀ groupID, groupID ∈ ids user.externalID ↔ c.Lists user.externalID groupID := by
  intro user huser groupID
  rw [(steps_batch horder).rounds_out h, lists_iff huser]
  exact or_iff_right List.not_mem_nil

theorem not_fails_iff : (∀ n, ¬Fails c.ask (fun n => c.graph.send n ≠ none)
    (fun request => request ∈ users.map (fun user => (⟨user.externalID, ""⟩ : GraphMembershipRequest))) n) ↔
      ∀ n request, c.Asks users n request → c.graph.send n = none ∧ ∃ reply, c.ask request = .ok reply := by
  refine forall_congr' fun n => ?_
  constructor
  · intro hnot request hrequest
    refine ⟨?_, ?_⟩
    · by_contra hsend
      exact hnot ⟨request, hrequest, Or.inl hsend⟩
    · cases hreply : c.ask request with
      | ok reply => exact ⟨reply, rfl⟩
      | error e => exact absurd ⟨request, hrequest, Or.inr ⟨e, hreply⟩⟩ hnot
  · rintro hall ⟨request, hrequest, hsend | ⟨e, he⟩⟩
    · exact hsend (hall request hrequest).1
    · obtain ⟨reply, hreply⟩ := (hall request hrequest).2
      cases he.symm.trans hreply

/-- A fetch that returns a snapshot has found all of it. -/
theorem fetched_of_fetch (horder : ∀ n requests, (order n requests).Perm requests) {fuel : ℕ}
    {snapshot : ProviderSnapshot} (h : c.fetch order fuel = some (.ok snapshot)) :
    ∃ users groups ids, c.Fetched users groups ids ∧ snapshot = snapshotOf users groups ids := by
  cases husers : c.fetchUsers with
  | error e =>
    rw [Client.fetch, husers] at h
    cases h
  | ok users =>
    cases hgroups : c.fetchGroups with
    | error e =>
      rw [Client.fetch, husers, hgroups] at h
      cases h
    | ok groups =>
      rw [fetch_of_listed husers hgroups, Option.map_eq_some_iff] at h
      obtain ⟨outcome, hrounds, hmap⟩ := h
      cases outcome with
      | error e => cases hmap
      | ok ids =>
        obtain ⟨hnot, hends⟩ := ((steps_batch horder).rounds_ok_iff _ _).mp ⟨fuel, ids, hrounds⟩
        exact ⟨users, groups, ids, ⟨husers, hgroups, not_fails_iff.mp hnot, hends,
          listed_of_rounds horder hrounds⟩, (Except.ok.inj hmap).symm⟩

/-- What Graph describes is fetched. -/
theorem fetch_of_fetched (horder : ∀ n requests, (order n requests).Perm requests)
    (h : c.Fetched users groups ids) : ∃ fuel ids', c.Fetched users groups ids' ∧
      c.fetch order fuel = some (.ok (snapshotOf users groups ids')) := by
  obtain ⟨fuel, ids', hrounds⟩ := ((steps_batch horder).rounds_ok_iff _ (fun _ => [])).mpr
    ⟨not_fails_iff.mpr h.answered, h.ends⟩
  refine ⟨fuel, ids', ⟨h.fetchedUsers, h.fetchedGroups, h.answered, h.ends, listed_of_rounds horder hrounds⟩, ?_⟩
  rw [fetch_of_listed h.fetchedUsers h.fetchedGroups, Client.fetchUsersGroupIDs, hrounds]
  rfl

theorem fetch_error_iff (horder : ∀ n requests, (order n requests).Perm requests) :
    (∃ fuel e, c.fetch order fuel = some (.error e)) ↔ c.Refused := by
  cases husers : c.fetchUsers with
  | error e =>
    refine iff_of_true ⟨0, e, ?_⟩ (Or.inl ⟨e, husers⟩)
    rw [Client.fetch, husers]
  | ok users =>
    cases hgroups : c.fetchGroups with
    | error e =>
      refine iff_of_true ⟨0, e, ?_⟩ (Or.inr (Or.inl ⟨e, hgroups⟩))
      rw [Client.fetch, husers, hgroups]
    | ok groups =>
      have hrounds : (∃ fuel e, c.fetch order fuel = some (.error e)) ↔
          ∃ fuel e, c.fetchUsersGroupIDs order fuel users = some (.error e) := by
        refine exists_congr fun fuel => exists_congr fun e => ?_
        rw [fetch_of_listed husers hgroups, Option.map_eq_some_iff]
        constructor
        · rintro ⟨outcome, houtcome, hmap⟩
          cases outcome with
          | ok ids => cases hmap
          | error e' =>
            cases hmap
            exact houtcome
        · exact fun houtcome => ⟨_, houtcome, rfl⟩
      refine hrounds.trans (((steps_batch horder).rounds_error_iff _ _).trans ?_)
      rw [Client.Refused, husers, hgroups]
      simp only [reduceCtorEq, exists_false, false_or, Except.ok.injEq, exists_eq_left']
      rfl

theorem not_refused (h : c.Fetched users groups ids) : ¬c.Refused := by
  rintro (⟨e, he⟩ | ⟨e, he⟩ | ⟨users', husers, n, request, hrequest, hwhy⟩)
  · cases he.symm.trans h.fetchedUsers
  · cases he.symm.trans h.fetchedGroups
  · obtain rfl := Except.ok.inj (husers.symm.trans h.fetchedUsers)
    obtain ⟨hsend, reply, hreply⟩ := h.answered n request hrequest
    obtain hsend' | ⟨e, he⟩ := hwhy
    · exact hsend' hsend
    · cases he.symm.trans hreply

theorem user_snapshotOf (e : String) : (snapshotOf users groups ids).user e =
    (lastOf ProviderUser.externalID users e).map
      (fun user => { user with groupExternalIDs := ids user.externalID }) := by
  change lastOf ProviderUser.externalID (users.map _) e = _
  induction users with
  | nil => rfl
  | cons user users ih =>
    rw [List.map_cons, lastOf, lastOf, ih, Option.map_or]
    split_ifs <;> rfl

theorem user_snapshotOf_eq_some {e : String} {p : ProviderUser} (h : (snapshotOf users groups ids).user e = some p) :
    ∃ user ∈ users, user.externalID = e ∧ p.groupExternalIDs = ids e := by
  rw [user_snapshotOf, Option.map_eq_some_iff] at h
  obtain ⟨user, hlast, rfl⟩ := h
  have hkey : user.externalID = e := LatestRows.key_lastOf hlast
  exact ⟨user, LatestRows.mem_of_lastOf hlast, hkey, congrArg ids hkey⟩

theorem user_isSome (groups : List ProviderGroup) (ids : String → List String) {user : ProviderUser}
    (huser : user ∈ users) :
    ∃ p, (snapshotOf users groups ids).user user.externalID = some p := by
  rw [← Option.isSome_iff_exists, user_snapshotOf, Option.isSome_map, LatestRows.isSome_lastOf]
  exact ⟨user, huser, rfl⟩

theorem storable_snapshotOf (h : ∀ user ∈ users, ∀ groupID, groupID ∈ ids user.externalID ↔
    groupID ∈ ids' user.externalID) :
    (snapshotOf users groups ids).storable = (snapshotOf users groups ids').storable := by
  have husers : (snapshotOf users groups ids).users.all (fun user => user.staged.texts.all Primitives.isText) =
      (snapshotOf users groups ids').users.all (fun user => user.staged.texts.all Primitives.isText) := by
    rw [Bool.eq_iff_iff]
    simp only [snapshotOf, List.all_map, List.all_eq_true, Function.comp]
    refine forall₂_congr fun user huser => ?_
    simp only [ProviderUser.staged, UserSnapshot.texts, List.mem_append, or_imp, forall_and, h user huser]
  rw [ProviderSnapshot.storable, husers]
  rfl

/-- Whatever lists of groups two fetches of one directory make, they are the same sets. -/
theorem sameSets_of_fetched (h : c.Fetched users groups ids) (h' : c.Fetched users groups ids') :
    SameSets (snapshotOf users groups ids) (snapshotOf users groups ids') := by
  have hsame : ∀ user ∈ users, ∀ groupID, groupID ∈ ids user.externalID ↔ groupID ∈ ids' user.externalID :=
    fun user huser groupID => (h.listed user huser groupID).trans (h'.listed user huser groupID).symm
  constructor
  · exact storable_snapshotOf hsame
  · exact fun e => rfl
  · intro e
    rw [user_snapshotOf, user_snapshotOf, Option.map_map, Option.map_map]
    rfl
  · intro e p p' hp hp' groupID
    obtain ⟨user, huser, rfl, hids⟩ := user_snapshotOf_eq_some hp
    obtain ⟨-, -, -, hids'⟩ := user_snapshotOf_eq_some hp'
    rw [hids, hids']
    exact hsame user huser groupID

variable {t t' : Tables} {now : Int}

theorem sync_ok {fuel : ℕ} {result : SyncResult} : sync c order fuel now t = some (t', .ok result) ↔
    ∃ snapshot, c.fetch order fuel = some (.ok snapshot) ∧
      applyProviderSnapshot now .sourceEntra snapshot t = .ok t' ∧
      result = ⟨snapshot.users.length, snapshot.groups.length⟩ := by
  rw [sync, Option.map_eq_some_iff]
  constructor
  · rintro ⟨fetched, hfetch, houtcome⟩
    cases fetched with
    | error e => cases houtcome
    | ok snapshot =>
      dsimp only at houtcome
      cases happly : applyProviderSnapshot now .sourceEntra snapshot t with
      | error e =>
        rw [happly] at houtcome
        cases houtcome
      | ok t'' =>
        rw [happly] at houtcome
        cases houtcome
        exact ⟨snapshot, hfetch, happly, rfl⟩
  · rintro ⟨snapshot, hfetch, happly, rfl⟩
    refine ⟨_, hfetch, ?_⟩
    dsimp only
    rw [happly]

theorem sync_error {fuel : ℕ} {e : SyncError} : sync c order fuel now t = some (t', .error e) ↔ t' = t ∧
    ((∃ e', c.fetch order fuel = some (.error e') ∧ e = .fetch e') ∨
      ∃ snapshot e', c.fetch order fuel = some (.ok snapshot) ∧
        applyProviderSnapshot now .sourceEntra snapshot t = .error e' ∧ e = .apply e') := by
  rw [sync, Option.map_eq_some_iff]
  constructor
  · rintro ⟨fetched, hfetch, houtcome⟩
    cases fetched with
    | error e' =>
      cases houtcome
      exact ⟨rfl, Or.inl ⟨e', hfetch, rfl⟩⟩
    | ok snapshot =>
      dsimp only at houtcome
      cases happly : applyProviderSnapshot now .sourceEntra snapshot t with
      | error e' =>
        rw [happly] at houtcome
        cases houtcome
        exact ⟨rfl, Or.inr ⟨snapshot, e', hfetch, happly, rfl⟩⟩
      | ok t'' =>
        rw [happly] at houtcome
        cases houtcome
  · rintro ⟨rfl, ⟨e', hfetch, rfl⟩ | ⟨snapshot, e', hfetch, happly, rfl⟩⟩
    · exact ⟨_, hfetch, rfl⟩
    · refine ⟨_, hfetch, ?_⟩
      dsimp only
      rw [happly]

/-- A user of the tables is described by the last user that is listed under the same id. -/
theorem userOf_snapshotOf {u : User} {e : String} (he : u.externalID = some e) :
    (snapshotOf users groups ids).userOf u = (lastOf ProviderUser.externalID users e).map
      (fun user => { user with groupExternalIDs := ids user.externalID }) := by
  rw [ProviderSnapshot.userOf, he, Option.bind_some, user_snapshotOf]

theorem everyGroup_of_exact (hexact : Exact .sourceEntra (snapshotOf users groups ids) t t') (e : String) :
    (∃ id g, t'.groups.row id = some g ∧ groupKey g = some (.sourceEntra, e)) ↔
      ∃ group ∈ groups, group.externalID = e := by
  have hgroup : ((snapshotOf users groups ids).group e).isSome = true ↔ ∃ group ∈ groups, group.externalID = e :=
    LatestRows.isSome_lastOf
  rw [← hgroup]
  constructor
  · intro ⟨id, g, hg, hkey⟩
    obtain ⟨hsource, rfl⟩ := Prod.mk.inj (Option.some.inj hkey)
    obtain ⟨q, hq, -⟩ := hexact.groups id g hg hsource
    exact Option.isSome_iff_exists.mpr ⟨q, hq⟩
  · intro hsome
    obtain ⟨q, hq⟩ := Option.isSome_iff_exists.mp hsome
    exact hexact.everyGroup e q hq

theorem active_of_exact (hexact : Exact .sourceEntra (snapshotOf users groups ids) t t') (e : String) :
    (∃ id u, t'.users.row id = some u ∧ userKey u = some (.sourceEntra, e) ∧ u.deletedAt = none) ↔
      ∃ user, lastOf ProviderUser.externalID users e = some user ∧ user.enabled = true := by
  constructor
  · rintro ⟨id, u, hu, hkey, hactive⟩
    obtain ⟨hsource, he⟩ := userKey_eq_some.mp hkey
    obtain ⟨p, hp, henabled⟩ := (hexact.active id u hu hsource).mp hactive
    rw [userOf_snapshotOf he] at hp
    obtain ⟨user, hlast, rfl⟩ := Option.map_eq_some_iff.mp hp
    exact ⟨user, hlast, henabled⟩
  · rintro ⟨user, hlast, henabled⟩
    have hp : (snapshotOf users groups ids).user e =
        some { user with groupExternalIDs := ids user.externalID } := by
      rw [user_snapshotOf, hlast, Option.map_some]
    obtain ⟨id, u, hu, hkey⟩ := hexact.everyUser e _ hp
    obtain ⟨hsource, he⟩ := userKey_eq_some.mp hkey
    exact ⟨id, u, hu, hkey, (hexact.active id u hu hsource).mpr ⟨_, userOf_eq_some.mpr ⟨e, he, hp⟩, henabled⟩⟩

theorem mirrored_of_applied (hvalid : t.Valid) (h : c.Fetched users groups ids)
    (happly : applyProviderSnapshot now .sourceEntra (snapshotOf users groups ids) t = .ok t') :
    c.Mirrored users groups t' := by
  obtain ⟨happlicable, rfl⟩ := (applyProviderSnapshot_ok hvalid.users).mp happly
  have hexact : Exact .sourceEntra (snapshotOf users groups ids) t
      (refreshed (reconciled now .sourceEntra (snapshotOf users groups ids) t)) :=
    exact_of_applicable hvalid happlicable.provider
  constructor
  · exact valid_of_applicable hvalid happlicable
  · exact everyGroup_of_exact hexact
  · intro id g hg hsource
    obtain ⟨q, hq, hname, hnickname⟩ := hexact.groups id g hg hsource
    exact ⟨q, hq, hname, hnickname⟩
  · exact active_of_exact hexact
  · intro id u e user hu hkey hlast
    obtain ⟨hsource, he⟩ := userKey_eq_some.mp hkey
    obtain ⟨hemail, hname, hprincipal, hnickname, hgiven, hfamily, hdepartment⟩ :=
      hexact.attributes id u _ hu hsource (by rw [userOf_snapshotOf he, hlast, Option.map_some])
    exact ⟨hemail, hname, hprincipal, hnickname, hgiven, hfamily, hdepartment⟩
  · intro user huser
    obtain ⟨p, hp⟩ := user_isSome groups ids huser
    exact hexact.everyUser user.externalID p hp
  · intro userID u groupID hu hsource
    rw [hexact.memberships userID u groupID hu hsource]
    constructor
    · rintro ⟨p, g, hp, hg, hown, hmem⟩
      obtain ⟨e, he, hp⟩ := userOf_eq_some.mp hp
      obtain ⟨user, huser, rfl, hids⟩ := user_snapshotOf_eq_some hp
      rw [hids, h.listed user huser] at hmem
      exact ⟨user, huser, he, g, hg, hown, hmem⟩
    · rintro ⟨user, huser, he, g, hg, hown, hlists⟩
      obtain ⟨p, hp⟩ := user_isSome groups ids huser
      obtain ⟨-, -, -, hids⟩ := user_snapshotOf_eq_some hp
      refine ⟨p, g, userOf_eq_some.mpr ⟨_, he, hp⟩, hg, hown, ?_⟩
      rw [hids, h.listed user huser]
      exact hlists

theorem sync_agrees (horder : ∀ n requests, (order n requests).Perm requests)
    {order' : ℕ → List GraphMembershipRequest → List GraphMembershipRequest}
    (horder' : ∀ n requests, (order' n requests).Perm requests) {fuel fuel' : ℕ} {result : SyncResult}
    {t'' : Tables} {outcome : Except SyncError SyncResult} (h : sync c order fuel now t = some (t', .ok result))
    (h' : sync c order' fuel' now t = some (t'', outcome)) : t'' = t' ∧ outcome = .ok result := by
  obtain ⟨snapshot, hfetch, happly, rfl⟩ := sync_ok.mp h
  obtain ⟨users, groups, ids, hfetched, rfl⟩ := fetched_of_fetch horder hfetch
  have hsame {snapshot' : ProviderSnapshot} (hfetch' : c.fetch order' fuel' = some (.ok snapshot')) :
      ∃ ids', snapshot' = snapshotOf users groups ids' ∧
        applyProviderSnapshot now .sourceEntra snapshot' t = .ok t' := by
    obtain ⟨users', groups', ids', hfetched', rfl⟩ := fetched_of_fetch horder' hfetch'
    obtain rfl := Except.ok.inj (hfetched.fetchedUsers.symm.trans hfetched'.fetchedUsers)
    obtain rfl := Except.ok.inj (hfetched.fetchedGroups.symm.trans hfetched'.fetchedGroups)
    exact ⟨ids', rfl, (applyProviderSnapshot_eq (sameSets_of_fetched hfetched' hfetched)).trans happly⟩
  cases outcome with
  | error e =>
    obtain ⟨-, ⟨e', hfetch', -⟩ | ⟨snapshot', e', hfetch', happly', -⟩⟩ := sync_error.mp h'
    · exact absurd ((fetch_error_iff horder').mp ⟨fuel', e', hfetch'⟩) (not_refused hfetched)
    · obtain ⟨-, -, happly''⟩ := hsame hfetch'
      cases happly'.symm.trans happly''
  | ok result' =>
    obtain ⟨snapshot', hfetch', happly', rfl⟩ := sync_ok.mp h'
    obtain ⟨ids', rfl, happly''⟩ := hsame hfetch'
    refine ⟨Except.ok.inj (happly'.symm.trans happly''), ?_⟩
    simp [snapshotOf]

theorem applied_of_applicable (now : Int) (hvalid : t.Valid) {snapshot : ProviderSnapshot} :
    (∃ t', applyProviderSnapshot now .sourceEntra snapshot t = .ok t') ↔ Applicable .sourceEntra snapshot t := by
  constructor
  · exact fun ⟨t', h⟩ => ((applyProviderSnapshot_ok hvalid.users).mp h).1
  · exact fun h => ⟨_, (applyProviderSnapshot_ok hvalid.users).mpr ⟨h, rfl⟩⟩

theorem applicable_congr (hvalid : t.Valid) (h : c.Fetched users groups ids) (h' : c.Fetched users groups ids') :
    Applicable .sourceEntra (snapshotOf users groups ids) t ↔
      Applicable .sourceEntra (snapshotOf users groups ids') t := by
  rw [← applied_of_applicable 0 hvalid, ← applied_of_applicable 0 hvalid,
    applyProviderSnapshot_eq (sameSets_of_fetched h h')]

theorem sync_ok_iff (hvalid : t.Valid) (horder : ∀ n requests, (order n requests).Perm requests) :
    (∃ fuel t' result, sync c order fuel now t = some (t', .ok result)) ↔
      ∃ users groups ids, c.Fetched users groups ids ∧
        Applicable .sourceEntra (snapshotOf users groups ids) t := by
  constructor
  · intro ⟨fuel, t', result, h⟩
    obtain ⟨snapshot, hfetch, happly, -⟩ := sync_ok.mp h
    obtain ⟨users, groups, ids, hfetched, rfl⟩ := fetched_of_fetch horder hfetch
    exact ⟨users, groups, ids, hfetched, (applied_of_applicable now hvalid).mp ⟨t', happly⟩⟩
  · intro ⟨users, groups, ids, hfetched, happlicable⟩
    obtain ⟨fuel, ids', hfetched', hfetch⟩ := fetch_of_fetched horder hfetched
    obtain ⟨t', happly⟩ :=
      (applied_of_applicable now hvalid).mpr ((applicable_congr hvalid hfetched hfetched').mp happlicable)
    exact ⟨fuel, t', _, sync_ok.mpr ⟨_, hfetch, happly, rfl⟩⟩

theorem sync_error_iff (hvalid : t.Valid) (horder : ∀ n requests, (order n requests).Perm requests) :
    (∃ fuel t' e, sync c order fuel now t = some (t', .error e)) ↔
      c.Refused ∨ ∃ users groups ids, c.Fetched users groups ids ∧
        ¬Applicable .sourceEntra (snapshotOf users groups ids) t := by
  constructor
  · intro ⟨fuel, t', e, h⟩
    obtain ⟨-, ⟨e', hfetch, -⟩ | ⟨snapshot, e', hfetch, happly, -⟩⟩ := sync_error.mp h
    · exact Or.inl ((fetch_error_iff horder).mp ⟨fuel, e', hfetch⟩)
    · obtain ⟨users, groups, ids, hfetched, rfl⟩ := fetched_of_fetch horder hfetch
      refine Or.inr ⟨users, groups, ids, hfetched, ?_⟩
      intro happlicable
      obtain ⟨t'', happly'⟩ := (applied_of_applicable now hvalid).mpr happlicable
      cases happly.symm.trans happly'
  · rintro (hrefused | ⟨users, groups, ids, hfetched, hnot⟩)
    · obtain ⟨fuel, e, hfetch⟩ := (fetch_error_iff horder).mpr hrefused
      exact ⟨fuel, t, _, sync_error.mpr ⟨rfl, Or.inl ⟨e, hfetch, rfl⟩⟩⟩
    · obtain ⟨fuel, ids', hfetched', hfetch⟩ := fetch_of_fetched horder hfetched
      cases happly : applyProviderSnapshot now .sourceEntra (snapshotOf users groups ids') t with
      | ok t' =>
        have happlicable := (applied_of_applicable now hvalid).mp ⟨t', happly⟩
        exact absurd ((applicable_congr hvalid hfetched hfetched').mpr happlicable) hnot
      | error e => exact ⟨fuel, t, _, sync_error.mpr ⟨rfl, Or.inr ⟨_, e, hfetch, happly, rfl⟩⟩⟩

/-- A pass applies what Graph describes, all of it or nothing, whatever the order of the maps. -/
theorem sync_follows_graph (hvalid : t.Valid) (horder : ∀ n requests, (order n requests).Perm requests) (now : Int) :
    ((∃ fuel t' result, sync c order fuel now t = some (t', .ok result)) ↔
      ∃ users groups ids, c.Fetched users groups ids ∧
        Applicable .sourceEntra (snapshotOf users groups ids) t) ∧
    ((∃ fuel t' e, sync c order fuel now t = some (t', .error e)) ↔
      c.Refused ∨ ∃ users groups ids, c.Fetched users groups ids ∧
        ¬Applicable .sourceEntra (snapshotOf users groups ids) t) ∧
    (∀ fuel t' e, sync c order fuel now t = some (t', .error e) → t' = t) ∧
    ∀ fuel t' result, sync c order fuel now t = some (t', .ok result) →
      (∃ users groups, c.fetchUsers = .ok users ∧ c.fetchGroups = .ok groups ∧
        result = ⟨users.length, groups.length⟩ ∧ c.Mirrored users groups t') ∧
      ∀ order', (∀ n requests, (order' n requests).Perm requests) →
        (∃ fuel', sync c order' fuel' now t = some (t', .ok result)) ∧
        ∀ fuel' t'' outcome, sync c order' fuel' now t = some (t'', outcome) → t'' = t' ∧ outcome = .ok result := by
  refine ⟨sync_ok_iff hvalid horder, sync_error_iff hvalid horder, fun fuel t' e h => (sync_error.mp h).1, ?_⟩
  intro fuel t' result h
  constructor
  · obtain ⟨snapshot, hfetch, happly, rfl⟩ := sync_ok.mp h
    obtain ⟨users, groups, ids, hfetched, rfl⟩ := fetched_of_fetch horder hfetch
    refine ⟨users, groups, hfetched.fetchedUsers, hfetched.fetchedGroups, ?_,
      mirrored_of_applied hvalid hfetched happly⟩
    simp [snapshotOf]
  · intro order' horder'
    have hagrees : ∀ fuel' t'' outcome, sync c order' fuel' now t = some (t'', outcome) →
        t'' = t' ∧ outcome = .ok result := fun fuel' t'' outcome h' => sync_agrees horder horder' h h'
    refine ⟨?_, hagrees⟩
    obtain ⟨fuel', t'', result', h'⟩ :=
      (sync_ok_iff hvalid horder').mpr ((sync_ok_iff hvalid horder).mp ⟨fuel, t', result, h⟩)
    obtain ⟨rfl, hresult⟩ := hagrees fuel' t'' _ h'
    exact ⟨fuel', hresult ▸ h'⟩

end

def sampleResponse : RequestInformation → Response
  | .relation .memberOf "u-1" ["id"] 999 => .page ⟨[some "g-1"], some "membership-2"⟩
  | .relation .memberOf "u-2" ["id"] 999 => .page ⟨[some "g-2"], none⟩
  | .link "membership-2" => .page ⟨[some "g-3"], none⟩
  | _ => .missing

def sampleClient : Client where
  transitiveGroups := false
  graph :=
    { users := .ok [{ id := some "u-1", userPrincipalName := some "one@example.invalid" },
        { id := some "u-2", userPrincipalName := some "two@example.invalid", accountEnabled := some false }]
      groups := .ok [{ id := some "g-1" }, { id := some "g-2" }, { id := some "g-3" }]
      unsent := fun _ => none
      send := fun _ => none
      response := sampleResponse }

def noTables : Tables := {}

theorem noTables_valid : noTables.Valid where
  users := KeyedUpserts.isDistinct_iff.mp (by decide)
  groups := KeyedUpserts.isDistinct_iff.mp (by decide)
  providerEmail := KeyedUpserts.isDistinct_iff.mp (by decide)
  providerUPN := KeyedUpserts.isDistinct_iff.mp (by decide)
  localEmail := KeyedUpserts.isDistinct_iff.mp (by decide)
  apiKey := KeyedUpserts.isDistinct_iff.mp (by decide)
  localUser := by
    intro id u hu
    cases hu
  providerGroup := by
    intro id g hg
    cases hg
  memberships := by
    intro row hrow
    cases Finset.notMem_empty row hrow

def sampleUser : ProviderUser where
  externalID := "u-1"
  userPrincipalName := "one@example.invalid"
  groupExternalIDs := ["g-1", "g-3"]

def disabledUser : ProviderUser where
  externalID := "u-2"
  userPrincipalName := "two@example.invalid"
  enabled := false
  groupExternalIDs := ["g-2"]

def sampleSnapshot : ProviderSnapshot where
  users := [sampleUser, disabledUser]
  groups := [{ externalID := "g-1" }, { externalID := "g-2" }, { externalID := "g-3" }]

theorem sampleSnapshot_enabled {e : String} {p : ProviderUser} (h : sampleSnapshot.user e = some p)
    (henabled : p.enabled = true) : e = "u-1" := by
  have hmem : p ∈ sampleSnapshot.users := LatestRows.mem_of_lastOf h
  have hkey : p.externalID = e := LatestRows.key_lastOf h
  rcases List.mem_pair.mp hmem with rfl | rfl
  · exact hkey.symm
  · cases henabled

theorem sampleSnapshot_applicable : Applicable .sourceEntra sampleSnapshot noTables where
  provider := by decide
  storable := by decide +kernel
  emails := by
    intro e e' p p' hp hp' henabled henabled' _
    rw [sampleSnapshot_enabled hp henabled, sampleSnapshot_enabled hp' henabled']
  userPrincipalNames := by
    intro e e' p p' hp hp' henabled henabled' _
    rw [sampleSnapshot_enabled hp henabled, sampleSnapshot_enabled hp' henabled']
  labels := by
    intro id row hrow
    cases hrow

theorem sync_follows_graph_sample : ∃ t', sync sampleClient (fun _ requests => requests.reverse) 3 0 noTables =
    some (t', .ok ⟨2, 3⟩) ∧ ∃ users groups, sampleClient.fetchUsers = .ok users ∧
      sampleClient.fetchGroups = .ok groups ∧ sampleClient.Mirrored users groups t' := by
  have hfetch : sampleClient.fetch (fun _ requests => requests.reverse) 3 = some (.ok sampleSnapshot) := by
    decide +kernel
  obtain ⟨t', happly⟩ := (applied_of_applicable 0 noTables_valid).mpr sampleSnapshot_applicable
  have hsync : sync sampleClient (fun _ requests => requests.reverse) 3 0 noTables = some (t', .ok ⟨2, 3⟩) :=
    sync_ok.mpr ⟨sampleSnapshot, hfetch, happly, rfl⟩
  obtain ⟨-, -, -, hall⟩ := sync_follows_graph (c := sampleClient) noTables_valid
    (fun _ requests => List.reverse_perm requests) 0
  obtain ⟨⟨users, groups, husers, hgroups, -, hmirrored⟩, -⟩ := hall 3 t' ⟨2, 3⟩ hsync
  exact ⟨t', hsync, users, groups, husers, hgroups, hmirrored⟩

end EntraSync
