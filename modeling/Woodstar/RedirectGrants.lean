import Woodstar.Base64Url
import Woodstar.Primitives
import Woodstar.UrlText

/-!
# Grants of redirects

What `internal/munki/mdp/selection_store.go` puts into a redirect and what the worker of
`internal/munki/mdp/worker/serve.go` reads out of the request that follows it. HMAC-SHA-256
and `encoding/json` are parameters.
-/
namespace RedirectGrants

open Primitives (trimSpace)
open UrlEscape
open UrlText

def utf8 (text : String) : Bytes := text.toUTF8.toList

structure Claims where
  op : Bytes := []
  exp : Int
  packageID : Int
  installerItemLocation : Bytes
  sha256 : Bytes
  sizeBytes : Int
  distributionPointID : Int
  deriving DecidableEq, Repr

/-- The part of a payload that the capability codec reads itself. -/
structure Envelope where
  op : Bytes
  exp : Int
  deriving DecidableEq, Repr

/-- `encoding/json` on claims. -/
structure Codec where
  marshal : Claims → Bytes
  envelope : Bytes → Option Envelope
  claims : Bytes → Option Claims

inductive VerifyError where
  | invalid | expired | wrongOp
  deriving DecidableEq, Repr

def opGet : Bytes := ascii "get"

section Capability

variable (hmac : Bytes → Bytes → Bytes) (codec : Codec)

def sign (key : Bytes) (claims : Claims) : Bytes :=
  let encodedPayload := Base64Url.encode (codec.marshal claims)
  encodedPayload ++ 46 :: Base64Url.encode (hmac key encodedPayload)

/-- `open`: the payload of a token whose MAC is right. -/
def openToken (key token : Bytes) : Except VerifyError Bytes :=
  let (encodedPayload, mac) := cutByte 46 token
  if encodedPayload = [] ∨ mac = [] ∨ 46 ∈ mac then .error .invalid
  else match Base64Url.decode mac with
    | none => .error .invalid
    | some gotMAC =>
      if gotMAC ≠ hmac key encodedPayload then .error .invalid
      else match Base64Url.decode encodedPayload with
        | none => .error .invalid
        | some payload => .ok payload

def verify (key token op : Bytes) (now : Int) : Except VerifyError Claims :=
  match openToken hmac key token with
  | .error e => .error e
  | .ok payload =>
    match codec.envelope payload with
    | none => .error .invalid
    | some env =>
      if env.exp ≤ now then .error .expired
      else if env.op ≠ op then .error .wrongOp
      else match codec.claims payload with
        | none => .error .invalid
        | some claims => .ok claims

/-- `grant.Sign`. -/
def signGrant (key : Bytes) (claims : Claims) : Bytes := sign hmac codec key { claims with op := opGet }

/-- `grant.Verify`. -/
def verifyGrant (key token : Bytes) (now : Int) : Except VerifyError Claims := verify hmac codec key token opGet now

end Capability

section Redirect

variable (authority : Bytes → Option (Option Bytes × Bytes))

def isHTTPSOrigin (value : Bytes) : Bool :=
  match parse authority value with
  | none => false
  | some parsed =>
    decide (parsed.host ≠ [] ∧ parsed.user = none ∧ parsed.rawQuery = [] ∧ parsed.forceQuery = false ∧
      parsed.fragment = [] ∧ (parsed.path = [] ∨ parsed.path = [47]) ∧ parsed.scheme = https)

def normalizeClientBaseURL (value : String) : Bytes :=
  match parse authority (utf8 (trimSpace value)) with
  | none => utf8 (trimSpace value)
  | some parsed => string { parsed with path := if parsed.path = [47] then [] else parsed.path }

/-- A base URL as it is stored: put into normal form, and found to be an origin. -/
structure Accepted (base : Bytes) : Prop where
  normalized : ∃ value, base = normalizeClientBaseURL authority value
  origin : isHTTPSOrigin authority base = true

/-- What is known of the syntax of authorities. -/
structure Syntax : Prop where
  blank : authority [] = some (none, [])
  user : ∀ a user host, authority a = some (some user, host) → ∀ c ∈ user, c ≠ 35
  again : ∀ a host, authority a = some (none, host) → authority (escape .host host) = some (none, host)

def trimRight (s : Bytes) : Bytes := (s.reverse.dropWhile (· == 47)).reverse

def pkgsPath : Bytes := ascii "/munki/pkgs/"

def cap : Bytes := ascii "cap"

def grantURL (clientBaseURL installerItemLocation token : Bytes) : Option Bytes :=
  (parse authority (trimRight clientBaseURL ++ pkgsPath ++ escapePath installerItemLocation)).map (fun base =>
    string { base with rawQuery := encode (set (parseQuery base.rawQuery) cap token) })

end Redirect

section Text

variable {authority : Bytes → Option (Option Bytes × Bytes)}

/-- The normal form holds no number sign, unless it is read as the start of a fragment. -/
theorem Accepted.noFragment (hgrammar : Syntax authority) {base : Bytes} (hbase : Accepted authority base) :
    ∀ c ∈ base, c ≠ 35 := by
  obtain ⟨⟨value, hvalue⟩, horigin⟩ := hbase
  unfold isHTTPSOrigin at horigin
  split at horigin
  · cases horigin
  next u hread =>
    have hfragment : u.fragment = [] := (of_decide_eq_true horigin).2.2.2.2.1
    unfold normalizeClientBaseURL at hvalue
    split at hvalue
    next hnone => exact absurd (hvalue ▸ hread) (by simp [hnone])
    next parsed hparsed =>
      have hclean := parse_clean hparsed
      have huser : ∀ user, parsed.user = some user → ∀ c ∈ user, c ≠ 35 := by
        intro user heq
        obtain hnone | ⟨a, ha⟩ := hclean.user
        · simp [hnone] at heq
        · exact hgrammar.user a user parsed.host (heq ▸ ha)
      have hnormal : Clean authority { parsed with path := if parsed.path = [47] then [] else parsed.path } :=
        ⟨hclean.text, hclean.user⟩
      obtain ⟨text, htext, hstring⟩ := string_front hnormal huser
      rw [hstring] at hvalue
      by_cases hnil : parsed.fragment = []
      · simp only [hnil, if_true, List.append_nil] at hvalue
        exact hvalue ▸ htext
      · simp only [hnil, if_false] at hvalue
        have hescaped : escaped .fragment parsed.rawFragment parsed.fragment ≠ [] := escaped_ne_nil hnil
        exact absurd hfragment (parse_fragment htext hescaped (hvalue ▸ hread))

/-- Scheme and host, and perhaps a slash. -/
theorem Accepted.text (hgrammar : Syntax authority) {base : Bytes} (hbase : Accepted authority base) :
    ∃ scheme a p host, base = hostText scheme a p [] ∧ (p = [] ∨ p = [47]) ∧ Plain scheme a p [] ∧
      authority a = some (none, host) ∧ host ≠ [] := by
  have hsharp := hbase.noFragment hgrammar
  have horigin := hbase.origin
  unfold isHTTPSOrigin at horigin
  split at horigin
  · cases horigin
  next u hread =>
    obtain ⟨hhost, huser, hquery, hforce, -, hpath, hscheme⟩ := of_decide_eq_true horigin
    obtain ⟨scheme, a, p, htext, hp, hplain, hauthority⟩ := parse_bare hread hsharp hscheme hhost hforce hquery hpath
    exact ⟨scheme, a, p, u.host, htext, hp, hplain, huser ▸ hauthority, hhost⟩

theorem trimRight_append {s : Bytes} (hs : s.getLast? ≠ some 47) {p : Bytes} (hp : p = [] ∨ p = [47]) :
    trimRight (s ++ p) = s := by
  have hback : s.reverse.dropWhile (· == 47) = s.reverse := by
    rw [← List.head?_reverse] at hs
    cases hrev : s.reverse with
    | nil => rfl
    | cons c cs =>
      rw [hrev] at hs
      have hc : ¬ c = 47 := by simpa using hs
      simp [hc]
  cases hp with
  | inl hp => simp [hp, trimRight, hback]
  | inr hp => simp [hp, trimRight, hback]

theorem escapePath_pkgsPath (location : Bytes) :
    escapePath (pkgsPath ++ location) = pkgsPath ++ escapePath location := by
  have hpkgs : pkgsPath.flatMap escapePathByte = pkgsPath := by decide
  rw [escapePath_eq, List.flatMap_append, hpkgs, escapePath_eq]

/-- A path that was escaped by segments is read as that path, and printed as it was written. -/
theorem setPath_escapePath (u : URL) {path : Bytes} (hne : path ≠ []) (hstar : path ≠ [42]) :
    ∃ rawPath, setPath u (escapePath path) = some { u with path := path, rawPath := rawPath } ∧
      (rawPath = [] ∨ rawPath = escapePath path) ∧
      ∀ query, escapedPath { u with path := path, rawPath := rawPath, rawQuery := query } = escapePath path := by
  have hback : unescape .path (escapePath path) = some path := unescape_escapePath (by decide) path
  have hvalid : validEncoded (escapePath path) .path = true := by
    have hbyte : ∀ c, ∀ b ∈ escapePathByte c,
        (decide (b.toNat ∈ pathMarks) || !shouldEscape b .path) = true := forall_byte_mem (by decide +kernel)
    exact List.all_eq_true.mpr (fun b hb => mem_escapePath hbyte hb)
  have hnil : escapePath path ≠ [] := by
    intro hnil
    rw [hnil] at hback
    exact hne (Option.some.inj hback).symm
  by_cases hsame : escapePath path = escape .path path
  · exact ⟨[], by simp [setPath, setEncoded, hback, hsame.symm], .inl rfl, fun query => by
      simp [escapedPath, hstar, hsame]⟩
  · exact ⟨escapePath path, by simp [setPath, setEncoded, hback, hsame], .inr rfl, fun query => by
      simp [escapedPath, hnil, hvalid, hback]⟩

/-- A byte of a token: a digit of base 64 or a full stop. -/
def tokenByte (c : UInt8) : Bool := isLetter c || isDigit c || decide (c.toNat ∈ [45, 46, 95])

/-- Bytes that a query carries as they are. -/
structure Bare (c : UInt8) : Prop where
  kept : escapeByte .queryComponent c = [c]
  marks : c ∉ ([35, 38, 59, 61, 63] : Bytes)
  control : isControl c = false

theorem bare_of_tokenByte : ∀ c, tokenByte c = true → Bare c := by
  have hall : ∀ c, tokenByte c = true →
      escapeByte .queryComponent c = [c] ∧ c ∉ ([35, 38, 59, 61, 63] : Bytes) ∧ isControl c = false :=
    forall_byte (by decide +kernel)
  intro c hc
  obtain ⟨hkept, hmarks, hcontrol⟩ := hall c hc
  exact ⟨hkept, hmarks, hcontrol⟩

theorem escape_bare {s : Bytes} (h : ∀ c ∈ s, Bare c) : escape .queryComponent s = s := by
  induction s with
  | nil => rfl
  | cons c cs ih =>
    have hcs := ih (fun b hb => h b (List.mem_cons_of_mem _ hb))
    rw [escape] at hcs ⊢
    rw [List.flatMap_cons, (h c List.mem_cons_self).kept, hcs]
    rfl

/-- Bytes that end none of the parts of a URL. -/
def Safe (c : UInt8) : Prop := c ≠ 63 ∧ c ≠ 35 ∧ isControl c = false

instance (c : UInt8) : Decidable (Safe c) := inferInstanceAs (Decidable (_ ∧ _))

theorem Bare.safe {c : UInt8} (h : Bare c) : Safe c := by
  have hmarks := h.marks
  simp only [List.mem_cons, not_or] at hmarks
  exact ⟨hmarks.2.2.2.2.1, hmarks.1, h.control⟩

theorem safe_escapePath (value : Bytes) : ∀ c ∈ escapePath value, Safe c := by
  have hbyte : ∀ c, ∀ b ∈ escapePathByte c, Safe b := forall_byte_mem (by decide +kernel)
  exact fun c hc => mem_escapePath hbyte hc

theorem plain_extend {scheme a p₀ p q : Bytes} (h : Plain scheme a p₀ []) (hhead : p.head? = some 47)
    (hp : ∀ c ∈ p, Safe c) (hq : ∀ c ∈ q, Safe c) : Plain scheme a p q := by
  have hpart : ∀ {P : UInt8 → Prop}, (∀ c ∈ scheme ++ (a ++ p₀) ++ [], P c) → (∀ c, Safe c → P c) →
      ∀ c ∈ scheme ++ (a ++ p) ++ q, P c := by
    intro P hfront hsafe c hc
    simp only [List.append_nil, List.mem_append] at hfront hc
    obtain (hc | hc | hc) | hc := hc
    · exact hfront c (.inl hc)
    · exact hfront c (.inr (.inl hc))
    · exact hsafe c (hp c hc)
    · exact hsafe c (hq c hc)
  constructor
  · exact h.opening
  · exact h.authority
  · exact .inr hhead
  · intro c hc
    cases List.mem_append.mp hc with
    | inl hc => exact h.noQuery c (List.mem_append_left _ hc)
    | inr hc => exact (hp c hc).1
  · exact hpart h.noFragment (fun c hc => hc.2.1)
  · exact hpart h.noControl (fun c hc => hc.2.2)
  · exact fun hlast => (hq 63 (List.mem_of_getLast? hlast)).1 rfl

/-- The same host, printed. -/
theorem plain_host (host : Bytes) : Plain https (escape .host host) [] [] := by
  have hbyte : ∀ c, ∀ b ∈ escapeByte .host c, b ≠ 47 ∧ Safe b := forall_byte_mem (by decide +kernel)
  have hhost : ∀ c ∈ escape .host host, c ≠ 47 ∧ Safe c := fun c hc => mem_escape hbyte hc
  have hfront : ∀ c ∈ https, Safe c := forall_mem_of_all (by decide)
  constructor
  · exact isHTTPS_https
  · exact fun c hc => (hhost c hc).1
  · exact .inl rfl
  · exact fun c hc => (hhost c (by simpa using hc)).2.1
  · intro c hc
    simp only [List.append_nil, List.mem_append] at hc
    exact hc.elim (fun hc => (hfront c hc).2.1) (fun hc => (hhost c hc).2.2.1)
  · intro c hc
    simp only [List.append_nil, List.mem_append] at hc
    exact hc.elim (fun hc => (hfront c hc).2.2) (fun hc => (hhost c hc).2.2.2)
  · nofun

def query (token : Bytes) : Bytes := cap ++ 61 :: token

theorem query_ne {token : Bytes} (htoken : ∀ c ∈ token, Bare c) {b : UInt8} (hb : b ∈ ([35, 38, 59, 63] : Bytes)) :
    ∀ c ∈ query token, c ≠ b := by
  intro c hc heq
  subst heq
  cases List.mem_append.mp hc with
  | inl hc => exact (forall_mem_of_all (by decide) : ∀ c ∈ cap, c ∉ ([35, 38, 59, 63] : Bytes)) c hc hb
  | inr hc =>
    cases List.mem_cons.mp hc with
    | inl hc => simp [hc] at hb
    | inr hc =>
      have hmarks := (htoken c hc).marks
      simp only [List.mem_cons] at hmarks hb
      tauto

theorem safe_query {token : Bytes} (htoken : ∀ c ∈ token, Bare c) : ∀ c ∈ query token, Safe c := by
  intro c hc
  cases List.mem_append.mp hc with
  | inl hc => exact (forall_mem_of_all (by decide) : ∀ c ∈ cap, Safe c) c hc
  | inr hc =>
    cases List.mem_cons.mp hc with
    | inl hc => exact hc ▸ by decide
    | inr hc => exact (htoken c hc).safe

theorem encode_set {token : Bytes} (htoken : ∀ c ∈ token, Bare c) :
    encode (set (parseQuery []) cap token) = query token := by
  have hcap : escape .queryComponent cap = cap := by decide
  have hset : set (parseQuery []) cap token = [(cap, token)] := by
    simp [UrlText.set, parseQuery, List.splitOn, List.splitOnP_nil]
  simp [hset, encode, hcap, escape_bare htoken, query, List.intercalate]

/-- The query that is written carries the token. -/
theorem get_query {token : Bytes} (htoken : ∀ c ∈ token, Bare c) : get (parseQuery (query token)) cap = token := by
  have hcap : unescape .queryComponent cap = some cap := by decide
  have hback : unescape .queryComponent token = some token := by
    have h := unescape_escape .queryComponent token
    rwa [escape_bare htoken] at h
  have hwhole : (query token).splitOn 38 = [query token] := by
    rw [List.splitOn, List.splitOnP_eq_singleton]
    exact fun c hc => by simpa using query_ne htoken (by decide) c hc
  have hcut : cutByte 61 (query token) = (cap, token) :=
    cutByte_append (forall_mem_of_all (by decide) : ∀ c ∈ cap, c ≠ 61) token
  have hsemicolon : 59 ∉ query token := fun hmem => query_ne htoken (by decide) 59 hmem rfl
  have hne : query token ≠ [] := by simp [query]
  simp [UrlText.get, parseQuery, hwhole, hne, hsemicolon, hcut, hcap, hback]

def redirected (host location rawPath rawQuery : Bytes) : URL where
  scheme := https
  host := host
  path := pkgsPath ++ location
  rawPath := rawPath
  rawQuery := rawQuery

/-- The URL of a redirect, and what it is read as. -/
theorem grantURL_eq (hgrammar : Syntax authority) {base : Bytes} (hbase : Accepted authority base)
    (location : Bytes) {token : Bytes} (htoken : ∀ c ∈ token, Bare c) :
    ∃ url host rawPath, grantURL authority base location token = some url ∧
      parse authority url = some (redirected host location rawPath (query token)) ∧
      (rawPath = [] ∨ rawPath = pkgsPath ++ escapePath location) := by
  obtain ⟨scheme, a, p, host, rfl, hp, hplain, hauthority, hhost⟩ := hbase.text hgrammar
  have hpath : ∀ rawQuery, ∃ rawPath,
      setPath { scheme := https, host := host, rawQuery := rawQuery } (pkgsPath ++ escapePath location) =
          some (redirected host location rawPath rawQuery) ∧
        (rawPath = [] ∨ rawPath = pkgsPath ++ escapePath location) ∧
        ∀ rawQuery', escapedPath (redirected host location rawPath rawQuery') = pkgsPath ++ escapePath location := by
    intro rawQuery
    rw [← escapePath_pkgsPath]
    exact setPath_escapePath _ (by simp [pkgsPath, ascii]) (by simp [pkgsPath, ascii])
  have hhead : (pkgsPath ++ escapePath location).head? = some 47 := rfl
  have hsafe : ∀ c ∈ pkgsPath ++ escapePath location, Safe c := by
    rw [← escapePath_pkgsPath]
    exact safe_escapePath _
  have ha : a ≠ [] := by
    intro hnil
    rw [hnil, hgrammar.blank] at hauthority
    simp only [Option.some.injEq, Prod.mk.injEq, true_and] at hauthority
    exact hhost hauthority.symm
  have htrim : trimRight (hostText scheme a p []) = scheme ++ 58 :: 47 :: 47 :: a := by
    have hlast : (scheme ++ 58 :: 47 :: 47 :: a).getLast? ≠ some 47 := by
      intro hlast
      rw [List.getLast?_append, List.getLast?_cons, List.getLast?_cons, List.getLast?_cons,
        List.getLast?_eq_some_getLast ha] at hlast
      simp only [Option.getD_some, Option.some_or, Option.some.injEq] at hlast
      exact hplain.authority 47 (hlast ▸ List.getLast_mem ha) rfl
    have htext : hostText scheme a p [] = scheme ++ 58 :: 47 :: 47 :: a ++ p := by simp [hostText]
    rw [htext]
    exact trimRight_append hlast hp
  have hjoin : scheme ++ 58 :: 47 :: 47 :: a ++ pkgsPath ++ escapePath location =
      hostText scheme a (pkgsPath ++ escapePath location) [] := by simp [hostText]
  obtain ⟨rawPath, hset, -, hescaped⟩ := hpath []
  obtain ⟨rawPath', hset', hraw', -⟩ := hpath (query token)
  have hfirst : parse authority (hostText scheme a (pkgsPath ++ escapePath location) []) =
      some (redirected host location rawPath []) := by
    rw [parse_hostText (plain_extend hplain hhead hsafe (List.forall_mem_nil _)), hauthority, Option.bind_some]
    exact hset
  have hprinted : string (redirected host location rawPath (query token)) =
      hostText https (escape .host host) (pkgsPath ++ escapePath location) (query token) := by
    rw [string_https rfl rfl rfl hhost (.inr (by rw [hescaped]; exact hhead)) rfl rfl, hescaped]
    rfl
  have hsecond : parse authority (hostText https (escape .host host) (pkgsPath ++ escapePath location) (query token)) =
      some (redirected host location rawPath' (query token)) := by
    rw [parse_hostText (plain_extend (plain_host host) hhead hsafe (safe_query htoken)),
      hgrammar.again a host hauthority,
      Option.bind_some]
    exact hset'
  refine ⟨_, host, rawPath', ?_, hsecond, hraw'⟩
  rw [grantURL, htrim, hjoin, hfirst, Option.map_some, ← hprinted, ← encode_set htoken]
  rfl

end Text

/-- What the router hands on of the path under `/munki/pkgs/`. -/
def route (u : URL) : Option Bytes :=
  let routePath := if u.rawPath ≠ [] then u.rawPath else u.path
  if pkgsPath.isPrefixOf routePath = true then some (routePath.drop pkgsPath.length) else none

def pathParam (u : URL) (value : Bytes) : Bytes :=
  if u.rawPath = [] then value else (unescape .pathSegment value).getD []

/-- The query value that holds the grant. -/
def capParam (u : URL) : Bytes := UrlText.get (parseQuery u.rawQuery) cap

structure PackageState where
  filename : Bytes
  sha256 : Bytes
  sizeBytes : Int
  deriving DecidableEq, Repr

/-- What `os.Open` and `Stat` find at a local path. -/
inductive LocalFile where
  | absent
  | unreadable
  | present (size : Int)
  deriving DecidableEq, Repr

structure Mirror where
  packages : Int → Option PackageState
  files : Int → Bytes → LocalFile

inductive Response where
  | rejected (status : Nat)
  | failed
  | content (filename : Bytes)
  deriving DecidableEq, Repr

section Worker

variable (hmac : Bytes → Bytes → Bytes) (codec : Codec)

def serve (mirror : Mirror) (key : Bytes) (now : Int) (u : URL) (wildcard : Bytes) : Response :=
  match verifyGrant hmac codec key (capParam u) now with
  | .error .expired => .rejected 410
  | .error _ => .rejected 401
  | .ok claims =>
    if claims.installerItemLocation ≠ pathParam u wildcard then .rejected 401
    else match mirror.packages claims.packageID with
      | none => .rejected 404
      | some state =>
        if claims.sha256 ≠ state.sha256 ∨ claims.sizeBytes ≠ state.sizeBytes then .rejected 409
        else match mirror.files claims.packageID state.filename with
          | .absent => .rejected 404
          | .unreadable => .failed
          | .present size => if size ≠ state.sizeBytes then .rejected 409 else .content state.filename

def handle (mirror : Mirror) (key : Bytes) (now : Int) (u : URL) : Response :=
  match route u with
  | none => .rejected 404
  | some wildcard => serve hmac codec mirror key now u wildcard

end Worker

section Admission

variable {hmac : Bytes → Bytes → Bytes} {codec : Codec} {key : Bytes} {claims : Claims}

/-- The text over which the MAC of a grant is taken. -/
def encodedPayload (codec : Codec) (claims : Claims) : Bytes :=
  Base64Url.encode (codec.marshal { claims with op := opGet })

theorem signGrant_eq : signGrant hmac codec key claims =
    encodedPayload codec claims ++ 46 :: Base64Url.encode (hmac key (encodedPayload codec claims)) := rfl

/-- The encoding of claims is a text that gives them back. -/
structure Codec.ReadsBack (codec : Codec) (claims : Claims) : Prop where
  text : codec.marshal claims ≠ []
  envelope : codec.envelope (codec.marshal claims) = some { op := claims.op, exp := claims.exp }
  claims : codec.claims (codec.marshal claims) = some claims

theorem bare_encode (s : Bytes) : ∀ c ∈ Base64Url.encode s, Bare c ∧ c ≠ 46 := by
  have hdigit : ∀ n : Fin 64, tokenByte (Base64Url.digit n.val) = true ∧ Base64Url.digit n.val ≠ 46 := by
    decide
  exact Base64Url.forall_mem_encode (fun n => ⟨bare_of_tokenByte _ (hdigit n).1, (hdigit n).2⟩) s

theorem bare_token (payload mac : Bytes) : ∀ c ∈ Base64Url.encode payload ++ 46 :: Base64Url.encode mac, Bare c := by
  intro c hc
  cases List.mem_append.mp hc with
  | inl hc => exact (bare_encode _ c hc).1
  | inr hc =>
    cases List.mem_cons.mp hc with
    | inl hc => exact hc ▸ bare_of_tokenByte 46 (by decide)
    | inr hc => exact (bare_encode _ c hc).1

theorem bare_signGrant : ∀ c ∈ signGrant hmac codec key claims, Bare c := bare_token _ _

/-- A token whose MAC is that of another text or of another key is not opened. -/
theorem openToken_forged {message mac : Bytes} (h : mac ≠ hmac key message) :
    openToken hmac key (message ++ 46 :: Base64Url.encode mac) = .error .invalid := by
  unfold openToken
  by_cases hdot : (46 : UInt8) ∈ message
  · obtain ⟨before, after, rfl, hbefore⟩ := List.eq_append_cons_of_mem hdot
    have hne : ∀ c ∈ before, c ≠ 46 := fun c hc heq => hbefore (heq ▸ hc)
    rw [List.append_assoc, List.cons_append, cutByte_append hne]
    simp
  · have hne : ∀ c ∈ message, c ≠ 46 := fun c hc heq => hdot (heq ▸ hc)
    rw [cutByte_append hne]
    simp [Base64Url.decode_encode, h]

/-- A grant that was signed with the key is read back, while it lasts. -/
theorem verifyGrant_signGrant (hcodec : codec.ReadsBack { claims with op := opGet })
    (hdigest : hmac key (encodedPayload codec claims) ≠ []) (now : Int) :
    verifyGrant hmac codec key (signGrant hmac codec key claims) now =
      if claims.exp ≤ now then .error .expired else .ok { claims with op := opGet } := by
  have hne : ∀ c ∈ encodedPayload codec claims, c ≠ 46 := fun c hc => (bare_encode _ c hc).2
  have hmac_ne : ∀ c ∈ Base64Url.encode (hmac key (encodedPayload codec claims)), c ≠ 46 :=
    fun c hc => (bare_encode _ c hc).2
  have hopen : openToken hmac key (signGrant hmac codec key claims) =
    .ok (codec.marshal { claims with op := opGet }) := by
    have hpayload : encodedPayload codec claims ≠ [] := Base64Url.encode_ne_nil hcodec.text
    have hdot : 46 ∉ Base64Url.encode (hmac key (encodedPayload codec claims)) := fun hmem => hmac_ne 46 hmem rfl
    rw [signGrant_eq, openToken, cutByte_append hne]
    simp only [hpayload, Base64Url.encode_ne_nil hdigest, hdot, or_self, if_false, Base64Url.decode_encode, ne_eq,
      not_true_eq_false]
    rw [encodedPayload, Base64Url.decode_encode]
  simp only [verifyGrant, verify, hopen, hcodec.envelope, hcodec.claims, ne_eq, not_true_eq_false, if_false]

/-- What the worker answers with when the key did not sign the token. -/
theorem handle_invalid {mirror : Mirror} {now : Int} {v : URL}
    (h : openToken hmac key (capParam v) = .error .invalid) :
    ∃ status, handle hmac codec mirror key now v = .rejected status := by
  have hverify : verifyGrant hmac codec key (capParam v) now = .error .invalid := by
    simp only [verifyGrant, verify, h]
  unfold handle
  cases route v with
  | none => exact ⟨404, rfl⟩
  | some wildcard => exact ⟨401, by simp only [serve, hverify]⟩

/-- Late, or on another location, a grant is refused. -/
theorem handle_refused (hcodec : codec.ReadsBack { claims with op := opGet })
    (hdigest : hmac key (encodedPayload codec claims) ≠ []) {mirror : Mirror} {now : Int} {v : URL}
    (htoken : capParam v = signGrant hmac codec key claims)
    (h : claims.exp ≤ now ∨ (route v).map (pathParam v) ≠ some claims.installerItemLocation) :
    ∃ status, handle hmac codec mirror key now v = .rejected status := by
  have hverify := verifyGrant_signGrant hcodec hdigest now
  unfold handle
  cases hroute : route v with
  | none => exact ⟨404, rfl⟩
  | some wildcard =>
    by_cases hlate : claims.exp ≤ now
    · rw [if_pos hlate] at hverify
      exact ⟨410, by simp only [serve, htoken, hverify]⟩
    · have hlocation : claims.installerItemLocation ≠ pathParam v wildcard := by
        intro heq
        apply h.resolve_left hlate
        rw [hroute, heq]
        rfl
      rw [if_neg hlate] at hverify
      exact ⟨401, by simp only [serve, htoken, hverify, ne_eq, hlocation, not_false_eq_true, if_true]⟩

/-- In time and on its own location it is served when the mirror holds the bytes. -/
theorem handle_admitted (hcodec : codec.ReadsBack { claims with op := opGet })
    (hdigest : hmac key (encodedPayload codec claims) ≠ []) {mirror : Mirror} {now : Int} {v : URL}
    (htoken : capParam v = signGrant hmac codec key claims) (hnow : now < claims.exp)
    (hlocation : (route v).map (pathParam v) = some claims.installerItemLocation) :
    (∃ filename, handle hmac codec mirror key now v = .content filename) ↔
      ∃ state, mirror.packages claims.packageID = some state ∧ state.sha256 = claims.sha256 ∧
        state.sizeBytes = claims.sizeBytes ∧
        mirror.files claims.packageID state.filename = .present state.sizeBytes := by
  have hverify := verifyGrant_signGrant hcodec hdigest now
  rw [if_neg (by omega)] at hverify
  obtain ⟨wildcard, hroute, hparam⟩ := Option.map_eq_some_iff.mp hlocation
  simp only [handle, hroute, serve, htoken, hverify, hparam, ne_eq, not_true_eq_false, if_false]
  cases hstate : mirror.packages claims.packageID with
  | none => simp
  | some state =>
    by_cases hsame : claims.sha256 = state.sha256 ∧ claims.sizeBytes = state.sizeBytes
    · have hmatch : ¬ (¬ claims.sha256 = state.sha256 ∨ ¬ claims.sizeBytes = state.sizeBytes) := by tauto
      simp only [if_neg hmatch]
      cases hfile : mirror.files claims.packageID state.filename with
      | absent => simp [hfile]
      | unreadable => simp [hfile]
      | present size =>
        by_cases hsize : size = state.sizeBytes
        · simp [hfile, hsize, hsame]
        · simp [hfile, hsize]
    · have hmatch : ¬ claims.sha256 = state.sha256 ∨ ¬ claims.sizeBytes = state.sizeBytes := by tauto
      simp only [if_pos hmatch, reduceCtorEq, exists_false, false_iff, Option.some.injEq]
      intro ⟨state', heq, hsha, hsize, _⟩
      subst heq
      exact hsame ⟨hsha.symm, hsize.symm⟩

/-- What is answered when the mirror holds an entry of the claims without its file. -/
theorem handle_absent (hcodec : codec.ReadsBack { claims with op := opGet })
    (hdigest : hmac key (encodedPayload codec claims) ≠ []) {mirror : Mirror} {now : Int} {v : URL}
    (htoken : capParam v = signGrant hmac codec key claims) (hnow : now < claims.exp)
    (hlocation : (route v).map (pathParam v) = some claims.installerItemLocation) {state : PackageState}
    (hstate : mirror.packages claims.packageID = some state) (hsha : claims.sha256 = state.sha256)
    (hsize : claims.sizeBytes = state.sizeBytes) (hfile : mirror.files claims.packageID state.filename = .absent) :
    handle hmac codec mirror key now v = .rejected 404 := by
  have hverify := verifyGrant_signGrant hcodec hdigest now
  rw [if_neg (by omega)] at hverify
  obtain ⟨wildcard, hroute, hparam⟩ := Option.map_eq_some_iff.mp hlocation
  simp only [handle, hroute, serve, htoken, hverify, hparam, hstate, hsha, hsize, hfile, ne_eq, not_true_eq_false,
    or_self, if_false]

/-- A route through which a location comes out as it went in. -/
theorem route_redirected {host location rawPath token : Bytes}
    (hraw : rawPath = [] ∨ rawPath = pkgsPath ++ escapePath location) :
    (route (redirected host location rawPath token)).map (pathParam (redirected host location rawPath token)) =
      some location := by
  have hne : ∀ s : Bytes, pkgsPath ++ s ≠ [] := fun s => by simp [pkgsPath, ascii]
  have hstrip : ∀ s : Bytes, (pkgsPath ++ s).drop pkgsPath.length = s := fun s => List.drop_left
  have hprefixed : ∀ s : Bytes, pkgsPath.isPrefixOf (pkgsPath ++ s) = true := fun s => by simp
  obtain rfl | rfl := hraw
  · simp [route, pathParam, redirected, hprefixed, hstrip]
  · have hback : unescape .pathSegment (escapePath location) = some location := unescape_escapePath (by decide) location
    simp [route, pathParam, redirected, hprefixed, hstrip, hne, hback]

theorem capParam_redirected {host location rawPath token : Bytes} (htoken : ∀ c ∈ token, Bare c) :
    capParam (redirected host location rawPath (query token)) = token := get_query htoken

end Admission

section Grants

variable {authority : Bytes → Option (Option Bytes × Bytes)} {hmac : Bytes → Bytes → Bytes} {codec : Codec}

/-- A redirect is read as its location and its claims, and honoured on them, in time and
with the key alone. -/
theorem grant_honoured (hgrammar : Syntax authority) {base : Bytes} (hbase : Accepted authority base)
    (key : Bytes) (claims : Claims) (hcodec : codec.ReadsBack { claims with op := opGet })
    (hdigest : hmac key (encodedPayload codec claims) ≠ []) {now : Int} (hnow : now < claims.exp) :
    ∃ url u,
      grantURL authority base claims.installerItemLocation (signGrant hmac codec key claims) = some url ∧
      parse authority url = some u ∧
      (route u).map (pathParam u) = some claims.installerItemLocation ∧
      capParam u = signGrant hmac codec key claims ∧
      verifyGrant hmac codec key (capParam u) now = .ok { claims with op := opGet } ∧
      (∀ mirror, (∃ filename, handle hmac codec mirror key now u = .content filename) ↔
        ∃ state, mirror.packages claims.packageID = some state ∧ state.sha256 = claims.sha256 ∧
          state.sizeBytes = claims.sizeBytes ∧
          mirror.files claims.packageID state.filename = .present state.sizeBytes) ∧
      ∀ mirror v,
        (∀ key' at', capParam v = signGrant hmac codec key' claims →
          hmac key' (encodedPayload codec claims) ≠ hmac key (encodedPayload codec claims) →
          ∃ status, handle hmac codec mirror key at' v = .rejected status) ∧
        (∀ altered at', capParam v =
            altered ++ 46 :: Base64Url.encode (hmac key (encodedPayload codec claims)) →
          hmac key (encodedPayload codec claims) ≠ hmac key altered →
          ∃ status, handle hmac codec mirror key at' v = .rejected status) ∧
        (∀ later, capParam v = signGrant hmac codec key claims → claims.exp ≤ later →
          ∃ status, handle hmac codec mirror key later v = .rejected status) ∧
        (∀ at', capParam v = signGrant hmac codec key claims →
          (route v).map (pathParam v) ≠ some claims.installerItemLocation →
          ∃ status, handle hmac codec mirror key at' v = .rejected status) := by
  obtain ⟨url, host, rawPath, hurl, hread, hraw⟩ :=
    grantURL_eq hgrammar hbase claims.installerItemLocation (@bare_signGrant hmac codec key claims)
  have hroute := @route_redirected host claims.installerItemLocation rawPath
    (query (signGrant hmac codec key claims)) hraw
  have htoken := @capParam_redirected host claims.installerItemLocation rawPath _
    (@bare_signGrant hmac codec key claims)
  refine ⟨url, _, hurl, hread, hroute, htoken, ?_, ?_, ?_⟩
  · rw [htoken, verifyGrant_signGrant hcodec hdigest, if_neg (by omega)]
  · exact fun mirror => handle_admitted hcodec hdigest htoken hnow hroute
  · intro mirror v
    constructor
    · intro key' at' hv hkey
      exact handle_invalid (by rw [hv, signGrant_eq]; exact openToken_forged hkey)
    · constructor
      · intro altered at' hv hmac_ne
        exact handle_invalid (by rw [hv]; exact openToken_forged hmac_ne)
      · constructor
        · exact fun later hv hlate => handle_refused hcodec hdigest hv (.inl hlate)
        · exact fun at' hv hlocation => handle_refused hcodec hdigest hv (.inr hlocation)

end Grants

def sampleAuthority (a : Bytes) : Option (Option Bytes × Bytes) :=
  if a = [] ∨ a = ascii "mdp.example" then some (none, a) else none

def sampleClaims : Claims where
  exp := 2000000000
  packageID := 7
  installerItemLocation := ascii "packages/7/installer/50% a,b#1.pkg"
  sha256 := ascii "aa"
  sizeBytes := 5
  distributionPointID := 3

/-- The claims as `encoding/json` writes them. -/
def samplePayload : Bytes := ascii
  "\x7b\"op\":\"get\",\"exp\":2000000000,\"package_id\":7,\"installer_item_location\":\"packages/7/installer/50% a,b#1.pkg\",\"sha256\":\"aa\",\"size_bytes\":5,\"distribution_point_id\":3\x7d"

def sampleCodec : Codec where
  marshal claims := if claims = { sampleClaims with op := opGet } then samplePayload else []
  envelope payload := if payload = samplePayload then some { op := opGet, exp := 2000000000 } else none
  claims payload := if payload = samplePayload then some { sampleClaims with op := opGet } else none

def sampleKey : Bytes := ascii "dp-key"

/-- HMAC-SHA-256 of the encoded payload under the key of the point. -/
def sampleHMAC (key message : Bytes) : Bytes :=
  if key = sampleKey ∧ message = Base64Url.encode samplePayload then
    [166, 64, 37, 49, 242, 214, 136, 142, 124, 19, 146, 2, 84, 145, 160, 248, 136, 29, 111, 139,
      149, 246, 39, 215, 162, 174, 92, 144, 31, 123, 128, 250]
  else []

def sampleBase : Bytes := normalizeClientBaseURL sampleAuthority " https://mdp.example/ "

theorem sampleBase_eq : sampleBase = ascii "https://mdp.example" := by decide +kernel

theorem sampleBase_accepted : Accepted sampleAuthority sampleBase where
  normalized := ⟨_, rfl⟩
  origin := by
    rw [sampleBase_eq]
    decide +kernel

theorem sampleSyntax : Syntax sampleAuthority where
  blank := rfl
  user a user host h := by
    unfold sampleAuthority at h
    split at h <;> simp at h
  again a host h := by
    unfold sampleAuthority at h
    split at h
    next ha =>
      obtain rfl : a = host := by simpa using h
      obtain rfl | rfl := ha
      · rfl
      · decide
    · cases h

def sampleToken : Bytes := signGrant sampleHMAC sampleCodec sampleKey sampleClaims

/-- A mirror with the package of the claims. -/
def servingMirror : Mirror where
  packages id :=
    if id = 7 then some { filename := ascii "50% a,b#1.pkg", sha256 := ascii "aa", sizeBytes := 5 } else none
  files _ _ := .present 5

/-- A request as the redirect asks for it, with another location or another token. -/
def tampered (location token : Bytes) : URL := redirected (ascii "mdp.example") location [] (query token)

/-- A token of another key, and one with another payload before the MAC of this one. -/
def otherKeyToken : Bytes := signGrant sampleHMAC sampleCodec (ascii "other-key") sampleClaims

def alteredPayload : Bytes := ascii "\x7b\"op\":\"get\"\x7d"

def alteredToken : Bytes :=
  Base64Url.encode alteredPayload ++
    46 :: Base64Url.encode (sampleHMAC sampleKey (encodedPayload sampleCodec sampleClaims))

theorem sampleCodec_marshal : sampleCodec.marshal { sampleClaims with op := opGet } = samplePayload := by
  simp only [sampleCodec, if_true]

theorem length_ascii (text : List Char) : (ascii (String.ofList text)).length = text.length := by
  rw [ascii, List.length_map, String.toList_ofList]

set_option maxRecDepth 4000 in
theorem length_samplePayload : samplePayload.length = 162 := length_ascii _

theorem sampleCodec_readsBack : sampleCodec.ReadsBack { sampleClaims with op := opGet } := by
  constructor
  · rw [sampleCodec_marshal]
    intro hnil
    have hlength := length_samplePayload
    rw [hnil] at hlength
    cases hlength
  · simp only [sampleCodec, if_true]
    rfl
  · simp only [sampleCodec, if_true]

theorem sampleHMAC_ne : sampleHMAC sampleKey (encodedPayload sampleCodec sampleClaims) ≠ [] := by
  rw [encodedPayload, sampleCodec_marshal, sampleHMAC, if_pos ⟨rfl, rfl⟩]
  exact List.cons_ne_nil _ _

theorem sampleHMAC_other : sampleHMAC (ascii "other-key") (encodedPayload sampleCodec sampleClaims) = [] :=
  if_neg fun h => absurd h.1 (by decide)

theorem sampleHMAC_altered : sampleHMAC sampleKey (Base64Url.encode alteredPayload) = [] := by
  apply if_neg
  rintro ⟨-, hsame⟩
  have hpayload := congrArg Base64Url.decode hsame
  rw [Base64Url.decode_encode, Base64Url.decode_encode] at hpayload
  have hlength := congrArg List.length (Option.some.inj hpayload)
  rw [length_samplePayload] at hlength
  exact absurd hlength (by decide +kernel)

theorem sampleGrant_honoured : ∃ url u,
    grantURL sampleAuthority sampleBase sampleClaims.installerItemLocation sampleToken = some url ∧
      parse sampleAuthority url = some u ∧ (route u).map (pathParam u) = some sampleClaims.installerItemLocation ∧
      verifyGrant sampleHMAC sampleCodec sampleKey (capParam u) 1900000000 = .ok { sampleClaims with op := opGet } ∧
      (∃ filename, handle sampleHMAC sampleCodec servingMirror sampleKey 1900000000 u = .content filename) ∧
      (∃ status, handle sampleHMAC sampleCodec servingMirror sampleKey 1900000000
        (tampered sampleClaims.installerItemLocation otherKeyToken) = .rejected status) ∧
      (∃ status, handle sampleHMAC sampleCodec servingMirror sampleKey 1900000000
        (tampered sampleClaims.installerItemLocation alteredToken) = .rejected status) ∧
      (∃ status, handle sampleHMAC sampleCodec servingMirror sampleKey 2000000000
        (tampered sampleClaims.installerItemLocation sampleToken) = .rejected status) ∧
      ∃ status, handle sampleHMAC sampleCodec servingMirror sampleKey 1900000000
        (tampered (ascii "packages/8/installer/a.pkg") sampleToken) = .rejected status := by
  have hnow : (1900000000 : Int) < sampleClaims.exp := by decide
  obtain ⟨url, u, hurl, hread, hroute, -, hverify, hserved, hrejected⟩ :=
    grant_honoured sampleSyntax sampleBase_accepted sampleKey sampleClaims sampleCodec_readsBack sampleHMAC_ne hnow
  refine ⟨url, u, hurl, hread, hroute, hverify, ?_, ?_, ?_, ?_, ?_⟩
  · exact (hserved servingMirror).mpr ⟨_, rfl, rfl, rfl, rfl⟩
  · apply (hrejected servingMirror (tampered _ otherKeyToken)).1 (ascii "other-key") 1900000000
      (capParam_redirected bare_signGrant)
    rw [sampleHMAC_other]
    exact sampleHMAC_ne.symm
  · apply (hrejected servingMirror (tampered _ alteredToken)).2.1 (Base64Url.encode alteredPayload) 1900000000
      (capParam_redirected (bare_token _ _))
    rw [sampleHMAC_altered]
    exact sampleHMAC_ne
  · exact (hrejected servingMirror (tampered _ sampleToken)).2.2.1 2000000000 (capParam_redirected bare_signGrant)
      (by decide)
  · apply (hrejected servingMirror (tampered _ sampleToken)).2.2.2 1900000000 (capParam_redirected bare_signGrant)
    rw [tampered, route_redirected (.inl rfl)]
    decide

/-- An entry with the hash and the size of the claims, and no file. -/
def sampleMirror : Mirror where
  packages id :=
    if id = 7 then some { filename := ascii "50% a,b#1.pkg", sha256 := ascii "aa", sizeBytes := 5 } else none
  files _ _ := .absent

theorem missing_file_refused :
    ((grantURL sampleAuthority sampleBase sampleClaims.installerItemLocation sampleToken).bind
        (parse sampleAuthority)).map (handle sampleHMAC sampleCodec sampleMirror sampleKey 1900000000) =
      some (.rejected 404) ∧
    ((sampleMirror.packages sampleClaims.packageID).map (fun state => (state.sha256, state.sizeBytes)) =
      some (sampleClaims.sha256, sampleClaims.sizeBytes)) := by
  obtain ⟨url, host, rawPath, hurl, hread, hraw⟩ :=
    @grantURL_eq _ sampleSyntax _ sampleBase_accepted sampleClaims.installerItemLocation sampleToken bare_signGrant
  refine ⟨?_, rfl⟩
  rw [hurl, Option.bind_some, hread, Option.map_some]
  exact congrArg some (handle_absent sampleCodec_readsBack sampleHMAC_ne (capParam_redirected bare_signGrant)
    (by decide) (route_redirected hraw) rfl rfl rfl rfl)

end RedirectGrants
