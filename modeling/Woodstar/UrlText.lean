import Mathlib.Data.List.TakeWhile
import Woodstar.UrlEscape

/-!
# URLs as texts

`net/url`: what `Parse` takes a text apart into and what `String` puts together again. The
syntax of an authority (user, host, port) is a parameter.
-/
namespace UrlText

open UrlEscape

structure URL where
  scheme : Bytes := []
  opaquePart : Bytes := []
  user : Option Bytes := none
  host : Bytes := []
  path : Bytes := []
  rawPath : Bytes := []
  forceQuery : Bool := false
  rawQuery : Bytes := []
  fragment : Bytes := []
  rawFragment : Bytes := []
  omitHost : Bool := false
  deriving DecidableEq, Repr

/-- The text before a byte, and the one after it. -/
def cutByte (sep : UInt8) (s : Bytes) : Bytes × Bytes := (s.takeWhile (· != sep), (s.dropWhile (· != sep)).tail)

def isControl (c : UInt8) : Bool := decide (c.toNat < 32) || decide (c.toNat = 127)

/-- `getScheme`, with what it has passed so far. -/
def getScheme (raw : Bytes) : Bytes → Bytes → Option (Bytes × Bytes)
  | _, [] => some ([], raw)
  | seen, c :: rest =>
    if isLetter c then getScheme raw (seen ++ [c]) rest
    else if isDigit c || decide (c ∈ ascii "+-.") then
      if seen = [] then some ([], raw) else getScheme raw (seen ++ [c]) rest
    else if c = 58 then if seen = [] then none else some (seen, rest)
    else some ([], raw)

def lower (s : Bytes) : Bytes := s.map (fun c => if 65 ≤ c && c ≤ 90 then c + 32 else c)

/-- `!$&'()*+,;=:@[]%` -/
def pathMarks : List Nat := [33, 36, 38, 39, 40, 41, 42, 43, 44, 59, 61, 58, 64, 91, 93, 37]

def validEncoded (s : Bytes) (mode : Encoding) : Bool :=
  s.all (fun c => decide (c.toNat ∈ pathMarks) || !shouldEscape c mode)

/-- The decoded text, and the raw one when that is not how it would be escaped. -/
def setEncoded (mode : Encoding) (s : Bytes) : Option (Bytes × Bytes) :=
  (unescape mode s).map (fun decoded => (decoded, if s = escape mode decoded then [] else s))

/-- The raw text where it stands for the decoded one. -/
def escaped (mode : Encoding) (raw decoded : Bytes) : Bytes :=
  if raw ≠ [] ∧ validEncoded raw mode = true ∧ unescape mode raw = some decoded then raw else escape mode decoded

def escapedPath (u : URL) : Bytes :=
  if u.rawPath ≠ [] ∧ validEncoded u.rawPath .path = true ∧ unescape .path u.rawPath = some u.path then u.rawPath
  else if u.path = [42] then [42]
  else escape .path u.path

section Parse

variable (authority : Bytes → Option (Option Bytes × Bytes))

def setPath (u : URL) (rest : Bytes) : Option URL :=
  (setEncoded .path rest).map (fun parts => { u with path := parts.1, rawPath := parts.2 })

/-- What follows the scheme and stands before the query. -/
def parseHierarchy (u : URL) (rest : Bytes) : Option URL :=
  if rest.head? ≠ some 47 ∧ u.scheme ≠ [] then some { u with opaquePart := rest }
  else if rest.head? ≠ some 47 ∧ 58 ∈ (cutByte 47 rest).1 then none
  else if (u.scheme ≠ [] ∨ ¬ ([47, 47, 47] : Bytes) <+: rest) ∧ ([47, 47] : Bytes) <+: rest then
    let text := (rest.drop 2).takeWhile (· != 47)
    match authority text with
    | none => none
    | some (user, host) => setPath { u with user := user, host := host } ((rest.drop 2).dropWhile (· != 47))
  else setPath { u with omitHost := decide (u.scheme ≠ [] ∧ rest.head? = some 47) } rest

/-- The text without its fragment. -/
def parseAll (raw : Bytes) : Option URL :=
  if raw.any isControl = true then none
  else if raw = [42] then some { path := [42] }
  else match getScheme raw [] raw with
    | none => none
    | some (scheme, rest) =>
      let u : URL := { scheme := lower scheme }
      if rest.getLast? = some 63 ∧ rest.count 63 = 1 then
        parseHierarchy authority { u with forceQuery := true } rest.dropLast
      else parseHierarchy authority { u with rawQuery := (cutByte 63 rest).2 } (cutByte 63 rest).1

def parse (raw : Bytes) : Option URL :=
  match parseAll authority (cutByte 35 raw).1 with
  | none => none
  | some u =>
    if (cutByte 35 raw).2 = [] then some u
    else (setEncoded .fragment (cutByte 35 raw).2).map (fun parts =>
      { u with fragment := parts.1, rawFragment := parts.2 })

end Parse

/-- Scheme and authority, as they are printed. -/
def front (u : URL) : Bytes :=
  (if u.scheme = [] then [] else u.scheme ++ [58]) ++
    if u.scheme = [] ∧ u.host = [] ∧ u.user = none then []
    else if u.omitHost = true ∧ u.host = [] ∧ u.user = none then []
    else (if u.host = [] ∧ u.path = [] ∧ u.user = none then [] else [47, 47]) ++
      (match u.user with
        | none => []
        | some user => user ++ [64]) ++ escape .host u.host

def string (u : URL) : Bytes :=
  (if u.opaquePart ≠ [] then (if u.scheme = [] then [] else u.scheme ++ [58]) ++ u.opaquePart
    else
      let path := escapedPath u
      front u ++ (if path ≠ [] ∧ path.head? ≠ some 47 ∧ u.host ≠ [] then [47] else []) ++
        (if front u = [] ∧ 58 ∈ (cutByte 47 path).1 then [46, 47] else []) ++ path) ++
    (if u.forceQuery = true ∨ u.rawQuery ≠ [] then 63 :: u.rawQuery else []) ++
    (if u.fragment = [] then [] else 35 :: escaped .fragment u.rawFragment u.fragment)

/-- `ParseQuery`, which passes over what it cannot read. -/
def parseQuery (query : Bytes) : List (Bytes × Bytes) :=
  (query.splitOn 38).filterMap (fun pair =>
    if pair = [] ∨ 59 ∈ pair then none
    else match unescape .queryComponent (cutByte 61 pair).1, unescape .queryComponent (cutByte 61 pair).2 with
      | some key, some value => some (key, value)
      | _, _ => none)

/-- `Values.Get`. -/
def get (values : List (Bytes × Bytes)) (key : Bytes) : Bytes :=
  ((values.find? (fun pair => decide (pair.1 = key))).map Prod.snd).getD []

/-- `Values.Set`. -/
def set (values : List (Bytes × Bytes)) (key value : Bytes) : List (Bytes × Bytes) :=
  values.filter (fun pair => decide (pair.1 ≠ key)) ++ [(key, value)]

/-- `Values.Encode`, the keys in their order. -/
def encode (values : List (Bytes × Bytes)) : Bytes :=
  ([38] : Bytes).intercalate ((values.mergeSort (fun a b => decide (a.1 ≤ b.1))).map (fun pair =>
    escape .queryComponent pair.1 ++ 61 :: escape .queryComponent pair.2))

section Cuts

variable {sep : UInt8} {s t : Bytes}

theorem cutByte_absent (h : ∀ c ∈ s, c ≠ sep) : cutByte sep s = (s, []) := by
  have hall : ∀ c ∈ s, (c != sep) = true := fun c hc => bne_iff_ne.mpr (h c hc)
  rw [cutByte, List.takeWhile_eq_self_iff.mpr hall, List.dropWhile_eq_nil_iff.mpr hall]
  rfl

theorem cutByte_append (h : ∀ c ∈ s, c ≠ sep) (t : Bytes) : cutByte sep (s ++ sep :: t) = (s, t) := by
  have hall : ∀ c ∈ s, (c != sep) = true := fun c hc => bne_iff_ne.mpr (h c hc)
  rw [cutByte, List.takeWhile_append_of_pos hall, List.dropWhile_append_of_pos hall]
  simp

theorem mem_takeWhile_ne {c : UInt8} (hc : c ∈ s.takeWhile (· != sep)) : c ≠ sep := by
  simpa using List.mem_takeWhile_imp hc

/-- Nothing after the separator, which is not a lone one at the end: there is none. -/
theorem cutByte_nil (hnil : (cutByte sep s).2 = []) (hlast : ¬ (s.getLast? = some sep ∧ s.count sep = 1)) :
    ∀ c ∈ s, c ≠ sep := by
  intro c hc heq
  subst heq
  obtain ⟨before, after, rfl, hbefore⟩ := List.eq_append_cons_of_mem hc
  have hne : ∀ b ∈ before, b ≠ c := fun b hb heq => hbefore (heq ▸ hb)
  rw [cutByte_append hne] at hnil
  obtain rfl : after = [] := hnil
  apply hlast
  constructor
  · simp
  · rw [List.count_append, List.count_eq_zero.mpr hbefore]
    simp

theorem head_dropWhile (sep : UInt8) (s : Bytes) :
    s.dropWhile (· != sep) = [] ∨ (s.dropWhile (· != sep)).head? = some sep := by
  have hhead := List.head?_dropWhile_not (· != sep) s
  cases hdrop : s.dropWhile (· != sep) with
  | nil => exact .inl rfl
  | cons c cs =>
    rw [hdrop] at hhead
    exact .inr (by simpa using hhead)

theorem takeWhile_append_head (h : ∀ c ∈ s, c ≠ sep) (ht : t = [] ∨ t.head? = some sep) :
    (s ++ t).takeWhile (· != sep) = s ∧ (s ++ t).dropWhile (· != sep) = t := by
  have hall : ∀ c ∈ s, (c != sep) = true := fun c hc => bne_iff_ne.mpr (h c hc)
  rw [List.takeWhile_append_of_pos hall, List.dropWhile_append_of_pos hall]
  cases t with
  | nil => simp
  | cons c cs =>
    obtain rfl : c = sep := by simpa using ht
    simp

end Cuts

/-- What is found to be a scheme is found in front of any other text. -/
theorem getScheme_spec {raw cs scheme rest : Bytes} {seen : Bytes}
    (h : getScheme raw seen cs = some (scheme, rest)) (hne : scheme ≠ []) :
    ∃ t, scheme = seen ++ t ∧ cs = t ++ 58 :: rest ∧
      ∀ raw' rest', getScheme raw' seen (t ++ 58 :: rest') = some (scheme, rest') := by
  induction cs generalizing seen with
  | nil =>
    simp only [getScheme, Option.some.injEq, Prod.mk.injEq] at h
    exact absurd h.1.symm hne
  | cons c cs ih =>
    by_cases hletter : isLetter c = true
    · simp only [getScheme, if_pos hletter] at h
      obtain ⟨t, rfl, rfl, hall⟩ := ih h
      exact ⟨c :: t, by simp, rfl, fun raw' rest' => by
        simp only [List.cons_append, getScheme, if_pos hletter]
        exact hall raw' rest'⟩
    · by_cases hmark : (isDigit c || decide (c ∈ ascii "+-.")) = true
      · by_cases hseen : seen = []
        · simp only [getScheme, if_neg hletter, if_pos hmark, if_pos hseen, Option.some.injEq, Prod.mk.injEq] at h
          exact absurd h.1.symm hne
        · simp only [getScheme, if_neg hletter, if_pos hmark, if_neg hseen] at h
          obtain ⟨t, rfl, rfl, hall⟩ := ih h
          exact ⟨c :: t, by simp, rfl, fun raw' rest' => by
            simp only [List.cons_append, getScheme, if_neg hletter, if_pos hmark, if_neg hseen]
            exact hall raw' rest'⟩
      · by_cases hcolon : c = 58
        · by_cases hseen : seen = []
          · simp only [getScheme, if_neg hletter, if_neg hmark, if_pos hcolon, if_pos hseen, reduceCtorEq] at h
          · simp only [getScheme, if_neg hletter, if_neg hmark, if_pos hcolon, if_neg hseen, Option.some.injEq,
              Prod.mk.injEq] at h
            obtain ⟨rfl, rfl⟩ := h
            subst hcolon
            exact ⟨[], by simp, rfl, fun raw' rest' => by
              simp only [List.nil_append, getScheme, if_neg hletter, if_neg hmark, if_neg hseen, if_true]⟩
        · simp only [getScheme, if_neg hletter, if_neg hmark, if_neg hcolon, Option.some.injEq, Prod.mk.injEq] at h
          exact absurd h.1.symm hne

/-- Without a scheme all of the text is left. -/
theorem getScheme_rest {raw cs rest seen : Bytes} (h : getScheme raw seen cs = some ([], rest)) : rest = raw := by
  induction cs generalizing seen with
  | nil => simpa [getScheme] using h.symm
  | cons c cs ih =>
    unfold getScheme at h
    split at h
    · exact ih h
    · split at h
      · split at h
        · simpa using h.symm
        · exact ih h
      · split at h
        · split at h
          next hseen => cases h
          next hseen => simp_all
        · simpa using h.symm

def https : Bytes := ascii "https"

theorem https_eq : https = [104, 116, 116, 112, 115] := by decide

/-- A scheme of HTTPS, in letters of any case. -/
structure IsHTTPS (scheme : Bytes) : Prop where
  found : ∀ raw rest, getScheme raw [] (scheme ++ 58 :: rest) = some (scheme, rest)
  lowered : lower scheme = https

theorem isHTTPS_https : IsHTTPS https where
  found raw rest := by
    rw [https_eq]
    simp [getScheme, show isLetter 104 = true by decide, show isLetter 116 = true by decide,
      show isLetter 112 = true by decide, show isLetter 115 = true by decide, show isLetter 58 = false by decide,
      show isDigit 58 = false by decide, show (58 : UInt8) ∉ ascii "+-." by decide]
  lowered := by decide

section Parse

variable {authority : Bytes → Option (Option Bytes × Bytes)} {scheme a p q : Bytes}

theorem parseHierarchy_host (ha : ∀ c ∈ a, c ≠ 47) (hp : p = [] ∨ p.head? = some 47) {u : URL}
    (hscheme : u.scheme ≠ []) :
    parseHierarchy authority u (47 :: 47 :: (a ++ p)) =
      (authority a).bind (fun parts => setPath { u with user := parts.1, host := parts.2 } p) := by
  obtain ⟨htake, hdrop⟩ := takeWhile_append_head ha hp
  have hhead : ¬ ((47 :: 47 :: (a ++ p) : Bytes).head? ≠ some 47) := by simp
  have hslashes : (u.scheme ≠ [] ∨ ¬ ([47, 47, 47] : Bytes) <+: 47 :: 47 :: (a ++ p)) ∧
      ([47, 47] : Bytes) <+: 47 :: 47 :: (a ++ p) := ⟨.inl hscheme, a ++ p, rfl⟩
  rw [parseHierarchy, if_neg (fun h => hhead h.1), if_neg (fun h => hhead h.1), if_pos hslashes]
  simp only [List.drop_succ_cons, List.drop_zero, htake, hdrop]
  cases authority a with
  | none => rfl
  | some parts => rfl

/-- A text with an authority and, perhaps, a path and a query. -/
def hostText (scheme a p q : Bytes) : Bytes := scheme ++ 58 :: 47 :: 47 :: (a ++ p) ++ if q = [] then [] else 63 :: q

/-- The parts hold none of the bytes that end them. -/
structure Plain (scheme a p q : Bytes) : Prop where
  opening : IsHTTPS scheme
  authority : ∀ c ∈ a, c ≠ 47
  path : p = [] ∨ p.head? = some 47
  noQuery : ∀ c ∈ a ++ p, c ≠ 63
  noFragment : ∀ c ∈ scheme ++ (a ++ p) ++ q, c ≠ 35
  noControl : ∀ c ∈ scheme ++ (a ++ p) ++ q, isControl c = false
  lastQuery : q.getLast? ≠ some 63

theorem mem_hostText {c : UInt8} (h : c ∈ hostText scheme a p q) :
    c ∈ ([58, 47, 63] : Bytes) ∨ c ∈ scheme ++ (a ++ p) ++ q := by
  unfold hostText at h
  by_cases hq : q = []
  · simp only [hq, if_true, List.mem_append, List.mem_cons, List.not_mem_nil, or_false] at h ⊢
    tauto
  · simp only [hq, if_false, List.mem_append, List.mem_cons, List.not_mem_nil, or_false] at h ⊢
    tauto

theorem parse_hostText (h : Plain scheme a p q) : parse authority (hostText scheme a p q) =
    (authority a).bind (fun parts =>
      setPath { scheme := https, user := parts.1, host := parts.2, rawQuery := q } p) := by
  have hfragment : ∀ c ∈ hostText scheme a p q, c ≠ 35 := by
    intro c hc
    cases mem_hostText hc with
    | inl hmark => exact (forall_mem_of_all (by decide) : ∀ c ∈ ([58, 47, 63] : Bytes), c ≠ 35) c hmark
    | inr hpart => exact h.noFragment c hpart
  have hcontrol : (hostText scheme a p q).any isControl = false := by
    apply List.any_eq_false.mpr
    intro c hc
    cases mem_hostText hc with
    | inl hmark => exact (forall_mem_of_all (by decide) : ∀ c ∈ ([58, 47, 63] : Bytes), ¬ isControl c = true) c hmark
    | inr hpart => simp [h.noControl c hpart]
  have hscheme : getScheme (hostText scheme a p q) [] (hostText scheme a p q) =
      some (scheme, 47 :: 47 :: (a ++ p) ++ if q = [] then [] else 63 :: q) := by
    rw [hostText, List.append_assoc]
    exact h.opening.found _ _
  have hstar : hostText scheme a p q ≠ [42] := by
    intro heq
    have hlength := congrArg List.length heq
    simp only [hostText, List.length_append, List.length_cons, List.length_nil] at hlength
    omega
  have hslash : ∀ c ∈ (47 :: 47 :: (a ++ p) : Bytes), c ≠ 63 := by
    intro c hc
    simp only [List.mem_cons] at hc
    obtain rfl | rfl | hc := hc
    · decide
    · decide
    · exact h.noQuery c hc
  have hne : https ≠ [] := by decide
  have hall : parseAll authority (hostText scheme a p q) = (authority a).bind (fun parts =>
      setPath { scheme := https, user := parts.1, host := parts.2, rawQuery := q } p) := by
    rw [parseAll, if_neg (by rw [hcontrol]; exact Bool.false_ne_true), if_neg hstar]
    simp only [hscheme, h.opening.lowered]
    by_cases hq : q = []
    · have hcount : (47 :: 47 :: (a ++ p) : Bytes).count 63 = 0 :=
        List.count_eq_zero.mpr (fun hmem => hslash 63 hmem rfl)
      rw [if_pos hq, List.append_nil, if_neg (by rw [hcount]; simp), cutByte_absent hslash, hq]
      exact parseHierarchy_host h.authority h.path hne
    · have hlast : (47 :: 47 :: (a ++ p) ++ 63 :: q : Bytes).getLast? ≠ some 63 := by
        rw [List.getLast?_append, List.getLast?_cons, List.getLast?_eq_some_getLast hq]
        have hend := h.lastQuery
        rw [List.getLast?_eq_some_getLast hq] at hend
        simpa using hend
      rw [if_neg hq, if_neg (fun hboth => hlast hboth.1), cutByte_append hslash]
      exact parseHierarchy_host h.authority h.path hne
  rw [parse, cutByte_absent hfragment, hall]
  cases (authority a).bind (fun parts =>
      setPath { scheme := https, user := parts.1, host := parts.2, rawQuery := q } p) <;> rfl

end Parse

/-- How a URL with a host and a path is printed. -/
theorem string_https {u : URL} (hscheme : u.scheme = https) (hhierarchy : u.opaquePart = []) (huser : u.user = none)
    (hhost : u.host ≠ []) (hpath : escapedPath u = [] ∨ (escapedPath u).head? = some 47)
    (hforce : u.forceQuery = false) (hfragment : u.fragment = []) :
    string u = hostText https (escape .host u.host) (escapedPath u) u.rawQuery := by
  have hfront : front u = https ++ 58 :: 47 :: 47 :: escape .host u.host := by
    have hne : ¬ https = [] := by decide
    simp [front, hscheme, huser, hhost, hne]
  have hslash : ¬ (escapedPath u ≠ [] ∧ (escapedPath u).head? ≠ some 47 ∧ u.host ≠ []) := by tauto
  simp only [string, hhierarchy, hforce, hfragment, if_neg hslash, hfront, hostText]
  by_cases hq : u.rawQuery = [] <;> simp [hq]

section Reading

variable {authority : Bytes → Option (Option Bytes × Bytes)}

theorem setPath_eq {u v : URL} {rest : Bytes} (h : setPath u rest = some v) :
    ∃ path, unescape .path rest = some path ∧
      v = { u with path := path, rawPath := if rest = escape .path path then [] else rest } := by
  simp only [setPath, setEncoded, Option.map_map, Option.map_eq_some_iff] at h
  obtain ⟨path, hpath, rfl⟩ := h
  exact ⟨path, hpath, rfl⟩

/-- An opaque text, a path alone, or a host and a path. -/
theorem parseHierarchy_eq {u v : URL} {rest : Bytes} (h : parseHierarchy authority u rest = some v) :
    v = { u with opaquePart := rest } ∨
      (∃ omitHost, setPath { u with omitHost := omitHost } rest = some v) ∨
      ∃ a p parts, rest = 47 :: 47 :: (a ++ p) ∧ (∀ c ∈ a, c ≠ 47) ∧ (p = [] ∨ p.head? = some 47) ∧
        authority a = some parts ∧ setPath { u with user := parts.1, host := parts.2 } p = some v := by
  unfold parseHierarchy at h
  split at h
  · exact .inl (Option.some.inj h).symm
  · split at h
    · cases h
    · split at h
      next hslashes =>
        obtain ⟨t, rfl⟩ := hslashes.2
        simp only [List.cons_append, List.nil_append, List.drop_succ_cons, List.drop_zero] at h
        split at h
        · cases h
        next user host hauthority =>
          exact .inr (.inr ⟨_, _, (user, host), by rw [List.takeWhile_append_dropWhile]; rfl,
            fun c hc => mem_takeWhile_ne hc, head_dropWhile 47 t, hauthority, h⟩)
      · exact .inr (.inl ⟨_, h⟩)

/-- The parts that stand before a fragment hold none of the bytes that begin one. -/
structure Clean (authority : Bytes → Option (Option Bytes × Bytes)) (u : URL) : Prop where
  text : ∀ c ∈ u.scheme ++ u.opaquePart ++ u.rawQuery, c ≠ 35
  user : u.user = none ∨ ∃ a, authority a = some (u.user, u.host)

theorem setPath_clean {u v : URL} {rest : Bytes} (h : setPath u rest = some v) (hclean : Clean authority u) :
    Clean authority v := by
  obtain ⟨path, -, rfl⟩ := setPath_eq h
  exact ⟨hclean.text, hclean.user⟩

theorem parseHierarchy_clean {u v : URL} {rest : Bytes} (h : parseHierarchy authority u rest = some v)
    (hhierarchy : u.opaquePart = []) (hrest : ∀ c ∈ rest, c ≠ 35) (hclean : Clean authority u) :
    Clean authority v := by
  have htext := hclean.text
  simp only [hhierarchy, List.append_nil, List.mem_append] at htext
  obtain rfl | ⟨omitHost, hpath⟩ | ⟨a, p, parts, -, -, -, hauthority, hpath⟩ := parseHierarchy_eq h
  · constructor
    · intro c hc
      simp only [List.mem_append] at hc
      obtain (hc | hc) | hc := hc
      · exact htext c (.inl hc)
      · exact hrest c hc
      · exact htext c (.inr hc)
    · exact hclean.user
  · exact setPath_clean hpath ⟨hclean.text, hclean.user⟩
  · exact setPath_clean hpath ⟨hclean.text, .inr ⟨a, hauthority⟩⟩

theorem lower_ne {s : Bytes} (h : ∀ c ∈ s, c ≠ 35) : ∀ c ∈ lower s, c ≠ 35 := by
  have hbyte : ∀ c : UInt8, c ≠ 35 → (if 65 ≤ c && c ≤ 90 then c + 32 else c) ≠ 35 :=
    forall_byte (by decide +kernel)
  intro c hc
  obtain ⟨b, hb, rfl⟩ := List.mem_map.mp hc
  exact hbyte b (h b hb)

/-- What a scheme and the text after it hold, the text held. -/
theorem mem_getScheme {raw scheme rest : Bytes} (h : getScheme raw [] raw = some (scheme, rest)) :
    (∀ c ∈ scheme, c ∈ raw) ∧ ∀ c ∈ rest, c ∈ raw := by
  by_cases hne : scheme = []
  · subst hne
    exact ⟨nofun, fun c hc => getScheme_rest h ▸ hc⟩
  · obtain ⟨t, rfl, hraw, -⟩ := getScheme_spec h hne
    rw [hraw]
    exact ⟨fun c hc => by simp_all, fun c hc => by simp [hc]⟩

theorem parseAll_clean {raw : Bytes} {u : URL} (h : parseAll authority raw = some u) (hraw : ∀ c ∈ raw, c ≠ 35) :
    Clean authority u := by
  unfold parseAll at h
  split at h
  · cases h
  · split at h
    · obtain rfl := Option.some.inj h
      exact ⟨nofun, .inl rfl⟩
    · split at h
      · cases h
      next scheme rest hscheme =>
        obtain ⟨hfront, hback⟩ := mem_getScheme hscheme
        have hlower := lower_ne (fun c hc => hraw c (hfront c hc))
        have hrest : ∀ c ∈ rest, c ≠ 35 := fun c hc => hraw c (hback c hc)
        split at h
        · apply parseHierarchy_clean h rfl (fun c hc => hrest c (List.dropLast_subset _ hc))
          exact ⟨by simpa using hlower, .inl rfl⟩
        · apply parseHierarchy_clean h rfl (fun c hc => hrest c ((List.takeWhile_subset _) hc))
          constructor
          · intro c hc
            simp only [List.append_nil, List.mem_append] at hc
            cases hc with
            | inl hc => exact hlower c hc
            | inr hc => exact hrest c ((List.dropWhile_subset _) (List.mem_of_mem_tail hc))
          · exact .inl rfl

theorem parse_clean {raw : Bytes} {u : URL} (h : parse authority raw = some u) : Clean authority u := by
  unfold parse at h
  split at h
  · cases h
  next v hall =>
    have hclean := parseAll_clean hall (fun c hc => mem_takeWhile_ne hc)
    split at h
    · obtain rfl := Option.some.inj h
      exact hclean
    · simp only [Option.map_eq_some_iff] at h
      obtain ⟨parts, -, rfl⟩ := h
      exact ⟨hclean.text, hclean.user⟩

/-- The bytes of a path as it is printed. -/
theorem escapedPath_ne (u : URL) : ∀ c ∈ escapedPath u, c ≠ 35 := by
  have hescape : ∀ c, ∀ b ∈ escapeByte .path c, b ≠ 35 := forall_byte_mem (by decide +kernel)
  have hraw : ∀ c : UInt8, (decide (c.toNat ∈ pathMarks) || !shouldEscape c .path) = true → c ≠ 35 :=
    forall_byte (by decide +kernel)
  intro c hc
  unfold escapedPath at hc
  split at hc
  next hvalid => exact hraw c (List.all_eq_true.mp hvalid.2.1 c hc)
  · split at hc
    · obtain rfl := List.mem_singleton.mp hc
      decide
    · exact mem_escape hescape hc

theorem front_ne {u : URL} (hscheme : ∀ c ∈ u.scheme, c ≠ 35)
    (huser : ∀ user, u.user = some user → ∀ c ∈ user, c ≠ 35) :
    ∀ c ∈ front u, c ≠ 35 := by
  have hescape : ∀ c, ∀ b ∈ escapeByte .host c, b ≠ 35 := forall_byte_mem (by decide +kernel)
  have hname : ∀ c ∈ (match u.user with | none => [] | some user => user ++ [64] : Bytes), c ≠ 35 := by
    cases hu : u.user with
    | none => nofun
    | some user =>
      intro c hc
      cases List.mem_append.mp hc with
      | inl hc => exact huser user hu c hc
      | inr hc => exact List.mem_singleton.mp hc ▸ by decide
  intro c hc
  unfold front at hc
  cases List.mem_append.mp hc with
  | inl hc =>
    split at hc
    · exact absurd hc List.not_mem_nil
    · cases List.mem_append.mp hc with
      | inl hc => exact hscheme c hc
      | inr hc => exact List.mem_singleton.mp hc ▸ by decide
  | inr hc =>
    split at hc
    · exact absurd hc List.not_mem_nil
    · split at hc
      · exact absurd hc List.not_mem_nil
      · simp only [List.mem_append] at hc
        obtain (hc | hc) | hc := hc
        · split at hc
          · exact absurd hc List.not_mem_nil
          · exact (forall_mem_of_all (by decide) : ∀ c ∈ ([47, 47] : Bytes), c ≠ 35) c hc
        · exact hname c hc
        · exact mem_escape hescape hc

theorem escaped_ne_nil {mode : Encoding} {raw s : Bytes} (h : s ≠ []) : escaped mode raw s ≠ [] := by
  unfold escaped
  split
  next hraw => exact hraw.1
  · exact escape_ne_nil h

/-- What is printed in front of the fragment. -/
theorem string_front {u : URL} (hclean : Clean authority u) (huser : ∀ user, u.user = some user → ∀ c ∈ user, c ≠ 35) :
    ∃ text, (∀ c ∈ text, c ≠ 35) ∧
      string u = text ++ if u.fragment = [] then [] else 35 :: escaped .fragment u.rawFragment u.fragment := by
  refine ⟨_, ?_, rfl⟩
  have htext := hclean.text
  simp only [List.mem_append] at htext
  have hscheme : ∀ c ∈ u.scheme, c ≠ 35 := fun c hc => htext c (.inl (.inl hc))
  intro c hc
  cases List.mem_append.mp hc with
  | inl hc =>
    split at hc
    · cases List.mem_append.mp hc with
      | inl hc =>
        split at hc
        · exact absurd hc List.not_mem_nil
        · cases List.mem_append.mp hc with
          | inl hc => exact hscheme c hc
          | inr hc => exact List.mem_singleton.mp hc ▸ by decide
      | inr hc => exact htext c (.inl (.inr hc))
    · simp only [List.mem_append] at hc
      obtain ((hc | hc) | hc) | hc := hc
      · exact front_ne hscheme huser c hc
      · split at hc
        · exact List.mem_singleton.mp hc ▸ by decide
        · exact absurd hc List.not_mem_nil
      · split at hc
        · exact (forall_mem_of_all (by decide) : ∀ c ∈ ([46, 47] : Bytes), c ≠ 35) c hc
        · exact absurd hc List.not_mem_nil
      · exact escapedPath_ne u c hc
  | inr hc =>
    split at hc
    · cases List.mem_cons.mp hc with
      | inl hc => exact hc ▸ by decide
      | inr hc => exact htext c (.inr hc)
    · exact absurd hc List.not_mem_nil

theorem parse_fragment {text f : Bytes} {u : URL} (htext : ∀ c ∈ text, c ≠ 35) (hf : f ≠ [])
    (h : parse authority (text ++ 35 :: f) = some u) : u.fragment ≠ [] := by
  unfold parse at h
  rw [cutByte_append htext] at h
  split at h
  · cases h
  · simp only [if_neg hf, setEncoded, Option.map_map, Option.map_eq_some_iff] at h
    obtain ⟨decoded, hdecoded, rfl⟩ := h
    intro hnil
    exact hf (unescape_nil (hdecoded.trans (congrArg some hnil)))

/-- Only the empty path and the root are read as such. -/
theorem unescape_root {p : Bytes} (hp : p = [] ∨ p.head? = some 47) {path : Bytes}
    (h : unescape .path p = some path) (hpath : path = [] ∨ path = [47]) : p = [] ∨ p = [47] := by
  cases p with
  | nil => exact .inl rfl
  | cons c cs =>
    obtain rfl : c = 47 := by simpa using hp
    rw [unescape_cons (by decide) (by simp)] at h
    obtain ⟨rest, hrest, rfl⟩ := Option.map_eq_some_iff.mp h
    obtain rfl : rest = [] := by simpa using hpath
    exact .inr (by rw [unescape_nil hrest])

theorem parseHierarchy_bare {u v : URL} {rest : Bytes} (h : parseHierarchy authority u rest = some v)
    (hnone : u.host = []) (hhost : v.host ≠ []) (hpath : v.path = [] ∨ v.path = [47]) :
    ∃ a p, rest = 47 :: 47 :: (a ++ p) ∧ (∀ c ∈ a, c ≠ 47) ∧ (p = [] ∨ p = [47]) ∧
      authority a = some (v.user, v.host) ∧ v.scheme = u.scheme ∧ v.forceQuery = u.forceQuery ∧
      v.rawQuery = u.rawQuery := by
  obtain rfl | ⟨omitHost, hset⟩ | ⟨a, p, parts, rfl, ha, hp, hauthority, hset⟩ := parseHierarchy_eq h
  · exact absurd hnone hhost
  · obtain ⟨path, -, rfl⟩ := setPath_eq hset
    exact absurd hnone hhost
  · obtain ⟨path, hunescape, rfl⟩ := setPath_eq hset
    exact ⟨a, p, rfl, ha, unescape_root hp hunescape hpath, hauthority, rfl, rfl, rfl⟩

/-- A text that is read as a scheme and a host, with no more than a slash after them. -/
theorem parse_bare {s : Bytes} {u : URL} (h : parse authority s = some u) (hsharp : ∀ c ∈ s, c ≠ 35)
    (hscheme : u.scheme = https) (hhost : u.host ≠ []) (hforce : u.forceQuery = false) (hquery : u.rawQuery = [])
    (hpath : u.path = [] ∨ u.path = [47]) :
    ∃ scheme a p, s = hostText scheme a p [] ∧ (p = [] ∨ p = [47]) ∧ Plain scheme a p [] ∧
      authority a = some (u.user, u.host) := by
  have hall : parseAll authority s = some u := by
    rw [parse, cutByte_absent hsharp] at h
    cases hread : parseAll authority s with
    | none => simp [hread] at h
    | some v => simpa [hread] using h
  unfold parseAll at hall
  split at hall
  · cases hall
  next hcontrol =>
    have hplain : ∀ c ∈ s, isControl c = false := by
      intro c hc
      by_contra hne
      exact hcontrol (List.any_eq_true.mpr ⟨c, hc, by simpa using hne⟩)
    split at hall
    · obtain rfl := Option.some.inj hall
      exact absurd rfl hhost
    · split at hall
      · cases hall
      next scheme rest hfound =>
        -- the query is neither forced nor there, so that the rest is read whole
        have hrest : (∀ c ∈ rest, c ≠ 63) ∧ parseHierarchy authority { scheme := lower scheme } rest = some u := by
          split at hall
          · obtain ⟨-, -, -, -, -, -, -, hforced, -⟩ := parseHierarchy_bare hall rfl hhost hpath
            exact Bool.noConfusion (hforced.symm.trans hforce)
          next hlast =>
            obtain ⟨-, -, -, -, -, -, -, -, hcut⟩ := parseHierarchy_bare hall rfl hhost hpath
            have habsent := cutByte_nil (hcut.symm.trans hquery) hlast
            rw [cutByte_absent habsent] at hall
            exact ⟨habsent, hall⟩
        obtain ⟨a, p, rfl, ha, hp, hauthority, hlower, -, -⟩ := parseHierarchy_bare hrest.2 rfl hhost hpath
        have hlowered : lower scheme = https := hlower.symm.trans hscheme
        have hne : scheme ≠ [] := by
          intro hnil
          rw [hnil] at hlowered
          exact absurd hlowered (by decide)
        obtain ⟨t, hseen, htext, hopening⟩ := getScheme_spec hfound hne
        obtain rfl : scheme = t := by simpa using hseen
        have hmem : ∀ c ∈ scheme ++ (a ++ p) ++ [], c ∈ s := by
          intro c hc
          rw [htext]
          simp only [List.append_nil, List.mem_append, List.mem_cons] at hc ⊢
          tauto
        exists scheme, a, p
        constructor
        · rw [hostText, if_pos rfl, List.append_nil]
          exact htext
        · constructor
          · exact hp
          · constructor
            · exact {
                opening := ⟨hopening, hlowered⟩
                authority := ha
                path := hp.imp_right (fun hroot => by rw [hroot]; rfl)
                noQuery := fun c hc => hrest.1 c (List.mem_cons_of_mem _ (List.mem_cons_of_mem _ hc))
                noFragment := fun c hc => hsharp c (hmem c hc)
                noControl := fun c hc => hplain c (hmem c hc)
                lastQuery := nofun }
            · exact hauthority

end Reading

end UrlText
