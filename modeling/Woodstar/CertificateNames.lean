import Mathlib.Data.List.DropRight
import Woodstar.Placeholders
import Woodstar.TextPieces

/-!
# Distinguished names of certificates

osquery prints a distinguished name as `/C=AU/O=Example/CN=name` and writes a
slash inside a value as `\/`. The parser puts a placeholder for that and splits
at the other slashes; a name of one part is split at `+` instead.
-/
namespace CertificateNames

open GoText
open Placeholders
open TextPieces

structure CertificateName where
  country : List Char
  organization : List Char
  organizationalUnit : List Char
  commonName : List Char
  deriving DecidableEq, Repr

def CertificateName.empty : CertificateName := ⟨[], [], [], []⟩

inductive Attribute where
  | country | organization | organizationalUnit | commonName
  deriving DecidableEq, Repr

/-- The switch on `strings.ToUpper(key)`. No letter but c, o, u and n has one of
these as its upper case. -/
def attributeOf (key : List Char) : Option Attribute :=
  let upper := key.map Char.toUpper
  if upper = ['C'] then some .country
  else if upper = ['O'] then some .organization
  else if upper = ['O', 'U'] then some .organizationalUnit
  else if upper = ['C', 'N'] then some .commonName
  else none

/-- `"\x00SLASH\x00"`. -/
def escapedSlash : List Char := ['\x00', 'S', 'L', 'A', 'S', 'H', '\x00']

/-- `strings.Trim(value, "/")`. -/
def trimSlashes (s : List Char) : List Char := (s.dropWhile (· == '/')).rdropWhile (· == '/')

/-- The name and the organizational units that the loop has collected. -/
def addPart (acc : CertificateName × List (List Char)) (part : List Char) :
    CertificateName × List (List Char) :=
  match cut ['='] part with
  | none => acc
  | some (key, val) =>
    let val := replaceAll escapedSlash ['/'] val
    match attributeOf key with
    | some .country => ({ acc.1 with country := val }, acc.2)
    | some .organization => ({ acc.1 with organization := val }, acc.2)
    | some .organizationalUnit => (acc.1, acc.2 ++ [val])
    | some .commonName => ({ acc.1 with commonName := val }, acc.2)
    | none => acc

def unitSeparator : List Char := ['+', 'O', 'U', '=']

def parseDarwinCertificateName (value : List Char) : CertificateName :=
  let dn := replaceAll ['\\', '/'] escapedSlash (trimSlashes value)
  let parts := split ['/'] dn
  let parts := if parts.length = 1 then split ['+'] dn else parts
  let acc := parts.foldl addPart (CertificateName.empty, [])
  let name := { acc.1 with organizationalUnit := unitSeparator.intercalate acc.2 }
  if name = CertificateName.empty then { name with commonName := value } else name

def parseCertificateName (value : List Char) : CertificateName :=
  if value = [] then CertificateName.empty else parseDarwinCertificateName value

/-- The name of an attribute type has none of the characters of the form. -/
structure Key where
  text : List Char
  nonempty : text ≠ []
  plain : ∀ c ∈ text, c ≠ '/' ∧ c ≠ '=' ∧ c ≠ '+'

structure Pair where
  key : Key
  value : List Char

def escape (s : List Char) : List Char := s.flatMap (fun c => if c = '/' then ['\\', '/'] else [c])

def Pair.render (p : Pair) : List Char := '/' :: (p.key.text ++ '=' :: escape p.value)

def render (ps : List Pair) : List Char := ps.flatMap Pair.render

/-- The value of the last pair of an attribute. -/
def lastValue (a : Attribute) (es : List (List Char × List Char)) : List Char :=
  ((es.filter (fun e => attributeOf e.1 = some a)).getLast?).elim [] (·.2)

def unitValues (es : List (List Char × List Char)) : List (List Char) :=
  (es.filter (fun e => attributeOf e.1 = some .organizationalUnit)).map (·.2)

/-- The last C, O and CN values and all OU values in order. -/
def nameOf (es : List (List Char × List Char)) : CertificateName where
  country := lastValue .country es
  organization := lastValue .organization es
  organizationalUnit := unitSeparator.intercalate (unitValues es)
  commonName := lastValue .commonName es

def Pair.entry (p : Pair) : List Char × List Char := (p.key.text, p.value)

def Pair.named (p : Pair) : Prop := attributeOf p.key.text ≠ none

/-- The name comes back; the whole text stands for it only when none of the four attributes is
there with a value. -/
def Decodes (ps : List Pair) : Prop :=
  parseDarwinCertificateName (render ps) = nameOf (ps.map Pair.entry) ∨
    (parseDarwinCertificateName (render ps) =
        { CertificateName.empty with commonName := render ps } ∧
      ∀ p ∈ ps, p.named → p.value = [])

/-- A value in front of another pair does not end with a backslash, which would read as the
escape of that pair's slash. -/
def Determined (ps : List Pair) : Prop := ∀ p ∈ ps.dropLast, p.value.getLast? ≠ some '\\'

/-- The value does not spell the placeholder. -/
def Unmarked (s : List Char) : Prop :=
  ¬ escapedSlash <:+: s ∧ ¬ ['\x00', 'S', 'L', 'A', 'S', 'H', '/'] <:+: s

/-- The entries that the pieces of a value behind its plus signs spell. -/
def spelled (value : List Char) : List (List Char × List Char) :=
  (split ['+'] value).tail.filterMap (cut ['='])

/-- What a name of one pair must not spell behind a plus sign. -/
def LoneReadable (p : Pair) : Prop :=
  match attributeOf p.key.text with
  | none => nameOf (spelled p.value) = CertificateName.empty
  | some .organizationalUnit => ∀ piece ∈ (split ['+'] p.value).tail, ['O', 'U', '='] <+: piece
  | some _ => '+' ∉ p.value

/-- When the parser reads the name back. -/
structure Readable (ps : List Pair) : Prop where
  units : ∀ p ∈ ps, attributeOf p.key.text = some .organizationalUnit → Unmarked p.value
  lasts : ∀ a, a ≠ .organizationalUnit →
    ∀ p ∈ (ps.filter (fun p => attributeOf p.key.text = some a)).getLast?, Unmarked p.value
  slash : ∀ p ∈ ps.getLast?, p.named → p.value.getLast? ≠ some '/'
  lone : ∀ p, ps = [p] → LoneReadable p
  fallback : nameOf (ps.map Pair.entry) = CertificateName.empty →
    ∀ p ∈ ps, p.named → p.value = []

/-- A slash at the end of the last value is trimmed and leaves its backslash. -/
def cutEnd (s : List Char) : List Char :=
  if s.getLast? = some '/' then s.dropLast ++ ['\\'] else s

def Pair.ended (p : Pair) : Pair := { p with value := cutEnd p.value }

theorem escape_append (s t : List Char) : escape (s ++ t) = escape s ++ escape t :=
  List.flatMap_append

theorem escape_cons {c : Char} (hc : c ≠ '/') (s : List Char) :
    escape (c :: s) = c :: escape s := by
  simp [escape, hc]

theorem escape_slash (s : List Char) : escape ('/' :: s) = '\\' :: '/' :: escape s := by
  simp [escape]

theorem escape_eq_self {s : List Char} (h : '/' ∉ s) : escape s = s := by
  induction s with
  | nil => rfl
  | cons c cs ih =>
    obtain ⟨hne, hcs⟩ := not_or.mp (fun h' => h (List.mem_cons.mpr h'))
    rw [escape_cons (Ne.symm hne), ih hcs]

theorem render_cons (p : Pair) (ps : List Pair) :
    render (p :: ps) = '/' :: (p.key.text ++ '=' :: escape p.value ++ render ps) := by
  simp [render, Pair.render]

theorem rdropWhile_escape (s v : List Char) :
    (s ++ '=' :: escape v).rdropWhile (· == '/') = s ++ '=' :: escape (cutEnd v) := by
  induction v using List.reverseRecOn with
  | nil =>
    have hlast : s ++ '=' :: escape [] = s ++ ['='] := rfl
    rw [hlast, List.rdropWhile_concat_neg _ _ _ (by decide)]
    rfl
  | append_singleton w c _ =>
    by_cases hc : c = '/'
    · have htext : s ++ '=' :: escape (w ++ [c]) = (s ++ '=' :: escape w ++ ['\\']) ++ ['/'] := by
        simp [hc, escape]
      have hcut : cutEnd (w ++ [c]) = w ++ ['\\'] := by
        simp [cutEnd, hc]
      rw [htext, List.rdropWhile_concat_pos _ _ _ (by decide),
        List.rdropWhile_concat_neg _ _ _ (by decide), hcut, escape_append]
      simp [escape]
    · have htext : s ++ '=' :: escape (w ++ [c]) = (s ++ '=' :: escape w) ++ [c] := by
        simp [hc, escape]
      have hcut : cutEnd (w ++ [c]) = w ++ [c] := by
        simp [cutEnd, hc]
      rw [htext, List.rdropWhile_concat_neg _ _ _ (by simp [hc]), hcut, htext]

theorem dropWhile_render (ps : List Pair) :
    (render ps).dropWhile (· == '/') = (render ps).tail := by
  cases ps with
  | nil => rfl
  | cons p ps =>
    obtain ⟨c, cs, hkey⟩ := List.exists_cons_of_ne_nil p.key.nonempty
    have hc : c ≠ '/' := (p.key.plain c (by rw [hkey]; exact List.mem_cons_self)).1
    rw [render_cons, hkey]
    simp [hc]

/-- Trimming takes the slash in front and one at the end of the last value. -/
theorem trimSlashes_render (ps : List Pair) (l : Pair) :
    trimSlashes (render (ps ++ [l])) = (render (ps ++ [l.ended])).tail := by
  have hform : ∀ v : Pair, v.key = l.key →
      ∃ s, ∀ w, (render (ps ++ [{ v with value := w }])).tail = s ++ '=' :: escape w := by
    intro v hv
    cases ps with
    | nil =>
      exists v.key.text
      intro w
      simp [render, Pair.render]
    | cons p ps =>
      exists p.key.text ++ '=' :: escape p.value ++ (render ps ++ '/' :: v.key.text)
      intro w
      simp [render, Pair.render]
  obtain ⟨s, hs⟩ := hform l rfl
  rw [trimSlashes, dropWhile_render]
  have hl := hs l.value
  have he := hs (cutEnd l.value)
  rw [show ({ l with value := l.value } : Pair) = l from rfl] at hl
  rw [hl, rdropWhile_escape, ← he]
  rfl

theorem replaceAll_eq_self {old new s : List Char} {c : Char} (hc : c ∈ old) (hs : c ∉ s) :
    replaceAll old new s = s := by
  induction s with
  | nil => rfl
  | cons d ds ih =>
    have hfirst : ¬ old <+: d :: ds := fun h => hs (h.subset hc)
    rw [replaceAll_cons hfirst, ih (fun h => hs (List.mem_cons_of_mem d h))]

/-- The escapes of a value are marked; a backslash at its end waits for what follows. -/
theorem replaceAll_escape {v t : List Char} (h : v.getLast? = some '\\' → t.head? ≠ some '/') :
    replaceAll ['\\', '/'] escapedSlash (escape v ++ t) =
      mark '/' escapedSlash v ++ replaceAll ['\\', '/'] escapedSlash t := by
  induction v with
  | nil => rfl
  | cons c cs ih =>
    have hrest : cs.getLast? = some '\\' → t.head? ≠ some '/' := by
      intro hlast
      apply h
      rw [List.getLast?_cons, hlast]
      rfl
    by_cases hc : c = '/'
    · rw [hc, escape_slash, mark_cons_self, List.append_assoc, ← ih hrest]
      exact replaceAll_prefix (List.cons_ne_nil _ _) _
    · have hfirst : ¬ ['\\', '/'] <+: c :: (escape cs ++ t) := by
        intro hpre
        obtain ⟨hb, hslash⟩ := List.cons_prefix_cons.mp hpre
        cases cs with
        | nil =>
          apply h
          · rw [← hb]
            rfl
          · obtain ⟨r, hr⟩ := hslash
            rw [escape, List.flatMap_nil, List.nil_append] at hr
            rw [← hr]
            rfl
        | cons d ds =>
          by_cases hd : d = '/'
          · rw [hd, escape_slash] at hslash
            cases (List.cons_prefix_cons.mp hslash).1
          · rw [escape_cons hd] at hslash
            exact hd (List.cons_prefix_cons.mp hslash).1.symm
      rw [escape_cons hc, List.cons_append, replaceAll_cons hfirst, ih hrest, mark_cons hc]
      rfl

/-- A pair as the parser sees it between two slashes. -/
def Pair.part (p : Pair) : List Char := p.key.text ++ '=' :: mark '/' escapedSlash p.value

theorem slash_not_mem_part (p : Pair) : '/' ∉ p.part := by
  intro h
  cases List.mem_append.mp h with
  | inl hkey => exact (p.key.plain _ hkey).1 rfl
  | inr hval =>
    cases List.mem_cons.mp hval with
    | inl heq => cases heq
    | inr hmark =>
      cases mem_mark hmark with
      | inl hph => exact absurd hph (by decide)
      | inr hv => exact hv.2 rfl

theorem Determined.tail {p : Pair} {ps : List Pair} (h : Determined (p :: ps)) :
    Determined ps := by
  intro q hq
  apply h
  cases ps with
  | nil => cases hq
  | cons r rs =>
    rw [List.dropLast_cons_of_ne_nil (List.cons_ne_nil r rs)]
    exact List.mem_cons_of_mem p hq

/-- In a determined list exactly the slashes inside values are marked. -/
theorem replaceAll_render {p : Pair} {ps : List Pair} (h : Determined (p :: ps)) :
    replaceAll ['\\', '/'] escapedSlash (render (p :: ps)).tail =
      p.part ++ ps.flatMap (fun q => '/' :: q.part) := by
  induction ps generalizing p with
  | nil =>
    rw [render_cons, List.tail_cons, List.append_assoc, List.cons_append,
      replaceAll_append_cons (List.cons_ne_nil _ _) (by decide),
      replaceAll_eq_self (c := '/') (by decide) (fun hm => (p.key.plain _ hm).1 rfl),
      replaceAll_escape (fun _ => by simp [render])]
    simp [Pair.part, render]
  | cons q qs ih =>
    have hlast : p.value.getLast? ≠ some '\\' := by
      apply h
      rw [List.dropLast_cons_of_ne_nil (List.cons_ne_nil q qs)]
      exact List.mem_cons_self
    have hslash : ∀ t : List Char, ¬ ['\\', '/'] <+: '/' :: t := by
      intro t hpre
      cases (List.cons_prefix_cons.mp hpre).1
    have hq := ih h.tail
    rw [render_cons q, List.tail_cons] at hq
    rw [render_cons, List.tail_cons, List.append_assoc, List.cons_append,
      replaceAll_append_cons (List.cons_ne_nil _ _) (by decide),
      replaceAll_eq_self (c := '/') (by decide) (fun hm => (p.key.plain _ hm).1 rfl),
      replaceAll_escape (fun heq => absurd heq hlast), render_cons, replaceAll_cons (hslash _), hq]
    simp [Pair.part]

theorem split_cons_of_not_mem {sep : Char} {s : List Char} (h : sep ∉ s) (t : List Char) :
    split [sep] (s ++ sep :: t) = s :: split [sep] t :=
  split_some (List.cons_ne_nil _ _) (cut_append h t)

theorem split_of_not_mem {sep : Char} {s : List Char} (h : sep ∉ s) : split [sep] s = [s] := by
  apply split_none
  apply (cut_none_iff (List.cons_ne_nil _ _)).mpr
  intro hin
  exact h (hin.subset List.mem_cons_self)

theorem split_parts (p : Pair) (ps : List Pair) :
    split ['/'] (p.part ++ ps.flatMap (fun q => '/' :: q.part)) = (p :: ps).map Pair.part := by
  induction ps generalizing p with
  | nil =>
    rw [List.flatMap_nil, List.append_nil, split_of_not_mem (slash_not_mem_part p)]
    rfl
  | cons q qs ih =>
    rw [List.flatMap_cons, List.cons_append, split_cons_of_not_mem (slash_not_mem_part p), ih]
    rfl

/-- The entries that a list of parts gives. -/
def entriesOf (parts : List (List Char)) : List (List Char × List Char) :=
  (parts.filterMap (cut ['='])).map (fun e => (e.1, unmark '/' escapedSlash e.2))

theorem entriesOf_append (xs ys : List (List Char)) :
    entriesOf (xs ++ ys) = entriesOf xs ++ entriesOf ys := by
  rw [entriesOf, List.filterMap_append, List.map_append]
  rfl

theorem lastValue_concat (a : Attribute) (es : List (List Char × List Char))
    (e : List Char × List Char) :
    lastValue a (es ++ [e]) = if attributeOf e.1 = some a then e.2 else lastValue a es := by
  by_cases he : attributeOf e.1 = some a
  · simp [lastValue, List.filter_append, he]
  · simp [lastValue, List.filter_append, he]

theorem unitValues_concat (es : List (List Char × List Char)) (e : List Char × List Char) :
    unitValues (es ++ [e]) =
      if attributeOf e.1 = some .organizationalUnit then unitValues es ++ [e.2]
      else unitValues es := by
  by_cases he : attributeOf e.1 = some .organizationalUnit
  · simp [unitValues, List.filter_append, he]
  · simp [unitValues, List.filter_append, he]

/-- What the loop has collected from the entries so far. -/
structure Collected (es : List (List Char × List Char))
    (acc : CertificateName × List (List Char)) : Prop where
  country : acc.1.country = lastValue .country es
  organization : acc.1.organization = lastValue .organization es
  commonName : acc.1.commonName = lastValue .commonName es
  units : acc.2 = unitValues es

theorem Collected.addPart {es : List (List Char × List Char)}
    {acc : CertificateName × List (List Char)} (h : Collected es acc) (part : List Char) :
    Collected (es ++ entriesOf [part]) (addPart acc part) := by
  cases hcut : cut ['='] part with
  | none =>
    have hnone : entriesOf [part] = [] := by simp [entriesOf, hcut]
    rw [hnone, List.append_nil, CertificateNames.addPart, hcut]
    exact h
  | some e =>
    have hone : entriesOf [part] = [(e.1, unmark '/' escapedSlash e.2)] := by
      simp [entriesOf, hcut]
    obtain ⟨hc, ho, hn, hu⟩ := h
    rw [hone, CertificateNames.addPart, hcut]
    cases ha : attributeOf e.1 with
    | none => constructor <;> simp [lastValue_concat, unitValues_concat, ha, hc, ho, hn, hu]
    | some a =>
      cases a <;> constructor <;>
        simp [lastValue_concat, unitValues_concat, ha, hc, ho, hn, hu, unmark]

theorem collected_parts (parts : List (List Char)) :
    Collected (entriesOf parts) (parts.foldl addPart (CertificateName.empty, [])) := by
  induction parts using List.reverseRecOn with
  | nil =>
    constructor <;> rfl
  | append_singleton parts part ih =>
    rw [List.foldl_concat, entriesOf_append]
    exact ih.addPart part

/-- The name that the entries spell, or the whole text. -/
def spell (text : List Char) (es : List (List Char × List Char)) : CertificateName :=
  if nameOf es = CertificateName.empty then { CertificateName.empty with commonName := text }
  else nameOf es

theorem parse_spell {value : List Char} {parts : List (List Char)}
    (h : (if (split ['/'] (replaceAll ['\\', '/'] escapedSlash (trimSlashes value))).length = 1
        then split ['+'] (replaceAll ['\\', '/'] escapedSlash (trimSlashes value))
        else split ['/'] (replaceAll ['\\', '/'] escapedSlash (trimSlashes value))) = parts) :
    parseDarwinCertificateName value = spell value (entriesOf parts) := by
  obtain ⟨hc, ho, hn, hu⟩ := collected_parts parts
  have hname : ({ (parts.foldl addPart (CertificateName.empty, [])).1 with
      organizationalUnit := unitSeparator.intercalate
        (parts.foldl addPart (CertificateName.empty, [])).2 } : CertificateName) =
      nameOf (entriesOf parts) := by
    rw [nameOf, ← hc, ← ho, ← hn, ← hu]
  rw [parseDarwinCertificateName]
  simp only [h, hname, spell]
  split
  · rename_i hempty
    have hsame := congrArg (fun n : CertificateName => { n with commonName := value })
      (hname.trans hempty)
    exact hsame
  · rfl

/-- What the parser reads of a value between two slashes. -/
abbrev read (v : List Char) : List Char := reread '/' escapedSlash v

def Pair.got (p : Pair) : List Char × List Char := (p.key.text, read p.value)

theorem cut_part (p : Pair) :
    cut ['='] p.part = some (p.key.text, mark '/' escapedSlash p.value) :=
  cut_append (fun h => (p.key.plain _ h).2.1 rfl) _

theorem entriesOf_parts (ps : List Pair) : entriesOf (ps.map Pair.part) = ps.map Pair.got := by
  induction ps with
  | nil => rfl
  | cons p ps ih =>
    have hone : entriesOf [p.part] = [p.got] := by
      simp [entriesOf, cut_part, Pair.got, reread]
    have hsplit : (p :: ps).map Pair.part = [p.part] ++ ps.map Pair.part := rfl
    rw [hsplit, entriesOf_append, hone, ih]
    rfl

theorem Determined.ended {ps : List Pair} {l : Pair} (h : Determined (ps ++ [l])) :
    Determined (ps ++ [l.ended]) := by
  rw [Determined, List.dropLast_concat] at h ⊢
  exact h

theorem marked_render {p : Pair} {ps qs : List Pair} {l : Pair} (h : Determined (ps ++ [l]))
    (hps : ps ++ [l.ended] = p :: qs) :
    replaceAll ['\\', '/'] escapedSlash (trimSlashes (render (ps ++ [l]))) =
      p.part ++ qs.flatMap (fun q => '/' :: q.part) := by
  have hended := h.ended
  rw [trimSlashes_render, hps]
  rw [hps] at hended
  exact replaceAll_render hended

/-- A text of several pairs is split at its slashes. -/
theorem parse_several {ps : List Pair} {l : Pair} (hps : ps ≠ []) (h : Determined (ps ++ [l])) :
    parseDarwinCertificateName (render (ps ++ [l])) =
      spell (render (ps ++ [l])) ((ps ++ [l.ended]).map Pair.got) := by
  obtain ⟨p, qs, rfl⟩ := List.exists_cons_of_ne_nil hps
  have hmarked := marked_render h (List.cons_append ..)
  rw [← entriesOf_parts]
  apply parse_spell
  rw [hmarked, split_parts, if_neg (by simp)]
  rfl

/-- The text of one pair is split at its plus signs. -/
theorem parse_lone (l : Pair) :
    parseDarwinCertificateName (render [l]) =
      spell (render [l]) (entriesOf (split ['+'] l.ended.part)) := by
  have hdet : Determined ([] ++ [l]) := by
    intro p hp
    cases hp
  have hmarked := marked_render hdet (List.nil_append _)
  rw [List.nil_append, List.flatMap_nil, List.append_nil] at hmarked
  apply parse_spell
  rw [hmarked, split_of_not_mem (slash_not_mem_part _)]
  rfl

theorem escapedSlash_ne_nil : escapedSlash ≠ [] := List.cons_ne_nil _ _

theorem length_cutEnd (v : List Char) : (cutEnd v).length = v.length := by
  rw [cutEnd]
  split
  · rename_i hlast
    have hpos : 0 < v.length := by
      cases v with
      | nil => cases hlast
      | cons c cs => exact Nat.succ_pos _
    rw [List.length_append, List.length_dropLast, List.length_singleton]
    omega
  · rfl

theorem length_read_le (v : List Char) : (read v).length ≤ v.length :=
  length_reread_le (List.cons_ne_nil _ _) v

theorem prefix_mark_cons {d : Char} {m s : List Char} (hd : d ≠ '\x00')
    (h : d :: m <+: mark '/' escapedSlash s) :
    ∃ t, s = d :: t ∧ m <+: mark '/' escapedSlash t := by
  cases s with
  | nil => cases List.prefix_nil.mp h
  | cons c cs =>
    by_cases hc : c = '/'
    · rw [hc, mark_cons_self] at h
      exact absurd (List.cons_prefix_cons.mp h).1 hd
    · rw [mark_cons hc] at h
      obtain ⟨rfl, hm⟩ := List.cons_prefix_cons.mp h
      exact ⟨cs, rfl, hm⟩

/-- The placeholder is spelled by itself, or by all of it but its end in front of a slash. -/
theorem plain_iff_unmarked (v : List Char) : Plain '/' escapedSlash v ↔ Unmarked v := by
  constructor
  · intro h
    constructor
    · rintro ⟨a, b, rfl⟩
      apply h '\x00' (['S', 'L', 'A', 'S', 'H', '\x00'] ++ b) ⟨a, by simp [escapedSlash]⟩
        (by decide)
      rw [mark_append]
      exact ⟨mark '/' escapedSlash b, rfl⟩
    · rintro ⟨a, b, rfl⟩
      apply h '\x00' (['S', 'L', 'A', 'S', 'H', '/'] ++ b) ⟨a, by simp⟩ (by decide)
      rw [mark_append]
      exact ⟨['S', 'L', 'A', 'S', 'H', '\x00'] ++ mark '/' escapedSlash b, rfl⟩
  · rintro ⟨hself, hslash⟩ c t hsuffix hc hpre
    obtain ⟨rfl, h₁⟩ := List.cons_prefix_cons.mp hpre
    obtain ⟨t₁, rfl, h₂⟩ := prefix_mark_cons (by decide) h₁
    obtain ⟨t₂, rfl, h₃⟩ := prefix_mark_cons (by decide) h₂
    obtain ⟨t₃, rfl, h₄⟩ := prefix_mark_cons (by decide) h₃
    obtain ⟨t₄, rfl, h₅⟩ := prefix_mark_cons (by decide) h₄
    obtain ⟨t₅, rfl, h₆⟩ := prefix_mark_cons (by decide) h₅
    obtain ⟨a, rfl⟩ := hsuffix
    cases t₅ with
    | nil => cases List.prefix_nil.mp h₆
    | cons d ds =>
      by_cases hd : d = '/'
      · apply hslash
        exists a, ds
        rw [hd, List.append_assoc]
        rfl
      · rw [mark_cons hd] at h₆
        obtain ⟨rfl, -⟩ := List.cons_prefix_cons.mp h₆
        apply hself
        exists a, ds
        rw [List.append_assoc]
        rfl

theorem read_eq_self_iff (v : List Char) : read v = v ↔ Unmarked v :=
  (reread_eq_self_iff (List.cons_ne_nil _ _) v).trans (plain_iff_unmarked v)

theorem cutEnd_concat_slash (w : List Char) : cutEnd (w ++ ['/']) = w ++ ['\\'] := by
  simp [cutEnd]

theorem cutEnd_of_ne {v : List Char} (h : v.getLast? ≠ some '/') : cutEnd v = v := if_neg h

theorem read_concat_backslash (w : List Char) : read (w ++ ['\\']) = read w ++ ['\\'] :=
  reread_append_cons escapedSlash_ne_nil (by decide) (by decide) w []

/-- The last value is read back when it does not end with a slash. -/
theorem read_cutEnd_iff (v : List Char) :
    read (cutEnd v) = v ↔ Unmarked v ∧ v.getLast? ≠ some '/' := by
  by_cases hlast : v.getLast? = some '/'
  · constructor
    · intro h
      obtain ⟨w, rfl⟩ := List.getLast?_eq_some_iff.mp hlast
      rw [cutEnd_concat_slash, read_concat_backslash] at h
      have hend := (List.append_inj' h rfl).2
      cases hend
    · intro h
      exact absurd hlast h.2
  · rw [cutEnd_of_ne hlast, read_eq_self_iff]
    exact ⟨fun h => ⟨h, hlast⟩, fun h => h.1⟩

section Entries

variable {γ : Type} {k k' f g : γ → List Char}

theorem lastValue_map (a : Attribute) (k f : γ → List Char) (zs : List γ) :
    lastValue a (zs.map (fun z => (k z, f z))) =
      ((zs.filter (fun z => attributeOf (k z) = some a)).getLast?).elim [] f := by
  rw [lastValue, List.filter_map, List.getLast?_map]
  simp only [Function.comp_def]
  cases (zs.filter (fun z => attributeOf (k z) = some a)).getLast? <;> rfl

theorem unitValues_map (k f : γ → List Char) (zs : List γ) :
    unitValues (zs.map (fun z => (k z, f z))) =
      (zs.filter (fun z => attributeOf (k z) = some .organizationalUnit)).map f := by
  rw [unitValues, List.filter_map, List.map_map]
  rfl

theorem lastValue_eq_iff (a : Attribute) (k f g : γ → List Char) (zs : List γ) :
    lastValue a (zs.map (fun z => (k z, f z))) = lastValue a (zs.map (fun z => (k z, g z))) ↔
      ∀ z ∈ (zs.filter (fun z => attributeOf (k z) = some a)).getLast?, f z = g z := by
  rw [lastValue_map, lastValue_map]
  cases (zs.filter (fun z => attributeOf (k z) = some a)).getLast? <;> simp

theorem intercalate_cons (x : List Char) (xs : List (List Char)) :
    unitSeparator.intercalate (x :: xs) = x ++ xs.flatMap (unitSeparator ++ ·) := by
  induction xs generalizing x with
  | nil => simp
  | cons y ys ih =>
    rw [List.intercalate_cons_cons, ih, List.flatMap_cons]
    simp

theorem length_flatMap_le {zs : List γ} (h : ∀ z ∈ zs, (f z).length ≤ (g z).length) :
    ((zs.map f).flatMap (unitSeparator ++ ·)).length ≤
      ((zs.map g).flatMap (unitSeparator ++ ·)).length := by
  induction zs with
  | nil => exact Nat.le_refl _
  | cons z zs ih =>
    have hz := h z List.mem_cons_self
    have hzs := ih (fun z' hz' => h z' (List.mem_cons_of_mem z hz'))
    simp only [List.map_cons, List.flatMap_cons, List.length_append]
    omega

theorem flatMap_injective {zs : List γ} (h : ∀ z ∈ zs, (f z).length ≤ (g z).length)
    (heq : (zs.map f).flatMap (unitSeparator ++ ·) = (zs.map g).flatMap (unitSeparator ++ ·)) :
    ∀ z ∈ zs, f z = g z := by
  induction zs with
  | nil =>
    intro z hz
    cases hz
  | cons z zs ih =>
    have hz := h z List.mem_cons_self
    have hzs := fun z' hz' => h z' (List.mem_cons_of_mem z hz')
    have hrest := length_flatMap_le hzs
    have hlen := congrArg List.length heq
    simp only [List.map_cons, List.flatMap_cons, List.length_append] at hlen heq
    rw [List.append_assoc, List.append_assoc] at heq
    have htail := List.append_cancel_left heq
    obtain ⟨hhead, htail⟩ := List.append_inj htail (by omega)
    intro z' hz'
    cases hz' with
    | head => exact hhead
    | tail _ hz' => exact ih hzs htail z' hz'

/-- Units that are at most as long as others and joined to the same text are the same. -/
theorem intercalate_eq_iff {zs : List γ} (h : ∀ z ∈ zs, (f z).length ≤ (g z).length) :
    unitSeparator.intercalate (zs.map f) = unitSeparator.intercalate (zs.map g) ↔
      ∀ z ∈ zs, f z = g z := by
  constructor
  · intro heq
    cases zs with
    | nil =>
      intro z hz
      cases hz
    | cons z zs =>
      have hz := h z List.mem_cons_self
      have hzs := fun z' hz' => h z' (List.mem_cons_of_mem z hz')
      have hrest := length_flatMap_le hzs
      rw [List.map_cons, List.map_cons, intercalate_cons, intercalate_cons] at heq
      have hlen := congrArg List.length heq
      rw [List.length_append, List.length_append] at hlen
      obtain ⟨hhead, htail⟩ := List.append_inj heq (by omega)
      intro z' hz'
      cases hz' with
      | head => exact hhead
      | tail _ hz' => exact flatMap_injective hzs htail z' hz'
  · intro heq
    rw [List.map_congr_left heq]

/-- Two names agree when all their units and the last values of the other attributes do. -/
theorem nameOf_eq_iff {zs : List γ} (h : ∀ z ∈ zs, (f z).length ≤ (g z).length) :
    nameOf (zs.map (fun z => (k z, f z))) = nameOf (zs.map (fun z => (k z, g z))) ↔
      (∀ z ∈ zs, attributeOf (k z) = some .organizationalUnit → f z = g z) ∧
      ∀ a, a ≠ .organizationalUnit →
        ∀ z ∈ (zs.filter (fun z => attributeOf (k z) = some a)).getLast?, f z = g z := by
  have hunits : unitSeparator.intercalate (unitValues (zs.map (fun z => (k z, f z)))) =
      unitSeparator.intercalate (unitValues (zs.map (fun z => (k z, g z)))) ↔
      ∀ z ∈ zs, attributeOf (k z) = some .organizationalUnit → f z = g z := by
    rw [unitValues_map, unitValues_map,
      intercalate_eq_iff (fun z hz => h z (List.mem_of_mem_filter hz))]
    simp only [List.mem_filter, decide_eq_true_eq, and_imp]
  rw [nameOf, nameOf, CertificateName.mk.injEq, hunits, lastValue_eq_iff, lastValue_eq_iff,
    lastValue_eq_iff]
  constructor
  · rintro ⟨hc, ho, hu, hn⟩
    constructor
    · exact hu
    · intro a ha
      cases a with
      | country => exact hc
      | organization => exact ho
      | organizationalUnit => exact absurd rfl ha
      | commonName => exact hn
  · rintro ⟨hu, hlast⟩
    exact ⟨hlast .country (by decide), hlast .organization (by decide), hu,
      hlast .commonName (by decide)⟩

/-- Whether a name is empty depends on the attributes and on which values are empty. -/
theorem nameOf_empty_congr {zs : List γ} (hk : ∀ z ∈ zs, attributeOf (k z) = attributeOf (k' z))
    (h : ∀ z ∈ zs, f z = [] ↔ g z = []) :
    nameOf (zs.map (fun z => (k z, f z))) = CertificateName.empty ↔
      nameOf (zs.map (fun z => (k' z, g z))) = CertificateName.empty := by
  have hfilter : ∀ a, zs.filter (fun z => attributeOf (k z) = some a) =
      zs.filter (fun z => attributeOf (k' z) = some a) := by
    intro a
    apply List.filter_congr
    intro z hz
    rw [hk z hz]
  have hlast : ∀ a, lastValue a (zs.map (fun z => (k z, f z))) = [] ↔
      lastValue a (zs.map (fun z => (k' z, g z))) = [] := by
    intro a
    rw [lastValue_map, lastValue_map, hfilter]
    cases hz : (zs.filter (fun z => attributeOf (k' z) = some a)).getLast? with
    | none => simp
    | some z => exact h z (List.mem_of_mem_filter (List.mem_of_getLast? hz))
  have hunits : unitSeparator.intercalate (unitValues (zs.map (fun z => (k z, f z)))) = [] ↔
      unitSeparator.intercalate (unitValues (zs.map (fun z => (k' z, g z)))) = [] := by
    rw [unitValues_map, unitValues_map, hfilter]
    cases hz : zs.filter (fun z => attributeOf (k' z) = some .organizationalUnit) with
    | nil => simp
    | cons z rest =>
      have hmem : z ∈ zs := List.mem_of_mem_filter (hz ▸ List.mem_cons_self)
      rw [List.map_cons, List.map_cons, intercalate_cons, intercalate_cons,
        List.append_eq_nil_iff, List.append_eq_nil_iff, h z hmem]
      cases rest <;> simp [unitSeparator]
  simp only [nameOf, CertificateName.empty, CertificateName.mk.injEq, hlast, hunits]

end Entries

theorem lastValue_lt {a : Attribute} {es : List (List Char × List Char)} {n : ℕ} (hn : 0 < n)
    (h : ∀ e ∈ es, e.2.length < n) : (lastValue a es).length < n := by
  rw [lastValue]
  cases hlast : (es.filter (fun e => attributeOf e.1 = some a)).getLast? with
  | none => exact hn
  | some e => exact h e (List.mem_of_mem_filter (List.mem_of_getLast? hlast))

theorem render_ne_nil {ps : List Pair} (h : ps ≠ []) : render ps ≠ [] := by
  obtain ⟨p, qs, rfl⟩ := List.exists_cons_of_ne_nil h
  rw [render_cons]
  exact List.cons_ne_nil _ _

/-- No entry that is read has the whole text as its value. -/
theorem nameOf_ne_text {text : List Char} {es : List (List Char × List Char)} (htext : text ≠ [])
    (h : ∀ e ∈ es, e.2.length < text.length) :
    nameOf es ≠ { CertificateName.empty with commonName := text } := by
  intro heq
  have hlt := lastValue_lt (a := .commonName) (List.length_pos_of_ne_nil htext) h
  have hname : lastValue .commonName es = text := congrArg CertificateName.commonName heq
  rw [hname] at hlt
  exact Nat.lt_irrefl _ hlt

theorem text_ne_empty {text : List Char} (htext : text ≠ []) :
    ({ CertificateName.empty with commonName := text } : CertificateName) ≠
      CertificateName.empty := by
  intro heq
  exact htext (congrArg CertificateName.commonName heq)

/-- Entries that are empty together with the pairs decode when they spell the same name. -/
theorem decodes_iff_of_spell {ps : List Pair} {es : List (List Char × List Char)} (hps : ps ≠ [])
    (hparse : parseDarwinCertificateName (render ps) = spell (render ps) es)
    (hempty : nameOf es = CertificateName.empty ↔
      nameOf (ps.map Pair.entry) = CertificateName.empty)
    (hshort : ∀ e ∈ es, e.2.length < (render ps).length) :
    Decodes ps ↔ nameOf es = nameOf (ps.map Pair.entry) ∧
      (nameOf (ps.map Pair.entry) = CertificateName.empty → ∀ p ∈ ps, p.named → p.value = []) := by
  have htext := render_ne_nil hps
  rw [Decodes, hparse, spell]
  by_cases hes : nameOf es = CertificateName.empty
  · have hE := hempty.mp hes
    rw [if_pos hes, hes, hE]
    constructor
    · intro h
      cases h with
      | inl heq => exact absurd heq (text_ne_empty htext)
      | inr hfall => exact ⟨rfl, fun _ => hfall.2⟩
    · intro h
      exact Or.inr ⟨rfl, h.2 rfl⟩
  · rw [if_neg hes]
    constructor
    · intro h
      cases h with
      | inl heq =>
        constructor
        · exact heq
        · intro hE
          exact absurd (hempty.mpr hE) hes
      | inr hfall => exact absurd hfall.1 (nameOf_ne_text htext hshort)
    · intro h
      exact Or.inl h.1

/-- Every pair with what the parser reads of its value. -/
def readings (ps : List Pair) (l : Pair) : List (Pair × List Char) :=
  ps.map (fun p => (p, read p.value)) ++ [(l, read (cutEnd l.value))]

theorem readings_got (ps : List Pair) (l : Pair) :
    (ps ++ [l.ended]).map Pair.got = (readings ps l).map (fun z => (z.1.key.text, z.2)) := by
  simp [readings, Pair.got, Pair.ended]

theorem readings_entry (ps : List Pair) (l : Pair) :
    (ps ++ [l]).map Pair.entry = (readings ps l).map (fun z => (z.1.key.text, z.1.value)) := by
  simp [readings, Pair.entry]

theorem length_read_cutEnd (v : List Char) : (read (cutEnd v)).length ≤ v.length := by
  rw [← length_cutEnd v]
  exact length_read_le _

theorem read_eq_nil_iff (v : List Char) : read v = [] ↔ v = [] := by
  constructor
  · intro h
    cases v with
    | nil => rfl
    | cons c cs =>
      by_cases hc : c = '/'
      · rw [hc, read, reread, mark_cons_self, unmark,
          replaceAll_prefix escapedSlash_ne_nil] at h
        cases h
      · rw [read, reread, mark_cons hc, unmark] at h
        by_cases hfirst : escapedSlash <+: c :: mark '/' escapedSlash cs
        · obtain ⟨rest, hrest⟩ := hfirst
          rw [← hrest, replaceAll_prefix escapedSlash_ne_nil] at h
          cases h
        · rw [replaceAll_cons hfirst] at h
          cases h
  · rintro rfl
    rfl

theorem cutEnd_eq_nil_iff (v : List Char) : cutEnd v = [] ↔ v = [] := by
  rw [← List.length_eq_zero_iff, length_cutEnd, List.length_eq_zero_iff]

theorem readings_length {ps : List Pair} {l : Pair} :
    ∀ z ∈ readings ps l, z.2.length ≤ z.1.value.length := by
  intro z hz
  cases List.mem_append.mp hz with
  | inl hp =>
    obtain ⟨p, -, rfl⟩ := List.mem_map.mp hp
    exact length_read_le p.value
  | inr hl =>
    obtain rfl := List.mem_singleton.mp hl
    exact length_read_cutEnd l.value

theorem readings_empty {ps : List Pair} {l : Pair} :
    ∀ z ∈ readings ps l, z.2 = [] ↔ z.1.value = [] := by
  intro z hz
  cases List.mem_append.mp hz with
  | inl hp =>
    obtain ⟨p, -, rfl⟩ := List.mem_map.mp hp
    exact read_eq_nil_iff p.value
  | inr hl =>
    obtain rfl := List.mem_singleton.mp hl
    exact (read_eq_nil_iff _).trans (cutEnd_eq_nil_iff _)

theorem readings_units (ps : List Pair) (l : Pair) :
    (∀ z ∈ readings ps l, attributeOf z.1.key.text = some .organizationalUnit →
        z.2 = z.1.value) ↔
      (∀ p ∈ ps ++ [l], attributeOf p.key.text = some .organizationalUnit → Unmarked p.value) ∧
      (attributeOf l.key.text = some .organizationalUnit → l.value.getLast? ≠ some '/') := by
  constructor
  · intro h
    have hl : attributeOf l.key.text = some .organizationalUnit →
        Unmarked l.value ∧ l.value.getLast? ≠ some '/' := fun ha =>
      (read_cutEnd_iff l.value).mp (h (l, read (cutEnd l.value)) (by simp [readings]) ha)
    constructor
    · intro p hp ha
      cases List.mem_append.mp hp with
      | inl hp =>
        exact (read_eq_self_iff p.value).mp
          (h (p, read p.value) (List.mem_append_left _ (List.mem_map_of_mem hp)) ha)
      | inr hp =>
        obtain rfl := List.mem_singleton.mp hp
        exact (hl ha).1
    · intro ha
      exact (hl ha).2
  · rintro ⟨hall, hlast⟩ z hz ha
    cases List.mem_append.mp hz with
    | inl hp =>
      obtain ⟨p, hmem, rfl⟩ := List.mem_map.mp hp
      exact (read_eq_self_iff p.value).mpr (hall p (List.mem_append_left _ hmem) ha)
    | inr hl =>
      obtain rfl := List.mem_singleton.mp hl
      exact (read_cutEnd_iff l.value).mpr ⟨hall l (by simp) ha, hlast ha⟩

theorem readings_last (ps : List Pair) (l : Pair) (a : Attribute) :
    (∀ z ∈ ((readings ps l).filter (fun z => attributeOf z.1.key.text = some a)).getLast?,
        z.2 = z.1.value) ↔
      (∀ p ∈ ((ps ++ [l]).filter (fun p => attributeOf p.key.text = some a)).getLast?,
        Unmarked p.value) ∧
      (attributeOf l.key.text = some a → l.value.getLast? ≠ some '/') := by
  rw [readings, List.filter_append, List.filter_append]
  by_cases ha : attributeOf l.key.text = some a
  · simp only [List.filter_cons, ha, decide_true, if_true, List.filter_nil, List.getLast?_concat,
      Option.mem_def, Option.some.injEq, forall_eq', true_imp_iff]
    exact read_cutEnd_iff l.value
  · simp only [List.filter_cons, ha, decide_false, Bool.false_eq_true, if_false, List.filter_nil,
      List.append_nil, false_imp_iff, and_true, List.filter_map, List.getLast?_map]
    simp only [Function.comp_def]
    cases hz : (ps.filter (fun p => attributeOf p.key.text = some a)).getLast? with
    | none => simp
    | some p => simp [read_eq_self_iff]

theorem length_le_escape (v : List Char) : v.length ≤ (escape v).length := by
  induction v with
  | nil => exact Nat.le_refl _
  | cons c cs ih =>
    by_cases hc : c = '/'
    · rw [hc, escape_slash]
      simp only [List.length_cons]
      omega
    · rw [escape_cons hc]
      simp only [List.length_cons]
      omega

theorem length_value_lt {p : Pair} {ps : List Pair} (h : p ∈ ps) :
    p.value.length < (render ps).length := by
  have hsub : p.render.length ≤ (render ps).length := by
    rw [render, List.flatMap_def]
    exact (List.sublist_flatten_of_mem (List.mem_map_of_mem h)).length_le
  have hesc := length_le_escape p.value
  simp only [Pair.render, List.length_cons, List.length_append] at hsub
  omega

/-- What is to hold of the values when a text is split at its slashes only. -/
theorem decodes_of_split {ps : List Pair} {l : Pair}
    (hparse : parseDarwinCertificateName (render (ps ++ [l])) =
      spell (render (ps ++ [l])) ((ps ++ [l.ended]).map Pair.got))
    (hlone : ∀ p, ps ++ [l] = [p] → LoneReadable p) :
    Decodes (ps ++ [l]) ↔ Readable (ps ++ [l]) := by
  have hshort : ∀ e ∈ (ps ++ [l.ended]).map Pair.got,
      e.2.length < (render (ps ++ [l])).length := by
    rw [readings_got]
    intro e he
    obtain ⟨z, hz, rfl⟩ := List.mem_map.mp he
    have hle := readings_length z hz
    have hmem : z.1 ∈ ps ++ [l] := by
      cases List.mem_append.mp hz with
      | inl hp =>
        obtain ⟨p, hmem, rfl⟩ := List.mem_map.mp hp
        exact List.mem_append_left _ hmem
      | inr hl =>
        obtain rfl := List.mem_singleton.mp hl
        simp
    have hlt := length_value_lt hmem
    simp only
    omega
  rw [decodes_iff_of_spell (by simp) hparse _ hshort]
  · rw [readings_got, readings_entry, nameOf_eq_iff readings_length, readings_units]
    simp only [readings_last, ← readings_entry]
    constructor
    · rintro ⟨⟨⟨hunits, hslash⟩, hlasts⟩, hfall⟩
      constructor
      · exact hunits
      · intro a ha
        exact (hlasts a ha).1
      · intro p hp hnamed
        rw [List.getLast?_concat] at hp
        obtain rfl := Option.some.inj hp
        cases ha : attributeOf l.key.text with
        | none => exact absurd ha hnamed
        | some a =>
          by_cases hou : a = .organizationalUnit
          · rw [hou] at ha
            exact hslash ha
          · exact (hlasts a hou).2 ha
      · exact hlone
      · exact hfall
    · intro h
      have hslash : ∀ a, attributeOf l.key.text = some a → l.value.getLast? ≠ some '/' := by
        intro a ha
        apply h.slash l List.getLast?_concat
        intro hnone
        rw [ha] at hnone
        cases hnone
      exact ⟨⟨⟨h.units, hslash _⟩, fun a ha => ⟨h.lasts a ha, hslash a⟩⟩, h.fallback⟩
  · rw [readings_got, readings_entry]
    exact nameOf_empty_congr (fun _ _ => rfl) readings_empty

theorem plus_induction {P : List Char → Prop} (hnone : ∀ s, '+' ∉ s → P s)
    (hcons : ∀ s t, '+' ∉ s → P t → P (s ++ '+' :: t)) (s : List Char) : P s := by
  induction hlen : s.length using Nat.strongRecOn generalizing s with
  | ind n ih =>
    by_cases hmem : '+' ∈ s
    · obtain ⟨a, b, rfl, ha⟩ := List.eq_append_cons_of_mem hmem
      apply hcons a b ha
      apply ih b.length _ b rfl
      simp only [List.length_append, List.length_cons] at hlen
      omega
    · exact hnone s hmem

/-- The entries that the pieces between plus signs spell. -/
def pieceEntries (s : List Char) : List (List Char × List Char) :=
  (split ['+'] s).filterMap (cut ['='])

/-- The entries that are read from the marked pieces. -/
def gotPieces (s : List Char) : List (List Char × List Char) :=
  entriesOf ((split ['+'] s).map (mark '/' escapedSlash))

theorem cut_mark (s : List Char) : cut ['='] (mark '/' escapedSlash s) =
    (cut ['='] s).map (fun e => (mark '/' escapedSlash e.1, mark '/' escapedSlash e.2)) := by
  by_cases hmem : '=' ∈ s
  · obtain ⟨a, b, rfl, ha⟩ := List.eq_append_cons_of_mem hmem
    have hmark : '=' ∉ mark '/' escapedSlash a := by
      intro h
      cases mem_mark h with
      | inl hph => exact absurd hph (by decide)
      | inr hin => exact ha hin.1
    rw [cut_append ha, mark_append, mark_cons (by decide), cut_append hmark]
    rfl
  · have hmark : '=' ∉ mark '/' escapedSlash s := by
      intro h
      cases mem_mark h with
      | inl hph => exact absurd hph (by decide)
      | inr hin => exact hmem hin.1
    have hnone : ∀ t : List Char, '=' ∉ t → cut ['='] t = none := by
      intro t ht
      apply (cut_none_iff (List.cons_ne_nil _ _)).mpr
      intro hin
      exact ht (hin.subset List.mem_cons_self)
    rw [hnone _ hmark, hnone _ hmem]
    rfl

theorem gotPieces_eq (s : List Char) : gotPieces s =
    (pieceEntries s).map (fun e => (mark '/' escapedSlash e.1, read e.2)) := by
  rw [gotPieces, pieceEntries, entriesOf, List.filterMap_map]
  induction split ['+'] s with
  | nil => rfl
  | cons p ps ih =>
    rw [List.filterMap_cons, List.filterMap_cons, Function.comp_apply, cut_mark]
    cases cut ['='] p with
    | none => exact ih
    | some e =>
      simp only [Option.map_some, List.map_cons, ih]
      rfl

theorem attributeOf_none {k : List Char} {c : Char} (hmem : c ∈ k)
    (hc : c.toUpper ∉ ['C', 'O', 'U', 'N']) : attributeOf k = none := by
  have hupper : c.toUpper ∈ k.map Char.toUpper := List.mem_map_of_mem hmem
  have hne : ∀ t : List Char, t ⊆ ['C', 'O', 'U', 'N'] → k.map Char.toUpper ≠ t := by
    intro t ht heq
    rw [heq] at hupper
    exact hc (ht hupper)
  simp only [attributeOf]
  rw [if_neg (hne _ (by decide)), if_neg (hne _ (by decide)), if_neg (hne _ (by decide)),
    if_neg (hne _ (by decide))]

theorem attributeOf_mark (k : List Char) :
    attributeOf (mark '/' escapedSlash k) = attributeOf k := by
  by_cases hmem : '/' ∈ k
  · obtain ⟨a, b, hk⟩ := List.append_of_mem hmem
    have hnul : '\x00' ∈ mark '/' escapedSlash k := by
      rw [hk, mark_append, mark_cons_self]
      simp [escapedSlash]
    rw [attributeOf_none hnul (by decide), attributeOf_none hmem (by decide)]
  · rw [mark_eq_self hmem]

theorem length_of_unit {k : List Char} (h : attributeOf k = some .organizationalUnit) :
    k.length = 2 := by
  have hlen : (k.map Char.toUpper).length = k.length := List.length_map _
  simp only [attributeOf] at h
  split at h
  · cases h
  · split at h
    · cases h
    · split at h
      · rename_i hou
        rw [← hlen, hou]
        rfl
      · split at h <;> cases h

theorem split_mark (s : List Char) :
    split ['+'] (mark '/' escapedSlash s) = (split ['+'] s).map (mark '/' escapedSlash) := by
  have hfree : ∀ t : List Char, '+' ∉ t → '+' ∉ mark '/' escapedSlash t := by
    intro t ht h
    cases mem_mark h with
    | inl hph => exact absurd hph (by decide)
    | inr hin => exact ht hin.1
  induction s using plus_induction with
  | hnone s hs =>
    rw [split_of_not_mem hs, split_of_not_mem (hfree s hs)]
    rfl
  | hcons s t hs ih =>
    rw [split_cons_of_not_mem hs, mark_append, mark_cons (by decide),
      split_cons_of_not_mem (hfree s hs), ih]
    rfl

theorem gotPieces_append {s : List Char} (hs : '+' ∉ s) (t : List Char) :
    gotPieces (s ++ '+' :: t) = gotPieces s ++ gotPieces t := by
  rw [gotPieces, split_cons_of_not_mem hs, gotPieces, split_of_not_mem hs, gotPieces,
    ← entriesOf_append]
  rfl

theorem pieceEntries_append {s : List Char} (hs : '+' ∉ s) (t : List Char) :
    pieceEntries (s ++ '+' :: t) = pieceEntries s ++ pieceEntries t := by
  rw [pieceEntries, split_cons_of_not_mem hs, pieceEntries, split_of_not_mem hs, pieceEntries,
    ← List.filterMap_append]
  rfl

/-- Of a name with a plus sign in its only value, the first piece has the key. -/
theorem parse_plus {l : Pair} {a b : List Char} (hv : l.value = a ++ '+' :: b) (ha : '+' ∉ a) :
    parseDarwinCertificateName (render [l]) =
      spell (render [l]) ((l.key.text, read a) :: gotPieces (cutEnd b)) := by
  have hcut : cutEnd (a ++ '+' :: b) = a ++ '+' :: cutEnd b := by
    cases hb : b with
    | nil => rw [cutEnd_of_ne] <;> simp [cutEnd]
    | cons c cs =>
      have hlast : (a ++ '+' :: c :: cs).getLast? = (c :: cs).getLast? := by
        rw [List.getLast?_append, List.getLast?_cons_cons,
          List.getLast?_eq_some_getLast (List.cons_ne_nil c cs)]
        rfl
      have hdrop : (a ++ '+' :: c :: cs).dropLast = a ++ '+' :: (c :: cs).dropLast := by
        rw [List.dropLast_append_of_ne_nil (List.cons_ne_nil _ _)]
        rfl
      rw [cutEnd, cutEnd, hlast, hdrop]
      split
      · simp
      · rfl
  have hfree : '+' ∉ l.key.text ++ '=' :: mark '/' escapedSlash a := by
    intro h
    cases List.mem_append.mp h with
    | inl hkey => exact (l.key.plain _ hkey).2.2 rfl
    | inr hval =>
      cases List.mem_cons.mp hval with
      | inl heq => cases heq
      | inr hmark =>
        cases mem_mark hmark with
        | inl hph => exact absurd hph (by decide)
        | inr hin => exact ha hin.1
  have hpart : l.ended.part =
      (l.key.text ++ '=' :: mark '/' escapedSlash a) ++ '+' :: mark '/' escapedSlash (cutEnd b) := by
    rw [Pair.part, Pair.ended, hv, hcut, mark_append, mark_cons (by decide)]
    simp
  have hkey : cut ['='] (l.key.text ++ '=' :: mark '/' escapedSlash a) =
      some (l.key.text, mark '/' escapedSlash a) :=
    cut_append (fun h => (l.key.plain _ h).2.1 rfl) _
  rw [parse_lone, hpart, split_cons_of_not_mem hfree, split_mark]
  have hcons : ∀ p ps, entriesOf (p :: ps) = entriesOf [p] ++ entriesOf ps :=
    fun p ps => entriesOf_append [p] ps
  rw [hcons, gotPieces]
  have hone : entriesOf [l.key.text ++ '=' :: mark '/' escapedSlash a] =
      [(l.key.text, read a)] := by
    simp [entriesOf, hkey, reread]
  rw [hone]
  rfl

theorem length_pieceEntries {s : List Char} : ∀ e ∈ pieceEntries s, e.2.length ≤ s.length := by
  induction s using plus_induction with
  | hnone s hs =>
    intro e he
    rw [pieceEntries, split_of_not_mem hs, List.filterMap_cons, List.filterMap_nil] at he
    cases hcut : cut ['='] s with
    | none =>
      rw [hcut] at he
      cases he
    | some e' =>
      rw [hcut] at he
      obtain rfl := List.mem_singleton.mp he
      rw [cut_spec hcut, List.length_append]
      exact Nat.le_add_left _ _
  | hcons s t hs ih =>
    intro e he
    rw [pieceEntries_append hs] at he
    simp only [List.length_append, List.length_cons]
    cases List.mem_append.mp he with
    | inl hin =>
      rw [pieceEntries, split_of_not_mem hs, List.filterMap_cons, List.filterMap_nil] at hin
      cases hcut : cut ['='] s with
      | none =>
        rw [hcut] at hin
        cases hin
      | some e' =>
        rw [hcut] at hin
        obtain rfl := List.mem_singleton.mp hin
        have hspec := congrArg List.length (cut_spec hcut)
        simp only [List.length_append] at hspec
        omega
    | inr hin =>
      have hle := ih e hin
      omega

/-- What the units behind the first one add to the joined text. -/
def joined (s : List Char) : List Char :=
  (unitValues (gotPieces s)).flatMap (unitSeparator ++ ·)

theorem unitValues_append (xs ys : List (List Char × List Char)) :
    unitValues (xs ++ ys) = unitValues xs ++ unitValues ys := by
  rw [unitValues, List.filter_append, List.map_append]
  rfl

theorem joined_append {s : List Char} (hs : '+' ∉ s) (t : List Char) :
    joined (s ++ '+' :: t) = joined s ++ joined t := by
  rw [joined, gotPieces_append hs, unitValues_append, List.flatMap_append]
  rfl

theorem gotPieces_single {s : List Char} (hs : '+' ∉ s) : gotPieces s =
    ((cut ['='] s).map (fun e => (mark '/' escapedSlash e.1, read e.2))).toList := by
  rw [gotPieces_eq, pieceEntries, split_of_not_mem hs, List.filterMap_cons, List.filterMap_nil]
  cases cut ['='] s <;> rfl

theorem joined_single {s : List Char} (hs : '+' ∉ s) : joined s =
    ((cut ['='] s).elim [] fun e =>
      if attributeOf e.1 = some .organizationalUnit then unitSeparator ++ read e.2 else []) := by
  rw [joined, gotPieces_single hs]
  cases cut ['='] s with
  | none => rfl
  | some e =>
    by_cases ha : attributeOf e.1 = some .organizationalUnit
    · simp [unitValues, attributeOf_mark, ha]
    · simp [unitValues, attributeOf_mark, ha]

theorem length_joined_single {s : List Char} (hs : '+' ∉ s) :
    (joined s).length ≤ s.length + 1 := by
  rw [joined_single hs]
  cases hcut : cut ['='] s with
  | none => exact Nat.zero_le _
  | some e =>
    have hspec := congrArg List.length (cut_spec hcut)
    simp only [List.length_append, List.length_singleton] at hspec
    simp only [Option.elim_some]
    split
    · rename_i ha
      have hkey := length_of_unit ha
      have hval := length_read_le e.2
      rw [List.length_append, unitSeparator, List.length_cons, List.length_cons, List.length_cons,
        List.length_singleton]
      omega
    · exact Nat.zero_le _

theorem length_joined (s : List Char) : (joined s).length ≤ s.length + 1 := by
  induction s using plus_induction with
  | hnone s hs => exact length_joined_single hs
  | hcons s t hs ih =>
    have hle := length_joined_single hs
    rw [joined_append hs]
    simp only [List.length_append, List.length_cons]
    omega

/-- The text in front of the first equals sign is determined. -/
theorem cut_unit {s w : List Char} (h : s = ['O', 'U', '='] ++ w) :
    cut ['='] s = some (['O', 'U'], w) := by
  have hkey : '=' ∉ ['O', 'U'] := by decide
  rw [h]
  exact cut_append hkey w

theorem joined_single_iff {s : List Char} (hs : '+' ∉ s) :
    joined s = '+' :: s ↔ ['O', 'U', '='] <+: s ∧ read s = s := by
  have hread : ∀ w, read (['O', 'U', '='] ++ w) = ['O', 'U', '='] ++ read w :=
    fun w => reread_append_cons escapedSlash_ne_nil (by decide) (by decide) ['O', 'U'] w
  rw [joined_single hs]
  constructor
  · intro h
    cases hcut : cut ['='] s with
    | none =>
      rw [hcut] at h
      cases h
    | some e =>
      rw [hcut] at h
      have hspec := cut_spec hcut
      simp only [Option.elim_some] at h
      split at h
      · rename_i ha
        have hkey := length_of_unit ha
        have htext : ['O', 'U'] ++ ('=' :: read e.2) = e.1 ++ ('=' :: e.2) := by
          rw [hspec] at h
          simpa [unitSeparator] using h
        obtain ⟨hk, hw⟩ := List.append_inj htext hkey.symm
        have hval := (List.cons.inj hw).2
        have hform : s = ['O', 'U', '='] ++ e.2 := by
          rw [hspec, ← hk]
          rfl
        constructor
        · exact ⟨e.2, hform.symm⟩
        · rw [hform, hread, hval]
      · cases h
  · rintro ⟨⟨w, hw⟩, hself⟩
    have hval : read w = w := by
      rw [← hw, hread] at hself
      exact List.append_cancel_left hself
    have hkey : attributeOf ['O', 'U'] = some .organizationalUnit := by decide
    rw [cut_unit hw.symm, Option.elim_some, if_pos hkey, hval, ← hw]
    rfl

theorem read_plus (s t : List Char) : read (s ++ '+' :: t) = read s ++ '+' :: read t :=
  reread_append_cons escapedSlash_ne_nil (by decide) (by decide) s t

/-- The units are joined to the text that was split when every piece is one of them. -/
theorem joined_iff (s : List Char) : joined s = '+' :: s ↔
    (∀ piece ∈ split ['+'] s, ['O', 'U', '='] <+: piece) ∧ read s = s := by
  induction s using plus_induction with
  | hnone s hs =>
    rw [joined_single_iff hs, split_of_not_mem hs]
    simp
  | hcons s t hs ih =>
    have hle₁ := length_joined_single hs
    have hle₂ := length_joined t
    have hread₁ := length_read_le s
    have hread₂ := length_read_le t
    rw [joined_append hs, split_cons_of_not_mem hs, read_plus, List.forall_mem_cons]
    constructor
    · intro h
      have hlen := congrArg List.length h
      simp only [List.length_append, List.length_cons] at hlen
      rw [← List.cons_append] at h
      obtain ⟨h₁, h₂⟩ := List.append_inj h (by rw [List.length_cons]; omega)
      obtain ⟨hpre, hself⟩ := (joined_single_iff hs).mp h₁
      obtain ⟨hpres, hselfs⟩ := ih.mp h₂
      rw [hself, hselfs]
      exact ⟨⟨hpre, hpres⟩, rfl⟩
    · rintro ⟨⟨hpre, hpres⟩, hself⟩
      have hlen := congrArg List.length hself
      simp only [List.length_append, List.length_cons] at hlen
      obtain ⟨h₁, h₂⟩ := List.append_inj hself (by omega)
      rw [(joined_single_iff hs).mpr ⟨hpre, h₁⟩, ih.mpr ⟨hpres, (List.cons.inj h₂).2⟩]
      rfl

/-- A backslash at the end stays there, or the text is cut. -/
theorem joined_backslash {s : List Char} (h : s.getLast? = some '\\') :
    (joined s).length < s.length + 1 ∨ (joined s).getLast? = some '\\' := by
  induction s using plus_induction with
  | hnone s hs =>
    rw [joined_single hs]
    cases hcut : cut ['='] s with
    | none => exact Or.inl (Nat.succ_pos _)
    | some e =>
      simp only [Option.elim_some]
      split
      · right
        have hspec := cut_spec hcut
        obtain ⟨w, hw⟩ := List.getLast?_eq_some_iff.mp h
        cases he : e.2 using List.reverseRecOn with
        | nil =>
          rw [he, List.append_nil, hw] at hspec
          cases (List.append_inj' hspec rfl).2
        | append_singleton u c _ =>
          rw [he, hw, ← List.append_assoc] at hspec
          obtain rfl := (List.cons.inj (List.append_inj' hspec rfl).2).1
          rw [read_concat_backslash, ← List.append_assoc, List.getLast?_concat]
      · exact Or.inl (Nat.succ_pos _)
  | hcons s t hs ih =>
    have hle := length_joined_single hs
    rw [joined_append hs]
    cases ht : t with
    | nil =>
      rw [ht, List.getLast?_concat] at h
      cases h
    | cons c cs =>
      have hlast : t.getLast? = some '\\' := by
        rw [ht, List.getLast?_append, List.getLast?_cons_cons,
          List.getLast?_eq_some_getLast (List.cons_ne_nil c cs)] at h
        rw [ht, List.getLast?_eq_some_getLast (List.cons_ne_nil c cs)]
        exact h
      rw [← ht]
      cases ih hlast with
      | inl hshort =>
        left
        simp only [List.length_append, List.length_cons]
        omega
      | inr hend =>
        right
        rw [List.getLast?_append, hend]
        rfl

/-- The units of one value are joined to that value again exactly when all its pieces are
units, it does not spell the placeholder and does not end with a slash. -/
theorem units_back_iff (a b : List Char) : read a ++ joined (cutEnd b) = a ++ '+' :: b ↔
    (∀ piece ∈ split ['+'] b, ['O', 'U', '='] <+: piece) ∧ Unmarked (a ++ '+' :: b) ∧
      b.getLast? ≠ some '/' := by
  have hle := length_joined (cutEnd b)
  have hread := length_read_le a
  have hcut := length_cutEnd b
  rw [← read_eq_self_iff, read_plus]
  constructor
  · intro h
    have hlen := congrArg List.length h
    simp only [List.length_append, List.length_cons] at hlen
    obtain ⟨ha, hb⟩ := List.append_inj h (by omega)
    have hslash : b.getLast? ≠ some '/' := by
      intro hlast
      obtain ⟨w, rfl⟩ := List.getLast?_eq_some_iff.mp hlast
      have hw : (cutEnd (w ++ ['/'])).getLast? = some '\\' := by
        rw [cutEnd_concat_slash, List.getLast?_concat]
      cases joined_backslash hw with
      | inl hshort => omega
      | inr hend =>
        rw [hb, ← List.cons_append, List.getLast?_concat] at hend
        cases hend
    rw [cutEnd_of_ne hslash] at hb
    obtain ⟨hpieces, hself⟩ := (joined_iff b).mp hb
    rw [ha, hself]
    exact ⟨hpieces, rfl, hslash⟩
  · rintro ⟨hpieces, hself, hslash⟩
    have hreadb := length_read_le b
    have hlen := congrArg List.length hself
    simp only [List.length_append, List.length_cons] at hlen
    obtain ⟨ha, hb⟩ := List.append_inj hself (by omega)
    rw [cutEnd_of_ne hslash, ha, (joined_iff b).mpr ⟨hpieces, (List.cons.inj hb).2⟩]

theorem lone_iff (l : Pair) : Readable [l] ↔
    ((attributeOf l.key.text = some .organizationalUnit → Unmarked l.value) ∧
      (∀ a, a ≠ .organizationalUnit → attributeOf l.key.text = some a → Unmarked l.value)) ∧
      (l.named → l.value.getLast? ≠ some '/') ∧ LoneReadable l ∧
      (nameOf [l.entry] = CertificateName.empty → l.named → l.value = []) := by
  constructor
  · intro h
    constructor
    · constructor
      · intro ha
        exact h.units l List.mem_cons_self ha
      · intro a hne ha
        apply h.lasts a hne l
        simp [ha]
    · exact ⟨h.slash l rfl, h.lone l rfl, fun hempty => h.fallback hempty l List.mem_cons_self⟩
  · rintro ⟨⟨hunits, hlasts⟩, hslash, hlone, hfall⟩
    constructor
    · intro p hp ha
      obtain rfl := List.mem_singleton.mp hp
      exact hunits ha
    · intro a hne p hp
      by_cases ha : attributeOf l.key.text = some a
      · simp only [List.filter_cons, ha, decide_true, if_true, List.filter_nil,
          List.getLast?_singleton, Option.mem_def, Option.some.injEq] at hp
        rw [← hp]
        exact hlasts a hne ha
      · simp [ha] at hp
    · intro p hp
      obtain rfl := Option.some.inj hp
      exact hslash
    · intro p hp
      obtain rfl := (List.cons.inj hp).1
      exact hlone
    · intro hempty p hp
      obtain rfl := List.mem_singleton.mp hp
      exact hfall hempty

theorem gotPieces_short {s : List Char} : ∀ e ∈ gotPieces s, e.2.length ≤ s.length := by
  rw [gotPieces_eq]
  intro e he
  obtain ⟨e', he', rfl⟩ := List.mem_map.mp he
  exact Nat.le_trans (length_read_le e'.2) (length_pieceEntries e' he')

/-- Cutting the end of a value changes no attribute of its pieces and empties none. -/
theorem pieceEntries_cutEnd (s : List Char) : ∃ zs : List (List Char × List Char × List Char),
    pieceEntries (cutEnd s) = zs.map (fun z => (z.1, z.2.1)) ∧
      pieceEntries s = zs.map (fun z => (z.1, z.2.2)) ∧ ∀ z ∈ zs, z.2.1 = [] ↔ z.2.2 = [] := by
  by_cases hlast : s.getLast? = some '/'
  · obtain ⟨w, rfl⟩ := List.getLast?_eq_some_iff.mp hlast
    rw [cutEnd_concat_slash]
    clear hlast
    induction w using plus_induction with
    | hnone w hw =>
      have hfree : ∀ c, c ≠ '+' → '+' ∉ w ++ [c] := by
        intro c hc hin
        cases List.mem_append.mp hin with
        | inl h => exact hw h
        | inr h => exact hc (List.mem_singleton.mp h).symm
      rw [pieceEntries, pieceEntries, split_of_not_mem (hfree _ (by decide)),
        split_of_not_mem (hfree _ (by decide))]
      by_cases heq : '=' ∈ w
      · obtain ⟨k, v, rfl, hk⟩ := List.eq_append_cons_of_mem heq
        exists [(k, v ++ ['\\'], v ++ ['/'])]
        have hcut : ∀ c, cut ['='] (k ++ '=' :: v ++ [c]) = some (k, v ++ [c]) := by
          intro c
          rw [List.append_assoc]
          exact cut_append hk (v ++ [c])
        rw [List.filterMap_cons, List.filterMap_cons, hcut, hcut]
        simp
      · have hcut : ∀ c, c ≠ '=' → cut ['='] (w ++ [c]) = none := by
          intro c hc
          apply (cut_none_iff (List.cons_ne_nil _ _)).mpr
          intro hin
          cases List.mem_append.mp (hin.subset List.mem_cons_self) with
          | inl h => exact heq h
          | inr h => exact hc (List.mem_singleton.mp h).symm
        exists []
        simp [hcut]
    | hcons w t hw ih =>
      obtain ⟨zs, h₁, h₂, h₃⟩ := ih
      exists (pieceEntries w).map (fun e => (e.1, e.2, e.2)) ++ zs
      rw [List.append_assoc, List.append_assoc, List.cons_append, List.cons_append,
        pieceEntries_append hw, pieceEntries_append hw, h₁, h₂]
      constructor
      · simp [Function.comp_def]
      · constructor
        · simp [Function.comp_def]
        · intro z hz
          cases List.mem_append.mp hz with
          | inl hin =>
            obtain ⟨e, -, rfl⟩ := List.mem_map.mp hin
            exact Iff.rfl
          | inr hin => exact h₃ z hin
  · rw [cutEnd_of_ne hlast]
    exists (pieceEntries s).map (fun e => (e.1, e.2, e.2))
    constructor
    · simp [Function.comp_def]
    · constructor
      · simp [Function.comp_def]
      · intro z hz
        obtain ⟨e, -, rfl⟩ := List.mem_map.mp hz
        exact Iff.rfl

theorem gotPieces_empty_iff (s : List Char) :
    nameOf (gotPieces (cutEnd s)) = CertificateName.empty ↔
      nameOf (pieceEntries s) = CertificateName.empty := by
  obtain ⟨zs, h₁, h₂, h₃⟩ := pieceEntries_cutEnd s
  rw [gotPieces_eq, h₁, h₂, List.map_map]
  have hk : ∀ z ∈ zs, attributeOf (mark '/' escapedSlash z.1) = attributeOf z.1 :=
    fun z _ => attributeOf_mark z.1
  have hv : ∀ z ∈ zs, read z.2.1 = [] ↔ z.2.2 = [] :=
    fun z hz => (read_eq_nil_iff _).trans (h₃ z hz)
  exact nameOf_empty_congr hk hv

theorem nameOf_cons_none {k v : List Char} (hk : attributeOf k = none)
    (es : List (List Char × List Char)) : nameOf ((k, v) :: es) = nameOf es := by
  simp [nameOf, lastValue, unitValues, hk]

theorem nameOf_single {k v : List Char} {a : Attribute} (hk : attributeOf k = some a) :
    lastValue a [(k, v)] = v ∧ (a ≠ .organizationalUnit → unitValues [(k, v)] = []) := by
  constructor
  · simp [lastValue, hk]
  · intro ha
    simp [unitValues, hk, ha]

theorem nameOf_unit {k v : List Char} (hk : attributeOf k = some .organizationalUnit) :
    nameOf [(k, v)] = { CertificateName.empty with organizationalUnit := v } := by
  simp [nameOf, lastValue, unitValues, hk, CertificateName.empty]

/-- A list with a value decodes only as the name that it spells. -/
theorem decodes_iff_eq {ps : List Pair} {es : List (List Char × List Char)}
    (hparse : parseDarwinCertificateName (render ps) = spell (render ps) es)
    (hvalue : ∃ p ∈ ps, p.named ∧ p.value ≠ [])
    (hname : nameOf (ps.map Pair.entry) ≠ CertificateName.empty) :
    Decodes ps ↔ nameOf es = nameOf (ps.map Pair.entry) := by
  obtain ⟨p, hp, hnamed, hne⟩ := hvalue
  have htext : render ps ≠ [] := render_ne_nil (List.ne_nil_of_mem hp)
  have hshort : ∀ e ∈ ps.map Pair.entry, e.2.length < (render ps).length := by
    intro e he
    obtain ⟨q, hq, rfl⟩ := List.mem_map.mp he
    exact length_value_lt hq
  have hfall : ¬ ∀ q ∈ ps, q.named → q.value = [] := fun h => hne (h p hp hnamed)
  rw [Decodes, hparse, spell]
  by_cases hes : nameOf es = CertificateName.empty
  · rw [if_pos hes, hes]
    constructor
    · intro h
      cases h with
      | inl heq => exact absurd heq.symm (nameOf_ne_text htext hshort)
      | inr h => exact absurd h.2 hfall
    · intro h
      exact absurd h.symm hname
  · rw [if_neg hes]
    constructor
    · intro h
      cases h with
      | inl heq => exact heq
      | inr h => exact absurd h.2 hfall
    · exact Or.inl

theorem gotPieces_units {s : List Char}
    (h : ∀ piece ∈ split ['+'] s, ['O', 'U', '='] <+: piece) :
    ∀ e ∈ gotPieces s, attributeOf e.1 = some .organizationalUnit := by
  rw [gotPieces_eq]
  intro e he
  obtain ⟨e', he', rfl⟩ := List.mem_map.mp he
  obtain ⟨piece, hpiece, hcut⟩ := List.mem_filterMap.mp he'
  obtain ⟨w, hw⟩ := h piece hpiece
  rw [cut_unit hw.symm] at hcut
  cases hcut
  rfl

theorem lastValue_units {a : Attribute} (ha : a ≠ .organizationalUnit)
    {es : List (List Char × List Char)}
    (h : ∀ e ∈ es, attributeOf e.1 = some .organizationalUnit) : lastValue a es = [] := by
  have hnone : es.filter (fun e => attributeOf e.1 = some a) = [] := by
    apply List.filter_eq_nil_iff.mpr
    intro e he
    rw [h e he]
    simp [Ne.symm ha]
  rw [lastValue, hnone]
  rfl

section Plus

variable {l : Pair} {a b : List Char}

theorem spelled_plus (hv : l.value = a ++ '+' :: b) (ha : '+' ∉ a) :
    spelled l.value = pieceEntries b := by
  rw [spelled, hv, split_cons_of_not_mem ha]
  rfl

theorem got_short (hv : l.value = a ++ '+' :: b) :
    ∀ e ∈ (l.key.text, read a) :: gotPieces (cutEnd b), e.2.length < l.value.length := by
  intro e he
  have hlen := congrArg List.length hv
  simp only [List.length_append, List.length_cons] at hlen
  cases he with
  | head =>
    have hle := length_read_le a
    simp only
    omega
  | tail _ he =>
    have hle := gotPieces_short e he
    rw [length_cutEnd] at hle
    omega

/-- Pieces of another attribute's value must not spell a name. -/
theorem decodes_plus_other (hv : l.value = a ++ '+' :: b) (ha : '+' ∉ a)
    (hk : attributeOf l.key.text = none) : Decodes [l] ↔ Readable [l] := by
  have htext : render [l] ≠ [] := render_ne_nil (List.cons_ne_nil _ _)
  have hnamed : ¬ l.named := fun h => h hk
  have hname : nameOf ([l].map Pair.entry) = CertificateName.empty := by
    rw [List.map_singleton, Pair.entry, nameOf_cons_none hk]
    rfl
  have hshort : ∀ e ∈ (l.key.text, read a) :: gotPieces (cutEnd b),
      e.2.length < (render [l]).length := by
    intro e he
    exact Nat.lt_trans (got_short hv e he) (length_value_lt List.mem_cons_self)
  have hdec : Decodes [l] ↔ nameOf (pieceEntries b) = CertificateName.empty := by
    have hgot : nameOf ((l.key.text, read a) :: gotPieces (cutEnd b)) =
        nameOf (gotPieces (cutEnd b)) := nameOf_cons_none hk _
    rw [Decodes, parse_plus hv ha, hname, spell, ← gotPieces_empty_iff, ← hgot]
    split
    · rename_i hempty
      constructor
      · intro _
        exact hempty
      · intro _
        right
        constructor
        · rfl
        · intro p hp hp'
          obtain rfl := List.mem_singleton.mp hp
          exact absurd hp' hnamed
    · rename_i hne
      constructor
      · intro h
        cases h with
        | inl heq => exact heq
        | inr h => exact absurd h.1 (nameOf_ne_text htext hshort)
      · intro h
        exact absurd h hne
  have hlone : LoneReadable l ↔ nameOf (pieceEntries b) = CertificateName.empty := by
    rw [LoneReadable, hk, ← spelled_plus hv ha]
  rw [hdec, lone_iff, hlone]
  constructor
  · intro h
    constructor
    · constructor
      · intro hou
        rw [hk] at hou
        cases hou
      · intro c _ hc
        rw [hk] at hc
        cases hc
    · exact ⟨fun h' => absurd h' hnamed, h, fun _ h' => absurd h' hnamed⟩
  · intro h
    exact h.2.2.1

/-- A single unit is read back when all pieces of its value are units. -/
theorem decodes_plus_unit (hv : l.value = a ++ '+' :: b) (ha : '+' ∉ a)
    (hk : attributeOf l.key.text = some .organizationalUnit) : Decodes [l] ↔ Readable [l] := by
  have hvalue : l.value ≠ [] := by
    rw [hv]
    simp
  have hnamed : l.named := by
    intro hnone
    rw [hk] at hnone
    cases hnone
  have hE : nameOf [l.entry] = { CertificateName.empty with organizationalUnit := l.value } :=
    nameOf_unit hk
  have hEne : nameOf [l.entry] ≠ CertificateName.empty := by
    rw [hE]
    intro heq
    exact hvalue (congrArg CertificateName.organizationalUnit heq)
  have hou : unitSeparator.intercalate
      (unitValues ((l.key.text, read a) :: gotPieces (cutEnd b))) = read a ++ joined (cutEnd b) := by
    have hunits : unitValues ((l.key.text, read a) :: gotPieces (cutEnd b)) =
        read a :: unitValues (gotPieces (cutEnd b)) := by
      simp [unitValues, hk]
    rw [hunits, intercalate_cons]
    rfl
  have hslash : l.value.getLast? = b.getLast?.or (some '+') := by
    rw [hv, List.getLast?_append]
    cases b with
    | nil => rfl
    | cons c cs =>
      rw [List.getLast?_cons_cons, List.getLast?_eq_some_getLast (List.cons_ne_nil c cs)]
      rfl
  have hslash' : l.value.getLast? ≠ some '/' ↔ b.getLast? ≠ some '/' := by
    rw [hslash]
    cases b.getLast? with
    | none => simp
    | some c => simp
  have hlone : LoneReadable l ↔ ∀ piece ∈ split ['+'] b, ['O', 'U', '='] <+: piece := by
    rw [LoneReadable, hk, hv, split_cons_of_not_mem ha]
    rfl
  rw [decodes_iff_eq (parse_plus hv ha) ⟨l, List.mem_cons_self, hnamed, hvalue⟩ hEne, lone_iff,
    hlone, hslash']
  have hback := units_back_iff a b
  rw [← hv] at hback
  constructor
  · intro h
    have hfield : read a ++ joined (cutEnd b) = l.value := by
      have hcongr := congrArg CertificateName.organizationalUnit h
      rw [List.map_singleton, hE] at hcongr
      exact hou.symm.trans hcongr
    obtain ⟨hpieces, hplain, hend⟩ := hback.mp hfield
    exact ⟨⟨fun _ => hplain, fun _ _ _ => hplain⟩, fun _ => hend, hpieces,
      fun hempty => absurd hempty hEne⟩
  · rintro ⟨⟨hplain, -⟩, hend, hpieces, -⟩
    have hfield := hback.mpr ⟨hpieces, hplain hk, hend hnamed⟩
    have hunits : ∀ e ∈ (l.key.text, read a) :: gotPieces (cutEnd b),
        attributeOf e.1 = some .organizationalUnit := by
      intro e he
      cases he with
      | head => exact hk
      | tail _ he =>
        rw [cutEnd_of_ne (hend hnamed)] at he
        exact gotPieces_units hpieces e he
    rw [List.map_singleton, hE, nameOf, hou, hfield, lastValue_units (by decide) hunits,
      lastValue_units (by decide) hunits, lastValue_units (by decide) hunits]
    rfl

/-- Any other single value with a plus sign is cut. -/
theorem decodes_plus_last (hv : l.value = a ++ '+' :: b) (ha : '+' ∉ a) {c : Attribute}
    (hc : c ≠ .organizationalUnit) (hk : attributeOf l.key.text = some c) :
    Decodes [l] ↔ Readable [l] := by
  have hvalue : l.value ≠ [] := by
    rw [hv]
    simp
  have hnamed : l.named := by
    intro hnone
    rw [hk] at hnone
    cases hnone
  have hfield : ∀ es es', nameOf es = nameOf es' → lastValue c es = lastValue c es' := by
    intro es es' h
    cases c with
    | country => exact congrArg CertificateName.country h
    | organization => exact congrArg CertificateName.organization h
    | organizationalUnit => exact absurd rfl hc
    | commonName => exact congrArg CertificateName.commonName h
  have hlast : lastValue c [l.entry] = l.value := (nameOf_single hk).1
  have hEne : nameOf [l.entry] ≠ CertificateName.empty := by
    intro heq
    have hnil := hfield _ [] heq
    rw [hlast] at hnil
    exact hvalue hnil
  rw [decodes_iff_eq (parse_plus hv ha) ⟨l, List.mem_cons_self, hnamed, hvalue⟩ hEne]
  constructor
  · intro h
    have hsame := hfield _ _ h
    have hlt := lastValue_lt (a := c) (List.length_pos_of_ne_nil hvalue) (got_short hv)
    rw [hsame, List.map_singleton, hlast] at hlt
    exact absurd hlt (Nat.lt_irrefl _)
  · intro h
    have hlone := h.lone l rfl
    have hmem : '+' ∈ l.value := by
      rw [hv]
      simp
    rw [LoneReadable, hk] at hlone
    cases c with
    | organizationalUnit => exact absurd rfl hc
    | country => exact absurd hmem hlone
    | organization => exact absurd hmem hlone
    | commonName => exact absurd hmem hlone

end Plus

/-- One pair without a plus sign in its value is read as any other last pair. -/
theorem decodes_lone {l : Pair} : Decodes [l] ↔ Readable [l] := by
  by_cases hmem : '+' ∈ l.value
  · obtain ⟨a, b, hv, ha⟩ := List.eq_append_cons_of_mem hmem
    cases hk : attributeOf l.key.text with
    | none => exact decodes_plus_other hv ha hk
    | some c =>
      by_cases hc : c = .organizationalUnit
      · rw [hc] at hk
        exact decodes_plus_unit hv ha hk
      · exact decodes_plus_last hv ha hc hk
  · have hended : '+' ∉ l.ended.part := by
      intro h
      cases List.mem_append.mp h with
      | inl hkey => exact (l.key.plain _ hkey).2.2 rfl
      | inr hval =>
        cases List.mem_cons.mp hval with
        | inl heq => cases heq
        | inr hmark =>
          cases mem_mark hmark with
          | inl hph => exact absurd hph (by decide)
          | inr hin =>
            obtain ⟨hin, -⟩ := hin
            simp only [Pair.ended, cutEnd] at hin
            split at hin
            · cases List.mem_append.mp hin with
              | inl h => exact hmem (List.mem_of_mem_dropLast h)
              | inr h => cases List.mem_singleton.mp h
            · exact hmem hin
    have hparse : parseDarwinCertificateName (render ([] ++ [l])) =
        spell (render ([] ++ [l])) (([] ++ [l.ended]).map Pair.got) := by
      have hentries := entriesOf_parts [l.ended]
      rw [List.nil_append, List.nil_append, parse_lone, split_of_not_mem hended, ← hentries]
      rfl
    apply decodes_of_split hparse
    intro p hp
    obtain rfl := (List.cons.inj hp).1
    rw [LoneReadable, spelled, split_of_not_mem hmem]
    split
    · rfl
    · intro piece hpiece
      cases hpiece
    · exact hmem

/-- A pair whose value ends with a backslash takes in the pair behind it. -/
def Pair.merge (p q : Pair) : Pair :=
  { p with value := p.value.dropLast ++ '/' :: (q.key.text ++ '=' :: q.value) }

theorem render_merge {p q : Pair} (h : p.value.getLast? = some '\\') :
    (p.merge q).render = p.render ++ q.render := by
  obtain ⟨w, hw⟩ := List.getLast?_eq_some_iff.mp h
  have hkey : escape q.key.text = q.key.text :=
    escape_eq_self (fun hm => (q.key.plain _ hm).1 rfl)
  have hlast : escape ['\\'] = ['\\'] := rfl
  rw [Pair.render, Pair.merge, hw, List.dropLast_concat, escape_append, escape_slash, escape_append,
    escape_cons (by decide), hkey, Pair.render, Pair.render, hw, escape_append, hlast]
  simp

/-- The text of a list that is not determined is the text of a shorter one that is. -/
theorem render_undetermined {ps : List Pair} (h : ¬ Determined ps) :
    ∃ qs, Determined qs ∧ qs.length < ps.length ∧ render qs = render ps := by
  induction hlen : ps.length using Nat.strongRecOn generalizing ps with
  | ind n ih =>
    obtain ⟨p, hp⟩ := not_forall.mp h
    obtain ⟨hmem, hlast⟩ := Classical.not_imp.mp hp
    have hlast := not_not.mp hlast
    obtain ⟨xs, zs, hdrop⟩ := List.append_of_mem hmem
    have hne : ps ≠ [] := by
      rintro rfl
      cases hmem
    have hps := List.dropLast_append_getLast hne
    obtain ⟨q, ys, hrest⟩ := List.exists_cons_of_ne_nil
      (List.append_ne_nil_of_right_ne_nil zs (List.cons_ne_nil (ps.getLast hne) []))
    rw [hdrop, List.append_assoc, List.cons_append, hrest] at hps
    have hrender : render (xs ++ p.merge q :: ys) = render ps := by
      rw [← hps]
      simp [render, render_merge hlast]
    have hshort : (xs ++ p.merge q :: ys).length + 1 = n := by
      rw [← hlen, ← hps]
      simp only [List.length_append, List.length_cons]
      omega
    by_cases hdet : Determined (xs ++ p.merge q :: ys)
    · exact ⟨_, hdet, by omega, hrender⟩
    · obtain ⟨qs, hqs, hlt, heq⟩ := ih _ (by omega) hdet rfl
      exact ⟨qs, hqs, by omega, heq.trans hrender⟩

/-- A name is read back exactly when its values meet `Readable`. Where a value ends with a
backslash in front of another pair, the text is that of other pairs. -/
theorem names_decode_iff (ps : List Pair) (hne : ps ≠ []) :
    (Determined ps → (Decodes ps ↔ Readable ps)) ∧
      (¬ Determined ps →
        ∃ qs, Determined qs ∧ qs.length < ps.length ∧ render qs = render ps) := by
  constructor
  · intro hdet
    obtain ⟨qs, l, rfl⟩ : ∃ qs l, ps = qs ++ [l] :=
      ⟨ps.dropLast, ps.getLast hne, (List.dropLast_append_getLast hne).symm⟩
    cases qs with
    | nil => exact decodes_lone
    | cons q qs =>
      apply decodes_of_split (parse_several (List.cons_ne_nil q qs) hdet)
      intro p hp
      have hlen := congrArg List.length hp
      simp at hlen
  · exact render_undetermined

def organization : Key := ⟨['O'], by simp, by simp⟩
def organizationalUnit : Key := ⟨['O', 'U'], by simp, by simp⟩
def commonName : Key := ⟨['C', 'N'], by simp, by simp⟩

theorem names_decode_iff_example :
    (Determined [⟨organization, ['a', '/', '+']⟩, ⟨commonName, ['=', 'b']⟩] →
      (Decodes [⟨organization, ['a', '/', '+']⟩, ⟨commonName, ['=', 'b']⟩] ↔
        Readable [⟨organization, ['a', '/', '+']⟩, ⟨commonName, ['=', 'b']⟩])) ∧
      (¬ Determined [⟨organization, ['a', '/', '+']⟩, ⟨commonName, ['=', 'b']⟩] →
        ∃ qs, Determined qs ∧ qs.length < 2 ∧
          render qs = render [⟨organization, ['a', '/', '+']⟩, ⟨commonName, ['=', 'b']⟩]) :=
  names_decode_iff _ (List.cons_ne_nil _ _)

/-- `/O=a/CN=b\/` loses its last slash, and `/CN=a+b` is cut at the plus sign. -/
theorem ends_of_names_altered :
    (parseDarwinCertificateName (render [⟨organization, ['a']⟩, ⟨commonName, ['b', '/']⟩]) =
        ⟨[], ['a'], [], ['b', '\\']⟩ ∧
      ¬ Decodes [⟨organization, ['a']⟩, ⟨commonName, ['b', '/']⟩]) ∧
    (parseDarwinCertificateName (render [⟨commonName, ['a', '+', 'b']⟩]) =
        ⟨[], [], [], ['a']⟩ ∧
      ¬ Decodes [⟨commonName, ['a', '+', 'b']⟩]) := by
  have hslash : parseDarwinCertificateName
      (render [⟨organization, ['a']⟩, ⟨commonName, ['b', '/']⟩]) =
        ⟨[], ['a'], [], ['b', '\\']⟩ := by decide
  have hplus : parseDarwinCertificateName (render [⟨commonName, ['a', '+', 'b']⟩]) =
      ⟨[], [], [], ['a']⟩ := by decide
  constructor
  · constructor
    · exact hslash
    · rw [Decodes, hslash]
      rintro (h | ⟨h, -⟩)
      · exact absurd h (by decide)
      · exact absurd h (by decide)
  · constructor
    · exact hplus
    · rw [Decodes, hplus]
      rintro (h | ⟨h, -⟩)
      · exact absurd h (by decide)
      · exact absurd h (by decide)

end CertificateNames
