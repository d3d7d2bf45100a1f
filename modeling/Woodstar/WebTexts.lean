import Woodstar.TextPieces

/-!
# Texts of the web client

`String.prototype.trim` and the helpers of `web/src/lib/utils.ts`. It and Go's
`strings.TrimSpace` differ on two characters: the client strips U+FEFF and keeps U+0085.
-/
namespace WebTexts

open Primitives (isSpace trimSpace)

/-- White space and line terminators of ECMAScript. -/
def isWebSpace (c : Char) : Bool :=
  (9 ≤ c.toNat && c.toNat ≤ 13) || c.toNat == 0x20 || c.toNat == 0xA0 || c.toNat == 0xFEFF ||
    c.toNat == 0x1680 || (0x2000 ≤ c.toNat && c.toNat ≤ 0x200A) || c.toNat == 0x2028 ||
    c.toNat == 0x2029 || c.toNat == 0x202F || c.toNat == 0x205F || c.toNat == 0x3000

def strip (s : List Char) : List Char := ((s.dropWhile isWebSpace).reverse.dropWhile isWebSpace).reverse

/-- `text.trim()` -/
def trim (text : String) : String := String.ofList (strip text.toList)

/-- `undefined` is `none`. -/
def nonEmpty (value : Option String) : Option String :=
  value.bind (fun value => if trim value = "" then none else some (trim value))

/-- No byte order mark at either end. -/
def Plain (text : String) : Prop :=
  text.toList.head? ≠ some '\uFEFF' ∧ text.toList.getLast? ≠ some '\uFEFF'

instance decidablePlain (text : String) : Decidable (Plain text) := inferInstanceAs (Decidable (_ ∧ _))

theorem isWebSpace_iff {c : Char} (h : isSpace c = false) : isWebSpace c = true ↔ c = '\uFEFF' := by
  have hmark : c = '\uFEFF' ↔ c.toNat = 0xFEFF := by
    rw [← Char.toNat_inj]
    exact Iff.rfl
  rw [hmark]
  simp only [isSpace, isWebSpace, Bool.or_eq_true, Bool.or_eq_false_iff, Bool.and_eq_true, decide_eq_true_eq,
    beq_iff_eq, beq_eq_false_iff_ne, Bool.and_eq_false_iff, decide_eq_false_iff_not] at h ⊢
  omega

theorem dropWhile_eq_self_iff {p : Char → Bool} {s : List Char} :
    s.dropWhile p = s ↔ ∀ c ∈ s.head?, p c = false := by
  cases s with
  | nil => simp
  | cons c cs =>
    cases hc : p c with
    | false => simp [hc]
    | true =>
      rw [List.dropWhile_cons_of_pos hc]
      constructor
      · intro heq
        have hlen := congrArg List.length heq
        have hle := (List.dropWhile_suffix p (l := cs)).length_le
        rw [List.length_cons] at hlen
        omega
      · intro h
        have hfalse := h c rfl
        rw [hc] at hfalse
        cases hfalse

theorem length_strip_le (s : List Char) : (strip s).length ≤ s.length := by
  have hfront := (List.dropWhile_suffix isWebSpace (l := s)).length_le
  have hback := (List.dropWhile_suffix isWebSpace (l := (s.dropWhile isWebSpace).reverse)).length_le
  simp only [strip, List.length_reverse] at hback ⊢
  omega

/-- The client leaves a text alone if neither end is white space. -/
theorem strip_eq_self_iff {s : List Char} :
    strip s = s ↔ (∀ c ∈ s.head?, isWebSpace c = false) ∧ ∀ c ∈ s.getLast?, isWebSpace c = false := by
  rw [← List.head?_reverse, ← dropWhile_eq_self_iff, ← dropWhile_eq_self_iff]
  constructor
  · intro h
    have hfront : s.dropWhile isWebSpace = s := by
      apply (List.dropWhile_suffix isWebSpace).eq_of_length
      have hle := (List.dropWhile_suffix isWebSpace (l := s)).length_le
      have hback := (List.dropWhile_suffix isWebSpace (l := (s.dropWhile isWebSpace).reverse)).length_le
      have hlen := congrArg List.length h
      simp only [strip, List.length_reverse] at hlen hback
      omega
    rw [strip, hfront] at h
    exact ⟨hfront, List.reverse_eq_iff.mp h⟩
  · intro h
    rw [strip, h.1, h.2, List.reverse_reverse]

/-- The server's texts survive the client exactly when they are plain. -/
theorem trim_eq_self_iff {text : String} (h : trimSpace text = text) : trim text = text ↔ Plain text := by
  have hends := (TextPieces.trim_eq_iff.mp (TextPieces.trimSpace_eq_iff.mp h))
  rw [dropWhile_eq_self_iff, dropWhile_eq_self_iff, List.head?_reverse] at hends
  have hsame : trim text = text ↔ strip text.toList = text.toList := by
    rw [trim, ← String.toList_inj, String.toList_ofList]
  rw [hsame, strip_eq_self_iff, Plain]
  have hend : ∀ end? : Option Char, (∀ c ∈ end?, isSpace c = false) →
      ((∀ c ∈ end?, isWebSpace c = false) ↔ end? ≠ some '\uFEFF') := by
    intro end? hspace
    cases end? with
    | none => simp
    | some c =>
      have hc := isWebSpace_iff (hspace c rfl)
      rw [Ne, Option.some.injEq, ← hc, Bool.not_eq_true]
      simp
  exact and_congr (hend _ hends.1) (hend _ hends.2)

theorem toList_trim (text : String) : (trim text).toList = strip text.toList := String.toList_ofList ..

theorem trim_eq_of_length {text : String} (h : text.toList.length ≤ (trim text).toList.length) : trim text = text := by
  rw [toList_trim] at h
  have hfront := List.dropWhile_suffix isWebSpace (l := text.toList)
  have hback := List.dropWhile_suffix isWebSpace (l := (text.toList.dropWhile isWebSpace).reverse)
  rw [← List.reverse_prefix, List.reverse_reverse] at hback
  have hinfix : strip text.toList <:+: text.toList := hback.isInfix.trans hfront.isInfix
  have hle := hinfix.length_le
  rw [trim, hinfix.eq_of_length (by omega), String.ofList_toList]

/-- What the client strips, twice over, the server does not put back. -/
theorem trim_eq_of_trimSpace {text : String} (h : trimSpace (trim (trim text)) = text) : trim text = text := by
  have hserver := (TextPieces.trim_isInfix (trim (trim text)).toList).length_le
  have hsame : (trimSpace (trim (trim text))).toList = TextPieces.trim (trim (trim text)).toList :=
    String.toList_ofList ..
  rw [h] at hsame
  have hfirst := length_strip_le text.toList
  have hsecond := length_strip_le (trim text).toList
  rw [← toList_trim] at hfirst hsecond
  rw [← hsame] at hserver
  exact trim_eq_of_length (by omega)

end WebTexts
