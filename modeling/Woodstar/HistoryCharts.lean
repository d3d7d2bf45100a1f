import Mathlib.Data.List.Chain
import Woodstar.StatusHistory

/-!
# Charts of the status history

`web/src/features/osquery/history`: the entries of a chart, which breaks its line where
buckets are missing. Times are milliseconds here; a bucket of the store is a whole second.
-/
namespace HistoryCharts

open StatusHistory
open PolicyModel (Crypto)
open Heartbeats (Addresses)
open Runs

def historyRefresh : Int := 300000

inductive HistoryRange where
  | day
  | week
  | month
  deriving DecidableEq, Repr

def HistoryRange.milliseconds : HistoryRange → Int
  | .day => 24 * 60 * 60000
  | .week => 7 * 24 * 60 * 60000
  | .month => 30 * 24 * 60 * 60000

def historyBounds (range : HistoryRange) (now : Int) : Int × Int :=
  let bucketedNow := now / historyRefresh * historyRefresh
  (bucketedNow - range.milliseconds, bucketedNow)

inductive Entry (P : Type) where
  | point (p : P)
  | gap (bucket : Int)
  deriving DecidableEq, Repr

section Chart

variable {P : Type}

def Entry.at (bucket : P → Int) : Entry P → Int
  | .point p => bucket p
  | .gap b => b

def Entry.point? : Entry P → Option P
  | .point p => some p
  | .gap _ => none

variable (bucket : P → Int)

/-- `distance > HISTORY_REFRESH_MS * 1.5`. -/
def isGap (first last : Int) : Bool := decide (historyRefresh * 3 < (last - first) * 2)

/-- The loop, with the bucket of the previous point. -/
def withBreaks (previous : Option Int) : List P → List (Entry P)
  | [] => []
  | p :: ps =>
    match previous with
    | some b =>
      if isGap b (bucket p) = true then
        .gap (b + historyRefresh) :: .point p :: withBreaks (some (bucket p)) ps
      else .point p :: withBreaks (some (bucket p)) ps
    | none => .point p :: withBreaks (some (bucket p)) ps

def withHistoryGaps (points : List P) (bounds : Int × Int) : List (Entry P) :=
  (match points.head? with
    | some first => if isGap bounds.1 (bucket first) = true then [.gap bounds.1] else []
    | none => []) ++
  withBreaks bucket none points ++
  (match points.getLast? with
    | some last => if isGap (bucket last) bounds.2 = true then [.gap bounds.2] else []
    | none => [])

/-- No line from a bucket to a point that is not the next one. -/
def Entry.Follows (b : Int) : Entry P → Prop
  | .point q => bucket q = b + historyRefresh
  | .gap _ => True

def Line : Entry P → Entry P → Prop
  | .point p, e => e.Follows bucket (bucket p)
  | .gap _, _ => True

/-- What a chart between two bounds is to show of points: all of them, in their order, with no
more than a bucket left out behind the one bound and in front of the other, and no line between
two that are not of successive buckets. -/
structure Shows (points : List P) (bounds : Int × Int) (chart : List (Entry P)) : Prop where
  points : chart.filterMap Entry.point? = points
  ascending : chart.Pairwise (fun a b => a.at bucket < b.at bucket)
  lines : chart.IsChain (Line bucket)
  left : ∀ e ∈ chart.head?, e.at bucket ≤ bounds.1 + historyRefresh
  right : ∀ e ∈ chart.getLast?, bounds.2 - historyRefresh ≤ e.at bucket

variable {bucket} {points : List P} {b : Int} {bounds : Int × Int}

def Aligned (b : Int) : Prop := historyRefresh ∣ b

theorem isGap_iff {first last : Int} (hfirst : Aligned first) (hlast : Aligned last) :
    isGap first last = true ↔ first + historyRefresh < last := by
  obtain ⟨m, rfl⟩ := hfirst
  obtain ⟨n, rfl⟩ := hlast
  rw [isGap, decide_eq_true_iff]
  simp only [historyRefresh]
  omega

theorem breaks_points (previous : Option Int) :
    (withBreaks bucket previous points).filterMap Entry.point? = points := by
  induction points generalizing previous with
  | nil => rfl
  | cons p ps ih =>
    cases previous with
    | none =>
      simp only [withBreaks, List.filterMap_cons, Entry.point?, ih]
    | some b =>
      simp only [withBreaks]
      split_ifs <;> simp only [List.filterMap_cons, Entry.point?, ih]

/-- The entries of the loop from a previous point on: in order, and no line over a missing bucket. -/
structure Continues (bucket : P → Int) (b : Int) (entries : List (Entry P)) : Prop where
  ascending : entries.Pairwise (fun a b => a.at bucket < b.at bucket)
  after : ∀ e ∈ entries, b < e.at bucket
  lines : entries.IsChain (Line bucket)
  joins : ∀ e ∈ entries.head?, e.Follows bucket b

theorem continues_nil (b : Int) : Continues bucket b [] := by
  constructor
  · exact List.Pairwise.nil
  · nofun
  · exact List.IsChain.nil
  · nofun

/-- An entry in front, of a bucket before what follows it. -/
theorem continues_cons {e : Entry P} {entries : List (Entry P)}
    (h : entries.Pairwise (fun a b => a.at bucket < b.at bucket)) (hlines : entries.IsChain (Line bucket))
    (hafter : ∀ e' ∈ entries, e.at bucket < e'.at bucket) (hlt : b < e.at bucket)
    (hline : ∀ e' ∈ entries.head?, Line bucket e e') (hfollows : e.Follows bucket b) :
    Continues bucket b (e :: entries) := by
  constructor
  · exact List.pairwise_cons.mpr ⟨hafter, h⟩
  · intro e' he
    cases List.mem_cons.mp he with
    | inl hnew => exact hnew ▸ hlt
    | inr hold => exact lt_trans hlt (hafter e' hold)
  · exact List.isChain_cons.mpr ⟨hline, hlines⟩
  · intro e' he
    obtain rfl := Option.some.inj he
    exact hfollows

/-- A point of the next bucket in front. -/
theorem continues_point {p : P} {entries : List (Entry P)} (h : Continues bucket (bucket p) entries)
    (hnext : bucket p = b + historyRefresh) : Continues bucket b (.point p :: entries) := by
  have hlt : b < bucket p := by
    rw [hnext, historyRefresh]
    omega
  exact continues_cons h.ascending h.lines h.after hlt h.joins hnext

/-- A break and the point behind it in front. -/
theorem continues_gap {p : P} {entries : List (Entry P)} (h : Continues bucket (bucket p) entries)
    (hgap : b + historyRefresh < bucket p) :
    Continues bucket b (.gap (b + historyRefresh) :: .point p :: entries) := by
  have hlt : b < b + historyRefresh := by
    rw [historyRefresh]
    omega
  have hpoint : ∀ e ∈ Entry.point p :: entries, b + historyRefresh < e.at bucket := by
    intro e he
    cases List.mem_cons.mp he with
    | inl hnew => exact hnew ▸ hgap
    | inr hold => exact lt_trans hgap (h.after e hold)
  have hascending : (Entry.point p :: entries).Pairwise (fun a b => a.at bucket < b.at bucket) :=
    List.pairwise_cons.mpr ⟨h.after, h.ascending⟩
  have hlines : (Entry.point p :: entries).IsChain (Line bucket) :=
    List.isChain_cons.mpr ⟨h.joins, h.lines⟩
  exact continues_cons hascending hlines hpoint hlt (fun _ _ => trivial) trivial

theorem breaks_continue (halign : ∀ p ∈ points, Aligned (bucket p))
    (hsorted : points.Pairwise (fun p q => bucket p < bucket q)) (hb : Aligned b)
    (hfirst : ∀ p ∈ points, b < bucket p) : Continues bucket b (withBreaks bucket (some b) points) := by
  induction points generalizing b with
  | nil => exact continues_nil b
  | cons p ps ih =>
    obtain ⟨hrest, hsorted'⟩ := List.pairwise_cons.mp hsorted
    have hp := halign p List.mem_cons_self
    have hps := ih (fun q hq => halign q (List.mem_cons_of_mem _ hq)) hsorted' hp hrest
    have hgap := isGap_iff hb hp
    simp only [withBreaks]
    split_ifs with hlong
    · exact continues_gap hps (hgap.mp hlong)
    · apply continues_point hps
      have hshort : ¬ b + historyRefresh < bucket p := fun h => hlong (hgap.mpr h)
      have hlt := hfirst p List.mem_cons_self
      obtain ⟨m, hm⟩ := hb
      obtain ⟨n, hn⟩ := hp
      simp only [historyRefresh] at hshort hm hn ⊢
      omega

theorem bounds_aligned (range : HistoryRange) (now : Int) :
    Aligned (historyBounds range now).1 ∧ Aligned (historyBounds range now).2 := by
  simp only [historyBounds, Aligned, historyRefresh]
  constructor
  · cases range <;> simp only [HistoryRange.milliseconds] <;> omega
  · omega

/-- The first point has no break in front of it but the one of the left bound. -/
theorem chart_cons (p : P) (ps : List (P)) :
    withHistoryGaps bucket (p :: ps) bounds =
      (if isGap bounds.1 (bucket p) = true then [.gap bounds.1] else []) ++
        (.point p :: withBreaks bucket (some (bucket p)) ps) ++
          (if isGap (bucket ((p :: ps).getLast (List.cons_ne_nil p ps))) bounds.2 = true then [.gap bounds.2]
            else []) := by
  simp only [withHistoryGaps, withBreaks, List.head?_cons,
    List.getLast?_eq_some_getLast (List.cons_ne_nil p ps)]

/-- No entry is behind the last point. -/
theorem breaks_before {m : Int} (halign : ∀ p ∈ points, Aligned (bucket p)) (hb : Aligned b)
    (hlast : ∀ p ∈ points, bucket p ≤ m) :
    ∀ e ∈ withBreaks bucket (some b) points, e.at bucket ≤ m := by
  induction points generalizing b with
  | nil => nofun
  | cons p ps ih =>
    have hp := halign p List.mem_cons_self
    have hpm := hlast p List.mem_cons_self
    have hps := ih (fun q hq => halign q (List.mem_cons_of_mem _ hq)) hp
      (fun q hq => hlast q (List.mem_cons_of_mem _ hq))
    have hpoint : ∀ e ∈ Entry.point p :: withBreaks bucket (some (bucket p)) ps, e.at bucket ≤ m := by
      intro e he
      cases List.mem_cons.mp he with
      | inl hnew => exact hnew ▸ hpm
      | inr hold => exact hps e hold
    simp only [withBreaks]
    split_ifs with hlong
    · have hgap := (isGap_iff hb hp).mp hlong
      intro e he
      cases List.mem_cons.mp he with
      | inl hnew =>
        rw [hnew]
        simp only [Entry.at]
        omega
      | inr hold => exact hpoint e hold
    · exact hpoint

theorem le_last (hsorted : points.Pairwise (fun p q => bucket p < bucket q)) {p : P} (hne : points ≠ [])
    (hp : p ∈ points) : bucket p ≤ bucket (points.getLast hne) := by
  rw [← List.dropLast_append_getLast hne] at hp hsorted
  cases List.mem_append.mp hp with
  | inl hfront =>
    have hlt := (List.pairwise_append.mp hsorted).2.2 p hfront _ (List.mem_singleton_self _)
    exact le_of_lt hlt
  | inr hlast => exact le_of_eq (congrArg bucket (List.mem_singleton.mp hlast))

theorem filterMap_gap {c : Bool} :
    (if c = true then [Entry.gap b] else [] : List (Entry P)).filterMap Entry.point? = [] := by
  split_ifs <;> rfl

/-- The loop ends with the last point. -/
theorem breaks_last (p : P) (ps : List P) :
    (Entry.point p :: withBreaks bucket (some (bucket p)) ps).getLast? =
      some (.point ((p :: ps).getLast (List.cons_ne_nil p ps))) := by
  induction ps generalizing p with
  | nil => rfl
  | cons q ps ih =>
    simp only [withBreaks]
    split_ifs
    · rw [List.getLast?_cons_cons, List.getLast?_cons_cons, ih q]
      rfl
    · rw [List.getLast?_cons_cons, ih q]
      rfl

/-- Entries in order between two buckets. -/
structure Drawn (bucket : P → Int) (first last : Int) (entries : List (Entry P)) : Prop where
  ascending : entries.Pairwise (fun a b => a.at bucket < b.at bucket)
  lines : entries.IsChain (Line bucket)
  within : ∀ e ∈ entries, first ≤ e.at bucket ∧ e.at bucket ≤ last

/-- A break at the left bound. -/
theorem drawn_front {first last : Int} {entries : List (Entry P)} (h : Drawn bucket first last entries)
    (hlast : first ≤ last) (c : Bool) (b : Int) (hb : c = true → b < first) :
    Drawn bucket (min b first) last ((if c = true then [Entry.gap b] else []) ++ entries) := by
  split_ifs with hc
  · have hlt := hb hc
    constructor
    · exact List.pairwise_cons.mpr ⟨fun e he => lt_of_lt_of_le hlt (h.within e he).1, h.ascending⟩
    · exact List.isChain_cons.mpr ⟨fun _ _ => trivial, h.lines⟩
    · intro e he
      cases List.mem_cons.mp he with
      | inl hnew =>
        rw [hnew]
        simp only [Entry.at]
        omega
      | inr hold =>
        have := h.within e hold
        omega
  · constructor
    · exact h.ascending
    · exact h.lines
    · intro e he
      have := h.within e he
      omega

/-- A break at the right bound. -/
theorem drawn_back {first last : Int} {entries : List (Entry P)} (h : Drawn bucket first last entries)
    (c : Bool) (b : Int) (hb : c = true → last < b) :
    (entries ++ (if c = true then [Entry.gap b] else [])).Pairwise
        (fun (e e' : Entry P) => e.at bucket < e'.at bucket) ∧
      (entries ++ (if c = true then [Entry.gap b] else [])).IsChain (Line bucket) := by
  split_ifs with hc
  · constructor
    · rw [List.pairwise_append]
      refine ⟨h.ascending, List.pairwise_singleton _ _, fun e he e' he' => ?_⟩
      rw [List.mem_singleton.mp he']
      exact lt_of_le_of_lt (h.within e he).2 (hb hc)
    · apply h.lines.append (List.isChain_singleton _)
      intro e _ e' he'
      obtain rfl := Option.some.inj he'
      cases e <;> trivial
  · rw [List.append_nil]
    exact ⟨h.ascending, h.lines⟩

/-- The loop over all points. -/
theorem drawn_points {p : P} {ps : List P} (halign : ∀ q ∈ p :: ps, Aligned (bucket q))
    (hsorted : (p :: ps).Pairwise (fun p q => bucket p < bucket q)) :
    Drawn bucket (bucket p) (bucket ((p :: ps).getLast (List.cons_ne_nil p ps)))
      (.point p :: withBreaks bucket (some (bucket p)) ps) := by
  have hne := List.cons_ne_nil p ps
  have hp := halign p List.mem_cons_self
  have hps := fun q (hq : q ∈ ps) => halign q (List.mem_cons_of_mem _ hq)
  have hbreaks := breaks_continue hps (List.pairwise_cons.mp hsorted).2 hp (List.pairwise_cons.mp hsorted).1
  have hbefore := breaks_before hps hp (fun q hq => le_last hsorted hne (List.mem_cons_of_mem _ hq))
  constructor
  · exact List.pairwise_cons.mpr ⟨hbreaks.after, hbreaks.ascending⟩
  · exact List.isChain_cons.mpr ⟨hbreaks.joins, hbreaks.lines⟩
  · intro e he
    cases List.mem_cons.mp he with
    | inl hnew => exact hnew ▸ ⟨le_rfl, le_last hsorted hne List.mem_cons_self⟩
    | inr hold => exact ⟨le_of_lt (hbreaks.after e hold), hbefore e hold⟩

theorem chart_shows_cons {p : P} {ps : List P} (halign : ∀ q ∈ p :: ps, Aligned (bucket q))
    (hsorted : (p :: ps).Pairwise (fun p q => bucket p < bucket q)) (hleft : Aligned bounds.1)
    (hright : Aligned bounds.2) : Shows bucket (p :: ps) bounds (withHistoryGaps bucket (p :: ps) bounds) := by
  have hne := List.cons_ne_nil p ps
  have hgapLeft := isGap_iff hleft (halign p List.mem_cons_self)
  have hgapRight := isGap_iff (halign _ (List.getLast_mem hne)) hright
  have hstep : 0 < historyRefresh := by decide
  have hfront := drawn_front (drawn_points halign hsorted) (le_last hsorted hne List.mem_cons_self)
    (isGap bounds.1 (bucket p)) bounds.1 (fun hgap => by
      have := hgapLeft.mp hgap
      omega)
  have hback := drawn_back hfront (isGap (bucket ((p :: ps).getLast hne)) bounds.2) bounds.2
    (fun hgap => by
      have := hgapRight.mp hgap
      omega)
  rw [chart_cons]
  constructor
  · rw [List.filterMap_append, List.filterMap_append, filterMap_gap, filterMap_gap]
    simp only [List.filterMap_cons, Entry.point?, breaks_points, List.nil_append, List.append_nil]
  · exact hback.1
  · exact hback.2
  · intro e he
    by_cases hgap : isGap bounds.1 (bucket p) = true
    · rw [if_pos hgap] at he
      obtain rfl := Option.some.inj he
      simp only [Entry.at]
      omega
    · rw [if_neg hgap] at he
      obtain rfl := Option.some.inj he
      have hshort : ¬ bounds.1 + historyRefresh < bucket p := fun h => hgap (hgapLeft.mpr h)
      simp only [Entry.at]
      omega
  · intro e he
    by_cases hgap : isGap (bucket ((p :: ps).getLast hne)) bounds.2 = true
    · rw [if_pos hgap, List.getLast?_concat] at he
      obtain rfl := Option.some.inj he
      simp only [Entry.at]
      omega
    · rw [if_neg hgap, List.append_nil, List.getLast?_append, breaks_last, Option.some_or] at he
      obtain rfl := Option.some.inj he
      have hshort : ¬ bucket ((p :: ps).getLast hne) + historyRefresh < bounds.2 :=
        fun h => hgap (hgapRight.mpr h)
      simp only [Entry.at]
      omega

theorem chart_shows (halign : ∀ q ∈ points, Aligned (bucket q))
    (hsorted : points.Pairwise (fun p q => bucket p < bucket q)) (range : HistoryRange) (now : Int) :
    Shows bucket points (historyBounds range now) (withHistoryGaps bucket points (historyBounds range now)) := by
  obtain ⟨hleft, hright⟩ := bounds_aligned range now
  cases points with
  | nil => exact ⟨rfl, List.Pairwise.nil, List.IsChain.nil, nofun, nofun⟩
  | cons p ps => exact chart_shows_cons halign hsorted hleft hright

end Chart

/-- `new Date(point.bucket).getTime()` of a whole second. -/
def milliseconds (bucket : Int) : Int := bucket / 1000

/-- Whatever was recorded, counted and swept, and whenever the points were asked for and the
chart drawn: it shows the listed points and no line over a bucket of which none is stored. -/
theorem charts_show_history {A : Type} [DecidableEq A] (crypto : Crypto) (net : Addresses A)
    (events : List Event) (range : HistoryRange) (asked drawn : Int) :
    let s := exec (step crypto net) ({} : State A) events
    let since := (historyBounds range asked).1 * 1000
    let bounds := historyBounds range drawn
    Shows (fun p => milliseconds p.bucket) (listHostStatus s since) bounds
      (withHistoryGaps (fun p => milliseconds p.bucket) (listHostStatus s since) bounds) ∧
    ∀ policyID, Shows (fun p => milliseconds p.bucket) (listPolicyStatus s policyID since) bounds
      (withHistoryGaps (fun p => milliseconds p.bucket) (listPolicyStatus s policyID since) bounds) := by
  intro s since bounds
  have haligned : ∀ observedAt, Aligned (milliseconds (bucketOf observedAt)) := by
    intro observedAt
    exists observedAt / bucketInterval
    simp only [milliseconds, bucketOf, bucketInterval, historyRefresh]
    omega
  have hmono : ∀ a b : Int, (∃ o, a = bucketOf o) → (∃ o, b = bucketOf o) → a < b →
      milliseconds a < milliseconds b := by
    rintro a b ⟨o, rfl⟩ ⟨o', rfl⟩ hlt
    simp only [milliseconds, bucketOf, bucketInterval] at hlt ⊢
    omega
  have h : Sound s := sound_run events
  constructor
  · have hbucket : ∀ p ∈ listHostStatus s since, ∃ o, p.bucket = bucketOf o := by
      intro p hp
      obtain ⟨before, observedAt, after, -, rfl⟩ := host_snapshot hp
      exact ⟨observedAt, rfl⟩
    apply chart_shows
    · intro p hp
      obtain ⟨observedAt, hobserved⟩ := hbucket p hp
      rw [hobserved]
      exact haligned observedAt
    · apply (listHostStatus_sorted h since).imp_of_mem
      intro p q hp hq hlt
      exact hmono _ _ (hbucket p hp) (hbucket q hq) hlt
  · intro policyID
    have hbucket : ∀ p ∈ listPolicyStatus s policyID since, ∃ o, p.bucket = bucketOf o := by
      intro p hp
      obtain ⟨before, observedAt, after, -, rfl⟩ := policy_snapshot hp
      exact ⟨observedAt, rfl⟩
    apply chart_shows
    · intro p hp
      obtain ⟨observedAt, hobserved⟩ := hbucket p hp
      rw [hobserved]
      exact haligned observedAt
    · apply (listPolicyStatus_sorted h policyID since).imp_of_mem
      intro p q hp hq hlt
      exact hmono _ _ (hbucket p hp) (hbucket q hq) hlt

end HistoryCharts
