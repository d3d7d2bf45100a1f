import Mathlib.Algebra.Order.BigOperators.Group.Finset
import Mathlib.Algebra.BigOperators.Fin
import Mathlib.Data.Int.Cast.Lemmas
import Woodstar.Runs
import Woodstar.Tilings

/-!
# The multipart upload of an installer

`uploadMultipart` cuts the installer into parts and sends several at a time.
The request bodies of all parts share one progress counter. A request that is
sent again opens a new body for its part while the transport may still be
reading the old one.
-/
namespace MultipartUpload

open Tilings

/-- `int64` arithmetic wraps around. -/
def int64 (x : ℤ) : ℤ := Int.bmod x (2 ^ 64)

theorem int64_eq {x : ℤ} (hlow : -2 ^ 63 ≤ x) (hhigh : x < 2 ^ 63) : int64 x = x := by
  apply Int.bmod_eq_of_le <;> omega

structure Part where
  number : ℤ
  offset : ℤ
  length : ℤ
  deriving DecidableEq, Repr

def Part.block (p : Part) : Block := ⟨p.offset, p.length⟩

/-- At least 64 MiB, and large enough that 10000 parts hold the installer. -/
def partSize (size : ℤ) : ℤ := max (64 * 2 ^ 20) ((int64 (size + 9999)).tdiv 10000)

/-- The loop over offsets, `none` when it runs for more than `fuel` rounds. -/
def partsFrom (size : ℤ) : ℕ → ℤ → ℤ → Option (List Part)
  | 0, offset, _ => if offset < size then none else some []
  | fuel + 1, offset, number =>
    if offset < size then
      (partsFrom size fuel (int64 (offset + partSize size)) (int64 (number + 1))).map
        (⟨number, offset, min (partSize size) (int64 (size - offset))⟩ :: ·)
    else some []

/-- The parts that `uploadMultipart` issues. -/
def uploadMultipart (fuel : ℕ) (size : ℤ) : Option (List Part) := partsFrom size fuel 0 1

theorem partSize_bounds {size : ℤ} (hpos : 1 ≤ size) (hsize : size ≤ 2 ^ 62) :
    64 * 2 ^ 20 ≤ partSize size ∧ partSize size ≤ 2 ^ 62 ∧ size ≤ 10000 * partSize size := by
  have hround : int64 (size + 9999) = size + 9999 := int64_eq (by omega) (by omega)
  have hdiv : (size + 9999).tdiv 10000 = (size + 9999) / 10000 :=
    Int.tdiv_eq_ediv_of_nonneg (by omega)
  rw [partSize, hround, hdiv]
  omega

theorem partsFrom_succ {size : ℤ} {fuel : ℕ} {offset number : ℤ} {ps : List Part}
    (h : partsFrom size fuel offset number = some ps) :
    partsFrom size (fuel + 1) offset number = some ps := by
  induction fuel generalizing offset number ps with
  | zero =>
    rw [partsFrom] at h
    split at h
    · cases h
    · rename_i hend
      rw [partsFrom, if_neg hend]
      exact h
  | succ fuel ih =>
    rw [partsFrom] at h
    rw [partsFrom]
    split at h
    · rename_i hmore
      rw [if_pos hmore]
      obtain ⟨rest, hrest, hps⟩ := Option.map_eq_some_iff.mp h
      rw [ih hrest]
      exact congrArg some hps
    · rename_i hend
      rw [if_neg hend]
      exact h

theorem partsFrom_mono {size : ℤ} {fuel fuel' : ℕ} {offset number : ℤ} {ps : List Part}
    (hle : fuel ≤ fuel') (h : partsFrom size fuel offset number = some ps) :
    partsFrom size fuel' offset number = some ps := by
  induction hle with
  | refl => exact h
  | step _ ih => exact partsFrom_succ ih

/-- The parts of the installer from an offset on. -/
structure Remaining (size offset number : ℤ) (fuel : ℕ) (ps : List Part) : Prop where
  numbered : ps.map Part.number = (List.range ps.length).map (fun i : ℕ => number + i)
  count : ps.length ≤ fuel
  done : size ≤ offset → ps = []
  tiled : offset ≤ size → Tiled offset (ps.map Part.block) size
  even : ∀ p ∈ ps.dropLast, p.length = partSize size

theorem map_range_succ (number : ℤ) (n : ℕ) :
    (List.range (n + 1)).map (fun i : ℕ => number + i) =
      number :: (List.range n).map (fun i : ℕ => number + 1 + i) := by
  rw [List.range_succ_eq_map, List.map_cons, List.map_map]
  congr 1
  · simp
  · apply List.map_congr_left
    intro i _
    simp only [Function.comp_apply]
    omega

/-- The parts before the last one are full. -/
theorem dropLast_full {size offset : ℤ} {p : Part} {rest : List Part}
    (hp : p.length = min (partSize size) (size - offset))
    (hdone : size ≤ offset + partSize size → rest = [])
    (heven : ∀ q ∈ rest.dropLast, q.length = partSize size) :
    ∀ q ∈ (p :: rest).dropLast, q.length = partSize size := by
  intro q hq
  cases rest with
  | nil => cases hq
  | cons r rest =>
    rw [List.dropLast_cons_of_ne_nil (by simp)] at hq
    cases hq with
    | head =>
      have hmore : ¬ size ≤ offset + partSize size := fun h => List.cons_ne_nil _ _ (hdone h)
      omega
    | tail _ hq => exact heven q hq

/-- The loop ends in as many rounds as full parts hold the rest. -/
theorem partsFrom_remaining {size : ℤ} (hpos : 1 ≤ size) (hsize : size ≤ 2 ^ 62) (fuel : ℕ)
    (offset number : ℤ) (hoff : 0 ≤ offset) (hend : offset ≤ 2 ^ 62 + partSize size)
    (hnum : 0 ≤ number) (hnum' : number + fuel < 2 ^ 62)
    (hfuel : size ≤ offset + fuel * partSize size) :
    ∃ ps, partsFrom size fuel offset number = some ps ∧ Remaining size offset number fuel ps := by
  obtain ⟨hmin, hmax, -⟩ := partSize_bounds hpos hsize
  induction fuel generalizing offset number with
  | zero =>
    have hstop : ¬ offset < size := by
      rw [Nat.cast_zero, zero_mul] at hfuel
      omega
    exists []
    rw [partsFrom, if_neg hstop]
    constructor
    · rfl
    · constructor
      · rfl
      · exact le_refl _
      · intro _
        rfl
      · intro hle
        obtain rfl : offset = size := by omega
        exact Tiled.nil offset
      · intro p hp
        cases hp
  | succ fuel ih =>
    rw [partsFrom]
    split
    · rename_i hmore
      have hnext : int64 (offset + partSize size) = offset + partSize size :=
        int64_eq (by omega) (by omega)
      have hnumber : int64 (number + 1) = number + 1 := int64_eq (by omega) (by omega)
      have hleft : int64 (size - offset) = size - offset := int64_eq (by omega) (by omega)
      have hstep : size ≤ offset + partSize size + fuel * partSize size := by
        rw [Nat.cast_succ, add_mul, one_mul] at hfuel
        omega
      obtain ⟨rest, hrest, hrem⟩ := ih (offset + partSize size) (number + 1) (by omega) (by omega)
        (by omega) (by omega) hstep
      rw [hnext, hnumber, hrest, hleft]
      exists ⟨number, offset, min (partSize size) (size - offset)⟩ :: rest
      constructor
      · rfl
      · constructor
        · rw [List.map_cons, hrem.numbered, List.length_cons, map_range_succ]
        · exact Nat.succ_le_succ hrem.count
        · intro hle
          omega
        · intro _
          apply Tiled.cons
          · rfl
          · simp only [Part.block]
            omega
          · simp only [Part.block]
            rcases le_total size (offset + partSize size) with hlast | hmid
            · rw [hrem.done hlast, min_eq_right (by omega), add_sub_cancel]
              exact Tiled.nil size
            · rw [min_eq_left (by omega)]
              exact hrem.tiled hmid
        · exact dropLast_full rfl hrem.done hrem.even
    · rename_i hstop
      exists []
      constructor
      · rfl
      · constructor
        · rfl
        · exact Nat.zero_le _
        · intro _
          rfl
        · intro hle
          obtain rfl : offset = size := by omega
          exact Tiled.nil offset
        · intro p hp
          cases hp

/-- The parts are numbered without gaps, at most 10000, and hold the installer exactly; all but
the last have one length of at least 64 MiB. -/
structure Covers (size : ℤ) (ps : List Part) : Prop where
  numbered : ps.map Part.number = (List.range ps.length).map (fun i : ℕ => 1 + (i : ℤ))
  count : ps.length ≤ 10000
  contiguous : Tiled 0 (ps.map Part.block) size
  disjoint : (ps.map Part.block).Pairwise (fun b c => Disjoint b.span c.span)
  covered : (⋃ b ∈ ps.map Part.block, b.span) = Set.Ico 0 size
  even : ∃ l, 64 * 2 ^ 20 ≤ l ∧ ∀ p ∈ ps.dropLast, p.length = l

theorem uploadMultipart_covers {size : ℤ} (hpos : 1 ≤ size) (hsize : size ≤ 2 ^ 62) :
    ∃ ps, (∀ fuel, 10000 ≤ fuel → uploadMultipart fuel size = some ps) ∧ Covers size ps := by
  obtain ⟨hmin, hmax, hcap⟩ := partSize_bounds hpos hsize
  have hfuel : size ≤ 0 + (10000 : ℕ) * partSize size := by
    push_cast
    omega
  obtain ⟨ps, hps, hrem⟩ := partsFrom_remaining hpos hsize 10000 0 1 (le_refl _) (by omega)
    (by omega) (by omega) hfuel
  have htiled := hrem.tiled (by omega)
  exists ps
  constructor
  · intro fuel hle
    exact partsFrom_mono hle hps
  · constructor
    · exact hrem.numbered
    · exact hrem.count
    · exact htiled
    · exact htiled.pairwise_disjoint
    · exact htiled.iUnion_span
    · exists partSize size
      exact ⟨hmin, hrem.even⟩

/-- One attempt at sending a part: an `io.SectionReader` from `base` to `limit`
and what the attempt has counted. -/
structure InstallerBody where
  part : ℕ
  base : ℤ
  off : ℤ
  limit : ℤ
  /-- What the section reader has handed to a `Read` that has not counted it yet. -/
  reading : Option ℤ
  sent : ℤ
  replaced : Bool
  deriving DecidableEq, Repr

/-- The bytes that the finished calls of `Read` have returned. -/
def InstallerBody.read (body : InstallerBody) : ℤ := body.off - body.base - body.reading.getD 0

def InstallerBody.atEnd (body : InstallerBody) : Prop :=
  body.off = body.limit ∧ body.reading = none

/-- The shared counter, the bodies that were opened and the latest one of each part. -/
structure TransferProgress where
  total : ℤ
  sent : ℤ
  reported : List ℤ
  current : ℕ → Option ℕ
  bodies : ℕ → Option InstallerBody
  fresh : ℕ

def start (size : ℤ) : TransferProgress := ⟨size, 0, [], fun _ => none, fun _ => none, 0⟩

def TransferProgress.latest (p : TransferProgress) (i : ℕ) : Option InstallerBody :=
  (p.current i).bind p.bodies

/-- What the latest body of a part has read. -/
def TransferProgress.latestRead (p : TransferProgress) (i : ℕ) : ℤ :=
  (p.latest i).elim 0 InstallerBody.read

def TransferProgress.put (p : TransferProgress) (b : ℕ) (body : InstallerBody) :
    TransferProgress :=
  { p with bodies := Function.update p.bodies b (some body) }

/-- The opener takes back what the body before has counted. -/
def TransferProgress.replace (p : TransferProgress) (b : ℕ) : TransferProgress :=
  match p.bodies b with
  | none => p
  | some body =>
    { p.put b { body with replaced := true } with sent := int64 (p.sent - body.sent) }

/-- `io.NewSectionReader` stops at the largest `int64`. -/
def sectionLimit (offset length : ℤ) : ℤ :=
  if offset ≤ 2 ^ 63 - 1 - length then length + offset else 2 ^ 63 - 1

def TransferProgress.openBody (p : TransferProgress) (i : ℕ) (part : Part) : TransferProgress :=
  let q := (p.current i).elim p p.replace
  { q.put q.fresh ⟨i, part.offset, part.offset, sectionLimit part.offset part.length,
      none, 0, false⟩ with
    current := Function.update q.current i (some q.fresh)
    fresh := q.fresh + 1 }

/-- The second half of `Read`, under the lock: a replaced body counts nothing. -/
def TransferProgress.countRead (p : TransferProgress) (b : ℕ) (body : InstallerBody) (n : ℤ)
    (due : Bool) : TransferProgress :=
  if body.replaced then p.put b { body with reading := none }
  else
    let sent := int64 (p.sent + n)
    { p.put b { body with reading := none, sent := int64 (body.sent + n) } with
      sent := sent
      reported := if due then sent :: p.reported else p.reported }

inductive Event where
  | body (part : ℕ)
  | read (body : ℕ) (n : ℤ)
  | count (body : ℕ) (due : Bool)
  | finish
  deriving DecidableEq, Repr

/-- One step of any goroutine. The calls of `Read` on one body follow each other. -/
def step (ps : List Part) (p : TransferProgress) : Event → Option TransferProgress
  | .body i => ps[i]?.map (p.openBody i)
  | .read b n => (p.bodies b).bind fun body =>
      if body.reading = none ∧ 0 ≤ n ∧ n ≤ body.limit - body.off then
        some (p.put b { body with off := body.off + n, reading := some n })
      else none
  | .count b due => (p.bodies b).bind fun body =>
      body.reading.map fun n => p.countRead b body n due
  | .finish => some { p with reported := p.sent :: p.reported }

/-- What every body keeps to. -/
structure WellFormed (ps : List Part) (body : InstallerBody) : Prop where
  bounds : body.base ≤ body.off ∧ body.off ≤ body.limit
  part : ∃ part, ps[body.part]? = some part ∧ body.limit - body.base = part.length
  reading : ∀ n, body.reading = some n → 0 ≤ n ∧ n ≤ body.off - body.base
  sent : body.replaced = false → body.sent = body.read

structure Inv (size : ℤ) (ps : List Part) (p : TransferProgress) : Prop where
  counted : p.sent = ∑ i ∈ Finset.range ps.length, p.latestRead i
  fresh : ∀ b, p.fresh ≤ b → p.bodies b = none
  current : ∀ i b, p.current i = some b →
    ∃ body, p.bodies b = some body ∧ body.part = i ∧ body.replaced = false
  live : ∀ b body, p.bodies b = some body → body.replaced = false →
    p.current body.part = some b
  bodies : ∀ b body, p.bodies b = some body → WellFormed ps body
  reported : ∀ r ∈ p.reported, 0 ≤ r ∧ r ≤ size

theorem WellFormed.read_bounds {ps : List Part} {body : InstallerBody} (h : WellFormed ps body) :
    0 ≤ body.read ∧ body.read ≤ body.limit - body.base := by
  have hb := h.bounds
  cases hr : body.reading with
  | none =>
    simp only [InstallerBody.read, hr, Option.getD_none]
    omega
  | some n =>
    have hn := h.reading n hr
    simp only [InstallerBody.read, hr, Option.getD_some]
    omega

theorem latestRead_none {p : TransferProgress} {i : ℕ} (h : p.current i = none) :
    p.latestRead i = 0 := by
  simp [TransferProgress.latestRead, TransferProgress.latest, h]

theorem latestRead_some {p : TransferProgress} {i b : ℕ} {body : InstallerBody}
    (hc : p.current i = some b) (hb : p.bodies b = some body) : p.latestRead i = body.read := by
  simp [TransferProgress.latestRead, TransferProgress.latest, hc, hb]

/-- A part has read between nothing and all of its length. -/
theorem Inv.latestRead_bounds {size : ℤ} {ps : List Part} {p : TransferProgress}
    (h : Inv size ps p) {i : ℕ} (hi : i < ps.length) (hlen : ∀ q ∈ ps, 0 < q.length) :
    0 ≤ p.latestRead i ∧ p.latestRead i ≤ ps[i].length := by
  cases hc : p.current i with
  | none =>
    rw [latestRead_none hc]
    exact ⟨le_refl _, (hlen ps[i] (List.getElem_mem hi)).le⟩
  | some b =>
    obtain ⟨body, hb, hpart, -⟩ := h.current i b hc
    have hwf := h.bodies b body hb
    obtain ⟨part, hp, hlimit⟩ := hwf.part
    rw [hpart, List.getElem?_eq_getElem hi] at hp
    cases hp
    rw [latestRead_some hc hb, ← hlimit]
    exact hwf.read_bounds

/-- The lengths of the parts, added up over their positions in the list. -/
theorem sum_lengths {size : ℤ} {ps : List Part} (h : Tiled 0 (ps.map Part.block) size) :
    ∑ i ∈ Finset.range ps.length, ((ps.map Part.length).getD i 0) = size := by
  have hsum := h.sum_length
  rw [List.map_map, sub_zero] at hsum
  rw [← hsum]
  have hlen : ps.length = (ps.map Part.length).length := by simp
  rw [hlen, Finset.sum_range, ← List.sum_ofFn]
  congr 1
  apply List.ext_getElem
  · simp
  · intro i h₁ h₂
    simp [Part.block]

theorem sum_change {f g : ℕ → ℤ} {n i : ℕ} {d : ℤ} (hi : i < n) (hat : g i = f i + d)
    (hother : ∀ j, j ≠ i → g j = f j) :
    ∑ j ∈ Finset.range n, g j = (∑ j ∈ Finset.range n, f j) + d := by
  have hmem : i ∈ Finset.range n := Finset.mem_range.mpr hi
  rw [← Finset.add_sum_erase _ g hmem, ← Finset.add_sum_erase _ f hmem, hat]
  have hrest : ∑ j ∈ (Finset.range n).erase i, g j = ∑ j ∈ (Finset.range n).erase i, f j := by
    apply Finset.sum_congr rfl
    intro j hj
    exact hother j (Finset.ne_of_mem_erase hj)
  rw [hrest, add_right_comm]

/-- The counter stays between nothing and the size. -/
theorem Inv.sent_bounds {size : ℤ} {ps : List Part} {p : TransferProgress} (h : Inv size ps p)
    (htiled : Tiled 0 (ps.map Part.block) size) : 0 ≤ p.sent ∧ p.sent ≤ size := by
  have hlen : ∀ q ∈ ps, 0 < q.length := by
    intro q hq
    exact (htiled.bounds (List.mem_map_of_mem hq)).2.1
  have hbounds : ∀ i ∈ Finset.range ps.length,
      0 ≤ p.latestRead i ∧ p.latestRead i ≤ (ps.map Part.length).getD i 0 := by
    intro i hi
    have hi := Finset.mem_range.mp hi
    have hb := h.latestRead_bounds hi hlen
    simpa [List.getD_eq_getElem?_getD, hi] using hb
  rw [h.counted]
  constructor
  · exact Finset.sum_nonneg (fun i hi => (hbounds i hi).1)
  · rw [← sum_lengths htiled]
    exact Finset.sum_le_sum (fun i hi => (hbounds i hi).2)

/-- A live body is the latest one of a part that was issued. -/
theorem Inv.live_latest {size : ℤ} {ps : List Part} {p : TransferProgress} (h : Inv size ps p)
    {b : ℕ} {body : InstallerBody} (hb : p.bodies b = some body) (hlive : body.replaced = false) :
    body.part < ps.length ∧ p.latestRead body.part = body.read := by
  obtain ⟨part, hp, -⟩ := (h.bodies b body hb).part
  obtain ⟨hi, -⟩ := List.getElem?_eq_some_iff.mp hp
  exact ⟨hi, latestRead_some (h.live b body hb hlive) hb⟩

section Put

variable {size : ℤ} {ps : List Part} {p q : TransferProgress} {b : ℕ} {body body' : InstallerBody}

theorem latestRead_of_put (hcurrent : q.current = p.current)
    (hbodies : q.bodies = Function.update p.bodies b (some body')) {i : ℕ}
    (hi : p.current i ≠ some b) : q.latestRead i = p.latestRead i := by
  simp only [TransferProgress.latestRead, TransferProgress.latest, hcurrent, hbodies]
  cases hc : p.current i with
  | none => rfl
  | some c =>
    have hne : c ≠ b := by
      intro heq
      rw [hc, heq] at hi
      exact hi rfl
    simp [Function.update_of_ne hne]

/-- Only the part of the body counts it. -/
theorem Inv.current_part (h : Inv size ps p) (hb : p.bodies b = some body) {i : ℕ}
    (hc : p.current i = some b) : i = body.part ∧ body.replaced = false := by
  obtain ⟨body₁, hb₁, hpart, hlive⟩ := h.current i b hc
  rw [hb] at hb₁
  cases hb₁
  exact ⟨hpart.symm, hlive⟩

/-- A body that stays live or stays replaced, with the counter moved by what it has read. -/
theorem Inv.put (h : Inv size ps p) (hb : p.bodies b = some body) (hwf : WellFormed ps body')
    (hpart : body'.part = body.part) (hrep : body'.replaced = body.replaced)
    (hcurrent : q.current = p.current) (hfresh : q.fresh = p.fresh)
    (hbodies : q.bodies = Function.update p.bodies b (some body'))
    (hsent : q.sent = p.sent + (if body.replaced then 0 else body'.read - body.read))
    (hreported : ∀ r ∈ q.reported, 0 ≤ r ∧ r ≤ size) : Inv size ps q := by
  have hself : q.bodies b = some body' := by
    rw [hbodies]
    exact Function.update_self ..
  have hother : ∀ c, c ≠ b → q.bodies c = p.bodies c := by
    intro c hne
    rw [hbodies]
    exact Function.update_of_ne hne ..
  constructor
  · rw [hsent, h.counted]
    symm
    cases hr : body.replaced with
    | true =>
      simp only [if_true, add_zero]
      apply Finset.sum_congr rfl
      intro i _
      apply latestRead_of_put hcurrent hbodies
      intro hc
      have hlive := (h.current_part hb hc).2
      rw [hr] at hlive
      cases hlive
    | false =>
      obtain ⟨hi, hread⟩ := h.live_latest hb hr
      have hcur : q.current body.part = some b := by
        rw [hcurrent]
        exact h.live b body hb hr
      rw [if_neg Bool.false_ne_true]
      apply sum_change hi
      · rw [hread, latestRead_some hcur hself]
        simp
      · intro j hj
        apply latestRead_of_put hcurrent hbodies
        intro hc
        exact hj (h.current_part hb hc).1
  · intro c hc
    rw [hfresh] at hc
    have hne : c ≠ b := by
      intro heq
      rw [heq] at hc
      rw [h.fresh b hc] at hb
      cases hb
    rw [hother c hne]
    exact h.fresh c hc
  · intro i c hc
    rw [hcurrent] at hc
    by_cases heq : c = b
    · rw [heq] at hc ⊢
      obtain ⟨hip, hlive⟩ := h.current_part hb hc
      exists body'
      exact ⟨hself, hpart.trans hip.symm, hrep.trans hlive⟩
    · rw [hother c heq]
      exact h.current i c hc
  · intro c other hc hlive
    rw [hcurrent]
    by_cases heq : c = b
    · rw [heq, hself] at hc
      cases hc
      rw [hrep] at hlive
      rw [heq, hpart]
      exact h.live b body hb hlive
    · rw [hother c heq] at hc
      exact h.live c other hc hlive
  · intro c other hc
    by_cases heq : c = b
    · rw [heq, hself] at hc
      cases hc
      exact hwf
    · rw [hother c heq] at hc
      exact h.bodies c other hc
  · exact hreported

end Put

def newBody (i : ℕ) (part : Part) : InstallerBody :=
  ⟨i, part.offset, part.offset, sectionLimit part.offset part.length, none, 0, false⟩

section OpenBody

variable {size : ℤ} {ps : List Part} {p : TransferProgress} {i : ℕ} {part : Part}

@[simp] theorem replace_current (b : ℕ) : (p.replace b).current = p.current := by
  rw [TransferProgress.replace]
  split <;> rfl

@[simp] theorem replace_fresh (b : ℕ) : (p.replace b).fresh = p.fresh := by
  rw [TransferProgress.replace]
  split <;> rfl

@[simp] theorem replace_reported (b : ℕ) : (p.replace b).reported = p.reported := by
  rw [TransferProgress.replace]
  split <;> rfl

theorem replace_bodies (b c : ℕ) : (p.replace b).bodies c =
    if c = b then (p.bodies b).map (fun body => { body with replaced := true })
    else p.bodies c := by
  rw [TransferProgress.replace]
  by_cases heq : c = b
  · rw [if_pos heq, heq]
    split
    · rename_i hb
      rw [hb]
      rfl
    · rename_i body hb
      rw [hb]
      exact Function.update_self ..
  · rw [if_neg heq]
    split
    · rfl
    · exact Function.update_of_ne heq ..

@[simp] theorem openBody_current :
    (p.openBody i part).current = Function.update p.current i (some p.fresh) := by
  rw [TransferProgress.openBody]
  cases hc : p.current i <;> simp

@[simp] theorem openBody_fresh : (p.openBody i part).fresh = p.fresh + 1 := by
  rw [TransferProgress.openBody]
  cases hc : p.current i <;> simp

@[simp] theorem openBody_reported : (p.openBody i part).reported = p.reported := by
  rw [TransferProgress.openBody]
  cases hc : p.current i <;> simp [TransferProgress.put]

theorem openBody_bodies (c : ℕ) : (p.openBody i part).bodies c =
    if c = p.fresh then some (newBody i part)
    else if p.current i = some c then
      (p.bodies c).map (fun body => { body with replaced := true })
    else p.bodies c := by
  rw [TransferProgress.openBody]
  by_cases hf : c = p.fresh
  · rw [if_pos hf, hf]
    cases hc : p.current i <;> simp [TransferProgress.put, newBody]
  · rw [if_neg hf]
    cases hc : p.current i with
    | none => simp [TransferProgress.put, Function.update_of_ne hf]
    | some b =>
      simp only [TransferProgress.put, Option.elim_some, replace_fresh, Function.update_of_ne hf,
        replace_bodies, Option.some.injEq]
      by_cases heq : c = b
      · simp [heq]
      · simp [heq, Ne.symm heq]

/-- What the latest body had read is taken back. -/
theorem Inv.openBody_sent (h : Inv size ps p) (htiled : Tiled 0 (ps.map Part.block) size)
    (hsize : size ≤ 2 ^ 62) (hi : i < ps.length) :
    (p.openBody i part).sent = p.sent - p.latestRead i := by
  rw [TransferProgress.openBody]
  cases hc : p.current i with
  | none =>
    rw [latestRead_none hc, sub_zero]
    rfl
  | some b =>
    obtain ⟨body, hb, hpart, hlive⟩ := h.current i b hc
    have hsent := (h.bodies b body hb).sent hlive
    have hlen : ∀ q ∈ ps, 0 < q.length := by
      intro q hq
      exact (htiled.bounds (List.mem_map_of_mem hq)).2.1
    have hread := h.latestRead_bounds hi hlen
    have hbounds := h.sent_bounds htiled
    have hmem := (htiled.bounds (List.mem_map_of_mem (f := Part.block) (List.getElem_mem hi)))
    simp only [Part.block] at hmem
    rw [latestRead_some hc hb] at hread ⊢
    simp only [Option.elim_some, TransferProgress.put, TransferProgress.replace, hb, hsent]
    exact int64_eq (by omega) (by omega)

theorem newBody_wellFormed (htiled : Tiled 0 (ps.map Part.block) size) (hsize : size ≤ 2 ^ 62)
    (hp : ps[i]? = some part) : WellFormed ps (newBody i part) := by
  have hmem := htiled.bounds (List.mem_map_of_mem (f := Part.block) (List.mem_of_getElem? hp))
  simp only [Part.block] at hmem
  have hlimit : sectionLimit part.offset part.length = part.length + part.offset := by
    rw [sectionLimit, if_pos (by omega)]
  constructor
  · simp only [newBody, hlimit]
    omega
  · exists part
    simp only [newBody, hlimit]
    exact ⟨hp, by omega⟩
  · intro n hn
    cases hn
  · intro _
    simp [newBody, InstallerBody.read]

theorem WellFormed.replaced {body : InstallerBody} (h : WellFormed ps body) :
    WellFormed ps { body with replaced := true } := by
  constructor
  · exact h.bounds
  · exact h.part
  · exact h.reading
  · intro hlive
    cases hlive

theorem Inv.openBody (h : Inv size ps p) (htiled : Tiled 0 (ps.map Part.block) size)
    (hsize : size ≤ 2 ^ 62) (hp : ps[i]? = some part) : Inv size ps (p.openBody i part) := by
  obtain ⟨hi, -⟩ := List.getElem?_eq_some_iff.mp hp
  have hnone := h.fresh p.fresh (le_refl _)
  -- the bodies of other parts are neither the new one nor the replaced one
  have hother : ∀ j c, j ≠ i → p.current j = some c → c ≠ p.fresh ∧ p.current i ≠ some c := by
    intro j c hj hc
    obtain ⟨body, hb, hpart, -⟩ := h.current j c hc
    constructor
    · intro heq
      rw [heq, hnone] at hb
      cases hb
    · intro hci
      obtain ⟨body₁, hb₁, hpart₁, -⟩ := h.current i c hci
      rw [hb] at hb₁
      cases hb₁
      exact hj (hpart.symm.trans hpart₁)
  constructor
  · rw [h.openBody_sent htiled hsize hi, h.counted]
    symm
    rw [sub_eq_add_neg]
    apply sum_change hi
    · have hcur : (p.openBody i part).current i = some p.fresh := by simp
      have hnew : (p.openBody i part).bodies p.fresh = some (newBody i part) := by
        simp [openBody_bodies]
      rw [latestRead_some hcur hnew]
      simp [newBody, InstallerBody.read]
    · intro j hj
      simp only [TransferProgress.latestRead, TransferProgress.latest, openBody_current,
        Function.update_of_ne hj]
      cases hc : p.current j with
      | none => rfl
      | some c =>
        obtain ⟨hne, hci⟩ := hother j c hj hc
        simp only [Option.bind_some, openBody_bodies, if_neg hne, if_neg hci]
  · intro c hc
    rw [openBody_fresh] at hc
    rw [openBody_bodies, if_neg (by omega), h.fresh c (by omega), Option.map_none, ite_self]
  · intro j c hc
    rw [openBody_current] at hc
    by_cases hj : j = i
    · rw [hj, Function.update_self] at hc
      cases hc
      exists newBody i part
      rw [openBody_bodies, if_pos rfl, hj]
      exact ⟨rfl, rfl, rfl⟩
    · rw [Function.update_of_ne hj] at hc
      obtain ⟨hne, hci⟩ := hother j c hj hc
      rw [openBody_bodies, if_neg hne, if_neg hci]
      exact h.current j c hc
  · intro c body hc hlive
    rw [openBody_bodies] at hc
    rw [openBody_current]
    split at hc
    · rename_i hf
      cases hc
      rw [hf]
      exact Function.update_self ..
    · split at hc
      · obtain ⟨old, -, hold⟩ := Option.map_eq_some_iff.mp hc
        rw [← hold] at hlive
        cases hlive
      · rename_i hci
        have hcur := h.live c body hc hlive
        have hne : body.part ≠ i := by
          intro heq
          rw [heq] at hcur
          exact hci hcur
        rw [Function.update_of_ne hne]
        exact hcur
  · intro c body hc
    rw [openBody_bodies] at hc
    split at hc
    · cases hc
      exact newBody_wellFormed htiled hsize hp
    · split at hc
      · obtain ⟨old, hb, hold⟩ := Option.map_eq_some_iff.mp hc
        rw [← hold]
        exact (h.bodies c old hb).replaced
      · exact h.bodies c body hc
  · rw [openBody_reported]
    exact h.reported

end OpenBody

theorem start_inv (size : ℤ) (ps : List Part) : Inv size ps (start size) := by
  constructor
  · simp [start, TransferProgress.latestRead, TransferProgress.latest]
  · intro b _
    rfl
  · intro i b h
    cases h
  · intro b body h
    cases h
  · intro b body h
    cases h
  · intro r h
    cases h

section Step

variable {size : ℤ} {ps : List Part} {p q : TransferProgress}

/-- A section reader hands out bytes; nothing is counted yet. -/
theorem Inv.readBody (h : Inv size ps p) {b : ℕ} {body : InstallerBody} {n : ℤ}
    (hb : p.bodies b = some body) (hidle : body.reading = none) (hn : 0 ≤ n)
    (hleft : n ≤ body.limit - body.off) :
    Inv size ps (p.put b { body with off := body.off + n, reading := some n }) := by
  have hwf := h.bodies b body hb
  have hbounds := hwf.bounds
  have hread : InstallerBody.read { body with off := body.off + n, reading := some n } =
      body.read := by
    simp only [InstallerBody.read, hidle, Option.getD_some, Option.getD_none]
    omega
  have hwf' : WellFormed ps { body with off := body.off + n, reading := some n } := by
    constructor
    · simp only
      omega
    · exact hwf.part
    · intro m hm
      cases hm
      simp only
      omega
    · intro hlive
      rw [hread]
      exact hwf.sent hlive
  have hsame : p.sent = p.sent + (if body.replaced then 0 else
      InstallerBody.read { body with off := body.off + n, reading := some n } - body.read) := by
    rw [hread]
    simp
  exact h.put hb hwf' rfl rfl rfl rfl rfl hsame h.reported

/-- The lock holder counts what its `Read` got, unless the body was replaced. -/
theorem Inv.countRead (h : Inv size ps p) (htiled : Tiled 0 (ps.map Part.block) size)
    (hsize : size ≤ 2 ^ 62) {b : ℕ} {body : InstallerBody} {n : ℤ} {due : Bool}
    (hb : p.bodies b = some body) (hn : body.reading = some n) :
    Inv size ps (p.countRead b body n due) := by
  have hwf := h.bodies b body hb
  have hbounds := hwf.bounds
  have hreading := hwf.reading n hn
  have hread : body.read = body.off - body.base - n := by
    simp only [InstallerBody.read, hn, Option.getD_some]
  rw [TransferProgress.countRead]
  split
  · rename_i hrep
    have hwf' : WellFormed ps { body with reading := none } := by
      constructor
      · exact hbounds
      · exact hwf.part
      · intro m hm
        cases hm
      · intro hlive
        rw [hrep] at hlive
        cases hlive
    have hsame : p.sent = p.sent + (if body.replaced then 0 else
        InstallerBody.read { body with reading := none } - body.read) := by
      rw [if_pos hrep, add_zero]
    exact h.put hb hwf' rfl rfl rfl rfl rfl hsame h.reported
  · rename_i hlive
    rw [Bool.not_eq_true] at hlive
    have hsent := hwf.sent hlive
    obtain ⟨part, hp, hlimit⟩ := hwf.part
    have hmem := htiled.bounds (List.mem_map_of_mem (f := Part.block) (List.mem_of_getElem? hp))
    simp only [Part.block] at hmem
    have hbody : int64 (body.sent + n) = body.sent + n := int64_eq (by omega) (by omega)
    have hwf' : WellFormed ps { body with reading := none, sent := body.sent + n } := by
      constructor
      · exact hbounds
      · exact hwf.part
      · intro m hm
        cases hm
      · intro _
        simp only [InstallerBody.read, Option.getD_none]
        omega
    have hmoved : p.sent + n = p.sent + (if body.replaced then 0 else
        InstallerBody.read { body with reading := none, sent := body.sent + n } - body.read) := by
      simp only [hlive, Bool.false_eq_true, if_false, hread]
      simp only [InstallerBody.read, Option.getD_none]
      omega
    -- counting without the wrap keeps the invariant, so there is no wrap
    have hexact : Inv size ps
        { p.put b { body with reading := none, sent := body.sent + n } with sent := p.sent + n } :=
      h.put hb hwf' rfl rfl rfl rfl rfl hmoved h.reported
    have hb₀ := h.sent_bounds htiled
    have hb₁ := hexact.sent_bounds htiled
    simp only at hb₁
    have hwrap : int64 (p.sent + n) = p.sent + n := int64_eq (by omega) (by omega)
    simp only [hwrap, hbody]
    have hreports : ∀ r ∈ (if due then (p.sent + n) :: p.reported else p.reported),
        0 ≤ r ∧ r ≤ size := by
      intro r hr
      split at hr
      · cases hr with
        | head => exact hb₁
        | tail _ hr => exact h.reported r hr
      · exact h.reported r hr
    exact h.put hb hwf' rfl rfl rfl rfl rfl hmoved hreports

theorem step_inv (htiled : Tiled 0 (ps.map Part.block) size) (hsize : size ≤ 2 ^ 62) {e : Event}
    (h : Inv size ps p) (hstep : step ps p e = some q) : Inv size ps q := by
  cases e with
  | body i =>
    obtain ⟨part, hp, hq⟩ := Option.map_eq_some_iff.mp hstep
    rw [← hq]
    exact h.openBody htiled hsize hp
  | read b n =>
    obtain ⟨body, hb, hread⟩ := Option.bind_eq_some_iff.mp hstep
    split at hread
    · rename_i hguard
      cases hread
      exact h.readBody hb hguard.1 hguard.2.1 hguard.2.2
    · cases hread
  | count b due =>
    obtain ⟨body, hb, hcount⟩ := Option.bind_eq_some_iff.mp hstep
    obtain ⟨n, hn, hq⟩ := Option.map_eq_some_iff.mp hcount
    rw [← hq]
    exact h.countRead htiled hsize hb hn
  | finish =>
    cases hstep
    have hbounds := h.sent_bounds htiled
    constructor
    · exact h.counted
    · exact h.fresh
    · exact h.current
    · exact h.live
    · exact h.bodies
    · intro r hr
      cases hr with
      | head => exact hbounds
      | tail _ hr => exact h.reported r hr

end Step

/-- What the counter says in a state: never outside the installer, exactly what the latest
bodies have read, and the size once these are read to their ends. -/
structure Accounted (size : ℤ) (ps : List Part) (p : TransferProgress) : Prop where
  bounds : 0 ≤ p.sent ∧ p.sent ≤ size
  counted : p.sent = ∑ i ∈ Finset.range ps.length, p.latestRead i
  complete : (∀ i < ps.length, ∃ body, p.latest i = some body ∧ body.atEnd) → p.sent = size
  reported : ∀ r ∈ p.reported, 0 ≤ r ∧ r ≤ size

theorem Inv.accounted {size : ℤ} {ps : List Part} {p : TransferProgress} (h : Inv size ps p)
    (htiled : Tiled 0 (ps.map Part.block) size) : Accounted size ps p := by
  constructor
  · exact h.sent_bounds htiled
  · exact h.counted
  · intro hall
    rw [h.counted, ← sum_lengths htiled]
    apply Finset.sum_congr rfl
    intro i hi
    have hi := Finset.mem_range.mp hi
    obtain ⟨body, hlatest, hoff, hidle⟩ := hall i hi
    obtain ⟨b, hc, hb⟩ := Option.bind_eq_some_iff.mp hlatest
    obtain ⟨hip, -⟩ := h.current_part hb hc
    obtain ⟨part, hp, hlimit⟩ := (h.bodies b body hb).part
    rw [latestRead_some hc hb]
    rw [← hip, List.getElem?_eq_getElem hi] at hp
    cases hp
    simp only [InstallerBody.read, hidle, hoff, Option.getD_none, sub_zero, hlimit]
    simp [List.getD_eq_getElem?_getD, hi]
  · exact h.reported

/-- The parts hold the installer exactly, and in every run of their bodies the counter is what
the latest bodies have read. -/
theorem multipart_upload_exact (size : ℤ) (hpos : 1 ≤ size) (hsize : size ≤ 2 ^ 62) :
    ∃ ps, (∀ fuel, 10000 ≤ fuel → uploadMultipart fuel size = some ps) ∧ Covers size ps ∧
      ∀ es p, Runs.tryExec (step ps) (start size) es = some p → Accounted size ps p := by
  obtain ⟨ps, hps, hcovers⟩ := uploadMultipart_covers hpos hsize
  exists ps
  constructor
  · exact hps
  · constructor
    · exact hcovers
    · intro es p hrun
      have hinv : Inv size ps p := Runs.tryExec_invariant (P := fun _ => Inv size ps)
        (fun _ _ _ _ h hstep => step_inv hcovers.contiguous hsize h hstep) (start_inv size ps) hrun
      exact hinv.accounted hcovers.contiguous

theorem multipart_upload_exact_two_parts :
    ∃ ps, (∀ fuel, 10000 ≤ fuel → uploadMultipart fuel (64 * 2 ^ 20 + 1) = some ps) ∧
      Covers (64 * 2 ^ 20 + 1) ps ∧
      ∀ es p, Runs.tryExec (step ps) (start (64 * 2 ^ 20 + 1)) es = some p →
        Accounted (64 * 2 ^ 20 + 1) ps p :=
  multipart_upload_exact (64 * 2 ^ 20 + 1) (by decide) (by decide)

/-- A body that is replaced in the middle of a `Read` counts nothing. -/
example : (Runs.tryExec (step [⟨1, 0, 5⟩]) (start 5)
    [.body 0, .read 0 3, .body 0, .count 0 false, .read 1 5, .count 1 true]).map
      (fun p => (p.sent, p.reported)) = some (5, [5]) := by
  decide

end MultipartUpload
