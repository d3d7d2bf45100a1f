import Mathlib.Logic.Function.Basic
import Mathlib.Tactic.Common

/-!
# Files under names

A directory links names to inodes, an inode has its content. A process that has a file
open keeps its inode, whatever becomes of the name. There are no hard links: an inode has
at most one name.
-/
namespace InodeFiles

structure Files (N B : Type) where
  inode : N → Option Nat := fun _ => none
  content : Nat → List B := fun _ => []
  /-- No inode from here on was used. -/
  next : Nat := 0
  single : ∀ n n' i, inode n = some i → inode n' = some i → n = n' := by nofun
  used : ∀ n i, inode n = some i → i < next := by nofun

section Operations

variable {N B : Type}

/-- The inode that a file opened for writing gets. -/
def opened (f : Files N B) (n : N) : Nat := (f.inode n).getD f.next

/-- `O_CREATE|O_TRUNC`. -/
def create [DecidableEq N] (f : Files N B) (n : N) : Files N B where
  inode := Function.update f.inode n (some (opened f n))
  content := Function.update f.content (opened f n) []
  next := f.next + 1
  single := by
    have hother : ∀ m, m ≠ n → f.inode m ≠ some (opened f n) := by
      intro m hm h
      unfold opened at h
      cases hn : f.inode n with
      | some i =>
        rw [hn] at h
        exact hm (f.single m n i h hn)
      | none =>
        rw [hn] at h
        exact absurd (f.used m f.next h) (Nat.lt_irrefl _)
    intro m m' i h h'
    by_cases hm : m = n
    · by_cases hm' : m' = n
      · rw [hm, hm']
      · rw [hm, Function.update_self] at h
        rw [Function.update_of_ne hm', ← h] at h'
        exact absurd h' (hother m' hm')
    · rw [Function.update_of_ne hm] at h
      by_cases hm' : m' = n
      · rw [hm', Function.update_self] at h'
        rw [← h'] at h
        exact absurd h (hother m hm)
      · rw [Function.update_of_ne hm'] at h'
        exact f.single m m' i h h'
  used := by
    intro m i h
    by_cases hm : m = n
    · rw [hm, Function.update_self, Option.some.injEq] at h
      unfold opened at h
      cases hn : f.inode n with
      | some j =>
        rw [hn, Option.getD_some] at h
        have := f.used n j hn
        omega
      | none =>
        rw [hn, Option.getD_none] at h
        omega
    · rw [Function.update_of_ne hm] at h
      have := f.used m i h
      omega

/-- The content after a write at an offset; a gap is filled with the default. -/
def splice [Inhabited B] (old : List B) (offset : Nat) (bs : List B) : List B :=
  (old ++ List.replicate (offset - old.length) default).take offset ++ bs ++ old.drop (offset + bs.length)

def write [Inhabited B] (f : Files N B) (i offset : Nat) (bs : List B) : Files N B :=
  { f with content := Function.update f.content i (splice (f.content i) offset bs) }

def unlink [DecidableEq N] (f : Files N B) (n : N) : Files N B where
  inode := Function.update f.inode n none
  content := f.content
  next := f.next
  single := by
    intro m m' i h h'
    rw [Function.update_apply] at h h'
    split_ifs at h h'
    exact f.single m m' i h h'
  used := by
    intro m i h
    rw [Function.update_apply] at h
    split_ifs at h
    exact f.used m i h

/-- The inode moves to the target, whose own inode loses its name. -/
def rename [DecidableEq N] (f : Files N B) (source target : N) : Files N B where
  inode := Function.update (Function.update f.inode source none) target (f.inode source)
  content := f.content
  next := f.next
  single := by
    have hsource : ∀ m i, Function.update f.inode source none m = some i → m ≠ source ∧ f.inode m = some i := by
      intro m i h
      rw [Function.update_apply] at h
      split_ifs at h with hm
      exact ⟨hm, h⟩
    intro m m' i h h'
    rw [Function.update_apply] at h h'
    split_ifs at h h' with hm hm'
    · rw [hm, hm']
    · obtain ⟨hne, hlink⟩ := hsource m' i h'
      exact absurd (f.single m' source i hlink h) hne
    · obtain ⟨hne, hlink⟩ := hsource m i h
      exact absurd (f.single m source i hlink h') hne
    · exact f.single m m' i (hsource m i h).2 (hsource m' i h').2
  used := by
    intro m i h
    rw [Function.update_apply, Function.update_apply] at h
    split_ifs at h
    · exact f.used source i h
    · exact f.used m i h

end Operations

/-- The name has the same file with the same content. -/
def SameAt {N B : Type} (f g : Files N B) (n : N) : Prop :=
  g.inode n = f.inode n ∧ ∀ i, f.inode n = some i → g.content i = f.content i

/-- The inode has no name but this one, and was used. -/
def OnlyAt {N B : Type} (f : Files N B) (i : Nat) (n : N) : Prop :=
  i < f.next ∧ ∀ m, f.inode m = some i → m = n

/-- Besides, the name has no other file. -/
def OwnsName {N B : Type} (f : Files N B) (i : Nat) (n : N) : Prop :=
  OnlyAt f i n ∧ ∀ j, f.inode n = some j → j = i

section Lemmas

variable {N B : Type} {f g : Files N B} {n m source target : N} {i j : Nat}

theorem onlyAt_linked (h : f.inode n = some i) : OnlyAt f i n :=
  ⟨f.used n i h, fun m hm => f.single m n i hm h⟩

theorem OnlyAt.ne_of_linked (h : OnlyAt f i n) (hm : f.inode m = some j) (hne : m ≠ n) : i ≠ j :=
  fun heq => hne (h.2 m (heq ▸ hm))

theorem ownsName_linked (h : f.inode n = some i) : OwnsName f i n :=
  ⟨onlyAt_linked h, fun _ hj => Option.some.inj (hj.symm.trans h)⟩

theorem sameAt_refl (f : Files N B) (n : N) : SameAt f f n := ⟨rfl, fun _ _ => rfl⟩

theorem opened_ne (h : OnlyAt f i m) (hne : m ≠ n) : i ≠ opened f n := by
  unfold opened
  cases hn : f.inode n with
  | some k => exact h.ne_of_linked hn (Ne.symm hne)
  | none => exact Nat.ne_of_lt h.1

section Write

variable [Inhabited B] {offset : Nat} {bs : List B}

theorem content_write (h : j ≠ i) : (write f i offset bs).content j = f.content j :=
  Function.update_of_ne h ..

theorem sameAt_write (h : f.inode n ≠ some i) : SameAt f (write f i offset bs) n :=
  ⟨rfl, fun _ hj => content_write (fun heq => h (heq ▸ hj))⟩

theorem ownsName_write (h : OwnsName f j n) : OwnsName (write f i offset bs) j n := h

end Write

variable [DecidableEq N]

theorem inode_create_self : (create f n).inode n = some (opened f n) := Function.update_self ..

theorem inode_create (h : m ≠ n) : (create f n).inode m = f.inode m := Function.update_of_ne h ..

theorem content_create (h : i ≠ opened f n) : (create f n).content i = f.content i :=
  Function.update_of_ne h ..

theorem sameAt_create (h : m ≠ n) : SameAt f (create f n) m :=
  ⟨inode_create h, fun _ hi => content_create (opened_ne (onlyAt_linked hi) h)⟩

theorem ownsName_create_self : OwnsName (create f n) (opened f n) n := ownsName_linked inode_create_self

theorem ownsName_create (h : OwnsName f i m) (hne : m ≠ n) : OwnsName (create f n) i m := by
  refine ⟨⟨Nat.lt_succ_of_lt h.1.1, fun k hk => ?_⟩, fun j hj => h.2 j (by rwa [inode_create hne] at hj)⟩
  by_cases hkn : k = n
  · rw [hkn, inode_create_self] at hk
    exact absurd (Option.some.inj hk).symm (opened_ne h.1 hne)
  · rw [inode_create hkn] at hk
    exact h.1.2 k hk

theorem inode_unlink_self : (unlink f n).inode n = none := Function.update_self ..

theorem inode_unlink (h : m ≠ n) : (unlink f n).inode m = f.inode m := Function.update_of_ne h ..

theorem sameAt_unlink (h : m ≠ n) : SameAt f (unlink f n) m := ⟨inode_unlink h, fun _ _ => rfl⟩

theorem inode_unlink_some (h : (unlink f n).inode m = some i) : f.inode m = some i := by
  by_cases hm : m = n
  · rw [hm, inode_unlink_self] at h
    cases h
  · rwa [inode_unlink hm] at h

theorem ownsName_unlink (h : OwnsName f i m) : OwnsName (unlink f n) i m :=
  ⟨⟨h.1.1, fun k hk => h.1.2 k (inode_unlink_some hk)⟩, fun j hj => h.2 j (inode_unlink_some hj)⟩

theorem inode_rename_target : (rename f source target).inode target = f.inode source :=
  Function.update_self ..

theorem inode_rename_apply : (rename f source target).inode n =
    if n = target then f.inode source else if n = source then none else f.inode n := by
  simp only [rename, Function.update_apply]

theorem inode_rename (hs : n ≠ source) (ht : n ≠ target) : (rename f source target).inode n = f.inode n := by
  rw [inode_rename_apply, if_neg ht, if_neg hs]

theorem sameAt_rename (hs : n ≠ source) (ht : n ≠ target) : SameAt f (rename f source target) n :=
  ⟨inode_rename hs ht, fun _ _ => rfl⟩

theorem ownsName_rename (h : OwnsName f i m) (hs : m ≠ source) (ht : m ≠ target) :
    OwnsName (rename f source target) i m := by
  refine ⟨⟨h.1.1, fun k hk => ?_⟩, fun j hj => h.2 j (by rwa [inode_rename hs ht] at hj)⟩
  by_cases hkt : k = target
  · rw [hkt, inode_rename_target] at hk
    exact absurd (h.1.2 source hk).symm hs
  · rw [inode_rename_apply, if_neg hkt] at hk
    split_ifs at hk
    exact h.1.2 k hk

end Lemmas

end InodeFiles
