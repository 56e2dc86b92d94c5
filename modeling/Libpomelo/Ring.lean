import Mathlib.Data.List.Induction
import Mathlib.Data.List.Nodup
import Mathlib.Logic.Function.Basic

/-!
# Circular doubly linked lists

An intrusive circular list is a head node and the nodes threaded behind it, each
carrying a `next` and a `prev` pointer. Nothing owns the nodes: a list *is* what
the pointers say. `Pointers ν` is the pointer graph over an arbitrary type of nodes,
`IsRing m h xs` says that the nodes `xs` hang behind the head `h` in this order, and
the four operations (initialise, test for empty, insert at the tail, remove) are
pointer assignments in the order in which one writes them in C.

The rules at the end are the ones a client needs: what each operation does to the
ring it works on, and that every other ring is left alone.
-/

namespace Libpomelo

/-- A pointer graph: the two pointers of every node. -/
structure Pointers (ν : Type*) where
  /-- the node that follows -/
  next : ν → ν
  /-- the node that precedes -/
  prev : ν → ν

variable {ν : Type*}

namespace Pointers

section Operations

variable [DecidableEq ν]

/-- Assign to the `next` pointer of one node. -/
def setNext (m : Pointers ν) (a b : ν) : Pointers ν := { m with next := Function.update m.next a b }

/-- Assign to the `prev` pointer of one node. -/
def setPrev (m : Pointers ν) (a b : ν) : Pointers ν := { m with prev := Function.update m.prev a b }

/-- A node alone: both pointers lead back to it. -/
def init (m : Pointers ν) (q : ν) : Pointers ν := (m.setPrev q q).setNext q q

/-- A head is alone when its `prev` pointer leads back to it. -/
def empty (m : Pointers ν) (h : ν) : Bool := h = m.prev h

/-- Put `x` between the last node and the head. Each assignment reads what the ones
before it have written. -/
def insertTail (m : Pointers ν) (h x : ν) : Pointers ν :=
  let m := m.setPrev x (m.prev h)
  let m := m.setNext (m.prev x) x
  let m := m.setNext x h
  m.setPrev h x

/-- Join the two neighbours of `x`. The pointers of `x` itself are not touched. -/
def remove (m : Pointers ν) (x : ν) : Pointers ν :=
  let m := m.setPrev (m.next x) (m.prev x)
  m.setNext (m.prev x) (m.next x)

end Operations

end Pointers

/-! ## Paths and rings -/

/-- The two pointers between neighbours agree. -/
def Pointers.Joined (m : Pointers ν) (a b : ν) : Prop := m.next a = b ∧ m.prev b = a

/-- **A path.** Following the pointers from `a` visits `xs` and then reaches `b`. -/
def IsPath (m : Pointers ν) : ν → List ν → ν → Prop
  | a, [], b => m.Joined a b
  | a, x :: xs, b => m.Joined a x ∧ IsPath m x xs b

/-- **A ring.** The path from the head through `xs` comes back to the head, and no
node occurs twice on it. -/
structure IsRing (m : Pointers ν) (h : ν) (xs : List ν) : Prop where
  /-- the way around -/
  path : IsPath m h xs h
  /-- no node twice -/
  nodup : (h :: xs).Nodup

/-- A path is split at any node on it. -/
theorem path_append {m : Pointers ν} {q b : ν} {ys : List ν} :
    ∀ {xs : List ν} {a : ν}, IsPath m a (xs ++ q :: ys) b ↔ IsPath m a xs q ∧ IsPath m q ys b
  | [], _ => Iff.rfl
  | x :: xs, a => by
    show m.Joined a x ∧ IsPath m x (xs ++ q :: ys) b ↔ (m.Joined a x ∧ IsPath m x xs q) ∧ IsPath m q ys b
    rw [path_append, and_assoc]

/-- Only the `next` pointers of the nodes before the end and the `prev` pointers of
the nodes after the start matter to a path. -/
theorem IsPath.congr {m m' : Pointers ν} {b : ν} :
    ∀ {xs : List ν} {a : ν}, IsPath m a xs b →
      (∀ x ∈ a :: xs, m'.next x = m.next x) → (∀ x ∈ xs ++ [b], m'.prev x = m.prev x) →
      IsPath m' a xs b
  | [], a, hp, hn, hv =>
    ⟨(hn a (by simp)).trans hp.1, (hv b (by simp)).trans hp.2⟩
  | x :: xs, a, hp, hn, hv => by
    obtain ⟨⟨hnext, hprev⟩, hrest⟩ := hp
    refine ⟨⟨(hn a (by simp)).trans hnext, (hv x (by simp)).trans hprev⟩, ?_⟩
    exact hrest.congr (fun y hy => hn y (List.mem_cons_of_mem a hy))
      (fun y hy => hv y (List.mem_cons_of_mem x hy))

/-- The node before the end of a path is the start or lies on the path. -/
theorem IsPath.prev_mem {m : Pointers ν} {b : ν} :
    ∀ {xs : List ν} {a : ν}, IsPath m a xs b → m.prev b ∈ a :: xs
  | [], a, hp => by simp [hp.2]
  | x :: xs, a, hp => List.mem_cons_of_mem a hp.2.prev_mem

/-- The node after the start of a path lies on the path or is the end. -/
theorem IsPath.next_mem {m : Pointers ν} {a b : ν} {xs : List ν} (hp : IsPath m a xs b) :
    m.next a ∈ xs ++ [b] := by
  cases xs with
  | nil => simp [hp.1]
  | cons x xs => simp [hp.1.1]

/-- A ring depends only on the pointers of its own nodes. -/
theorem IsRing.congr {m m' : Pointers ν} {h : ν} {xs : List ν} (hr : IsRing m h xs)
    (hn : ∀ x ∈ h :: xs, m'.next x = m.next x) (hv : ∀ x ∈ h :: xs, m'.prev x = m.prev x) :
    IsRing m' h xs :=
  ⟨hr.path.congr hn (fun x hx => hv x (by simpa [or_comm] using hx)), hr.nodup⟩

/-- The node behind a node of a ring: the one that comes next, or the head. -/
theorem IsRing.next_of_append {m : Pointers ν} {h q : ν} {xs ys : List ν}
    (hr : IsRing m h (xs ++ q :: ys)) : m.next q = ys.headD h := by
  have hq := (path_append.mp hr.path).2
  cases ys with
  | nil => exact hq.1
  | cons y ys => exact hq.1.1

/-- The first node of a ring. -/
theorem IsRing.next_head {m : Pointers ν} {h : ν} {xs : List ν} (hr : IsRing m h xs) :
    m.next h = xs.headD h := by
  have hp := hr.path
  cases xs with
  | nil => exact hp.1
  | cons x xs => exact hp.1.1

/-- Neighbours on a ring stay on it. -/
theorem IsRing.neighbours_mem {m : Pointers ν} {h q : ν} {xs ys : List ν}
    (hr : IsRing m h (xs ++ q :: ys)) :
    m.next q ∈ h :: (xs ++ ys) ∧ m.prev q ∈ h :: (xs ++ ys) := by
  obtain ⟨hbefore, hafter⟩ := path_append.mp hr.path
  have hn := hafter.next_mem
  have hp := hbefore.prev_mem
  constructor
  · simp only [List.mem_append, List.mem_cons, List.not_mem_nil, or_false] at hn ⊢
    rcases hn with hn | hn
    · exact .inr (.inr hn)
    · exact .inl hn
  · simp only [List.mem_append, List.mem_cons] at hp ⊢
    rcases hp with hp | hp
    · exact .inl hp
    · exact .inr (.inl hp)

section Rules

variable [DecidableEq ν]

/-- The emptiness test is right on a ring. -/
theorem IsRing.empty_iff {m : Pointers ν} {h : ν} {xs : List ν} (hr : IsRing m h xs) :
    m.empty h = true ↔ xs = [] := by
  have hmem := hr.path.prev_mem
  constructor
  · intro he
    have hprev : h = m.prev h := by simpa [Pointers.empty] using he
    cases xs using List.reverseRecOn with
    | nil => rfl
    | append_singleton xs x _ =>
      have hx : m.prev h = x := ((path_append.mp hr.path).2).2
      have hnot : h ∉ xs ++ [x] := (List.nodup_cons.mp hr.nodup).1
      have hhx : h = x := hprev.trans hx
      exact absurd (List.mem_append_right xs (List.mem_singleton.mpr hhx)) hnot
  · rintro rfl
    have hprev : m.prev h = h := by simpa using hmem
    simp [Pointers.empty, hprev]

/-- Initialising makes an empty ring. -/
theorem ring_init (m : Pointers ν) (h : ν) : IsRing (m.init h) h [] :=
  ⟨⟨by simp [Pointers.init, Pointers.setNext, Pointers.setPrev],
    by simp [Pointers.init, Pointers.setNext, Pointers.setPrev]⟩, by simp⟩

/-- Initialising a node leaves the rings it is not on alone. -/
theorem IsRing.init_other {m : Pointers ν} {h q : ν} {xs : List ν} (hr : IsRing m h xs)
    (hq : q ∉ h :: xs) : IsRing (m.init q) h xs := by
  have hne : ∀ x ∈ h :: xs, x ≠ q := fun x hx he => hq (he ▸ hx)
  refine hr.congr (fun x hx => ?_) (fun x hx => ?_)
  · simp [Pointers.init, Pointers.setNext, Pointers.setPrev, hne x hx]
  · simp [Pointers.init, Pointers.setNext, Pointers.setPrev, hne x hx]

/-- **Inserting at the tail** of a ring puts the node last. -/
theorem IsRing.insertTail {m : Pointers ν} {h x : ν} {xs : List ν} (hr : IsRing m h xs)
    (hx : x ∉ h :: xs) : IsRing (m.insertTail h x) h (xs ++ [x]) := by
  obtain ⟨hxh, hxs⟩ := not_or.mp (List.mem_cons.not.mp hx)
  have hnot : h ∉ xs := (List.nodup_cons.mp hr.nodup).1
  have hprev := hr.path.prev_mem
  have hpx : m.prev h ≠ x := fun he => hx (he ▸ hprev)
  refine ⟨path_append.mpr ⟨?_, ?_⟩, ?_⟩
  · -- up to the new node: the last of the old ones, possibly the head, now leads to it
    cases xs using List.reverseRecOn with
    | nil =>
      have hp : m.prev h = h := hr.path.2
      exact ⟨by simp [Pointers.insertTail, Pointers.setNext, Pointers.setPrev, hp, Ne.symm hxh],
        by simp [Pointers.insertTail, Pointers.setNext, Pointers.setPrev, hp, hxh]⟩
    | append_singleton xs y _ =>
      obtain ⟨hbefore, hlast⟩ := path_append.mp hr.path
      have hp : m.prev h = y := hlast.2
      rw [List.mem_append, not_or, List.mem_singleton] at hxs hnot
      have hnd := hr.nodup
      have hy : y ∉ h :: xs := by
        intro hy
        rw [← List.cons_append] at hnd
        exact (List.disjoint_of_nodup_append hnd) hy (by simp)
      refine path_append.mpr ⟨hbefore.congr (fun z hz => ?_) (fun z hz => ?_), ?_, ?_⟩
      · have hzy : z ≠ y := fun he => hy (he ▸ hz)
        have hzx : z ≠ x := by
          rintro rfl
          rcases List.mem_cons.mp hz with hz | hz
          · exact hxh hz
          · exact hxs.1 hz
        simp [Pointers.insertTail, Pointers.setNext, Pointers.setPrev, hp, hzy, hzx]
      · have hzx : z ≠ x := by
          rintro rfl
          rcases List.mem_append.mp hz with hz | hz
          · exact hxs.1 hz
          · exact hxs.2 (by simpa using hz)
        have hzh : z ≠ h := by
          rintro rfl
          rcases List.mem_append.mp hz with hz | hz
          · exact hnot.1 hz
          · exact hnot.2 (by simpa using hz)
        simp [Pointers.insertTail, Pointers.setNext, Pointers.setPrev, hzx, hzh]
      · simp [Pointers.insertTail, Pointers.setNext, Pointers.setPrev, hp, Ne.symm hxs.2]
      · simp [Pointers.insertTail, Pointers.setNext, Pointers.setPrev, hp, hxh]
  · exact ⟨by simp [Pointers.insertTail, Pointers.setNext, Pointers.setPrev],
      by simp [Pointers.insertTail, Pointers.setPrev]⟩
  · rw [← List.cons_append]
    exact List.nodup_append'.mpr ⟨hr.nodup, by simp, by simpa [List.Disjoint] using
      ⟨Ne.symm hxh, fun a ha he => hxs (he ▸ ha)⟩⟩

/-- Inserting into one ring leaves the rings that share no node with it alone. -/
theorem IsRing.insertTail_other {m : Pointers ν} {h g x : ν} {xs ys : List ν} (hr : IsRing m h xs)
    (hg : IsRing m g ys) (hx : x ∉ g :: ys) (hdisj : ∀ y ∈ g :: ys, y ∉ h :: xs) :
    IsRing (m.insertTail h x) g ys := by
  have hprev := hr.path.prev_mem
  refine hg.congr (fun y hy => ?_) (fun y hy => ?_)
  · have hyx : y ≠ x := fun he => hx (he ▸ hy)
    have hyp : y ≠ m.prev h := fun he => hdisj y hy (he ▸ hprev)
    simp [Pointers.insertTail, Pointers.setNext, Pointers.setPrev, hyx, hyp]
  · have hyx : y ≠ x := fun he => hx (he ▸ hy)
    have hyh : y ≠ h := fun he => hdisj y hy (by simp [he])
    simp [Pointers.insertTail, Pointers.setNext, Pointers.setPrev, hyx, hyh]

/-- The neighbours of `q` are joined and the path closes over the gap. -/
theorem IsPath.remove {m : Pointers ν} {q b : ν} {ys : List ν} (hafter : IsPath m q ys b) :
    ∀ {xs : List ν} {a : ν}, IsPath m a xs q → (a :: (xs ++ ys)).Nodup → (xs ++ ys ++ [b]).Nodup →
      q ∉ a :: (xs ++ ys) → q ≠ b → IsPath (m.remove q) a (xs ++ ys) b
  | [], a, hbefore, hnd, hnd', hq, hqb => by
    obtain ⟨hna, hpq⟩ := hbefore
    have hqa : q ≠ a := fun he => hq (by simp [he])
    cases ys with
    | nil =>
      obtain ⟨hnq, hpb⟩ := hafter
      exact ⟨by simp [Pointers.remove, Pointers.setNext, Pointers.setPrev, hnq, hpq, hqb],
        by simp [Pointers.remove, Pointers.setNext, Pointers.setPrev, hnq, hpq]⟩
    | cons y ys =>
      obtain ⟨⟨hnq, hpy⟩, hrest⟩ := hafter
      have hqy : q ≠ y := fun he => hq (by simp [he])
      have hay : a ∉ y :: ys := (List.nodup_cons.mp hnd).1
      have hyb : y ∉ ys ++ [b] := (List.nodup_cons.mp hnd').1
      refine ⟨⟨by simp [Pointers.remove, Pointers.setNext, Pointers.setPrev, hnq, hpq, hqy],
        by simp [Pointers.remove, Pointers.setNext, Pointers.setPrev, hnq, hpq]⟩, ?_⟩
      refine hrest.congr (fun z hz => ?_) (fun z hz => ?_)
      · have hza : z ≠ a := fun he => hay (he ▸ hz)
        simp [Pointers.remove, Pointers.setNext, Pointers.setPrev, hnq, hpq, hqy, hza]
      · have hzy : z ≠ y := fun he => hyb (he ▸ hz)
        simp [Pointers.remove, Pointers.setNext, Pointers.setPrev, hnq, hzy]
  | x :: xs, a, hbefore, hnd, hnd', hq, hqb => by
    obtain ⟨⟨hna, hpx⟩, hrest⟩ := hbefore
    have hnd₁ := List.nodup_cons.mp hnd
    have hnd₂ : x ∉ xs ++ ys ++ [b] ∧ (xs ++ ys ++ [b]).Nodup := List.nodup_cons.mp hnd'
    have hq' : q ∉ x :: (xs ++ ys) := fun hmem => hq (List.mem_cons_of_mem a hmem)
    have hp := hrest.prev_mem
    have hn := hafter.next_mem
    -- `a` and `x` lie in front of the neighbours of `q`, so their links stay
    have hap : a ≠ m.prev q := by
      intro he
      rw [← he] at hp
      apply hnd₁.1
      rcases List.mem_cons.mp hp with hp | hp
      · simp [hp]
      · simp [hp]
    have hxn : x ≠ m.next q := by
      intro he
      rw [← he] at hn
      apply hnd₂.1
      rcases List.mem_append.mp hn with hn | hn
      · simp [hn]
      · exact List.mem_append_right _ hn
    have hqn : q ≠ m.next q := by
      intro he
      rw [← he] at hn
      rcases List.mem_append.mp hn with hn | hn
      · exact hq (by simp [hn])
      · exact hqb (by simpa using hn)
    refine ⟨⟨?_, ?_⟩, IsPath.remove hafter hrest hnd₁.2 hnd₂.2 hq' hqb⟩
    · simp [Pointers.remove, Pointers.setNext, Pointers.setPrev, hap, hqn, hna]
    · simp [Pointers.remove, Pointers.setNext, Pointers.setPrev, hxn, hpx]

/-- **Removing** a node of a ring leaves the others in their order. -/
theorem IsRing.remove {m : Pointers ν} {h q : ν} {xs ys : List ν} (hr : IsRing m h (xs ++ q :: ys)) :
    IsRing (m.remove q) h (xs ++ ys) := by
  obtain ⟨hbefore, hafter⟩ := path_append.mp hr.path
  have hnd : (q :: h :: (xs ++ ys)).Nodup :=
    ((List.Perm.cons h List.perm_middle).trans (List.Perm.swap q h _)).nodup hr.nodup
  obtain ⟨hq, hnd⟩ := List.nodup_cons.mp hnd
  have hnd' : (xs ++ ys ++ [h]).Nodup := (List.perm_append_singleton h _).symm.nodup hnd
  refine ⟨hafter.remove hbefore hnd hnd' hq ?_, hnd⟩
  rintro rfl
  exact hq (by simp)

/-- Removing a node of one ring leaves the rings that share no node with it alone. -/
theorem IsRing.remove_other {m : Pointers ν} {h g q : ν} {xs ys zs : List ν}
    (hr : IsRing m h (xs ++ q :: ys)) (hg : IsRing m g zs)
    (hdisj : ∀ z ∈ g :: zs, z ∉ h :: (xs ++ q :: ys)) : IsRing (m.remove q) g zs := by
  obtain ⟨hn, hp⟩ := hr.neighbours_mem
  have hnd : (q :: h :: (xs ++ ys)).Nodup :=
    ((List.Perm.cons h List.perm_middle).trans (List.Perm.swap q h _)).nodup hr.nodup
  have hqn : q ≠ m.next q := fun he => (List.nodup_cons.mp hnd).1 (he ▸ hn)
  have hsub : ∀ z, z ∈ h :: (xs ++ ys) → z ∈ h :: (xs ++ q :: ys) := by
    intro z hz
    simp only [List.mem_cons, List.mem_append] at hz ⊢
    tauto
  refine hg.congr (fun z hz => ?_) (fun z hz => ?_)
  · have hzp : z ≠ m.prev q := fun he => hdisj z hz (hsub z (he ▸ hp))
    simp [Pointers.remove, Pointers.setNext, Pointers.setPrev, hqn, hzp]
  · have hzn : z ≠ m.next q := fun he => hdisj z hz (hsub z (he ▸ hn))
    simp [Pointers.remove, Pointers.setNext, Pointers.setPrev, hzn]

/-- A node of a ring that is removed twice is removed once: its own pointers still lead to the
neighbours that are joined already. -/
theorem IsRing.remove_remove {m : Pointers ν} {h q : ν} {xs ys : List ν}
    (hr : IsRing m h (xs ++ q :: ys)) : (m.remove q).remove q = m.remove q := by
  obtain ⟨hn, hp⟩ := hr.neighbours_mem
  have hnd : (q :: h :: (xs ++ ys)).Nodup :=
    ((List.Perm.cons h List.perm_middle).trans (List.Perm.swap q h _)).nodup hr.nodup
  have hqn : q ≠ m.next q := fun he => (List.nodup_cons.mp hnd).1 (he ▸ hn)
  have hqp : q ≠ m.prev q := fun he => (List.nodup_cons.mp hnd).1 (he ▸ hp)
  simp [Pointers.remove, Pointers.setNext, Pointers.setPrev, hqn, hqp]

/-- A node alone stays as it is when it is removed and initialised once more. -/
theorem Pointers.unlink_self {m : Pointers ν} {q : ν} (hn : m.next q = q) (hp : m.prev q = q) :
    (m.remove q).init q = m := by
  have hnext : Function.update m.next q q = m.next := Function.update_eq_self_iff.mpr hn.symm
  have hprev : Function.update m.prev q q = m.prev := Function.update_eq_self_iff.mpr hp.symm
  simp [Pointers.remove, Pointers.init, Pointers.setNext, Pointers.setPrev, hn, hp, hnext, hprev]

/-- A node that has been removed and initialised is off the ring it was on. -/
theorem IsRing.unlink {m : Pointers ν} {h q : ν} {xs ys : List ν} (hr : IsRing m h (xs ++ q :: ys)) :
    IsRing ((m.remove q).init q) h (xs ++ ys) := by
  have hnd : (q :: h :: (xs ++ ys)).Nodup :=
    ((List.Perm.cons h List.perm_middle).trans (List.Perm.swap q h _)).nodup hr.nodup
  exact hr.remove.init_other (List.nodup_cons.mp hnd).1

/-- The same operation seen from another ring. -/
theorem IsRing.unlink_other {m : Pointers ν} {h g q : ν} {xs ys zs : List ν}
    (hr : IsRing m h (xs ++ q :: ys)) (hg : IsRing m g zs)
    (hdisj : ∀ z ∈ g :: zs, z ∉ h :: (xs ++ q :: ys)) : IsRing ((m.remove q).init q) g zs := by
  refine (hr.remove_other hg hdisj).init_other (fun hq => hdisj q hq ?_)
  simp

end Rules

end Libpomelo
