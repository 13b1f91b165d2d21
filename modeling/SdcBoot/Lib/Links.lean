/-
# Doubly linked rings

Nodes of any type, each with the node behind it and the node in front of it.  `Ring` reads a ring as
the list of its nodes from some node on.  A ring changes where a node is taken out (`unlink`) and
where one is put in (`insertBefore`): each is a few assignments, and each pair of neighbours that
does not meet the node stays as it is, because both name each other.
-/
import Mathlib.Data.List.Chain
import Mathlib.Data.List.Nodup
import Mathlib.Logic.Function.Basic

namespace SdcBoot.Lib

open List Function

variable {α : Type}

/-- The links of all nodes. -/
structure Links (α : Type) where
  next : α → α
  prev : α → α

/-- `y` comes behind `x`, and both know it. -/
def Links.Joined (L : Links α) (x y : α) : Prop := L.next x = y ∧ L.prev y = x

/-- The nodes are different, each is joined to the one behind it, and the last to the first. -/
def Links.Ring (L : Links α) : List α → Prop
  | [] => False
  | x :: xs => (x :: xs).Nodup ∧ (x :: xs ++ [x]).IsChain L.Joined

variable {L : Links α} {first x : α} {rest : List α}

theorem Links.Ring.nodup {l : List α} (h : L.Ring l) : l.Nodup := by
  cases l with
  | nil => exact nodup_nil
  | cons x xs => exact h.1

variable [DecidableEq α]

def Links.setNext (L : Links α) (x y : α) : Links α :=
  { L with next := Function.update L.next x y }

def Links.setPrev (L : Links α) (x y : α) : Links α :=
  { L with prev := Function.update L.prev x y }

/-- The neighbours of `x` are joined to each other. -/
def Links.unlink (L : Links α) (x : α) : Links α :=
  let L := L.setPrev (L.next x) (L.prev x)
  L.setNext (L.prev x) (L.next x)

/-- `x` comes between `y` and the node in front of it. -/
def Links.insertBefore (L : Links α) (x y : α) : Links α :=
  let L := L.setPrev x (L.prev y)
  let L := L.setNext x y
  let L := L.setPrev (L.next x) x
  L.setNext (L.prev x) x

/-- **A node is taken out of a ring.** -/
theorem Links.Ring.unlink {pre post : List α}
    (h : L.Ring (first :: (pre ++ x :: post))) : (L.unlink x).Ring (first :: (pre ++ post)) := by
  obtain ⟨hnodup, hchain⟩ := h
  change (first :: pre ++ x :: post).Nodup at hnodup
  have hx : x ∉ first :: pre ∧ x ∉ post := by
    have := nodup_middle.mp hnodup
    simpa [and_assoc] using (nodup_cons.mp this).1
  have hrest : (first :: pre ++ post).Nodup := (nodup_cons.mp (nodup_middle.mp hnodup)).2
  -- the neighbours of `x`
  obtain ⟨s, a, hs⟩ := eq_nil_or_concat (first :: pre) |>.resolve_left (by simp)
  obtain ⟨b, t, ht⟩ : ∃ b t, post ++ [first] = b :: t :=
    exists_cons_of_ne_nil (by simp)
  rw [concat_eq_append] at hs
  have hfront : x ∉ s ++ [a] := hs ▸ hx.1
  have hback : x ∉ b :: t := by
    rw [← ht]
    simp only [mem_append, mem_singleton, not_or]
    exact ⟨hx.2, fun he => hx.1 (he ▸ mem_cons_self)⟩
  have hall : (s ++ a :: x :: b :: t).IsChain L.Joined := by
    have heq : s ++ a :: x :: b :: t = first :: (pre ++ x :: post) ++ [first] := by
      have : first :: (pre ++ x :: post) ++ [first] = first :: pre ++ x :: (post ++ [first]) := by
        simp
      rw [this, ht, hs]
      simp
    rw [heq]
    exact hchain
  rw [isChain_append_cons_cons, isChain_cons_cons] at hall
  obtain ⟨hleft, hax, hxb, hright⟩ := hall
  have hbx : x ≠ b := fun he => hback (he ▸ mem_cons_self)
  have hnext : (L.unlink x).next = update L.next a b := by
    simp only [Links.unlink, Links.setNext, Links.setPrev, hxb.1, hax.2, update_of_ne hbx]
  have hprev : (L.unlink x).prev = update L.prev b a := by
    simp only [Links.unlink, Links.setNext, Links.setPrev, hxb.1, hax.2]
  -- a pair that does not meet `x` stays
  have hkeep : ∀ l : List α, x ∉ l → l.IsChain L.Joined → l.IsChain (L.unlink x).Joined := by
    intro l hl hc
    refine hc.imp_of_mem_imp fun u v hu hv huv => ⟨?_, ?_⟩
    · rw [hnext, update_of_ne, huv.1]
      rintro rfl
      exact hl (hax.1 ▸ huv.1 ▸ hv)
    · rw [hprev, update_of_ne, huv.2]
      rintro rfl
      exact hl (hxb.2 ▸ huv.2 ▸ hu)
  refine ⟨hrest, ?_⟩
  have heq : first :: (pre ++ post) ++ [first] = s ++ a :: b :: t := by
    have : first :: (pre ++ post) ++ [first] = first :: pre ++ (post ++ [first]) := by simp
    rw [this, hs, ht]
    simp
  rw [heq, isChain_append_cons_cons]
  exact ⟨hkeep _ hfront hleft, ⟨by rw [hnext, update_self], by rw [hprev, update_self]⟩,
    hkeep _ hback hright⟩

/-- **A node is put into a ring**, in front of its first node. -/
theorem Links.Ring.insertBefore {y : α} (h : L.Ring (y :: rest))
    (hx : x ∉ y :: rest) : (L.insertBefore x y).Ring (x :: y :: rest) := by
  obtain ⟨hnodup, hchain⟩ := h
  refine ⟨nodup_cons.mpr ⟨hx, hnodup⟩, ?_⟩
  obtain ⟨s, z, hs⟩ := eq_nil_or_concat (y :: rest) |>.resolve_left (by simp)
  rw [concat_eq_append] at hs
  have hzmem : z ∈ y :: rest := hs ▸ by simp
  have hxy : x ≠ y := fun he => hx (he ▸ mem_cons_self)
  have hxz : x ≠ z := fun he => hx (he ▸ hzmem)
  have hall : (s ++ z :: y :: []).IsChain L.Joined := by
    have heq : s ++ z :: y :: [] = y :: rest ++ [y] := by
      rw [hs]
      simp
    rw [heq]
    exact hchain
  rw [isChain_append_cons_cons] at hall
  obtain ⟨hleft, hzy, -⟩ := hall
  have hnext : (L.insertBefore x y).next = update (update L.next x y) z x := by
    simp only [Links.insertBefore, Links.setNext, Links.setPrev, update_self,
      update_of_ne hxy, hzy.2]
  have hprev : (L.insertBefore x y).prev = update (update L.prev x z) y x := by
    simp only [Links.insertBefore, Links.setNext, Links.setPrev, update_self, hzy.2]
  have hinner : (y :: rest).IsChain (L.insertBefore x y).Joined := by
    rw [← hs] at hleft
    refine hleft.imp_of_mem_tail_imp fun u v hu hv huv => ?_
    have hvy : v ≠ y := fun he => (nodup_cons.mp hnodup).1 (he ▸ hv)
    have hux : u ≠ x := fun he => hx (he ▸ hu)
    have hvx : v ≠ x := fun he => hx (he ▸ mem_cons_of_mem y hv)
    constructor
    · rw [hnext, update_of_ne, update_of_ne hux, huv.1]
      rintro rfl
      exact hvy (huv.1.symm.trans hzy.1)
    · rw [hprev, update_of_ne hvy, update_of_ne hvx, huv.2]
  have heq : x :: y :: rest ++ [x] = x :: y :: (rest ++ [x]) := rfl
  rw [heq, isChain_cons_cons]
  refine ⟨⟨?_, by rw [hprev, update_self]⟩, ?_⟩
  · rw [hnext, update_of_ne hxz, update_self]
  · have hend : y :: (rest ++ [x]) = s ++ z :: x :: [] := by
      rw [← cons_append, hs]
      simp
    rw [hend, isChain_append_cons_cons, ← hs]
    refine ⟨hinner, ⟨?_, ?_⟩, isChain_singleton x⟩
    · rw [hnext, update_self]
    · rw [hprev, update_of_ne hxy, update_self]

/-- **A node goes to the front of its ring**: the others keep their order. -/
theorem Links.Ring.toFront (h : L.Ring (first :: rest)) (hmem : x ∈ first :: rest)
    (hne : x ≠ first) :
    ((L.unlink x).insertBefore x first).Ring (x :: (first :: rest).erase x) := by
  have hx : x ∈ rest := (mem_cons.mp hmem).resolve_left hne
  obtain ⟨pre, post, -, rfl, herase⟩ := exists_erase_eq hx
  rw [erase_cons_tail (by simpa using hne.symm), herase]
  refine (Links.Ring.unlink h).insertBefore ?_
  have hnodup : (first :: pre ++ x :: post).Nodup := h.nodup
  exact (nodup_cons.mp (nodup_middle.mp hnodup)).1

end SdcBoot.Lib
