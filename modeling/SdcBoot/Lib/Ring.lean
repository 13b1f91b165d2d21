/-
# Rings

A queue in an array of fixed size: its entries start at some cell, go on from cell to cell and from
the last cell to the first.  `window` reads them as a list.  What a queue needs is how a window
splits, that a window which does not wrap is a piece of the array, and that a write behind a window
leaves it alone.
-/
import Mathlib.Order.Lattice.Nat
import Mathlib.Tactic.Linarith

namespace SdcBoot.Lib

open List Nat

variable {α : Type}

/-- The `n` entries from `first` on, in a ring of `size` cells. -/
def window (size : Nat) (ring : Nat → α) (first n : Nat) : List α :=
  (List.range n).map fun k => ring ((first + k) % size)

@[simp] theorem length_window (size : Nat) (ring : Nat → α) (first n : Nat) :
    (window size ring first n).length = n := by
  simp [window]

/-- A window is two windows. -/
theorem window_add (size : Nat) (ring : Nat → α) (first m n : Nat) :
    window size ring first (m + n) =
      window size ring first m ++ window size ring ((first + m) % size) n := by
  unfold window
  rw [range_add, map_append, map_map]
  congr 1
  refine map_congr_left fun k _ => ?_
  rw [Function.comp_apply, mod_add_mod, add_assoc]

/-- A window that does not wrap. -/
theorem window_linear {size : Nat} (ring : Nat → α) (first n : Nat) (h : first + n ≤ size) :
    window size ring first n = (List.range n).map fun k => ring (first + k) := by
  refine map_congr_left fun k hk => ?_
  have hk := mem_range.mp hk
  rw [mod_eq_of_lt (by omega)]

theorem window_congr {size first n : Nat} {ring ring' : Nat → α}
    (h : ∀ k < n, ring' ((first + k) % size) = ring ((first + k) % size)) :
    window size ring' first n = window size ring first n :=
  map_congr_left fun k hk => h k (mem_range.mp hk)

/-- An index that wraps at most once. -/
theorem mod_wrap (size x : Nat) (h : x < 2 * size) :
    (x < size ∧ x % size = x) ∨ (size ≤ x ∧ x % size = x - size) := by
  by_cases hlt : x < size
  · exact .inl ⟨hlt, mod_eq_of_lt hlt⟩
  · have hle := Nat.le_of_not_lt hlt
    refine .inr ⟨hle, ?_⟩
    rw [mod_eq_sub_mod hle, mod_eq_of_lt (by omega)]

/-- The cells behind a window are none of its own. -/
theorem behind_window {size first n j k : Nat} (hfirst : first < size) (hj : n + j < size)
    (hk : k < n) : (first + k) % size ≠ ((first + n) % size + j) % size := by
  rw [mod_add_mod]
  have h1 := mod_wrap size (first + k) (by omega)
  have h2 := mod_wrap size (first + n + j) (by omega)
  omega

/-- **A write behind a window** appends to it: the cells behind it hold the data, the others what
they held. -/
theorem window_write {size first n : Nat} {ring ring' : Nat → α} {data : List α}
    (hfirst : first < size) (hroom : n + data.length ≤ size)
    (hin : ∀ j, (h : j < data.length) → ring' (((first + n) % size + j) % size) = data.get ⟨j, h⟩)
    (hout : ∀ x < size, (∀ j < data.length, x ≠ ((first + n) % size + j) % size) →
      ring' x = ring x) :
    window size ring' first (n + data.length) = window size ring first n ++ data := by
  rw [window_add]
  congr 1
  · refine window_congr fun k hk => hout _ (mod_lt _ (by omega)) fun j hj => ?_
    exact behind_window hfirst (by omega) hk
  · refine ext_getElem (by simp) fun j _ hj => ?_
    simpa [window] using hin j hj

end SdcBoot.Lib
